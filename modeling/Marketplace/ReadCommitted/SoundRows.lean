import Marketplace.ReadCommitted.Writes

/-!
A property of all rows, committed or not. It is kept by programs that write such rows as long as they
read such rows.
-/

namespace ReadCommitted

open Concurrent

variable {T Q K X Ext : Type} {R : K → Type} {ExtRes : Ext → Type} {E α β : Type}

structure Sound (G : (k : K) → R k → Prop) (db : Database T Q K R) : Prop where
  committed : ∀ k r, db.committed k = some r → G k r
  held : ∀ k t r, db.held k = some (t, r) → G k r

def Action.ReadsIn (G : (k : K) → R k → Prop) : (a : Action Q K R Ext) → Except E (a.Res ExtRes) → Prop
  | .sql .statement, .ok view => ∀ k r, view.row k = some r → G k r
  | .sql (.lock k), .ok row => ∀ r, row = some r → G k r
  | .sql (.tryLock k), .ok row => ∀ r, row = some r → G k r
  | _, _ => True

def SoundClient (G : (k : K) → R k → Prop) (Z : α → Prop) : Client Q K R ExtRes E α → Prop
  | .done (.ok a) => Z a
  | .done (.error _) => True
  | .call a next => a.WritesIn G ∧ ∀ r, a.ReadsIn G r → SoundClient G Z (next r)

namespace SoundClient

variable {G : (k : K) → R k → Prop} {Z Z' : α → Prop} {W : β → Prop}

theorem bind {p : Client Q K R ExtRes E α} {f : α → Client Q K R ExtRes E β} (hp : SoundClient G Z p)
    (hf : ∀ a, Z a → SoundClient G W (f a)) : SoundClient G W (p.bind f) := by
  induction p with
  | done r =>
    cases r with
    | ok a => exact hf a hp
    | error e => trivial
  | call o next ih => exact ⟨hp.1, fun r hr => ih r (hp.2 r hr)⟩

theorem handle {p : Client Q K R ExtRes E α} {h : E → Client Q K R ExtRes E α} (hp : SoundClient G Z p)
    (hh : ∀ e, SoundClient G Z (h e)) : SoundClient G Z (p.handle h) := by
  induction p with
  | done r =>
    cases r with
    | ok a => exact hp
    | error e => exact hh e
  | call o next ih => exact ⟨hp.1, fun r hr => ih r (hp.2 r hr)⟩

theorem mono {p : Client Q K R ExtRes E α} (hp : SoundClient G Z p) (h : ∀ a, Z a → Z' a) : SoundClient G Z' p := by
  induction p with
  | done r =>
    cases r with
    | ok a => exact h a hp
    | error e => trivial
  | call o next ih => exact ⟨hp.1, fun r hr => ih r (hp.2 r hr)⟩

theorem of_onlyWrites {p : Client Q K R ExtRes E α} (hp : OnlyWrites G p) : SoundClient G (fun _ => True) p := by
  induction p with
  | done r =>
    cases r with
    | ok a => trivial
    | error e => trivial
  | call o next ih => exact ⟨hp.1, fun r _ => ih r (hp.2 r)⟩

theorem statement : SoundClient G (fun view => ∀ k r, view.row k = some r → G k r)
    (statement : Client Q K R ExtRes E _) := by
  refine ⟨nofun, fun r hr => ?_⟩
  cases r with
  | ok view => exact hr
  | error e => trivial

theorem lock (k : K) : SoundClient G (fun row => ∀ r, row = some r → G k r) (lock k : Client Q K R ExtRes E _) := by
  refine ⟨nofun, fun r hr => ?_⟩
  cases r with
  | ok row => exact hr
  | error e => trivial

theorem updateWhere {e : E} {valid : (k : K) → R k → Bool} {k : K} {p : R k → Bool} {f : R k → R k}
    (hf : ∀ r, G k r → G k (f r)) : SoundClient G (fun _ => True)
      (updateWhere e valid k p f : Client Q K R ExtRes E (Option (R k))) := by
  refine .bind .statement fun view _ => ?_
  split
  · trivial
  · split
    · refine .bind (.lock k) fun latest hlatest => ?_
      split
      · trivial
      · rename_i row
        split
        · split
          · exact .bind (.of_onlyWrites (onlyWrites_put (hf row (hlatest row rfl)))) fun _ _ => trivial
          · trivial
        · trivial
    · trivial

theorem insertOrUpdate {e : E} {valid : (k : K) → R k → Bool} {k : K} {r : R k} {f : R k → R k} (hr : G k r)
    (hf : ∀ r, G k r → G k (f r)) :
    SoundClient G (fun _ => True) (insertOrUpdate e valid k r f : Client Q K R ExtRes E Unit) := by
  refine .bind .statement fun _ _ => .bind (.of_onlyWrites (onlyWrites_insertRow hr)) fun inserted _ => ?_
  split
  · trivial
  · refine .bind (.lock k) fun latest hlatest => ?_
    split
    · trivial
    · rename_i row
      split
      · exact .of_onlyWrites (onlyWrites_put (hf row (hlatest row rfl)))
      · trivial

theorem autocommit {body : Client Q K R ExtRes E α} (h : SoundClient G Z body) : SoundClient G Z (autocommit body) := by
  refine .bind (.of_onlyWrites onlyWrites_begin) fun _ _ => .handle ?_ fun error => ?_
  · exact .bind h fun a ha => .bind (.of_onlyWrites onlyWrites_commit) fun _ _ => ha
  · exact .bind (.handle (.of_onlyWrites onlyWrites_rollback) fun _ => trivial) fun _ _ => trivial

end SoundClient

section Runs

variable {G : (k : K) → R k → Prop} [DecidableEq T] {db db' : Database T Q K R} {t : T}

theorem Sound.visible (h : Sound G db) {k : K} {r : R k} (hk : db.visible t k = some r) : G k r := by
  cases hw : db.workspace t k with
  | none => exact h.committed k r ((Database.visible_of_none hw).symm.trans hk)
  | some ch =>
    obtain rfl : ch.new = r := by simpa [Database.visible_of_workspace hw] using hk
    exact h.held k t _ (Database.held_of_workspace hw)

theorem Sound.commit (h : Sound G db) : Sound G (db.commit t) := by
  unfold Database.commit
  split
  · exact ⟨fun k r hk => h.visible hk, fun k u r hk => h.held k u r (Database.release_eq_some.mp hk).1⟩
  · exact h

theorem Sound.rollback (h : Sound G db) : Sound G (db.rollback t) := by
  unfold Database.rollback
  split
  · exact ⟨h.committed, fun k u r hk => h.held k u r (Database.release_eq_some.mp hk).1⟩
  · exact h

omit [DecidableEq T] in
theorem Sound.hold [DecidableEq K] (h : Sound G db) {k : K} {r : R k} (hr : G k r) : Sound G (db.hold t k r) := by
  refine ⟨h.committed, fun j u x hj => ?_⟩
  by_cases hjk : j = k
  · subst hjk
    simp only [Database.hold, Function.update_self, Option.some.injEq, Prod.mk.injEq] at hj
    obtain ⟨-, rfl⟩ := hj
    exact hr
  · simp only [Database.hold, Function.update_of_ne hjk] at hj
    exact h.held j u x hj

variable [DecidableEq K]

theorem Sound.locks (h : Sound G db) {k : K} {row : Option (R k)} (hl : db.Locks t k row db') :
    Sound G db' ∧ ∀ r, row = some r → G k r := by
  cases hl with
  | again hw =>
    refine ⟨h, ?_⟩
    rintro _ ⟨⟩
    exact h.held k t _ (Database.held_of_workspace hw)
  | missing _ => exact ⟨h, nofun⟩
  | taken _ hc =>
    have hr := h.committed k _ hc
    refine ⟨h.hold hr, ?_⟩
    rintro _ ⟨⟩
    exact hr

variable [DecidableEq Q]

theorem Sound.exec (h : Sound G db) {o : Stmt Q K R} {r : o.Res} (ho : ∀ k r, o.Writes k r → G k r)
    (hx : db.exec t o = some (r, db')) :
    Sound G db' ∧ Action.ReadsIn G (.sql o : Action Q K R Ext)
    (.ok r : Except E ((.sql o : Action Q K R Ext).Res ExtRes)) := by
  cases o with
  | begin =>
    cases hx
    exact ⟨⟨h.committed, h.held⟩, trivial⟩
  | commit =>
    cases hx
    exact ⟨h.commit, trivial⟩
  | rollback =>
    cases hx
    exact ⟨h.rollback, trivial⟩
  | statement =>
    cases hx
    exact ⟨⟨h.committed, h.held⟩, fun _ _ hk => h.visible hk⟩
  | nextval q =>
    cases hx
    exact ⟨⟨h.committed, h.held⟩, trivial⟩
  | lock k => exact h.locks (Database.locks_of_lock hx)
  | tryLock k => exact h.locks (Database.locks_of_tryLock hx)
  | put k x =>
    obtain ⟨-, rfl⟩ := Database.put_eq hx
    exact ⟨h.hold (ho k x .put), trivial⟩
  | reserve k x =>
    rcases Database.reserve_eq hx with ⟨-, rfl, -⟩ | ⟨-, rfl, -⟩
    · exact ⟨h, trivial⟩
    · exact ⟨h.hold (ho k x .reserve), trivial⟩

variable {M : Machine T X Ext ExtRes E} {e : E} {Z : α → Prop}

theorem Sound.performs {w w' : World T Q K R X} {a : Action Q K R Ext} {r : Except E (a.Res ExtRes)} (h : Sound G w.db)
    (ha : a.WritesIn G) (hx : (withDatabase M e).perform t a w r w') : Sound G w'.db ∧ a.ReadsIn G r := by
  cases hx with
  | answer hexec => exact h.exec ha hexec
  | @refuse _ o _ => exact ⟨h, by cases o <;> trivial⟩
  | lostCommit => exact ⟨h.commit, trivial⟩
  | lostRollback => exact ⟨h.rollback, trivial⟩
  | ext _ => exact ⟨h, trivial⟩

/-- Whatever the clients do, all rows they ever see or leave are rows of `G`. -/
theorem sound_run {w : World T Q K R X} {code : T → Client Q K R ExtRes E α} {c : Config T _ _ _ E α}
    (hw : Sound G w.db) (hcode : ∀ t, SoundClient G Z (code t))
    (h : (withDatabase M e).Reachable (.start w code) c) :
    Sound G c.shared.db ∧ ∀ t p, c.prog t = some p → SoundClient G Z p := by
  induction h with
  | refl =>
    refine ⟨hw, ?_⟩
    rintro t _ ⟨⟩
    exact hcode t
  | tail _ hs ih =>
    obtain ⟨hsound, hprogs⟩ := ih
    cases hs with
    | @call t a next r w' hp hx =>
      obtain ⟨hwrites, hnext⟩ := hprogs t _ hp
      obtain ⟨hsound', hreads⟩ := hsound.performs hwrites hx
      refine ⟨hsound', fun u p hu => ?_⟩
      by_cases hut : u = t
      · subst hut
        simp only [Function.update_self, Option.some.injEq] at hu
        subst hu
        exact hnext r hreads
      · simp only [Function.update_of_ne hut] at hu
        exact hprogs u p hu
    | @crash t a next w' hp hx =>
      have hdb : w'.db = _ := hx.1
      refine ⟨by rw [hdb]; exact hsound.rollback, fun u p hu => ?_⟩
      by_cases hut : u = t
      · subst hut
        simp only [Function.update_self, reduceCtorEq] at hu
      · simp only [Function.update_of_ne hut] at hu
        exact hprogs u p hu

end Runs

section Presence

variable [DecidableEq T] [DecidableEq Q] [DecidableEq K] {M : Machine T X Ext ExtRes E} {e : E} {k : K}

omit [DecidableEq Q] [DecidableEq K] in
theorem Database.present_commit {db : Database T Q K R} {t : T} (h : (db.committed k).isSome) :
    ((db.commit t).committed k).isSome := by
  unfold Database.commit
  split
  · change (db.visible t k).isSome
    unfold Database.visible
    split
    · split
      · rfl
      · exact h
    · exact h
  · exact h

theorem Database.present_exec {db db' : Database T Q K R} {t : T} {o : Stmt Q K R} {r : o.Res}
    (hx : db.exec t o = some (r, db')) (h : (db.committed k).isSome) : (db'.committed k).isSome := by
  by_cases ho : o.IsInner
  · rw [(Database.exec_works ho hx).committed]
    exact h
  · cases o with
    | begin =>
      cases hx
      exact h
    | commit =>
      cases hx
      exact Database.present_commit h
    | rollback =>
      cases hx
      rw [Database.committed_rollback]
      exact h
    | _ => exact absurd trivial ho

theorem present_run {c d : Config T (World T Q K R X) (Action Q K R Ext) (Action.Res ExtRes) E α}
    (h : (withDatabase M e).Reachable c d) (hk : (c.shared.db.committed k).isSome) :
    (d.shared.db.committed k).isSome := by
  induction h with
  | refl => exact hk
  | tail _ hs ih =>
    cases hs with
    | call _ hx =>
      cases hx with
      | answer hexec => exact Database.present_exec hexec ih
      | refuse _ => exact ih
      | lostCommit => exact Database.present_commit ih
      | lostRollback =>
        rw [Database.committed_rollback]
        exact ih
      | ext _ => exact ih
    | crash _ hx =>
      rw [hx.1, Database.committed_rollback]
      exact ih

end Presence

end ReadCommitted
