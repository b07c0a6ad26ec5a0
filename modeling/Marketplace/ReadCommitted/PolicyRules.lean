import Marketplace.ReadCommitted.Phases

/-!
Rules that show of a program that it follows a policy.
-/

namespace ReadCommitted

open Concurrent

variable {T Q K L X Ext : Type} {R : K → Type} {ExtRes : Ext → Type} {E α β : Type}

-- how an ended program may leave its phase; after an error there is nothing left but ROLLBACK
def Ends (G : α → Phase Q K L → Prop) : Except E α → Phase Q K L → Prop
  | .ok a, z => G a z
  | .error _, _ => True

/-- In every phase of `P` the program asks for nothing that the policy forbids, and a result leaves it in a
phase of `G`. -/
def Obeys [DecidableEq Q] (S : Policy Q K R Ext L) (P : Phase Q K L → Prop) (p : Client Q K R ExtRes E α)
    (G : α → Phase Q K L → Prop) : Prop :=
  ∀ z, P z → Follows S (Ends G) z p

section Rules

variable [DecidableEq Q] {S : Policy Q K R Ext L} {P : Phase Q K L → Prop}

theorem Follows.bind {G : α → Phase Q K L → Prop} {G' : β → Phase Q K L → Prop} {p : Client Q K R ExtRes E α}
    {f : α → Client Q K R ExtRes E β} {z : Phase Q K L} (hp : Follows S (Ends G) z p)
    (hf : ∀ a, Obeys S (G a) (f a) G') : Follows S (Ends G') z (p.bind f) := by
  induction p generalizing z with
  | done r =>
    cases r with
    | ok a => exact hf a z hp
    | error e => trivial
  | call a next ih =>
    obtain ⟨hasks, hkeeps, hnext⟩ := hp
    exact ⟨S.mono (fun _ => locksAhead_bind) hasks, hkeeps, fun r z' hz' => ih r (hnext r z' hz')⟩

theorem Follows.handle {G : α → Phase Q K L → Prop} {p : Client Q K R ExtRes E α} {h : E → Client Q K R ExtRes E α}
    {z : Phase Q K L} (hp : Follows S (Ends G) z p) (hh : ∀ e, Obeys S (fun _ => True) (h e) G) :
    Follows S (Ends G) z (p.handle h) := by
  induction p generalizing z with
  | done r =>
    cases r with
    | ok a => exact hp
    | error e => exact hh e z trivial
  | call a next ih =>
    obtain ⟨hasks, hkeeps, hnext⟩ := hp
    exact ⟨S.mono (fun _ => locksAhead_handle) hasks, hkeeps, fun r z' hz' => ih r (hnext r z' hz')⟩

theorem Follows.weaken {label : (k : K) → R k → L} {asks asks' : Phase Q K L → Action Q K R Ext → Prop}
    (h : ∀ z a, asks z a → asks' z a) {G : Except E α → Phase Q K L → Prop} {p : Client Q K R ExtRes E α}
    {z : Phase Q K L} (hp : Follows (.of label asks) G z p) : Follows (.of label asks') G z p := by
  induction p generalizing z with
  | done r => exact hp
  | call a next ih =>
    obtain ⟨hasks, hkeeps, hnext⟩ := hp
    exact ⟨h z a hasks, hkeeps, fun r z' hz' => ih r (hnext r z' hz')⟩

theorem Follows.post {G G' : Except E α → Phase Q K L → Prop} {p : Client Q K R ExtRes E α} {z : Phase Q K L}
    (hp : Follows S G z p) (h : ∀ r z, G r z → G' r z) : Follows S G' z p := by
  induction p generalizing z with
  | done r => exact h r z hp
  | call a next ih =>
    obtain ⟨hasks, hkeeps, hnext⟩ := hp
    exact ⟨hasks, hkeeps, fun r z' hz' => ih r (hnext r z' hz')⟩

namespace Obeys

theorem pure {a : α} {G : α → Phase Q K L → Prop} (h : ∀ z, P z → G a z) :
    Obeys S P (.done (.ok a) : Client Q K R ExtRes E α) G := h

theorem throw {e : E} {G : α → Phase Q K L → Prop} :
    Obeys S P (.done (.error e) : Client Q K R ExtRes E α) G := fun _ _ => trivial

theorem bind {p : Client Q K R ExtRes E α} {f : α → Client Q K R ExtRes E β} {G : α → Phase Q K L → Prop}
    {G' : β → Phase Q K L → Prop} (hp : Obeys S P p G) (hf : ∀ a, Obeys S (G a) (f a) G') :
    Obeys S P (p.bind f) G' := fun z hz => (hp z hz).bind hf

theorem handle {p : Client Q K R ExtRes E α} {h : E → Client Q K R ExtRes E α} {G : α → Phase Q K L → Prop}
    (hp : Obeys S P p G) (hh : ∀ e, Obeys S (fun _ => True) (h e) G) :
    Obeys S P (p.handle h) G := fun z hz => (hp z hz).handle hh

theorem pre {P' : Phase Q K L → Prop} {p : Client Q K R ExtRes E α} {G : α → Phase Q K L → Prop}
    (hp : Obeys S P p G) (h : ∀ z, P' z → P z) : Obeys S P' p G := fun z hz => hp z (h z hz)

theorem post {p : Client Q K R ExtRes E α} {G G' : α → Phase Q K L → Prop} (hp : Obeys S P p G)
    (h : ∀ a z, G a z → G' a z) : Obeys S P p G' := by
  refine fun z hz => (hp z hz).post fun r z hr => ?_
  cases r with
  | ok a => exact h a z hr
  | error e => trivial

theorem perform {a : Action Q K R Ext} {G : a.Res ExtRes → Phase Q K L → Prop} (hasks : ∀ z, P z → S.Permits z a)
    (hkeeps : ∀ z, P z → z.Keeps S.label a)
    (hpost : ∀ z r z', P z → S.After z a (.ok r : Except E (a.Res ExtRes)) z' → G r z') :
    Obeys S P (Prog.perform a : Client Q K R ExtRes E (a.Res ExtRes)) G := by
  refine fun z hz => ⟨S.mono (fun _ => False.elim) (hasks z hz), hkeeps z hz, fun r z' hz' => ?_⟩
  cases r with
  | ok r => exact hpost z r z' hz hz'
  | error e => trivial

end Obeys

section Statements

variable {e : E} {valid : (k : K) → R k → Bool} {G : Phase Q K L → Prop}
  (hstatement : ∀ z, S.Permits z (.sql .statement)) (hsee : ∀ z view, P z → P (z.see S.label view))

theorem statement_obeys (hstatement : ∀ z, S.Permits z (.sql .statement)) :
    Obeys S P (statement : Client Q K R ExtRes E _) fun view z => ∃ z', P z' ∧
      (∀ k l, z'.known k l → Phase.Shown S.label view k l) ∧ S.views z' view ∧ z = z'.see S.label view :=
  .perform (fun z _ => hstatement z) (fun _ _ => trivial) fun z _ _ hz hz' => ⟨z, hz, hz'.2.1, hz'.2.2, hz'.1⟩

theorem lock_obeys {k : K} {G : Option (R k) → Phase Q K L → Prop} (hasks : ∀ z, P z → S.Permits z (.sql (.lock k)))
    (hnone : ∀ z, P z → G none z) (hsome : ∀ z r, P z → G (some r) (z.take k (S.label k r))) :
    Obeys S P (lock k : Client Q K R ExtRes E (Option (R k))) G := by
  refine .perform hasks (fun _ _ => trivial) fun z r z' hz hz' => ?_
  cases r with
  | none =>
    obtain ⟨rfl, -⟩ := hz'
    exact hnone z' hz
  | some r =>
    cases hz'
    exact hsome z r hz

theorem tryLock_obeys {k : K} {G : Option (R k) → Phase Q K L → Prop}
    (hasks : ∀ z, P z → S.Permits z (.sql (.tryLock k))) (hnone : ∀ z, P z → G none z)
    (hsome : ∀ z r, P z → G (some r) (z.take k (S.label k r))) :
    Obeys S P (tryLock k : Client Q K R ExtRes E (Option (R k))) G := by
  refine .perform hasks (fun _ _ => trivial) fun z r z' hz hz' => ?_
  cases r with
  | none =>
    cases hz'
    exact hnone z hz
  | some r =>
    cases hz'
    exact hsome z r hz

theorem insertRow_obeys {k : K} {r : R k} {G : Bool → Phase Q K L → Prop}
    (hasks : ∀ z, P z → S.Permits z (.sql (.reserve k r)))
    (htrue : ∀ z, P z → G true (z.insert k (S.label k r))) (hfalse : ∀ z, P z → G false z) :
    Obeys S P (insertRow e valid k r : Client Q K R ExtRes E Bool) G := by
  unfold insertRow
  split
  · refine .perform hasks (fun _ _ => trivial) fun z b z' hz hz' => ?_
    cases b with
    | false =>
      cases hz'
      exact hfalse z hz
    | true =>
      cases hz'
      exact htrue z hz
  · exact .throw

theorem insertOrFail_obeys {k : K} {r : R k} (hasks : ∀ z, P z → S.Permits z (.sql (.reserve k r)))
    (hpost : ∀ z, P z → G (z.insert k (S.label k r))) :
    Obeys S P (insertOrFail e valid k r : Client Q K R ExtRes E Unit) fun _ => G := by
  refine .bind (insertRow_obeys (G := fun b z => b = true → G z) hasks (fun z hz _ => hpost z hz)
    fun _ _ h => nomatch h)
    fun inserted => ?_
  cases inserted with
  | true => exact .pure fun _ h => h rfl
  | false => exact .throw

include hstatement hsee

theorem statement_kept : Obeys S P (statement : Client Q K R ExtRes E _) fun _ => P :=
  .perform (fun z _ => hstatement z) (fun _ _ => trivial) fun z view _ hz hz' => hz'.1 ▸ hsee z view hz

theorem insertOrSkip_obeys {k : K} {r : R k} {G : Bool → Phase Q K L → Prop}
    (hasks : ∀ z, P z → S.Permits z (.sql (.reserve k r))) (htrue : ∀ z, P z → G true (z.insert k (S.label k r)))
    (hfalse : ∀ z, P z → G false z) :
    Obeys S P (insertOrSkip e valid k r : Client Q K R ExtRes E Bool) G :=
  .bind (statement_kept hstatement hsee) fun _ => insertRow_obeys hasks htrue hfalse

theorem insertWithId_obeys {q : Q} {key : ℕ → K} {row : (id : ℕ) → R (key id)} {G : ℕ → Phase Q K L → Prop}
    (hnextval : ∀ z, S.Permits z (.sql (.nextval q)))
    (hasks : ∀ z n, P z → z.drawn q ≤ n → S.Permits (z.draw S.ids q n) (.sql (.reserve (key n) (row n))))
    (hpost : ∀ z n, P z → z.drawn q ≤ n → G n ((z.draw S.ids q n).insert (key n) (S.label (key n) (row n)))) :
    Obeys S P (insertWithId e valid q key row : Client Q K R ExtRes E ℕ) G := by
  refine .bind (statement_kept hstatement hsee) fun _ => .bind
    (G := fun n z => ∃ z', P z' ∧ z'.drawn q ≤ n ∧ z = z'.draw S.ids q n)
    (.perform (fun z _ => hnextval z) (fun _ _ => trivial) fun z n z' hz hz' => ⟨z, hz, hz'⟩) fun n => ?_
  refine .bind (insertOrFail_obeys (G := G n) ?_ ?_) fun _ => .pure fun _ h => h
  · rintro _ ⟨z, hz, hn, rfl⟩
    exact hasks z n hz hn
  · rintro _ ⟨z, hz, hn, rfl⟩
    exact hpost z n hz hn

theorem selectForUpdate_obeys {k : K} {G : Option (R k) → Phase Q K L → Prop}
    (hasks : ∀ z, P z → S.Permits z (.sql (.lock k))) (hnone : ∀ z, P z → G none z)
    (hsome : ∀ z r, P z → G (some r) (z.take k (S.label k r))) :
    Obeys S P (selectForUpdate k : Client Q K R ExtRes E (Option (R k))) G := by
  refine .bind (statement_kept hstatement hsee) fun view => ?_
  split
  · exact .pure hnone
  · exact lock_obeys hasks hnone hsome

theorem updateWhere_obeys {k : K} {p : R k → Bool} {f : R k → R k} (hlabel : ∀ r, S.label k (f r) = S.label k r)
    (hasks : ∀ z, P z → S.Permits z (.sql (.lock k)))
    (hput : ∀ z r, P z → S.Permits (z.take k (S.label k r)) (.sql (.put k (f r)))) (hsame : ∀ z, P z → G z)
    (hpost : ∀ z r, P z → G (z.take k (S.label k r))) :
    Obeys S P (updateWhere e valid k p f : Client Q K R ExtRes E (Option (R k))) fun _ => G := by
  refine .bind (statement_kept hstatement hsee) fun view => ?_
  split
  · exact .pure hsame
  split
  · refine .bind (lock_obeys (G := fun r z => ∃ z', P z' ∧ z = r.elim z' fun r => z'.take k (S.label k r)) hasks
      (fun z hz => ⟨z, hz, rfl⟩) fun z r hz => ⟨z, hz, rfl⟩) fun latest => ?_
    cases latest with
    | none =>
      refine .pure ?_
      rintro z ⟨z', hz, hz'⟩
      exact hz' ▸ hsame z' hz
    | some latest =>
      have htaken : ∀ z, (∃ z', P z' ∧ z = z'.take k (S.label k latest)) → G z := by
        rintro _ ⟨z, hz, rfl⟩
        exact hpost z latest hz
      dsimp only [Option.elim_some]
      split
      · split
        · refine .bind (G := fun _ => G) (.perform ?_ ?_ fun z _ z' hz hz' => ?_) fun _ => .pure fun _ h => h
          · rintro _ ⟨z, hz, rfl⟩
            exact hput z latest hz
          · rintro _ ⟨z, hz, rfl⟩
            exact ⟨.inl rfl, .inl ⟨rfl, hlabel latest⟩⟩
          · cases hz'
            exact htaken z hz
        · exact .throw
      · exact .pure htaken
  · exact .pure hsame

theorem insertOrUpdate_obeys {k : K} {r : R k} {f : R k → R k} (hlabel : ∀ r, S.label k (f r) = S.label k r)
    (hreserve : ∀ z, P z → S.Permits z (.sql (.reserve k r))) (hlock : ∀ z, P z → S.Permits z (.sql (.lock k)))
    (hput : ∀ z r, P z → S.Permits (z.take k (S.label k r)) (.sql (.put k (f r))))
    (hinsert : ∀ z, P z → G (z.insert k (S.label k r))) (hpost : ∀ z r, P z → G (z.take k (S.label k r))) :
    Obeys S P (insertOrUpdate e valid k r f : Client Q K R ExtRes E Unit) fun _ => G := by
  refine .bind (statement_kept hstatement hsee) fun _ => .bind (G := fun inserted z => if inserted then G z else P z)
    (insertRow_obeys hreserve hinsert fun _ h => h) fun inserted => ?_
  cases inserted with
  | true => exact .pure fun _ h => h
  | false =>
    refine .bind (lock_obeys (P := P) (G := fun r z => ∀ x, r = some x → ∃ z', P z' ∧ z = z'.take k (S.label k x)) hlock
      (fun _ _ _ h => by cases h) fun z r hz x hx => ?_) fun latest => ?_
    · cases hx
      exact ⟨z, hz, rfl⟩
    cases latest with
    | none => exact .throw
    | some latest =>
      dsimp only
      split
      · refine .perform (fun z h => ?_) (fun z h => ?_) fun z _ z' h hz' => ?_
        · obtain ⟨z, hz, rfl⟩ := h latest rfl
          exact hput z latest hz
        · obtain ⟨z, hz, rfl⟩ := h latest rfl
          exact ⟨.inl rfl, .inl ⟨rfl, hlabel latest⟩⟩
        · obtain ⟨z, hz, rfl⟩ := h latest rfl
          cases hz'
          exact hpost z latest hz
      · exact .throw

end Statements

end Rules

end ReadCommitted
