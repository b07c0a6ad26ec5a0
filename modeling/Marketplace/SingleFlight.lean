import Marketplace.Cache
import Marketplace.Concurrent.RelyGuarantee
import Marketplace.Values

namespace Marketplace

open Concurrent Redis

variable {T V : Type}

/-- What is assumed of every step: no command and no loader fails, the loader does not answer `null`, the
value has not expired, and no lock holder that `counts` is still filling when its lock runs out. -/
structure CachePremises (key : String) (counts : Filling → Bool) (o : CacheOp) (s : CacheState T V)
    (r : Except CacheFailure (o.Res V)) (s' : CacheState T V) : Prop where
  answered : ∃ a, r = .ok a
  value : none ∉ s'.loaded
  kept : ∀ stored, s.strings key = some stored → ∀ time ∈ stored.expireAt, s'.clock ≤ time
  inTime : ∀ t f, s.filling t = some f → counts f → s'.clock < f.acquiredAt + lockTtlMs

abbrev steadyCache [DecidableEq T] (json : Json V) (key : String) (counts : Filling → Bool) :
    Machine T (CacheState T V) CacheOp (CacheOp.Res V) CacheFailure :=
  (cacheMachine json).restrict (fun _ => CachePremises key counts) fun _ _ _ => True

section Flight

structure Cold (key : String) (s : CacheState T V) : Prop where
  value : s.strings key = none
  lock : s.strings (lockKeyOf key) = none
  filling : ∀ t, s.filling t = none
  loads : s.loads = []
  loaded : s.loaded = []

-- the only lock holder, while there is no value
structure Held (key : String) (s : CacheState T V) (t : T) (f : Filling) : Prop where
  filling : s.filling t = some f
  only : ∀ t' f', s.filling t' = some f' → t' = t
  lock : ∃ token, s.strings (lockKeyOf key) = some ⟨token, some (f.acquiredAt + lockTtlMs)⟩
  acquired : f.acquiredAt ≤ s.clock
  loads : s.loads = [] ∧ s.loaded = [] ∨ s.loads = [.underLock]

structure Flight (json : Json V) (key : String) (s : CacheState T V) : Prop where
  warm : ∀ stored, s.strings key = some stored →
    ∃ v, json.parse stored.value = some (some v) ∧ s.loads = [.underLock] ∧ s.loaded = [some v]
  cold : s.strings key = none → Cold key s ∨ ∃ t f, Held key s t f

structure Onward (key : String) (s s' : CacheState T V) : Prop where
  clock : s.clock ≤ s'.clock
  warm : ∀ stored, s.strings key = some stored →
    s'.strings key = some stored ∧ s'.loads = s.loads ∧ s'.loaded = s.loaded
  filling : ∀ t f, s.filling t = some f → s'.strings key = none →
    ∃ f', s'.filling t = some f' ∧ f'.acquiredAt = f.acquiredAt

-- nobody else fills the cache while `t` holds the lock
def FilledByHolder (key : String) (t : T) (s s' : CacheState T V) : Prop :=
  s.strings key = none → s.filling t ≠ none →
    s'.strings key = none ∧ s'.loads = s.loads ∧ s'.loaded = s.loaded

theorem Onward.missing {key : String} {s s' : CacheState T V} (h : Onward key s s') (hs' : s'.strings key = none) :
    s.strings key = none := by
  cases hs : s.strings key with
  | none => rfl
  | some stored => exact absurd ((h.warm stored hs).1.symm.trans hs') (by simp)

theorem Onward.trans {key : String} {s s' s'' : CacheState T V} (h : Onward key s s') (h' : Onward key s' s'') :
    Onward key s s'' where
  clock := h.clock.trans h'.clock
  warm stored hs := by
    obtain ⟨hvalue, hloads, hloaded⟩ := h.warm stored hs
    obtain ⟨hvalue', hloads', hloaded'⟩ := h'.warm stored hvalue
    exact ⟨hvalue', hloads'.trans hloads, hloaded'.trans hloaded⟩
  filling t f hf hs := by
    obtain ⟨f', hf', hacquired⟩ := h.filling t f hf (h'.missing hs)
    obtain ⟨f'', hf'', hacquired'⟩ := h'.filling t f' hf' hs
    exact ⟨f'', hf'', hacquired'.trans hacquired⟩

theorem flight_at {json : Json V} {key : String} {s : CacheState T V} {clock : ℕ} (h : Flight json key s)
    (hclock : s.clock ≤ clock) : Flight json key (s.at clock) where
  warm := h.warm
  cold hs := by
    rcases h.cold hs with hcold | ⟨t, f, hheld⟩
    · exact .inl ⟨hcold.value, hcold.lock, hcold.filling, hcold.loads, hcold.loaded⟩
    · exact .inr ⟨t, f, hheld.filling, hheld.only, hheld.lock, hheld.acquired.trans hclock, hheld.loads⟩

theorem held_of_filling {json : Json V} {key : String} {s : CacheState T V} {t : T} {f : Filling}
    (h : Flight json key s) (hs : s.strings key = none) (hf : s.filling t = some f) : Held key s t f := by
  rcases h.cold hs with hcold | ⟨t', f', hheld⟩
  · exact absurd (hf.symm.trans (hcold.filling t)) (by simp)
  · obtain rfl := hheld.only t f hf
    obtain rfl := Option.some.inj (hf.symm.trans hheld.filling)
    exact hheld

end Flight

variable [DecidableEq T]

def singleFlight (json : Json V) (key : String) :
    Discipline (steadyCache (T := T) json key fun _ => true) where
  inv := Flight json key
  always := Onward key
  rely := FilledByHolder key
  gone _ _ := True
  always_refl s := ⟨Nat.le_refl _, fun _ h => ⟨h, rfl, rfl⟩, fun _ f h _ => ⟨f, h, rfl⟩⟩
  always_trans := Onward.trans
  rely_refl _ _ hs _ := ⟨hs, rfl, rfl⟩
  rely_trans := by
    intro t s s' s'' hframe _ _ _ h h' hs hf
    obtain ⟨hvalue, hloads, hloaded⟩ := h hs hf
    obtain ⟨hvalue', hloads', hloaded'⟩ := h' hvalue (by rw [hframe]; exact hf)
    exact ⟨hvalue', hloads'.trans hloads, hloaded'.trans hloaded⟩

section Steps

variable {json : Json V} {key : String} {t : T} {s : CacheState T V} {clock : ℕ}

theorem lockKey_ne (key : String) : key ≠ lockKeyOf key := by
  intro h
  have hl := congrArg (fun text => text.toList.length) h
  simp [lockKeyOf, String.toList_append] at hl
  omega

theorem allows_at (h : Flight json key s) (hclock : s.clock ≤ clock) :
    (singleFlight json key).Allows t s (s.at clock) where
  inv := flight_at h hclock
  always := ⟨hclock, fun _ hs => ⟨hs, rfl, rfl⟩, fun _ f hf _ => ⟨f, hf, rfl⟩⟩
  rely _ _ hs _ := ⟨hs, rfl, rfl⟩

theorem allows_warm {s' : CacheState T V} {stored : Stored String} (h : Flight json key s)
    (hs : s.strings key = some stored) (hclock : s.clock ≤ s'.clock) (hs' : s'.strings key = some stored)
    (hloads : s'.loads = s.loads) (hloaded : s'.loaded = s.loaded) : (singleFlight json key).Allows t s s' where
  inv := by
    refine ⟨fun stored' hstored' => ?_, fun hnone => absurd (hs'.symm.trans hnone) (by simp)⟩
    obtain rfl := Option.some.inj (hs'.symm.trans hstored')
    rw [hloads, hloaded]
    exact h.warm stored hs
  always := by
    refine ⟨hclock, fun stored' hstored' => ?_, fun _ _ _ hnone => absurd (hs'.symm.trans hnone) (by simp)⟩
    obtain rfl := Option.some.inj (hs.symm.trans hstored')
    exact ⟨hs', hloads, hloaded⟩
  rely _ _ hnone := absurd (hs.symm.trans hnone) (by simp)

theorem allows_held {s' : CacheState T V} {f f' : Filling} (h : Held key s t f) (hclock : s.clock ≤ s'.clock)
    (hs : s.strings key = none) (hs' : s'.strings = s.strings)
    (hfilling : s'.filling = Function.update s.filling t (some f')) (hf' : f'.acquiredAt = f.acquiredAt)
    (hloads : s'.loads = [] ∧ s'.loaded = [] ∨ s'.loads = [.underLock]) :
    (singleFlight json key).Allows t s s' where
  inv := by
    refine ⟨fun stored hstored => ?_, fun _ => .inr ⟨t, f', ?_, fun t' f'' hf'' => ?_, ?_, ?_, hloads⟩⟩
    · rw [hs', hs] at hstored
      cases hstored
    · rw [hfilling, Function.update_self]
    · by_cases ht : t' = t
      · exact ht
      · rw [hfilling, Function.update_of_ne ht] at hf''
        exact h.only t' f'' hf''
    · rw [hs', hf']
      exact h.lock
    · rw [hf']
      exact h.acquired.trans hclock
  always := by
    refine ⟨hclock, fun stored hstored => absurd (hs.symm.trans hstored) (by simp), fun t' f'' hf'' _ => ?_⟩
    obtain rfl := h.only t' f'' hf''
    obtain rfl := Option.some.inj (hf''.symm.trans h.filling)
    exact ⟨f', by rw [hfilling, Function.update_self], hf'⟩
  rely := by
    intro t' hne _ hfilling'
    obtain ⟨f'', hf''⟩ := Option.ne_none_iff_exists'.mp hfilling'
    exact absurd (h.only t' f'' hf'').symm hne

theorem allows_lock {s' : CacheState T V} {token : String} (h : Cold key s) (hclock : s.clock ≤ clock)
    (hs' : s' = { s with
      clock := clock
      strings := s.strings.set (lockKeyOf key) token (clock + lockTtlMs)
      filling := Function.update s.filling t (some ⟨clock, false⟩) }) :
    (singleFlight json key).Allows t s s' := by
  have hvalue : s'.strings key = none := by
    rw [hs']
    exact (Strings.set_other (lockKey_ne key)).trans h.value
  have hfree : ∀ t' f, s.filling t' ≠ some f := fun t' f hf => absurd (hf.symm.trans (h.filling t')) (by simp)
  subst hs'
  constructor
  · refine ⟨fun stored hstored => absurd (hvalue.symm.trans hstored) (by simp), fun _ => .inr ⟨t, ⟨clock, false⟩, ?_⟩⟩
    refine ⟨Function.update_self .., fun t' f hf => ?_, ⟨token, Function.update_self ..⟩, Nat.le_refl _,
      .inl ⟨h.loads, h.loaded⟩⟩
    by_cases ht : t' = t
    · exact ht
    · exact absurd ((Function.update_of_ne ht _ _).symm.trans hf) (hfree t' f)
  · exact ⟨hclock, fun stored hstored => absurd (h.value.symm.trans hstored) (by simp),
      fun t' f hf => absurd hf (hfree t' f)⟩
  · exact fun t' _ _ hfilling => absurd (h.filling t') hfilling

end Steps

section Operations

variable {json : Json V} {key : String} {t : T} {P : CacheState T V → Prop}

theorem op_spec {o : CacheOp} {Q : o.Res V → CacheState T V → Prop} (hP : (singleFlight json key).Stable t P)
    (hQ : ∀ a, (singleFlight json key).Stable t (Q a))
    (h : ∀ s a s', Flight json key s → P s → CachePerforms json t o s (.ok a) s' →
      CachePremises key (fun _ => true) o s (.ok a) s' → (singleFlight json key).Allows t s s' ∧ Q a s') :
    (singleFlight json key).Triple t P (Prog.perform o) Q fun _ _ => False := by
  apply Discipline.Triple.perform hP _ _ hQ fun _ => .const
  · rintro s r s' hi hp ⟨hperform, hpremises⟩
    obtain ⟨a, rfl⟩ := hpremises.answered
    exact h s a s' hi hp hperform hpremises
  · rintro s s' hi - ⟨rfl, -⟩
    exact ⟨allows_at hi (Nat.le_refl _), fun _ _ => trivial⟩

theorem exec_of_performs {o : CacheOp} {a : o.Res V} {s s' : CacheState T V} (hloader : o ≠ .loader)
    (hjitter : o ≠ .ttlJitter) (h : CachePerforms json t o s (.ok a) s') :
    ∃ clock, s.clock ≤ clock ∧ o.exec json t (s.at clock) = some (a, s') := by
  cases h with
  | answer hclock hexec => exact ⟨_, hclock, hexec⟩
  | jitter => exact absurd rfl hjitter
  | loaded => exact absurd rfl hloader

def CachedAnswer (key : String) (v : V) (s : CacheState T V) : Prop :=
  (∃ stored, s.strings key = some stored) ∧ s.loads = [.underLock] ∧ s.loaded = [some v]

theorem CachedAnswer.stable (v : V) : (singleFlight json key).Stable t (CachedAnswer key v) := by
  rintro s s' - ⟨⟨stored, hs⟩, hloads, hloaded⟩ hinterferes
  obtain ⟨hs', hloads', hloaded'⟩ := hinterferes.always.warm stored hs
  exact ⟨⟨stored, hs'⟩, hloads'.trans hloads, hloaded'.trans hloaded⟩

theorem getCachedJson_spec {N : CacheState T V → Prop} (hP : (singleFlight json key).Stable t P)
    (hN : (singleFlight json key).Stable t N)
    (h : ∀ s clock, Flight json key s → P s → s.clock ≤ clock → s.strings key = none →
      (∀ t f, s.filling t = some f → clock < f.acquiredAt + lockTtlMs) → N (s.at clock)) :
    (singleFlight json key).Triple t P (getCachedJson json key)
      (fun r s => match r with
        | some v => CachedAnswer key v s
        | none => N s) fun _ _ => False := by
  refine .bind (R := fun r s => match r with
    | some value => ∃ v, json.parse value = some (some v) ∧ CachedAnswer key v s
    | none => N s) (op_spec hP ?_ ?_) ?_
  · intro r
    cases r with
    | none => exact hN
    | some value => exact .exists fun v => .and .const (CachedAnswer.stable v)
  · rintro s value s' hi hp hperform hpremises
    obtain ⟨clock, hclock, hexec⟩ := exec_of_performs (by simp) (by simp) hperform
    cases hs : s.strings key with
    | none =>
      have hget : s.strings.get clock key = none := Strings.get_of_missing hs
      simp only [CacheOp.exec, CacheState.at, hget, Option.bind_none, Option.some.injEq, Prod.mk.injEq] at hexec
      obtain ⟨rfl, rfl⟩ := hexec
      exact ⟨allows_at hi hclock, h s clock hi hp hclock hs fun t f hf => hpremises.inTime t f hf rfl⟩
    | some stored =>
      obtain ⟨v, hv, hloads, hloaded⟩ := hi.warm stored hs
      have hlive : ∀ time ∈ stored.expireAt, clock ≤ time := by
        have hkept := hpremises.kept stored hs
        simp only [CacheOp.exec, Option.some.injEq, Prod.mk.injEq] at hexec
        rw [← hexec.2] at hkept
        exact hkept
      have hget : s.strings.get clock key = some stored.value := Strings.get_of_live hs hlive
      simp only [CacheOp.exec, CacheState.at, hget, Option.bind_some, hv, Option.some.injEq, Prod.mk.injEq] at hexec
      obtain ⟨rfl, rfl⟩ := hexec
      exact ⟨allows_warm hi hs hclock hs rfl rfl, v, hv, ⟨stored, hs⟩, hloads, hloaded⟩
  · intro r
    cases r with
    | none => exact .pure hN fun _ _ h => h
    | some value =>
      refine .exists_pre fun v => .pure_pre fun hv => ?_
      simp only [hv]
      exact .pure (CachedAnswer.stable v) fun _ _ h => h

def LockTaken (key : String) (t : T) (s : CacheState T V) : Prop :=
  (∃ f, s.filling t = some f) ∧ (s.strings key = none → s.loads = [] ∧ s.loaded = [])

/-- `t` fills the cache: it has made these calls of the loader, with these answers. -/
def Loading (key : String) (t : T) (loads : List LoadPlace) (loaded : List (Option V)) (s : CacheState T V) : Prop :=
  (∃ f, s.filling t = some f) ∧ s.strings key = none ∧ s.loads = loads ∧ s.loaded = loaded

def Awaiting (key : String) (since : ℕ) (s : CacheState T V) : Prop :=
  s.strings key = none → ∃ t f, s.filling t = some f ∧ f.acquiredAt ≤ since

def Elapsed (time : ℕ) (s : CacheState T V) : Prop := time ≤ s.clock

theorem Loading.stable (loads : List LoadPlace) (loaded : List (Option V)) :
    (singleFlight json key).Stable t (Loading key t loads loaded) := by
  rintro s s' - ⟨⟨f, hf⟩, hs, hloads, hloaded⟩ hinterferes
  obtain ⟨hs', hloads', hloaded'⟩ := hinterferes.rely hs (by simp [hf])
  exact ⟨⟨f, hinterferes.frame.trans hf⟩, hs', hloads'.trans hloads, hloaded'.trans hloaded⟩

theorem LockTaken.stable : (singleFlight json key).Stable t (LockTaken (V := V) key t) := by
  rintro s s' - ⟨⟨f, hf⟩, hnone⟩ hinterferes
  refine ⟨⟨f, hinterferes.frame.trans hf⟩, fun hs' => ?_⟩
  have hs := hinterferes.always.missing hs'
  obtain ⟨-, hloads, hloaded⟩ := hinterferes.rely hs (by simp [hf])
  rw [hloads, hloaded]
  exact hnone hs

theorem Awaiting.stable (since : ℕ) : (singleFlight json key).Stable t (Awaiting key since) := by
  rintro s s' - hawaiting hinterferes hs'
  obtain ⟨t', f, hf, hacquired⟩ := hawaiting (hinterferes.always.missing hs')
  obtain ⟨f', hf', hsame⟩ := hinterferes.always.filling t' f hf hs'
  exact ⟨t', f', hf', hsame ▸ hacquired⟩

theorem Elapsed.stable (time : ℕ) : (singleFlight json key).Stable t (Elapsed time) :=
  fun _ _ _ h hinterferes => Nat.le_trans h hinterferes.always.clock

theorem setPxNx_spec (token : String) : (singleFlight json key).Triple t (fun _ => True)
    (Prog.perform (CacheOp.setPxNx (lockKeyOf key) token lockTtlMs))
    (fun locked s => if locked then LockTaken key t s else ∃ since, Elapsed since s ∧ Awaiting key since s)
    fun _ _ => False := by
  refine op_spec .const ?_ ?_
  · intro locked
    cases locked with
    | true => exact LockTaken.stable
    | false => exact .exists fun since => .and (Elapsed.stable since) (Awaiting.stable since)
  · rintro s locked s' hi - hperform hpremises
    obtain ⟨clock, hclock, hexec⟩ := exec_of_performs (by simp) (by simp) hperform
    have hlive : s'.clock = clock → ∀ t' f, Held key s t' f → s.strings.get clock (lockKeyOf key) ≠ none := by
      intro htime t' f hheld hget
      obtain ⟨token', hlock⟩ := hheld.lock
      have hearly := hpremises.inTime t' f hheld.filling rfl
      have hvalue : s.strings.get clock (lockKeyOf key) = some token' := Strings.get_of_live hlock (by
        rintro time ⟨⟩
        omega)
      exact absurd (hget.symm.trans hvalue) (by simp)
    simp only [CacheOp.exec] at hexec
    split at hexec
    · rename_i held hheld
      cases hexec
      refine ⟨allows_at hi hclock, clock, Nat.le_refl _, fun hs => ?_⟩
      rcases hi.cold hs with hcold | ⟨t', f, hf⟩
      · exact absurd ((Strings.get_of_missing hcold.lock).symm.trans hheld) (by simp)
      · exact ⟨t', f, hf.filling, hf.acquired.trans hclock⟩
    · rename_i hfree
      cases hexec
      cases hs : s.strings key with
      | none =>
        rcases hi.cold hs with hcold | ⟨t', f, hheld⟩
        · exact ⟨allows_lock hcold hclock rfl, ⟨_, Function.update_self ..⟩, fun _ => ⟨hcold.loads, hcold.loaded⟩⟩
        · exact absurd hfree (hlive rfl t' f hheld)
      | some stored =>
        have hs' : s.strings.set (lockKeyOf key) token (clock + lockTtlMs) key = some stored :=
          (Strings.set_other (lockKey_ne key)).trans hs
        refine ⟨allows_warm hi hs hclock hs' rfl rfl, ⟨_, Function.update_self ..⟩, fun hnone => ?_⟩
        exact absurd (hs'.symm.trans hnone) (by simp)

theorem startLoader_spec : (singleFlight json key).Triple t (Loading (V := V) key t [] [])
    (Prog.perform (CacheOp.startLoader .underLock)) (fun _ => Loading key t [.underLock] []) fun _ _ => False := by
  refine op_spec (Loading.stable _ _) (fun _ => Loading.stable _ _) ?_
  rintro s _ s' hi ⟨⟨f, hf⟩, hs, hloads, hloaded⟩ hperform -
  obtain ⟨clock, hclock, hexec⟩ := exec_of_performs (by simp) (by simp) hperform
  cases hexec
  have hheld := held_of_filling hi hs hf
  have hnext : Function.update s.filling t ((s.filling t).map fun f => { f with loads := true }) =
      Function.update s.filling t (some { f with loads := true }) := by rw [hf, Option.map_some]
  have hall : s.loads ++ [LoadPlace.underLock] = [.underLock] := by rw [hloads, List.nil_append]
  refine ⟨allows_held hheld hclock hs rfl hnext rfl (.inr hall), ⟨⟨f.acquiredAt, true⟩, ?_⟩, hs, hall, hloaded⟩
  exact (congrFun hnext t).trans (Function.update_self ..)

theorem loader_spec : (singleFlight json key).Triple t (Loading (V := V) key t [.underLock] [])
    (Prog.perform CacheOp.loader) (fun value s => ∃ v, value = some v ∧ Loading key t [.underLock] [some v] s)
    fun _ _ => False := by
  refine op_spec (Loading.stable _ _) (fun _ => .exists fun _ => .and .const (Loading.stable _ _)) ?_
  rintro s value s' hi ⟨⟨f, hf⟩, hs, hloads, hloaded⟩ hperform hpremises
  cases hperform with
  | answer _ hexec => cases hexec
  | loaded hclock value =>
    have hall : s.loaded ++ [value] = [value] := by rw [hloaded, List.nil_append]
    have hvalue := hpremises.value
    simp only [hall, List.mem_singleton] at hvalue
    obtain ⟨v, rfl⟩ := Option.ne_none_iff_exists'.mp (Ne.symm hvalue)
    have hheld := held_of_filling hi hs hf
    refine ⟨allows_held hheld hclock hs rfl ?_ rfl (.inr hloads), v, rfl, ⟨f, hf⟩, hs, hloads, hall⟩
    exact (Function.update_eq_self_iff.mpr hf.symm).symm

theorem ttlJitter_spec (hP : (singleFlight json key).Stable t P) : (singleFlight json key).Triple t P
    (Prog.perform CacheOp.ttlJitter) (fun _ => P) fun _ _ => False := by
  refine op_spec hP (fun _ => hP) ?_
  rintro s n s' hi hp hperform -
  cases hperform with
  | answer _ hexec => cases hexec
  | jitter => exact ⟨allows_at hi (Nat.le_refl _), hp⟩

theorem setEx_spec (v : V) (ttlSeconds : ℕ) :
    (singleFlight json key).Triple t (Loading key t [.underLock] [some v])
      (Prog.perform (CacheOp.setEx key (json.stringify (some v)) ttlSeconds)) (fun _ => CachedAnswer key v)
      fun _ _ => False := by
  refine op_spec (Loading.stable _ _) (fun _ => CachedAnswer.stable v) ?_
  rintro s _ s' hi ⟨⟨f, hf⟩, hs, hloads, hloaded⟩ hperform -
  obtain ⟨clock, hclock, hexec⟩ := exec_of_performs (by simp) (by simp) hperform
  cases hexec
  have hheld := held_of_filling hi hs hf
  have hwritten : s.strings.set key (json.stringify (some v)) (clock + ttlSeconds * 1000) key =
      some ⟨json.stringify (some v), some (clock + ttlSeconds * 1000)⟩ := Function.update_self ..
  refine ⟨⟨⟨fun stored hstored => ?_, fun hnone => ?_⟩, ⟨hclock, fun stored hstored => ?_, fun _ _ _ hnone => ?_⟩,
    ?_⟩, ⟨_, hwritten⟩, hloads, hloaded⟩
  · obtain rfl := Option.some.inj (hwritten.symm.trans hstored)
    exact ⟨v, json.parse_stringify _, hloads, hloaded⟩
  · exact absurd (hwritten.symm.trans hnone) (by simp)
  · exact absurd (hs.symm.trans hstored) (by simp)
  · exact absurd (hwritten.symm.trans hnone) (by simp)
  · intro t' hne _ hfilling
    obtain ⟨f', hf'⟩ := Option.ne_none_iff_exists'.mp hfilling
    exact absurd (hheld.only t' f' hf').symm hne

theorem releaseLock_spec (v : V) (token : String) : (singleFlight json key).Triple t (CachedAnswer key v)
    (Prog.perform (CacheOp.releaseLock (lockKeyOf key) token)) (fun _ => CachedAnswer key v) fun _ _ => False := by
  refine op_spec (CachedAnswer.stable v) (fun _ => CachedAnswer.stable v) ?_
  rintro s _ s' hi ⟨⟨stored, hs⟩, hloads, hloaded⟩ hperform -
  obtain ⟨clock, hclock, hexec⟩ := exec_of_performs (by simp) (by simp) hperform
  simp only [CacheOp.exec, Option.some.injEq, Prod.mk.injEq, true_and] at hexec
  split at hexec
  · have hs' : s.strings.del (lockKeyOf key) key = some stored := (Strings.del_other (lockKey_ne key)).trans hs
    subst hexec
    exact ⟨allows_warm hi hs hclock hs' rfl rfl, ⟨stored, hs'⟩, hloads, hloaded⟩
  · subst hexec
    exact ⟨allows_warm hi hs hclock hs rfl rfl, ⟨stored, hs⟩, hloads, hloaded⟩

theorem now_spec (hP : (singleFlight json key).Stable t P)
    (hat : ∀ s clock, s.clock ≤ clock → P s → P (s.at clock)) (time : ℕ) :
    (singleFlight json key).Triple t (fun s => Elapsed time s ∧ P s) (Prog.perform CacheOp.now)
      (fun start s => time ≤ start ∧ P s) fun _ _ => False := by
  refine op_spec (.and (Elapsed.stable time) hP) (fun start => .and .const hP) ?_
  rintro s start s' hi ⟨htime, hp⟩ hperform -
  obtain ⟨clock, hclock, hexec⟩ := exec_of_performs (by simp) (by simp) hperform
  cases hexec
  exact ⟨allows_at hi hclock, Nat.le_trans htime hclock, hat s clock hclock hp⟩

theorem sleepUntil_spec (hP : (singleFlight json key).Stable t P)
    (hat : ∀ s clock, s.clock ≤ clock → P s → P (s.at clock)) (time : ℕ) :
    (singleFlight json key).Triple t P (Prog.perform (CacheOp.sleepUntil time)) (fun _ s => Elapsed time s ∧ P s)
      fun _ _ => False := by
  refine op_spec hP (fun _ => .and (Elapsed.stable time) hP) ?_
  rintro s _ s' hi hp hperform -
  obtain ⟨clock, hclock, hexec⟩ := exec_of_performs (by simp) (by simp) hperform
  simp only [CacheOp.exec, Option.ite_none_right_eq_some, Option.some.injEq, Prod.mk.injEq] at hexec
  obtain ⟨htime, -, rfl⟩ := hexec
  exact ⟨allows_at hi hclock, htime, hat s clock hclock hp⟩

end Operations

section Callers

variable {json : Json V} {key : String} {t : T}

theorem setCachedJson_spec (v : V) : (singleFlight json key).Triple t (Loading key t [.underLock] [some v])
    (setCachedJson json key (some v)) (fun _ => CachedAnswer key v) fun _ _ => False := by
  refine .bind (R := fun _ => Loading key t [.underLock] [some v]) ?_ fun ttl => ?_
  · exact .bind (ttlJitter_spec (Loading.stable _ _)) fun _ => .pure (Loading.stable _ _) fun _ _ h => h
  refine .bind ?_ fun _ => .pure (CachedAnswer.stable v) fun _ _ h => h
  exact .handle (setEx_spec v ttl) fun error => fun s _ hfalse => hfalse.elim

theorem tryFinally_spec {α : Type} {P : CacheState T V → Prop} {Q : α → CacheState T V → Prop}
    {body : CacheCall V α} {cleanup : CacheCall V Unit} (hQ : ∀ a, (singleFlight json key).Stable t (Q a))
    (hbody : (singleFlight json key).Triple t P body Q fun _ _ => False)
    (hcleanup : ∀ a, (singleFlight json key).Triple t (Q a) cleanup (fun _ => Q a) fun _ _ => False) :
    (singleFlight json key).Triple t P (tryFinally body cleanup) Q fun _ _ => False := by
  refine .bind (R := fun result s => ∃ a, result = .ok a ∧ Q a s) ?_ fun result => .exists_pre fun a => .pure_pre ?_
  · refine .handle (.bind hbody fun a => .pure (.exists fun _ => .and .const (hQ _)) ?_) fun error => ?_
    · exact fun _ _ h => ⟨a, rfl, h⟩
    · exact fun s _ hfalse => hfalse.elim
  · rintro rfl
    exact .bind (hcleanup a) fun _ => .pure (hQ a) fun _ _ h => h

theorem waitForValue_spec (attempts since : ℕ) (h : attempts ≤ lockWaitAttempts) :
    (singleFlight json key).Triple t
      (fun s => 0 < attempts ∧ Elapsed (since + (lockWaitAttempts - attempts) * lockWaitMs) s ∧ Awaiting key since s)
      (waitForValue json key attempts)
      (fun r s => ∃ v, r = some v ∧ CachedAnswer key v s) fun _ _ => False := by
  induction attempts with
  | zero => exact fun s _ hfalse => absurd hfalse.1 (Nat.lt_irrefl 0)
  | succ attempts ih =>
    have hawaiting : (singleFlight json key).Stable t (Awaiting (T := T) (V := V) key since) := Awaiting.stable since
    have hat : ∀ (s : CacheState T V) clock, s.clock ≤ clock → Awaiting key since s → Awaiting key since (s.at clock) :=
      fun _ _ _ h => h
    refine .pure_pre fun _ => .bind (now_spec hawaiting hat _) fun (start : ℕ) => .pure_pre fun hstart => ?_
    refine .bind (sleepUntil_spec hawaiting hat _) fun _ => ?_
    refine .bind (getCachedJson_spec (N := fun s => 0 < attempts ∧
      Elapsed (since + (lockWaitAttempts - attempts) * lockWaitMs) s ∧ Awaiting key since s)
      (.and (Elapsed.stable _) hawaiting) (.and .const (.and (Elapsed.stable _) hawaiting)) ?_) fun r => ?_
    · rintro s clock - ⟨helapsed, hawait⟩ hclock hs hintime
      obtain ⟨t', f, hf, hacquired⟩ := hawait hs
      have hearly := hintime t' f hf
      have htime : start + lockWaitMs ≤ clock := Nat.le_trans helapsed hclock
      simp only [lockWaitMs, lockWaitAttempts, lockTtlMs] at h hstart hearly htime
      refine ⟨by omega, ?_, hawait⟩
      simp only [Elapsed, CacheState.at, lockWaitMs, lockWaitAttempts]
      omega
    · cases r with
      | some v => exact .pure (.exists fun _ => .and .const (CachedAnswer.stable _)) fun _ _ h => ⟨v, rfl, h⟩
      | none => exact ih (by omega)

theorem getOrLoadCached_spec (token : String) : (singleFlight json key).Triple t (fun _ => True)
    (getOrLoadCached json key token) (fun r s => ∃ v, r = some v ∧ CachedAnswer key v s) fun _ _ => False := by
  have hanswer (v : V) : (singleFlight json key).Triple t (CachedAnswer key v) (.done (.ok (some v)))
      (fun r s => ∃ v, r = some v ∧ CachedAnswer key v s) fun _ _ => False :=
    .pure (.exists fun _ => .and .const (CachedAnswer.stable _)) fun _ _ h => ⟨v, rfl, h⟩
  refine .bind (getCachedJson_spec .const .const (N := fun _ => True) fun _ _ _ _ _ _ _ => trivial) fun r => ?_
  cases r with
  | some v => exact hanswer v
  | none =>
    refine .bind (setPxNx_spec token) fun locked => ?_
    cases locked with
    | true =>
      refine tryFinally_spec (fun _ => .exists fun _ => .and .const (CachedAnswer.stable _)) ?_ fun r => ?_
      · refine .bind (getCachedJson_spec (N := Loading key t [] []) LockTaken.stable (Loading.stable _ _) ?_)
          fun r => ?_
        · exact fun s clock _ hlocked _ hs _ => ⟨hlocked.1, hs, hlocked.2 hs⟩
        · cases r with
          | some v => exact hanswer v
          | none =>
            refine .bind (.bind startLoader_spec fun _ => loader_spec) fun loaded => .exists_pre fun v => .pure_pre ?_
            rintro rfl
            exact .bind (setCachedJson_spec v) fun _ => hanswer v
      · refine .exists_pre fun v => .pure_pre fun hr => ?_
        refine (releaseLock_spec v token).conseq (fun _ _ h => h) (fun _ _ _ h => ⟨v, hr, h⟩) fun _ _ _ h => h
    | false =>
      refine .exists_pre fun since => .bind ((waitForValue_spec lockWaitAttempts since (Nat.le_refl _)).pre ?_) fun r =>
        .exists_pre fun v => .pure_pre ?_
      · intro s _ h
        simpa [lockWaitAttempts] using h
      · rintro rfl
        exact hanswer v

end Callers

/-- Single flight: while the lock holders are in time, the loader runs once, in no fallback, and every caller
answers what it gave. -/
theorem single_flight (json : Json V) (key : String) (token : T → String) {s : CacheState T V} (hs : Cold key s)
    {d : Config T (CacheState T V) CacheOp (CacheOp.Res V) CacheFailure (Option V)}
    (h : (steadyCache json key fun _ => true).Reachable (.start s fun t => getOrLoadCached json key (token t)) d) :
    d.shared.loads.length ≤ 1 ∧ LoadPlace.fallback ∉ d.shared.loads ∧
    ∀ t r, d.outcome t = some r →
      ∃ v, r = .ok (some v) ∧ d.shared.loads = [.underLock] ∧ d.shared.loaded = [some v] := by
  have hflight : Flight json key s :=
    ⟨fun stored hstored => absurd (hs.value.symm.trans hstored) (by simp), fun _ => .inl hs⟩
  obtain ⟨hi, hpost, -⟩ := Discipline.run_holds (D := singleFlight json key) hflight (fun _ => trivial)
    (fun t => getOrLoadCached_spec (token t)) h
  have hloads : d.shared.loads = [] ∨ d.shared.loads = [.underLock] := by
    cases hvalue : d.shared.strings key with
    | none =>
      rcases hi.cold hvalue with hcold | ⟨t, f, hheld⟩
      · exact .inl hcold.loads
      · exact hheld.loads.imp_left And.left
    | some stored =>
      obtain ⟨v, -, hloads, -⟩ := hi.warm stored hvalue
      exact .inr hloads
  refine ⟨?_, ?_, fun t r hr => ?_⟩
  · rcases hloads with hloads | hloads <;> simp [hloads]
  · rcases hloads with hloads | hloads <;> simp [hloads]
  · have hanswer := hpost t r hr
    cases r with
    | ok r =>
      obtain ⟨v, rfl, -, hloads, hloaded⟩ := hanswer
      exact ⟨v, rfl, hloads, hloaded⟩
    | error error => exact hanswer.elim

section Runs

theorem repr_ne_null (n : ℕ) : Nat.repr n ≠ "null" := by
  intro h
  have hnumber := jsNumber_repr n
  have hnull : jsNumber "null" = .other := by decide
  rw [h, hnull] at hnumber
  cases hnumber

def numberJson : Json ℕ where
  stringify value := value.elim "null" Nat.repr
  parse text :=
    if text = "null" then some none
    else
      match jsNumber text with
      | .integer n => some (some n.toNat)
      | .other => none
  parse_stringify value := by
    cases value with
    | none => decide
    | some n => simp [jsNumber_repr, repr_ne_null]

def coldCache : CacheState Bool ℕ := ⟨0, fun _ => none, fun _ => none, [], []⟩

theorem coldCache_cold (key : String) : Cold key coldCache := ⟨rfl, rfl, fun _ => rfl, rfl, rfl⟩

def premisesTest (key : String) (counts : Filling → Bool) (s s' : CacheState Bool ℕ) : Bool :=
  decide (none ∉ s'.loaded) && (s.strings key).all (fun stored => stored.expireAt.all (s'.clock ≤ ·)) &&
    decide (∀ t, (s.filling t).all fun f => !counts f || s'.clock < f.acquiredAt + lockTtlMs)

theorem premises_of_test {key : String} {counts : Filling → Bool} {s s' : CacheState Bool ℕ} {o : CacheOp}
    {r : Except CacheFailure (o.Res ℕ)} (hr : isOk r) (h : premisesTest key counts s s') :
    CachePremises key counts o s r s' := by
  simp only [premisesTest, Bool.and_eq_true, decide_eq_true_eq, Option.all_eq_true] at h
  refine ⟨isOk_iff.mp hr, h.1.1, h.1.2, fun t f hf hcounts => ?_⟩
  simpa [hcounts] using h.2 t f hf

@[reducible] def steadyCacheMoves (key : String) (counts : Filling → Bool) :
    Moves (steadyCache (T := Bool) numberJson key counts) :=
  (cacheMoves numberJson).restrict (fun _ _ s r s' => isOk r && premisesTest key counts s s') fun h => by
    obtain ⟨hr, htest⟩ := Bool.and_eq_true_iff.mp h
    exact premises_of_test hr htest

def twoCallers : Config Bool (CacheState Bool ℕ) CacheOp (CacheOp.Res ℕ) CacheFailure (Option ℕ) :=
  .start coldCache fun t => getOrLoadCached numberJson "product-summary:1" (if t then "b" else "a")

def cacheStep (t : Bool) (clock : ℕ) : Bool × Option (CacheMove ℕ) := (t, some ⟨clock, 0, some 7⟩)

-- the second caller finds the lock taken and polls once
def missedTogether : List (Bool × Option (CacheMove ℕ)) :=
  [cacheStep false 0, cacheStep true 1, cacheStep false 1, cacheStep true 2, cacheStep false 3, cacheStep false 3,
    cacheStep false 9, cacheStep false 9, cacheStep true 9, cacheStep false 10, cacheStep false 11, cacheStep true 34,
    cacheStep true 35]

theorem single_flight_missed_together : ∃ d,
    (steadyCache numberJson "product-summary:1" fun _ => true).Reachable twoCallers d ∧
    d.outcome false = some (.ok (some 7)) ∧ d.outcome true = some (.ok (some 7)) ∧
    LoadPlace.fallback ∉ d.shared.loads := by
  obtain ⟨d, hd, hfalse, htrue⟩ :=
    exists_reachable (S := steadyCacheMoves "product-summary:1" fun _ => true) missedTogether
    (c := twoCallers) (P := fun d => d.outcome false = some (.ok (some 7)) ∧ d.outcome true = some (.ok (some 7)))
    (by decide +kernel)
  exact ⟨d, hd, hfalse, htrue, (single_flight numberJson "product-summary:1" _ (coldCache_cold _) hd).2.1⟩

-- the lock holder stalls before its second check, and the other caller runs out of attempts
def stalledHolder : List (Bool × Option (CacheMove ℕ)) :=
  [cacheStep false 0, cacheStep false 0, cacheStep true 0, cacheStep true 0] ++
    (List.range lockWaitAttempts).flatMap (fun n =>
      [cacheStep true (n * lockWaitMs), cacheStep true ((n + 1) * lockWaitMs), cacheStep true
          ((n + 1) * lockWaitMs)]) ++
    [cacheStep true 5000]

/-- A holder that does not load is enough: it need not count as late, and the fallback is still reached. -/
theorem stalled_holder_lets_fallback : ∃ d, (steadyCache numberJson "product-summary:1" Filling.loads).Reachable
    twoCallers d ∧ LoadPlace.fallback ∈ d.shared.loads :=
  exists_reachable (S := steadyCacheMoves "product-summary:1" Filling.loads) stalledHolder (by decide +kernel)

end Runs

end Marketplace
