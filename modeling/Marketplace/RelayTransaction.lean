import Marketplace.OutboxRelay

namespace Marketplace

open Concurrent ReadCommitted

variable {T : Type}

/-- The workspace of a relay that has selected `rows`: it may have changed these rows, but neither
their payload nor their event id, and has only locked others. -/
structure Relaying (rows : List (ℕ × OutboxMessageRow)) (ws : Workspace Key (Row T)) : Prop where
  only : ∀ k, (∀ id, k ≠ .outboxMessage id) → ws k = none
  selected : ∀ p ∈ rows, p.2.publishedAt = none ∧ ∃ new : OutboxMessageRow,
    ws (.outboxMessage p.1) = some ⟨some p.2, new⟩ ∧ new.payload = p.2.payload ∧ new.eventId = p.2.eventId
  locked : ∀ id ch, ws (.outboxMessage id) = some ch → (∀ p ∈ rows, p.1 ≠ id) → ch.old = some ch.new
  nodup : (rows.map Prod.fst).Nodup

def Marked (rows : List (ℕ × OutboxMessageRow)) (ws : Workspace Key (Row T)) : Prop :=
  ∀ p ∈ rows, ∃ new : OutboxMessageRow, ws (.outboxMessage p.1) = some ⟨some p.2, new⟩ ∧ new.publishedAt ≠ none ∧
    new.attempts = p.2.attempts + 1 ∧ new.createdAt = p.2.createdAt

def Pristine (rows : List (ℕ × OutboxMessageRow)) (ws : Workspace Key (Row T)) : Prop :=
  ∀ p ∈ rows, ws (.outboxMessage p.1) = some ⟨some p.2, p.2⟩

def publishedBy (t : T) (rows : List (ℕ × OutboxMessageRow)) : List (Sent T) :=
  rows.map fun p => ⟨t, .payload p.2.payload, true⟩

structure Selected (ids : List ℕ) (rows : List (ℕ × OutboxMessageRow)) (ws : Workspace Key (Row T)) : Prop where
  only : ∀ k, (∀ id, k ≠ .outboxMessage id) → ws k = none
  locked : ∀ id ch, ws (.outboxMessage id) = some ch → ch.old = some ch.new
  free : ∀ id ∈ ids, ws (.outboxMessage id) = none
  pristine : Pristine rows ws
  unpublished : ∀ p ∈ rows, p.2.publishedAt = none
  nodup : (rows.map Prod.fst).Nodup

section Workspaces

variable {ws : Workspace Key (Row T)} {ids : List ℕ} {rows : List (ℕ × OutboxMessageRow)} {id : ℕ}
  {row : OutboxMessageRow}

theorem Selected.ne (h : Selected (id :: ids) rows ws) : ∀ p ∈ rows, p.1 ≠ id := by
  rintro p hp rfl
  have hfree := h.free p.1 (by simp)
  rw [h.pristine p hp] at hfree
  cases hfree

theorem Selected.lock (h : Selected (id :: ids) rows ws) (hnodup : (id :: ids).Nodup) :
    Selected ids rows (ws.set (.outboxMessage id) ⟨some row, row⟩) := by
  refine ⟨fun k hk => ?_, fun j ch hj => ?_, fun j hj => ?_, fun p hp => ?_, h.unpublished, h.nodup⟩
  · exact (Workspace.set_of_ne (hk id)).trans (h.only k hk)
  · by_cases hjid : j = id
    · subst hjid
      rw [Workspace.set_self] at hj
      cases hj
      rfl
    · rw [Workspace.set_of_ne (by simpa using hjid)] at hj
      exact h.locked j ch hj
  · have hne : j ≠ id := by
      rintro rfl
      exact (List.nodup_cons.mp hnodup).1 hj
    exact (Workspace.set_of_ne (by simpa using hne)).trans (h.free j (by simp [hj]))
  · exact (Workspace.set_of_ne (by simpa using h.ne p hp)).trans (h.pristine p hp)

theorem Selected.select (h : Selected ids rows (ws.set (.outboxMessage id) ⟨some row, row⟩))
    (hrow : row.publishedAt = none) (hid : ∀ p ∈ rows, p.1 ≠ id) :
    Selected ids (rows ++ [(id, row)]) (ws.set (.outboxMessage id) ⟨some row, row⟩) := by
  refine ⟨h.only, h.locked, h.free, ?_, ?_, ?_⟩
  · intro p hp
    rcases List.mem_append.mp hp with hp | hp
    · exact h.pristine p hp
    · obtain rfl := List.mem_singleton.mp hp
      exact Workspace.set_self
  · intro p hp
    rcases List.mem_append.mp hp with hp | hp
    · exact h.unpublished p hp
    · obtain rfl := List.mem_singleton.mp hp
      exact hrow
  · simp only [List.map_append, List.map_cons, List.map_nil]
    refine List.nodup_append.mpr ⟨h.nodup, by simp, ?_⟩
    intro j hj j' hj'
    obtain ⟨p, hp, rfl⟩ := List.mem_map.mp hj
    obtain rfl := List.mem_singleton.mp hj'
    exact hid p hp

theorem Selected.relaying (h : Selected ids rows ws) : Relaying rows ws where
  only := h.only
  selected p hp := ⟨h.unpublished p hp, p.2, h.pristine p hp, rfl, rfl⟩
  locked id ch hch _ := h.locked id ch hch
  nodup := h.nodup

theorem Relaying.set (h : Relaying rows ws) (hmem : (id, row) ∈ rows) {new : OutboxMessageRow}
    (hpayload : new.payload = row.payload) (hevent : new.eventId = row.eventId) :
    Relaying rows (ws.set (.outboxMessage id) ⟨some row, new⟩) := by
  have hunique : ∀ p ∈ rows, p.1 = id → p = (id, row) := fun p hp hid =>
    List.inj_on_of_nodup_map h.nodup hp hmem hid
  refine ⟨fun k hk => ?_, fun p hp => ?_, fun j ch hj hne => ?_, h.nodup⟩
  · exact (Workspace.set_of_ne (hk id)).trans (h.only k hk)
  · by_cases hid : p.1 = id
    · obtain rfl := hunique p hp hid
      exact ⟨(h.selected _ hp).1, new, Workspace.set_self, hpayload, hevent⟩
    · obtain ⟨hpub, x, hx, hrest⟩ := h.selected p hp
      exact ⟨hpub, x, (Workspace.set_of_ne (by simpa using hid)).trans hx, hrest⟩
  · by_cases hid : j = id
    · subst hid
      exact absurd rfl (hne _ hmem)
    · rw [Workspace.set_of_ne (by simpa using hid)] at hj
      exact h.locked j ch hj hne

theorem Marked.set (h : Marked rows ws) (hid : ∀ p ∈ rows, p.1 ≠ id) {ch : Change OutboxMessageRow} :
    Marked rows (ws.set (.outboxMessage id) ch) := by
  intro p hp
  obtain ⟨new, hnew, hpub⟩ := h p hp
  exact ⟨new, (Workspace.set_of_ne (by simpa using hid p hp)).trans hnew, hpub⟩

theorem Pristine.set (h : Pristine rows ws) (hid : ∀ p ∈ rows, p.1 ≠ id) {ch : Change OutboxMessageRow} :
    Pristine rows (ws.set (.outboxMessage id) ch) :=
  fun p hp => (Workspace.set_of_ne (by simpa using hid p hp)).trans (h p hp)

end Workspaces

structure Relayed (rows : List (ℕ × OutboxMessageRow)) (old new : Tables T) : Prop where
  others : ∀ k, (∀ id, k ≠ .outboxMessage id) → new k = old k
  message_cases : ∀ id row, new (.outboxMessage id) = some row →
    (∃ p ∈ rows, p.1 = id ∧ p.2.payload = row.payload ∧ p.2.eventId = row.eventId ∧ row.publishedAt ≠ none ∧
      old (.outboxMessage id) = some p.2) ∨ old (.outboxMessage id) = some row
  keep_message : ∀ id row, old (.outboxMessage id) = some row → ∃ row', new (.outboxMessage id) = some row' ∧
    row'.payload = row.payload ∧ row'.eventId = row.eventId ∧ (row.publishedAt ≠ none → row'.publishedAt ≠ none)

theorem Relaying.committed_of {rows : List (ℕ × OutboxMessageRow)} {ws : Workspace Key (Row T)} {old new : Tables T}
    (hws : Relaying rows ws) (hmarked : Marked rows ws) (h : ws.Commits old new) : Relayed rows old new := by
  have hcases : ∀ id row, new (.outboxMessage id) = some row →
      (∃ p ∈ rows, p.1 = id ∧ p.2.payload = row.payload ∧ p.2.eventId = row.eventId ∧ row.publishedAt ≠ none ∧
        old (.outboxMessage id) = some p.2) ∨ old (.outboxMessage id) = some row := by
    intro id row hid
    by_cases hmem : ∃ p ∈ rows, p.1 = id
    · obtain ⟨p, hp, rfl⟩ := hmem
      obtain ⟨-, row', hnew', hpayload, hevent⟩ := hws.selected p hp
      obtain ⟨row'', hnew'', hpub, -⟩ := hmarked p hp
      rw [hnew'] at hnew''
      cases hnew''
      rw [h.new_eq hnew'] at hid
      cases hid
      exact .inl ⟨p, hp, rfl, hpayload.symm, hevent.symm, hpub, h.old_eq hnew'⟩
    · right
      cases hk : ws (.outboxMessage id) with
      | none => rw [← h.same hk, hid]
      | some ch =>
        rw [h.new_eq hk] at hid
        rw [h.old_eq hk, hws.locked id ch hk fun p hp hne => hmem ⟨p, hp, hne⟩]
        exact hid
  refine ⟨fun k hk => h.same (hws.only k hk), hcases, fun id row hold => ?_⟩
  have hid : ∃ row', new (.outboxMessage id) = some row' := by
    cases hk : ws (.outboxMessage id) with
    | none => exact ⟨row, (h.same hk).trans hold⟩
    | some ch => exact ⟨ch.new, h.new_eq hk⟩
  obtain ⟨row', hid⟩ := hid
  refine ⟨row', hid, ?_⟩
  rcases hcases id row' hid with ⟨p, -, -, hpayload, hevent, hpub, hold'⟩ | hold'
  · rw [hold] at hold'
    cases hold'
    exact ⟨hpayload.symm, hevent.symm, fun _ => hpub⟩
  · rw [hold] at hold'
    cases hold'
    exact ⟨rfl, rfl, fun hp => hp⟩

theorem Relaying.createdAt_kept {rows : List (ℕ × OutboxMessageRow)} {ws : Workspace Key (Row T)} {old new : Tables T}
    (hws : Relaying rows ws) (hmarked : Marked rows ws) (h : ws.Commits old new) {id : ℕ} {row : OutboxMessageRow}
    (hold : old (.outboxMessage id) = some row) :
    ∃ row', new (.outboxMessage id) = some row' ∧ row'.createdAt = row.createdAt := by
  have hc := hws.committed_of hmarked h
  obtain ⟨row', hid, -⟩ := hc.keep_message id row hold
  refine ⟨row', hid, ?_⟩
  rcases hc.message_cases id row' hid with ⟨p, hp, rfl, -, -, -, hold'⟩ | hold'
  · obtain ⟨row'', hnew, -, -, hcreated⟩ := hmarked p hp
    cases hold.symm.trans hold'
    cases hid.symm.trans (h.new_eq hnew)
    exact hcreated
  · cases hold.symm.trans hold'
    rfl

theorem Relaying.committed [DecidableEq T] {rows : List (ℕ × OutboxMessageRow)} {ws : Workspace Key (Row T)}
    {t : T} {c : ℕ} {w : ShopWorld T} (hws : Relaying rows ws) (hmarked : Marked rows ws) (hat : At t ws c w) :
    Relayed rows w.db.committed (w.db.commit t).committed :=
  hws.committed_of hmarked hat.commits

theorem View.unpublished_nodup (view : View T) : (View.unpublished view).Nodup := by
  unfold View.unpublished
  refine ((List.perm_insertionSort _ _).map Prod.snd).nodup_iff.mpr ?_
  rw [List.map_filterMap]
  refine List.Nodup.filterMap ?_ List.nodup_range
  intro id id' j hj hj'
  simp only [Option.map_map, Option.mem_def, Option.map_eq_some_iff, Function.comp_apply] at hj hj'
  obtain ⟨-, -, rfl⟩ := hj
  obtain ⟨-, -, h⟩ := hj'
  exact h.symm

variable [DecidableEq T] {A : Allowed T} {C : T → ShopWorld T → ShopWorld T → Prop}

structure RelayRules (D : Discipline ((ShopMachine T).restrict A C)) (t : T) : Prop where
  calm : Calm D
  starts : ∀ {w}, D.inv w → outgoing t w.env = [] → D.Allows t w ⟨w.db.setTxn t ⟨.inProgress, 0⟩, w.env⟩
  sends : ∀ {w ws c rows processed p rest}, D.inv w → At t ws c w → Relaying rows ws →
    rows = processed ++ p :: rest → outgoing t w.env = publishedBy t processed →
    D.Allows t w ⟨w.db, w.env ++ [⟨t, .payload p.2.payload, false⟩]⟩
  confirms : ∀ {w}, D.inv w → D.Allows t w ⟨w.db, confirm t w.env⟩
  commits : ∀ {w ws c r rows}, D.inv w → At t ws c w → Relaying rows ws → Marked rows ws →
    outgoing t w.env = publishedBy t rows → A t (.sql .commit) w r ⟨w.db.commit t, w.env⟩ →
    D.Allows t w ⟨w.db.commit t, w.env⟩

structure RelayOptions.Takes (options : RelayOptions) (view : View T) (rows : List (ℕ × OutboxMessageRow)) : Prop where
  limit : ∃ n, options.limit = some n ∧ rows.length ≤ n
  order : (rows.map Prod.fst).Sublist (View.unpublished view)

structure RelaySteps (D : Discipline ((ShopMachine T).restrict A C)) (t : T) (options : RelayOptions)
    (S : ShopWorld T → Prop) (V : View T → Tables T → Prop) (Z : RelayStats → ShopWorld T → Prop) : Prop where
  calm : Calm D
  before : D.Stable t S
  seen : ∀ view, D.Stable t fun w => V view w.db.committed
  stable : ∀ stats, D.Stable t (Z stats)
  starts : ∀ {w}, D.inv w → S w → outgoing t w.env = [] →
    D.Allows t w ⟨w.db.setTxn t ⟨.inProgress, 0⟩, w.env⟩ ∧ S ⟨w.db.setTxn t ⟨.inProgress, 0⟩, w.env⟩
  sends : ∀ {w ws c rows processed p rest}, D.inv w → At t ws c w → Relaying rows ws →
    rows = processed ++ p :: rest → outgoing t w.env = publishedBy t processed →
    D.Allows t w ⟨w.db, w.env ++ [⟨t, .payload p.2.payload, false⟩]⟩
  confirms : ∀ {w}, D.inv w → D.Allows t w ⟨w.db, confirm t w.env⟩
  reads : ∀ {w view}, D.inv w → view.row = w.db.committed → V view w.db.committed
  commits : ∀ {w ws c r rows view}, D.inv w → At t ws c w → Relaying rows ws → Marked rows ws →
    outgoing t w.env = publishedBy t rows → V view w.db.committed → options.Takes view rows →
    (options.crashAfterPublish = true → rows = []) → A t (.sql .commit) w r ⟨w.db.commit t, w.env⟩ →
    D.Allows t w ⟨w.db.commit t, w.env⟩ ∧ Z ⟨rows.length, rows.length, rows.length⟩ ⟨w.db.commit t, w.env⟩

theorem RelayRules.steps {D : Discipline ((ShopMachine T).restrict A C)} {t : T} (H : RelayRules D t)
    (options : RelayOptions) : RelaySteps D t options (fun _ => True) (fun _ _ => True) fun _ _ => True where
  calm := H.calm
  before := .const
  seen _ := .const
  stable _ := .const
  starts hi _ hsent := ⟨H.starts hi hsent, trivial⟩
  sends := H.sends
  confirms := H.confirms
  reads _ _ := trivial
  commits hi hat hws hmarked hsent _ _ _ ha := ⟨H.commits hi hat hws hmarked hsent ha, trivial⟩

variable {D : Discipline ((ShopMachine T).restrict A C)} {t : T} {options : RelayOptions} {S : ShopWorld T → Prop}
  {V : View T → Tables T → Prop} {Z : RelayStats → ShopWorld T → Prop}

def SentSeeing (t : T) (sent : List (Sent T)) (P : Tables T → Prop) (w : ShopWorld T) : Prop :=
  outgoing t w.env = sent ∧ P w.db.committed

theorem sentSeeing_kept (sent : List (Sent T)) {P : Tables T → Prop} (hP : D.Stable t fun w => P w.db.committed) :
    Kept D t (SentSeeing t sent P) where
  stable := (outgoing_kept sent).stable.and hP
  works hi h hw := ⟨(outgoing_kept sent).works hi h.1 hw, hw.committed ▸ h.2⟩

section Selecting

variable {P : Tables T → Prop} (hP : D.Stable t fun w => P w.db.committed)

include hP

theorem lockUnpublished_spec (hD : Calm D) {ids : List ℕ} (hnodup : ids.Nodup) (n : ℕ)
    (selected : List (ℕ × OutboxMessageRow)) (c : ℕ) (sent : List (Sent T)) :
    D.Triple t (fun w => ∃ ws, Selected ids selected ws ∧ At t ws c w ∧ SentSeeing t sent P w)
      (lockUnpublished ids n)
      (fun rows w => (rows.length ≤ n ∧ (rows.map Prod.fst).Sublist ids) ∧
      ∃ ws, Selected [] (selected ++ rows) ws ∧ At t ws c w ∧ SentSeeing t sent P w)
      fun _ _ => True := by
  have hF := sentSeeing_kept (D := D) (t := t) sent hP
  have hstop (ids : List ℕ) (n : ℕ) (selected : List (ℕ × OutboxMessageRow)) : D.Triple t
      (fun w => ∃ ws, Selected ids selected ws ∧ At t ws c w ∧ SentSeeing t sent P w) (.done (.ok []))
      (fun rows w => (rows.length ≤ n ∧ (rows.map Prod.fst).Sublist ids) ∧
        ∃ ws, Selected [] (selected ++ rows) ws ∧ At t ws c w ∧ SentSeeing t sent P w)
      fun _ _ => True := by
    refine .pure (.and .const (.exists fun _ => .and .const (At.stable.and hF.stable))) ?_
    rintro w - ⟨ws, hs, h⟩
    refine ⟨⟨Nat.zero_le n, List.nil_sublist ids⟩, ws, ?_, h⟩
    rw [List.append_nil]
    exact ⟨hs.only, hs.locked, by simp, hs.pristine, hs.unpublished, hs.nodup⟩
  induction ids generalizing n selected with
  | nil => exact hstop [] n selected
  | cons id ids ih =>
    have hids := (List.nodup_cons.mp hnodup).2
    cases n with
    | zero => exact hstop (id :: ids) 0 selected
    | succ n =>
      refine .exists_pre fun ws => .pure_pre fun hs => ?_
      refine .bind (tryLock_spec hD hF .any (hs.free id (by simp))) fun locked => ?_
      have hskip (ws' : Workspace Key (Row T)) (hs' : Selected ids selected ws') :
          D.Triple t (fun w => At t ws' c w ∧ SentSeeing t sent P w) (lockUnpublished ids (n + 1))
            (fun rows w => (rows.length ≤ n + 1 ∧ (rows.map Prod.fst).Sublist (id :: ids)) ∧
              ∃ ws, Selected [] (selected ++ rows) ws ∧ At t ws c w ∧ SentSeeing t sent P w)
            fun _ _ => True :=
        (ih hids (n + 1) selected).conseq (fun w _ h => ⟨ws', hs', h⟩)
          (fun _ _ _ h => ⟨⟨h.1.1, h.1.2.cons id⟩, h.2⟩) fun _ _ _ h => h
      cases locked with
      | none =>
        exact hskip ws ⟨hs.only, hs.locked, fun j hj => hs.free j (by simp [hj]), hs.pristine, hs.unpublished,
          hs.nodup⟩
      | some row =>
        have hlock : Selected ids selected (ws.set (.outboxMessage id) ⟨some row, row⟩) := hs.lock hnodup
        by_cases hpub : row.publishedAt.isNone = true
        · simp only [Option.filter_some, hpub, if_true]
          have hselect := hlock.select (by simpa using hpub) hs.ne
          refine .bind ((ih hids n _).pre fun w _ h => ⟨_, hselect, h⟩) fun rows => .pure_pre fun hrows => ?_
          refine .pure (.and .const (.exists fun _ => .and .const (At.stable.and hF.stable))) fun w _ h => ?_
          refine ⟨⟨Nat.succ_le_succ hrows.1, hrows.2.cons_cons id⟩, ?_⟩
          simpa using h
        · simp only [Option.filter_some, hpub, Bool.false_eq_true, if_false]
          exact hskip _ hlock

theorem publishRow_spec (H : RelaySteps D t options S V Z) {ws : Workspace Key (Row T)} {c : ℕ}
    {rows processed rest : List (ℕ × OutboxMessageRow)} {p : ℕ × OutboxMessageRow} (hws : Relaying rows ws)
    (hrows : rows = processed ++ p :: rest) :
    D.Triple t (fun w => At t ws c w ∧ SentSeeing t (publishedBy t processed) P w)
      (publishOrderPlaced (.payload p.2.payload))
      (fun _ w => At t ws c w ∧ SentSeeing t (publishedBy t (processed ++ [p])) P w) fun _ _ => True := by
  have hsent (sent : List (Sent T)) : D.Stable t fun w => At t ws c w ∧ SentSeeing t sent P w :=
    At.stable.and (sentSeeing_kept sent hP).stable
  refine publishOrderPlaced_spec H.calm (fun w => At t ws c w ∧
    SentSeeing t (publishedBy t processed ++ [⟨t, .payload p.2.payload, false⟩]) P w)
    { before := hsent _
      sent := hsent _
      confirmed := hsent _
      broken := .const
      sends := fun w hi h => ⟨H.sends hi h.1 hws hrows h.2.1, ⟨h.1.workspace, h.1.txn⟩, ?_, h.2.2⟩
      confirms := fun w hi h => ⟨H.confirms hi, ⟨h.1.workspace, h.1.txn⟩, ?_, h.2.2⟩
      fails := fun _ _ _ _ _ _ => trivial }
  · simp only [outgoing_append_self, h.2.1]
  · simp [outgoing_confirm_self, h.2.1, publishedBy]

theorem relayRows_spec (H : RelaySteps D t options S V Z) (crashAfterPublish : Bool)
    (rows : List (ℕ × OutboxMessageRow)) {processed rest : List (ℕ × OutboxMessageRow)}
    (hrows : rows = processed ++ rest) (stats : RelayStats) :
    D.Triple t (fun w => ∃ ws c, (Relaying rows ws ∧ Marked processed ws ∧ Pristine rest ws) ∧
      At t ws c w ∧ SentSeeing t (publishedBy t processed) P w)
      (relayRows crashAfterPublish rest stats)
      (fun stats' w => (stats' = ⟨stats.selected, stats.published + rest.length, stats.markedPublished + rest.length⟩ ∧
      (crashAfterPublish = true → rest = [])) ∧
      ∃ ws c, (Relaying rows ws ∧ Marked rows ws) ∧ At t ws c w ∧ SentSeeing t (publishedBy t rows) P w)
      fun _ _ => True := by
  have hkept (sent : List (Sent T)) := sentSeeing_kept (D := D) (t := t) sent hP
  induction rest generalizing processed stats with
  | nil =>
    rw [List.append_nil] at hrows
    subst hrows
    refine .pure (.and .const (.exists fun _ => .exists fun _ => .and .const (At.stable.and (hkept _).stable))) ?_
    rintro w - ⟨ws, c, ⟨hws, hmarked, -⟩, h⟩
    exact ⟨⟨rfl, fun _ => rfl⟩, ws, c, ⟨hws, hmarked⟩, h⟩
  | cons p rest ih =>
    obtain ⟨id, row⟩ := p
    refine .exists_pre fun ws => .exists_pre fun c => .pure_pre fun ⟨hws, hmarked, hpristine⟩ => ?_
    have hmem : (id, row) ∈ rows := by simp [hrows]
    have hnodup := hws.nodup
    rw [hrows, List.map_append, List.map_cons, List.nodup_append] at hnodup
    have hdone : ∀ q ∈ processed, q.1 ≠ id := fun q hq =>
      hnodup.2.2 q.1 (List.mem_map_of_mem hq) id (by simp)
    have htodo : ∀ q ∈ rest, q.1 ≠ id := fun q hq heq =>
      (List.nodup_cons.mp hnodup.2.1).1 (List.mem_map.mpr ⟨q, hq, heq⟩)
    have hrest : Pristine rest ws := fun q hq => hpristine q (by simp [hq])
    refine .bind (updateWhere_own_spec H.calm (hkept _) .any (hpristine (id, row) (by simp)) rfl)
      fun _ => .pure_pre fun _ => ?_
    have hws₁ : Relaying rows (ws.set (.outboxMessage id) ⟨some row, { row with attempts := row.attempts + 1 }⟩) :=
      hws.set hmem rfl rfl
    refine .bind (publishRow_spec hP H hws₁ hrows) fun _ => ?_
    cases crashAfterPublish with
    | true => exact .throw .const fun _ _ _ => trivial
    | false =>
      refine .bind (clock_spec H.calm (At.stable.and (hkept _).stable) fun _ => .const) fun now => ?_
      refine .bind (updateWhere_own_spec H.calm (hkept _) .any Workspace.set_self rfl) fun _ =>
        .pure_pre fun _ => ?_
      have hrows' : rows = (processed ++ [(id, row)]) ++ rest := by simp [hrows]
      refine (ih hrows' _).conseq ?_ ?_ fun _ _ _ h => h
      swap
      · rintro _ w - ⟨⟨rfl, -⟩, h⟩
        refine ⟨⟨?_, nofun⟩, h⟩
        simp only [List.length_cons, RelayStats.mk.injEq, true_and]
        omega
      rintro w - ⟨hat, hsent⟩
      refine ⟨_, _, ?_, hat, hsent⟩
      refine ⟨hws₁.set hmem rfl rfl, ?_, (hrest.set htodo).set htodo⟩
      intro q hq
      rcases List.mem_append.mp hq with hq | hq
      · exact ((hmarked.set hdone).set hdone) q hq
      · obtain rfl := List.mem_singleton.mp hq
        exact ⟨_, Workspace.set_self, by simp, rfl, rfl⟩

end Selecting

theorem selectUnpublished_spec (H : RelaySteps D t options S V Z) :
    D.Triple t (fun w => At t Workspace.empty 0 w ∧ outgoing t w.env = [])
      (selectUnpublished (options.batchSize.getD defaultBatchSize))
      (fun rows w => ∃ view, options.Takes view rows ∧
      ∃ ws c, (Relaying rows ws ∧ Pristine rows ws) ∧ At t ws c w ∧ SentSeeing t [] (V view) w)
      fun _ _ => True := by
  have hkept := outgoing_kept (D := D) (t := t) []
  unfold selectUnpublished
  rw [← RelayOptions.limit]
  split
  · rename_i n hlimit
    have hseen (view : View T) : Kept D t fun w => V view w.db.committed :=
      { stable := H.seen view, works := fun _ h hw => hw.committed ▸ h }
    have hreads (w : ShopWorld T) (hi : D.inv w) (hat : At t Workspace.empty 0 w) :
        V (w.db.snapshot t) w.db.committed :=
      H.reads hi (funext fun k => Database.visible_of_none (congrFun hat.workspace k))
    refine .bind (statement_spec H.calm hkept .any hseen fun w hi hat _ => hreads w hi hat) fun view => ?_
    refine (lockUnpublished_spec (H.seen view) H.calm (View.unpublished_nodup view) n [] 1 []).conseq ?_ ?_
      fun _ _ _ h => h
    · rintro w - ⟨hat, hsent, hview⟩
      refine ⟨_, ⟨fun _ _ => rfl, ?_, fun _ _ => rfl, ?_, ?_, .nil⟩, hat, hsent, hview⟩
      · intro _ _ h
        cases h
      · intro _ h
        cases h
      · intro _ h
        cases h
    · rintro rows w - ⟨htaken, ws, hws, h⟩
      rw [List.nil_append] at hws
      exact ⟨view, ⟨⟨n, hlimit, htaken.1⟩, htaken.2⟩, ws, 1, ⟨hws.relaying, hws.pristine⟩, h⟩
  · exact Fails.any.throw

theorem relayOutboxBatch_steps_spec (H : RelaySteps D t options S V Z) :
    D.Triple t (fun w => w.db.workspace t = Workspace.empty ∧ S w ∧ outgoing t w.env = [])
      (relayOutboxBatch options) Z fun _ _ => True := by
  have hkept (sent : List (Sent T)) := outgoing_kept (D := D) (t := t) sent
  refine .bind (R := fun _ w => At t Workspace.empty 0 w ∧ outgoing t w.env = []) ((begin_spec H.calm
    (Y := fun _ _ => True) (H.before.and (hkept []).stable) (fun w hi h => ?_) (fun _ _ _ => trivial)
    fun _ => .const).conseq (fun _ _ h => h) (fun _ _ _ h => ⟨h.1, h.2.2⟩) fun _ _ _ h => h) fun _ => ?_
  · obtain ⟨hall, hs⟩ := H.starts hi h.1 h.2
    exact ⟨hall, hs, h.2⟩
  refine Discipline.Triple.handle (Y := fun _ _ => True) ?_ fun error =>
    rollback_throw_spec H.calm .const error (fun _ => .const) fun _ _ _ => ⟨trivial, trivial⟩
  refine .bind (selectUnpublished_spec H) fun rows => .exists_pre fun view => .pure_pre fun htakes => ?_
  have hrows : rows = [] ++ rows := rfl
  refine .bind ((relayRows_spec (H.seen view) H options.crashAfterPublish rows hrows _).pre ?_) fun stats => ?_
  · rintro w - ⟨ws, c, ⟨hws, hpristine⟩, h⟩
    exact ⟨ws, c, ⟨hws, fun _ hp => (nomatch hp), hpristine⟩, h⟩
  refine .pure_pre fun ⟨hstats, hcrash⟩ => .exists_pre fun ws => .exists_pre fun c =>
    .pure_pre fun ⟨hws, hmarked⟩ => ?_
  refine .bind (R := fun _ => Z stats) (commit_spec H.calm (sentSeeing_kept _ (H.seen view)) .any (H.stable stats) ?_)
    fun _ => .pure (H.stable stats) fun _ _ h => h
  intro w r hi hat hsent ha
  obtain ⟨hall, hz⟩ := H.commits hi hat hws hmarked hsent.1 hsent.2 htakes hcrash ha
  refine ⟨hall, fun _ => ?_, fun _ => trivial⟩
  rw [hstats]
  simpa using hz

theorem relayOutboxBatch_spec (H : RelayRules D t) (options : RelayOptions) :
    D.Triple t (fun w => w.db.workspace t = Workspace.empty ∧ outgoing t w.env = []) (relayOutboxBatch options)
      (fun _ _ => True) fun _ _ => True :=
  (relayOutboxBatch_steps_spec (H.steps options)).pre fun _ _ h => ⟨h.1, trivial, h.2⟩

end Marketplace
