import Marketplace.Concurrent.RelyGuarantee
import Marketplace.Concurrent.Schedule
import Marketplace.ReadCommitted.RowOperations

namespace ReadCommitted

open Concurrent

structure World (T Q K : Type) (R : K → Type) (X : Type) where
  db : Database T Q K R
  env : X

inductive Action (Q K : Type) (R : K → Type) (Ext : Type)
  | sql (o : Stmt Q K R)
  | ext (o : Ext)

variable {T Q K X Ext : Type} {R : K → Type} {ExtRes : Ext → Type} {E : Type}

abbrev Action.Res (ExtRes : Ext → Type) : Action Q K R Ext → Type
  | .sql o => o.Res
  | .ext o => ExtRes o

def Stmt.IsRollback : Stmt Q K R → Prop
  | .rollback => True
  | _ => False

variable [DecidableEq T] [DecidableEq Q] [DecidableEq K]

/-- One operation on the database or on its environment. Any database operation may be refused
with the error `e`; a COMMIT that reports an error may have been applied, and a ROLLBACK that
does has lost the connection, which rolls back as well. -/
inductive Performs (M : Machine T X Ext ExtRes E) (e : E) (t : T) :
    (a : Action Q K R Ext) → World T Q K R X → Except E (a.Res ExtRes) → World T Q K R X → Prop
  | answer {w : World T Q K R X} {o : Stmt Q K R} {r : o.Res} {db : Database T Q K R}
      (h : w.db.exec t o = some (r, db)) : Performs M e t (.sql o) w (.ok r) ⟨db, w.env⟩
  | refuse {w : World T Q K R X} {o : Stmt Q K R} (ho : ¬o.IsRollback) :
      Performs M e t (.sql o) w (.error e) w
  | lostCommit {w : World T Q K R X} :
      Performs M e t (.sql .commit) w (.error e) ⟨w.db.commit t, w.env⟩
  | lostRollback {w : World T Q K R X} :
      Performs M e t (.sql .rollback) w (.error e) ⟨w.db.rollback t, w.env⟩
  | ext {w : World T Q K R X} {o : Ext} {r : Except E (ExtRes o)} {x : X}
      (h : M.perform t o w.env r x) : Performs M e t (.ext o) w r ⟨w.db, x⟩

variable (M : Machine T X Ext ExtRes E)

def Crashes (t : T) (w w' : World T Q K R X) : Prop :=
  w'.db = w.db.rollback t ∧ M.crash t w.env w'.env

structure WorldFrame (t : T) (w w' : World T Q K R X) : Prop where
  db : w.db.Frame t w'.db
  env : M.frame t w.env w'.env

variable {M}

theorem Performs.frame {e : E} {t t' : T} {a : Action Q K R Ext} {w w' : World T Q K R X}
    {r : Except E (a.Res ExtRes)} (h : Performs M e t a w r w') (hne : t ≠ t') :
    WorldFrame M t' w w' := by
  cases h with
  | answer h => exact ⟨Database.exec_frame h hne, M.frame_refl _ _⟩
  | refuse ho => exact ⟨.refl _ _, M.frame_refl _ _⟩
  | lostCommit => exact ⟨Database.frame_commit hne, M.frame_refl _ _⟩
  | lostRollback => exact ⟨Database.frame_rollback hne, M.frame_refl _ _⟩
  | ext h => exact ⟨.refl _ _, M.perform_frame hne h⟩

def withDatabase (M : Machine T X Ext ExtRes E) (e : E) :
    Machine T (World T Q K R X) (Action Q K R Ext) (Action.Res ExtRes) E where
  perform := Performs M e
  crash := Crashes M
  frame := WorldFrame M
  frame_refl _ _ := ⟨.refl _ _, M.frame_refl _ _⟩
  frame_trans h h' := ⟨h.db.trans h'.db, M.frame_trans h.env h'.env⟩
  perform_frame hne h := h.frame hne
  crash_frame hne h := ⟨h.1 ▸ Database.frame_rollback hne, M.crash_frame hne h.2⟩

inductive DatabaseMove (Move : Type)
  | go
  | refuse
  | ext (m : Move)

instance (o : Stmt Q K R) : Decidable o.IsRollback := by
  cases o <;> unfold Stmt.IsRollback <;> infer_instance

def DatabaseMove.play {S : Moves M} {e : E} (t : T) :
    (a : Action Q K R Ext) → DatabaseMove S.Move → World T Q K R X →
      Option (Except E (a.Res ExtRes) × World T Q K R X)
  | .sql o, .go, w => (w.db.exec t o).map fun (r, db) => (.ok r, ⟨db, w.env⟩)
  | .sql o, .refuse, w => if o.IsRollback then none else some (.error e, w)
  | .ext o, .ext m, w => (S.play t o m w.env).map fun (r, x) => (r, ⟨w.db, x⟩)
  | _, _, _ => none

def withDatabaseMoves (S : Moves M) (e : E) : Moves (withDatabase (Q := Q) (R := R) M e) where
  Move := DatabaseMove S.Move
  play := DatabaseMove.play (e := e)
  die t w := (S.die t w.env).map fun x => ⟨w.db.rollback t, x⟩
  play_sound := by
    intro t a m w r w' h
    cases a with
    | sql o =>
      cases m with
      | go =>
        simp only [DatabaseMove.play, Option.map_eq_some_iff] at h
        obtain ⟨⟨x, db⟩, hx, heq⟩ := h
        cases heq
        exact .answer hx
      | refuse =>
        simp only [DatabaseMove.play] at h
        split_ifs at h with ho
        cases h
        exact .refuse ho
      | ext m => cases h
    | ext o =>
      cases m with
      | go => cases h
      | refuse => cases h
      | ext m =>
        simp only [DatabaseMove.play, Option.map_eq_some_iff] at h
        obtain ⟨⟨x, env⟩, hx, heq⟩ := h
        cases heq
        exact .ext (S.play_sound hx)
  die_sound := by
    intro t w w' h
    simp only [Option.map_eq_some_iff] at h
    obtain ⟨x, hx, rfl⟩ := h
    exact ⟨rfl, S.die_sound hx⟩

end ReadCommitted
