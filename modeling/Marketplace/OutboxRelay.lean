import Mathlib.Data.List.Sort
import Marketplace.Orders

namespace Marketplace

open Concurrent ReadCommitted

structure RelayStats where
  selected : ℕ
  published : ℕ
  markedPublished : ℕ
  deriving DecidableEq, Repr

structure RelayOptions where
  batchSize : Option JsNumber
  crashAfterPublish : Bool
  deriving DecidableEq, Repr

def defaultBatchSize : JsNumber := .integer 10

def simulatedCrash : Failure := .error "Simulated relay crash after publish before published_at update"

-- the parameter of LIMIT, a bigint that is not negative
def limitParameter : JsNumber → Option ℕ
  | .integer n => if 0 ≤ n && fitsInt8 n then some n.toNat else none
  | .other => none

def RelayOptions.limit (options : RelayOptions) : Option ℕ :=
  limitParameter (options.batchSize.getD defaultBatchSize)

-- ORDER BY created_at, id
def Earlier (x y : ℕ × OutboxMessageRow) : Prop :=
  x.2.createdAt < y.2.createdAt ∨ x.2.createdAt = y.2.createdAt ∧ x.1 < y.1

variable {T : Type}

-- WHERE published_at IS NULL ORDER BY created_at, id
def View.unpublished (view : View T) : List ℕ :=
  let rows := (List.range (view.seq .outboxMessages)).filterMap fun id =>
    ((view.row (.outboxMessage id)).filter fun row => row.publishedAt.isNone).map fun row => (row.createdAt, id)
  (rows.insertionSort fun x y => x.1 ≤ y.1).map Prod.snd

/-- `FOR UPDATE SKIP LOCKED LIMIT n`: a row is returned if its lock is free and its latest version is
still unpublished. -/
def lockUnpublished : List ℕ → ℕ → ShopCall T (List (ℕ × OutboxMessageRow))
  | [], _ => pure []
  | _, 0 => pure []
  | id :: ids, n + 1 => do
    let locked ← tryLock (Key.outboxMessage id)
    match locked.filter fun row => row.publishedAt.isNone with
    | none => lockUnpublished ids (n + 1)
    | some row =>
      let rows ← lockUnpublished ids n
      pure ((id, row) :: rows)

def selectUnpublished (batchSize : JsNumber) : ShopCall T (List (ℕ × OutboxMessageRow)) :=
  match limitParameter batchSize with
  | some n => do
    let view ← statement
    lockUnpublished (View.unpublished view) n
  | none => throw .database

def relayRows (crashAfterPublish : Bool) : List (ℕ × OutboxMessageRow) → RelayStats → ShopCall T RelayStats
  | [], stats => pure stats
  | (id, row) :: rows, stats => do
    let _ ← update (Key.outboxMessage id) (fun _ => true) fun row => { row with attempts := row.attempts + 1 }
    publishOrderPlaced (.payload row.payload)
    if crashAfterPublish then throw simulatedCrash
    else
      let now ← clock
      let _ ← update (Key.outboxMessage id) (fun _ => true) fun row => { row with publishedAt := some now }
      relayRows crashAfterPublish rows
        { stats with published := stats.published + 1, markedPublished := stats.markedPublished + 1 }

def relayOutboxBatch (options : RelayOptions) : ShopCall T RelayStats := do
  begin
  tryCatch (do
    let rows ← selectUnpublished (options.batchSize.getD defaultBatchSize)
    let stats ← relayRows options.crashAfterPublish rows ⟨rows.length, 0, 0⟩
    commit
    pure stats)
    (fun error => do
      rollback
      throw error)

end Marketplace
