import Marketplace.OrderPlacedEvent
import Marketplace.ReadCommitted.Statements

namespace Marketplace

open ReadCommitted

-- the BIGSERIAL columns
inductive Serial
  | users | products | orders | orderItems | postProcessingTasks | outboxMessages | refreshTokens
  deriving DecidableEq, Repr

/-- The rows of all tables by their primary keys. A unique column that is not the primary key has
index entries of its own (`outboxEventId`, `tokenHash`), which lead to the row's id. -/
inductive Key
  | user (id : ℕ)
  | product (id : ℕ)
  | order (id : ℕ)
  | orderItem (id : ℕ)
  | postProcessingTask (id : ℕ)
  | outboxMessage (id : ℕ)
  | outboxEventId (eventId : String)
  | processedMessage (messageId consumer : String)
  | orderEventEffect (messageId : String)
  | idempotencyKey (key : String)
  | refreshToken (id : ℕ)
  | tokenHash (hash : String)
  | accessTokenDenylist (jti : String)
  deriving DecidableEq, Repr

inductive UserRole
  | buyer | seller | admin
  deriving DecidableEq, Repr

structure UserRow where
  email : String
  passwordHash : Option String
  role : UserRole
  balance : ℤ
  deriving DecidableEq, Repr

structure ProductRow where
  price : ℤ
  stockQuantity : ℤ
  isActive : Bool
  deriving DecidableEq, Repr

inductive OrderStatus
  | created | paid | shipped | completed | cancelled
  deriving DecidableEq, Repr

-- `placedBy`, `processedBy`, `insertedBy`, `usedBy` and `revokedBy` are history variables: the calls that
-- wrote the row. No statement reads them.
structure OrderRow (T : Type) where
  userId : ℕ
  status : OrderStatus
  totalAmount : ℤ
  placedBy : Option T
  deriving DecidableEq, Repr

structure OrderItemRow where
  orderId : ℕ
  productId : ℕ
  quantity : ℤ
  unitPrice : ℤ
  deriving DecidableEq, Repr

inductive TaskStatus
  | pending | done
  deriving DecidableEq, Repr

structure PostProcessingTaskRow (T : Type) where
  orderId : ℕ
  type : String
  status : TaskStatus
  processed : ℤ
  workerId : Option String
  processedAt : Option ℕ
  processedBy : Option T
  deriving DecidableEq, Repr

structure OutboxMessageRow where
  eventId : String
  aggregateType : String
  aggregateId : String
  type : String
  payload : OrderPlacedPayload
  createdAt : ℕ
  publishedAt : Option ℕ
  attempts : ℤ
  deriving DecidableEq, Repr

structure ProcessedMessageRow (T : Type) where
  insertedBy : Option T
  deriving DecidableEq, Repr

structure OrderEventEffectRow where
  orderId : ℤ
  eventType : String
  deriving DecidableEq, Repr

structure IdempotencyKeyRow where
  orderId : Option ℕ
  deriving DecidableEq, Repr

structure RefreshTokenRow (T : Type) where
  tokenHash : String
  familyId : String
  userId : ℕ
  usedAt : Option ℕ
  revokedAt : Option ℕ
  expiresAt : ℕ
  usedBy : Option T
  revokedBy : List T
  deriving DecidableEq, Repr

structure AccessTokenDenylistRow where
  expiresAt : ℕ
  deriving DecidableEq, Repr

abbrev Row (T : Type) : Key → Type
  | .user _ => UserRow
  | .product _ => ProductRow
  | .order _ => OrderRow T
  | .orderItem _ => OrderItemRow
  | .postProcessingTask _ => PostProcessingTaskRow T
  | .outboxMessage _ => OutboxMessageRow
  | .outboxEventId _ => ℕ
  | .processedMessage _ _ => ProcessedMessageRow T
  | .orderEventEffect _ => OrderEventEffectRow
  | .idempotencyKey _ => IdempotencyKeyRow
  | .refreshToken _ => RefreshTokenRow T
  | .tokenHash _ => ℕ
  | .accessTokenDenylist _ => AccessTokenDenylistRow

abbrev Tables (T : Type) := (k : Key) → Option (Row T k)

abbrev View (T : Type) := Snapshot Serial Key (Row T)

variable {T : Type}

-- the integer columns and their CHECK constraints
def Row.valid : (k : Key) → Row T k → Bool
  | .user _, row => fitsInt4 row.balance && 0 ≤ row.balance
  | .product _, row => fitsInt4 row.price && 0 < row.price && fitsInt4 row.stockQuantity && 0 ≤ row.stockQuantity
  | .order _, row => fitsInt4 row.totalAmount && 0 ≤ row.totalAmount
  | .orderItem _, row => fitsInt4 row.quantity && 0 < row.quantity && fitsInt4 row.unitPrice && 0 < row.unitPrice
  | .postProcessingTask _, row => fitsInt4 row.processed && 0 ≤ row.processed
  | .outboxMessage _, row => fitsInt4 row.attempts
  | .orderEventEffect _, row => fitsInt8 row.orderId
  | _, _ => true

-- the rows that the foreign keys of a row lead to
def Row.references : (k : Key) → Row T k → List Key
  | .order _, row => [.user row.userId]
  | .orderItem _, row => [.order row.orderId, .product row.productId]
  | .postProcessingTask _, row => [.order row.orderId]
  | .idempotencyKey _, row => row.orderId.toList.map .order
  | .refreshToken _, row => [.user row.userId]
  | _, _ => []

section Queries

variable {Ext : Type} {ExtRes : Ext → Type}

abbrev insertOnConflictDoNothing (k : Key) (row : Row T k) : Client Serial Key (Row T) ExtRes Failure Bool :=
  insertOrSkip .database Row.valid k row

abbrev insertUnique (k : Key) (row : Row T k) : Client Serial Key (Row T) ExtRes Failure Unit :=
  insertOrFail .database Row.valid k row

abbrev insertReturningId (q : Serial) (key : ℕ → Key) (row : (id : ℕ) → Row T (key id)) :
    Client Serial Key (Row T) ExtRes Failure ℕ :=
  insertWithId .database Row.valid q key row

abbrev update (k : Key) (p : Row T k → Bool) (f : Row T k → Row T k) :
    Client Serial Key (Row T) ExtRes Failure (Option (Row T k)) :=
  updateWhere .database Row.valid k p f

end Queries

end Marketplace
