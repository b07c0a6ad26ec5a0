import Marketplace.AuthService
import Marketplace.ReadCommitted.Alone
import Marketplace.StatusStream

namespace Marketplace

open Concurrent ReadCommitted

structure JoinOrderResponse where
  ok : Bool
  room : Option String
  error : Option String
  deriving DecidableEq, Repr

-- what a handler answers besides the exceptions of the services
inductive Reply
  | order (response : OrderResponse)
  | stream
  | joined (response : JoinOrderResponse)
  | forbidden (message : String)
  deriving DecidableEq, Repr

section Code

variable {T Ext : Type} {ExtRes : Ext → Type}

def isAccessTokenDenied (now : ℕ) (jti : String) : Client Serial Key (Row T) ExtRes Failure Bool := do
  let view ← statement
  pure ((view.row (.accessTokenDenylist jti)).any fun row => now < row.expiresAt)

def bearerToken : Option String → Option String
  | none => none
  | some header =>
    if "Bearer ".toList.isPrefixOf header.toList then some (String.ofList (header.toList.drop "Bearer ".length))
    else none

-- the token is verified at one time, and the denylist is asked at a later one
def AuthGuard.canActivateAt (crypto : AuthCrypto) (verifiedAt deniedAt : ℕ) (authorization : Option String) :
    Client Serial Key (Row T) ExtRes Failure AccessTokenPayload :=
  match bearerToken authorization with
  | none => throw (.unauthorized "Access token is required")
  | some token =>
    match crypto.verifyAccessToken (verifiedAt / 1000) token with
    | none => throw (.unauthorized "Invalid access token")
    | some payload => do
      if ← isAccessTokenDenied deniedAt payload.jti then throw (.unauthorized "Access token revoked") else pure payload

def AuthGuard.canActivate (crypto : AuthCrypto) (now : ℕ) (authorization : Option String) :
    Client Serial Key (Row T) ExtRes Failure AccessTokenPayload :=
  AuthGuard.canActivateAt crypto now now authorization

-- the parameter for a BIGINT column
def bigintParameter : JsNumber → Client Serial Key (Row T) ExtRes Failure ℤ
  | .integer n => if fitsInt8 n then pure n else throw .database
  | .other => throw .database

-- `belongsToUser` of any two numbers
def numbersBelong (orderId userId : JsNumber) : Client Serial Key (Row T) ExtRes Failure Bool := do
  let orderId ← bigintParameter orderId
  let userId ← bigintParameter userId
  if orderId < 0 ∨ userId < 0 then pure false else belongsToUser orderId.toNat userId.toNat

namespace OrdersController

def createOrder (self : T) (idempotencyKey : Option String) (body : CreateOrderInput) : ShopCall T Reply :=
  match idempotencyKey with
  | none | some "" => throw (.badRequest "Idempotency-Key header is required")
  | some idempotencyKey => do
    let response ← create self body idempotencyKey
    pure (.order response)

def updateOrderStatus (id : ℕ) (status : String) : EventsCall T Reply := do
  let response ← updateStatus (fun orderId status => memory (.emitStatusChanged orderId status)) id status
  pure (.order response)

-- the stream stays open
def streamOrderEvents (id : ℕ) (lastEventIdHeader : Option String) : EventsCall T Reply := do
  let _ ← findById id
  memory (.subscribe id lastEventIdHeader)
  pure .stream

def getOrderById (crypto : AuthCrypto) (now id : ℕ) (authorization : Option String) : EventsCall T Reply := do
  let user ← AuthGuard.canActivate crypto now authorization
  if ← numbersBelong (.integer id) (jsNumber user.sub) then
    let response ← findById id
    pure (.order response)
  else pure (.forbidden "Order belongs to another user")

end OrdersController

namespace OrdersGateway

def getRoomName (orderId : ℤ) : String := "orders:" ++ Int.repr orderId

/-- `handshakeUserId` is the number that the client has put in its handshake. -/
def joinOrderRoom (handshakeUserId payloadOrderId : JsNumber) : EventsCall T Reply :=
  match payloadOrderId with
  | .integer orderId =>
    if orderId ≤ 0 then pure (.joined ⟨false, none, some "Invalid order id"⟩)
    else if handshakeUserId.isPositiveInteger then do
      if ← numbersBelong (.integer orderId) handshakeUserId then
        memory (.join orderId.toNat)
        pure (.joined ⟨true, some (getRoomName orderId), none⟩)
      else pure (.joined ⟨false, none, some "Order does not belong to this user"⟩)
    else pure (.joined ⟨false, none, some "Unauthorized"⟩)
  | .other => pure (.joined ⟨false, none, some "Invalid order id"⟩)

end OrdersGateway

inductive OrdersRequest
  | getOrderById (id : ℕ) (authorization : Option String)
  | streamOrderEvents (id : ℕ) (lastEventIdHeader : Option String)
  | updateOrderStatus (id : ℕ) (status : String)
  | createOrder (idempotencyKey : Option String) (body : CreateOrderInput)
  | join (handshakeUserId payloadOrderId : JsNumber)

/-- A request of the principal, if it is `own`, or of somebody else. -/
structure SentRequest (T : Type) where
  call : T
  own : Bool
  request : OrdersRequest
  now : ℕ

variable {X : Type}

-- `create` reads the clock and does not publish
def shopAt (now : ℕ) : (o : ShopOp) → X → Except Failure (ShopOp.Res o) × X
  | .clock, x => (.ok now, x)
  | .connectToBroker, x => (.error .broker, x)
  | .publish _, x => (.error .broker, x)
  | .waitForConfirms, x => (.error .broker, x)
  | .close, x => (.error .broker, x)

variable [DecidableEq T]

def eventsAt (t : T) (now : ℕ) : (o : EventsOp) → EventsState T → Except Failure (EventsOp.Res o) × EventsState T
  | .emitStatusChanged orderId status, x => (.ok (), x.emit t orderId status now)
  | .subscribe orderId header, x =>
    (.ok (), x.subscribe t (some ⟨orderId, x.service.getEventsAfter orderId (parseLastEventId header)⟩))
  | .join orderId, x => (.ok (), x.subscribe t (some ⟨orderId, []⟩))
  | .close, x => (.ok (), x.subscribe t none)

def runAlone (t : T) (now : ℕ) (handler : EventsCall T Reply) (w : EventsWorld T) :
    Except Failure Reply × EventsWorld T :=
  handler.run (stepAlone (eventsAt t now) .database t) w

def SentRequest.serve (crypto : AuthCrypto) (sent : SentRequest T) (w : EventsWorld T) :
    Except Failure Reply × EventsWorld T :=
  match sent.request with
  | .getOrderById id authorization =>
    runAlone sent.call sent.now (OrdersController.getOrderById crypto sent.now id authorization) w
  | .streamOrderEvents id header => runAlone sent.call sent.now (OrdersController.streamOrderEvents id header) w
  | .updateOrderStatus id status => runAlone sent.call sent.now (OrdersController.updateOrderStatus id status) w
  | .createOrder idempotencyKey body =>
    (OrdersController.createOrder sent.call idempotencyKey body).run
      (stepAlone (shopAt sent.now) .database sent.call) w
  | .join userId orderId => runAlone sent.call sent.now (OrdersGateway.joinOrderRoom userId orderId) w

def serveAll (crypto : AuthCrypto) : List (SentRequest T) → EventsWorld T → List (Except Failure Reply) × EventsWorld T
  | [], w => ([], w)
  | sent :: rest, w =>
    let served := sent.serve crypto w
    let later := serveAll crypto rest served.2
    (if sent.own then served.1 :: later.1 else later.1, later.2)

/-- What the principal has seen: the replies, and the events of its streams and rooms. -/
def observed (crypto : AuthCrypto) (requests : List (SentRequest T)) (w : EventsWorld T) :
    List (Except Failure Reply) × List (Option (List OrderStatusEvent)) :=
  let served := serveAll crypto requests w
  (served.1, (requests.filter SentRequest.own).map fun sent =>
    (served.2.env.subscribers sent.call).map Subscriber.sent)

end Code

section Alone

variable {T : Type} [DecidableEq T] {t : T}

theorem eventsAt_performs (now : ℕ) (o : EventsOp) (x : EventsState T) :
    EventsPerforms t o x (eventsAt t now o x).1 (eventsAt t now o x).2 := by
  cases o with
  | emitStatusChanged orderId status => exact .emitStatusChanged now
  | subscribe orderId header => exact .subscribe
  | join orderId => exact .join
  | close => exact .close

theorem runAlone_reachable {now : ℕ} {handler : EventsCall T Reply} {c : EventsConfig T Reply}
    (hc : c.prog t = some handler) : ∃ d, (EventsMachine T).Reachable c d ∧
      d.outcome t = some (runAlone t now handler c.shared).1 ∧ d.shared = (runAlone t now handler c.shared).2 := by
  refine ⟨_, Prog.run_reachable (fun o s => stepAlone_performs (eventsAt_performs now) o s) handler c hc, ?_, rfl⟩
  exact Config.outcome_eq_some.mpr (Function.update_self ..)

end Alone

end Marketplace
