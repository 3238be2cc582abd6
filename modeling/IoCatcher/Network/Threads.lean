import IoCatcher.Network.Connection

/-!
# IO Catcher — the two threads of the server

The network thread polls libfabric and runs the hooks; the TCP thread accepts
the connections of the clients and sees them leave. They share the registry of
the clients and the registrations of the objects, each behind its own mutex, and
nothing holds both locks at once. This module takes the sections under a mutex
as the steps, in any interleaving:

* network thread — `checkIdentification` of a request, then its hook;
* TCP thread — `registerClient`; or `disconnectClient`, then one
  `ConsistencyTracker::clientDisconnect` per object, in the loop of
  `Container::onClientDisconnect`.

Client authentication is enabled: `Connection` has the same two parts in one
step, and covers the rest of `onRecv`.
-/

namespace IoCatcher.Network

-- ---------------------------------------------------------------------------
-- State
-- ---------------------------------------------------------------------------

/-- Where the TCP thread is. -/
inductive TcpThread where
  /-- In `epoll_wait`, or anywhere outside `Server::onClientDisconnect`. -/
  | waiting
  /-- The client is out of the registry, the loop over the objects is not
  started. -/
  | leaving (tcpClientId : UInt64)
  /-- The iterator of the loop is at an object. -/
  | visiting (tcpClientId : UInt64) (id : ObjectId)
  /-- The registrations at that object are removed, the iterator has not moved
  yet. -/
  | visited (tcpClientId : UInt64) (id : ObjectId)
  deriving DecidableEq

/-- The client whose disconnection is being handled. -/
def TcpThread.client : TcpThread → Option UInt64
  | .waiting => none
  | .leaving tcpClientId | .visiting tcpClientId _ | .visited tcpClientId _ => some tcpClientId

/-- The state the two threads work on. -/
structure Threads (μ σ : Type) where
  server         : Server μ σ
  /-- The keys of the registered clients (`ClientRegistry`). -/
  clients        : UInt64 → Option UInt64
  /-- The counter of `Server::setupTcpServer`, an `int`. -/
  cntConnections : Int32
  /-- The request that passed `checkIdentification`, until its hook has run. -/
  request        : Option Event
  tcp            : TcpThread
  /-- The clients whose disconnection is handled. -/
  gone           : List UInt64

/-- What happens in one step. -/
inductive ThreadEvent where
  /-- A request arrives and its credentials are checked. -/
  | checkIdentification (id key : UInt64) (e : Event)
  /-- The hook of the request that was accepted. -/
  | onMessage
  /-- The completion of an RDMA operation. -/
  | completion (e : Event)
  /-- A client connects. -/
  | registerClient (key : UInt64)
  /-- A client leaves: `ClientRegistry::disconnectClient`. -/
  | disconnectClient (id : UInt64)
  /-- `objects.begin()` in `Container::onClientDisconnect`. -/
  | loopBegin
  /-- `ConsistencyTracker::clientDisconnect` on the object of the iterator. -/
  | clientDisconnect
  /-- `++it`. -/
  | loopNext

-- ---------------------------------------------------------------------------
-- Steps
-- ---------------------------------------------------------------------------

/-- The event is a request of this client: a range hook takes the client id from
the header that was checked. -/
def RequestOf (id : UInt64) : Event → Prop
  | .rangeRegister tcpClientId .. => tcpClientId = id.toNat
  | .rangeUnregister tcpClientId .. => tcpClientId = id.toNat
  | .rdmaDone _ | .rdmaFail .. | .clientDisconnect _ => False
  | _ => True

instance (id : UInt64) : DecidablePred (RequestOf id)
  | .rangeRegister .. | .rangeUnregister .. => inferInstanceAs (Decidable (_ = _))
  | .rdmaDone _ | .rdmaFail .. | .clientDisconnect _ => inferInstanceAs (Decidable False)
  | .eagerWrite _ | .rdmaWrite _ | .read .. | .flush .. | .create _ | .cow .. => isTrue trivial

/-- The event is the end of an RDMA operation. -/
def IsCompletion : Event → Prop
  | .rdmaDone _ | .rdmaFail .. => True
  | _ => False

instance : DecidablePred IsCompletion
  | .rdmaDone _ | .rdmaFail .. => isTrue trivial
  | .rangeRegister .. | .rangeUnregister .. | .clientDisconnect _ | .eagerWrite _ | .rdmaWrite _
  | .read .. | .flush .. | .create _ | .cow .. => inferInstanceAs (Decidable False)

namespace Threads

variable {μ σ : Type} (B : Backends μ σ)

/-- The id of the next client: `*id = cntConnections++`. -/
def nextId (t : Threads μ σ) : UInt64 := t.cntConnections.toInt64.toUInt64

/-- The network thread runs an event of the server. -/
def run (t : Threads μ σ) (e : Event) : Except ConnectionFault (Threads μ σ) :=
  match t.server.next B e with
  | .ok server => .ok { t with server := server, request := none }
  | .error f => .error (.hook f)

/-- The loop goes on with an object, or is over. -/
def loopTo (t : Threads μ σ) (id : UInt64) : Option ObjectId → Threads μ σ
  | some key => { t with tcp := .visiting id key }
  | none => { t with tcp := .waiting, gone := id :: t.gone }

/-- One step of one of the threads. -/
def exec (t : Threads μ σ) : ThreadEvent → Except ConnectionFault (Threads μ σ)
  | .checkIdentification id key e =>
    if t.request.isNone = true ∧ RequestOf id e then
      .ok (if Network.checkIdentification t.clients id key then { t with request := some e } else t)
    else .error .impossible
  | .onMessage =>
    match t.request with
    | some e => t.run B e
    | none => .error .impossible
  | .completion e =>
    if t.request.isNone = true ∧ IsCompletion e then t.run B e else .error .impossible
  | .registerClient key =>
    if t.tcp = .waiting then
      -- `ClientRegistry::registerClient` asserts that the id is new
      if t.clients t.nextId = none then
        .ok { t with
          clients := fun k => if k = t.nextId then some key else t.clients k
          cntConnections := t.cntConnections + 1 }
      else .error .assertion
    else .error .impossible
  | .disconnectClient id =>
    if t.tcp = .waiting then
      if (t.clients id).isSome then
        .ok { t with
          clients := fun k => if k = id then none else t.clients k
          tcp := .leaving id }
      else .error .assertion
    else .error .impossible
  | .loopBegin =>
    match t.tcp with
    | .leaving id => .ok (t.loopTo id t.server.container.objects.first?)
    | _ => .error .impossible
  | .clientDisconnect =>
    match t.tcp with
    | .visiting id key =>
      .ok { t with
        server := t.server.setTracker key
          ((t.server.container.object key).consistencyTracker.clientDisconnect id.toNat)
        tcp := .visited id key }
    | _ => .error .impossible
  | .loopNext =>
    match t.tcp with
    -- no object is ever removed from the map, so the iterator is still valid
    | .visited id key => .ok (t.loopTo id (t.server.container.objects.next? key))
    | _ => .error .impossible

/-- One step that returns. -/
def Step (t : Threads μ σ) (e : ThreadEvent) (t' : Threads μ σ) : Prop := t.exec B e = .ok t'

/-- An execution whose end passes a test shows that the threads get there. -/
theorem run_of_trace (guard : Threads μ σ → ThreadEvent → Prop)
    [∀ t e, Decidable (guard t e)] (es : List ThreadEvent) (t₀ : Threads μ σ)
    {p : Threads μ σ → Prop} [DecidablePred p]
    (h : (Run.trace (exec B) guard es t₀).any (fun t => decide (p t)) = true) :
    ∃ t, Run (Step B) guard t₀ t ∧ p t := Run.exists_of_trace h

/-- The threads of a server that was just started. -/
def new (server : Server μ σ) : Threads μ σ where
  server := server
  clients := fun _ => none
  cntConnections := 0
  request := none
  tcp := .waiting
  gone := []

end Threads

end IoCatcher.Network
