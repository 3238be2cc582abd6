import IoCatcher.Client.Actions
import IoCatcher.Lib.Simulation

/-!
# IO Catcher — a server and its clients

One server connection, any number of client connections, and the messages between them, in
any order. A client connection joins the server with a handshake and then makes one call
after the other (`Actions.cpp` polls for the answer before it returns). libfabric delivers
each message once, to the endpoint it was sent to, and in no particular order; the server
takes it in any of its posted receive buffers.

A client may die in the middle of a call. Its TCP connection then breaks, and
`Server::onClientDisconnect` takes its credentials back.

The steps have labels (`Act`): the calls and what they return, and the requests that the
server makes for them. `Stage` is what one client may see of them, one call after the other.
-/

namespace IoCatcher.Client

open Wire Network

-- ---------------------------------------------------------------------------
-- State
-- ---------------------------------------------------------------------------

/-- The address of a libfabric endpoint (`fi_getname`). -/
abbrev Address := Fin maxAddrLen → UInt8

/-- Where a client connection is. -/
inductive Phase where
  /-- In `joinServer`. -/
  | joining
  | idle
  /-- In a call, polling for its answer. -/
  | waiting (call : Call)

/-- A connection of a client. -/
structure Session where
  identity : Identity
  phase    : Phase
  alive    : Bool

/-- The server, the client connections by their address, and the messages in flight with the
address of the client they come from or go to. -/
structure System (μ σ : Type) where
  server    : Connection μ σ
  clients   : Address → Option Session
  requests  : List (Address × List UInt8)
  responses : List (Address × List UInt8)

-- ---------------------------------------------------------------------------
-- Labels
-- ---------------------------------------------------------------------------

/-- What happens in a step. -/
inductive Act where
  | call (address : Address) (k : Call)
  /-- The server makes a request for a client. -/
  | serve (address : Address) (e : Event) (reply : Reply)
  /-- A call returns. -/
  | answer (address : Address) (result : Result)
  /-- The process of a client stops. -/
  | abort (address : Address) (fault : ClientFault)
  | disconnect (tcpClientId : UInt64)
  | internal

/-- What happens to one client. -/
inductive Doing where
  | call (k : Call)
  | serve (e : Event) (reply : Reply)
  | answer (result : Result)
  | abort (fault : ClientFault)

/-- What a step is for the client at an address. -/
def Act.at (a : Address) : Act → Option Doing
  | .call b k => if b = a then some (.call k) else none
  | .serve b e reply => if b = a then some (.serve e reply) else none
  | .answer b result => if b = a then some (.answer result) else none
  | .abort b fault => if b = a then some (.abort fault) else none
  | .disconnect _ | .internal => none

/-- The requests that the server makes in a step, with their replies. -/
def Act.made : Act → List (Event × Reply)
  | .serve _ e reply => [(e, reply)]
  | .disconnect tcpClientId => [(.clientDisconnect tcpClientId.toNat, .nothing)]
  | _ => []

/-- The step of the server for a message or a transfer of a client. -/
def Act.ofServed (a : Address) : Option (Event × Reply) → Act
  | some (e, reply) => .serve a e reply
  | none => .internal

-- ---------------------------------------------------------------------------
-- Messages
-- ---------------------------------------------------------------------------

/-- The bytes of a message, as they are packed into a buffer of this size. -/
def packedBytes (header : LibfabricMessageHeader) (body : MessageBody) (size : Nat) :
    Except SerializerFault (List UInt8) :=
  match packMessage header body (fun _ => 0) size with
  | .ok (_, s) => .ok (s.buffer.slice 0 s.cursor)
  | .error f => .error f

variable {μ σ : Type}

/-- The bytes of a message that the server sent, with the client they go to. An RDMA operation
is no message. -/
def responseOf (size : Nat) (e : Issued) : Option (Address × List UInt8) :=
  match e.content with
  | .rdma _ => none
  | .message msgType body =>
    match packedBytes (Network.fillProtocolHeader msgType) body size with
    | .ok bytes => some (e.target.addr, bytes)
    | .error _ => none

/-- What the server sent in a step. -/
def newResponses (c c' : Connection μ σ) : List (Address × List UInt8) :=
  (c'.issued.drop c.issued.length).filterMap (responseOf c.msgBufferSize)

-- ---------------------------------------------------------------------------
-- Requests of the server
-- ---------------------------------------------------------------------------

/-- The server makes this request, if it returns. -/
def replied (B : Backends μ σ) (s : Server μ σ) (e : Event) : Option (Event × Reply) :=
  match s.exec B e with
  | .ok (reply, _) => some (e, reply)
  | .error _ => none

/-- The request that the message in a receive buffer makes of the server, with its reply. -/
def servedBy (B : Backends μ σ) (c : Connection μ σ) (id : Nat) (outside : Outside) :
    Option (Event × Reply) :=
  (c.eventOf id outside).bind (replied B c.server)

/-- The request that the end of a transfer makes of the server, with its reply. -/
def servedAfter (B : Backends μ σ) (c : Connection μ σ) (t : Transfer) : Option (Event × Reply) :=
  t.event.bind (replied B c.server)

-- ---------------------------------------------------------------------------
-- Steps
-- ---------------------------------------------------------------------------

namespace System

/-- A client connection changes. -/
def setClient (s : System μ σ) (a : Address) (p : Session) : System μ σ :=
  { s with clients := fun b => if b = a then some p else s.clients b }

/-- A client sends a message. -/
def sends (s : System μ σ) (a : Address) (bytes : List UInt8) : System μ σ :=
  { s with requests := s.requests ++ [(a, bytes)] }

/-- A client takes a message. -/
def takes (s : System μ σ) (n : Nat) : System μ σ :=
  { s with responses := s.responses.eraseIdx n }

/-- The server made a step. -/
def served (s : System μ σ) (c : Connection μ σ) : System μ σ :=
  { s with server := c, responses := s.responses ++ newResponses s.server c }

/-- The memory that the server fetches from is the buffer of the call. -/
def Fetches (s : System μ σ) (a : Address) (memory : Bytes) : Prop :=
  ∀ p k, s.clients a = some p → p.phase = .waiting k → k.Fetches memory

/-- One step. -/
inductive Step (B : Backends μ σ) (s : System μ σ) : Act → System μ σ → Prop where
  /-- A process connects by TCP and gets its credentials. -/
  | tcpConnect {id key : UInt64} {c : Connection μ σ}
      (hstep : s.server.Step B (.clientConnect id key) c) :
      Step B s .internal { s with server := c }
  /-- The TCP connection of a process breaks. It has no connection that is alive. -/
  | tcpDisconnect {id : UInt64} {c : Connection μ σ}
      (hdead : ∀ a p, s.clients a = some p → p.identity.tcpClientId = id → p.alive = false)
      (hstep : s.server.Step B (.clientDisconnect id) c) :
      Step B s (.disconnect id) { s with server := c }
  /-- A process makes a new connection, which starts to join the server. -/
  | start {a : Address} {id key : UInt64} {bytes : List UInt8} (hfresh : s.clients a = none)
      (hcred : s.server.clients id = some key)
      (hbytes : packedBytes ((Identity.new id key).fillProtocolHeader .connectInit)
        (.firstClientMessage ⟨a⟩) postReceiveWrite = .ok bytes) :
      Step B s .internal ((s.setClient a ⟨.new id key, .joining, true⟩).sends a bytes)
  /-- The client gets its id. -/
  | joined {a : Address} {p : Session} {n : Nat} {bytes : List UInt8} {buffer : ByteBuffer}
      {firstHandshake : LibfabricFirstHandshake} {id : UInt64}
      (hin : s.responses[n]? = some (a, bytes)) (hp : s.clients a = some p)
      (halive : p.alive = true) (hphase : p.phase = .joining) (hbuffer : buffer.Holds 0 bytes)
      (hrun : onAssignId firstHandshake buffer postReceiveRead = .ok id) :
      Step B s .internal ((s.setClient a ⟨{ p.identity with clientId := id }, .idle, true⟩).takes n)
  /-- The client stops in `joinServer`. -/
  | joinAbort {a : Address} {p : Session} {n : Nat} {bytes : List UInt8} {buffer : ByteBuffer}
      {firstHandshake : LibfabricFirstHandshake} {f : ClientFault}
      (hin : s.responses[n]? = some (a, bytes)) (hp : s.clients a = some p)
      (halive : p.alive = true) (hphase : p.phase = .joining) (hbuffer : buffer.Holds 0 bytes)
      (hrun : onAssignId firstHandshake buffer postReceiveRead = .error f) :
      Step B s (.abort a f) ((s.setClient a { p with alive := false }).takes n)
  /-- A call starts. -/
  | call {a : Address} {p : Session} {k : Call} {bytes : List UInt8} (hp : s.clients a = some p)
      (halive : p.alive = true) (hphase : p.phase = .idle)
      (hbytes : packedBytes (p.identity.fillProtocolHeader k.request.msgType) k.request.body
        postReceiveWrite = .ok bytes) :
      Step B s (.call a k) ((s.setClient a { p with phase := .waiting k }).sends a bytes)
  /-- A call gets a message and returns. -/
  | answer {a : Address} {p : Session} {k : Call} {n : Nat} {bytes : List UInt8}
      {buffer : ByteBuffer} {response : LibfabricResponse} {result : Result}
      (hin : s.responses[n]? = some (a, bytes)) (hp : s.clients a = some p)
      (halive : p.alive = true) (hphase : p.phase = .waiting k) (hbuffer : buffer.Holds 0 bytes)
      (hrun : k.onMessage response buffer postReceiveRead = .ok result) :
      Step B s (.answer a result) ((s.setClient a { p with phase := .idle }).takes n)
  /-- A call gets a message and stops the process. -/
  | abort {a : Address} {p : Session} {k : Call} {n : Nat} {bytes : List UInt8}
      {buffer : ByteBuffer} {response : LibfabricResponse} {f : ClientFault}
      (hin : s.responses[n]? = some (a, bytes)) (hp : s.clients a = some p)
      (halive : p.alive = true) (hphase : p.phase = .waiting k) (hbuffer : buffer.Holds 0 bytes)
      (hrun : k.onMessage response buffer postReceiveRead = .error f) :
      Step B s (.abort a f) ((s.setClient a { p with alive := false }).takes n)
  /-- A process dies. -/
  | die {a : Address} {p : Session} (hp : s.clients a = some p) :
      Step B s .internal (s.setClient a { p with alive := false })
  /-- The server receives a message. -/
  | receive {a : Address} {n id : Nat} {bytes : List UInt8} {outside : Outside}
      {c : Connection μ σ} (hin : s.requests[n]? = some (a, bytes))
      (hfetch : s.Fetches a outside.clientMemory)
      (hstep : s.server.Step B (.recv id bytes outside) c) :
      Step B s (.ofServed a (servedBy B (s.server.deliver id bytes) id outside))
        { s.served c with requests := s.requests.eraseIdx n }
  /-- The RDMA operations of a request are over. -/
  | finish {n : Nat} {t : Transfer} {target : Endpoint} {fetched : Bytes} {c : Connection μ σ}
      (hin : s.server.transfers[n]? = some t)
      (htarget : s.server.endpointOf t.request = some target)
      (hstep : s.server.Step B (.done n fetched) c) :
      Step B s (.ofServed target.addr (servedAfter B s.server t)) (s.served c)

/-- A step before `2^32` connections have joined: the ids of endpoints are found by their low
32 bits. -/
def Runs (B : Backends μ σ) (s : System μ σ) (l : Act) (s' : System μ σ) : Prop :=
  s.server.nextEndpointId.toNat < 2 ^ 32 ∧ s.Step B l s'

/-- The server has just started, and there are no clients. -/
def new (server : Server μ σ) (checkClientAuth : Bool) (recvBuffers : Nat → ByteBuffer)
    (fiAvInsert : Address → Bool) : System μ σ :=
  ⟨Connection.postReceives server (1024 * 1024) 128 postReceiveRead checkClientAuth recvBuffers
    fiAvInsert, fun _ => none, [], []⟩

end System

-- ---------------------------------------------------------------------------
-- What a client sees
-- ---------------------------------------------------------------------------

/-- Where a client is, as far as its calls and the requests made for them say. -/
inductive Stage where
  | idle
  | called (k : Call)
  /-- The server fetches the data of a write. -/
  | fetching (k : Call) (number : Nat)
  /-- The server has replied; what is left is the way back. -/
  | answered (k : Call) (reply : Reply)
  /-- The server found nothing to transfer, and does not answer. -/
  | lost (k : Call)
  | aborted

/-- One call after the other, each answered with the reply to one request, which is the one
the call asks for. `starts` says what the server starts for a request that it does not answer
at once: the fetch of a write, or nothing. -/
inductive Stage.Step (starts : Event → Reply → Option Nat → Prop) (tcpClientId : UInt64) :
    Stage → Doing → Stage → Prop where
  | call (k : Call) : Step starts tcpClientId .idle (.call k) (.called k)
  | serve {k : Call} {e : Event} {reply : Reply} (hasks : k.Asks tcpClientId e)
      (hreply : reply ≠ .nothing) :
      Step starts tcpClientId (.called k) (.serve e reply) (.answered k reply)
  | fetch {k : Call} {e : Event} {number : Nat} (hasks : k.Asks tcpClientId e)
      (hstarts : starts e .nothing (some number)) :
      Step starts tcpClientId (.called k) (.serve e .nothing) (.fetching k number)
  | fetched {k : Call} {number : Nat} :
      Step starts tcpClientId (.fetching k number) (.serve (.rdmaDone number) (.ack 0))
        (.answered k (.ack 0))
  | lost {k : Call} {e : Event} {reply : Reply} (hasks : k.Asks tcpClientId e)
      (hstarts : starts e reply none) :
      Step starts tcpClientId (.called k) (.serve e reply) (.lost k)
  | answer {k : Call} {reply : Reply} :
      Step starts tcpClientId (.answered k reply) (.answer (k.result reply)) .idle
  /-- The data of a read is not as long as was asked for. -/
  | abort {k : Call} {response : EagerResponse}
      (hsize : response.data.length ≠ k.readSize) (fault : ClientFault) :
      Step starts tcpClientId (.answered k (.eager response)) (.abort fault) .aborted

/-- What the server starts for a request: the fetch of the write with this number, or nothing. -/
def Starts (B : Backends μ σ) (s : Server μ σ) (e : Event) (reply : Reply) (number : Option Nat) :
    Prop :=
  ∃ s', s.exec B e = .ok (reply, s') ∧ match number with
    | some n => reply = .nothing ∧ n = s.started.length ∧ (s'.findPending n).isSome
    | none => reply = .rdma [] ∨ reply = .nothing ∧ s'.findPending s.started.length = none

end IoCatcher.Client
