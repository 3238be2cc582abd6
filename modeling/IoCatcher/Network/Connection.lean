import IoCatcher.Model.Server
import IoCatcher.Wire.Protocol

/-!
# IO Catcher — the libfabric connection of the server

The code between libfabric and the hooks: `LibfabricConnection` as the server
uses it, with its receive buffers, its client registry and its endpoints.

A message arrives in a posted receive buffer and is dispatched by `onRecv`:
a handshake gets an endpoint, a request with the credentials of a registered
client is decoded and given to its hook, any other message is refused. The hooks
themselves are those of `Server.exec`; what is modelled here is what they do
with the message, the receive buffer and the answer.

* `recvBuffers` — the contents. A message overwrites the start of its buffer,
  the rest of the buffer keeps what earlier messages left there.
* `posted` — the receive buffers libfabric can use for the next messages.
* `transfers` — RDMA operations in flight, each with the request it is for. They
  complete in any order.
* `issued` — every message and every transfer sent so far, with the endpoint it
  was sent to and the accepted request it answers.

What a hook reads besides the message is in `Outside`: the memory of the client,
and memory of the process the code reads without having written it. The
statistics and the debug output are left out.
-/

namespace IoCatcher.Network

open Wire

-- ---------------------------------------------------------------------------
-- Types of messages and hooks
-- ---------------------------------------------------------------------------

/-- `LibfabricMessageType`. -/
inductive LibfabricMessageType where
  | connectInit | assignId | badAuth | fatalError
  | ping | pong
  | objRead | objWrite | objReadWriteAck | objFlush | objFlushAck | objCreate | objCreateAck
  | objRangeRegister | objRangeRegisterAck | objRangeUnregister | objRangeUnregisterAck
  | objCow | objCowAck
  deriving DecidableEq, Repr

/-- The number of a type in `msgType`. -/
def LibfabricMessageType.code : LibfabricMessageType → UInt64
  | .connectInit => 0
  | .assignId => 1
  | .badAuth => 2
  | .fatalError => 3
  | .ping => 10
  | .pong => 11
  | .objRead => 100
  | .objWrite => 101
  | .objReadWriteAck => 102
  | .objFlush => 103
  | .objFlushAck => 104
  | .objCreate => 105
  | .objCreateAck => 106
  | .objRangeRegister => 107
  | .objRangeRegisterAck => 108
  | .objRangeUnregister => 109
  | .objRangeUnregisterAck => 110
  | .objCow => 111
  | .objCowAck => 112

/-- The hooks of the server. -/
inductive Hook where
  | pingPong | flush | rangeRegister | rangeUnregister | objectCreate | objectRead | objectWrite
  | objectCow
  deriving DecidableEq, Repr

/-- The calls of `registerHook` in `Server::Server`. -/
def registeredHooks : List (LibfabricMessageType × Hook) :=
  [(.ping, .pingPong), (.objFlush, .flush), (.objRangeRegister, .rangeRegister),
    (.objRangeUnregister, .rangeUnregister), (.objCreate, .objectCreate),
    (.objRead, .objectRead), (.objWrite, .objectWrite), (.objCow, .objectCow)]

/-- `hooks.find(msgType)`. -/
def findHook (msgType : UInt64) : Option Hook :=
  (registeredHooks.find? fun entry => entry.1.code = msgType).map Prod.snd

-- ---------------------------------------------------------------------------
-- State
-- ---------------------------------------------------------------------------

/-- A libfabric endpoint: the address a handshake gave, and the TCP client id
of the header of that handshake. -/
structure Endpoint where
  addr        : Fin maxAddrLen → UInt8
  tcpClientId : UInt64
  deriving DecidableEq

/-- What is done when an RDMA operation of a request is over. -/
inductive TransferWork where
  /-- Check the data, answer and give the receive buffer back. -/
  | ping (msgBufferId rdmaSize : Nat)
  /-- The data of this write has arrived. -/
  | write (number : Nat)
  /-- The data of a read has been pushed. -/
  | read
  deriving DecidableEq, Repr

/-- The RDMA operations of one request. -/
structure Transfer where
  request : LibfabricMessageHeader
  work    : TransferWork
  deriving DecidableEq, Repr

/-- What goes to an endpoint. -/
inductive Content where
  | message (msgType : LibfabricMessageType) (body : MessageBody)
  | rdma (operations : Nat)
  deriving DecidableEq

/-- Something that was sent. `request` is the header of the accepted request it
is for; a handshake and a refusal have none. -/
structure Issued where
  request : Option LibfabricMessageHeader
  target  : Endpoint
  content : Content
  deriving DecidableEq

/-- Why the process stops. -/
inductive ConnectionFault where
  | serializer (f : SerializerFault)
  /-- "Client endpoint id not found : %1". -/
  | endpointNotFound (destinationEpId : Int)
  /-- "Invalid message type %1". -/
  | invalidMessageType (msgType : UInt64)
  /-- "Invalid authentification while exchanging with server, have ID = %1, KEY = %2 !". -/
  | invalidAuth
  /-- "Server has send error message !\n%s". -/
  | serverError (errorMessage : List UInt8)
  /-- "Invalid receive buffer ID: %1". -/
  | invalidReceiveBuffer (id : Nat)
  /-- `fi_av_insert` refuses the address. -/
  | addressRefused
  /-- The fault of a hook. -/
  | hook (f : Fault)
  /-- An `assert` of the source. -/
  | assertion
  /-- The event cannot happen in this state. -/
  | impossible

/-- The connection of the server (`LibfabricConnection`). -/
structure Connection (μ σ : Type) where
  server           : Server μ σ
  recvBuffersSize  : Nat
  recvBuffersCount : Nat
  recvBuffers      : Nat → ByteBuffer
  posted           : List Nat
  /-- Size of the buffers messages are sent from (`LibfabricDomain`). -/
  msgBufferSize    : Nat
  checkClientAuth  : Bool
  /-- A handler for refusals is set; the server sets none. -/
  hookOnBadAuth    : Bool
  /-- The addresses `fi_av_insert` accepts. -/
  fiAvInsert       : (Fin maxAddrLen → UInt8) → Bool
  /-- The keys of the registered clients (`ClientRegistry`). -/
  clients          : UInt64 → Option UInt64
  remoteLiAddr     : Int → Option Endpoint
  nextEndpointId   : UInt64
  transfers        : List Transfer
  issued           : List Issued

/-- A computation of the connection. -/
abbrev ConnectionM (μ σ : Type) := StateT (Connection μ σ) (Except ConnectionFault)

/-- What a hook reads that is in no message: the bytes behind the receive
buffer, the content of a new array, and the memory the client lets the server
fetch. -/
structure Outside where
  behind        : Bytes
  uninitialised : Nat → IoCatcher.LibfabricBuffer
  clientMemory  : Bytes

/-- `LibfabricClientRequest`. -/
structure LibfabricClientRequest where
  lfClientId   : UInt64
  msgBufferId  : Nat
  header       : LibfabricMessageHeader
  deserializer : SerializerBase

-- ---------------------------------------------------------------------------
-- Sending
-- ---------------------------------------------------------------------------

section

variable {μ σ : Type}

/-- A result of the serializer. -/
def liftSerializer {α : Type} (r : Except SerializerFault α) : ConnectionM μ σ α :=
  match r with
  | .ok a => pure a
  | .error f => throw (.serializer f)

/-- `assert`. -/
def assertThat (p : Prop) [Decidable p] : ConnectionM μ σ Unit :=
  if p then pure () else throw .assertion

/-- `remoteLiAddr.find(destinationEpId)`. -/
def findEndpoint (destinationEpId : Int) : ConnectionM μ σ Endpoint := do
  let c ← get
  match c.remoteLiAddr destinationEpId with
  | some endpoint => pure endpoint
  | none => throw (.endpointNotFound destinationEpId)

/-- Record what was sent. -/
def issue (request : Option LibfabricMessageHeader) (target : Endpoint) (content : Content) :
    ConnectionM μ σ Unit :=
  modify fun c => { c with issued := c.issued ++ [⟨request, target, content⟩] }

/-- `fillProtocolHeader` on the server, whose `clientId` is -1 and which has no
credentials of its own. -/
def fillProtocolHeader (msgType : LibfabricMessageType) : LibfabricMessageHeader :=
  ⟨msgType.code, UInt64.ofNat (2 ^ 64 - 1), 0, 0⟩

/-- `LibfabricConnection::sendMessage`: pack the message, then `sendRawMessage`. -/
def sendMessage (request : Option LibfabricMessageHeader) (msgType : LibfabricMessageType)
    (destinationEpId : Int) (body : MessageBody) : ConnectionM μ σ Unit := do
  let c ← get
  let packed ← liftSerializer
    (packMessage (fillProtocolHeader msgType) body (fun _ => 0) c.msgBufferSize)
  assertThat (packed.2.cursor ≤ c.recvBuffersSize)
  let target ← findEndpoint destinationEpId
  issue request target (.message msgType body)

/-- `LibfabricConnection::sendResponse` with a status. The id of the client is
converted to the `int` the endpoints are found by. -/
def sendResponse (request : Option LibfabricMessageHeader) (msgType : LibfabricMessageType)
    (lfClientId : UInt64) (status : Int32) : ConnectionM μ σ Unit :=
  sendMessage request msgType (SizeT.toInt32 lfClientId.toNat) (.response (.ofStatus status))

/-- `LibfabricConnection::sendResponse` with fragments; they follow each other
in the message, so they are one block here. -/
def sendFragments (request : Option LibfabricMessageHeader) (msgType : LibfabricMessageType)
    (lfClientId : UInt64) (status : Int32) (data : List UInt8) : ConnectionM μ σ Unit :=
  sendMessage request msgType (SizeT.toInt32 lfClientId.toNat)
    (.response (.ofFragments status [⟨.block data, UInt64.ofNat data.length⟩]))

/-- Post the RDMA operations of a request (`rdmaRead`, `rdmaReadv`,
`rdmaWritev`). -/
def rdmaPost (request : LibfabricClientRequest) (operations : Nat) (work : TransferWork) :
    ConnectionM μ σ Unit := do
  let target ← findEndpoint (SizeT.toInt32 request.lfClientId.toNat)
  issue (some request.header) target (.rdma operations)
  modify fun c => { c with transfers := c.transfers ++ [⟨request.header, work⟩] }

/-- `LibfabricConnection::repostReceive`. -/
def repostReceive (id : Nat) : ConnectionM μ σ Unit := do
  let c ← get
  if id < c.recvBuffersCount then
    modify fun c => { c with posted := c.posted ++ [id] }
  else throw (.invalidReceiveBuffer id)

/-- `LibfabricClientRequest::terminate`. -/
def LibfabricClientRequest.terminate (request : LibfabricClientRequest) : ConnectionM μ σ Unit :=
  repostReceive request.msgBufferId

-- ---------------------------------------------------------------------------
-- Receiving
-- ---------------------------------------------------------------------------

/-- `ClientRegistry::checkIdentification`. -/
def checkIdentification (clients : UInt64 → Option UInt64) (id key : UInt64) : Bool :=
  clients id = some key

/-- `LibfabricConnection::checkAuth`. A refused client is told so; its receive
buffer is not given back. -/
def checkAuth (header : LibfabricMessageHeader) (lfClientId : UInt64) : ConnectionM μ σ Bool := do
  let c ← get
  if c.checkClientAuth = false then pure true
  else if checkIdentification c.clients header.tcpClientId header.tcpClientKey then pure true
  else do
    sendResponse none .badAuth lfClientId (-1)
    pure false

/-- Decode the body of a request. -/
def LibfabricClientRequest.pop {α : Type} (request : LibfabricClientRequest) (m : SerializerM α) :
    ConnectionM μ σ α := do
  let r ← liftSerializer (m request.deserializer)
  pure r.1

/-- `LibfabricConnection::onConnInit`. -/
def onConnInit (request : LibfabricClientRequest) : ConnectionM μ σ Unit := do
  let first ← request.pop
    (LibfabricFirstClientMessage.applySerializerDef ⟨fun _ => 0⟩)
  let c ← get
  let epId := c.nextEndpointId
  let key := SizeT.toInt32 epId.toNat
  if c.fiAvInsert first.addr = false then throw .addressRefused
  modify fun c => { c with
    nextEndpointId := epId + 1
    remoteLiAddr := fun k =>
      if k = key then some ⟨first.addr, request.header.tcpClientId⟩ else c.remoteLiAddr k }
  sendMessage none .assignId key (.firstHandshake ⟨2, epId⟩)
  request.terminate

end

-- ---------------------------------------------------------------------------
-- Hooks
-- ---------------------------------------------------------------------------

section

variable {μ σ : Type} (B : Backends μ σ)

/-- The object a message names. -/
def objectOf (m : LibfabricObjectId) : ObjectId := ⟨m.high.toInt, m.low.toInt⟩

/-- The bytes a pointer into a received message designates. Behind the buffer
it is in, they are other memory. -/
def messageData (buffer : ByteBuffer) (size : Nat) (behind : Bytes) (index : Nat) : Bytes :=
  fun i => if index + i < size then buffer (index + i) else behind (index + i - size)

/-- One step of the server. -/
def execServer (e : Event) : ConnectionM μ σ Reply := do
  let c ← get
  match c.server.exec B e with
  | .ok (reply, server) =>
    modify fun c => { c with server := server }
    pure reply
  | .error f => throw (.hook f)

/-- Struct a read or write request is decoded into. -/
def blankReadWrite : LibfabricObjReadWriteInfos := ⟨⟨0, 0⟩, ⟨0, 0⟩, 0, 0, false, .null⟩

/-- The answer of a hook with a status, then the receive buffer is given back. -/
def answer (request : LibfabricClientRequest) (msgType : LibfabricMessageType) (status : Int) :
    ConnectionM μ σ Unit := do
  sendResponse (some request.header) msgType request.lfClientId (Int32.ofInt status)
  request.terminate

/-- Run a request that is answered with a status. -/
def execAndAnswer (request : LibfabricClientRequest) (msgType : LibfabricMessageType) (e : Event) :
    ConnectionM μ σ Unit := do
  let reply ← execServer B e
  match reply with
  | .ack status => answer request msgType status
  -- these requests have no other reply
  | _ => request.terminate

/-- `HookPingPong::onMessage`. The receive buffer of a ping with an RDMA part is
given back when that part is over. -/
def onPingPong (request : LibfabricClientRequest) (outside : Outside) : ConnectionM μ σ Unit := do
  let ping ← request.pop (LibfabricPing.applySerializerDef ⟨0, 0, ⟨0, 0⟩, .null⟩)
  let c ← get
  match ping.eagerData with
  | .message index =>
    let data := messageData (c.recvBuffers request.msgBufferId) c.recvBuffersSize outside.behind
      index
    assertThat (∀ i < ping.eagerSize.toNat, data i = 43)
  | _ => pure ()
  if 0 < ping.rdmaSize then
    rdmaPost request 1 (.ping request.msgBufferId ping.rdmaSize.toNat)
  else answer request .pong 0

/-- `HookFlush::onMessage`. -/
def onFlush (request : LibfabricClientRequest) : ConnectionM μ σ Unit := do
  let m ← request.pop (LibfabricObjFlushInfos.applySerializerDef ⟨⟨0, 0⟩, 0, 0⟩)
  execAndAnswer B request .objFlushAck (.flush (objectOf m.objectId) m.offset.toNat m.size.toNat)

/-- `HookObjectCreate::onMessage`. -/
def onObjectCreate (request : LibfabricClientRequest) : ConnectionM μ σ Unit := do
  let m ← request.pop (LibfabricObjCreateInfos.applySerializerDef ⟨⟨0, 0⟩⟩)
  execAndAnswer B request .objCreateAck (.create (objectOf m.objectId))

/-- `HookObjectCow::onMessage`. -/
def onObjectCow (request : LibfabricClientRequest) : ConnectionM μ σ Unit := do
  let m ← request.pop (LibfabricObjectCow.applySerializerDef ⟨⟨0, 0⟩, ⟨0, 0⟩, false, 0, 0⟩)
  execAndAnswer B request .objCowAck (.cow (objectOf m.sourceObjectId) (objectOf m.destObjectId)
    m.allowExist m.rangeOffset.toNat m.rangeSize.toNat)

/-- `HookRangeRegister::onMessage`. -/
def onRangeRegister (request : LibfabricClientRequest) : ConnectionM μ σ Unit := do
  let m ← request.pop (LibfabricRegisterRange.applySerializerDef ⟨⟨0, 0⟩, 0, 0, false⟩)
  execAndAnswer B request .objRangeRegisterAck (.rangeRegister request.header.tcpClientId.toNat
    (objectOf m.objectId) m.offset.toNat m.size.toNat m.write)

/-- `HookRangeUnregister::onMessage`. -/
def onRangeUnregister (request : LibfabricClientRequest) : ConnectionM μ σ Unit := do
  let m ← request.pop (LibfabricUnregisterRange.applySerializerDef ⟨⟨0, 0⟩, 0, 0, 0, false⟩)
  execAndAnswer B request .objRangeUnregisterAck
    (.rangeUnregister request.header.tcpClientId.toNat (objectOf m.objectId) m.id.toInt
      m.offset.toNat m.size.toNat m.write)

/-- `HookObjectRead::onMessage`. -/
def onObjectRead (request : LibfabricClientRequest) (outside : Outside) : ConnectionM μ σ Unit := do
  let m ← request.pop blankReadWrite.applySerializerDef
  let c ← get
  let id := objectOf m.objectId
  -- the segments the hook gets, to know how many operations it posts
  let segments := ((c.server.container.getObject id).getBuffers B id m.offset.toNat m.size.toNat
    .read true false).1.getD []
  let groups := rdmaGroups (buildIovec segments m.offset.toNat m.size.toNat)
  let reply ← execServer B (.read id m.offset.toNat m.size.toNat outside.uninitialised)
  match reply with
  | .eager response =>
    sendFragments (some request.header) .objReadWriteAck request.lfClientId 0 response.data
  | .rdma _ => if groups = [] then pure () else rdmaPost request groups.length .read
  | .ack status =>
    sendResponse (some request.header) .objReadWriteAck request.lfClientId (Int32.ofInt status)
  | .nothing => pure ()
  request.terminate

/-- `HookObjectWrite::onMessage`. The receive buffer is given back at once, also
when the data is still to be fetched. -/
def onObjectWrite (request : LibfabricClientRequest) (outside : Outside) :
    ConnectionM μ σ Unit := do
  let m ← request.pop blankReadWrite.applySerializerDef
  let c ← get
  let write (data : Bytes) : WriteRequest :=
    ⟨objectOf m.objectId, m.offset.toNat, m.size.toNat, data⟩
  match m.msgHasData, m.optionalData with
  | true, .message index =>
    let data := messageData (c.recvBuffers request.msgBufferId) c.recvBuffersSize outside.behind
      index
    execAndAnswer B request .objReadWriteAck (.eagerWrite (write data))
  | true, _ => throw .assertion
  | false, _ =>
    let number := c.server.started.length
    let reply ← execServer B (.rdmaWrite (write outside.clientMemory))
    let c ← get
    match reply with
    | .ack status =>
      sendResponse (some request.header) .objReadWriteAck request.lfClientId (Int32.ofInt status)
    | _ =>
      -- a request without segment posts nothing
      match c.server.findPending number with
      | some p => rdmaPost request p.groups.length (.write number)
      | none => pure ()
    request.terminate

/-- `it->second->onMessage(...)`. -/
def Hook.onMessage (hook : Hook) (request : LibfabricClientRequest) (outside : Outside) :
    ConnectionM μ σ Unit :=
  match hook with
  | .pingPong => onPingPong request outside
  | .flush => onFlush B request
  | .rangeRegister => onRangeRegister B request
  | .rangeUnregister => onRangeUnregister B request
  | .objectCreate => onObjectCreate B request
  | .objectRead => onObjectRead B request outside
  | .objectWrite => onObjectWrite B request outside
  | .objectCow => onObjectCow B request

/-- The dispatch of `LibfabricConnection::onRecv`, on a decoded header. -/
def dispatch (request : LibfabricClientRequest) (outside : Outside) : ConnectionM μ σ Unit := do
  if request.header.msgType = LibfabricMessageType.connectInit.code then onConnInit request
  else if request.header.msgType = LibfabricMessageType.badAuth.code then do
    let c ← get
    if c.hookOnBadAuth then request.terminate else throw .invalidAuth
  else if request.header.msgType = LibfabricMessageType.fatalError.code then do
    -- the server has no hook for this type
    let m ← request.pop (LibfabricErrorMessage.applySerializerDef ⟨[]⟩)
    throw (.serverError m.errorMessage)
  else do
    let ok ← checkAuth request.header request.header.lfClientId
    if ok = false then pure ()
    else
      match findHook request.header.msgType with
      | some hook => hook.onMessage B request outside
      | none => throw (.invalidMessageType request.header.msgType)

/-- `LibfabricConnection::onRecv`: the header is decoded from the whole receive
buffer, whatever the length of the message in it. -/
def onRecv (id : Nat) (outside : Outside) : ConnectionM μ σ Unit := do
  let c ← get
  assertThat (id < c.recvBuffersCount)
  let r ← liftSerializer (runSerializer (LibfabricMessageHeader.applySerializerDef ⟨0, 0, 0, 0⟩)
    (c.recvBuffers id) c.recvBuffersSize .unpack)
  dispatch B ⟨r.1.lfClientId, id, r.1, r.2⟩ outside

/-- The callback of the last RDMA operation of a request. -/
def onTransferDone (t : Transfer) (fetched : Bytes) : ConnectionM μ σ Unit :=
  match t.work with
  | .ping msgBufferId rdmaSize => do
    assertThat (∀ i < rdmaSize, fetched i = 42)
    sendResponse (some t.request) .pong t.request.lfClientId 0
    repostReceive msgBufferId
  | .write number => do
    let _ ← execServer B (.rdmaDone number)
    sendResponse (some t.request) .objReadWriteAck t.request.lfClientId 0
  | .read => sendResponse (some t.request) .objReadWriteAck t.request.lfClientId 0

-- ---------------------------------------------------------------------------
-- Steps
-- ---------------------------------------------------------------------------

/-- What happens to the connection in one step. -/
inductive NetEvent where
  /-- A message arrives in a posted receive buffer and is handled. -/
  | recv (id : Nat) (message : List UInt8) (outside : Outside)
  /-- The RDMA operations of the `n`th request in flight are over. -/
  | done (n : Nat) (fetched : Bytes)
  /-- `Server::onClientConnect`. -/
  | clientConnect (id key : UInt64)
  /-- `Server::onClientDisconnect`. -/
  | clientDisconnect (id : UInt64)

/-- libfabric puts a message in a receive buffer. -/
def Connection.deliver (c : Connection μ σ) (id : Nat) (message : List UInt8) : Connection μ σ :=
  { c with
    posted := c.posted.erase id
    recvBuffers := fun k => if k = id then (c.recvBuffers k).put 0 message else c.recvBuffers k }

/-- One step of the connection. -/
def Connection.exec (c : Connection μ σ) : NetEvent → Except ConnectionFault (Connection μ σ)
  | .recv id message outside =>
    if id ∈ c.posted ∧ message.length ≤ c.recvBuffersSize then
      (onRecv B id outside (c.deliver id message)).map Prod.snd
    else .error .impossible
  | .done n fetched =>
    match c.transfers[n]? with
    | some t =>
      (onTransferDone B t fetched { c with transfers := c.transfers.eraseIdx n }).map Prod.snd
    | none => .error .impossible
  | .clientConnect id key =>
    -- `ClientRegistry::registerClient` asserts that the id is new
    if c.clients id = none then
      .ok { c with clients := fun k => if k = id then some key else c.clients k }
    else .error .assertion
  | .clientDisconnect id =>
    if (c.clients id).isSome then
      .ok { c with
        clients := fun k => if k = id then none else c.clients k
        server := (c.server.clientDisconnect id.toNat).2 }
    else .error .assertion

/-- One step that returns. -/
def Connection.Step (c : Connection μ σ) (e : NetEvent) (c' : Connection μ σ) : Prop :=
  c.exec B e = .ok c'

/-- `LibfabricConnection::postReceives(size, count)` on a new connection. -/
def Connection.postReceives (server : Server μ σ) (size count msgBufferSize : Nat)
    (checkClientAuth : Bool) (recvBuffers : Nat → ByteBuffer)
    (fiAvInsert : (Fin maxAddrLen → UInt8) → Bool) : Connection μ σ where
  server := server
  recvBuffersSize := size
  recvBuffersCount := count
  recvBuffers := recvBuffers
  posted := List.range count
  msgBufferSize := msgBufferSize
  checkClientAuth := checkClientAuth
  hookOnBadAuth := false
  fiAvInsert := fiAvInsert
  clients := fun _ => none
  remoteLiAddr := fun _ => none
  nextEndpointId := 0
  transfers := []
  issued := []

end

end IoCatcher.Network
