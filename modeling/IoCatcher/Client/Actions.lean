import IoCatcher.Client.Regions
import IoCatcher.Network.Answering
import IoCatcher.Safety.Unauthenticated
import IoCatcher.Wire.Encoding

/-!
# IO Catcher — the calls of the client

`Actions.cpp`: a call packs one request, sends it to the server, polls for one message, checks
its type, decodes the response in it and returns its status. A read of at most
`IOC_EAGER_MAX_READ` bytes copies the data of the response to the buffer of the user, a write
of at most `IOC_EAGER_MAX_WRITE` bytes has its data in the request; larger ones register the
buffer, and the server moves the bytes.

What `registerSegment` returns is a parameter of the call, and the response struct has any
content before it is decoded into. The prints and `ping_pong`, which measures time, are left
out.

`Call.Asks` says what each call is for: the request it wants the server to make.
-/

namespace IoCatcher.Client

open Wire Network

-- ---------------------------------------------------------------------------
-- Requests
-- ---------------------------------------------------------------------------

/-- `IOC_POST_RECEIVE_WRITE`. -/
def postReceiveWrite : Nat := 32 + 64 + eagerMaxWrite

/-- A message to send, and the type of the one to poll for. -/
structure Request where
  msgType             : LibfabricMessageType
  expectedMessageType : LibfabricMessageType
  body                : MessageBody

/-- A field of a struct that no initialiser names. -/
def noIov : Iov := ⟨0, 0⟩

/-- `obj_read`. -/
def objRead (objectId : LibfabricObjectId) (size offset : UInt64) (iov : Iov) : Request :=
  ⟨.objRead, .objReadWriteAck, .readWrite ⟨objectId,
    if eagerMaxRead < size.toNat then iov else noIov, offset, size, false, .null⟩⟩

/-- `obj_write`. -/
def objWrite (objectId : LibfabricObjectId) (buffer : Bytes) (size offset : UInt64) (iov : Iov) :
    Request :=
  ⟨.objWrite, .objReadWriteAck, .readWrite ⟨objectId,
    if eagerMaxWrite < size.toNat then iov else noIov, offset, size,
    decide (size.toNat ≤ eagerMaxWrite),
    if size.toNat ≤ eagerMaxWrite then .block ((List.range size.toNat).map buffer) else .null⟩⟩

/-- `obj_flush`. -/
def objFlush (objectId : LibfabricObjectId) (offset size : UInt64) : Request :=
  ⟨.objFlush, .objFlushAck, .flush ⟨objectId, offset, size⟩⟩

/-- `obj_range_register`. -/
def objRangeRegister (objectId : LibfabricObjectId) (offset size : UInt64) (write : Bool) :
    Request :=
  ⟨.objRangeRegister, .objRangeRegisterAck, .registerRange ⟨objectId, offset, size, write⟩⟩

/-- `obj_range_unregister`. -/
def objRangeUnregister (id : Int32) (objectId : LibfabricObjectId) (offset size : UInt64)
    (write : Bool) : Request :=
  ⟨.objRangeUnregister, .objRangeUnregisterAck,
    .unregisterRange ⟨objectId, offset, size, id, write⟩⟩

/-- `obj_create`. -/
def objCreate (objectId : LibfabricObjectId) : Request :=
  ⟨.objCreate, .objCreateAck, .create ⟨objectId⟩⟩

/-- `obj_cow`. -/
def objCow (sourceObjectId destObjectId : LibfabricObjectId) (allowExist : Bool)
    (offset size : UInt64) : Request :=
  ⟨.objCow, .objCowAck, .cow ⟨sourceObjectId, destObjectId, allowExist, offset, size⟩⟩

/-- The calls on objects, with their arguments. -/
inductive Call where
  | objRead (objectId : LibfabricObjectId) (size offset : UInt64) (iov : Iov)
  | objWrite (objectId : LibfabricObjectId) (buffer : Bytes) (size offset : UInt64) (iov : Iov)
  | objFlush (objectId : LibfabricObjectId) (offset size : UInt64)
  | objRangeRegister (objectId : LibfabricObjectId) (offset size : UInt64) (write : Bool)
  | objRangeUnregister (id : Int32) (objectId : LibfabricObjectId) (offset size : UInt64)
      (write : Bool)
  | objCreate (objectId : LibfabricObjectId)
  | objCow (sourceObjectId destObjectId : LibfabricObjectId) (allowExist : Bool)
      (offset size : UInt64)

namespace Call

/-- The request a call sends. -/
def request : Call → Request
  | .objRead objectId size offset iov => Client.objRead objectId size offset iov
  | .objWrite objectId buffer size offset iov => Client.objWrite objectId buffer size offset iov
  | .objFlush objectId offset size => Client.objFlush objectId offset size
  | .objRangeRegister objectId offset size write =>
    Client.objRangeRegister objectId offset size write
  | .objRangeUnregister id objectId offset size write =>
    Client.objRangeUnregister id objectId offset size write
  | .objCreate objectId => Client.objCreate objectId
  | .objCow sourceObjectId destObjectId allowExist offset size =>
    Client.objCow sourceObjectId destObjectId allowExist offset size

end Call

-- ---------------------------------------------------------------------------
-- Responses
-- ---------------------------------------------------------------------------

/-- Why the process of a client stops. -/
inductive ClientFault where
  | serializer (f : SerializerFault)
  /-- "Invalid authentification while exchanging with server, have ID = %1, KEY = %2 !". -/
  | invalidAuth
  /-- "Server has send error message !\n%1". -/
  | serverError (errorMessage : List UInt8)
  /-- "Got an invalide message type (%1) where %2 is expected". -/
  | unexpectedType (msgType expected : UInt64)
  /-- "Invalid message size recieved, expect %1 got %2". -/
  | invalidSize (msgDataSize size : UInt64)
  /-- "Invalid rdma protocol version from server, expected %1, got %2". -/
  | invalidVersion (protocolVersion : Int32)
  /-- The message has no data where it should. -/
  | outOfBounds

/-- `LibfabricConnection::onRecvMessage` of a client: it has no hook for refusals, and does not
check credentials itself. -/
def onRecvMessage (buffer : ByteBuffer) (size : Nat) :
    Except ClientFault (LibfabricMessageHeader × SerializerBase) :=
  match runSerializer (LibfabricMessageHeader.applySerializerDef ⟨0, 0, 0, 0⟩) buffer size
    .unpack with
  | .error f => .error (.serializer f)
  | .ok (header, d) =>
    if header.msgType = LibfabricMessageType.badAuth.code then .error .invalidAuth
    else if header.msgType = LibfabricMessageType.fatalError.code then
      match LibfabricErrorMessage.applySerializerDef ⟨[]⟩ d with
      | .error f => .error (.serializer f)
      | .ok (m, _) => .error (.serverError m.errorMessage)
    else .ok (header, d)

/-- `LibfabricConnection::pollMessage`, when a message arrives. -/
def pollMessage (expectedMessageType : LibfabricMessageType) (buffer : ByteBuffer) (size : Nat) :
    Except ClientFault (LibfabricMessageHeader × SerializerBase) :=
  match onRecvMessage buffer size with
  | .error f => .error f
  | .ok (header, d) =>
    if header.msgType = expectedMessageType.code then .ok (header, d)
    else .error (.unexpectedType header.msgType expectedMessageType.code)

/-- What a call returns: the status, and the bytes it copied to the buffer of the user. -/
structure Result where
  status : Int32
  copied : Option (List UInt8)
  deriving DecidableEq

/-- What a call does with the decoded response; only a read looks at its data. -/
def Call.finish (k : Call) (response : LibfabricResponse) (buffer : ByteBuffer) :
    Except ClientFault Result :=
  match k with
  | .objRead _ size _ _ =>
    if response.msgHasData then
      if response.msgDataSize = size then
        match response.optionalData with
        | .message index => .ok ⟨response.status, some (buffer.slice index size.toNat)⟩
        | _ => .error .outOfBounds
      else .error (.invalidSize response.msgDataSize size)
    else .ok ⟨response.status, none⟩
  | _ => .ok ⟨response.status, none⟩

/-- A call from the message on. -/
def Call.onMessage (k : Call) (response : LibfabricResponse) (buffer : ByteBuffer) (size : Nat) :
    Except ClientFault Result :=
  match pollMessage k.request.expectedMessageType buffer size with
  | .error f => .error f
  | .ok (_, d) =>
    match response.applySerializerDef d with
    | .error f => .error (.serializer f)
    | .ok (response, _) => k.finish response buffer

-- ---------------------------------------------------------------------------
-- The connection of a client
-- ---------------------------------------------------------------------------

/-- What a connection of a client sends with every message. -/
structure Identity where
  clientId     : UInt64
  tcpClientId  : UInt64
  tcpClientKey : UInt64
  deriving DecidableEq

/-- `LibfabricConnection::fillProtocolHeader`. -/
def Identity.fillProtocolHeader (c : Identity) (msgType : LibfabricMessageType) :
    LibfabricMessageHeader :=
  ⟨msgType.code, c.clientId, c.tcpClientId, c.tcpClientKey⟩

/-- A connection that has not joined: its id is -1. -/
def Identity.new (tcpClientId tcpClientKey : UInt64) : Identity :=
  ⟨UInt64.ofNat (2 ^ 64 - 1), tcpClientId, tcpClientKey⟩

/-- The hook of `LibfabricConnection::joinServer`, when a message arrives: it returns the id the
server assigns. -/
def onAssignId (firstHandshake : LibfabricFirstHandshake) (buffer : ByteBuffer) (size : Nat) :
    Except ClientFault UInt64 :=
  match pollMessage .assignId buffer size with
  | .error f => .error f
  | .ok (_, d) =>
    match firstHandshake.applySerializerDef d with
    | .error f => .error (.serializer f)
    | .ok (m, _) =>
      if m.protocolVersion = 2 then .ok m.assignLfClientId
      else .error (.invalidVersion m.protocolVersion)

-- ---------------------------------------------------------------------------
-- What a call is for
-- ---------------------------------------------------------------------------

/-- The write has these arguments, and this data as far as it goes. -/
def IsWrite (w : WriteRequest) (objectId : LibfabricObjectId) (buffer : Bytes)
    (size offset : UInt64) : Prop :=
  w.object = objectOf objectId ∧ w.offset = offset.toNat ∧ w.size = size.toNat ∧
    ∀ i < size.toNat, w.data i = buffer i

/-- The request of the server that a call of this client asks for. -/
def Call.Asks (tcpClientId : UInt64) : Call → Event → Prop
  | .objRead objectId size offset _, e =>
    ∃ uninitialised, e = .read (objectOf objectId) offset.toNat size.toNat uninitialised
  | .objWrite objectId buffer size offset _, e =>
    ∃ w, IsWrite w objectId buffer size offset ∧
      e = if size.toNat ≤ eagerMaxWrite then .eagerWrite w else .rdmaWrite w
  | .objFlush objectId offset size, e => e = .flush (objectOf objectId) offset.toNat size.toNat
  | .objRangeRegister objectId offset size write, e =>
    e = .rangeRegister tcpClientId.toNat (objectOf objectId) offset.toNat size.toNat write
  | .objRangeUnregister id objectId offset size write, e =>
    e = .rangeUnregister tcpClientId.toNat (objectOf objectId) id.toInt offset.toNat size.toNat
      write
  | .objCreate objectId, e => e = .create (objectOf objectId)
  | .objCow sourceObjectId destObjectId allowExist offset size, e =>
    e = .cow (objectOf sourceObjectId) (objectOf destObjectId) allowExist offset.toNat size.toNat

/-- The size of a read. -/
def Call.readSize : Call → Nat
  | .objRead _ size _ _ => size.toNat
  | _ => 0

/-- What a call returns when the server replied this. -/
def Call.result (k : Call) : Reply → Result
  | .ack status => ⟨Int32.ofInt status, none⟩
  | .eager response => ⟨0, some (response.data.take k.readSize)⟩
  | .rdma _ | .nothing => ⟨0, none⟩

/-- The hook for the requests of a call. -/
def Call.hook : Call → Hook
  | .objRead .. => .objectRead
  | .objWrite .. => .objectWrite
  | .objFlush .. => .flush
  | .objRangeRegister .. => .rangeRegister
  | .objRangeUnregister .. => .rangeUnregister
  | .objCreate .. => .objectCreate
  | .objCow .. => .objectCow

/-- What the server fetches for a call is the buffer of the user. -/
def Call.Fetches : Call → Bytes → Prop
  | .objWrite _ buffer size _ _, memory => ∀ i < size.toNat, memory i = buffer i
  | _, _ => True

end IoCatcher.Client
