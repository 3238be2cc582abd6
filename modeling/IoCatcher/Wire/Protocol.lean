import IoCatcher.Wire.Serializer
import Mathlib.Data.Fintype.Basic

/-!
# IO Catcher — the messages of the protocol

The structs of `Protocol.hpp` with their `applySerializerDef`, the three ways
`sendResponse` builds a response, and the two walks over a whole message:
`sendMessage` packs a header and a body, `onRecv` and the hooks unpack them.
-/

namespace IoCatcher.Wire

/-! ## Structs -/

/-- `Iov`: a memory region of the client. -/
structure Iov where
  addr : UInt64
  key  : UInt64
  deriving DecidableEq, Repr

/-- `LibfabricObjectId`. -/
structure LibfabricObjectId where
  low  : Int64
  high : Int64
  deriving DecidableEq

/-- `LibfabricMessageHeader`, in front of every message. -/
structure LibfabricMessageHeader where
  msgType      : UInt64
  lfClientId   : UInt64
  tcpClientId  : UInt64
  tcpClientKey : UInt64
  deriving DecidableEq, Repr

/-- `LibfabricPing`. -/
structure LibfabricPing where
  rdmaSize  : UInt64
  eagerSize : UInt64
  rdmaIov   : Iov
  eagerData : Pointer
  deriving DecidableEq, Repr

/-- `LibfabricObjReadWriteInfos`. -/
structure LibfabricObjReadWriteInfos where
  objectId     : LibfabricObjectId
  iov          : Iov
  offset       : UInt64
  size         : UInt64
  msgHasData   : Bool
  optionalData : Pointer
  deriving DecidableEq

/-- `LibfabricObjFlushInfos`. -/
structure LibfabricObjFlushInfos where
  objectId : LibfabricObjectId
  offset   : UInt64
  size     : UInt64
  deriving DecidableEq

/-- `LibfabricObjCreateInfos`. -/
structure LibfabricObjCreateInfos where
  objectId : LibfabricObjectId
  deriving DecidableEq

/-- `LibfabricRegisterRange`. -/
structure LibfabricRegisterRange where
  objectId : LibfabricObjectId
  offset   : UInt64
  size     : UInt64
  write    : Bool
  deriving DecidableEq

/-- `LibfabricUnregisterRange`. -/
structure LibfabricUnregisterRange where
  objectId : LibfabricObjectId
  offset   : UInt64
  size     : UInt64
  id       : Int32
  write    : Bool
  deriving DecidableEq

/-- `LibfabricObjectCow`. -/
structure LibfabricObjectCow where
  sourceObjectId : LibfabricObjectId
  destObjectId   : LibfabricObjectId
  allowExist     : Bool
  rangeOffset    : UInt64
  rangeSize      : UInt64
  deriving DecidableEq

/-- `LibfabricBuffer`: a fragment of the data of a response. -/
structure LibfabricBuffer where
  buffer : Pointer
  size   : UInt64
  deriving DecidableEq, Repr

/-- `LibfabricResponse`. `optionalDataFragments` is none for `NULL`, and else
the array with its `optionalDataFragmentCount` elements. -/
structure LibfabricResponse where
  msgDataSize           : UInt64
  status                : Int32
  msgHasData            : Bool
  optionalData          : Pointer
  optionalDataFragments : Option (List LibfabricBuffer)
  deriving DecidableEq

/-- `LibfabricFirstHandshake`. -/
structure LibfabricFirstHandshake where
  protocolVersion  : Int32
  assignLfClientId : UInt64
  deriving DecidableEq

/-- `IOC_LF_MAX_ADDR_LEN`. -/
def maxAddrLen : Nat := 32

/-- `LibfabricFirstClientMessage`. -/
structure LibfabricFirstClientMessage where
  addr : Fin maxAddrLen → UInt8
  deriving DecidableEq

/-- `LibfabricErrorMessage`. -/
structure LibfabricErrorMessage where
  errorMessage : List UInt8
  deriving DecidableEq, Repr

/-! ## Their fields on the wire -/

/-- `Iov::applySerializerDef`. -/
def Iov.applySerializerDef (m : Iov) : SerializerM Iov := do
  let addr ← applyUInt64 "addr" m.addr
  let key ← applyUInt64 "key" m.key
  pure ⟨addr, key⟩

/-- `LibfabricPing::applySerializerDef`. -/
def LibfabricPing.applySerializerDef (m : LibfabricPing) : SerializerM LibfabricPing := do
  let rdmaSize ← applyUInt64 "rdmaSize" m.rdmaSize
  let eagerSize ← applyUInt64 "eagerSize" m.eagerSize
  let rdmaIov ← m.rdmaIov.applySerializerDef
  let eagerData ← (if 0 < eagerSize then
      serializeOrPoint "eagerData" m.eagerData eagerSize.toNat
    else pure m.eagerData)
  pure ⟨rdmaSize, eagerSize, rdmaIov, eagerData⟩

/-- `LibfabricObjectId::applySerializerDef`. -/
def LibfabricObjectId.applySerializerDef (m : LibfabricObjectId) :
    SerializerM LibfabricObjectId := do
  let low ← applyInt64 "low" m.low
  let high ← applyInt64 "high" m.high
  pure ⟨low, high⟩

/-- `LibfabricMessageHeader::applySerializerDef`. -/
def LibfabricMessageHeader.applySerializerDef (m : LibfabricMessageHeader) :
    SerializerM LibfabricMessageHeader := do
  let msgType ← applyUInt64 "msgType" m.msgType
  let lfClientId ← applyUInt64 "lfClientId" m.lfClientId
  let tcpClientId ← applyUInt64 "tcpClientId" m.tcpClientId
  let tcpClientKey ← applyUInt64 "tcpClientKey" m.tcpClientKey
  pure ⟨msgType, lfClientId, tcpClientId, tcpClientKey⟩

/-- `LibfabricObjReadWriteInfos::applySerializerDef`. -/
def LibfabricObjReadWriteInfos.applySerializerDef (m : LibfabricObjReadWriteInfos) :
    SerializerM LibfabricObjReadWriteInfos := do
  let objectId ← m.objectId.applySerializerDef
  let iov ← m.iov.applySerializerDef
  let offset ← applyUInt64 "offset" m.offset
  let size ← applyUInt64 "size" m.size
  let msgHasData ← applyBool "msgHasData" m.msgHasData
  let optionalData ← (if msgHasData then
      serializeOrPoint "optionalData" m.optionalData size.toNat
    else pure m.optionalData)
  pure ⟨objectId, iov, offset, size, msgHasData, optionalData⟩

/-- `LibfabricObjFlushInfos::applySerializerDef`. -/
def LibfabricObjFlushInfos.applySerializerDef (m : LibfabricObjFlushInfos) :
    SerializerM LibfabricObjFlushInfos := do
  let objectId ← m.objectId.applySerializerDef
  let offset ← applyUInt64 "objectoffsetId" m.offset
  let size ← applyUInt64 "size" m.size
  pure ⟨objectId, offset, size⟩

/-- `LibfabricObjCreateInfos::applySerializerDef`. -/
def LibfabricObjCreateInfos.applySerializerDef (m : LibfabricObjCreateInfos) :
    SerializerM LibfabricObjCreateInfos := do
  let objectId ← m.objectId.applySerializerDef
  pure ⟨objectId⟩

/-- `LibfabricRegisterRange::applySerializerDef`. -/
def LibfabricRegisterRange.applySerializerDef (m : LibfabricRegisterRange) :
    SerializerM LibfabricRegisterRange := do
  let objectId ← m.objectId.applySerializerDef
  let offset ← applyUInt64 "offset" m.offset
  let size ← applyUInt64 "size" m.size
  let write ← applyBool "write" m.write
  pure ⟨objectId, offset, size, write⟩

/-- `LibfabricUnregisterRange::applySerializerDef`. -/
def LibfabricUnregisterRange.applySerializerDef (m : LibfabricUnregisterRange) :
    SerializerM LibfabricUnregisterRange := do
  let objectId ← m.objectId.applySerializerDef
  let offset ← applyUInt64 "offset" m.offset
  let size ← applyUInt64 "size" m.size
  let id ← applyInt32 "id" m.id
  let write ← applyBool "write" m.write
  pure ⟨objectId, offset, size, id, write⟩

/-- `LibfabricObjectCow::applySerializerDef`. -/
def LibfabricObjectCow.applySerializerDef (m : LibfabricObjectCow) :
    SerializerM LibfabricObjectCow := do
  let sourceObjectId ← m.sourceObjectId.applySerializerDef
  let destObjectId ← m.destObjectId.applySerializerDef
  let allowExist ← applyBool "allowExist" m.allowExist
  let rangeOffset ← applyUInt64 "rangeOffset" m.rangeOffset
  let rangeSize ← applyUInt64 "rangeSize" m.rangeSize
  pure ⟨sourceObjectId, destObjectId, allowExist, rangeOffset, rangeSize⟩

/-- The loop over the fragments of a response. -/
def applyFragments : List LibfabricBuffer → SerializerM Unit
  | [] => pure ()
  | fragment :: rest => do
    let _ ← applyRaw "optionalDataFragment" fragment.buffer fragment.size.toNat
    applyFragments rest

/-- The data of a response: the fragments one after the other when there are
any to write, else one block. -/
def LibfabricResponse.applyData (m : LibfabricResponse) (msgDataSize : UInt64) :
    SerializerM Pointer := do
  let s ← get
  match s.action, m.optionalDataFragments with
  | .pack, some fragments | .size, some fragments => do
    if m.optionalData ≠ .null then throw .assertion
    applyFragments fragments
    pure m.optionalData
  | _, _ => serializeOrPoint "optionalData" m.optionalData msgDataSize.toNat

/-- `LibfabricResponse::applySerializerDef`. -/
def LibfabricResponse.applySerializerDef (m : LibfabricResponse) :
    SerializerM LibfabricResponse := do
  let msgDataSize ← applyUInt64 "msgDataSize" m.msgDataSize
  let status ← applyInt32 "status" m.status
  let msgHasData ← applyBool "msgHasData" m.msgHasData
  let optionalData ← (if msgHasData then m.applyData msgDataSize else pure m.optionalData)
  pure ⟨msgDataSize, status, msgHasData, optionalData, m.optionalDataFragments⟩

/-- `LibfabricFirstHandshake::applySerializerDef`. -/
def LibfabricFirstHandshake.applySerializerDef (m : LibfabricFirstHandshake) :
    SerializerM LibfabricFirstHandshake := do
  let protocolVersion ← applyInt32 "protocolVersion" m.protocolVersion
  let assignLfClientId ← applyUInt64 "assignLfClientId" m.assignLfClientId
  pure ⟨protocolVersion, assignLfClientId⟩

/-- The bytes of an address field after the walk over its block. -/
def addrOfBlock : Pointer → Fin maxAddrLen → UInt8
  | .block bytes, i => bytes.getD i 0
  | _, _ => 0

/-- `LibfabricFirstClientMessage::applySerializerDef`. -/
def LibfabricFirstClientMessage.applySerializerDef (m : LibfabricFirstClientMessage) :
    SerializerM LibfabricFirstClientMessage := do
  let addr ← applyRaw "addr" (.block (List.ofFn m.addr)) maxAddrLen
  pure ⟨addrOfBlock addr⟩

/-- `LibfabricErrorMessage::applySerializerDef`. -/
def LibfabricErrorMessage.applySerializerDef (m : LibfabricErrorMessage) :
    SerializerM LibfabricErrorMessage := do
  let errorMessage ← applyString "errorMessage" m.errorMessage
  pure ⟨errorMessage⟩

/-! ## The responses the server builds -/

namespace LibfabricResponse

/-- The response of `sendResponse` with a status only. -/
def ofStatus (status : Int32) : LibfabricResponse := ⟨0, status, false, .null, none⟩

/-- The response of `sendResponse` with one block of data. -/
def ofData (status : Int32) (data : Pointer) (size : UInt64) : LibfabricResponse :=
  ⟨size, status, true, data, none⟩

/-- The response of `sendResponse` with fragments. -/
def ofFragments (status : Int32) (fragments : List LibfabricBuffer) : LibfabricResponse :=
  ⟨(fragments.map (·.size)).foldl (· + ·) 0, status, true, .null, some fragments⟩

/-- A response as one of the `sendResponse` builds it. The last one asserts that
there are fewer than `UINT32_MAX` fragments. -/
inductive Built : LibfabricResponse → Prop where
  | status (status : Int32) : Built (ofStatus status)
  | data (status : Int32) (data : Pointer) (size : UInt64) : Built (ofData status data size)
  | fragments (status : Int32) (fragments : List LibfabricBuffer)
      (hcount : fragments.length < 2 ^ 32 - 1) : Built (ofFragments status fragments)

end LibfabricResponse

/-! ## Whole messages -/

/-- The body of a message. -/
inductive MessageBody where
  | ping (m : LibfabricPing)
  | objectId (m : LibfabricObjectId)
  | readWrite (m : LibfabricObjReadWriteInfos)
  | flush (m : LibfabricObjFlushInfos)
  | create (m : LibfabricObjCreateInfos)
  | registerRange (m : LibfabricRegisterRange)
  | unregisterRange (m : LibfabricUnregisterRange)
  | cow (m : LibfabricObjectCow)
  | response (m : LibfabricResponse)
  | firstHandshake (m : LibfabricFirstHandshake)
  | firstClientMessage (m : LibfabricFirstClientMessage)
  | empty
  | error (m : LibfabricErrorMessage)
  deriving DecidableEq

/-- The struct a body is. -/
inductive BodyKind where
  | ping | objectId | readWrite | flush | create | registerRange | unregisterRange | cow
  | response | firstHandshake | firstClientMessage | empty | error
  deriving DecidableEq, Repr

namespace MessageBody

/-- The struct of a body. -/
def kind : MessageBody → BodyKind
  | .ping _ => .ping
  | .objectId _ => .objectId
  | .readWrite _ => .readWrite
  | .flush _ => .flush
  | .create _ => .create
  | .registerRange _ => .registerRange
  | .unregisterRange _ => .unregisterRange
  | .cow _ => .cow
  | .response _ => .response
  | .firstHandshake _ => .firstHandshake
  | .firstClientMessage _ => .firstClientMessage
  | .empty => .empty
  | .error _ => .error

/-- `applySerializerDef` of the struct the body is. -/
def applySerializerDef : MessageBody → SerializerM MessageBody
  | .ping m => do pure (.ping (← m.applySerializerDef))
  | .objectId m => do pure (.objectId (← m.applySerializerDef))
  | .readWrite m => do pure (.readWrite (← m.applySerializerDef))
  | .flush m => do pure (.flush (← m.applySerializerDef))
  | .create m => do pure (.create (← m.applySerializerDef))
  | .registerRange m => do pure (.registerRange (← m.applySerializerDef))
  | .unregisterRange m => do pure (.unregisterRange (← m.applySerializerDef))
  | .cow m => do pure (.cow (← m.applySerializerDef))
  | .response m => do pure (.response (← m.applySerializerDef))
  | .firstHandshake m => do pure (.firstHandshake (← m.applySerializerDef))
  | .firstClientMessage m => do pure (.firstClientMessage (← m.applySerializerDef))
  -- `LibfabricEmpty::applySerializerDef` does nothing
  | .empty => pure .empty
  | .error m => do pure (.error (← m.applySerializerDef))

end MessageBody

/-- The walk over a message: its header, then its body. -/
def applyMessage (header : LibfabricMessageHeader) (body : MessageBody) :
    SerializerM (LibfabricMessageHeader × MessageBody) := do
  let header ← header.applySerializerDef
  let body ← body.applySerializerDef
  pure (header, body)

/-- A walk from the start of a buffer. The constructor asserts that there is
one. -/
def runSerializer {α : Type} (m : SerializerM α) (buffer : ByteBuffer) (size : Nat)
    (action : SerializerAction) : Except SerializerFault (α × SerializerBase) :=
  if size = 0 ∧ action ≠ .size then .error .assertion
  else m (SerializerBase.new buffer size action)

/-- What `sendMessage` does to its buffer. -/
def packMessage (header : LibfabricMessageHeader) (body : MessageBody) (buffer : ByteBuffer)
    (size : Nat) :
    Except SerializerFault ((LibfabricMessageHeader × MessageBody) × SerializerBase) :=
  runSerializer (applyMessage header body) buffer size .pack

/-- What the receiver does: the structs it decodes into have any content. -/
def unpackMessage (header : LibfabricMessageHeader) (body : MessageBody) (buffer : ByteBuffer)
    (size : Nat) :
    Except SerializerFault ((LibfabricMessageHeader × MessageBody) × SerializerBase) :=
  runSerializer (applyMessage header body) buffer size .unpack

end IoCatcher.Wire
