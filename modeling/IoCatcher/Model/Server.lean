import IoCatcher.Lib.Run
import IoCatcher.Model.Object

/-!
# IO Catcher — requests

The hooks that answer client requests, and the server as a machine that takes
one step per message, per RDMA completion and per disconnection.

A small read or write carries its bytes in the message (*eager*). A large one
is a scatter/gather RDMA operation: the hook posts it and returns, and the
bytes move later, when other requests may have run. The start of such a write
and its completion are two steps here, with the posted operation in
`Server.pending` in between.
-/

namespace IoCatcher

/-! ## Eager transfers -/

/-- `IOC_EAGER_MAX_READ`. -/
def eagerMaxRead : Nat := 32 * 1024

/-- `IOC_LF_MAX_RDMA_SEGS`. -/
def maxRdmaSegs : Nat := 4

/-- `LibfabricBuffer`: a fragment of a message. -/
structure LibfabricBuffer where
  buffer : Ptr
  size   : Nat
  deriving DecidableEq, Repr

/-- The part of a segment an eager transfer moves, as `(offset, copySize)`; the
read and the write hook compute it the same way, with the same assertions.
`cur` is the number of bytes moved so far. -/
def eagerSlice (baseOffset dataSize cur : Nat) (segment : ObjectSegmentDescr) :
    Except Fault (Nat × Nat) :=
  let offset := if segment.offset < baseOffset then baseOffset - segment.offset else 0
  let copySize := if segment.offset < baseOffset then SizeT.sub segment.size offset
    else segment.size
  if segment.size < copySize then .error .assertion
  else
    let copySize := if dataSize < SizeT.add cur copySize then SizeT.sub dataSize cur else copySize
    if offset < segment.size ∧ copySize ≤ segment.size ∧ copySize ≤ segment.size - offset then
      .ok (offset, copySize)
    else .error .assertion

/-- The copy loop of `HookObjectWrite::objEagerExtractFromMessage`. -/
def objEagerExtractFromMessage {μ : Type} (mb : MemoryBackend μ) (data : Bytes)
    (baseOffset dataSize : Nat) :
    List ObjectSegmentDescr → (cur : Nat) → Memory μ → Except Fault (Memory μ)
  | [], _, m => .ok m
  | segment :: rest, cur, m =>
    match eagerSlice baseOffset dataSize cur segment with
    | .error f => .error f
    | .ok (offset, copySize) =>
      objEagerExtractFromMessage mb data baseOffset dataSize rest (SizeT.add cur copySize)
        (m.write mb (segment.ptr.add offset) copySize fun i => data (cur + i))

/-- The loop of `HookObjectRead::objEagerPushToClient` that fills the fragment
array. The source declares the index `i` before the loop and never changes it. -/
def fillFragments (baseOffset dataSize i : Nat) :
    List ObjectSegmentDescr → (cur : Nat) → (Nat → LibfabricBuffer) →
      Except Fault (Nat → LibfabricBuffer)
  | [], _, buffers => .ok buffers
  | segment :: rest, cur, buffers =>
    match eagerSlice baseOffset dataSize cur segment with
    | .error f => .error f
    | .ok (offset, copySize) =>
      fillFragments baseOffset dataSize i rest (SizeT.add cur copySize) fun j =>
        if j = i then ⟨segment.ptr.add offset, copySize⟩ else buffers j

/-- The bytes of a list of fragments, one fragment after the other. -/
def fragmentBytes {μ : Type} (m : Memory μ) (fragments : List LibfabricBuffer) : List UInt8 :=
  fragments.flatMap fun f => (List.range f.size).map (m.read f.buffer)

/-- The message an eager read sends (`LibfabricConnection::sendResponse`). -/
structure EagerResponse where
  msgDataSize : Nat
  data        : List UInt8
  deriving DecidableEq, Repr

/-- `LibfabricConnection::sendResponse` with fragments. -/
def sendResponse {μ : Type} (m : Memory μ) (fragments : List LibfabricBuffer) : EagerResponse :=
  ⟨(fragments.map (·.size)).foldl SizeT.add 0, fragmentBytes m fragments⟩

/-- `HookObjectRead::objEagerPushToClient`. `uninitialised` is what the new
fragment array contains before it is filled. -/
def objEagerPushToClient {μ : Type} (m : Memory μ) (uninitialised : Nat → LibfabricBuffer)
    (offset size : Nat) (segments : List ObjectSegmentDescr) : Except Fault EagerResponse :=
  match fillFragments offset size 0 segments 0 uninitialised with
  | .error f => .error f
  | .ok buffers => .ok (sendResponse m ((List.range segments.length).map buffers))

/-! ## RDMA transfers -/

/-- `struct iovec`. -/
structure Iovec where
  iovBase : Ptr
  iovLen  : Nat
  deriving DecidableEq, Repr

/-- One iteration of the first loop of `Object::buildIovec`: cut a segment down
to the range. The differences go through an `int`. -/
def trimSegment (offset size : Nat) (it : ObjectSegmentDescr) : ObjectSegmentDescr :=
  let it : ObjectSegmentDescr :=
    if it.offset < offset then
      let delta := SizeT.toInt32 (offset - it.offset)
      ⟨it.ptr.add delta, SizeT.ofInt (it.offset + delta), SizeT.ofInt (it.size - delta)⟩
    else it
  if SizeT.add offset size < SizeT.add it.offset it.size then
    let delta := SizeT.toInt32 (SizeT.add it.offset it.size - SizeT.add offset size)
    { it with size := SizeT.ofInt (it.size - delta) }
  else it

/-- `Object::buildIovec`. -/
def buildIovec (segments : List ObjectSegmentDescr) (offset size : Nat) : List Iovec :=
  segments.map fun it => ⟨(trimSegment offset size it).ptr, (trimSegment offset size it).size⟩

/-- One posted scatter/gather operation: at most `maxRdmaSegs` vectors, and
where their bytes are in the client's buffer. -/
structure RdmaGroup where
  addr : Nat
  iov  : List Iovec
  deriving DecidableEq, Repr

/-- The groups `objRdmaFetchFromClient` and `objRdmaPushToClient` post. -/
def rdmaGroups (iov : List Iovec) : List RdmaGroup :=
  (List.range ((iov.length + (maxRdmaSegs - 1)) / maxRdmaSegs)).map fun n =>
    ⟨((iov.take (n * maxRdmaSegs)).map (·.iovLen)).foldl SizeT.add 0,
      (iov.drop (n * maxRdmaSegs)).take maxRdmaSegs⟩

/-- The bytes of a client buffer land in the vectors, from position `cur`. -/
def landIov {μ : Type} (mb : MemoryBackend μ) (data : Bytes) :
    List Iovec → (cur : Nat) → Memory μ → Memory μ
  | [], _, m => m
  | v :: rest, cur, m =>
    landIov mb data rest (cur + v.iovLen) (m.write mb v.iovBase v.iovLen fun i => data (cur + i))

/-- A list of groups lands. -/
def landGroups {μ : Type} (mb : MemoryBackend μ) (data : Bytes) (groups : List RdmaGroup)
    (m : Memory μ) : Memory μ :=
  groups.foldl (fun m g => landIov mb data g.iov g.addr m) m

/-- The bytes an RDMA read moves to the client, in the order of its buffer. -/
def rdmaPayload {μ : Type} (m : Memory μ) (iov : List Iovec) : List UInt8 :=
  iov.flatMap fun v => (List.range v.iovLen).map (m.read v.iovBase)

/-! ## The server -/

/-- A write request, as the client issued it. -/
structure WriteRequest where
  object : ObjectId
  offset : Nat
  size   : Nat
  data   : Bytes

/-- The request writes position `x` of object `id`. -/
def WriteRequest.Covers (w : WriteRequest) (id : ObjectId) (x : Nat) : Prop :=
  w.object = id ∧ w.offset ≤ x ∧ x < w.offset + w.size

/-- A posted RDMA write: its number, the request, and the operations in
flight. -/
structure PendingWrite where
  number : Nat
  write  : WriteRequest
  groups : List RdmaGroup

/-- The server: its container, the RDMA writes in flight, and the history of
write requests (in the order they were started, and the numbers of those that
were acknowledged). -/
structure Server (μ σ : Type) where
  container        : Container μ σ
  consistencyCheck : Bool
  pending          : List PendingWrite
  started          : List WriteRequest
  acked            : List Nat

/-- What happens to the server in one step. -/
inductive Event where
  /-- `HookObjectWrite`, with the data in the message. -/
  | eagerWrite (write : WriteRequest)
  /-- `HookObjectWrite`, with the data to be fetched. -/
  | rdmaWrite (write : WriteRequest)
  /-- The fetch of a posted write is over. -/
  | rdmaDone (number : Nat)
  /-- The fetch failed or the client died; some groups may have landed. -/
  | rdmaFail (number : Nat) (landed : RdmaGroup → Bool)
  /-- `HookObjectRead`. -/
  | read (id : ObjectId) (offset size : Nat) (uninitialised : Nat → LibfabricBuffer)
  /-- `HookFlush`. -/
  | flush (id : ObjectId) (offset size : Nat)
  /-- `HookObjectCreate`. -/
  | create (id : ObjectId)
  /-- `HookObjectCow`. -/
  | cow (sourceId destId : ObjectId) (allowExist : Bool) (rangeOffset rangeSize : Nat)
  /-- `HookRangeRegister`. -/
  | rangeRegister (tcpClientId : Nat) (id : ObjectId) (offset size : Nat) (write : Bool)
  /-- `HookRangeUnregister`. -/
  | rangeUnregister (tcpClientId : Nat) (id : ObjectId) (rangeId : Int) (offset size : Nat)
      (write : Bool)
  /-- `Server::onClientDisconnect`. -/
  | clientDisconnect (tcpClientId : Nat)

/-- What the server sends in answer. -/
inductive Reply where
  | nothing
  | ack (status : Int)
  | eager (response : EagerResponse)
  | rdma (payload : List UInt8)
  deriving DecidableEq

namespace Server

variable {μ σ : Type} (B : Backends μ σ)

/-- `HookObjectWrite::onMessage` for a message with data. -/
def eagerWrite (s : Server μ σ) (w : WriteRequest) : Except Fault (Reply × Server μ σ) :=
  match (s.container.getObject w.object).getBuffers B w.object w.offset w.size .write true true with
  | (none, c) =>
    .ok (.ack 0, { s with
      container := c.markDirty w.object w.offset w.size
      started := s.started ++ [w]
      acked := s.acked ++ [s.started.length] })
  | (some segments, c) =>
    match objEagerExtractFromMessage B.memoryBackend w.data w.offset w.size segments 0 c.memory with
    | .error f => .error f
    | .ok m =>
      .ok (.ack 0, { s with
        container := { c with memory := m }.markDirty w.object w.offset w.size
        started := s.started ++ [w]
        acked := s.acked ++ [s.started.length] })

/-- `HookObjectWrite::onMessage` for a message without data: post the fetch. A
request without segment posts nothing, and is never answered. -/
def rdmaWrite (s : Server μ σ) (w : WriteRequest) : Reply × Server μ σ :=
  match (s.container.getObject w.object).getBuffers B w.object w.offset w.size .write true true with
  | (none, c) =>
    (.ack 0, { s with
      container := c.markDirty w.object w.offset w.size
      started := s.started ++ [w]
      acked := s.acked ++ [s.started.length] })
  | (some segments, c) =>
    let groups := rdmaGroups (buildIovec segments w.offset w.size)
    (.nothing, { s with
      container := c.markDirty w.object w.offset w.size
      pending := if groups = [] then s.pending else s.pending ++ [⟨s.started.length, w, groups⟩]
      started := s.started ++ [w] })

/-- The posted write with this number. -/
def findPending (s : Server μ σ) (number : Nat) : Option PendingWrite :=
  s.pending.find? fun p => p.number = number

/-- The last callback of a posted write: its bytes are in the segments, and the
response is sent. -/
def rdmaDone (s : Server μ σ) (number : Nat) : Reply × Server μ σ :=
  match s.findPending number with
  | none => (.nothing, s)
  | some p =>
    (.ack 0, { s with
      container := { s.container with
        memory := landGroups B.memoryBackend p.write.data p.groups s.container.memory }
      pending := s.pending.filter fun q => q.number ≠ number
      acked := s.acked ++ [number] })

/-- A posted write that never completes. -/
def rdmaFail (s : Server μ σ) (number : Nat) (landed : RdmaGroup → Bool) : Reply × Server μ σ :=
  match s.findPending number with
  | none => (.nothing, s)
  | some p =>
    (.nothing, { s with
      container := { s.container with
        memory := landGroups B.memoryBackend p.write.data (p.groups.filter landed)
          s.container.memory }
      pending := s.pending.filter fun q => q.number ≠ number })

/-- `HookObjectRead::onMessage`. -/
def read (s : Server μ σ) (id : ObjectId) (offset size : Nat)
    (uninitialised : Nat → LibfabricBuffer) : Except Fault (Reply × Server μ σ) :=
  match (s.container.getObject id).getBuffers B id offset size .read true false with
  | (none, c) => .ok (.ack (-1), { s with container := c })
  | (some segments, c) =>
    if size ≤ eagerMaxRead then
      match objEagerPushToClient c.memory uninitialised offset size segments with
      | .error f => .error f
      | .ok r => .ok (.eager r, { s with container := c })
    else
      .ok (.rdma (rdmaPayload c.memory (buildIovec segments offset size)),
        { s with container := c })

/-- `HookFlush::onMessage`. -/
def flush (s : Server μ σ) (id : ObjectId) (offset size : Nat) : Reply × Server μ σ :=
  let r := (s.container.getObject id).flush B id offset size
  (.ack r.1, { s with container := r.2 })

/-- `HookObjectCreate::onMessage`. -/
def create (s : Server μ σ) (id : ObjectId) : Reply × Server μ σ :=
  let r := (s.container.getObject id).create B id
  (.ack r.1, { s with container := r.2 })

/-- `HookObjectCow::onMessage`: a range of size 0 asks for the whole object. -/
def cow (s : Server μ σ) (sourceId destId : ObjectId) (allowExist : Bool)
    (rangeOffset rangeSize : Nat) : Except Fault (Reply × Server μ σ) :=
  if rangeSize = 0 then
    match s.container.makeObjectFullCow B sourceId destId allowExist with
    | .error f => .error f
    | .ok (status, c) => .ok (.ack (if status then 0 else -1), { s with container := c })
  else
    let r := s.container.makeObjectRangeCow B sourceId destId allowExist rangeOffset rangeSize
    .ok (.ack (if r.1 then 0 else -1), { s with container := r.2 })

/-- The access mode a registration asks for. -/
def accessMode (write : Bool) : ConsistencyAccessMode := if write then .write else .read

/-- Replace the registrations of an object. -/
def setTracker (s : Server μ σ) (id : ObjectId) (t : ConsistencyTracker) : Server μ σ :=
  { s with
    container := s.container.setObject id
      { s.container.object id with consistencyTracker := t } }

/-- `HookRangeRegister::onMessage`. -/
def rangeRegister (s : Server μ σ) (tcpClientId : Nat) (id : ObjectId) (offset size : Nat)
    (write : Bool) : Reply × Server μ σ :=
  if s.consistencyCheck then
    let r := (s.container.object id).consistencyTracker.registerRange tcpClientId offset size
      (accessMode write)
    (.ack r.1, s.setTracker id r.2)
  else (.ack 0, { s with container := s.container.getObject id })

/-- `HookRangeUnregister::onMessage`. -/
def rangeUnregister (s : Server μ σ) (tcpClientId : Nat) (id : ObjectId) (rangeId : Int)
    (offset size : Nat) (write : Bool) : Reply × Server μ σ :=
  if s.consistencyCheck then
    let r := (s.container.object id).consistencyTracker.unregisterRange tcpClientId rangeId offset
      size (accessMode write)
    (.ack (if r.1 then 0 else -1), s.setTracker id r.2)
  else (.ack 0, { s with container := s.container.getObject id })

/-- `Server::onClientDisconnect`. -/
def clientDisconnect (s : Server μ σ) (tcpClientId : Nat) : Reply × Server μ σ :=
  (.nothing, { s with container := s.container.onClientDisconnect tcpClientId })

/-- One step of the server. -/
def exec (s : Server μ σ) : Event → Except Fault (Reply × Server μ σ)
  | .eagerWrite w => s.eagerWrite B w
  | .rdmaWrite w => .ok (s.rdmaWrite B w)
  | .rdmaDone number => .ok (s.rdmaDone B number)
  | .rdmaFail number landed => .ok (s.rdmaFail B number landed)
  | .read id offset size uninitialised => s.read B id offset size uninitialised
  | .flush id offset size => .ok (s.flush B id offset size)
  | .create id => .ok (s.create B id)
  | .cow sourceId destId allowExist rangeOffset rangeSize =>
    s.cow B sourceId destId allowExist rangeOffset rangeSize
  | .rangeRegister tcpClientId id offset size write =>
    .ok (s.rangeRegister tcpClientId id offset size write)
  | .rangeUnregister tcpClientId id rangeId offset size write =>
    .ok (s.rangeUnregister tcpClientId id rangeId offset size write)
  | .clientDisconnect tcpClientId => .ok (s.clientDisconnect tcpClientId)

/-- One step that returns, whatever it answers. -/
def Step (s : Server μ σ) (e : Event) (s' : Server μ σ) : Prop :=
  ∃ reply, s.exec B e = .ok (reply, s')

/-- The server after a step. -/
def next (s : Server μ σ) (e : Event) : Except Fault (Server μ σ) := (s.exec B e).map Prod.snd

variable {B} in
theorem step_of_next {s s' : Server μ σ} {e : Event} (h : s.next B e = .ok s') : s.Step B e s' := by
  unfold next at h
  unfold Step
  cases hx : s.exec B e with
  | error f =>
    rw [hx] at h
    cases h
  | ok r =>
    rw [hx] at h
    cases h
    exact ⟨r.1, rfl⟩

/-- An execution whose end passes a test shows that the server gets there. -/
theorem run_of_trace (guard : Server μ σ → Event → Prop) [∀ s e, Decidable (guard s e)]
    (es : List Event) (s₀ : Server μ σ) {p : Server μ σ → Prop} [DecidablePred p]
    (h : (Run.trace (Server.next B) guard es s₀).any (fun s => decide (p s)) = true) :
    ∃ s, Run (Step B) guard s₀ s ∧ p s := by
  obtain ⟨s, hrun, hp⟩ := Run.exists_of_trace h
  exact ⟨s, hrun.mono step_of_next fun h => h, hp⟩

/-- The server after a list of events; an event that faults is skipped. -/
def after (s : Server μ σ) : List Event → Server μ σ
  | [] => s
  | e :: rest =>
    match s.next B e with
    | .ok s' => after s' rest
    | .error _ => after s rest

variable {B} in
theorem run_after {s₀ s : Server μ σ} {es : List Event}
    (h : Run (Step B) (fun _ _ => True) s₀ s) :
    Run (Step B) (fun _ _ => True) s₀ (s.after B es) := by
  induction es generalizing s with
  | nil => exact h
  | cons e rest ih =>
    unfold after
    split
    · rename_i s' hs'
      exact ih (h.next trivial (step_of_next hs'))
    · exact ih h

/-- A server that has not answered any request. -/
def new (container : Container μ σ) (consistencyCheck : Bool) : Server μ σ :=
  ⟨container, consistencyCheck, [], [], []⟩

end Server

end IoCatcher
