import IoCatcher.Model.Backends

/-!
# IO Catcher — objects and their segments

The state of a container and the operations of `ObjectSegment`, `Object` and
`ConsistencyTracker`, in the order and under the names of the source.

An object caches its content in *segments*: a byte range of the object and
a buffer that holds it. Segments live in a map keyed by their **last** byte, so
that `lower_bound(x)` finds the first segment that may contain `x`. A buffer
may be shared by segments of several objects (copy-on-write); the source counts
the owners with a `shared_ptr`, here the count is read off the container
(`useCount`), since only segments own buffers.

A method of the source that acts on one object is a function of the whole
container and the object's id: whether a segment is shared depends on all
objects, and its bytes live in the shared memory.
-/

namespace IoCatcher

/-! ## Segments -/

/-- `ObjectSegmentMemory`: a buffer and its size. -/
structure ObjectSegmentMemory where
  buffer : Addr
  size   : Nat
  deriving DecidableEq, Repr

/-- `ObjectSegment`: a cached range of an object. -/
structure ObjectSegment where
  memory : ObjectSegmentMemory
  offset : Nat
  dirty  : Bool
  deriving DecidableEq, Repr

/-- `ObjectSegmentDescr`: a segment as handed out by `getBuffers`. -/
structure ObjectSegmentDescr where
  ptr    : Ptr
  offset : Nat
  size   : Nat
  deriving DecidableEq, Repr

namespace ObjectSegment

/-- `ObjectSegment::getSize`. -/
def getSize (s : ObjectSegment) : Nat := s.memory.size

/-- `ObjectSegment::overlap`. -/
def overlap (s : ObjectSegment) (segBase segSize : Nat) : Bool :=
  decide (s.offset < SizeT.add segBase segSize) && decide (segBase < SizeT.add s.offset s.getSize)

/-- `ObjectSegment::getSegmentDescr`. -/
def getSegmentDescr (s : ObjectSegment) : ObjectSegmentDescr :=
  ⟨⟨s.memory.buffer, 0⟩, s.offset, s.getSize⟩

@[simp] theorem offset_getSegmentDescr (s : ObjectSegment) :
    s.getSegmentDescr.offset = s.offset := rfl

@[simp] theorem size_getSegmentDescr (s : ObjectSegment) :
    s.getSegmentDescr.size = s.getSize := rfl

@[simp] theorem ptr_getSegmentDescr (s : ObjectSegment) :
    s.getSegmentDescr.ptr = ⟨s.memory.buffer, 0⟩ := rfl

end ObjectSegment

/-- `ObjectSegmentMap`. -/
abbrev ObjectSegmentMap := OrderedMap Nat ObjectSegment

/-- `ObjectAccessMode`. -/
inductive ObjectAccessMode where
  | read
  | write
  deriving DecidableEq, Repr

/-! ## Range registrations -/

/-- `ConsistencyAccessMode`. -/
inductive ConsistencyAccessMode where
  | read
  | write
  deriving DecidableEq, Repr

/-- `ConsistencyRange`. -/
structure ConsistencyRange where
  tcpClientId : Nat
  id          : Int
  offset      : Nat
  size        : Nat
  accessMode  : ConsistencyAccessMode
  deriving DecidableEq, Repr

/-- `ConsistencyTracker`: the ranges clients have registered on an object. -/
structure ConsistencyTracker where
  ranges : List ConsistencyRange
  nextId : Int
  deriving DecidableEq, Repr

namespace ConsistencyTracker

/-- `ConsistencyTracker::ConsistencyTracker`. -/
def new : ConsistencyTracker := ⟨[], 1⟩

/-- `ConsistencyTracker::overlap`. -/
def overlap (offset1 size1 offset2 size2 : Nat) : Bool :=
  (decide (offset2 ≤ offset1) && decide (offset1 < SizeT.add offset2 size2)) ||
    (decide (offset1 ≤ offset2) && decide (offset2 < SizeT.add offset1 size1))

/-- `ConsistencyTracker::hasCollision`. -/
def hasCollision (t : ConsistencyTracker) (offset size : Nat)
    (accessMode : ConsistencyAccessMode) : Bool :=
  t.ranges.any fun it => overlap offset size it.offset it.size &&
    (decide (accessMode ≠ it.accessMode) || decide (it.accessMode = .write))

/-- The `int32_t` value of `nextId + 1`. -/
def succId (id : Int) : Int := (id + 1 + 2 ^ 31) % 2 ^ 32 - 2 ^ 31

/-- `ConsistencyTracker::registerRange`. -/
def registerRange (t : ConsistencyTracker) (tcpClientId offset size : Nat)
    (accessMode : ConsistencyAccessMode) : Int × ConsistencyTracker :=
  if t.hasCollision offset size accessMode then (-1, t)
  else
    (t.nextId,
      { ranges := t.ranges ++ [⟨tcpClientId, t.nextId, offset, size, accessMode⟩]
        nextId := succId t.nextId })

/-- `ConsistencyTracker::unregisterRange`: drop the first matching range. -/
def unregisterRange (t : ConsistencyTracker) (tcpClientId : Nat) (id : Int) (offset size : Nat)
    (accessMode : ConsistencyAccessMode) : Bool × ConsistencyTracker :=
  let it : ConsistencyRange := ⟨tcpClientId, id, offset, size, accessMode⟩
  (t.ranges.contains it, { t with ranges := t.ranges.erase it })

/-- `ConsistencyTracker::clientDisconnect`. -/
def clientDisconnect (t : ConsistencyTracker) (tcpClientId : Nat) : ConsistencyTracker :=
  { t with ranges := t.ranges.filter fun it => it.tcpClientId ≠ tcpClientId }

end ConsistencyTracker

/-! ## Objects and the container -/

/-- `Object`. Its id is the key it is registered under, its two backends are
those of the container. -/
structure Object where
  segmentMap         : ObjectSegmentMap
  alignement         : Nat
  consistencyTracker : ConsistencyTracker

/-- `Object::Object`. -/
def Object.new (alignement : Nat) : Object := ⟨OrderedMap.empty, alignement, .new⟩

/-- `Container`, with the state of the process memory and of the storage its
backends act on. -/
structure Container (μ σ : Type) where
  objects                  : OrderedMap ObjectId Object
  objectSegmentsAlignement : Nat
  memory                   : Memory μ
  storage                  : σ

/-- Why the process stops inside a request. -/
inductive Fault where
  /-- An `assert` does not hold. -/
  | assertion
  /-- An `assume` does not hold: the message is printed and the server aborts. -/
  | assume (message : String)
  /-- A method is called through the NULL storage backend. -/
  | nullStorage
  /-- A method is called through a NULL object pointer. -/
  | nullObject
  deriving DecidableEq, Repr

namespace Container

variable {μ σ : Type} (B : Backends μ σ)

/-- `Container::Container`, on a given memory and storage. -/
def new (objectSegmentsAlignement : Nat) (memory : Memory μ) (storage : σ) : Container μ σ :=
  ⟨OrderedMap.empty, objectSegmentsAlignement, memory, storage⟩

/-- The object registered under `id`; a new one where there is none. -/
def object (c : Container μ σ) (id : ObjectId) : Object :=
  (c.objects.find? id).getD (Object.new c.objectSegmentsAlignement)

/-- The segments of an object. -/
def segments (c : Container μ σ) (id : ObjectId) : ObjectSegmentMap := (c.object id).segmentMap

/-- `Container::hasObject`. -/
def hasObject (c : Container μ σ) (id : ObjectId) : Bool := (c.objects.find? id).isSome

/-- Register `o` under `id`. -/
def setObject (c : Container μ σ) (id : ObjectId) (o : Object) : Container μ σ :=
  { c with objects := c.objects.insert id o }

/-- `Container::getObject`: the object is created when it is not there. -/
def getObject (c : Container μ σ) (id : ObjectId) : Container μ σ :=
  c.setObject id (c.object id)

/-- Replace the segment map of an object. -/
def setSegments (c : Container μ σ) (id : ObjectId) (m : ObjectSegmentMap) : Container μ σ :=
  c.setObject id { c.object id with segmentMap := m }

/-! ### Buffer ownership -/

/-- The segments, by object and key, that own the buffer `a`. -/
def owners (c : Container μ σ) (a : Addr) : List (ObjectId × Nat) :=
  c.objects.entries.flatMap fun o =>
    (o.2.segmentMap.entries.filter fun e => e.2.memory.buffer = a).map fun e => (o.1, e.1)

/-- `memory.use_count()`. -/
def useCount (c : Container μ σ) (a : Addr) : Nat := (c.owners a).length

/-- `ObjectSegment::isCow`. -/
def isCow (c : Container μ σ) (s : ObjectSegment) : Bool := c.useCount s.memory.buffer ≠ 1

/-- What `~shared_ptr` does with a buffer that lost an owner: the last owner
gives it back (`ObjectSegmentMemory::~ObjectSegmentMemory`). -/
def release (c : Container μ σ) (m : ObjectSegmentMemory) : Container μ σ :=
  if c.useCount m.buffer = 0 then
    { c with memory := c.memory.deallocate B.memoryBackend m.buffer m.size }
  else c

/-- Assign a segment to `segmentMap[key]`; the buffer of the segment it
replaces loses an owner. -/
def storeSegment (c : Container μ σ) (id : ObjectId) (key : Nat) (s : ObjectSegment) :
    Container μ σ :=
  let c' := c.setSegments id ((c.segments id).insert key s)
  match (c.segments id).find? key with
  | some old => c'.release B old.memory
  | none => c'

/-- `ObjectSegment::makeCowOf` on `segmentMap[key]`: share the buffer of
`orig`, with its dirty flag and its offset. -/
def makeCowOf (c : Container μ σ) (id : ObjectId) (key : Nat) (orig : ObjectSegment) :
    Container μ σ :=
  c.storeSegment B id key ⟨orig.memory, orig.offset, orig.dirty⟩

/-- `ObjectSegment::applyCow`: move the segment to a buffer of its own. -/
def applyCow (c : Container μ σ) (id : ObjectId) (key : Nat) (s : ObjectSegment) :
    ObjectSegment × Container μ σ :=
  let size := s.getSize
  let new := c.memory.allocate B.memoryBackend size
  let memory := new.2.fill new.1 size (new.2.bytes s.memory.buffer)
  let s' : ObjectSegment := { s with memory := ⟨new.1, size⟩ }
  (s', { c with memory := memory }.storeSegment B id key s')

/-! ### Storage access -/

/-- `Object::pread` into a buffer. -/
def pread (c : Container μ σ) (id : ObjectId) (buffer : Addr) (size offset : Nat) :
    Int × Container μ σ :=
  match B.storageBackend with
  | none => (size, c)
  | some sb =>
    let r := sb.pread c.storage id (c.memory.bytes buffer) size offset
    (r.status, { c with memory := c.memory.fill buffer size r.buffer, storage := r.state })

/-- `Object::pwrite` from a buffer. -/
def pwrite (c : Container μ σ) (id : ObjectId) (buffer : Addr) (size offset : Nat) :
    Int × Container μ σ :=
  match B.storageBackend with
  | none => (size, c)
  | some sb =>
    let r := sb.pwrite c.storage id (c.memory.bytes buffer) size offset
    (r.1, { c with storage := r.2 })

/-- `Object::create`. -/
def create (c : Container μ σ) (id : ObjectId) : Int × Container μ σ :=
  match B.storageBackend with
  | none => (0, c)
  | some sb =>
    let r := sb.create c.storage id
    (r.1, { c with storage := r.2 })

/-! ### `Object::getBuffers` -/

/-- `Object::markDirty`. -/
def markDirty (c : Container μ σ) (id : ObjectId) (base size : Nat) : Container μ σ :=
  c.setSegments id ((c.segments id).mapValues fun s =>
    if s.overlap base size then { s with dirty := true } else s)

/-- `Object::isFullyOverlapped`. -/
def isFullyOverlapped (segOffset segSize reqOffset reqSize : Nat) : Bool :=
  decide (reqOffset ≤ segOffset) &&
    decide (SizeT.add segOffset segSize ≤ SizeT.add reqOffset reqSize)

/-- `Object::loadSegment`: allocate a buffer, read it from the storage, and
register it as a clean segment. -/
def loadSegment (c : Container μ σ) (id : ObjectId) (offset size : Nat)
    (load acceptLoadFail : Bool) : Option ObjectSegmentDescr × Container μ σ :=
  let new := c.memory.allocate B.memoryBackend size
  let c := { c with memory := new.2 }
  let r := if load then c.pread B id new.1 size offset else ((size : Int), c)
  if load = true ∧ SizeT.ofInt r.1 ≠ size ∧ acceptLoadFail = false then
    (none, { r.2 with memory := r.2.memory.deallocate B.memoryBackend new.1 size })
  else
    let s : ObjectSegment := ⟨⟨new.1, size⟩, offset, false⟩
    (some s.getSegmentDescr, r.2.storeSegment B id (SizeT.sub (SizeT.add offset size) 1) s)

/-- The range of a request rounded out to the alignment, as `(base, size)`. -/
def alignRange (alignement base size : Nat) : Nat × Nat :=
  if 0 < alignement then
    let size := SizeT.add size (base % alignement)
    (base - base % alignement,
      if 0 < size % alignement then SizeT.add size (alignement - size % alignement) else size)
  else (base, size)

/-- The first loop of `getBuffers`: collect the segments from `lower_bound`
on while they overlap the range, unsharing them for a write access. -/
def extractSegments (id : ObjectId) (base size : Nat) (accessMode : ObjectAccessMode) :
    List (Nat × ObjectSegment) → Container μ σ → List ObjectSegmentDescr × Container μ σ
  | [], c => ([], c)
  | e :: rest, c =>
    if e.2.overlap base size then
      let r := if accessMode = .write ∧ c.isCow e.2 = true then c.applyCow B id e.1 e.2
        else (e.2, c)
      let r' := extractSegments id base size accessMode rest r.2
      (r.1.getSegmentDescr :: r'.1, r'.2)
    else ([], c)

/-- Fill the gap `[lastOffset, lastOffset + size)` of a request. A write does
not read what it is about to overwrite. -/
def loadGap (c : Container μ σ) (id : ObjectId) (origBase origSize : Nat)
    (load isForWriteOp : Bool) (lastOffset size : Nat) :
    Option ObjectSegmentDescr × Container μ σ :=
  let needLoad := if isForWriteOp && isFullyOverlapped lastOffset size origBase origSize
    then false else load
  c.loadSegment B id lastOffset size needLoad isForWriteOp

/-- The second loop of `getBuffers`: load the gaps before the collected
segments. Returns the loaded segments and the final `lastOffset`; `none` when a
load failed. -/
def completeSegments (id : ObjectId) (origBase origSize : Nat) (load isForWriteOp : Bool) :
    List ObjectSegmentDescr → Nat → Container μ σ →
      Option (List ObjectSegmentDescr × Nat) × Container μ σ
  | [], lastOffset, c => (some ([], lastOffset), c)
  | it :: rest, lastOffset, c =>
    if lastOffset < it.offset then
      match c.loadGap B id origBase origSize load isForWriteOp lastOffset
          (it.offset - lastOffset) with
      | (none, c) => (none, c)
      | (some descr, c) =>
        match completeSegments id origBase origSize load isForWriteOp rest
            (SizeT.add it.offset it.size) c with
        | (none, c) => (none, c)
        | (some r, c) => (some (descr :: r.1, r.2), c)
    else
      completeSegments id origBase origSize load isForWriteOp rest (SizeT.add it.offset it.size) c

/-- `ObjectSegmentList::sort()` with the source's `operator<` on descriptors. -/
def sortSegments (segments : List ObjectSegmentDescr) : List ObjectSegmentDescr :=
  segments.insertionSort fun a b => a.offset ≤ b.offset

/-- `Object::getBuffers`, called with an empty list. `none` stands for the
result `false`, with the list cleared. -/
def getBuffers (c : Container μ σ) (id : ObjectId) (base size : Nat)
    (accessMode : ObjectAccessMode) (load isForWriteOp : Bool) :
    Option (List ObjectSegmentDescr) × Container μ σ :=
  let range := alignRange (c.object id).alignement base size
  let found := extractSegments B id range.1 range.2 accessMode
    ((c.segments id).lowerBound range.1) c
  match completeSegments B id base size load isForWriteOp found.1 range.1 found.2 with
  | (none, c) => (none, c)
  | (some tmp, c) =>
    let endOffset := SizeT.add range.1 range.2
    if tmp.2 < endOffset then
      match c.loadGap B id base size load isForWriteOp tmp.2 (endOffset - tmp.2) with
      | (none, c) => (none, c)
      | (some descr, c) => (some (sortSegments (found.1 ++ tmp.1 ++ [descr])), c)
    else (some (sortSegments (found.1 ++ tmp.1)), c)

/-! ### `Object::flush` -/

/-- The segments `Object::flush` writes back. -/
def flushed (offset size : Nat) (s : ObjectSegment) : Bool :=
  s.dirty && (decide (size = 0) || s.overlap offset size)

/-- The writes of the loop of `Object::flush`, with the accumulated result. -/
def flushSegments (id : ObjectId) (offset size : Nat) :
    List (Nat × ObjectSegment) → Int → Container μ σ → Int × Container μ σ
  | [], ret, c => (ret, c)
  | e :: rest, ret, c =>
    if flushed offset size e.2 then
      let r := c.pwrite B id e.2.memory.buffer e.2.getSize e.2.offset
      flushSegments id offset size rest
        (if SizeT.ofInt r.1 ≠ e.2.getSize then -1 else ret) r.2
    else flushSegments id offset size rest ret c

/-- `Object::flush`. Each segment is marked clean after its own write, which
no other write of the loop reads. -/
def flush (c : Container μ σ) (id : ObjectId) (offset size : Nat) : Int × Container μ σ :=
  let r := flushSegments B id offset size (c.segments id).entries 0 c
  (r.1, r.2.setSegments id ((r.2.segments id).mapValues fun s =>
    if flushed offset size s then { s with dirty := false } else s))

/-! ### Copy-on-write -/

/-- The copy loop of `rangeCopyOnWriteSegment`, from the buffer `src`. -/
def copySegments (mb : MemoryBackend μ) (src : Addr) :
    List ObjectSegmentDescr → (innerOffset absOffset innerSize : Nat) → Memory μ → Memory μ
  | [], _, _, _, m => m
  | it :: rest, innerOffset, absOffset, innerSize, m =>
    let destOffset := SizeT.sub absOffset it.offset
    let copySize := if innerSize < it.size then innerSize else it.size
    copySegments mb src rest (SizeT.add innerOffset copySize) (SizeT.add absOffset copySize)
      (SizeT.sub innerSize copySize)
      (m.memcpy mb (it.ptr.add destOffset) ⟨src, innerOffset⟩ copySize)

/-- `origPartialOverlap` of `rangeCopyOnWriteSegment`: the range does not
contain the whole source segment. -/
def origPartialOverlap (orig : ObjectSegment) (offset size : Nat) : Bool :=
  decide (orig.offset < offset) ||
    decide (SizeT.add offset size < SizeT.add orig.offset orig.getSize)

/-- `localPartialOverlap` of `rangeCopyOnWriteSegment`: the first local segment
not below the source segment is another range. -/
def localPartialOverlap (m : ObjectSegmentMap) (orig : ObjectSegment) : Bool :=
  match m.lowerBound orig.offset with
  | [] => false
  | e :: _ => decide (e.2.offset ≠ orig.offset) || decide (e.2.getSize ≠ orig.getSize)

/-- `innerOffset` and `innerSize` of `rangeCopyOnWriteSegment`: the part of the
source segment that lies in the range. -/
def innerRange (orig : ObjectSegment) (offset size : Nat) : Nat × Nat :=
  let innerOffset := if orig.offset < offset then offset - orig.offset else 0
  let innerSize := SizeT.sub orig.getSize innerOffset
  (innerOffset,
    if SizeT.add offset size < SizeT.add orig.offset orig.getSize then
      SizeT.sub innerSize (SizeT.add orig.offset orig.getSize - SizeT.add offset size)
    else innerSize)

/-- `Object::rangeCopyOnWriteSegment` on the object `dst`, for the segment of
`src` stored under `key`. The source segment is a reference: its buffer is read
after `getBuffers`, which may have moved it when both objects are the same. -/
def rangeCopyOnWriteSegment (c : Container μ σ) (src dst : ObjectId) (key : Nat)
    (orig : ObjectSegment) (offset size : Nat) : Container μ σ :=
  let inner := innerRange orig offset size
  if origPartialOverlap orig offset size || localPartialOverlap (c.segments dst) orig then
    let absOffset := SizeT.add orig.offset inner.1
    let r := c.getBuffers B dst absOffset inner.2 .write true false
    let buffer := (((r.2.segments src).find? key).getD orig).memory.buffer
    { r.2 with
      memory := copySegments B.memoryBackend buffer (r.1.getD []) inner.1 absOffset inner.2
        r.2.memory }
  else
    c.makeCowOf B dst (SizeT.sub (SizeT.add orig.offset orig.getSize) 1) orig

/-- The loop of `Object::rangeCopyOnWrite` over the source segments, by key. No
segment is ever erased, and copying a segment onto the map it comes from adds
none past it, so the iterator visits the keys the map had at the start. -/
def rangeCopyLoop (src dst : ObjectId) (offset size : Nat) :
    List Nat → Container μ σ → Container μ σ
  | [], c => c
  | key :: rest, c =>
    match (c.segments src).find? key with
    | none => c
    | some orig =>
      if orig.overlap offset size then
        rangeCopyLoop src dst offset size rest
          (c.rangeCopyOnWriteSegment B src dst key orig offset size)
      else c

/-- `Object::rangeCopyOnWrite` on the object `dst`. -/
def rangeCopyOnWrite (c : Container μ σ) (src dst : ObjectId) (offset size : Nat) :
    Container μ σ :=
  match (c.segments src).lowerBound offset with
  | [] => c
  | e :: rest =>
    if e.2.overlap offset size then
      rangeCopyLoop B src dst offset size (e.1 :: rest.map Prod.fst) c
    else rangeCopyLoop B src dst offset size (rest.map Prod.fst) c

/-- `StorageBackend::makeCowSegment`: copy a range from storage to storage. -/
def makeCowSegment (c : Container μ σ) (src dst : ObjectId) (offset size : Nat) :
    Except Fault (Container μ σ) :=
  match B.storageBackend with
  | none => .error .nullStorage
  | some sb =>
    let r := sb.pread c.storage src (fun _ => 0) size offset
    if SizeT.ofInt r.status ≠ size then
      .error (.assume "Fail to fully load the object range for COW : %1:%2 -> %3:%4 [%5,%6] !")
    else
      let w := sb.pwrite r.state dst r.buffer size offset
      if SizeT.ofInt w.1 ≠ size then
        .error (.assume "Fail to fully write back the object range for COW : %1:%2 -> %3:%4 [%5,%6] !")
      else .ok { c with storage := w.2 }

/-- Write a clean shared segment back under the new object's id. -/
def flushCow (c : Container μ σ) (dst : ObjectId) (s : ObjectSegment) :
    Except Fault (Container μ σ) :=
  if s.dirty then .ok c
  else
    let r := c.pwrite B dst s.memory.buffer s.getSize s.offset
    if SizeT.ofInt r.1 ≠ s.getSize then
      .error (.assume "Fail to copy the COW non dirty elements !")
    else .ok r.2

/-- The loop of `makeFullCopyOnWrite` over the source segments; `cow` is the
segment map of the object being built. -/
def fullCowLoop (src dst : ObjectId) :
    List (Nat × ObjectSegment) → Nat → ObjectSegmentMap → Container μ σ →
      Except Fault (ObjectSegmentMap × Container μ σ)
  | [], _, cow, c => .ok (cow, c)
  | e :: rest, cursor, cow, c =>
    match (if cursor < e.2.offset then
        c.makeCowSegment B src dst cursor (e.2.offset - cursor) else .ok c) with
    | .error f => .error f
    | .ok c =>
      match c.flushCow B dst e.2 with
      | .error f => .error f
      | .ok c =>
        fullCowLoop src dst rest (SizeT.add e.2.offset e.2.getSize) (cow.insert e.1 e.2) c

/-- `Object::makeFullCopyOnWrite`: the new object and the container it leaves. -/
def makeFullCopyOnWrite (c : Container μ σ) (src dst : ObjectId) (allowExist : Bool) :
    Except Fault (Object × Container μ σ) :=
  let r := c.create B dst
  if r.1 = 0 ∨ allowExist = true then
    match fullCowLoop B src dst (c.segments src).entries 0 OrderedMap.empty r.2 with
    | .error f => .error f
    | .ok (cow, c') => .ok ({ Object.new (c.object src).alignement with segmentMap := cow }, c')
  else .error (.assume "Failed to create object on the storage for COW !")

/-! ### Container operations -/

/-- The segments of an object being destroyed give up their buffers one by one. -/
def destroySegments (id : ObjectId) : List (Nat × ObjectSegment) → Container μ σ → Container μ σ
  | [], c => c
  | e :: rest, c =>
    destroySegments id rest
      ((c.setSegments id ((c.segments id).erase e.1)).release B e.2.memory)

/-- `delete` of a registered object. -/
def deleteObject (c : Container μ σ) (id : ObjectId) : Container μ σ :=
  let c := destroySegments B id (c.segments id).entries c
  { c with objects := c.objects.erase id }

/-- `Container::makeObjectRangeCow`. -/
def makeObjectRangeCow (c : Container μ σ) (sourceId destId : ObjectId) (allowExist : Bool)
    (offset size : Nat) : Bool × Container μ σ :=
  if c.hasObject sourceId = false then (false, c)
  else if c.hasObject destId = true ∧ allowExist = false then (false, c)
  else (true, (c.getObject destId).rangeCopyOnWrite B sourceId destId offset size)

/-- `Container::makeObjectFullCow`. An existing destination is deleted before
the copy is made; when it is the source, the copy is asked of a NULL object. -/
def makeObjectFullCow (c : Container μ σ) (sourceId destId : ObjectId) (allowExist : Bool) :
    Except Fault (Bool × Container μ σ) :=
  if c.hasObject sourceId = false then .ok (false, c)
  else if c.hasObject destId = true ∧ allowExist = false then .ok (false, c)
  else
    let c := if c.hasObject destId then c.deleteObject B destId else c
    if c.hasObject sourceId = false then .error .nullObject
    else
      match c.makeFullCopyOnWrite B sourceId destId allowExist with
      | .error f => .error f
      | .ok (cow, c) => .ok (true, c.setObject destId cow)

/-- `Container::onClientDisconnect`. -/
def onClientDisconnect (c : Container μ σ) (tcpClientId : Nat) : Container μ σ :=
  { c with
    objects := c.objects.mapValues fun o =>
      { o with consistencyTracker := o.consistencyTracker.clientDisconnect tcpClientId } }

end Container

end IoCatcher
