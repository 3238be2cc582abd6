import IoCatcher.Model.FullCopy
import IoCatcher.Model.Gaps

/-!
# IO Catcher — two containers that differ in their bytes

No decision of the container looks at the bytes of a buffer: the segments, the
calls to the allocator and the answers of the storage are the same, whatever the
clients wrote. Two containers that differ in their bytes only are `Parallel`,
and every operation keeps them so and gives the same result on both.

The storage has to be one that does not look at the bytes either
(`StorageBackend.Oblivious`): what it answers depends on its own state and on
the request, not on the data.
-/

namespace IoCatcher

-- ---------------------------------------------------------------------------
-- Storages that do not look at the bytes
-- ---------------------------------------------------------------------------

/-- What the storage answers does not depend on the bytes it is given or holds.
`control` is the rest of its state. -/
structure StorageBackend.Oblivious {σ κ : Type} (sb : StorageBackend σ) (control : σ → κ) :
    Prop where
  pread  : ∀ (s s' : σ) (id : ObjectId) (buffer buffer' : Bytes) (size offset : Nat),
    control s' = control s →
    (sb.pread s' id buffer' size offset).status = (sb.pread s id buffer size offset).status ∧
      control (sb.pread s' id buffer' size offset).state =
        control (sb.pread s id buffer size offset).state
  pwrite : ∀ (s s' : σ) (id : ObjectId) (buffer buffer' : Bytes) (size offset : Nat),
    control s' = control s →
    (sb.pwrite s' id buffer' size offset).1 = (sb.pwrite s id buffer size offset).1 ∧
      control (sb.pwrite s' id buffer' size offset).2 =
        control (sb.pwrite s id buffer size offset).2
  create : ∀ (s s' : σ) (id : ObjectId), control s' = control s →
    (sb.create s' id).1 = (sb.create s id).1 ∧
      control (sb.create s' id).2 = control (sb.create s id).2
  /-- A write, also a short one, of the same bytes over the same bytes leaves the
  same bytes. -/
  stored : ∀ (s s' : σ) (id : ObjectId) (buffer buffer' : Bytes) (size offset : Nat),
    control s' = control s → sb.disk s' id = sb.disk s id → (∀ i < size, buffer' i = buffer i) →
    sb.disk (sb.pwrite s' id buffer' size offset).2 id =
      sb.disk (sb.pwrite s id buffer size offset).2 id

/-- The storage of the server, if there is one, does not look at the bytes. -/
def Backends.Oblivious {μ σ κ : Type} (B : Backends μ σ) (control : σ → κ) : Prop :=
  ∀ sb, B.storageBackend = some sb → sb.Oblivious control

namespace Container

variable {μ σ κ : Type} {B : Backends μ σ} {control : σ → κ} {c c' : Container μ σ}

/-- The two containers differ in the bytes of the memory and of the storage
only. -/
structure Parallel (control : σ → κ) (c c' : Container μ σ) : Prop where
  objects : c'.objects = c.objects
  default : c'.objectSegmentsAlignement = c.objectSegmentsAlignement
  backend : c'.memory.backend = c.memory.backend
  control : control c'.storage = control c.storage

/-- The same result, in parallel containers. -/
inductive Agrees (control : σ → κ) {α : Type} : α × Container μ σ → α × Container μ σ → Prop where
  | mk (a : α) {c c' : Container μ σ} (h : Parallel control c c') : Agrees control (a, c) (a, c')

theorem Agrees.fst {α : Type} {r r' : α × Container μ σ} (h : Agrees control r r') :
    r'.1 = r.1 := by
  cases h
  rfl

theorem Agrees.snd {α : Type} {r r' : α × Container μ σ} (h : Agrees control r r') :
    Parallel control r.2 r'.2 := by
  cases h with
  | mk a h => exact h

-- ---------------------------------------------------------------------------
-- Objects and segments
-- ---------------------------------------------------------------------------

/-- Creating an object on the storage changes no byte. -/
theorem create_frame (c : Container μ σ) (id : ObjectId) :
    (c.create B id).2.memory = c.memory ∧ (c.create B id).2.disk B = c.disk B := by
  unfold Container.create Container.disk
  cases B.storageBackend with
  | none => exact ⟨rfl, rfl⟩
  | some sb => exact ⟨rfl, sb.disk_create⟩

namespace Parallel

theorem refl (control : σ → κ) (c : Container μ σ) : Parallel control c c := ⟨rfl, rfl, rfl, rfl⟩

theorem object (h : Parallel control c c') (id : ObjectId) : c'.object id = c.object id := by
  unfold Container.object
  rw [h.objects, h.default]

theorem segments (h : Parallel control c c') (id : ObjectId) :
    c'.segments id = c.segments id := by
  unfold Container.segments
  rw [h.object]

theorem hasObject (h : Parallel control c c') (id : ObjectId) :
    c'.hasObject id = c.hasObject id := by
  unfold Container.hasObject
  rw [h.objects]

theorem useCount (h : Parallel control c c') (a : Addr) : c'.useCount a = c.useCount a := by
  unfold Container.useCount owners
  rw [h.objects]

theorem isCow (h : Parallel control c c') (s : ObjectSegment) : c'.isCow s = c.isCow s := by
  unfold Container.isCow
  rw [h.useCount]

theorem hasSegment (h : Parallel control c c') {id : ObjectId} {k : Nat} {s : ObjectSegment} :
    c'.HasSegment id k s ↔ c.HasSegment id k s := by
  unfold HasSegment
  rw [h.segments]

/-- The same positions are cached. -/
theorem cached_eq_none (h : Parallel control c c') {id : ObjectId} {x : Nat} :
    c'.cached id x = none ↔ c.cached id x = none := by
  rw [Container.cached_eq_none, Container.cached_eq_none]
  simp only [h.hasSegment]

theorem setObject (h : Parallel control c c') (id : ObjectId) (o : Object) :
    Parallel control (c.setObject id o) (c'.setObject id o) := by
  refine ⟨?_, h.default, h.backend, h.control⟩
  unfold Container.setObject
  rw [h.objects]

theorem getObject (h : Parallel control c c') (id : ObjectId) :
    Parallel control (c.getObject id) (c'.getObject id) := by
  unfold Container.getObject
  rw [h.object]
  exact h.setObject id _

theorem setSegments (h : Parallel control c c') (id : ObjectId) (m : ObjectSegmentMap) :
    Parallel control (c.setSegments id m) (c'.setSegments id m) := by
  unfold Container.setSegments
  rw [h.object]
  exact h.setObject id _

theorem markDirty (h : Parallel control c c') (id : ObjectId) (base size : Nat) :
    Parallel control (c.markDirty id base size) (c'.markDirty id base size) := by
  unfold Container.markDirty
  rw [h.segments]
  exact h.setSegments id _

/-- The same call to the allocator, and anything done to the bytes. -/
theorem withMemory (h : Parallel control c c') {m m' : Memory μ} (hm : m'.backend = m.backend) :
    Parallel control { c with memory := m } { c' with memory := m' } :=
  ⟨h.objects, h.default, hm, h.control⟩

theorem withStorage (h : Parallel control c c') {st st' : σ} (hst : control st' = control st) :
    Parallel control { c with storage := st } { c' with storage := st' } :=
  ⟨h.objects, h.default, h.backend, hst⟩

theorem allocate (h : Parallel control c c') (size : Nat) :
    (c'.memory.allocate B.memoryBackend size).1 = (c.memory.allocate B.memoryBackend size).1 ∧
      (c'.memory.allocate B.memoryBackend size).2.backend =
        (c.memory.allocate B.memoryBackend size).2.backend := by
  unfold Memory.allocate
  rw [h.backend]
  exact ⟨rfl, rfl⟩

theorem deallocate (h : Parallel control c c') (a : Addr) (size : Nat) :
    Parallel control { c with memory := c.memory.deallocate B.memoryBackend a size }
      { c' with memory := c'.memory.deallocate B.memoryBackend a size } := by
  refine h.withMemory ?_
  unfold Memory.deallocate
  rw [h.backend]

theorem release (h : Parallel control c c') (m : ObjectSegmentMemory) :
    Parallel control (c.release B m) (c'.release B m) := by
  unfold Container.release
  rw [h.useCount]
  split_ifs
  · exact h.deallocate m.buffer m.size
  · exact h

theorem storeSegment (h : Parallel control c c') (id : ObjectId) (key : Nat) (s : ObjectSegment) :
    Parallel control (c.storeSegment B id key s) (c'.storeSegment B id key s) := by
  unfold Container.storeSegment
  rw [h.segments]
  have hset := h.setSegments id ((c.segments id).insert key s)
  cases (c.segments id).find? key with
  | none => exact hset
  | some old => exact hset.release old.memory

theorem applyCow (h : Parallel control c c') (id : ObjectId) (key : Nat) (s : ObjectSegment) :
    Agrees control (c.applyCow B id key s) (c'.applyCow B id key s) := by
  obtain ⟨haddr, hback⟩ := h.allocate (B := B) s.getSize
  unfold Container.applyCow
  dsimp only
  rw [haddr]
  refine .mk _ (Parallel.storeSegment (h.withMemory ?_) id key _)
  exact hback

-- ---------------------------------------------------------------------------
-- Storage
-- ---------------------------------------------------------------------------

theorem pread (h : Parallel control c c') (hB : B.Oblivious control) (id : ObjectId)
    (buffer : Addr) (size offset : Nat) :
    Agrees control (c.pread B id buffer size offset) (c'.pread B id buffer size offset) := by
  unfold Container.pread
  cases hsb : B.storageBackend with
  | none => exact .mk _ h
  | some sb =>
    obtain ⟨hstatus, hstate⟩ := (hB sb hsb).pread c.storage c'.storage id
      (c.memory.bytes buffer) (c'.memory.bytes buffer) size offset h.control
    dsimp only
    rw [hstatus]
    exact .mk _ ⟨h.objects, h.default, h.backend, hstate⟩

theorem pwrite (h : Parallel control c c') (hB : B.Oblivious control) (id : ObjectId)
    (buffer : Addr) (size offset : Nat) :
    Agrees control (c.pwrite B id buffer size offset) (c'.pwrite B id buffer size offset) := by
  unfold Container.pwrite
  cases hsb : B.storageBackend with
  | none => exact .mk _ h
  | some sb =>
    obtain ⟨hstatus, hstate⟩ := (hB sb hsb).pwrite c.storage c'.storage id
      (c.memory.bytes buffer) (c'.memory.bytes buffer) size offset h.control
    dsimp only
    rw [hstatus]
    exact .mk _ (h.withStorage hstate)

theorem create (h : Parallel control c c') (hB : B.Oblivious control) (id : ObjectId) :
    Agrees control (c.create B id) (c'.create B id) := by
  unfold Container.create
  cases hsb : B.storageBackend with
  | none => exact .mk _ h
  | some sb =>
    obtain ⟨hstatus, hstate⟩ := (hB sb hsb).create c.storage c'.storage id h.control
    dsimp only
    rw [hstatus]
    exact .mk _ (h.withStorage hstate)

-- ---------------------------------------------------------------------------
-- Looking buffers up
-- ---------------------------------------------------------------------------

theorem loadChunk (h : Parallel control c c') (hB : B.Oblivious control) (id : ObjectId)
    (offset size : Nat) (load : Bool) :
    Agrees control (c.loadChunk B id offset size load) (c'.loadChunk B id offset size load) := by
  obtain ⟨haddr, hback⟩ := h.allocate (B := B) size
  unfold Container.loadChunk
  rw [haddr]
  split_ifs
  · exact (h.withMemory hback).pread hB id _ size offset
  · exact .mk _ (h.withMemory hback)

theorem loadSegment (h : Parallel control c c') (hB : B.Oblivious control) (id : ObjectId)
    (offset size : Nat) (load acceptLoadFail : Bool) :
    Agrees control (c.loadSegment B id offset size load acceptLoadFail)
      (c'.loadSegment B id offset size load acceptLoadFail) := by
  have hchunk := h.loadChunk hB id offset size load
  rw [loadSegment_eq, loadSegment_eq, (h.allocate (B := B) size).1, hchunk.fst]
  split_ifs
  · exact .mk _ (hchunk.snd.deallocate _ size)
  · exact .mk _ (hchunk.snd.storeSegment id _ _)

theorem loadGap (h : Parallel control c c') (hB : B.Oblivious control) (id : ObjectId)
    (origBase origSize : Nat) (load isForWriteOp : Bool) (lastOffset size : Nat) :
    Agrees control (c.loadGap B id origBase origSize load isForWriteOp lastOffset size)
      (c'.loadGap B id origBase origSize load isForWriteOp lastOffset size) := by
  unfold Container.loadGap
  exact h.loadSegment hB id ..

theorem extractSegments (h : Parallel control c c') (id : ObjectId) (base size : Nat)
    (mode : ObjectAccessMode) (es : List (Nat × ObjectSegment)) :
    Agrees control (Container.extractSegments B id base size mode es c)
      (Container.extractSegments B id base size mode es c') := by
  induction es generalizing c c' with
  | nil => exact .mk _ h
  | cons e rest ih =>
    unfold Container.extractSegments
    by_cases hov : e.2.overlap base size = true
    · rw [if_pos hov, if_pos hov, h.isCow]
      -- the segment, unshared or not, then the rest of the loop
      have hunshare : Agrees control
          (if mode = .write ∧ c.isCow e.2 = true then c.applyCow B id e.1 e.2 else (e.2, c))
          (if mode = .write ∧ c.isCow e.2 = true then c'.applyCow B id e.1 e.2 else (e.2, c')) := by
        split_ifs
        · exact h.applyCow id e.1 e.2
        · exact .mk _ h
      generalize (if mode = .write ∧ c.isCow e.2 = true then c.applyCow B id e.1 e.2
        else (e.2, c)) = r at hunshare ⊢
      generalize (if mode = .write ∧ c.isCow e.2 = true then c'.applyCow B id e.1 e.2
        else (e.2, c')) = r' at hunshare ⊢
      cases hunshare with
      | mk s hpar =>
        have hrest := ih hpar
        dsimp only
        rw [hrest.fst]
        exact .mk _ hrest.snd
    · rw [if_neg hov, if_neg hov]
      exact .mk _ h

theorem completeSegments (h : Parallel control c c') (hB : B.Oblivious control) (id : ObjectId)
    (origBase origSize : Nat) (load isForWriteOp : Bool) (es : List ObjectSegmentDescr)
    (lastOffset : Nat) :
    Agrees control
      (Container.completeSegments B id origBase origSize load isForWriteOp es lastOffset c)
      (Container.completeSegments B id origBase origSize load isForWriteOp es lastOffset c') := by
  induction es generalizing lastOffset c c' with
  | nil => exact .mk _ h
  | cons it rest ih =>
    unfold Container.completeSegments
    by_cases hgap : lastOffset < it.offset
    · rw [if_pos hgap, if_pos hgap]
      have hload := h.loadGap hB id origBase origSize load isForWriteOp lastOffset
        (it.offset - lastOffset)
      generalize c.loadGap B id origBase origSize load isForWriteOp lastOffset
        (it.offset - lastOffset) = r at hload ⊢
      generalize c'.loadGap B id origBase origSize load isForWriteOp lastOffset
        (it.offset - lastOffset) = r' at hload ⊢
      cases hload with
      | @mk descr d d' hpar =>
        cases descr with
        | none => exact .mk _ hpar
        | some descr =>
          dsimp only
          have hrest := ih hpar (SizeT.add it.offset it.size)
          generalize Container.completeSegments B id origBase origSize load isForWriteOp rest
            (SizeT.add it.offset it.size) d = q at hrest ⊢
          generalize Container.completeSegments B id origBase origSize load isForWriteOp rest
            (SizeT.add it.offset it.size) d' = q' at hrest ⊢
          cases hrest with
          | mk tmp hpar' =>
            cases tmp with
            | none => exact .mk _ hpar'
            | some tmp => exact .mk _ hpar'
    · rw [if_neg hgap, if_neg hgap]
      exact ih h _

theorem getBuffers (h : Parallel control c c') (hB : B.Oblivious control) (id : ObjectId)
    (base size : Nat) (mode : ObjectAccessMode) (load isForWriteOp : Bool) :
    Agrees control (c.getBuffers B id base size mode load isForWriteOp)
      (c'.getBuffers B id base size mode load isForWriteOp) := by
  unfold Container.getBuffers
  dsimp only
  rw [h.object, h.segments]
  generalize alignRange (c.object id).alignement base size = range
  have hfound := h.extractSegments (B := B) id range.1 range.2 mode
    ((c.segments id).lowerBound range.1)
  rw [hfound.fst]
  generalize (Container.extractSegments B id range.1 range.2 mode
    ((c.segments id).lowerBound range.1) c).1 = found
  have hcomplete := hfound.snd.completeSegments hB id base size load isForWriteOp found range.1
  generalize Container.completeSegments B id base size load isForWriteOp found range.1
    (Container.extractSegments B id range.1 range.2 mode
      ((c.segments id).lowerBound range.1) c).2 = q at hcomplete ⊢
  generalize Container.completeSegments B id base size load isForWriteOp found range.1
    (Container.extractSegments B id range.1 range.2 mode
      ((c.segments id).lowerBound range.1) c').2 = q' at hcomplete ⊢
  cases hcomplete with
  | @mk tmp d d' hpar =>
    cases tmp with
    | none => exact .mk _ hpar
    | some tmp =>
      dsimp only
      by_cases htail : tmp.2 < SizeT.add range.1 range.2
      · rw [if_pos htail, if_pos htail]
        have hload := hpar.loadGap hB id base size load isForWriteOp tmp.2
          (SizeT.add range.1 range.2 - tmp.2)
        generalize d.loadGap B id base size load isForWriteOp tmp.2
          (SizeT.add range.1 range.2 - tmp.2) = r at hload ⊢
        generalize d'.loadGap B id base size load isForWriteOp tmp.2
          (SizeT.add range.1 range.2 - tmp.2) = r' at hload ⊢
        cases hload with
        | mk descr hpar' =>
          cases descr with
          | none => exact .mk _ hpar'
          | some descr => exact .mk _ hpar'
      · rw [if_neg htail, if_neg htail]
        exact .mk _ hpar

theorem readsInFull (h : Parallel control c c') (hB : B.Oblivious control) (id : ObjectId)
    (offset size : Nat) : c'.readsInFull B id offset size = c.readsInFull B id offset size := by
  obtain ⟨haddr, hback⟩ := h.allocate (B := B) size
  unfold Container.readsInFull
  rw [haddr, ((h.withMemory hback).pread hB id _ size offset).fst]

theorem unfilledGap (h : Parallel control c c') (hB : B.Oblivious control) (id : ObjectId)
    (origBase origSize lastOffset size : Nat) :
    c'.unfilledGap B id origBase origSize lastOffset size =
      c.unfilledGap B id origBase origSize lastOffset size := by
  unfold Container.unfilledGap
  rw [h.readsInFull hB]

theorem unfilledGaps (h : Parallel control c c') (hB : B.Oblivious control) (id : ObjectId)
    (origBase origSize endOffset : Nat) (es : List ObjectSegmentDescr) (lastOffset : Nat) :
    Container.unfilledGaps B id origBase origSize endOffset es lastOffset c' =
      Container.unfilledGaps B id origBase origSize endOffset es lastOffset c := by
  induction es generalizing lastOffset c c' with
  | nil =>
    unfold Container.unfilledGaps
    rw [h.unfilledGap hB]
  | cons it rest ih =>
    unfold Container.unfilledGaps
    rw [h.unfilledGap hB, ih h,
      ih (h.loadGap hB id origBase origSize true true lastOffset (it.offset - lastOffset)).snd]

/-- The same gaps stay unfilled. -/
theorem unfilledByWrite (h : Parallel control c c') (hB : B.Oblivious control) (id : ObjectId)
    (base size : Nat) : c'.unfilledByWrite B id base size = c.unfilledByWrite B id base size := by
  unfold Container.unfilledByWrite
  dsimp only
  rw [h.object, h.segments]
  have hfound := h.extractSegments (B := B) id (alignRange (c.object id).alignement base size).1
    (alignRange (c.object id).alignement base size).2 .write
    ((c.segments id).lowerBound (alignRange (c.object id).alignement base size).1)
  rw [hfound.fst, hfound.snd.unfilledGaps hB]

-- ---------------------------------------------------------------------------
-- Copies
-- ---------------------------------------------------------------------------

theorem rangeCopyOnWriteSegment (h : Parallel control c c') (hB : B.Oblivious control)
    (src dst : ObjectId) (key : Nat) (orig : ObjectSegment) (offset size : Nat) :
    Parallel control (c.rangeCopyOnWriteSegment B src dst key orig offset size)
      (c'.rangeCopyOnWriteSegment B src dst key orig offset size) := by
  unfold Container.rangeCopyOnWriteSegment
  dsimp only
  rw [h.segments]
  split_ifs
  · have hget := h.getBuffers hB dst (SizeT.add orig.offset (innerRange orig offset size).1)
      (innerRange orig offset size).2 .write true false
    refine hget.snd.withMemory ?_
    rw [copySegments_backend, copySegments_backend]
    exact hget.snd.backend
  · exact h.storeSegment dst _ _

theorem rangeCopyLoop (h : Parallel control c c') (hB : B.Oblivious control)
    (src dst : ObjectId) (offset size : Nat) (keys : List Nat) :
    Parallel control (Container.rangeCopyLoop B src dst offset size keys c)
      (Container.rangeCopyLoop B src dst offset size keys c') := by
  induction keys generalizing c c' with
  | nil => exact h
  | cons key rest ih =>
    unfold Container.rangeCopyLoop
    rw [h.segments]
    cases (c.segments src).find? key with
    | none => exact h
    | some orig =>
      dsimp only
      split_ifs
      · exact ih (h.rangeCopyOnWriteSegment hB src dst key orig offset size)
      · exact h

theorem destroySegments (h : Parallel control c c') (id : ObjectId)
    (es : List (Nat × ObjectSegment)) :
    Parallel control (Container.destroySegments B id es c)
      (Container.destroySegments B id es c') := by
  induction es generalizing c c' with
  | nil => exact h
  | cons e rest ih =>
    unfold Container.destroySegments
    rw [h.segments]
    exact ih ((h.setSegments id _).release e.2.memory)

theorem deleteObject (h : Parallel control c c') (id : ObjectId) :
    Parallel control (c.deleteObject B id) (c'.deleteObject B id) := by
  unfold Container.deleteObject
  dsimp only
  rw [h.segments]
  have hdestroy := h.destroySegments (B := B) id (c.segments id).entries
  refine ⟨?_, hdestroy.default, hdestroy.backend, hdestroy.control⟩
  dsimp only
  rw [hdestroy.objects]

theorem makeCowSegment {d d' : Container μ σ} (h : Parallel control c c')
    (hB : B.Oblivious control) {src dst : ObjectId} {offset size : Nat}
    (hok : c.makeCowSegment B src dst offset size = .ok d)
    (hok' : c'.makeCowSegment B src dst offset size = .ok d') : Parallel control d d' := by
  unfold Container.makeCowSegment at hok hok'
  cases hsb : B.storageBackend with
  | none =>
    rw [hsb] at hok
    exact absurd hok (by simp)
  | some sb =>
    obtain ⟨-, hread⟩ := (hB sb hsb).pread c.storage c'.storage src (fun _ => 0) (fun _ => 0) size
      offset h.control
    rw [hsb] at hok hok'
    dsimp only at hok hok'
    split_ifs at hok hok'
    obtain rfl := Except.ok.inj hok
    obtain rfl := Except.ok.inj hok'
    exact h.withStorage ((hB sb hsb).pwrite _ _ dst _ _ size offset hread).2

theorem flushCow {d d' : Container μ σ} (h : Parallel control c c') (hB : B.Oblivious control)
    {dst : ObjectId} {s : ObjectSegment} (hok : c.flushCow B dst s = .ok d)
    (hok' : c'.flushCow B dst s = .ok d') : Parallel control d d' := by
  unfold Container.flushCow at hok hok'
  by_cases hdirty : s.dirty = true
  · rw [if_pos hdirty] at hok hok'
    obtain rfl := Except.ok.inj hok
    obtain rfl := Except.ok.inj hok'
    exact h
  · have hwrite := h.pwrite hB dst s.memory.buffer s.getSize s.offset
    rw [if_neg hdirty] at hok hok'
    dsimp only at hok hok'
    split_ifs at hok hok'
    obtain rfl := Except.ok.inj hok
    obtain rfl := Except.ok.inj hok'
    exact hwrite.snd

/-- The loop of a full copy, and the gap before a segment. -/
theorem fullCowLoop (hB : B.Oblivious control) {src dst : ObjectId}
    {es : List (Nat × ObjectSegment)} :
    ∀ {cursor : Nat} {cow cow' m m' : ObjectSegmentMap} {c c' d d' : Container μ σ},
      Parallel control c c' → Container.fullCowLoop B src dst es cursor cow c = .ok (m, d) →
      Container.fullCowLoop B src dst es cursor cow' c' = .ok (m', d') → Parallel control d d' := by
  induction es with
  | nil =>
    intro cursor cow cow' m m' c c' d d' h hok hok'
    obtain ⟨-, rfl⟩ := Prod.mk.inj (Except.ok.inj hok)
    obtain ⟨-, rfl⟩ := Prod.mk.inj (Except.ok.inj hok')
    exact h
  | cons e rest ih =>
    intro cursor cow cow' m m' c c' d d' h hok hok'
    obtain ⟨c₁, c₂, hgap, hflush, hloop⟩ := fullCowLoop_cons hok
    obtain ⟨c₁', c₂', hgap', hflush', hloop'⟩ := fullCowLoop_cons hok'
    have h₁ : Parallel control c₁ c₁' := by
      split_ifs at hgap hgap'
      · exact h.makeCowSegment hB hgap hgap'
      · obtain rfl := Except.ok.inj hgap
        obtain rfl := Except.ok.inj hgap'
        exact h
    exact ih (h₁.flushCow hB hflush hflush') hloop hloop'

/-- The old destination of a full copy is deleted. -/
theorem deleted (h : Parallel control c c') (dst : ObjectId) :
    Parallel control (if c.hasObject dst = true then c.deleteObject B dst else c)
      (if c'.hasObject dst = true then c'.deleteObject B dst else c') := by
  rw [h.hasObject]
  split_ifs
  · exact h.deleteObject dst
  · exact h

/-- The loops of a full copy start from parallel containers. -/
theorem makeFullCopyOnWrite {d d' : Container μ σ} (h : Parallel control c c')
    (hB : B.Oblivious control) {src dst : ObjectId} {allowExist : Bool} {o o' : Object}
    (hok : c.makeFullCopyOnWrite B src dst allowExist = .ok (o, d))
    (hok' : c'.makeFullCopyOnWrite B src dst allowExist = .ok (o', d')) :
    ∃ m m' c₁ c₁', Parallel control c₁ c₁' ∧ c₁.memory = c.memory ∧ c₁'.memory = c'.memory ∧
      c₁.disk B = c.disk B ∧ c₁'.disk B = c'.disk B ∧
      Container.fullCowLoop B src dst (c.segments src).entries 0 .empty c₁ = .ok (m, d) ∧
      Container.fullCowLoop B src dst (c.segments src).entries 0 .empty c₁' = .ok (m', d') := by
  have hcreate := h.create hB dst
  unfold Container.makeFullCopyOnWrite at hok hok'
  dsimp only at hok hok'
  rw [hcreate.fst, h.segments, h.object] at hok'
  split_ifs at hok hok'
  split at hok
  · exact absurd hok (by simp)
  split at hok'
  · exact absurd hok' (by simp)
  rename_i m c₂ hloop _ m' c₂' hloop'
  obtain ⟨-, rfl⟩ := Prod.mk.inj (Except.ok.inj hok)
  obtain ⟨-, rfl⟩ := Prod.mk.inj (Except.ok.inj hok')
  obtain ⟨hmem, hdisk⟩ := create_frame (B := B) c dst
  obtain ⟨hmem', hdisk'⟩ := create_frame (B := B) c' dst
  exact ⟨m, m', _, _, hcreate.snd, hmem, hmem', hdisk, hdisk', hloop, hloop'⟩

/-- A full copy that both containers make. -/
theorem makeObjectFullCow {d d' : Container μ σ} (h : Parallel control c c')
    (hB : B.Oblivious control) {src dst : ObjectId} {allowExist r r' : Bool}
    (hok : c.makeObjectFullCow B src dst allowExist = .ok (r, d))
    (hok' : c'.makeObjectFullCow B src dst allowExist = .ok (r', d')) :
    r' = r ∧ Parallel control d d' := by
  unfold Container.makeObjectFullCow at hok hok'
  rw [h.hasObject, h.hasObject] at hok'
  by_cases hsrc : c.hasObject src = false
  · rw [if_pos hsrc] at hok hok'
    obtain ⟨rfl, rfl⟩ := Prod.mk.inj (Except.ok.inj hok)
    obtain ⟨rfl, rfl⟩ := Prod.mk.inj (Except.ok.inj hok')
    exact ⟨rfl, h⟩
  by_cases hdst : c.hasObject dst = true ∧ allowExist = false
  · rw [if_neg hsrc, if_pos hdst] at hok hok'
    obtain ⟨rfl, rfl⟩ := Prod.mk.inj (Except.ok.inj hok)
    obtain ⟨rfl, rfl⟩ := Prod.mk.inj (Except.ok.inj hok')
    exact ⟨rfl, h⟩
  rw [if_neg hsrc, if_neg hdst] at hok hok'
  have hdel := h.deleted (B := B) dst
  rw [h.hasObject] at hdel
  dsimp only at hok hok'
  generalize (if c.hasObject dst = true then c.deleteObject B dst else c) = c₁ at hok hdel
  generalize (if c.hasObject dst = true then c'.deleteObject B dst else c') = c₁' at hok' hdel
  rw [hdel.hasObject] at hok'
  split_ifs at hok hok'
  split at hok
  · exact absurd hok (by simp)
  split at hok'
  · exact absurd hok' (by simp)
  rename_i cow c₂ hcow _ cow' c₂' hcow'
  obtain ⟨rfl, rfl⟩ := Prod.mk.inj (Except.ok.inj hok)
  obtain ⟨rfl, rfl⟩ := Prod.mk.inj (Except.ok.inj hok')
  obtain ⟨m, m', d, d', hcreate, -, -, -, -, hloop, hloop'⟩ :=
    hdel.makeFullCopyOnWrite hB hcow hcow'
  rw [(makeFullCopyOnWrite_ok hcow).1, (makeFullCopyOnWrite_ok hcow').1, hdel.segments, hdel.object]
  exact ⟨rfl, (Parallel.fullCowLoop hB hcreate hloop hloop').setObject dst _⟩

theorem makeObjectRangeCow (h : Parallel control c c') (hB : B.Oblivious control)
    (src dst : ObjectId) (allowExist : Bool) (offset size : Nat) :
    Agrees control (c.makeObjectRangeCow B src dst allowExist offset size)
      (c'.makeObjectRangeCow B src dst allowExist offset size) := by
  unfold Container.makeObjectRangeCow
  rw [h.hasObject, h.hasObject]
  split_ifs
  · exact .mk _ h
  · exact .mk _ h
  · refine .mk _ ?_
    have hget := h.getObject dst
    unfold Container.rangeCopyOnWrite
    rw [hget.segments]
    cases ((c.getObject dst).segments src).lowerBound offset with
    | nil => exact hget
    | cons e rest =>
      dsimp only
      split_ifs
      · exact hget.rangeCopyLoop hB src dst offset size _
      · exact hget.rangeCopyLoop hB src dst offset size _

-- ---------------------------------------------------------------------------
-- Flushes and disconnections
-- ---------------------------------------------------------------------------

theorem flushSegments (h : Parallel control c c') (hB : B.Oblivious control) (id : ObjectId)
    (offset size : Nat) (es : List (Nat × ObjectSegment)) (ret : Int) :
    Agrees control (Container.flushSegments B id offset size es ret c)
      (Container.flushSegments B id offset size es ret c') := by
  induction es generalizing ret c c' with
  | nil => exact .mk _ h
  | cons e rest ih =>
    unfold Container.flushSegments
    split_ifs
    · have hwrite := h.pwrite hB id e.2.memory.buffer e.2.getSize e.2.offset
      dsimp only
      rw [hwrite.fst]
      exact ih hwrite.snd _
    · exact ih h ret

theorem flush (h : Parallel control c c') (hB : B.Oblivious control) (id : ObjectId)
    (offset size : Nat) :
    Agrees control (c.flush B id offset size) (c'.flush B id offset size) := by
  have hloop := h.flushSegments hB id offset size (c.segments id).entries 0
  unfold Container.flush
  dsimp only
  rw [h.segments, hloop.fst, hloop.snd.segments]
  exact .mk _ (hloop.snd.setSegments id _)

theorem onClientDisconnect (h : Parallel control c c') (client : Nat) :
    Parallel control (c.onClientDisconnect client) (c'.onClientDisconnect client) := by
  refine ⟨?_, h.default, h.backend, h.control⟩
  unfold Container.onClientDisconnect
  rw [h.objects]

end Parallel

-- ---------------------------------------------------------------------------
-- The same bytes on the storage
-- ---------------------------------------------------------------------------

/-- Both write the same bytes of `es` to the same stored bytes. -/
theorem disk_flushSegments_eq (hB : B.Oblivious control) {id : ObjectId} {offset size : Nat}
    {es : List (Nat × ObjectSegment)} :
    ∀ {ret ret' : Int} {c c' : Container μ σ}, Parallel control c c' →
      c'.disk B id = c.disk B id →
      (∀ e ∈ es, flushed offset size e.2 = true → ∀ i < e.2.getSize,
        c'.memory.bytes e.2.memory.buffer i = c.memory.bytes e.2.memory.buffer i) →
      (flushSegments B id offset size es ret' c').2.disk B id =
        (flushSegments B id offset size es ret c).2.disk B id := by
  induction es with
  | nil => exact fun _ hdisk _ => hdisk
  | cons e rest ih =>
    intro ret ret' c c' h hdisk hbytes
    unfold flushSegments
    split_ifs with hfl
    · have hwrite := h.pwrite hB id e.2.memory.buffer e.2.getSize e.2.offset
      obtain ⟨st, hst⟩ := pwrite_eq (B := B) c id e.2.memory.buffer e.2.getSize e.2.offset
      obtain ⟨st', hst'⟩ := pwrite_eq (B := B) c' id e.2.memory.buffer e.2.getSize e.2.offset
      refine ih hwrite.snd ?_ fun e' he' hfl' i hi => ?_
      · unfold Container.pwrite
        cases hsb : B.storageBackend with
        | none => exact hdisk
        | some sb =>
          unfold Container.disk at hdisk ⊢
          rw [hsb] at hdisk ⊢
          exact (hB sb hsb).stored _ _ id _ _ _ _ h.control hdisk
            (hbytes e (List.mem_cons_self ..) hfl)
      · rw [hst, hst']
        exact hbytes e' (List.mem_cons_of_mem _ he') hfl' i hi
    · exact ih h hdisk fun e' he' => hbytes e' (List.mem_cons_of_mem _ he')

/-- A flush of the same bytes leaves the same bytes on the storage. -/
theorem disk_flush_eq (h : Parallel control c c') (hB : B.Oblivious control) {id : ObjectId}
    {offset size : Nat} (hdisk : c'.disk B id = c.disk B id)
    (hbytes : ∀ k t, c.HasSegment id k t → flushed offset size t = true → ∀ i < t.getSize,
      c'.memory.bytes t.memory.buffer i = c.memory.bytes t.memory.buffer i) :
    (c'.flush B id offset size).2.disk B id = (c.flush B id offset size).2.disk B id := by
  unfold Container.flush
  dsimp only
  rw [h.segments]
  exact disk_flushSegments_eq hB h hdisk fun e he => hbytes e.1 e.2 he

/-- A full copy of the same bytes leaves the same bytes on the storage of the
destination. -/
theorem disk_fullCowLoop_eq {sb : StorageBackend σ} (hsb : B.storageBackend = some sb)
    {src dst : ObjectId} (hne : src ≠ dst) {es : List (Nat × ObjectSegment)} :
    ∀ {cursor : Nat} {cow cow' m m' : ObjectSegmentMap} {c c' d d' : Container μ σ},
      (∀ e ∈ es, e.2.dirty = false → ∀ i < e.2.getSize,
        c'.memory.bytes e.2.memory.buffer i = c.memory.bytes e.2.memory.buffer i) →
      c'.disk B src = c.disk B src → c'.disk B dst = c.disk B dst →
      fullCowLoop B src dst es cursor cow c = .ok (m, d) →
      fullCowLoop B src dst es cursor cow' c' = .ok (m', d') → d'.disk B dst = d.disk B dst := by
  induction es with
  | nil =>
    intro cursor cow cow' m m' c c' d d' _ _ hdst hok hok'
    obtain ⟨-, rfl⟩ := Prod.mk.inj (Except.ok.inj hok)
    obtain ⟨-, rfl⟩ := Prod.mk.inj (Except.ok.inj hok')
    exact hdst
  | cons e rest ih =>
    intro cursor cow cow' m m' c c' d d' hbytes hsrc hdst hok hok'
    obtain ⟨c₁, c₂, hgap, hflush, hloop⟩ := fullCowLoop_cons hok
    obtain ⟨c₁', c₂', hgap', hflush', hloop'⟩ := fullCowLoop_cons hok'
    obtain ⟨hmem, hdisk⟩ := cowTurn_disk hsb hgap hflush
    obtain ⟨hmem', hdisk'⟩ := cowTurn_disk hsb hgap' hflush'
    refine ih (fun e' he' hclean i hi => ?_) (funext fun x => ?_) (funext fun x => ?_) hloop hloop'
    · rw [hmem, hmem']
      exact hbytes e' (List.mem_cons_of_mem _ he') hclean i hi
    · rw [hdisk, hdisk', if_neg fun hin => hne hin.1, if_neg fun hin => hne hin.1,
        if_neg fun hin => hne hin.1, if_neg fun hin => hne hin.1, hsrc]
    · rw [hdisk, hdisk', hsrc, hdst]
      split_ifs with hin hin'
      · have hx := hin.2.2
        have hstop : e.2.stop = e.2.offset + e.2.getSize := rfl
        unfold ObjectSegment.Holds at hx
        exact hbytes e (List.mem_cons_self ..) hin.2.1 _ (by omega)
      · rfl
      · rfl

/-- A full copy of a source whose clean segments hold the same bytes. -/
theorem disk_fullCow_eq {g : Nat} {src dst : ObjectId} {allowExist : Bool} {d d' : Container μ σ}
    (h : Parallel control c c') (hB : B.Oblivious control) (hwf : Wf B g c) (hwf' : Wf B g c')
    (hsrc : c'.disk B src = c.disk B src) (hdst : c'.disk B dst = c.disk B dst)
    (hbytes : B.storageBackend ≠ none → ∀ k u, c.HasSegment src k u → u.dirty = false →
      ∀ i < u.getSize, c'.memory.bytes u.memory.buffer i = c.memory.bytes u.memory.buffer i)
    (hok : c.makeObjectFullCow B src dst allowExist = .ok (true, d))
    (hok' : c'.makeObjectFullCow B src dst allowExist = .ok (true, d')) :
    d'.disk B dst = d.disk B dst := by
  cases hsb : B.storageBackend with
  | none =>
    unfold Container.disk
    rw [hsb]
  | some sb =>
    obtain ⟨hne, -, -, a, st, ha, -, heq, hcow, rfl⟩ := makeObjectFullCow_ok hwf hok
    obtain ⟨-, -, -, a', st', ha', -, heq', hcow', rfl⟩ := makeObjectFullCow_ok hwf' hok'
    have hdel := h.deleted (B := B) dst
    rw [← heq, ← heq'] at hdel
    obtain ⟨m, m', c₁, c₁', -, hmem, hmem', hdisk, hdisk', hloop, hloop'⟩ :=
      hdel.makeFullCopyOnWrite hB hcow hcow'
    have hseg : a.segments src = c.segments src := by
      rw [Container.segments, ha.others hne, Container.segments]
    have hcopy := disk_fullCowLoop_eq hsb hne (fun e he hclean i hi => ?_) ?_ ?_ hloop hloop'
    · exact hcopy
    · rw [hmem, hmem', ha.bytes, ha'.bytes]
      rw [hseg] at he
      exact hbytes (by simp [hsb]) e.1 e.2 he hclean i hi
    · rw [hdisk, hdisk', disk_of_storage ha.storage, disk_of_storage ha'.storage, hsrc]
    · rw [hdisk, hdisk', disk_of_storage ha.storage, disk_of_storage ha'.storage, hdst]

end Container

end IoCatcher
