import IoCatcher.Model.Requests

/-!
# IO Catcher — the calls to the storage

How often an operation reads or writes the storage is not visible in its result.
`StorageBackend.logged` is a storage backend that answers as another one does and
also notes every call, with its result for a write. A statement about the calls of
an operation on the backends `B` is a statement about the log it leaves on
`B.logged`.
-/

namespace IoCatcher

-- ---------------------------------------------------------------------------
-- The log
-- ---------------------------------------------------------------------------

/-- A call to the storage backend. -/
inductive StorageCall where
  | pread (id : ObjectId) (size offset : Nat)
  | pwrite (id : ObjectId) (buffer : Bytes) (size offset : Nat) (result : Int)
  | create (id : ObjectId)

/-- The same backend, with a log of its calls, oldest first. -/
def StorageBackend.logged {σ : Type} (sb : StorageBackend σ) :
    StorageBackend (σ × List StorageCall) where
  disk s := sb.disk s.1
  pread s id buffer size offset :=
    let r := sb.pread s.1 id buffer size offset
    ⟨r.status, r.buffer, (r.state, s.2 ++ [.pread id size offset])⟩
  pwrite s id buffer size offset :=
    let r := sb.pwrite s.1 id buffer size offset
    (r.1, (r.2, s.2 ++ [.pwrite id buffer size offset r.1]))
  create s id :=
    let r := sb.create s.1 id
    (r.1, (r.2, s.2 ++ [.create id]))
  disk_pread := sb.disk_pread
  pread_full := sb.pread_full
  disk_pwrite := sb.disk_pwrite
  pwrite_full := sb.pwrite_full
  disk_create := sb.disk_create

/-- The backends of a server whose storage notes its calls. -/
def Backends.logged {μ σ : Type} (B : Backends μ σ) : Backends μ (σ × List StorageCall) :=
  ⟨B.memoryBackend, B.storageBackend.map StorageBackend.logged⟩

namespace Container

variable {μ σ : Type} {B : Backends μ σ} {id : ObjectId}

/-- The calls made so far. -/
def log (c : Container μ (σ × List StorageCall)) : List StorageCall := c.storage.2

-- ---------------------------------------------------------------------------
-- The reads of `getBuffers`
-- ---------------------------------------------------------------------------

/-- The storage is read for this gap of the request. -/
def readsGap (B : Backends μ σ) (origBase origSize : Nat) (load isForWriteOp : Bool)
    (offset size : Nat) : Bool :=
  B.storageBackend.isSome &&
    if isForWriteOp && isFullyOverlapped offset size origBase origSize then false else load

theorem log_pread (c : Container μ (σ × List StorageCall)) (buffer : Addr) (size offset : Nat) :
    (c.pread B.logged id buffer size offset).2.log =
      c.log ++ if B.storageBackend.isSome then [.pread id size offset] else [] := by
  unfold pread log Backends.logged
  cases B.storageBackend with
  | none => simp
  | some sb => rfl

/-- A load reads its range once, also when it fails. -/
theorem log_loadSegment (c : Container μ (σ × List StorageCall)) (offset size : Nat)
    (load acceptLoadFail : Bool) :
    (c.loadSegment B.logged id offset size load acceptLoadFail).2.log =
      c.log ++ if B.storageBackend.isSome && load then [.pread id size offset] else [] := by
  have hlog : (c.loadChunk B.logged id offset size load).2.log =
      c.log ++ if B.storageBackend.isSome && load then [.pread id size offset] else [] := by
    unfold loadChunk
    cases load with
    | false =>
      rw [Bool.and_false]
      exact (List.append_nil _).symm
    | true =>
      rw [if_pos rfl, log_pread, Bool.and_true]
      rfl
  rw [loadSegment_eq, ← hlog]
  split_ifs
  · rfl
  · unfold log
    rw [storage_storeSegment]

theorem log_loadGap (id : ObjectId) (c : Container μ (σ × List StorageCall))
    (origBase origSize : Nat) (load isForWriteOp : Bool) (offset size : Nat) :
    (c.loadGap B.logged id origBase origSize load isForWriteOp offset size).2.log =
      c.log ++ if readsGap B origBase origSize load isForWriteOp offset size then
        [.pread id size offset] else [] := by
  unfold loadGap
  exact log_loadSegment ..

/-- A load that succeeds returns the range it was given. -/
theorem descr_loadSegment {c c' : Container μ σ} {offset size : Nat} {load acceptLoadFail : Bool}
    {descr : ObjectSegmentDescr}
    (h : c.loadSegment B id offset size load acceptLoadFail = (some descr, c')) :
    descr.offset = offset ∧ descr.size = size := by
  rw [loadSegment_eq] at h
  split_ifs at h
  · exact absurd (congrArg Prod.fst h) (by simp)
  · obtain rfl := Option.some.inj (congrArg Prod.fst h)
    exact ⟨rfl, rfl⟩

theorem descr_loadGap {c c' : Container μ σ} {origBase origSize : Nat} {load isForWriteOp : Bool}
    {offset size : Nat} {descr : ObjectSegmentDescr}
    (h : c.loadGap B id origBase origSize load isForWriteOp offset size = (some descr, c')) :
    descr.offset = offset ∧ descr.size = size := descr_loadSegment h

/-- The reads of the second loop are those of the gaps it loaded. -/
theorem log_completeSegments {origBase origSize : Nat} {load isForWriteOp : Bool}
    (es : List ObjectSegmentDescr) :
    ∀ {lastOffset last : Nat} {tmp : List ObjectSegmentDescr}
      {c c' : Container μ (σ × List StorageCall)},
      completeSegments B.logged id origBase origSize load isForWriteOp es lastOffset c =
        (some (tmp, last), c') →
      c'.log = c.log ++ (tmp.filter fun d =>
        readsGap B origBase origSize load isForWriteOp d.offset d.size).map fun d =>
          StorageCall.pread id d.size d.offset := by
  induction es with
  | nil =>
    intro lastOffset last tmp c c' h
    obtain ⟨htmp, rfl⟩ := Prod.mk.inj h
    obtain ⟨rfl, -⟩ := Prod.mk.inj (Option.some.inj htmp)
    simp
  | cons it rest ih =>
    intro lastOffset last tmp c c' h
    unfold completeSegments at h
    by_cases hgap : lastOffset < it.offset
    · rw [if_pos hgap] at h
      have hlog := log_loadGap (B := B) id c origBase origSize load isForWriteOp
        lastOffset (it.offset - lastOffset)
      cases hload : c.loadGap B.logged id origBase origSize load isForWriteOp lastOffset
          (it.offset - lastOffset) with
      | mk descr? c₁ =>
        rw [hload] at h hlog
        cases descr? with
        | none => exact absurd (congrArg Prod.fst h) (by simp)
        | some descr =>
          obtain ⟨hoff, hsize⟩ := descr_loadGap hload
          dsimp only at h hlog
          cases hrest : completeSegments B.logged id origBase origSize load isForWriteOp rest
              (SizeT.add it.offset it.size) c₁ with
          | mk r? c₂ =>
            rw [hrest] at h
            cases r? with
            | none => exact absurd (congrArg Prod.fst h) (by simp)
            | some r =>
              obtain ⟨htmp, rfl⟩ := Prod.mk.inj h
              obtain ⟨rfl, rfl⟩ := Prod.mk.inj (Option.some.inj htmp)
              rw [ih hrest, hlog, List.filter_cons, hoff, hsize]
              by_cases hreads : readsGap B origBase origSize load isForWriteOp lastOffset
                  (it.offset - lastOffset) = true
              · rw [if_pos hreads, if_pos hreads, List.map_cons, hoff, hsize, List.append_assoc]
                rfl
              · rw [if_neg hreads, if_neg hreads, List.append_nil]
    · rw [if_neg hgap] at h
      exact ih h

@[simp] theorem storage_extractSegments (id : ObjectId) (base size : Nat) (mode : ObjectAccessMode)
    (es : List (Nat × ObjectSegment)) (c : Container μ σ) :
    (extractSegments B id base size mode es c).2.storage = c.storage := by
  induction es generalizing c with
  | nil => rfl
  | cons e rest ih =>
    unfold extractSegments
    by_cases hov : e.2.overlap base size = true
    · rw [if_pos hov]
      dsimp only
      rw [ih]
      by_cases hcow : mode = .write ∧ c.isCow e.2 = true
      · rw [if_pos hcow, storage_applyCow]
      · rw [if_neg hcow]
    · rw [if_neg hov]

/-- The list of a successful `getBuffers` is made of the segments it found and of
the gaps it loaded, and its reads are those of the gaps. -/
theorem getBuffers_loads {c c' : Container μ (σ × List StorageCall)} {base size b n : Nat}
    {mode : ObjectAccessMode} {load isForWriteOp : Bool} {list : List ObjectSegmentDescr}
    (hrange : alignRange (c.object id).alignement base size = (b, n))
    (h : c.getBuffers B.logged id base size mode load isForWriteOp = (some list, c')) :
    ∃ loads, list = sortSegments ((extractSegments B.logged id b n mode
        ((c.segments id).lowerBound b) c).1 ++ loads) ∧
      c'.log = c.log ++ (loads.filter fun d =>
        readsGap B base size load isForWriteOp d.offset d.size).map fun d =>
          StorageCall.pread id d.size d.offset := by
  unfold getBuffers at h
  dsimp only at h
  rw [hrange] at h
  dsimp only at h
  have hstorage := storage_extractSegments (B := B.logged) id b n mode
    ((c.segments id).lowerBound b) c
  generalize extractSegments B.logged id b n mode ((c.segments id).lowerBound b) c = found
    at h hstorage ⊢
  have hfound : found.2.log = c.log := congrArg Prod.snd hstorage
  cases hcomplete : completeSegments B.logged id base size load isForWriteOp found.1 b found.2 with
  | mk tmp? c₁ =>
    rw [hcomplete] at h
    cases tmp? with
    | none => exact absurd (congrArg Prod.fst h) (by simp)
    | some tmp =>
      have hlog := log_completeSegments found.1 hcomplete
      rw [hfound] at hlog
      dsimp only at h
      by_cases htail : tmp.2 < SizeT.add b n
      · rw [if_pos htail] at h
        have hlog' := log_loadGap (B := B) id c₁ base size load isForWriteOp tmp.2
          (SizeT.add b n - tmp.2)
        cases hload : c₁.loadGap B.logged id base size load isForWriteOp tmp.2
            (SizeT.add b n - tmp.2) with
        | mk descr? c₂ =>
          rw [hload] at h hlog'
          cases descr? with
          | none => exact absurd (congrArg Prod.fst h) (by simp)
          | some descr =>
            obtain ⟨hoff, hsize⟩ := descr_loadGap hload
            obtain ⟨hlist, rfl⟩ := Prod.mk.inj h
            refine ⟨tmp.1 ++ [descr], ?_, ?_⟩
            · rw [← Option.some.inj hlist, List.append_assoc]
            · dsimp only at hlog'
              rw [hlog', hlog, List.filter_append, List.map_append, List.append_assoc,
                List.filter_singleton, hoff, hsize]
              congr 2
              by_cases hreads : readsGap B base size load isForWriteOp tmp.2
                  (SizeT.add b n - tmp.2) = true
              · rw [if_pos hreads, hreads, cond_true, List.map_singleton, hoff, hsize]
              · rw [if_neg hreads, Bool.eq_false_iff.mpr hreads, cond_false, List.map_nil]
      · rw [if_neg htail] at h
        obtain ⟨hlist, rfl⟩ := Prod.mk.inj h
        exact ⟨tmp.1, (Option.some.inj hlist).symm, hlog⟩

end Container

-- ---------------------------------------------------------------------------
-- A server with a log
-- ---------------------------------------------------------------------------

/-- A server on one node, on a zeroed storage that notes its calls. -/
def loggedServer (A : Nat) : Server Malloc ((ObjectId → Bytes) × List StorageCall) :=
  Server.new (Container.new A (Memory.fresh 0) (fun _ _ => 0, [])) false

theorem initial_loggedServer (B : Backends Malloc (ObjectId → Bytes))
    (hB : B.memoryBackend = Malloc.backend) (A : Nat) :
    Server.Initial B.logged A false (loggedServer A) :=
  ⟨_, _, (show B.logged.memoryBackend = _ from hB) ▸ Memory.valid_fresh 0, rfl, rfl⟩

end IoCatcher
