import IoCatcher.Safety.CopyBounds
import IoCatcher.Safety.Flush

/-!
# IO Catcher — a range copy that fails

A source segment that cannot be shared is copied into the buffers `getBuffers` gives
for it in the destination. A gap of the destination is read from the storage first,
and when the read fails `getBuffers` says so and gives no buffers. The range copy
does not look at that answer: it copies into no buffer, goes on with the next source
segment, and `makeObjectRangeCow` returns `true`. The client is told that the copy
was made.

* `getBuffers_eq_none_iff`      — `getBuffers` fails exactly when one of its reads does;
* `failedCow_reported_iff`      — a failed range copy is reported if and only if no
  read fails, that is if there is nothing to report;
* `cow_hides_failed_read`       — a copy of which nothing was made, answered with 0.
-/

namespace IoCatcher

namespace Container

variable {μ σ : Type} {B : Backends μ σ} {c : Container μ σ} {id src dst : ObjectId}

-- ---------------------------------------------------------------------------
-- The reads of `getBuffers`
-- ---------------------------------------------------------------------------

/-- The read of `loadSegment`, as the size asked for and the result of
`Object::pread`. -/
def loadReads (B : Backends μ σ) (c : Container μ σ) (id : ObjectId) (offset size : Nat)
    (load : Bool) : List (Nat × Int) :=
  let new := c.memory.allocate B.memoryBackend size
  if load then
    [(size, (({ c with memory := new.2 } : Container μ σ).pread B id new.1 size offset).1)]
  else []

/-- The read for a gap. -/
def gapReads (B : Backends μ σ) (c : Container μ σ) (id : ObjectId) (origBase origSize : Nat)
    (load isForWriteOp : Bool) (lastOffset size : Nat) : List (Nat × Int) :=
  c.loadReads B id lastOffset size
    (if isForWriteOp && isFullyOverlapped lastOffset size origBase origSize then false else load)

/-- The reads of the second loop of `getBuffers`. -/
def completeReads (B : Backends μ σ) (id : ObjectId) (origBase origSize : Nat)
    (load isForWriteOp : Bool) :
    List ObjectSegmentDescr → Nat → Container μ σ → List (Nat × Int)
  | [], _, _ => []
  | it :: rest, lastOffset, c =>
    if lastOffset < it.offset then
      c.gapReads B id origBase origSize load isForWriteOp lastOffset (it.offset - lastOffset) ++
        match c.loadGap B id origBase origSize load isForWriteOp lastOffset
            (it.offset - lastOffset) with
        | (none, _) => []
        | (some _, c) =>
          completeReads B id origBase origSize load isForWriteOp rest
            (SizeT.add it.offset it.size) c
    else
      completeReads B id origBase origSize load isForWriteOp rest (SizeT.add it.offset it.size) c

/-- The reads of `getBuffers`, in order. -/
def bufferReads (B : Backends μ σ) (c : Container μ σ) (id : ObjectId) (base size : Nat)
    (accessMode : ObjectAccessMode) (load isForWriteOp : Bool) : List (Nat × Int) :=
  let range := alignRange (c.object id).alignement base size
  let found := extractSegments B id range.1 range.2 accessMode
    ((c.segments id).lowerBound range.1) c
  completeReads B id base size load isForWriteOp found.1 range.1 found.2 ++
    match completeSegments B id base size load isForWriteOp found.1 range.1 found.2 with
    | (none, _) => []
    | (some tmp, c) =>
      let endOffset := SizeT.add range.1 range.2
      if tmp.2 < endOffset then
        c.gapReads B id base size load isForWriteOp tmp.2 (endOffset - tmp.2)
      else []

/-- One of the reads failed, or was short. -/
def Short (reads : List (Nat × Int)) : Prop := ∃ r ∈ reads, ¬ IsFull r.2 r.1

instance (reads : List (Nat × Int)) : Decidable (Short reads) :=
  inferInstanceAs (Decidable (∃ r ∈ reads, _))

theorem short_append {l l' : List (Nat × Int)} : Short (l ++ l') ↔ Short l ∨ Short l' := by
  unfold Short
  simp only [List.mem_append, or_and_right, exists_or]

theorem not_short_nil : ¬ Short [] := fun ⟨_, hr, _⟩ => List.not_mem_nil hr

/-- A load fails when its read does, unless failures are accepted. -/
theorem loadSegment_eq_none_iff (offset size : Nat) (load acceptLoadFail : Bool) :
    (c.loadSegment B id offset size load acceptLoadFail).1 = none ↔
      acceptLoadFail = false ∧ Short (c.loadReads B id offset size load) := by
  have hshort : Short (c.loadReads B id offset size load) ↔
      load = true ∧ SizeT.ofInt (c.loadChunk B id offset size load).1 ≠ size := by
    unfold loadReads loadChunk Short IsFull
    cases load <;> simp
  rw [loadSegment_eq, hshort]
  split_ifs with hfail
  · exact ⟨fun _ => ⟨hfail.2.2, hfail.1, hfail.2.1⟩, fun _ => rfl⟩
  · exact ⟨fun h => absurd h (by simp), fun h => absurd ⟨h.2.1, h.2.2, h.1⟩ hfail⟩

theorem loadGap_eq_none_iff (id : ObjectId) (origBase origSize : Nat) (load isForWriteOp : Bool)
    (lastOffset size : Nat) :
    (c.loadGap B id origBase origSize load isForWriteOp lastOffset size).1 = none ↔
      isForWriteOp = false ∧
        Short (c.gapReads B id origBase origSize load isForWriteOp lastOffset size) :=
  loadSegment_eq_none_iff ..

theorem completeSegments_eq_none_iff (id : ObjectId) (origBase origSize : Nat) (load : Bool)
    (es : List ObjectSegmentDescr) :
    ∀ (lastOffset : Nat) (c : Container μ σ),
      (completeSegments B id origBase origSize load false es lastOffset c).1 = none ↔
        Short (completeReads B id origBase origSize load false es lastOffset c) := by
  induction es with
  | nil => exact fun _ _ => ⟨fun h => absurd h (by simp [completeSegments]), not_short_nil.elim⟩
  | cons it rest ih =>
    intro lastOffset c
    unfold completeSegments completeReads
    by_cases hgap : lastOffset < it.offset
    · rw [if_pos hgap, if_pos hgap, short_append]
      have hload := loadGap_eq_none_iff (B := B) (c := c) id origBase origSize load false lastOffset
        (it.offset - lastOffset)
      rw [← and_iff_right (a := false = false) (b := Short (gapReads ..)) rfl, ← hload]
      cases hg : c.loadGap B id origBase origSize load false lastOffset
          (it.offset - lastOffset) with
      | mk descr? c₁ =>
        cases descr? with
        | none => simp
        | some descr =>
          -- the gap was read: the result is that of the rest
          have hrest := ih (SizeT.add it.offset it.size) c₁
          dsimp only
          rw [← hrest]
          cases completeSegments B id origBase origSize load false rest
              (SizeT.add it.offset it.size) c₁ with
          | mk r? c₂ => cases r? <;> simp
    · rw [if_neg hgap, if_neg hgap]
      exact ih ..

/-- **`getBuffers` fails exactly when one of its reads does**, outside of a write. -/
theorem getBuffers_eq_none_iff (id : ObjectId) (base size : Nat) (accessMode : ObjectAccessMode)
    (load : Bool) :
    (c.getBuffers B id base size accessMode load false).1 = none ↔
      Short (c.bufferReads B id base size accessMode load false) := by
  unfold getBuffers bufferReads
  dsimp only
  generalize extractSegments B id _ _ accessMode _ c = found
  rw [short_append, ← completeSegments_eq_none_iff]
  cases completeSegments B id base size load false found.1 _ found.2 with
  | mk tmp? c₁ =>
    cases tmp? with
    | none => simp
    | some tmp =>
      dsimp only
      by_cases htail : tmp.2 < SizeT.add (alignRange (c.object id).alignement base size).1
          (alignRange (c.object id).alignement base size).2
      · rw [if_pos htail, if_pos htail]
        have hload := loadGap_eq_none_iff (B := B) (c := c₁) id base size load false tmp.2
          (SizeT.add (alignRange (c.object id).alignement base size).1
            (alignRange (c.object id).alignement base size).2 - tmp.2)
        rw [← and_iff_right (a := false = false) (b := Short (gapReads ..)) rfl, ← hload]
        cases c₁.loadGap B id base size load false tmp.2 _ with
        | mk descr? c₂ => cases descr? <;> simp
      · rw [if_neg htail, if_neg htail]
        simp [not_short_nil]

-- ---------------------------------------------------------------------------
-- The turns of a range copy
-- ---------------------------------------------------------------------------

/-- A turn of the loop of `rangeCopyOnWrite`: the container it starts from and the
source segment it visits. -/
structure CopyTurn (μ σ : Type) where
  before : Container μ σ
  key    : Nat
  orig   : ObjectSegment

/-- The turns of `rangeCopyLoop`. -/
def copyTurns (B : Backends μ σ) (src dst : ObjectId) (offset size : Nat) :
    List Nat → Container μ σ → List (CopyTurn μ σ)
  | [], _ => []
  | key :: rest, c =>
    match (c.segments src).find? key with
    | none => []
    | some orig =>
      if orig.overlap offset size then
        ⟨c, key, orig⟩ :: copyTurns B src dst offset size rest
          (c.rangeCopyOnWriteSegment B src dst key orig offset size)
      else []

/-- The turns of `makeObjectRangeCow`: none when the call is refused. -/
def rangeCowTurns (B : Backends μ σ) (c : Container μ σ) (src dst : ObjectId) (allowExist : Bool)
    (offset size : Nat) : List (CopyTurn μ σ) :=
  if c.hasObject src = false then []
  else if c.hasObject dst = true ∧ allowExist = false then []
  else
    match ((c.getObject dst).segments src).lowerBound offset with
    | [] => []
    | e :: rest =>
      if e.2.overlap offset size then
        copyTurns B src dst offset size (e.1 :: rest.map Prod.fst) (c.getObject dst)
      else copyTurns B src dst offset size (rest.map Prod.fst) (c.getObject dst)

/-- What a turn leaves. -/
def CopyTurn.after (t : CopyTurn μ σ) (B : Backends μ σ) (src dst : ObjectId)
    (offset size : Nat) : Container μ σ :=
  t.before.rangeCopyOnWriteSegment B src dst t.key t.orig offset size

/-- The loop leaves what its last turn left. -/
theorem rangeCopyLoop_eq_getLastD (keys : List Nat) (offset size : Nat) :
    ∀ c : Container μ σ, rangeCopyLoop B src dst offset size keys c =
      ((copyTurns B src dst offset size keys c).map fun t => t.after B src dst offset size).getLastD
        c := by
  induction keys with
  | nil => exact fun _ => rfl
  | cons key rest ih =>
    intro c
    unfold rangeCopyLoop copyTurns
    cases (c.segments src).find? key with
    | none => rfl
    | some orig =>
      dsimp only
      by_cases hov : orig.overlap offset size = true
      · rw [if_pos hov, if_pos hov, List.map_cons, List.getLastD_cons, ih]
        rfl
      · rw [if_neg hov, if_neg hov]
        rfl

/-- The results of the reads that prepare the destination for a turn. -/
def CopyTurn.reads (t : CopyTurn μ σ) (B : Backends μ σ) (dst : ObjectId) (offset size : Nat) :
    List (Nat × Int) :=
  let inner := innerRange t.orig offset size
  if origPartialOverlap t.orig offset size ||
      localPartialOverlap (t.before.segments dst) t.orig then
    t.before.bufferReads B dst (SizeT.add t.orig.offset inner.1) inner.2 .write true false
  else []

/-- The positions of the destination that a turn gives a byte of the source: those of
the copies it makes, or the whole segment it shares. -/
def CopyTurn.copied (t : CopyTurn μ σ) (B : Backends μ σ) (dst : ObjectId) (offset size : Nat) :
    List Nat :=
  if origPartialOverlap t.orig offset size ||
      localPartialOverlap (t.before.segments dst) t.orig then
    ((rangeCopyCalls B t.before dst t.orig offset size).flatMap (CopyCall.positions t.orig)).map
      Prod.fst
  else List.range' t.orig.offset t.orig.getSize

/-- A read that prepares the destination fails or is short, and a byte that the source
had cached in the range is not copied by the turn that read. -/
def LosesByte (B : Backends μ σ) (c : Container μ σ) (src dst : ObjectId) (allowExist : Bool)
    (offset size : Nat) : Prop :=
  ∃ t ∈ rangeCowTurns B c src dst allowExist offset size, Short (t.reads B dst offset size) ∧
    ∃ x, (offset ≤ x ∧ x < offset + size) ∧ c.cached src x ≠ none ∧ t.orig.Holds x ∧
      x ∉ t.copied B dst offset size

/-- A turn with a failed read copies nothing. -/
theorem CopyTurn.copied_of_short {t : CopyTurn μ σ} {offset size : Nat}
    (h : Short (t.reads B dst offset size)) : t.copied B dst offset size = [] := by
  unfold CopyTurn.reads at h
  unfold CopyTurn.copied
  by_cases hhand : (origPartialOverlap t.orig offset size ||
      localPartialOverlap (t.before.segments dst) t.orig) = true
  · rw [if_pos hhand] at h ⊢
    have hnone := (getBuffers_eq_none_iff ..).mpr h
    unfold rangeCopyCalls
    dsimp only
    rw [hnone]
    rfl
  · rw [if_neg hhand] at h
    exact absurd h not_short_nil

-- ---------------------------------------------------------------------------
-- The source segments keep their ranges
-- ---------------------------------------------------------------------------

/-- The entries of `ts` are segments of the source, by key and range. -/
def StillHeld (c : Container μ σ) (src : ObjectId) (ts : List (Nat × ObjectSegment)) : Prop :=
  ∀ e ∈ ts, ∃ u, c.HasSegment src e.1 u ∧ u.offset = e.2.offset ∧ u.getSize = e.2.getSize

/-- A turn keeps the keys and the ranges of the source. -/
theorem kept_of_turn (h : Wf B 1 c) {key : Nat} {orig : ObjectSegment} (dst : ObjectId)
    (offset size : Nat) (hs : c.HasSegment src key orig) {k : Nat} {u : ObjectSegment}
    (hu : c.HasSegment src k u) :
    ∃ u', (c.rangeCopyOnWriteSegment B src dst key orig offset size).HasSegment src k u' ∧
      u'.offset = u.offset ∧ u'.getSize = u.getSize := by
  by_cases hhand : ByHand c dst orig offset size
  · unfold rangeCopyOnWriteSegment
    rw [if_pos (by simpa [ByHand] using hhand)]
    dsimp only
    obtain ⟨hgrow, -⟩ := getBuffers_spec (A := 1) h.memoryOk (h.layout dst) rfl rfl
      ⟨Nat.one_dvd _, Nat.one_dvd _⟩ (r := c.getBuffers B dst
        (SizeT.add orig.offset (innerRange orig offset size).1) (innerRange orig offset size).2
        .write true false) rfl
    obtain ⟨u', hu', hsame, -⟩ := hgrow.source hu
    exact ⟨u', hu', hsame.offset, hsame.size⟩
  · rw [(shared_of_step (B := B) (h.layout src) hs hhand).1]
    by_cases hnew : src = dst ∧ k = key
    · -- the segment is stored over itself
      obtain ⟨rfl, rfl⟩ := hnew
      obtain rfl := hasSegment_unique hs hu
      exact ⟨orig, hasSegment_storeSegment.mpr (Or.inl ⟨rfl, rfl, rfl⟩), rfl, rfl⟩
    · exact ⟨u, hasSegment_storeSegment.mpr (Or.inr ⟨hnew, hu⟩), rfl, rfl⟩

/-- Each turn visits a segment that meets the range and has the range it had at the
start. -/
theorem turn_of_mem {offset size : Nat} {t : CopyTurn μ σ} {ts : List (Nat × ObjectSegment)} :
    ∀ {c : Container μ σ}, Wf B 1 c → StillHeld c src ts →
      t ∈ copyTurns B src dst offset size (ts.map Prod.fst) c →
      Wf B 1 t.before ∧ t.before.HasSegment src t.key t.orig ∧
        t.orig.overlap offset size = true ∧
        ∃ e ∈ ts, t.orig.offset = e.2.offset ∧ t.orig.getSize = e.2.getSize := by
  induction ts with
  | nil => exact fun _ _ ht => absurd ht List.not_mem_nil
  | cons e rest ih =>
    intro c h hheld ht
    obtain ⟨u, hu, hoff, hsize⟩ := hheld e (List.mem_cons_self ..)
    rw [List.map_cons, copyTurns, OrderedMap.find?_eq_some.mpr hu] at ht
    dsimp only at ht
    by_cases hov : u.overlap offset size = true
    · rw [if_pos hov] at ht
      rcases List.mem_cons.mp ht with rfl | ht
      · exact ⟨h, hu, hov, e, List.mem_cons_self .., hoff, hsize⟩
      · have hheld' : StillHeld (c.rangeCopyOnWriteSegment B src dst e.1 u offset size) src
            rest := by
          intro v hv
          obtain ⟨w, hw, hoff', hsize'⟩ := hheld v (List.mem_cons_of_mem _ hv)
          obtain ⟨w', hw', hoff'', hsize''⟩ := kept_of_turn h dst offset size hu hw
          exact ⟨w', hw', hoff''.trans hoff', hsize''.trans hsize'⟩
        obtain ⟨hwf, hseg, hover, v, hv, hrange⟩ :=
          ih (h.rangeCopyOnWriteSegment hu hov (innerOk_one _ _ _)).1 hheld' ht
        exact ⟨hwf, hseg, hover, v, List.mem_cons_of_mem _ hv, hrange⟩
    · rw [if_neg hov] at ht
      exact absurd ht List.not_mem_nil

/-- A turn of the call: it was not refused, and the segment is one the source had. -/
theorem turn_of_rangeCow (h : Wf B 1 c) {allowExist : Bool} {offset size : Nat}
    {t : CopyTurn μ σ} (ht : t ∈ rangeCowTurns B c src dst allowExist offset size) :
    (c.makeObjectRangeCow B src dst allowExist offset size).1 = true ∧
      Wf B 1 t.before ∧ t.before.HasSegment src t.key t.orig ∧
      t.orig.overlap offset size = true ∧
      ∃ k u, c.HasSegment src k u ∧ t.orig.offset = u.offset ∧ t.orig.getSize = u.getSize := by
  unfold rangeCowTurns at ht
  unfold makeObjectRangeCow
  by_cases hsource : c.hasObject src = false
  · rw [if_pos hsource] at ht
    exact absurd ht List.not_mem_nil
  rw [if_neg hsource] at ht ⊢
  by_cases hdest : c.hasObject dst = true ∧ allowExist = false
  · rw [if_pos hdest] at ht
    exact absurd ht List.not_mem_nil
  rw [if_neg hdest] at ht ⊢
  refine ⟨rfl, ?_⟩
  have hw := h.getObject dst
  have hmem : ∀ e ∈ ((c.getObject dst).segments src).lowerBound offset,
      c.HasSegment src e.1 e.2 := by
    intro e he
    rw [segments_getObject] at he
    exact (OrderedMap.mem_lowerBound.mp he).1
  have hheld : StillHeld (c.getObject dst) src
      (((c.getObject dst).segments src).lowerBound offset) :=
    fun e he => ⟨e.2, (OrderedMap.mem_lowerBound.mp he).1, rfl, rfl⟩
  cases hlb : ((c.getObject dst).segments src).lowerBound offset with
  | nil =>
    rw [hlb] at ht
    exact absurd ht List.not_mem_nil
  | cons e rest =>
    rw [hlb] at ht hheld hmem
    dsimp only at ht
    by_cases hov : e.2.overlap offset size = true
    · rw [if_pos hov] at ht
      obtain ⟨hwf, hseg, hover, v, hv, hrange⟩ := turn_of_mem hw hheld ht
      exact ⟨hwf, hseg, hover, v.1, v.2, hmem v hv, hrange⟩
    · rw [if_neg hov] at ht
      obtain ⟨hwf, hseg, hover, v, hv, hrange⟩ := turn_of_mem hw
        (fun v hv => hheld v (List.mem_cons_of_mem _ hv)) ht
      exact ⟨hwf, hseg, hover, v.1, v.2, hmem v (List.mem_cons_of_mem _ hv), hrange⟩

/-- A segment that overlaps a range holds a byte of it, also when the end of the
range wraps. -/
theorem exists_holds_of_overlap {m : ObjectSegmentMap} {key offset size : Nat} {s : ObjectSegment}
    (hlay : LayoutOk m) (hs : (key, s) ∈ m.entries) (hov : s.overlap offset size = true)
    (hoff : offset < 2 ^ 64) (hpos : 0 < size) (hsize : size < 2 ^ 64) :
    ∃ x, (offset ≤ x ∧ x < offset + size) ∧ s.Holds x := by
  obtain ⟨hlt, hstop⟩ := (hlay.overlap_iff hs offset size).mp hov
  have hspos := hlay.pos hs
  have hend : s.stop = s.offset + s.getSize := rfl
  refine ⟨max s.offset offset, ⟨Nat.le_max_right .., ?_⟩, Nat.le_max_left .., ?_⟩
  · unfold SizeT.add at hlt
    omega
  · omega

/-- **A failed read loses a byte**, in any well-formed state. -/
theorem losesByte_iff (h : Wf B 1 c) {allowExist : Bool} {offset size : Nat}
    (hoff : offset < 2 ^ 64) (hsize : size < 2 ^ 64) :
    LosesByte B c src dst allowExist offset size ↔ 0 < size ∧
      ∃ t ∈ rangeCowTurns B c src dst allowExist offset size,
        Short (t.reads B dst offset size) := by
  constructor
  · rintro ⟨t, ht, hshort, x, hx, -⟩
    exact ⟨by omega, t, ht, hshort⟩
  · rintro ⟨hpos, t, ht, hshort⟩
    obtain ⟨-, hwf, hseg, hov, k, u, hu, ho, hz⟩ := turn_of_rangeCow h ht
    obtain ⟨x, hx, hholds⟩ := exists_holds_of_overlap (hwf.layout src) hseg hov hoff hpos hsize
    refine ⟨t, ht, hshort, x, hx, fun hnone => ?_, hholds, ?_⟩
    · refine cached_eq_none.mp hnone k u hu ?_
      unfold ObjectSegment.Holds ObjectSegment.stop at hholds ⊢
      omega
    · rw [CopyTurn.copied_of_short hshort]
      exact List.not_mem_nil

end Container

namespace Server

open Container

variable {μ σ : Type} {B : Backends μ σ} {s s₀ : Server μ σ} {src dst : ObjectId}
  {offset size : Nat} {allowExist : Bool}

-- ---------------------------------------------------------------------------
-- The answer
-- ---------------------------------------------------------------------------

/-- A range copy that lost a byte returns `false`, and the client gets a status that
is not 0. -/
def Reported (B : Backends μ σ) (s : Server μ σ) (src dst : ObjectId) (allowExist : Bool)
    (offset size : Nat) : Prop :=
  LosesByte B s.container src dst allowExist offset size →
    (s.container.makeObjectRangeCow B src dst allowExist offset size).1 = false ∧
      ∀ status s', s.cow B src dst allowExist offset size = .ok (.ack status, s') → status ≠ 0

/-- **When a failed range copy is reported.** In every reachable state, for every range
and all results of the storage reads: if and only if there is nothing to report, since
the range is empty or no read that prepares the destination fails or is short. -/
theorem failedCow_reported_iff {A : Nat} {check : Bool} (hinit : Initial B A check s₀)
    (hrun : Run (Step B) (fun _ _ => True) s₀ s) (hoff : offset < 2 ^ 64) (hsize : size < 2 ^ 64) :
    Reported B s src dst allowExist offset size ↔ size = 0 ∨
      ∀ t ∈ rangeCowTurns B s.container src dst allowExist offset size,
        ¬ Short (t.reads B dst offset size) := by
  have hwf := wf_run hinit hrun
  unfold Reported
  rw [losesByte_iff hwf hoff hsize]
  constructor
  · intro hreported
    by_cases hpos : 0 < size
    · refine Or.inr fun t ht hshort => ?_
      have htrue := (turn_of_rangeCow hwf ht).1
      exact absurd ((hreported ⟨hpos, t, ht, hshort⟩).1.symm.trans htrue) (by decide)
    · exact Or.inl (by omega)
  · rintro (hzero | hfull) ⟨hpos, t, ht, hshort⟩
    · omega
    · exact absurd hshort (hfull t ht)

/-- One write of object 1, over the first 8 bytes. -/
def firstEight (B : Backends Malloc (ObjectId → Bytes)) : Server Malloc (ObjectId → Bytes) :=
  (localServer 8 0).after B [.eagerWrite ⟨⟨1, 1⟩, 0, 8, fun _ => 7⟩]

/-- On a storage that reads in full, a part of the segment is copied after one read. -/
theorem copiedPart_reported :
    ((rangeCowTurns localBackends (firstEight localBackends).container ⟨1, 1⟩ ⟨1, 2⟩ false 2
      4).map fun t => t.reads localBackends ⟨1, 2⟩ 2 4) = [[(8, 8)]] ∧
    Reported localBackends (firstEight localBackends) ⟨1, 1⟩ ⟨1, 2⟩ false 2 4 :=
  ⟨by decide, (failedCow_reported_iff (initial_localServer 8 0) (run_after .start) (by decide)
    (by decide)).mpr (Or.inr (by decide))⟩

/-- A storage that is gone: nothing is written, and nothing read. -/
def goneStorage : StorageBackend (ObjectId → Bytes) :=
  { noRoom with
    pread := fun s _ buffer _ _ => ⟨0, buffer, s⟩
    disk_pread := rfl
    pread_full := by
      intro s id buffer size offset hfull i hi
      obtain rfl : 0 = size := hfull
      exact absurd hi (Nat.not_lt_zero i) }

/-- The server on it. -/
def goneBackends : Backends Malloc (ObjectId → Bytes) := ⟨Malloc.backend, some goneStorage⟩

/-- **A failed read is not reported**: nothing of the part is copied, and the answer
is 0. -/
theorem cow_hides_failed_read :
    ¬ ∀ (B : Backends Malloc (ObjectId → Bytes)) (s₀ s : Server Malloc (ObjectId → Bytes))
      (src dst : ObjectId) (allowExist : Bool) (offset size : Nat), Initial B 8 false s₀ →
      Run (Step B) (fun _ _ => True) s₀ s → offset < 2 ^ 64 → size < 2 ^ 64 →
      Reported B s src dst allowExist offset size := by
  intro hall
  have hinit : Initial goneBackends 8 false (localServer 8 0) :=
    ⟨_, _, Memory.valid_fresh 0, rfl, rfl⟩
  have hrun : Run (Step goneBackends) (fun _ _ => True) (localServer 8 0)
    (firstEight goneBackends) := run_after .start
  have hloses : LosesByte goneBackends (firstEight goneBackends).container ⟨1, 1⟩
      ⟨1, 2⟩ false 2 4 :=
    (losesByte_iff (wf_run hinit hrun) (by decide) (by decide)).mpr ⟨by decide, by decide⟩
  obtain ⟨-, hstatus⟩ := hall goneBackends _ _ ⟨1, 1⟩ ⟨1, 2⟩ false 2 4 hinit hrun (by decide)
    (by decide) hloses
  exact hstatus 0 _ rfl rfl

end Server

end IoCatcher
