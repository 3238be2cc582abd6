import IoCatcher.Model.Flight

/-!
# IO Catcher — the steps of a range copy

`rangeCopyOnWrite` visits the source segments that meet the range. A segment
that lies in the range, and whose place in the destination is free or exactly
taken, is *shared*; any other one is *copied* by hand into the buffers
`getBuffers` gives for it. This module says what one such step does to the
destination, and what it leaves alone:

* `handCopied_of_step` / `shared_of_step` — the two kinds of steps;
* `SameBeyond` — past the source segment, the layout of the destination is as
  it was, so the steps do not disturb each other;
* `makeObjectRangeCow_copies` — what the call copies, and when it writes over
  the end of a buffer;
* `retained_of_loop` — which segments keep their buffers.
-/

namespace IoCatcher

open Container

variable {μ σ : Type} {B : Backends μ σ} {c c' c'' : Container μ σ} {id src dst : ObjectId}
  {A offset size key : Nat} {orig : ObjectSegment}

/-! ## Shared or copied -/

/-- The place of a segment in a map is free up to the end, or exactly taken. -/
theorem localPartialOverlap_eq_false {m : ObjectSegmentMap} {s : ObjectSegment} (hlay : LayoutOk m)
    (hpos : 0 < s.getSize) : localPartialOverlap m s = false ↔
      (∀ k t, (k, t) ∈ m.entries → t.stop ≤ s.offset) ∨
        ∃ k t, (k, t) ∈ m.entries ∧ t.offset = s.offset ∧ t.getSize = s.getSize := by
  unfold localPartialOverlap
  have hlow : ∀ {k t}, (k, t) ∈ m.entries → s.offset < t.stop → (k, t) ∈ m.lowerBound s.offset := by
    intro k t ht hlt
    have := hlay.key ht
    exact OrderedMap.mem_lowerBound.mpr ⟨ht, by dsimp only; omega⟩
  cases hlb : m.lowerBound s.offset with
  | nil =>
    refine ⟨fun _ => Or.inl fun k t ht => ?_, fun _ => rfl⟩
    by_contra hno
    have := hlow ht (by omega)
    rw [hlb] at this
    exact List.not_mem_nil this
  | cons e rest =>
    have he : e ∈ m.lowerBound s.offset := hlb ▸ List.mem_cons_self ..
    have hmem := (OrderedMap.mem_lowerBound.mp he).1
    have hstop := hlay.stop_of_lowerBound (k := e.1) (s := e.2) he
    simp only [Bool.or_eq_false_iff, decide_eq_false_iff_not, not_not]
    constructor
    · exact fun h => Or.inr ⟨e.1, e.2, hmem, h⟩
    · rintro (hall | ⟨k, t, ht, hoff, hsize⟩)
      · have := hall e.1 e.2 hmem
        omega
      · -- nothing comes before an exact match
        have htl : (k, t) ∈ e :: rest := hlb ▸ hlow ht (by unfold ObjectSegment.stop; omega)
        rcases List.mem_cons.mp htl with rfl | htl
        · exact ⟨hoff, hsize⟩
        · have hlb' : m.lowerBound s.offset = [e] ++ rest := hlb
          have := hlay.stop_le_offset hlb' (List.mem_singleton_self e) htl
          dsimp only at this
          omega

/-- The range contains the whole segment. -/
theorem origPartialOverlap_eq_false {s : ObjectSegment} (hb : s.stop < 2 ^ 64)
    (hnw : offset + size < 2 ^ 64) : origPartialOverlap s offset size = false ↔
      offset ≤ s.offset ∧ s.stop ≤ offset + size := by
  unfold origPartialOverlap
  rw [SizeT.add_eq hnw, SizeT.add_eq hb, Bool.or_eq_false_iff, decide_eq_false_iff_not,
    decide_eq_false_iff_not, Nat.not_lt, Nat.not_lt]
  rfl

/-! ## What stays of a layout -/

/-- The segments of `id` keep their ranges, and those that appeared end at or
before `y`. -/
structure SameBeyond (c c' : Container μ σ) (id : ObjectId) (y : Nat) : Prop where
  kept : ∀ {k u}, c.HasSegment id k u →
    ∃ u', c'.HasSegment id k u' ∧ u'.offset = u.offset ∧ u'.getSize = u.getSize
  old  : ∀ {k u'}, c'.HasSegment id k u' →
    (∃ u, c.HasSegment id k u ∧ u'.offset = u.offset ∧ u'.getSize = u.getSize) ∨ u'.stop ≤ y

theorem SameBeyond.refl (c : Container μ σ) (id : ObjectId) (y : Nat) : SameBeyond c c id y :=
  ⟨fun {_ u} hu => ⟨u, hu, rfl, rfl⟩, fun {_ u} hu => Or.inl ⟨u, hu, rfl, rfl⟩⟩

theorem SameBeyond.of_segments {y : Nat} (h : c'.segments id = c.segments id) :
    SameBeyond c c' id y := by
  have hiff : ∀ {k u}, c'.HasSegment id k u ↔ c.HasSegment id k u := by
    intro k u
    unfold HasSegment
    rw [h]
  exact ⟨fun {_ u} hu => ⟨u, hiff.mpr hu, rfl, rfl⟩,
    fun {_ u} hu => Or.inl ⟨u, hiff.mp hu, rfl, rfl⟩⟩

/-- Past `y` the choice between sharing and copying is the same. -/
theorem SameBeyond.localPartialOverlap {y : Nat} (h : SameBeyond c c' id y)
    (hlay : LayoutOk (c.segments id)) (hlay' : LayoutOk (c'.segments id)) {s : ObjectSegment}
    (hpos : 0 < s.getSize) (hy : y ≤ s.offset) :
    localPartialOverlap (c'.segments id) s = localPartialOverlap (c.segments id) s := by
  rw [Bool.eq_iff_iff, ← not_iff_not, Bool.not_eq_true, Bool.not_eq_true,
    localPartialOverlap_eq_false hlay' hpos, localPartialOverlap_eq_false hlay hpos]
  refine or_congr ⟨fun hall k t ht => ?_, fun hall k t ht => ?_⟩
    ⟨fun hex => ?_, fun hex => ?_⟩
  · obtain ⟨t', ht', ho, hs⟩ := h.kept ht
    have := hall k t' ht'
    unfold ObjectSegment.stop at *
    omega
  · rcases h.old ht with ⟨u, hu, ho, hs⟩ | hle
    · have := hall k u hu
      unfold ObjectSegment.stop at *
      omega
    · omega
  · obtain ⟨k, t, ht, ho, hs⟩ := hex
    rcases h.old ht with ⟨u, hu, ho', hs'⟩ | hle
    · exact ⟨k, u, hu, by omega, by omega⟩
    · unfold ObjectSegment.stop at hle
      omega
  · obtain ⟨k, t, ht, ho, hs⟩ := hex
    obtain ⟨t', ht', ho', hs'⟩ := h.kept ht
    exact ⟨k, t', ht', by omega, by omega⟩

/-- A growth inside a range that ends at or before `y`. -/
theorem sameBeyond_of_grows {g b e y : Nat} {Loaded : Nat → Nat → Prop}
    (hg : Grows B g Loaded c c' id) (hin : AddsInside c c' id b e) (he : e ≤ y) :
    SameBeyond c c' id y := by
  constructor
  · intro k u hu
    obtain ⟨u', hu', hsame⟩ := hg.kept hu
    exact ⟨u', hu', hsame.offset, hsame.size⟩
  · intro k u' hu'
    rcases hin k u' hu' with ⟨u, hu⟩ | ⟨-, hstop⟩
    · obtain ⟨v, hv, hsame⟩ := hg.kept hu
      obtain rfl := hasSegment_unique hv hu'
      exact Or.inl ⟨u, hu, hsame.offset, hsame.size⟩
    · exact Or.inr (hstop.trans he)

/-! ## One step -/

/-- Where the part of the source segment that lies in the range starts. -/
def partLo (orig : ObjectSegment) (offset : Nat) : Nat := max orig.offset offset

/-- Where it ends. -/
def partHi (orig : ObjectSegment) (offset size : Nat) : Nat := min orig.stop (offset + size)

/-- The segment is copied by hand. -/
def ByHand (c : Container μ σ) (dst : ObjectId) (orig : ObjectSegment) (offset size : Nat) : Prop :=
  origPartialOverlap orig offset size = true ∨ localPartialOverlap (c.segments dst) orig = true

/-- A step that copies by hand: the destination grows to hold the part `[lo, hi)`
of the source segment, and the bytes of that segment, wherever it is now, are
copied into the run. -/
structure HandCopied (B : Backends μ σ) (A : Nat) (src dst : ObjectId) (key : Nat)
    (orig : ObjectSegment) (lo hi : Nat) (c c' d : Container μ σ)
    (run : List (Nat × ObjectSegment)) : Prop where
  part   : orig.offset ≤ lo ∧ lo < hi ∧ hi ≤ orig.stop
  grows  : Grows B (grain A) (GapLoaded B lo (hi - lo) true false) c d dst
  inside : AddsInside c d dst (alignedBase A lo) (alignedEnd A lo (hi - lo))
  stop   : alignedEnd A lo (hi - lo) ≤ orig.stop
  result : c' = { d with
    memory := copySegments B.memoryBackend
      (((d.segments src).find? key).getD orig).memory.buffer
      (run.map fun w => w.2.getSegmentDescr) (lo - orig.offset) lo (hi - lo) d.memory }
  run    : Readable B true → Covers d dst (alignedBase A lo) (alignedEnd A lo (hi - lo)) run ∧
    Weaves c dst (alignedBase A lo) (alignedEnd A lo (hi - lo)) run ∧
    ∀ w ∈ run, d.Exclusive dst w.1 w.2.memory.buffer

/-- The buffers of such a step: a run that covers the part and that the destination
owns alone. -/
structure Buffered (A : Nat) (dst : ObjectId) (lo hi : Nat) (c d : Container μ σ)
    (run : List (Nat × ObjectSegment)) : Prop where
  covers    : Covers d dst (alignedBase A lo) (alignedEnd A lo (hi - lo)) run
  weaves    : Weaves c dst (alignedBase A lo) (alignedEnd A lo (hi - lo)) run
  exclusive : ∀ w ∈ run, d.Exclusive dst w.1 w.2.memory.buffer

theorem HandCopied.buffered {lo hi : Nat} {d : Container μ σ} {run : List (Nat × ObjectSegment)}
    (h : HandCopied B A src dst key orig lo hi c c' d run) (hread : Readable B true) :
    Buffered A dst lo hi c d run := by
  obtain ⟨hcov, hweave, hex⟩ := h.run hread
  exact ⟨hcov, hweave, hex⟩

/-- What a step that copies by hand computes. -/
theorem byHand_eq (hs : c.HasSegment src key orig) (hlay : LayoutOk (c.segments src))
    (hnw : offset + size < 2 ^ 64) (h1 : orig.offset < offset + size) (h2 : offset < orig.stop)
    (hhand : ByHand c dst orig offset size) {r : Option (List ObjectSegmentDescr) × Container μ σ}
    (hr : r = c.getBuffers B dst (partLo orig offset)
      (partHi orig offset size - partLo orig offset) .write true false) :
    c.rangeCopyOnWriteSegment B src dst key orig offset size =
      { r.2 with
        memory := copySegments B.memoryBackend
          (((r.2.segments src).find? key).getD orig).memory.buffer
          (r.1.getD []) (partLo orig offset - orig.offset) (partLo orig offset)
          (partHi orig offset size - partLo orig offset) r.2.memory } := by
  obtain ⟨habs, hinner, hend⟩ := innerRange_spec (hlay.bound hs) hnw h1 h2
  have hlen : (innerRange orig offset size).2 = partHi orig offset size - partLo orig offset := by
    unfold partLo partHi
    omega
  unfold Container.rangeCopyOnWriteSegment
  rw [if_pos (by simpa [ByHand] using hhand)]
  dsimp only
  rw [habs, hlen, hinner, hr]
  rfl

/-- A step that copies by hand: `getBuffers` gives no buffer and nothing is copied, or
the run of its buffers. -/
theorem buffered_of_step (h : Wf B (grain A) c) (hfix : FixedAlignement A c)
    (hs : c.HasSegment src key orig) (hnw : offset + size < 2 ^ 64)
    (h1 : orig.offset < offset + size) (h2 : offset < orig.stop) (hsize : 0 < size)
    (hhand : ByHand c dst orig offset size) :
    ∃ d run, HandCopied B A src dst key orig (partLo orig offset) (partHi orig offset size) c
      (c.rangeCopyOnWriteSegment B src dst key orig offset size) d run ∧
      if (c.getBuffers B dst (partLo orig offset) (partHi orig offset size - partLo orig offset)
        .write true false).1 = none then run = []
      else Buffered A dst (partLo orig offset) (partHi orig offset size) c d run := by
  have hb := (h.layout src).bound hs
  have hpos := (h.layout src).pos hs
  have hlo : partLo orig offset < partHi orig offset size := by
    unfold partLo partHi ObjectSegment.stop at *
    omega
  have hstop : alignedEnd A (partLo orig offset) (partHi orig offset size - partLo orig offset) ≤
      orig.stop := by
    refine alignedEnd_le ?_ (Nat.dvd_add (h.aligned src hs).1 (h.aligned src hs).2)
    have : partHi orig offset size ≤ orig.stop := Nat.min_le_left ..
    omega
  have hnw' := Nat.lt_of_le_of_lt hstop hb
  -- the rounded range of the request to the destination
  have hbase : (alignRange (c.object dst).alignement (partLo orig offset)
      (partHi orig offset size - partLo orig offset)).1 = alignedBase A (partLo orig offset) := by
    rw [hfix.object, alignRange_eq hnw']
  have hround : SizeT.add (alignedBase A (partLo orig offset)) (alignRange (c.object dst).alignement
      (partLo orig offset) (partHi orig offset size - partLo orig offset)).2 =
        alignedEnd A (partLo orig offset) (partHi orig offset size - partLo orig offset) := by
    rw [← hbase, hfix.object]
    exact end_alignRange hnw'
  obtain ⟨r, hr⟩ : ∃ r, r = c.getBuffers B dst (partLo orig offset)
    (partHi orig offset size - partLo orig offset) .write true false := ⟨_, rfl⟩
  have hgrid := rangeOk_grain (A := A) hnw'
  unfold RangeOk at hgrid
  rw [end_alignRange hnw', alignRange_eq hnw'] at hgrid
  obtain ⟨hgrow, hin, hnone, hsome⟩ := getBuffers_spec (A := grain A) h.memoryOk (h.layout dst)
    hbase.symm hround.symm hgrid hr
  have hresult := byHand_eq hs (h.layout src) hnw h1 h2 hhand hr
  have hpart : orig.offset ≤ partLo orig offset ∧ partLo orig offset < partHi orig offset size ∧
      partHi orig offset size ≤ orig.stop := ⟨Nat.le_max_left .., hlo, Nat.min_le_left ..⟩
  rw [← hr]
  cases hr1 : r.1 with
  | none =>
    refine ⟨r.2, [], ⟨hpart, hgrow, hin, hstop, ?_, fun hread => absurd hread (hnone hr1).2⟩, ?_⟩
    · rw [hresult, hr1]
      rfl
    · rw [if_pos rfl]
  | some l =>
    obtain ⟨run, rfl, hcov, hweave, hex⟩ := hsome l hr1
    refine ⟨r.2, run, ⟨hpart, hgrow, hin, hstop, ?_, fun _ => ⟨hcov, hweave, hex rfl⟩⟩, ?_⟩
    · rw [hresult, hr1]
      rfl
    · rw [if_neg (by simp)]
      exact ⟨hcov, hweave, hex rfl⟩

theorem handCopied_of_step (h : Wf B (grain A) c) (hfix : FixedAlignement A c)
    (hs : c.HasSegment src key orig) (hnw : offset + size < 2 ^ 64)
    (h1 : orig.offset < offset + size) (h2 : offset < orig.stop) (hsize : 0 < size)
    (hhand : ByHand c dst orig offset size) :
    ∃ d run, HandCopied B A src dst key orig (partLo orig offset) (partHi orig offset size) c
      (c.rangeCopyOnWriteSegment B src dst key orig offset size) d run := by
  obtain ⟨d, run, hcopy, -⟩ := buffered_of_step h hfix hs hnw h1 h2 hsize hhand
  exact ⟨d, run, hcopy⟩

/-- The segment the bytes are read from still is the source segment: on
another buffer, maybe, when the copy is onto the same object. -/
theorem Container.Grows.source {g : Nat} {Loaded : Nat → Nat → Prop} {d : Container μ σ}
    (h : Grows B g Loaded c d dst) (hs : c.HasSegment src key orig) :
    ∃ t, d.HasSegment src key t ∧ SameData c d orig t ∧
      (((d.segments src).find? key).getD orig) = t := by
  have hex : ∃ t, d.HasSegment src key t ∧ SameData c d orig t := by
    by_cases hid : src = dst
    · exact hid ▸ h.kept (hid ▸ hs)
    · exact ⟨orig, (h.hasSegment_other hid).mpr hs, .of_bytes (h.otherBytes hid hs)⟩
  obtain ⟨t, ht, hsame⟩ := hex
  refine ⟨t, ht, hsame, ?_⟩
  rw [OrderedMap.find?_eq_some.mpr ht, Option.getD_some]

/-- A segment that holds a position held before is the one that held it. -/
theorem Container.Grows.kept_range {g : Nat} {Loaded : Nat → Nat → Prop} {d : Container μ σ}
    (h : Grows B g Loaded c d dst) {k x : Nat} {u v : ObjectSegment} (hu : c.HasSegment dst k u)
    (hux : u.Holds x) {k' : Nat} (hv : d.HasSegment dst k' v) (hvx : v.Holds x) :
    k' = k ∧ v.offset = u.offset ∧ v.stop = u.stop := by
  obtain ⟨u', hu', hsame⟩ := h.kept hu
  have hstop : u'.stop = u.stop := by
    unfold ObjectSegment.stop
    rw [hsame.offset, hsame.size]
  have hoff := hsame.offset
  have hx1 := hux.1
  have hx2 := hux.2
  obtain ⟨hk, rfl⟩ := h.layout.eq_of_shared hv hu' hvx.1 hvx.2 (by omega) (by omega)
  exact ⟨hk, hsame.offset, hstop⟩

/-- A step that shares. -/
theorem shared_of_step (hlay : LayoutOk (c.segments src)) (hs : c.HasSegment src key orig)
    (hhand : ¬ ByHand c dst orig offset size) :
    c.rangeCopyOnWriteSegment B src dst key orig offset size = c.storeSegment B dst key orig ∧
      localPartialOverlap (c.segments dst) orig = false := by
  unfold ByHand at hhand
  rw [not_or, Bool.not_eq_true, Bool.not_eq_true] at hhand
  refine ⟨?_, hhand.2⟩
  unfold Container.rangeCopyOnWriteSegment
  rw [if_neg (by simp [hhand]), hlay.cow_key hs]
  rfl

/-- A segment of the destination under the key of a shared one is one of the
same range. -/
theorem sameRange_of_free (hsrc : LayoutOk (c.segments src)) (hdst : LayoutOk (c.segments dst))
    (hs : c.HasSegment src key orig) (hloc : localPartialOverlap (c.segments dst) orig = false)
    {u : ObjectSegment} (hu : c.HasSegment dst key u) :
    u.offset = orig.offset ∧ u.getSize = orig.getSize := by
  have hk := hsrc.key hs
  have hk' := hdst.key hu
  have hpos := hsrc.pos hs
  have hstop : orig.stop = orig.offset + orig.getSize := rfl
  rcases (localPartialOverlap_eq_false hdst hpos).mp hloc with hall | ⟨k, t, ht, hoff, hsize⟩
  · have := hall key u hu
    omega
  · have hkt := hdst.key ht
    have hstop' : t.stop = t.offset + t.getSize := rfl
    obtain rfl : k = key := by omega
    obtain rfl := hasSegment_unique (c := c) ht hu
    exact ⟨hoff, hsize⟩

/-- Past the source segment a step leaves every layout as it was. -/
theorem sameBeyond_of_step (h : Wf B (grain A) c) (hfix : FixedAlignement A c)
    (hs : c.HasSegment src key orig) (hnw : offset + size < 2 ^ 64)
    (h1 : orig.offset < offset + size) (h2 : offset < orig.stop) (hsize : 0 < size)
    (id : ObjectId) :
    SameBeyond c (c.rangeCopyOnWriteSegment B src dst key orig offset size) id orig.stop := by
  by_cases hhand : ByHand c dst orig offset size
  · obtain ⟨d, run, hcopy⟩ := handCopied_of_step h hfix hs hnw h1 h2 hsize hhand
    rw [hcopy.result]
    by_cases hid : id = dst
    · have hgrown := sameBeyond_of_grows hcopy.grows hcopy.inside hcopy.stop
      rw [hid]
      exact ⟨hgrown.kept, hgrown.old⟩
    · exact .of_segments (hcopy.grows.others hid)
  · obtain ⟨heq, hloc⟩ := shared_of_step (B := B) (h.layout src) hs hhand
    rw [heq]
    by_cases hid : id = dst
    · rw [hid]
      constructor
      · intro k u hu
        by_cases hk : k = key
        · rw [hk] at hu ⊢
          obtain ⟨ho, hz⟩ := sameRange_of_free (h.layout src) (h.layout dst) hs hloc hu
          exact ⟨orig, hasSegment_storeSegment.mpr (by simp), ho.symm, hz.symm⟩
        · exact ⟨u, hasSegment_storeSegment.mpr (by simp [hk, hu]), rfl, rfl⟩
      · intro k u' hu'
        rcases hasSegment_storeSegment.mp hu' with ⟨-, -, rfl⟩ | ⟨-, hold⟩
        · exact Or.inr le_rfl
        · exact Or.inl ⟨u', hold, rfl, rfl⟩
    · refine .of_segments ?_
      rw [segments_storeSegment, if_neg hid]

/-! ## Copying by hand -/

theorem Memory.memcpy_eq_write {mb : MemoryBackend μ} {m : Memory μ} {p q : Ptr} {len : Nat}
    (h : m.inBounds mb q len = true) : m.memcpy mb p q len = m.write mb p len (m.read q) := by
  unfold Memory.memcpy
  rw [h]
  rfl

theorem Memory.overruns_le_memcpy (mb : MemoryBackend μ) (m : Memory μ) (p q : Ptr) (len : Nat) :
    m.overruns ≤ (m.memcpy mb p q len).overruns := by
  unfold Memory.memcpy Memory.write
  exact Nat.le_add_right_of_le (Nat.le_add_right ..)

theorem overruns_le_copySegments (mb : MemoryBackend μ) (sbuf : Addr) (l : List ObjectSegmentDescr)
    (i a n : Nat) (m : Memory μ) : m.overruns ≤ (copySegments mb sbuf l i a n m).overruns := by
  induction l generalizing i a n m with
  | nil => exact le_rfl
  | cons it rest ih => exact (Memory.overruns_le_memcpy ..).trans (ih ..)

section Copy

variable {mb : MemoryBackend μ} {sbuf : Addr} {inner lo hi a last len : Nat} {m : Memory μ}
  {run : List (Nat × ObjectSegment)} {w : Nat × ObjectSegment}

theorem copySegments_cons (mb : MemoryBackend μ) (sbuf : Addr) (s : ObjectSegment)
    (rest : List ObjectSegmentDescr) (i a n : Nat) (m : Memory μ) :
    copySegments mb sbuf (s.getSegmentDescr :: rest) i a n m =
      copySegments mb sbuf rest (SizeT.add i (min n s.getSize)) (SizeT.add a (min n s.getSize))
        (SizeT.sub n (min n s.getSize))
        (m.memcpy mb ⟨s.memory.buffer, (SizeT.sub a s.offset : Nat)⟩ ⟨sbuf, i⟩
          (min n s.getSize)) := by
  have hcopy : (if n < s.getSegmentDescr.size then n else s.getSegmentDescr.size) =
      min n s.getSize := by
    rw [ObjectSegment.size_getSegmentDescr]
    split_ifs <;> omega
  rw [copySegments, hcopy, ObjectSegment.ptr_getSegmentDescr, ObjectSegment.offset_getSegmentDescr,
    Ptr.add, Int.zero_add]

/-- One piece of the copy, read inside the source segment. -/
theorem copy_piece (hsrc : mb.chunk m.backend sbuf = some len) (hlen : inner + (hi - lo) ≤ len)
    (hlo : lo ≤ a) {n : Nat} (hn : a + n ≤ hi) {p : Ptr} {data : Bytes}
    (hdata : ∀ j < hi - lo, m.bytes sbuf (inner + j) = data j) :
    m.memcpy mb p ⟨sbuf, (inner + (a - lo) : Nat)⟩ n =
      m.write mb p n fun j => data (a - lo + j) := by
  rw [Memory.memcpy_eq_write (Memory.inBounds_of_chunk hsrc (by omega))]
  refine Memory.write_congr fun j hj => ?_
  rw [← hdata (a - lo + j) (by omega)]
  unfold Memory.read
  congr 1
  dsimp only
  omega

/-- **The copy loop stores the part in the run**, when the run starts where the
part does and none of its segments is the source. -/
theorem copySegments_eq (hhi : hi < 2 ^ 64) (hlen : inner + (hi - lo) ≤ len) (hin : len < 2 ^ 64)
    {data : Bytes} (hsrc : mb.chunk m.backend sbuf = some len) (hlo : lo ≤ a)
    (htiles : Tiles (fun w => w.2.offset) (fun w => w.2.getSize) a run last)
    (hbelow : ∀ w ∈ run, w.2.offset ≤ hi) (hbuf : ∀ w ∈ run, w.2.memory.buffer ≠ sbuf)
    (hdata : ∀ j < hi - lo, m.bytes sbuf (inner + j) = data j) :
    copySegments mb sbuf (run.map fun w => w.2.getSegmentDescr) (inner + (a - lo)) a (hi - a) m =
      storeRun mb data lo (hi - lo) run m := by
  induction run generalizing a m with
  | nil => rfl
  | cons w rest ih =>
    obtain ⟨hoff, hpos, hrest⟩ := htiles
    have hw := hbelow w (List.mem_cons_self ..)
    dsimp only at hoff hpos hrest
    rw [← hoff] at hlo ⊢
    have hstop : w.2.stop = w.2.offset + w.2.getSize := rfl
    have hmax : max w.2.offset lo = w.2.offset := by omega
    have hlen' : min w.2.stop (lo + (hi - lo)) - w.2.offset =
        min (hi - w.2.offset) w.2.getSize := by omega
    have hzero : SizeT.sub w.2.offset w.2.offset = 0 := by
      rw [SizeT.sub_eq le_rfl (by omega), Nat.sub_self]
    have hpiece := copy_piece (a := w.2.offset) (n := min (hi - w.2.offset) w.2.getSize)
      (p := ⟨w.2.memory.buffer, (0 : Nat)⟩) hsrc hlen hlo (by omega) hdata
    rw [List.map_cons, copySegments_cons, storeRun, hmax, hlen', hzero, Nat.sub_self, hpiece]
    cases rest with
    | nil => rfl
    | cons w' rest' =>
      -- a segment follows, so this one was filled to its end
      have hw' := hbelow w' (by simp)
      have hoff' : w'.2.offset = w.2.offset + w.2.getSize := hrest.1
      have hfull : min (hi - w.2.offset) w.2.getSize = w.2.getSize := by omega
      rw [hfull, SizeT.add_eq (by omega), SizeT.add_eq (by omega),
        SizeT.sub_eq (by omega) (by omega), show inner + (w.2.offset - lo) + w.2.getSize =
          inner + (w.2.offset + w.2.getSize - lo) by omega, Nat.sub_sub]
      refine ih hsrc (by omega) hrest (fun v hv => hbelow v (List.mem_cons_of_mem _ hv))
        (fun v hv => hbuf v (List.mem_cons_of_mem _ hv)) fun j hj => ?_
      rw [Memory.bytes_write_other (hbuf w (List.mem_cons_self ..)).symm]
      exact hdata j hj

/-- **The copy loop stores the part in the run**, when the first segment of the run
starts where the part does or contains it. That segment may be the source itself. -/
theorem copySegments_first (hhi : hi < 2 ^ 64) (hlohi : lo < hi)
    (hlen : inner + (hi - lo) ≤ len) (hin : len < 2 ^ 64)
    {data : Bytes} (hsrc : mb.chunk m.backend sbuf = some len)
    (htiles : Tiles (fun w => w.2.offset) (fun w => w.2.getSize) w.2.offset (w :: run) last)
    (hlo : w.2.offset ≤ lo) (hfirst : w.2.offset = lo ∨ hi ≤ w.2.stop)
    (hbelow : ∀ v ∈ run, v.2.offset ≤ hi) (hbuf : ∀ v ∈ run, v.2.memory.buffer ≠ sbuf)
    (hself : w.2.memory.buffer = sbuf → w.2.offset + inner = lo)
    (hdata : ∀ j < hi - lo, m.bytes sbuf (inner + j) = data j) :
    copySegments mb sbuf ((w :: run).map fun w => w.2.getSegmentDescr) inner lo (hi - lo) m =
      storeRun mb data lo (hi - lo) (w :: run) m := by
  obtain ⟨-, hpos, hrest⟩ := htiles
  dsimp only at hpos hrest
  have hstop : w.2.stop = w.2.offset + w.2.getSize := rfl
  have hmax : max w.2.offset lo = lo := by omega
  have hlen' : min w.2.stop (lo + (hi - lo)) - lo = min (hi - lo) w.2.getSize := by omega
  have hpiece := copy_piece (a := lo) (n := min (hi - lo) w.2.getSize)
    (p := ⟨w.2.memory.buffer, (lo - w.2.offset : Nat)⟩) hsrc hlen le_rfl (by omega) hdata
  rw [Nat.sub_self, Nat.add_zero] at hpiece
  rw [List.map_cons, copySegments_cons, storeRun, hmax, hlen', Nat.sub_self,
    SizeT.sub_eq (a := lo) hlo (by omega), hpiece]
  cases run with
  | nil => rfl
  | cons v rest =>
    -- a segment follows, so this one was filled to its end
    have hv := hbelow v (List.mem_cons_self ..)
    have hoff : v.2.offset = w.2.offset + w.2.getSize := hrest.1
    have hfull : min (hi - lo) w.2.getSize = w.2.stop - lo := by omega
    rw [hfull, SizeT.add_eq (by omega), SizeT.add_eq (by omega),
      SizeT.sub_eq (by omega) (by omega), show lo + (w.2.stop - lo) = w.2.stop by omega,
      show hi - lo - (w.2.stop - lo) = hi - w.2.stop by omega]
    refine copySegments_eq hhi hlen hin hsrc (by omega) hrest hbelow hbuf fun j hj => ?_
    by_cases hown : w.2.memory.buffer = sbuf
    · -- the source itself: the bytes were stored where they are read
      have := hself hown
      rw [hown, Memory.bytes_write]
      by_cases hin' : lo - w.2.offset ≤ inner + j ∧
          inner + j < lo - w.2.offset + (w.2.stop - lo)
      · rw [if_pos hin']
        congr 1
        omega
      · rw [if_neg hin']
        exact hdata j hj
    · rw [Memory.bytes_write_other (Ne.symm hown)]
      exact hdata j hj

/-- When the first segment of the run starts before the part and ends inside it,
the copy leaves its buffer. -/
theorem copySegments_overruns (hchunk : mb.chunk m.backend w.2.memory.buffer = some w.2.getSize)
    (hhi : hi < 2 ^ 64) (h1 : w.2.offset < lo) (h2 : w.2.stop < hi) (h3 : lo < w.2.stop) :
    m.overruns < (copySegments mb sbuf ((w :: run).map fun w => w.2.getSegmentDescr) inner lo
      (hi - lo) m).overruns := by
  have hstop : w.2.stop = w.2.offset + w.2.getSize := rfl
  rw [List.map_cons, copySegments_cons]
  refine Nat.lt_of_lt_of_le ?_ (overruns_le_copySegments ..)
  have hout : m.inBounds mb ⟨w.2.memory.buffer, (SizeT.sub lo w.2.offset : Nat)⟩
      (min (hi - lo) w.2.getSize) = false := by
    unfold Memory.inBounds
    rw [hchunk, SizeT.sub_eq (by omega) (by omega)]
    simp only [decide_eq_false_iff_not, not_and]
    omega
  unfold Memory.memcpy Memory.write
  rw [hout]
  dsimp only
  simp only [Bool.false_eq_true, if_false]
  omega

end Copy

/-! ## The first segment of the run -/

/-- The segment of the destination that receives the first byte of the part
`[lo, hi)` starts there, or reaches the end of the part. It is the one that
holds the byte or, where there is none, the one the rounding creates. -/
def Fits (A : Nat) (c : Container μ σ) (dst : ObjectId) (lo hi : Nat) : Prop :=
  (∃ k u, c.HasSegment dst k u ∧ u.Holds lo ∧ (u.offset = lo ∨ hi ≤ u.stop)) ∨
    (∀ k u, c.HasSegment dst k u → ¬ u.Holds lo) ∧
      (alignedBase A lo = lo ∨ ∀ k u, c.HasSegment dst k u → ¬ (lo < u.offset ∧ u.offset < hi))

/-- Whether a part fits does not depend on what happened before it. -/
theorem SameBeyond.fits_iff {y lo hi : Nat} (h : SameBeyond c c' id y) (hy : y ≤ lo) :
    Fits A c' id lo hi ↔ Fits A c id lo hi := by
  have hholds : ∀ {u u' : ObjectSegment}, u'.offset = u.offset → u'.getSize = u.getSize →
      u'.stop = u.stop ∧ (u'.Holds lo ↔ u.Holds lo) := by
    intro u u' ho hs
    unfold ObjectSegment.Holds ObjectSegment.stop
    rw [ho, hs]
    exact ⟨rfl, Iff.rfl⟩
  refine or_congr ⟨?_, ?_⟩ (and_congr ⟨?_, ?_⟩ (or_congr Iff.rfl ⟨?_, ?_⟩))
  · rintro ⟨k, u', hu', hx, hfit⟩
    rcases h.old hu' with ⟨u, hu, ho, hs⟩ | hle
    · obtain ⟨hstop, hiff⟩ := hholds ho hs
      exact ⟨k, u, hu, hiff.mp hx, by rwa [← ho, ← hstop]⟩
    · exact absurd hx.2 (by omega)
  · rintro ⟨k, u, hu, hx, hfit⟩
    obtain ⟨u', hu', ho, hs⟩ := h.kept hu
    obtain ⟨hstop, hiff⟩ := hholds ho hs
    exact ⟨k, u', hu', hiff.mpr hx, by rwa [ho, hstop]⟩
  · intro hall k u hu hx
    obtain ⟨u', hu', ho, hs⟩ := h.kept hu
    exact hall k u' hu' ((hholds ho hs).2.mpr hx)
  · intro hall k u' hu' hx
    rcases h.old hu' with ⟨u, hu, ho, hs⟩ | hle
    · exact hall k u hu ((hholds ho hs).2.mp hx)
    · exact absurd hx.2 (by omega)
  · intro hall k u hu hin
    obtain ⟨u', hu', ho, hs⟩ := h.kept hu
    exact hall k u' hu' (by rwa [ho])
  · intro hall k u' hu' hin
    rcases h.old hu' with ⟨u, hu, ho, hs⟩ | hle
    · exact hall k u hu (by rwa [← ho])
    · have hstop : u'.stop = u'.offset + u'.getSize := rfl
      omega

section Hand

variable {lo hi : Nat} {d : Container μ σ} {run : List (Nat × ObjectSegment)}

/-- The segments of the run meet the part itself, and the first one holds its
first byte. -/
theorem HandCopied.head (h : HandCopied B A src dst key orig lo hi c c' d run)
    (hal : Aligned (grain A) (d.segments dst)) (hbuf : Buffered A dst lo hi c d run) :
    (∀ v ∈ run, v.2.offset < hi ∧ lo < v.2.stop) ∧ ∃ w rest, run = w :: rest ∧ w.2.Holds lo := by
  have hcov := hbuf.covers
  have hmeets : ∀ v ∈ run, v.2.offset < hi ∧ lo < v.2.stop := by
    intro v hv
    have hheld := hcov.held v hv
    have := meets_of_aligned (hal hheld).1 (hal hheld).2 (hcov.meets v hv).1 (hcov.meets v hv).2
    have := h.part
    omega
  refine ⟨hmeets, ?_⟩
  obtain ⟨start, last, hstart, hlast, htiles⟩ := hcov.tiles
  have hb := alignedBase_le A lo
  have he := le_alignedEnd A lo (hi - lo)
  have hpart := h.part
  cases run with
  | nil =>
    have : start = last := htiles
    omega
  | cons w rest =>
    refine ⟨w, rest, rfl, ?_, (hmeets w (List.mem_cons_self ..)).2⟩
    have : w.2.offset = start := htiles.1
    omega

/-- A new first segment ends where the next segment of the destination starts. -/
theorem HandCopied.stop_lt_iff {w : Nat × ObjectSegment} {rest : List (Nat × ObjectSegment)}
    (h : HandCopied B A src dst key orig lo hi c c' d (w :: rest))
    (hbuf : Buffered A dst lo hi c d (w :: rest)) (hlay : LayoutOk (c.segments dst))
    (hlo : w.2.Holds lo) (hnew : ∀ s, ¬ c.HasSegment dst w.1 s) :
    w.2.stop < hi ↔ ∃ k u, c.HasSegment dst k u ∧ lo < u.offset ∧ u.offset < hi := by
  obtain ⟨hcov, hweave, -⟩ := hbuf
  have hwd := hcov.held w (List.mem_cons_self ..)
  have hpart := h.part
  have hlo1 := hlo.1
  have hlo2 := hlo.2
  have he := le_alignedEnd A lo (hi - lo)
  have hb := alignedBase_le A lo
  obtain ⟨start, last, hstart, hlast, hoff, -, htiles⟩ := hcov.tiles
  dsimp only at hoff htiles
  have hstop : w.2.stop = w.2.offset + w.2.getSize := rfl
  constructor
  · intro hlt
    obtain ⟨v, hv, hv1, hv2⟩ := htiles.exists_mem (x := w.2.stop) (by omega) (by omega)
    have hv3 := (htiles.mem_bounds hv).1
    rcases hweave.new v (List.mem_cons_of_mem _ hv) with ⟨u, hu⟩ | ⟨-, -, hat | ⟨k, u, hu, -, hat⟩⟩
    · obtain ⟨u', hu', hsame⟩ := h.grows.kept hu
      obtain rfl := hasSegment_unique hu' (hcov.held v (List.mem_cons_of_mem _ hv))
      have := hsame.offset
      exact ⟨_, u, hu, by omega, by omega⟩
    · omega
    · -- the segment before the next one is the first one, and it is new
      have hpos := hlay.pos hu
      have hu' : u.stop = u.offset + u.getSize := rfl
      obtain ⟨hk, -, -⟩ := h.grows.kept_range (x := w.2.stop - 1) hu ⟨by omega, by omega⟩ hwd
        ⟨by omega, by omega⟩
      exact absurd (hk ▸ hu) (hnew u)
  · rintro ⟨k, u, hu, h1, h2⟩
    have hpos := hlay.pos hu
    have hu' : u.stop = u.offset + u.getSize := rfl
    by_contra hge
    obtain ⟨-, ho, -⟩ := h.grows.kept_range (x := u.offset) hu ⟨by omega, by omega⟩ hwd
      ⟨by omega, by omega⟩
    omega

/-- **When a part fits**, in terms of the run. -/
theorem HandCopied.fits_iff {w : Nat × ObjectSegment} {rest : List (Nat × ObjectSegment)}
    (h : HandCopied B A src dst key orig lo hi c c' d (w :: rest))
    (hbuf : Buffered A dst lo hi c d (w :: rest)) (hlay : LayoutOk (c.segments dst))
    (hlo : w.2.Holds lo) : Fits A c dst lo hi ↔ w.2.offset = lo ∨ hi ≤ w.2.stop := by
  have hcov := hbuf.covers
  have hweave := hbuf.weaves
  have hw : w ∈ w :: rest := List.mem_cons_self ..
  have hwd := hcov.held w hw
  by_cases hex : ∃ k u, c.HasSegment dst k u ∧ u.Holds lo
  · -- the segment that holds the first byte is the first of the run
    obtain ⟨k, u, hu, hux⟩ := hex
    obtain ⟨-, ho, hs⟩ := h.grows.kept_range hu hux hwd hlo
    rw [ho, hs]
    constructor
    · rintro (⟨k', u', hu', hux', hfit⟩ | ⟨hno, -⟩)
      · obtain ⟨-, ho', hs'⟩ := h.grows.kept_range hu' hux' hwd hlo
        rwa [← ho, ← hs, ho', hs']
      · exact absurd hux (hno k u hu)
    · exact fun hfit => Or.inl ⟨k, u, hu, hux, hfit⟩
  · have hno : ∀ k u, c.HasSegment dst k u → ¬ u.Holds lo := fun k u hu hux => hex ⟨k, u, hu, hux⟩
    have hnew : ∀ s, ¬ c.HasSegment dst w.1 s := by
      intro s hs
      obtain ⟨s', hs', hsame⟩ := h.grows.kept hs
      obtain rfl := hasSegment_unique hs' hwd
      refine hno _ s hs ?_
      unfold ObjectSegment.Holds ObjectSegment.stop at hlo ⊢
      rwa [← hsame.offset, ← hsame.size]
    obtain ⟨start, last, hstart, hlast, htiles⟩ := hcov.tiles
    have hoff : w.2.offset = start := htiles.1
    have hbase : w.2.offset = alignedBase A lo := by
      rcases hweave.new w hw with ⟨s, hs⟩ | ⟨hb, -, -⟩
      · exact absurd hs (hnew s)
      · omega
    have hstop := h.stop_lt_iff hbuf hlay hlo hnew
    unfold Fits
    rw [hbase]
    constructor
    · rintro (⟨k', u', hu', hux', -⟩ | ⟨-, hfit | hfit⟩)
      · exact absurd hux' (hno k' u' hu')
      · exact Or.inl hfit
      · refine Or.inr (Nat.le_of_not_lt fun hlt => ?_)
        obtain ⟨k, u, hu, hin⟩ := hstop.mp hlt
        exact hfit k u hu hin
    · refine fun hfit => Or.inr ⟨hno, hfit.imp_right fun hle k u hu hin => ?_⟩
      exact absurd (hstop.mpr ⟨k, u, hu, hin⟩) (by omega)

/-- The bytes of the source segment are stored in the run. -/
theorem stored_copySegments {g b e : Nat} {Loaded : Nat → Nat → Prop} {w : Nat × ObjectSegment}
    {rest : List (Nat × ObjectSegment)} (hgrow : Grows B g Loaded c d dst)
    (hs : c.HasSegment src key orig) (hb : orig.stop < 2 ^ 64)
    (hpart : orig.offset ≤ lo ∧ lo < hi ∧ hi ≤ orig.stop)
    (hcov : Covers d dst b e (w :: rest))
    (hex : ∀ v ∈ w :: rest, d.Exclusive dst v.1 v.2.memory.buffer) (hlo : w.2.Holds lo)
    (hfirst : w.2.offset = lo ∨ hi ≤ w.2.stop) (hbelow : ∀ v ∈ rest, v.2.offset ≤ hi)
    {t : ObjectSegment} (ht : d.HasSegment src key t) (hsame : SameData c d orig t) :
    Stored d.memory
      (copySegments B.memoryBackend t.memory.buffer ((w :: rest).map fun v => v.2.getSegmentDescr)
        (lo - orig.offset) lo (hi - lo) d.memory)
      (fun j => d.memory.bytes t.memory.buffer (lo - orig.offset + j)) lo (hi - lo)
      (w :: rest) := by
  obtain ⟨start, last, hstart, hlast, htiles⟩ := hcov.tiles
  have hwd := hcov.held w (List.mem_cons_self ..)
  have hlo1 := hlo.1
  have hlo2 := hlo.2
  have hstop : orig.stop = orig.offset + orig.getSize := rfl
  have hwstop : w.2.stop = w.2.offset + w.2.getSize := rfl
  have hafter : ∀ v ∈ rest, w.2.stop ≤ v.2.offset := fun v hv => (htiles.2.2.mem_bounds hv).1
  have hchunk : B.memoryBackend.chunk d.memory.backend t.memory.buffer = some orig.getSize := by
    rw [← hsame.size]
    exact hgrow.memoryOk.chunk ht
  -- a segment of the run on the buffer of the source is the source, and the first one
  have hsource : ∀ v ∈ w :: rest, v.2.memory.buffer = t.memory.buffer →
      v.2.offset = orig.offset ∧ v = w := by
    intro v hv hbuf
    obtain ⟨rfl, hk⟩ := hex v hv src key t ht hbuf.symm
    obtain ⟨hk', -, -⟩ := hgrow.kept_range (x := lo) hs ⟨hpart.1, by omega⟩ hwd hlo
    have hvd := hcov.held v hv
    rw [← hk] at hvd
    rw [hk'] at hwd
    exact ⟨(hasSegment_unique hvd ht).symm ▸ hsame.offset,
      Prod.ext (hk.symm.trans hk'.symm) (hasSegment_unique hvd hwd)⟩
  have hstart' : w.2.offset = start := htiles.1
  have hlen : lo - orig.offset + (hi - lo) ≤ orig.getSize := by omega
  have hcopy := copySegments_first (by omega) hpart.2.1 hlen (by omega)
    hchunk (hstart' ▸ htiles) hlo1 hfirst hbelow (fun v hv hbuf => ?_) (fun hbuf => ?_)
    fun _ _ => rfl
  · rw [hcopy]
    refine stored_storeRun (hcov.distinct hex) fun v hv =>
      ⟨?_, hgrow.memoryOk.chunk (hcov.held v hv)⟩
    have hvstop : v.2.stop = v.2.offset + v.2.getSize := rfl
    rcases List.mem_cons.mp hv with rfl | hv
    · exact hlo2.le
    · have := hafter v hv
      omega
  · -- it starts at or after the end of the first one
    have := hafter v hv
    rw [(hsource v (List.mem_cons_of_mem _ hv) hbuf).2] at this
    omega
  · have := (hsource w (List.mem_cons_self ..) hbuf).1
    omega

theorem HandCopied.stored (h : HandCopied B A src dst key orig lo hi c c' d run)
    (hw : Wf B (grain A) c) (hs : c.HasSegment src key orig)
    (hbuf : Buffered A dst lo hi c d run) (hfit : Fits A c dst lo hi) {t : ObjectSegment}
    (ht : d.HasSegment src key t) (hsame : SameData c d orig t) (hfind : ((d.segments src).find? key).getD orig = t) :
    ∃ m, c' = { d with memory := m } ∧
      Stored d.memory m (fun j => d.memory.bytes t.memory.buffer (lo - orig.offset + j)) lo
        (hi - lo) run := by
  refine ⟨_, h.result, ?_⟩
  rw [hfind]
  obtain ⟨hmeets, w, rest, rfl, hlo⟩ := h.head (h.grows.aligned (hw.aligned dst)) hbuf
  exact stored_copySegments h.grows hs ((hw.layout src).bound hs) h.part hbuf.covers
    hbuf.exclusive hlo ((h.fits_iff hbuf (hw.layout dst) hlo).mp hfit)
    (fun v hv => (hmeets v (List.mem_cons_of_mem _ hv)).1.le) ht hsame

/-- A part that does not fit is copied over the end of a buffer. -/
theorem HandCopied.overruns (h : HandCopied B A src dst key orig lo hi c c' d run)
    (hw : Wf B (grain A) c) (hs : c.HasSegment src key orig) (hread : Readable B true)
    (hfit : ¬ Fits A c dst lo hi) : c.memory.overruns < c'.memory.overruns := by
  have hbuf := h.buffered hread
  obtain ⟨hmeets, w, rest, rfl, hlo⟩ := h.head (h.grows.aligned (hw.aligned dst)) hbuf
  rw [h.fits_iff hbuf (hw.layout dst) hlo, not_or] at hfit
  have hlo1 := hlo.1
  have hb := (hw.layout src).bound hs
  have hpart := h.part
  rw [h.result, ← h.grows.overrun]
  exact copySegments_overruns (h.grows.memoryOk.chunk
    (hbuf.covers.held w (List.mem_cons_self ..))) (by omega) (by omega) (by omega) hlo.2

end Hand

/-! ## What a step does to the content -/

/-- The positions `P` of the destination have the content the source had; no
other content changed, and no copy left its buffer. -/
structure Copies (B : Backends μ σ) (src dst : ObjectId) (P : Nat → Prop) (c c' : Container μ σ) :
    Prop where
  inside  : ∀ {x}, P x → c'.content B dst x = c.content B src x
  outside : ∀ {id x}, ¬ (id = dst ∧ P x) → c'.content B id x = c.content B id x
  overrun : c'.memory.overruns = c.memory.overruns

/-- Copies of different positions add up. -/
theorem Copies.trans {P Q R : Nat → Prop} (h : Copies B src dst P c c')
    (h' : Copies B src dst Q c' c'') (hdisj : ∀ {x}, Q x → ¬ P x) (hR : ∀ {x}, R x ↔ P x ∨ Q x) :
    Copies B src dst R c c'' := by
  refine ⟨fun {x} hx => ?_, fun {id x} hx => ?_, h'.overrun.trans h.overrun⟩
  · by_cases hq : Q x
    · rw [h'.inside hq, h.outside fun hin => hdisj hq hin.2]
    · rw [h'.outside fun hin => hq hin.2, h.inside ((hR.mp hx).resolve_right hq)]
  · rw [h'.outside fun hin => hx ⟨hin.1, hR.mpr (Or.inr hin.2)⟩,
      h.outside fun hin => hx ⟨hin.1, hR.mpr (Or.inl hin.2)⟩]

theorem readable_of_reliable {sb : StorageBackend σ} (hsb : B.storageBackend = some sb)
    (hrel : sb.Reliable) (acceptLoadFail : Bool) : Readable B acceptLoadFail :=
  ⟨sb, hsb, Or.inr hrel⟩

/-- What a part that is copied by hand and fits leaves in the cache. -/
theorem HandCopied.cached {lo hi : Nat} {d : Container μ σ} {run : List (Nat × ObjectSegment)}
    (h : HandCopied B A src dst key orig lo hi c c' d run) (hw : Wf B (grain A) c)
    (hs : c.HasSegment src key orig) (hbuf : Buffered A dst lo hi c d run)
    (hfit : Fits A c dst lo hi) {x : Nat} :
    (lo ≤ x ∧ x < hi → c'.cached dst x = c.cached src x) ∧
      ∀ {id}, ¬ (id = dst ∧ lo ≤ x ∧ x < hi) → c'.cached id x = d.cached id x := by
  obtain ⟨t, ht, hsame, hfind⟩ := h.grows.source hs
  obtain ⟨m, rfl, hst⟩ := h.stored hw hs hbuf hfit ht hsame hfind
  have howned : Owned d dst run := .of_held hbuf.covers.held hbuf.exclusive
  have hpart := h.part
  have hstop : orig.stop = orig.offset + orig.getSize := rfl
  refine ⟨fun ⟨h1, h2⟩ => ?_, fun hx => ?_⟩
  · obtain ⟨start, last, hstart, hlast, htiles⟩ := hbuf.covers.tiles
    have hb := alignedBase_le A lo
    have he := le_alignedEnd A lo (hi - lo)
    obtain ⟨v, hv, hv1, hv2⟩ := htiles.exists_mem (x := x) (by omega) (by omega)
    rw [howned.cached_inside hst h.grows.layout ⟨h1, by omega⟩ hv ⟨hv1, hv2⟩,
      cached_of_segment (hw.layout src) hs ⟨by omega, by omega⟩, ← hsame.bytes _ (by omega)]
    congr 2
    omega
  · exact howned.cached_outside hst fun hin => hx ⟨hin.1, hin.2.1, by omega⟩

theorem HandCopied.copies {lo hi : Nat} {d : Container μ σ} {run : List (Nat × ObjectSegment)}
    (h : HandCopied B A src dst key orig lo hi c c' d run) (hw : Wf B (grain A) c)
    (hs : c.HasSegment src key orig) (hread : ∀ acceptLoadFail, Readable B acceptLoadFail)
    (hfit : Fits A c dst lo hi) : Copies B src dst (fun x => lo ≤ x ∧ x < hi) c c' := by
  have hbuf := h.buffered (hread true)
  have hpart := h.part
  have hgrown : ∀ {id x}, d.content B id x = c.content B id x :=
    h.grows.content (hw.layout dst) fun _ _ => ⟨rfl, hread false, fun hno => by simp at hno⟩
  have hdisk : c'.disk B = d.disk B := by
    rw [h.result]
    rfl
  refine ⟨fun {x} hx => ?_, fun {id x} hx => ?_, ?_⟩
  · have hcached := (h.cached hw hs hbuf hfit).1 hx
    have hin : orig.Holds x := ⟨by omega, by omega⟩
    rw [cached_of_segment (hw.layout src) hs hin] at hcached
    rw [content_of_segment (hw.layout src) hs hin, content, hcached, Option.getD_some]
  · rw [content, hdisk, (h.cached hw hs hbuf hfit).2 hx, ← hgrown]
    rfl
  · obtain ⟨t, ht, hsame, hfind⟩ := h.grows.source hs
    obtain ⟨m, rfl, hst⟩ := h.stored hw hs hbuf hfit ht hsame hfind
    exact hst.overrun.trans h.grows.overrun

/-- A shared segment replaces one of its range, if any: the other cached bytes stay. -/
theorem cached_of_shared (h : Wf B (grain A) c) (hs : c.HasSegment src key orig)
    (hloc : localPartialOverlap (c.segments dst) orig = false) {x : Nat} :
    (orig.Holds x → (c.storeSegment B dst key orig).cached dst x = c.cached src x) ∧
      ∀ {id}, ¬ (id = dst ∧ orig.Holds x) →
        (c.storeSegment B dst key orig).cached id x = c.cached id x := by
  have hw' := h.makeCowOf hs hloc
  rw [makeCowOf_eq] at hw'
  refine ⟨fun hx => ?_, fun {id} hx => ?_⟩
  · rw [cached_of_segment (hw'.layout dst)
      (hasSegment_storeSegment.mpr (Or.inl ⟨rfl, rfl, rfl⟩)) hx,
      cached_of_segment (h.layout src) hs hx, bytes_storeSegment]
  · by_cases hid : id = dst
    · subst hid
      -- the segment that was replaced does not hold the position either
      cases hc : c.cached id x with
      | some v =>
        obtain ⟨k, u, hu, hux, rfl⟩ := (cached_eq_some (h.layout id)).mp hc
        have hk : k ≠ key := by
          rintro rfl
          obtain ⟨ho, hz⟩ := sameRange_of_free (h.layout src) (h.layout id) hs hloc hu
          unfold ObjectSegment.Holds ObjectSegment.stop at hux hx
          exact hx ⟨rfl, by omega, by omega⟩
        rw [cached_of_segment (hw'.layout id)
          (hasSegment_storeSegment.mpr (Or.inr ⟨fun hno => hk hno.2, hu⟩)) hux, bytes_storeSegment]
      | none =>
        refine cached_eq_none.mpr fun k u hu hux => ?_
        rcases hasSegment_storeSegment.mp hu with ⟨-, -, rfl⟩ | ⟨-, hold⟩
        · exact hx ⟨rfl, hux⟩
        · exact cached_eq_none.mp hc k u hold hux
    · refine cached_congr ?_ fun _ => by rw [bytes_storeSegment]
      rw [segments_storeSegment, if_neg hid]

theorem copies_of_shared (h : Wf B (grain A) c) (hs : c.HasSegment src key orig)
    (hloc : localPartialOverlap (c.segments dst) orig = false) :
    Copies B src dst orig.Holds c (c.storeSegment B dst key orig) := by
  have hdisk : (c.storeSegment B dst key orig).disk B = c.disk B :=
    disk_of_storage (storage_storeSegment ..)
  refine ⟨fun {x} hx => ?_, fun {id x} hx => ?_, overrun_storeSegment ..⟩
  · have hcached := (cached_of_shared (B := B) h hs hloc).1 hx
    rw [cached_of_segment (h.layout src) hs hx] at hcached
    rw [content_of_segment (h.layout src) hs hx, content, hcached, Option.getD_some]
  · rw [content, hdisk, (cached_of_shared (B := B) h hs hloc).2 hx, content]

/-- The positions of the range that a segment holds. -/
def ObjectSegment.HoldsPart (s : ObjectSegment) (offset size x : Nat) : Prop :=
  s.Holds x ∧ offset ≤ x ∧ x < offset + size

theorem holdsPart_iff_part {x : Nat} : orig.HoldsPart offset size x ↔
    partLo orig offset ≤ x ∧ x < partHi orig offset size := by
  unfold partLo partHi ObjectSegment.HoldsPart ObjectSegment.Holds
  omega

/-- A segment that is shared lies in the range. -/
theorem holdsPart_iff_holds (hb : orig.stop < 2 ^ 64) (hnw : offset + size < 2 ^ 64)
    (hhand : ¬ ByHand c dst orig offset size) {x : Nat} :
    orig.HoldsPart offset size x ↔ orig.Holds x := by
  have hwhole : offset ≤ orig.offset ∧ orig.stop ≤ offset + size :=
    (origPartialOverlap_eq_false hb hnw).mp
      (Bool.eq_false_iff.mpr fun hno => hhand (Or.inl hno))
  unfold ObjectSegment.HoldsPart ObjectSegment.Holds
  omega

section Step

variable (h : Wf B (grain A) c) (hfix : FixedAlignement A c) (hs : c.HasSegment src key orig)
  (hnw : offset + size < 2 ^ 64) (h1 : orig.offset < offset + size) (h2 : offset < orig.stop)
  (hsize : 0 < size) (hread : ∀ acceptLoadFail, Readable B acceptLoadFail)

include h hfix hs hnw h1 h2 hsize hread

/-- **One step copies its part of the range**, unless the part is copied by hand
and does not fit. -/
theorem copies_of_step (hfit : ByHand c dst orig offset size →
      Fits A c dst (partLo orig offset) (partHi orig offset size)) :
    Copies B src dst (orig.HoldsPart offset size) c
      (c.rangeCopyOnWriteSegment B src dst key orig offset size) := by
  by_cases hhand : ByHand c dst orig offset size
  · obtain ⟨d, run, hcopy⟩ := handCopied_of_step h hfix hs hnw h1 h2 hsize hhand
    have := hcopy.copies h hs hread (hfit hhand)
    rwa [funext fun x => propext holdsPart_iff_part.symm] at this
  · obtain ⟨heq, hloc⟩ := shared_of_step (B := B) (h.layout src) hs hhand
    have hall : orig.HoldsPart offset size = orig.Holds :=
      funext fun x => propext (holdsPart_iff_holds ((h.layout src).bound hs) hnw hhand)
    rw [heq, hall]
    exact copies_of_shared h hs hloc

theorem overruns_of_step (hhand : ByHand c dst orig offset size)
    (hfit : ¬ Fits A c dst (partLo orig offset) (partHi orig offset size)) :
    c.memory.overruns <
      (c.rangeCopyOnWriteSegment B src dst key orig offset size).memory.overruns := by
  obtain ⟨d, run, hcopy⟩ := handCopied_of_step h hfix hs hnw h1 h2 hsize hhand
  exact hcopy.overruns h hs (hread true) hfit

end Step

/-! ## The loop -/

/-- The source segments a loop visits, by key and range: they are in the map, in
order, and none ends before the range. -/
structure Visits (c : Container μ σ) (src : ObjectId) (offset : Nat)
    (ts : List (Nat × ObjectSegment)) : Prop where
  held   : ∀ e ∈ ts, ∃ u, c.HasSegment src e.1 u ∧ u.offset = e.2.offset ∧ u.getSize = e.2.getSize
  after  : ∀ e ∈ ts, offset < e.2.stop
  sorted : ts.Pairwise fun e e' => e.2.stop ≤ e'.2.offset

theorem visits_lowerBound (h : LayoutOk (c.segments src)) (offset : Nat) :
    Visits c src offset ((c.segments src).lowerBound offset) := by
  refine ⟨fun e he => ⟨e.2, (OrderedMap.mem_lowerBound.mp he).1, rfl, rfl⟩, fun e he => ?_, ?_⟩
  · exact h.stop_of_lowerBound (k := e.1) (s := e.2) he
  · exact h.pairwise.sublist List.filter_sublist

/-- A step leaves the later segments for the later steps. -/
theorem Visits.tail {e : Nat × ObjectSegment} {ts : List (Nat × ObjectSegment)}
    (h : Visits c src offset (e :: ts)) {y : Nat} (hsame : SameBeyond c c' src y) :
    Visits c' src offset ts := by
  refine ⟨fun v hv => ?_, fun v hv => h.after v (List.mem_cons_of_mem _ hv),
    (List.pairwise_cons.mp h.sorted).2⟩
  obtain ⟨u, hu, ho, hz⟩ := h.held v (List.mem_cons_of_mem _ hv)
  obtain ⟨u', hu', ho', hz'⟩ := hsame.kept hu
  exact ⟨u', hu', ho'.trans ho, hz'.trans hz⟩

/-- Every part that is copied by hand fits. -/
def AllFit (A : Nat) (c : Container μ σ) (dst : ObjectId) (offset size : Nat)
    (ts : List (Nat × ObjectSegment)) : Prop :=
  ∀ e ∈ ts, e.2.offset < offset + size → ByHand c dst e.2 offset size →
    Fits A c dst (partLo e.2 offset) (partHi e.2 offset size)

/-- What is said about a segment depends on its range only. -/
theorem byHand_congr {s t : ObjectSegment} (ho : s.offset = t.offset) (hz : s.getSize = t.getSize) :
    ByHand c dst s offset size ↔ ByHand c dst t offset size := by
  unfold ByHand origPartialOverlap localPartialOverlap
  rw [ho, hz]

theorem part_congr {s t : ObjectSegment} (offset size : Nat) (ho : s.offset = t.offset)
    (hz : s.getSize = t.getSize) :
    s.stop = t.stop ∧ partLo s offset = partLo t offset ∧
      partHi s offset size = partHi t offset size ∧
      s.HoldsPart offset size = t.HoldsPart offset size := by
  have hstop : s.stop = t.stop := by
    unfold ObjectSegment.stop
    rw [ho, hz]
  refine ⟨hstop, by rw [partLo, ho, partLo], by rw [partHi, hstop, partHi], ?_⟩
  funext x
  unfold ObjectSegment.HoldsPart ObjectSegment.Holds
  rw [ho, hstop]

/-- The first turn of the loop. -/
theorem rangeCopyLoop_cons {e : Nat × ObjectSegment} {ts : List (Nat × ObjectSegment)}
    (hlay : LayoutOk (c.segments src)) (hnw : offset + size < 2 ^ 64)
    (hv : Visits c src offset (e :: ts)) :
    ∃ u, c.HasSegment src e.1 u ∧ u.offset = e.2.offset ∧ u.getSize = e.2.getSize ∧
      rangeCopyLoop B src dst offset size ((e :: ts).map Prod.fst) c =
        if e.2.offset < offset + size then
          rangeCopyLoop B src dst offset size (ts.map Prod.fst)
            (c.rangeCopyOnWriteSegment B src dst e.1 u offset size)
        else c := by
  obtain ⟨u, hu, ho, hz⟩ := hv.held e (List.mem_cons_self ..)
  refine ⟨u, hu, ho, hz, ?_⟩
  have hafter := hv.after e (List.mem_cons_self ..)
  have hstop := (part_congr offset size ho hz).1
  rw [List.map_cons, rangeCopyLoop, OrderedMap.find?_eq_some.mpr hu]
  dsimp only
  by_cases hlt : e.2.offset < offset + size
  · rw [if_pos hlt, if_pos]
    rw [hlay.overlap_iff hu, SizeT.add_eq hnw]
    omega
  · rw [if_neg hlt, if_neg]
    rw [hlay.overlap_iff hu, SizeT.add_eq hnw]
    omega

/-- The range copy is one loop over the source segments from `lower_bound` on. -/
theorem rangeCopyOnWrite_eq (hlay : LayoutOk (c.segments src)) (hnw : offset + size < 2 ^ 64) :
    c.rangeCopyOnWrite B src dst offset size =
      rangeCopyLoop B src dst offset size (((c.segments src).lowerBound offset).map Prod.fst)
        c := by
  have hv := visits_lowerBound hlay offset
  unfold Container.rangeCopyOnWrite
  cases hlb : (c.segments src).lowerBound offset with
  | nil => rfl
  | cons e rest =>
    rw [hlb] at hv
    dsimp only
    split_ifs with hov
    · rfl
    · -- the first segment starts past the range, and so do the others
      have he : c.HasSegment src e.1 e.2 :=
        (OrderedMap.mem_lowerBound.mp (hlb ▸ List.mem_cons_self ..)).1
      have hpos := hlay.pos he
      have hafter := hv.after e (List.mem_cons_self ..)
      rw [hlay.overlap_iff he, SizeT.add_eq hnw] at hov
      have hstop : e.2.stop = e.2.offset + e.2.getSize := rfl
      obtain ⟨_, _, _, _, hloop⟩ := rangeCopyLoop_cons (B := B) hlay hnw hv
      rw [hloop, if_neg (by omega)]
      cases rest with
      | nil => rfl
      | cons e' rest' =>
        have hle := (List.pairwise_cons.mp hv.sorted).1 e' (List.mem_cons_self ..)
        obtain ⟨_, _, _, _, hloop'⟩ := rangeCopyLoop_cons (B := B) hlay hnw
          (hv.tail (.refl c src 0))
        rw [hloop', if_neg (by omega)]

/-- One turn of the loop, on the segment `u` that is stored under the key of
`e`; the segments of `ts` remain to be visited. -/
structure Turn (B : Backends μ σ) (A : Nat) (src dst : ObjectId) (offset size : Nat)
    (e : Nat × ObjectSegment) (ts : List (Nat × ObjectSegment)) (c : Container μ σ)
    (u : ObjectSegment) (c' : Container μ σ) : Prop where
  source : c.HasSegment src e.1 u
  range  : u.offset = e.2.offset ∧ u.getSize = e.2.getSize
  below  : u.offset < offset + size
  after  : offset < u.stop
  result : c' = c.rangeCopyOnWriteSegment B src dst e.1 u offset size
  wf     : Wf B (grain A) c'
  fixed  : FixedAlignement A c'
  beyond : ∀ id, SameBeyond c c' id u.stop
  later  : ∀ v ∈ ts, u.stop ≤ v.2.offset ∧ 0 < v.2.getSize
  visits : Visits c' src offset ts

/-- The loop either is at its end, or takes a turn. -/
theorem turn_or_end {e : Nat × ObjectSegment} {ts : List (Nat × ObjectSegment)}
    (h : Wf B (grain A) c) (hfix : FixedAlignement A c) (hnw : offset + size < 2 ^ 64)
    (hsize : 0 < size) (hv : Visits c src offset (e :: ts)) :
    (∃ u c', Turn B A src dst offset size e ts c u c' ∧
      rangeCopyLoop B src dst offset size ((e :: ts).map Prod.fst) c =
        rangeCopyLoop B src dst offset size (ts.map Prod.fst) c') ∨
    ((∀ v ∈ e :: ts, offset + size ≤ v.2.offset) ∧
      rangeCopyLoop B src dst offset size ((e :: ts).map Prod.fst) c = c) := by
  obtain ⟨u, hu, ho, hz, hloop⟩ := rangeCopyLoop_cons (B := B) (h.layout src) hnw hv
  have hstop := (part_congr offset size ho hz).1
  have hafter := hv.after e (List.mem_cons_self ..)
  have hsorted := (List.pairwise_cons.mp hv.sorted).1
  rw [hloop]
  by_cases hlt : e.2.offset < offset + size
  · rw [if_pos hlt]
    have hov : u.overlap offset size = true := by
      rw [(h.layout src).overlap_iff hu, SizeT.add_eq hnw]
      omega
    have hinner : InnerOk (grain A) (c.object dst).alignement offset size := by
      rw [hfix.object]
      exact innerOk_grain hnw
    obtain ⟨hwf, hhead⟩ := h.rangeCopyOnWriteSegment hu hov hinner
    have hbeyond : ∀ id, SameBeyond c (c.rangeCopyOnWriteSegment B src dst e.1 u offset size) id
        u.stop := sameBeyond_of_step h hfix hu hnw (by omega) (by omega) hsize
    refine Or.inl ⟨u, _, ⟨hu, ⟨ho, hz⟩, by omega, by omega, rfl, hwf, hfix.of_header hhead, hbeyond,
      fun v hvm => ⟨?_, ?_⟩, hv.tail (hbeyond src)⟩, rfl⟩
    · rw [hstop]
      exact hsorted v hvm
    · obtain ⟨t, ht, -, hzt⟩ := hv.held v (List.mem_cons_of_mem _ hvm)
      exact hzt ▸ (h.layout src).pos ht
  · rw [if_neg hlt]
    refine Or.inr ⟨fun v hvm => ?_, rfl⟩
    rcases List.mem_cons.mp hvm with rfl | hvm
    · omega
    · have := hsorted v hvm
      have hstop' : e.2.stop = e.2.offset + e.2.getSize := rfl
      omega

/-- A later segment holds no position of this one. -/
theorem Turn.not_holdsPart {e v : Nat × ObjectSegment} {ts : List (Nat × ObjectSegment)}
    {u : ObjectSegment} (ht : Turn B A src dst offset size e ts c u c') (hv : v ∈ ts) {x : Nat}
    (hx : v.2.HoldsPart offset size x) : ¬ u.HoldsPart offset size x := by
  intro hxu
  have := (ht.later v hv).1
  have := hxu.1.2
  have := hx.1.1
  omega

/-- The later segments are shared or copied as they would have been before. -/
theorem Turn.byHand_iff {e v : Nat × ObjectSegment} {ts : List (Nat × ObjectSegment)}
    {u : ObjectSegment} (ht : Turn B A src dst offset size e ts c u c')
    (hlay : LayoutOk (c.segments dst)) (hv : v ∈ ts) :
    ByHand c' dst v.2 offset size ↔ ByHand c dst v.2 offset size := by
  obtain ⟨hle, hpos⟩ := ht.later v hv
  unfold ByHand
  rw [(ht.beyond dst).localPartialOverlap hlay (ht.wf.layout dst) hpos hle]

theorem Turn.allFit_iff {e : Nat × ObjectSegment} {ts : List (Nat × ObjectSegment)}
    {u : ObjectSegment} (ht : Turn B A src dst offset size e ts c u c')
    (hlay : LayoutOk (c.segments dst)) :
    AllFit A c dst offset size (e :: ts) ↔
      (ByHand c dst u offset size → Fits A c dst (partLo u offset) (partHi u offset size)) ∧
        AllFit A c' dst offset size ts := by
  obtain ⟨ho, hz⟩ := ht.range
  obtain ⟨-, hlo, hhi, -⟩ := part_congr offset size ho hz
  have hbelow := ht.below
  have hlater : AllFit A c' dst offset size ts ↔ AllFit A c dst offset size ts := by
    refine forall₃_congr fun v hv _ => ?_
    have hv' : u.stop ≤ partLo v.2 offset := (ht.later v hv).1.trans (Nat.le_max_left ..)
    rw [ht.byHand_iff hlay hv, (ht.beyond dst).fits_iff hv']
  rw [hlater]
  unfold AllFit
  rw [List.forall_mem_cons, byHand_congr ho hz, hlo, hhi]
  exact and_congr_left fun _ => ⟨fun hf => hf (by omega), fun hf _ => hf⟩

/-- **The loop copies what the source has cached of the range**, unless a part
does not fit. -/
theorem copies_of_loop (dst : ObjectId) (hnw : offset + size < 2 ^ 64) (hsize : 0 < size)
    (hread : ∀ acceptLoadFail, Readable B acceptLoadFail) {ts : List (Nat × ObjectSegment)} :
    ∀ {c : Container μ σ}, Wf B (grain A) c → FixedAlignement A c → Visits c src offset ts →
      (AllFit A c dst offset size ts →
        Copies B src dst (fun x => ∃ e ∈ ts, e.2.HoldsPart offset size x) c
          (rangeCopyLoop B src dst offset size (ts.map Prod.fst) c)) ∧
      (¬ AllFit A c dst offset size ts → c.memory.overruns <
        (rangeCopyLoop B src dst offset size (ts.map Prod.fst) c).memory.overruns) := by
  induction ts with
  | nil =>
    intro c _ _ _
    refine ⟨fun _ => ⟨fun ⟨e, he, _⟩ => absurd he List.not_mem_nil, fun _ => rfl, rfl⟩,
      fun hno => ?_⟩
    exact absurd (fun e he => absurd he List.not_mem_nil) hno
  | cons e ts ih =>
    intro c h hfix hv
    rcases turn_or_end (B := B) h hfix hnw hsize hv with
      ⟨u, c₁, ht, hloop⟩ | ⟨hpast, hloop⟩
    · obtain ⟨ihfit, ihover⟩ := ih ht.wf ht.fixed ht.visits
      obtain ⟨-, -, -, hpart⟩ := part_congr offset size ht.range.1 ht.range.2
      rw [hloop, ht.allFit_iff (h.layout dst)]
      constructor
      · rintro ⟨hfirst, hrest⟩
        have hstep := copies_of_step h hfix ht.source hnw ht.below ht.after hsize hread hfirst
        rw [← ht.result] at hstep
        refine hstep.trans (ihfit hrest) (fun ⟨v, hvm, hx⟩ => ht.not_holdsPart hvm hx) fun {x} => ?_
        rw [hpart]
        simp
      · intro hno
        have hmono : c₁.memory.overruns ≤
            (rangeCopyLoop B src dst offset size (ts.map Prod.fst) c₁).memory.overruns := by
          by_cases hrest : AllFit A c₁ dst offset size ts
          · exact (ihfit hrest).overrun.ge
          · exact (ihover hrest).le
        by_cases hfirst : ByHand c dst u offset size →
            Fits A c dst (partLo u offset) (partHi u offset size)
        · have hstep := copies_of_step h hfix ht.source hnw ht.below ht.after hsize hread hfirst
          rw [← ht.result] at hstep
          rw [← hstep.overrun]
          exact ihover fun hrest => hno ⟨hfirst, hrest⟩
        · rw [Classical.not_imp] at hfirst
          have hover := overruns_of_step h hfix ht.source hnw ht.below ht.after hsize hread hfirst.1
            hfirst.2
          rw [← ht.result] at hover
          exact Nat.lt_of_lt_of_le hover hmono
    · rw [hloop]
      refine ⟨fun _ => ⟨fun ⟨v, hvm, hx⟩ => ?_, fun _ => rfl, rfl⟩, fun hno => ?_⟩
      · exact absurd (Nat.lt_of_le_of_lt hx.1.1 hx.2.2) (Nat.not_lt.mpr (hpast v hvm))
      · exact absurd (fun v hvm hlt => absurd hlt (Nat.not_lt.mpr (hpast v hvm))) hno

/-! ## The call -/

/-- Looking the destination up changes no layout. -/
theorem allFit_getObject {ts : List (Nat × ObjectSegment)} (id : ObjectId) :
    AllFit A (c.getObject id) dst offset size ts ↔ AllFit A c dst offset size ts := by
  have hseg : (c.getObject id).segments dst = c.segments dst := segments_getObject ..
  have hiff : ∀ {k u}, (c.getObject id).HasSegment dst k u ↔ c.HasSegment dst k u := by
    intro k u
    unfold HasSegment
    rw [hseg]
  unfold AllFit ByHand Fits
  simp only [hseg, hiff]

/-- A range copy that is carried out. -/
theorem makeObjectRangeCow_true {allowExist : Bool}
    (hok : c.makeObjectRangeCow B src dst allowExist offset size = (true, c')) :
    c' = (c.getObject dst).rangeCopyOnWrite B src dst offset size := by
  unfold Container.makeObjectRangeCow at hok
  split_ifs at hok
  · exact absurd (Prod.mk.inj hok).1 (by simp)
  · exact absurd (Prod.mk.inj hok).1 (by simp)
  · exact (Prod.mk.inj hok).2.symm

/-- A range copy that is refused. -/
theorem makeObjectRangeCow_false {allowExist : Bool}
    (hok : c.makeObjectRangeCow B src dst allowExist offset size = (false, c')) : c' = c := by
  unfold Container.makeObjectRangeCow at hok
  split_ifs at hok
  · exact (Prod.mk.inj hok).2.symm
  · exact (Prod.mk.inj hok).2.symm
  · exact absurd (Prod.mk.inj hok).1 (by simp)

/-- A copy is carried out: there is a source, and a destination that exists may be
replaced. -/
def Carried (c : Container μ σ) (src dst : ObjectId) (allowExist : Bool) : Prop :=
  c.hasObject src = true ∧ (c.hasObject dst = true → allowExist = true)

/-- The answer of a range copy says whether it was carried out. -/
theorem rangeCow_iff_carried (B : Backends μ σ) (c : Container μ σ) (src dst : ObjectId)
    (allowExist : Bool) (offset size : Nat) :
    (c.makeObjectRangeCow B src dst allowExist offset size).1 = true ↔
      Carried c src dst allowExist := by
  unfold Container.makeObjectRangeCow Carried
  split_ifs with h1 h2
  · simp [h1]
  · simp [h2.1, h2.2]
  · refine iff_of_true rfl ⟨by simpa using h1, fun hdst => ?_⟩
    simpa [hdst] using h2

theorem carried_of_rangeCow {allowExist : Bool}
    (hok : c.makeObjectRangeCow B src dst allowExist offset size = (true, c')) :
    Carried c src dst allowExist :=
  (rangeCow_iff_carried B c src dst allowExist offset size).mp (by rw [hok])

/-- Every cached segment of the source that meets the range and is copied by
hand fits into the destination. -/
def PartsFit (A : Nat) (c : Container μ σ) (src dst : ObjectId) (offset size : Nat) : Prop :=
  ∀ k t, c.HasSegment src k t → t.offset < offset + size → offset < t.stop →
    ByHand c dst t offset size → Fits A c dst (partLo t offset) (partHi t offset size)

/-- The segments from `lower_bound` on are those that end past the offset. -/
theorem mem_lowerBound_iff (hlay : LayoutOk (c.segments src)) {e : Nat × ObjectSegment} :
    e ∈ (c.segments src).lowerBound offset ↔ c.HasSegment src e.1 e.2 ∧ offset < e.2.stop := by
  rw [OrderedMap.mem_lowerBound]
  refine and_congr_right fun he => ?_
  have := hlay.key (k := e.1) (s := e.2) he
  omega

/-- What they hold of the range is what is cached of it. -/
theorem holdsPart_lowerBound_iff (hlay : LayoutOk (c.segments src)) {x : Nat} :
    (∃ e ∈ (c.segments src).lowerBound offset, e.2.HoldsPart offset size x) ↔
      (offset ≤ x ∧ x < offset + size) ∧ c.cached src x ≠ none := by
  rw [Ne, cached_eq_none]
  constructor
  · rintro ⟨e, he, hx⟩
    exact ⟨hx.2, fun hno => hno e.1 e.2 ((mem_lowerBound_iff hlay).mp he).1 hx.1⟩
  · rintro ⟨hx, hno⟩
    simp only [not_forall, not_not] at hno
    obtain ⟨k, t, ht, htx⟩ := hno
    have := htx.2
    exact ⟨(k, t), (mem_lowerBound_iff hlay).mpr ⟨ht, by dsimp only; omega⟩, htx, hx⟩

/-- **What a range copy copies**: the positions of the range that the source has
cached, when all parts fit; else a copy leaves its buffer. -/
theorem makeObjectRangeCow_copies (h : Wf B (grain A) c) (hfix : FixedAlignement A c)
    (hnw : offset + size < 2 ^ 64) (hsize : 0 < size)
    (hread : ∀ acceptLoadFail, Readable B acceptLoadFail) {allowExist : Bool}
    (hok : c.makeObjectRangeCow B src dst allowExist offset size = (true, c')) :
    (PartsFit A c src dst offset size → Copies B src dst
      (fun x => (offset ≤ x ∧ x < offset + size) ∧ c.cached src x ≠ none) c c') ∧
    (¬ PartsFit A c src dst offset size → c.memory.overruns < c'.memory.overruns) := by
  have hw := h.getObject dst
  have hseg : (c.getObject dst).segments src = c.segments src := segments_getObject ..
  have hcopy := copies_of_loop dst hnw hsize hread hw
    (hfix.of_header (sameHeader_getObject c dst)) (visits_lowerBound (hw.layout src) offset)
  rw [← rangeCopyOnWrite_eq (hw.layout src) hnw, ← makeObjectRangeCow_true hok, hseg,
    allFit_getObject] at hcopy
  have hfit : PartsFit A c src dst offset size ↔
      AllFit A c dst offset size ((c.segments src).lowerBound offset) := by
    constructor
    · intro hp e he hlt
      obtain ⟨ht, hgt⟩ := (mem_lowerBound_iff (h.layout src)).mp he
      exact hp e.1 e.2 ht hlt hgt
    · intro hp k t ht hlt hgt
      exact hp (k, t) ((mem_lowerBound_iff (h.layout src)).mpr ⟨ht, hgt⟩) hlt
  have hcontent : ∀ {id x}, (c.getObject dst).content B id x = c.content B id x := by
    intro id x
    unfold content
    rw [cached_getObject, disk_getObject]
  rw [hfit]
  refine ⟨fun hall => ?_, hcopy.2⟩
  obtain ⟨hin, hout, hover⟩ := hcopy.1 hall
  simp only [holdsPart_lowerBound_iff (h.layout src), hcontent] at hin hout
  exact ⟨hin, hout, hover⟩

/-! ## Buffers that stay -/

/-- Storing a segment of another object keeps the owners of all buffers but its
own, and all segments but the one it replaces. -/
theorem retained_storeSegment (hs : c.HasSegment src key orig) {k : Nat}
    (hk : src = dst ∨ ¬ (k = key ∧ (id = src ∨ id = dst))) :
    Retained c (c.storeSegment B dst key orig) id k := by
  intro t ht hex
  have hstay : (c.storeSegment B dst key orig).HasSegment id k t := by
    by_cases hnew : id = dst ∧ k = key
    · rcases hk with rfl | hk
      · rw [hnew.1, hnew.2] at ht ⊢
        exact hasSegment_storeSegment.mpr (Or.inl ⟨rfl, rfl, hasSegment_unique ht hs⟩)
      · exact absurd ⟨hnew.2, Or.inr hnew.1⟩ hk
    · exact hasSegment_storeSegment.mpr (Or.inr ⟨hnew, ht⟩)
  refine ⟨t, hstay, .refl t, fun id' k' u hu hbuf => ?_⟩
  rcases hasSegment_storeSegment.mp hu with ⟨rfl, rfl, rfl⟩ | ⟨-, hold⟩
  · obtain ⟨rfl, rfl⟩ := hex src k' u hs hbuf
    rcases hk with rfl | hk
    · exact ⟨rfl, rfl⟩
    · exact absurd ⟨rfl, Or.inl rfl⟩ hk
  · exact hex id' k' u hold hbuf

/-- The segments that a range copy shares, by key and range. -/
def Shares (c : Container μ σ) (src dst : ObjectId) (offset size k : Nat) (t : ObjectSegment) :
    Prop :=
  c.HasSegment src k t ∧ t.offset < offset + size ∧ offset < t.stop ∧
    ¬ ByHand c dst t offset size

/-- **A loop keeps the buffer of every segment it does not share.** -/
theorem retained_of_loop (hnw : offset + size < 2 ^ 64) (hsize : 0 < size) {k : Nat}
    {ts : List (Nat × ObjectSegment)} :
    ∀ {c : Container μ σ}, Wf B (grain A) c → FixedAlignement A c → Visits c src offset ts →
      (src = dst ∨ ∀ e ∈ ts, e.2.offset < offset + size → ¬ ByHand c dst e.2 offset size →
        ¬ (k = e.1 ∧ (id = src ∨ id = dst))) →
      Retained c (rangeCopyLoop B src dst offset size (ts.map Prod.fst) c) id k := by
  induction ts with
  | nil => exact fun {c} _ _ _ _ => (SameSegments.of_segments (fun _ => rfl)).retained id k
  | cons e ts ih =>
    intro c h hfix hv hk
    rcases turn_or_end (B := B) h hfix hnw hsize hv with ⟨u, c₁, ht, hloop⟩ | ⟨-, hloop⟩
    · rw [hloop]
      have hfirst : Retained c c₁ id k := by
        by_cases hhand : ByHand c dst u offset size
        · obtain ⟨d, run, hcopy⟩ := handCopied_of_step h hfix ht.source hnw ht.below ht.after hsize
            hhand
          rw [ht.result, hcopy.result]
          exact (hcopy.grows.retained id k).trans ((sameSegments_setMemory ..).retained id k)
        · rw [ht.result, (shared_of_step (B := B) (h.layout src) ht.source hhand).1]
          refine retained_storeSegment ht.source (hk.imp_right fun hk => ?_)
          rw [byHand_congr ht.range.1 ht.range.2] at hhand
          exact hk e (List.mem_cons_self ..) (ht.range.1 ▸ ht.below) hhand
      refine hfirst.trans (ih ht.wf ht.fixed ht.visits (hk.imp_right fun hk v hvm hlt hhand => ?_))
      rw [ht.byHand_iff (h.layout dst) hvm] at hhand
      exact hk v (List.mem_cons_of_mem _ hvm) hlt hhand
    · rw [hloop]
      exact (SameSegments.of_segments fun _ => rfl).retained id k

/-- A range copy keeps the buffer of every segment it does not share. -/
theorem retained_of_rangeCow (h : Wf B (grain A) c) (hfix : FixedAlignement A c)
    (hnw : offset + size < 2 ^ 64) (hsize : 0 < size) {allowExist : Bool} {k : Nat}
    (hk : src = dst ∨ ∀ t, Shares c src dst offset size k t → ¬ (id = src ∨ id = dst)) :
    Retained c (c.makeObjectRangeCow B src dst allowExist offset size).2 id k := by
  unfold Container.makeObjectRangeCow
  have hsame : Retained c c id k := (SameSegments.of_segments fun _ => rfl).retained id k
  split_ifs
  · exact hsame
  · exact hsame
  · have hw := h.getObject dst
    have hseg : ∀ id', (c.getObject dst).segments id' = c.segments id' := segments_getObject c dst
    refine ((sameSegments_getObject c dst).retained id k).trans ?_
    dsimp only
    rw [rangeCopyOnWrite_eq (hw.layout src) hnw]
    refine retained_of_loop hnw hsize hw (hfix.of_header (sameHeader_getObject c dst))
      (visits_lowerBound (hw.layout src) offset) (hk.imp_right fun hk e he hlt hhand => ?_)
    rintro ⟨rfl, hid⟩
    have hlb := he
    rw [hseg] at hlb
    refine hk e.2 ⟨(OrderedMap.mem_lowerBound.mp hlb).1, hlt,
      (h.layout src).stop_of_lowerBound (k := e.1) hlb, ?_⟩ hid
    unfold ByHand at hhand ⊢
    rwa [hseg] at hhand

end IoCatcher
