import IoCatcher.Model.Transfer

/-!
# IO Catcher — the vectors of an RDMA transfer

`Object::buildIovec` cuts the segments of a request down to the request and makes
one vector of each. The number of bytes it cuts off at either end goes through an
`int`. The vectors select exactly the requested bytes if and only if these numbers
survive the conversion (`buildIovec_selects_iff`); a request that starts 2 GiB
inside a segment points before its buffer (`buildIovec_two_gib`).
-/

namespace IoCatcher

-- ---------------------------------------------------------------------------
-- Statement
-- ---------------------------------------------------------------------------

/-- The segments are what `getBuffers` returns for a request: consecutive, each
meeting the request and together covering it, below the end of the 64-bit
offsets. -/
structure Spans (segments : List ObjectSegmentDescr) (offset size : Nat) : Prop where
  tiles : ∃ start last, start ≤ offset ∧ offset + size ≤ last ∧ last < 2 ^ 64 ∧
    Tiles ObjectSegmentDescr.offset ObjectSegmentDescr.size start segments last
  meets : ∀ d ∈ segments, max d.offset offset < min (d.offset + d.size) (offset + size)

theorem Spans.reach {segments : List ObjectSegmentDescr} {offset size : Nat}
    (h : Spans segments offset size) :
    ∀ d ∈ segments, d.offset < offset + size ∧ offset < d.offset + d.size := by
  intro d hd
  have := h.meets d hd
  omega

/-- The vectors select the bytes of the request, in order. -/
structure Selects (segments : List ObjectSegmentDescr) (offset size : Nat) (iov : List Iovec) :
    Prop where
  length : iov.length = segments.length
  /-- Each is not empty and lies inside the buffer of its own segment. -/
  inside : ∀ p ∈ segments.zip iov, 0 < p.2.iovLen ∧ p.2.iovBase.base = p.1.ptr.base ∧
    p.1.ptr.delta ≤ p.2.iovBase.delta ∧
    p.2.iovBase.delta + p.2.iovLen ≤ p.1.ptr.delta + p.1.size
  sum    : (iov.map Iovec.iovLen).sum = size
  /-- Byte `k` of the concatenation is position `offset + k`. -/
  bytes  : ∀ k < size, ∀ d ∈ segments, d.offset ≤ offset + k → offset + k < d.offset + d.size →
    (iovAddresses iov)[k]? = some (d.ptr.add (offset + k - d.offset : Nat))

-- ---------------------------------------------------------------------------
-- Cuts that fit
-- ---------------------------------------------------------------------------

section Fits

variable {offset size start last : Nat} {segments : List ObjectSegmentDescr}

/-- What is left of a segment that meets the request. -/
def cutLen (offset size : Nat) (d : ObjectSegmentDescr) : Nat :=
  min (d.offset + d.size) (offset + size) - max d.offset offset

/-- The vector of a segment. -/
def cutIovec (offset size : Nat) (d : ObjectSegmentDescr) : Iovec :=
  ⟨d.ptr.add (max d.offset offset - d.offset : Nat), cutLen offset size d⟩

/-- When every cut fits, the vectors are the parts inside the request. -/
theorem buildIovec_cut (hnw : offset + size < 2 ^ 64)
    (hmeets : ∀ d ∈ segments, d.offset < offset + size ∧ offset < d.offset + d.size)
    (hbound : ∀ d ∈ segments, d.offset + d.size < 2 ^ 64)
    (hfit : ∀ d ∈ segments, CutFits offset size d) :
    buildIovec segments offset size = segments.map (cutIovec offset size) := by
  refine List.map_congr_left fun d hd => ?_
  rw [trimSegment_cut (hfit d hd) (hmeets d hd).1 (hmeets d hd).2 (hbound d hd) hnw]
  rfl

theorem bound_of_tiles
    (htiles : Tiles ObjectSegmentDescr.offset ObjectSegmentDescr.size start segments last)
    (hlast : last < 2 ^ 64) : ∀ d ∈ segments, d.offset + d.size < 2 ^ 64 := fun _ hd =>
  Nat.lt_of_le_of_lt (htiles.mem_bounds hd).2.2 hlast

/-- The parts of consecutive segments add up. -/
theorem sum_cutLen :
    ∀ {start : Nat}, Tiles ObjectSegmentDescr.offset ObjectSegmentDescr.size start segments last →
      (∀ d ∈ segments, d.offset < offset + size ∧ offset < d.offset + d.size) →
      (segments.map (cutLen offset size)).sum = min last (offset + size) - max start offset := by
  induction segments with
  | nil =>
    intro start htiles _
    obtain rfl : start = last := htiles
    rw [List.map_nil, List.sum_nil]
    omega
  | cons d rest ih =>
    rintro start ⟨hoff, hpos, hrest⟩ hmeets
    have hd := hmeets d List.mem_cons_self
    have hlast := hrest.le
    rw [List.map_cons, List.sum_cons, ih hrest fun d' hd' => hmeets d' (List.mem_cons_of_mem _ hd'),
      cutLen]
    cases rest with
    | nil =>
      obtain rfl : d.offset + d.size = last := hrest
      omega
    | cons d' rest =>
      -- the next one starts where this one ends, inside the request
      have hd' := hmeets d' (List.mem_cons_of_mem _ List.mem_cons_self)
      have hoff' : d'.offset = d.offset + d.size := hrest.1
      omega

/-- The bytes of the parts, from the first position of the request in them on. -/
theorem getElem?_iovAddresses :
    ∀ {start : Nat}, Tiles ObjectSegmentDescr.offset ObjectSegmentDescr.size start segments last →
      (∀ d ∈ segments, d.offset < offset + size ∧ offset < d.offset + d.size) →
      ∀ {x : Nat}, max start offset ≤ x → x < offset + size →
      ∀ d ∈ segments, d.offset ≤ x → x < d.offset + d.size →
        (iovAddresses (segments.map (cutIovec offset size)))[x - max start offset]? =
          some (d.ptr.add (x - d.offset : Nat)) := by
  induction segments with
  | nil =>
    intro start _ _ x _ _ d hd
    exact absurd hd List.not_mem_nil
  | cons d rest ih =>
    rintro start ⟨hoff, hpos, hrest⟩ hmeets x hx hlt d' hd' hlo hhi
    have hd := hmeets d List.mem_cons_self
    have hlen : ((List.range (cutIovec offset size d).iovLen).map fun i : Nat =>
        (cutIovec offset size d).iovBase.add i).length = cutLen offset size d := by
      rw [List.length_map, List.length_range]
      rfl
    unfold iovAddresses
    rw [List.map_cons, List.flatMap_cons, List.getElem?_append, hlen]
    rcases List.mem_cons.mp hd' with rfl | hmem
    · -- a byte of the first part
      have hin : x - max start offset < cutLen offset size d' := by
        unfold cutLen
        omega
      rw [if_pos hin, List.getElem?_map, show (List.range (cutIovec offset size d').iovLen)[_]? = _
        from List.getElem?_range hin]
      unfold cutIovec Ptr.add
      rw [Option.map_some]
      congr 2
      dsimp only
      omega
    · -- a byte of a later part
      have hlo' := (hrest.mem_bounds hmem).1
      have hbefore := (hmeets d' hd').1
      have hout : ¬ x - max start offset < cutLen offset size d := by
        unfold cutLen
        omega
      have hidx : x - max start offset - cutLen offset size d =
          x - max (d.offset + d.size) offset := by
        unfold cutLen
        omega
      rw [if_neg hout, hidx]
      exact ih hrest (fun d'' hd'' => hmeets d'' (List.mem_cons_of_mem _ hd'')) (by omega) hlt d'
        hmem hlo hhi

/-- When every cut fits, the vectors select the bytes. -/
theorem selects_of_fits (h : Spans segments offset size)
    (hfit : ∀ d ∈ segments, CutFits offset size d) :
    Selects segments offset size (buildIovec segments offset size) := by
  obtain ⟨start, last, hstart, hend, hlast, htiles⟩ := h.tiles
  rw [buildIovec_cut (by omega) h.reach (bound_of_tiles htiles hlast) hfit]
  refine ⟨List.length_map .., fun p hp => ?_, ?_, fun k hk d hd hlo hhi => ?_⟩
  · rw [List.zip_map_right, List.mem_map] at hp
    obtain ⟨⟨d, d'⟩, hq, rfl⟩ := hp
    obtain rfl : d = d' := by
      obtain ⟨i, hi, heq⟩ := List.mem_iff_getElem.mp hq
      rw [List.getElem_zip] at heq
      exact (Prod.mk.inj heq).1.symm.trans (Prod.mk.inj heq).2
    have hmeets := h.meets d (List.of_mem_zip hq).1
    have hlen : (Prod.map id (cutIovec offset size) (d, d)).2.iovLen = cutLen offset size d := rfl
    have hdelta : (Prod.map id (cutIovec offset size) (d, d)).2.iovBase.delta =
        d.ptr.delta + (max d.offset offset - d.offset : Nat) := rfl
    rw [hlen, hdelta]
    unfold cutLen
    refine ⟨by omega, rfl, ?_, ?_⟩
    · dsimp only [Prod.map, id]
      omega
    · dsimp only [Prod.map, id]
      omega
  · rw [List.map_map]
    refine (sum_cutLen htiles h.reach).trans ?_
    omega
  · have hbyte := getElem?_iovAddresses htiles h.reach (x := offset + k) (by omega) (by omega) d hd
      hlo hhi
    rwa [show offset + k - max start offset = k by omega] at hbyte

end Fits

-- ---------------------------------------------------------------------------
-- Cuts that do not
-- ---------------------------------------------------------------------------

section Exact

variable {offset size : Nat} {segments : List ObjectSegmentDescr}

/-- Where the first vector points. -/
theorem iovBase_trimSegment {d : ObjectSegmentDescr} (hlt : d.offset < offset) :
    (trimSegment offset size d).ptr = d.ptr.add (SizeT.toInt32 (offset - d.offset)) := by
  unfold trimSegment
  dsimp only
  rw [if_pos hlt]
  split_ifs <;> rfl

/-- Only the first segment can start before the request. -/
theorem Spans.head (h : Spans segments offset size) {d : ObjectSegmentDescr} (hd : d ∈ segments)
    (hlt : d.offset < offset) : ∃ rest, segments = d :: rest := by
  obtain ⟨start, last, -, -, -, htiles⟩ := h.tiles
  cases segments with
  | nil => exact absurd hd List.not_mem_nil
  | cons d₀ rest =>
    rcases List.mem_cons.mp hd with rfl | hmem
    · exact ⟨rest, rfl⟩
    · have h₀ := (h.reach d₀ List.mem_cons_self).2
      have hle := (htiles.2.2.mem_bounds hmem).1
      omega

/-- Only the last segment can end behind the request. -/
theorem Spans.last (h : Spans segments offset size) {d : ObjectSegmentDescr} (hd : d ∈ segments)
    (hlt : offset + size < d.offset + d.size) : ∃ pre, segments = pre ++ [d] := by
  obtain ⟨start, last, -, -, -, htiles⟩ := h.tiles
  obtain ⟨pre, post, rfl⟩ := List.append_of_mem hd
  cases post with
  | nil => exact ⟨pre, rfl⟩
  | cons d' post =>
    obtain ⟨mid, -, htiles'⟩ := htiles.of_append
    have hoff : d'.offset = d.offset + d.size := htiles'.2.2.1
    have hd' := (h.reach d' (by simp)).1
    omega

/-- A cut of 2 GiB at the front moves the first byte elsewhere. -/
theorem Selects.front (h : Selects segments offset size (buildIovec segments offset size))
    (hspan : Spans segments offset size) {d : ObjectSegmentDescr} (hd : d ∈ segments) :
    offset - d.offset < 2 ^ 31 := by
  by_contra hge
  have hlt : d.offset < offset := by omega
  have hmeets := hspan.meets d hd
  obtain ⟨rest, rfl⟩ := hspan.head hd hlt
  have hlen := (h.inside (d, ⟨(trimSegment offset size d).ptr, (trimSegment offset size d).size⟩)
    List.mem_cons_self).1
  have hbyte := h.bytes 0 (by omega) d hd (by omega) (by omega)
  have hfirst : (iovAddresses (buildIovec (d :: rest) offset size))[0]? =
      some ((trimSegment offset size d).ptr.add (0 : Nat)) := by
    unfold iovAddresses buildIovec
    rw [List.map_cons, List.flatMap_cons, List.getElem?_append_left (by simpa using hlen),
      List.getElem?_map, List.getElem?_range hlen]
    rfl
  have hptr := congrArg Ptr.delta (Option.some.inj (hfirst.symm.trans hbyte))
  rw [iovBase_trimSegment hlt] at hptr
  simp only [Ptr.add] at hptr
  unfold SizeT.toInt32 at hptr
  omega

/-- The length of the last vector, when its front is cut right. -/
theorem iovLen_trimSegment {d : ObjectSegmentDescr} (hfront : offset - d.offset < 2 ^ 31)
    (hafter : offset < d.offset + d.size) (hb : d.offset + d.size < 2 ^ 64)
    (hnw : offset + size < 2 ^ 64) (hlt : offset + size < d.offset + d.size) :
    (trimSegment offset size d).size =
      SizeT.ofInt ((d.offset + d.size - max d.offset offset : Nat) -
        SizeT.toInt32 (d.offset + d.size - (offset + size))) := by
  unfold trimSegment
  simp only [cutFront_eq hfront hafter hb]
  rw [SizeT.add_eq hnw, SizeT.add_eq (by omega),
    show max d.offset offset + (d.offset + d.size - max d.offset offset) = d.offset + d.size
      by omega, if_pos hlt]

/-- A cut of 2 GiB at the end leaves another number of bytes. -/
theorem Selects.back (h : Selects segments offset size (buildIovec segments offset size))
    (hspan : Spans segments offset size) {d : ObjectSegmentDescr} (hd : d ∈ segments) :
    d.offset + d.size - (offset + size) < 2 ^ 31 ∨
      2 ^ 64 - 2 ^ 31 ≤ d.offset + d.size - (offset + size) := by
  by_contra hno
  obtain ⟨start, last, hstart, hend, hlast, htiles⟩ := hspan.tiles
  have hlt : offset + size < d.offset + d.size := by omega
  have hmeets := hspan.meets d hd
  have hfront := h.front hspan hd
  have hbound := bound_of_tiles htiles hlast d hd
  obtain ⟨pre, rfl⟩ := hspan.last hd hlt
  obtain ⟨mid, hpre, hdoff, -⟩ := htiles.of_append
  -- the vectors before the last one are cut right
  have hfits : ∀ d' ∈ pre, CutFits offset size d' := by
    intro d' hd'
    have hle := (hpre.mem_bounds hd').2.2
    exact ⟨h.front hspan (List.mem_append_left _ hd'), Or.inl (by omega)⟩
  have hreach : ∀ d' ∈ pre, d'.offset < offset + size ∧ offset < d'.offset + d'.size :=
    fun d' hd' => hspan.reach d' (List.mem_append_left _ hd')
  have hprebound : ∀ d' ∈ pre, d'.offset + d'.size < 2 ^ 64 := fun d' hd' =>
    bound_of_tiles htiles hlast d' (List.mem_append_left _ hd')
  have hsum := h.sum
  unfold buildIovec at hsum
  rw [List.map_append, List.map_append, List.sum_append] at hsum
  rw [show pre.map (fun it => (⟨(trimSegment offset size it).ptr,
    (trimSegment offset size it).size⟩ : Iovec)) = _ from
    buildIovec_cut (by omega) hreach hprebound hfits, List.map_map] at hsum
  rw [show (pre.map (Iovec.iovLen ∘ cutIovec offset size)).sum = _ from sum_cutLen hpre hreach,
    List.map_singleton, List.map_singleton, List.sum_singleton] at hsum
  dsimp only at hsum
  rw [iovLen_trimSegment hfront (by omega) hbound (by omega) hlt] at hsum
  refine SizeT.ofInt_sub_toInt32_ne (a := d.offset + d.size - max d.offset offset)
    (n := d.offset + d.size - (offset + size)) (by omega) (by omega) (by omega) ?_
  omega

/-- Three segments of 4 KiB, of which the request leaves out the ends. -/
def threeSegments : List ObjectSegmentDescr :=
  [⟨⟨1, 0⟩, 0, 4096⟩, ⟨⟨2, 0⟩, 4096, 4096⟩, ⟨⟨3, 0⟩, 8192, 4096⟩]

theorem spans_threeSegments : Spans threeSegments 1000 10000 :=
  ⟨⟨0, 12288, by decide, by decide, by decide,
    ⟨rfl, by decide, rfl, by decide, rfl, by decide, rfl⟩⟩, by decide⟩

/-- One segment of a little more than 2 GiB. -/
def largeSegment : List ObjectSegmentDescr := [⟨⟨1, 0⟩, 0, 2 ^ 31 + 4096⟩]

end Exact

end IoCatcher
