import IoCatcher.Model.StorageLog

/-!
# IO Catcher — the list `getBuffers` returns

`getBuffers` collects the segments of a range in one loop, loads the gaps between
them in a second one and the tail in a third place, and sorts. Whatever segments
the object has and whatever the storage answers, a successful call returns the
segments of the updated map that meet the rounded range, in order and without a
hole; each gap of the range became one segment and was read at most once; and a
second call changes nothing any more (`getBuffers_exactTiling`).
-/

namespace IoCatcher

namespace Container

variable {μ σ : Type} {B : Backends μ σ} {c c' : Container μ σ} {id : ObjectId} {b e : Nat}

-- ---------------------------------------------------------------------------
-- Statement
-- ---------------------------------------------------------------------------

/-- `[lo, hi)` is a gap of `[b, e)` that no larger gap contains. -/
structure MaximalGap (c : Container μ σ) (id : ObjectId) (b e lo hi : Nat) : Prop where
  lt     : lo < hi
  inside : b ≤ lo ∧ hi ≤ e
  free   : ∀ x, lo ≤ x → x < hi → c.cached id x = none
  left   : lo = b ∨ c.cached id (lo - 1) ≠ none
  right  : hi = e ∨ c.cached id hi ≠ none

/-- What `getBuffers` has done to the range `[b, e)` of an object when it returns
`list`. -/
structure ExactTiling (c c' : Container μ (σ × List StorageCall)) (id : ObjectId) (b e : Nat)
    (list : List ObjectSegmentDescr) : Prop where
  /-- The segments of the map that meet the range, in its order. -/
  exact : list = ((c'.segments id).entries.filter fun w =>
    w.2.offset < e ∧ b < w.2.stop).map fun w => w.2.getSegmentDescr
  /-- Each starts where the one before it ends. -/
  tiles : ∃ start last, start ≤ b ∧ e ≤ last ∧
    Tiles ObjectSegmentDescr.offset ObjectSegmentDescr.size start list last
  /-- No segment lost its place or its bytes. -/
  kept  : ∀ k s, c.HasSegment id k s → ∃ s', c'.HasSegment id k s' ∧ SameData c c' s s'
  /-- The new segments are the maximal gaps. -/
  gaps  : ∀ lo hi, MaximalGap c id b e lo hi ↔
    (∀ t, ¬ c.HasSegment id (hi - 1) t) ∧
      ∃ s, c'.HasSegment id (hi - 1) s ∧ s.offset = lo ∧ s.stop = hi
  /-- The only calls to the storage are reads of gaps, one for each at most. -/
  reads : ∃ calls, c'.log = c.log ++ calls ∧ calls.Nodup ∧
    ∀ call ∈ calls, ∃ lo hi, MaximalGap c id b e lo hi ∧ call = .pread id (hi - lo) lo

-- ---------------------------------------------------------------------------
-- The list and the map
-- ---------------------------------------------------------------------------

/-- A segment that meets the range is in the run that covers it. -/
theorem Covers.mem_of_meets {run : List (Nat × ObjectSegment)} (h : Covers c id b e run)
    (hlay : LayoutOk (c.segments id)) {k : Nat} {s : ObjectSegment} (hs : c.HasSegment id k s)
    (hlt : s.offset < e) (hb : b < s.stop) (hbe : b < e) : (k, s) ∈ run := by
  obtain ⟨start, last, hstart, hlast, htiles⟩ := h.tiles
  have hpos := hlay.pos hs
  have hstop : s.stop = s.offset + s.getSize := rfl
  -- a byte of both the segment and the range
  obtain ⟨x, hx⟩ : ∃ x, x = max s.offset b := ⟨_, rfl⟩
  obtain ⟨w, hw, hwx⟩ := htiles.exists_mem (x := x) (by omega) (by omega)
  have hwstop : w.2.stop = w.2.offset + w.2.getSize := rfl
  obtain ⟨hk, hsw⟩ := hlay.eq_of_shared hs (h.held w hw) (x := x) (by omega) (by omega) (by omega)
    (by omega)
  rw [hk, hsw]
  exact hw

/-- The run is what a filter of the map gives. -/
theorem Covers.eq_filter {run : List (Nat × ObjectSegment)} (h : Covers c id b e run)
    (hlay : LayoutOk (c.segments id)) (hbe : b < e) :
    run = (c.segments id).entries.filter fun w => w.2.offset < e ∧ b < w.2.stop := by
  obtain ⟨start, last, -, -, htiles⟩ := h.tiles
  have hirrefl : Std.Irrefl fun w w' : Nat × ObjectSegment => w.1 < w'.1 :=
    ⟨fun _ => Nat.lt_irrefl _⟩
  refine List.Pairwise.eq_of_mem_iff (r := fun w w' : Nat × ObjectSegment => w.1 < w'.1) ?_
    ((c.segments id).sorted.filter _) fun w => ?_
  · refine (List.Pairwise.and_mem.mp htiles.pairwise).imp ?_
    rintro w w' ⟨hw, hw', hle⟩
    have h1 := hlay.key (h.held w hw)
    have h2 := hlay.key (h.held w' hw')
    have h3 := hlay.pos (h.held w' hw')
    unfold ObjectSegment.stop at h1 h2
    omega
  · rw [List.mem_filter, decide_eq_true_eq]
    constructor
    · exact fun hw => ⟨h.held w hw, h.meets w hw⟩
    · exact fun hw => h.mem_of_meets hlay hw.1 hw.2.1 hw.2.2 hbe

/-- No two elements of the list have the same offset. -/
theorem Covers.distinctOffsets {run : List (Nat × ObjectSegment)} (h : Covers c id b e run) :
    (run.map fun w => w.2.getSegmentDescr).Pairwise fun d d' => d.offset ≠ d'.offset := by
  obtain ⟨start, last, -, -, htiles⟩ := h.tiles
  have htiled : Tiles ObjectSegmentDescr.offset ObjectSegmentDescr.size start
    (run.map fun w => w.2.getSegmentDescr) last := Tiles.map htiles
  refine (List.Pairwise.and_mem.mp htiled.pairwise).imp ?_
  rintro d d' ⟨hd, -, hle⟩
  have := (htiled.mem_bounds hd).2.1
  omega

-- ---------------------------------------------------------------------------
-- Maximal gaps
-- ---------------------------------------------------------------------------

/-- Two maximal gaps with a common position are the same. -/
theorem MaximalGap.eq_of_shared {lo hi lo' hi' x : Nat} (h : MaximalGap c id b e lo hi)
    (h' : MaximalGap c id b e lo' hi') (hx : lo ≤ x ∧ x < hi) (hx' : lo' ≤ x ∧ x < hi') :
    lo = lo' ∧ hi = hi' := by
  -- a gap that starts after another one, or ends before it, is not maximal
  have hleft : ∀ {lo hi lo' hi' : Nat}, MaximalGap c id b e lo hi → MaximalGap c id b e lo' hi' →
      lo ≤ x ∧ x < hi → lo' ≤ x ∧ x < hi' → lo ≤ lo' := by
    intro lo hi lo' hi' h h' hx hx'
    by_contra hlt
    have hb := h'.inside.1
    rcases h.left with rfl | hleft
    · omega
    · exact hleft (h'.free _ (by omega) (by omega))
  have hright : ∀ {lo hi lo' hi' : Nat}, MaximalGap c id b e lo hi → MaximalGap c id b e lo' hi' →
      lo ≤ x ∧ x < hi → lo' ≤ x ∧ x < hi' → hi' ≤ hi := by
    intro lo hi lo' hi' h h' hx hx'
    by_contra hlt
    have he := h'.inside.2
    rcases h.right with rfl | hright
    · omega
    · exact hright (h'.free _ (by omega) (by omega))
  exact ⟨Nat.le_antisymm (hleft h h' hx hx') (hleft h' h hx' hx),
    Nat.le_antisymm (hright h' h hx' hx) (hright h h' hx hx')⟩

/-- What the run of a successful call says about the gaps. -/
structure Wove (B : Backends μ σ) (c c' : Container μ σ) (id : ObjectId) (b e : Nat)
    (run : List (Nat × ObjectSegment)) : Prop where
  layout : LayoutOk (c.segments id)
  grows  : ∃ A Loaded, Grows B A Loaded c c' id
  covers : Covers c' id b e run
  weaves : Weaves c id b e run

/-- A segment of the run that the object had before kept its range. -/
theorem Wove.cached_of_old {run : List (Nat × ObjectSegment)} (h : Wove B c c' id b e run)
    {w : Nat × ObjectSegment} (hw : w ∈ run) (hold : ∃ s, c.HasSegment id w.1 s) {x : Nat}
    (hx : w.2.offset ≤ x ∧ x < w.2.stop) : c.cached id x ≠ none := by
  obtain ⟨s, hs⟩ := hold
  obtain ⟨A, Loaded, hgrow⟩ := h.grows
  obtain ⟨s', hs', hsame⟩ := hgrow.kept hs
  obtain rfl := hasSegment_unique hs' (h.covers.held w hw)
  have hstop : w.2.stop = w.2.offset + w.2.getSize := rfl
  have hstop' : s.stop = s.offset + s.getSize := rfl
  have hoff := hsame.offset
  have hsize := hsame.size
  have hholds : s.Holds x := ⟨by omega, by omega⟩
  rw [cached_of_segment h.layout hs hholds]
  simp

/-- A new segment of the run is a maximal gap. -/
theorem Wove.maximalGap {run : List (Nat × ObjectSegment)} (h : Wove B c c' id b e run)
    {w : Nat × ObjectSegment} (hw : w ∈ run) (hnew : ∀ s, ¬ c.HasSegment id w.1 s) :
    MaximalGap c id b e w.2.offset w.2.stop := by
  obtain ⟨A, Loaded, hgrow⟩ := h.grows
  obtain ⟨start, last, hstart, hlast, htiles⟩ := h.covers.tiles
  have hlay' := hgrow.layout
  have hheld := h.covers.held w hw
  have hpos := hlay'.pos hheld
  have hkey := hlay'.key hheld
  have hstop : w.2.stop = w.2.offset + w.2.getSize := rfl
  rcases h.weaves.new w hw with ⟨s, hs⟩ | ⟨hb, he, hleft⟩
  · exact absurd hs (hnew s)
  refine ⟨by omega, ⟨hb, he⟩, fun x hx1 hx2 => ?_, ?_, ?_⟩
  · -- an old segment there would overlap the new one
    rw [cached_eq_none]
    rintro k s hs ⟨hs1, hs2⟩
    obtain ⟨s', hs', hsame⟩ := hgrow.kept hs
    have hstop' : s'.stop = s.stop := by
      unfold ObjectSegment.stop
      rw [hsame.offset, hsame.size]
    obtain ⟨rfl, -⟩ := hlay'.eq_of_shared hheld hs' hx1 hx2 (hsame.offset ▸ hs1) (hstop' ▸ hs2)
    exact hnew s hs
  · rcases hleft with hleft | ⟨k, s, hs, hbs, heq⟩
    · exact Or.inl hleft
    · refine Or.inr ?_
      have hspos := h.layout.pos hs
      have hsstop : s.stop = s.offset + s.getSize := rfl
      have hholds : s.Holds (w.2.offset - 1) := ⟨by omega, by omega⟩
      rw [cached_of_segment h.layout hs hholds]
      simp
  · by_cases hend : w.2.stop = e
    · exact Or.inl hend
    · refine Or.inr ?_
      -- the next segment of the run is an old one
      obtain ⟨w', hw', hin⟩ := htiles.exists_mem (x := w.2.stop) (by omega) (by omega)
      have hstop' : w'.2.stop = w'.2.offset + w'.2.getSize := rfl
      rcases h.weaves.new w' hw' with hold | ⟨hb', -, hleft'⟩
      · exact h.cached_of_old hw' hold ⟨by omega, by omega⟩
      · have hoff : w'.2.offset = w.2.stop := by
          by_contra hne
          obtain ⟨-, hsame⟩ := hlay'.eq_of_shared hheld (h.covers.held w' hw')
            (x := w.2.stop - 1) (by omega) (by omega) (by omega) (by omega)
          rw [← hsame] at hin hstop'
          omega
        rcases hleft' with hleft' | ⟨k, s, hs, -, heq⟩
        · omega
        · have hskey := h.layout.key hs
          have hk : k = w.1 := by omega
          exact absurd (hk ▸ hs) (hnew s)

/-- The new segments are the maximal gaps. -/
theorem Wove.maximalGap_iff {run : List (Nat × ObjectSegment)} (h : Wove B c c' id b e run)
    (hinside : AddsInside c c' id b e) (hbe : b < e) (lo hi : Nat) :
    MaximalGap c id b e lo hi ↔ (∀ t, ¬ c.HasSegment id (hi - 1) t) ∧
      ∃ s, c'.HasSegment id (hi - 1) s ∧ s.offset = lo ∧ s.stop = hi := by
  obtain ⟨A, Loaded, hgrow⟩ := h.grows
  obtain ⟨start, last, hstart, hlast, htiles⟩ := h.covers.tiles
  have hlay' := hgrow.layout
  constructor
  · intro hgap
    have hlt := hgap.lt
    have hin := hgap.inside
    obtain ⟨w, hw, hx⟩ := htiles.exists_mem (x := lo) (by omega) (by omega)
    have hstop : w.2.stop = w.2.offset + w.2.getSize := rfl
    have hnew : ∀ s, ¬ c.HasSegment id w.1 s := fun s hs =>
      h.cached_of_old hw ⟨s, hs⟩ ⟨hx.1, by omega⟩ (hgap.free lo (by omega) hlt)
    obtain ⟨hlo, hhi⟩ := hgap.eq_of_shared (h.maximalGap hw hnew) (x := lo) (by omega) (by omega)
    have hheld := h.covers.held w hw
    have hkey := hlay'.key hheld
    have hk : hi - 1 = w.1 := by omega
    rw [hk]
    exact ⟨hnew, w.2, hheld, hlo.symm, hhi.symm⟩
  · rintro ⟨hnew, s, hs, rfl, rfl⟩
    have hpos := hlay'.pos hs
    have hstop : s.stop = s.offset + s.getSize := rfl
    rcases hinside _ s hs with ⟨t, ht⟩ | ⟨hb, he⟩
    · exact absurd ht (hnew t)
    · exact h.maximalGap (w := (s.stop - 1, s))
        (h.covers.mem_of_meets hlay' hs (by omega) (by omega) hbe) hnew

-- ---------------------------------------------------------------------------
-- A second call
-- ---------------------------------------------------------------------------

/-- Where a test holds on a lower part of a sorted list, the elements that pass
are those before the first that does not. -/
theorem takeWhile_eq_filter {α : Type} {r : α → α → Prop} {p : α → Bool} {l : List α}
    (hl : l.Pairwise r) (hp : ∀ a b, r a b → p b = true → p a = true) :
    l.takeWhile p = l.filter p := by
  induction l with
  | nil => rfl
  | cons a l ih =>
    obtain ⟨ha, hrest⟩ := List.pairwise_cons.mp hl
    by_cases hpa : p a = true
    · rw [List.takeWhile_cons_of_pos hpa, List.filter_cons_of_pos hpa, ih hrest]
    · rw [List.takeWhile_cons_of_neg hpa, List.filter_cons_of_neg hpa]
      refine (List.filter_eq_nil_iff.mpr fun b hb hpb => hpa ?_).symm
      exact hp a b (ha b hb) hpb

/-- Where nothing has to be unshared, the first loop only collects. -/
theorem extractSegments_collect {n : Nat} {mode : ObjectAccessMode}
    {es : List (Nat × ObjectSegment)}
    (h : ∀ w ∈ es, w.2.overlap b n = true → ¬ (mode = .write ∧ c.isCow w.2 = true)) :
    extractSegments B id b n mode es c =
      ((es.takeWhile fun w => w.2.overlap b n).map fun w => w.2.getSegmentDescr, c) := by
  induction es with
  | nil => rfl
  | cons w es ih =>
    have hrest := ih fun w' hw' => h w' (List.mem_cons_of_mem _ hw')
    unfold extractSegments
    by_cases hov : w.2.overlap b n = true
    · rw [if_pos hov, if_neg (h w List.mem_cons_self hov), List.takeWhile_cons, if_pos hov]
      dsimp only
      rw [hrest, List.map_cons]
    · rw [if_neg hov, List.takeWhile_cons, if_neg hov, List.map_nil]

/-- Where there is no gap, the second loop loads nothing. -/
theorem completeSegments_tiled {origBase origSize last : Nat} {load isForWriteOp : Bool}
    {es : List ObjectSegmentDescr} (hne : es ≠ []) :
    ∀ {x lo : Nat}, Tiles ObjectSegmentDescr.offset ObjectSegmentDescr.size x es last → x ≤ lo →
      (∀ d ∈ es, d.offset + d.size < 2 ^ 64) →
      completeSegments B id origBase origSize load isForWriteOp es lo c = (some ([], last), c) := by
  induction es with
  | nil => exact absurd rfl hne
  | cons d es ih =>
    rintro x lo ⟨hoff, hpos, hrest⟩ hle hbound
    have hadd : SizeT.add d.offset d.size = d.offset + d.size :=
      SizeT.add_eq (hbound d List.mem_cons_self)
    unfold completeSegments
    rw [if_neg (by omega), hadd]
    cases es with
    | nil =>
      obtain rfl : d.offset + d.size = last := hrest
      rfl
    | cons d' es =>
      exact ih (by simp) hrest (Nat.le_refl _) fun d'' hd'' =>
        hbound d'' (List.mem_cons_of_mem _ hd'')

/-- A range without a gap, whose segments are the object's own, is returned as it
is. -/
theorem getBuffers_covered {base size n : Nat} {mode : ObjectAccessMode}
    {load isForWriteOp : Bool} {run : List (Nat × ObjectSegment)}
    (hlay : LayoutOk (c.segments id)) (hcov : Covers c id b e run)
    (hex : mode = .write → ∀ w ∈ run, c.Exclusive id w.1 w.2.memory.buffer)
    (hrange : alignRange (c.object id).alignement base size = (b, n)) (he : e = SizeT.add b n)
    (hbe : b < e) :
    c.getBuffers B id base size mode load isForWriteOp =
      (some (run.map fun w => w.2.getSegmentDescr), c) := by
  obtain ⟨start, last, hstart, hlast, htiles⟩ := hcov.tiles
  have hheld : ∀ w ∈ (c.segments id).lowerBound b, c.HasSegment id w.1 w.2 := fun w hw =>
    (OrderedMap.mem_lowerBound.mp hw).1
  have hmeet : ∀ w ∈ (c.segments id).lowerBound b,
      (w.2.overlap b n = true ↔ w.2.offset < e ∧ b < w.2.stop) := by
    intro w hw
    rw [hlay.overlap_iff (hheld w hw), he]
  -- the segments that meet the range come first in the iteration, and are the run
  have htake : ((c.segments id).lowerBound b).takeWhile (fun w => w.2.overlap b n) = run := by
    have hsorted := List.Pairwise.and_mem.mp (OrderedMap.lowerBound_sorted (c.segments id) b)
    rw [takeWhile_eq_filter hsorted, hcov.eq_filter hlay hbe, OrderedMap.lowerBound,
      List.filter_filter]
    · refine List.filter_congr fun w hw => ?_
      have hkey := hlay.key hw
      rw [Bool.eq_iff_iff, Bool.and_eq_true, decide_eq_true_eq, decide_eq_true_eq,
        hlay.overlap_iff hw, he]
      omega
    · rintro w w' ⟨hw, hw', hlt⟩ hov
      have hle := hlay.disjoint (hheld w hw) (hheld w' hw') hlt
      have hpos := hlay.pos (hheld w hw)
      have hstop : w.2.stop = w.2.offset + w.2.getSize := rfl
      rw [hmeet w' hw'] at hov
      rw [hmeet w hw]
      exact ⟨by omega, hlay.stop_of_lowerBound hw⟩
  have hown : ∀ w ∈ (c.segments id).lowerBound b, w.2.overlap b n = true →
      ¬ (mode = .write ∧ c.isCow w.2 = true) := by
    rintro w hw hov ⟨hmode, hcow⟩
    have hrun : w ∈ run := by
      obtain ⟨hlt, hb⟩ := (hmeet w hw).mp hov
      exact hcov.mem_of_meets hlay (hheld w hw) hlt hb hbe
    rw [not_cow_of_exclusive (hheld w hw) (hex hmode w hrun)] at hcow
    exact absurd hcow (by decide)
  obtain ⟨w₀, hw₀, -⟩ := htiles.exists_mem (x := b) hstart (by omega)
  have hne : run.map (fun w => w.2.getSegmentDescr) ≠ [] := by
    rintro hnil
    rw [List.map_eq_nil_iff.mp hnil] at hw₀
    exact absurd hw₀ List.not_mem_nil
  have htiled : Tiles ObjectSegmentDescr.offset ObjectSegmentDescr.size start
      (run.map fun w => w.2.getSegmentDescr) last := Tiles.map htiles
  have hbound : ∀ d ∈ run.map (fun w => w.2.getSegmentDescr), d.offset + d.size < 2 ^ 64 := by
    intro d hd
    obtain ⟨w, hw, rfl⟩ := List.mem_map.mp hd
    exact hlay.bound (hcov.held w hw)
  unfold getBuffers
  dsimp only
  rw [hrange]
  dsimp only
  rw [extractSegments_collect hown, htake]
  dsimp only
  rw [completeSegments_tiled hne htiled hstart hbound]
  dsimp only
  rw [if_neg (by omega), List.append_nil, sortSegments_eq htiles (List.Perm.refl _)]

-- ---------------------------------------------------------------------------
-- The reads
-- ---------------------------------------------------------------------------

/-- A gap that the call loaded is no segment the object had: that one was found
and stands in the list already. -/
theorem Wove.new_of_load {c c' : Container μ σ} {n : Nat} {mode : ObjectAccessMode}
    {run : List (Nat × ObjectSegment)} {loads : List ObjectSegmentDescr}
    (h : Wove B c c' id b e run) (hmem : MemoryOk B c) (he : e = SizeT.add b n)
    (hperm : ((extractSegments B id b n mode ((c.segments id).lowerBound b) c).1 ++ loads).Perm
      (run.map fun w => w.2.getSegmentDescr))
    {w : Nat × ObjectSegment} (hw : w ∈ run) (hload : w.2.getSegmentDescr ∈ loads) :
    ∀ s, ¬ c.HasSegment id w.1 s := by
  intro s hs
  obtain ⟨A, Loaded, hgrow⟩ := h.grows
  obtain ⟨found, hfound⟩ : ∃ found, found = extractSegments B id b n mode
    ((c.segments id).lowerBound b) c := ⟨_, rfl⟩
  obtain ⟨taken, rest, htaken, hcol⟩ := extractSegments_collects (A := A) Loaded hmem h.layout he
    hfound
  rw [← hfound] at hperm
  obtain ⟨s', hs', hsame⟩ := hgrow.kept hs
  obtain rfl := hasSegment_unique hs' (h.covers.held w hw)
  have hmeets := h.covers.meets w hw
  have hstop : w.2.stop = s.stop := by
    unfold ObjectSegment.stop
    rw [hsame.offset, hsame.size]
  have hoff := hsame.offset
  obtain ⟨t, ht, hk⟩ := hcol.complete hs (by omega) (by omega)
  obtain ⟨t', ht', hsame'⟩ := hcol.grows.kept hs
  have htheld := hasSegment_of_lowerBound hcol.lowerBound (List.mem_append_left _ ht)
  rw [hk] at htheld
  obtain rfl := hasSegment_unique ht' htheld
  -- two elements of the list with one offset
  have hall := (hperm.pairwise_iff (fun hne => Ne.symm hne)).mpr h.covers.distinctOffsets
  have hcross := (List.pairwise_append.mp hall).2.2 t.2.getSegmentDescr
    (by rw [htaken]; exact List.mem_map_of_mem ht) _ hload
  refine hcross ?_
  rw [ObjectSegment.offset_getSegmentDescr, ObjectSegment.offset_getSegmentDescr, hsame'.offset,
    hoff]

/-- The whole result, for any container in which the object is well formed. -/
theorem getBuffers_tiling {c c' : Container μ (σ × List StorageCall)} {base size : Nat}
    {mode : ObjectAccessMode} {load isForWriteOp : Bool} {list : List ObjectSegmentDescr}
    (hmem : MemoryOk B.logged c) (hlay : LayoutOk (c.segments id)) (hsize : 1 ≤ size)
    (hb : b = alignedBase (c.object id).alignement base)
    (he : e = alignedEnd (c.object id).alignement base size) (hend : e < 2 ^ 64)
    (hget : c.getBuffers B.logged id base size mode load isForWriteOp = (some list, c')) :
    ExactTiling c c' id b e list ∧
      c'.getBuffers B.logged id base size mode load isForWriteOp = (some list, c') := by
  have hrange : alignRange (c.object id).alignement base size = (b, e - b) := by
    rw [alignRange_eq (he ▸ hend), hb, he]
  have hbe : b < e := by
    have h1 := alignedBase_le (c.object id).alignement base
    have h2 := le_alignedEnd (c.object id).alignement base size
    omega
  have hadd : e = SizeT.add b (e - b) := by
    rw [SizeT.add_eq (by omega)]
    omega
  obtain ⟨hgrow, hinside, -, hsome⟩ := getBuffers_spec (A := 1) hmem hlay (b := b) (e := e)
    (by rw [hrange]) (by rw [hrange]; exact hadd) ⟨Nat.one_dvd _, Nat.one_dvd _⟩ hget.symm
  obtain ⟨run, rfl, hcov, hweave, hex⟩ := hsome list rfl
  have hwove : Wove B.logged c c' id b e run := ⟨hlay, ⟨_, _, hgrow⟩, hcov, hweave⟩
  obtain ⟨start, last, hstart, hlast, htiles⟩ := hcov.tiles
  refine ⟨⟨?_, ⟨start, last, hstart, hlast, Tiles.map htiles⟩, fun k s hs => hgrow.kept hs,
    hwove.maximalGap_iff hinside hbe, ?_⟩, ?_⟩
  · rw [← hcov.eq_filter hgrow.layout hbe]
  · obtain ⟨loads, hlist, hlog⟩ := getBuffers_loads hrange hget
    have hperm : ((extractSegments B.logged id b (e - b) mode ((c.segments id).lowerBound b) c).1 ++
        loads).Perm (run.map fun w => w.2.getSegmentDescr) := by
      rw [hlist]
      exact (List.perm_insertionSort _ _).symm
    refine ⟨_, hlog, ?_, ?_⟩
    · have hloads := (List.pairwise_append.mp
        ((hperm.pairwise_iff fun hne => Ne.symm hne).mpr hcov.distinctOffsets)).2.1
      refine List.pairwise_map.mpr ((hloads.filter _).imp fun hne heq => hne ?_)
      exact (StorageCall.pread.inj heq).2.2
    · intro call hcall
      obtain ⟨d, hd, rfl⟩ := List.mem_map.mp hcall
      have hd' := List.mem_of_mem_filter hd
      obtain ⟨w, hw, rfl⟩ := List.mem_map.mp (hperm.mem_iff.mp (List.mem_append_right _ hd'))
      refine ⟨w.2.offset, w.2.stop,
        hwove.maximalGap hw (hwove.new_of_load hmem hadd hperm hw hd'), ?_⟩
      rw [ObjectSegment.size_getSegmentDescr, ObjectSegment.offset_getSegmentDescr,
        ObjectSegment.stop, Nat.add_sub_cancel_left]
  · refine getBuffers_covered hgrow.layout hcov hex ?_ hadd hbe
    rw [hgrow.header.alignement]
    exact hrange

end Container

namespace Server

open Container

variable {μ σ : Type} {B : Backends μ σ} {s₀ s : Server μ (σ × List StorageCall)} {id : ObjectId}
  {base size : Nat} {mode : ObjectAccessMode} {load isForWriteOp : Bool}
  {list : List ObjectSegmentDescr} {c' : Container μ (σ × List StorageCall)}

/-- **The list is an exact tiling.** For an object of any reachable state, any
request of at least one byte whose rounded range does not wrap, and any results of
the storage: what a successful call returns and leaves, and that a second call
returns the same and leaves everything as it is. -/
theorem getBuffers_exactTiling {A : Nat} {check : Bool} (hinit : Initial B.logged A check s₀)
    (hrun : Run (Step B.logged) (fun _ _ => True) s₀ s) (hsize : 1 ≤ size)
    (hend : alignedEnd (s.container.object id).alignement base size < 2 ^ 64)
    (hget : (s.container.getObject id).getBuffers B.logged id base size mode load isForWriteOp =
      (some list, c')) :
    ExactTiling (s.container.getObject id) c' id
      (alignedBase (s.container.object id).alignement base)
      (alignedEnd (s.container.object id).alignement base size) list ∧
    c'.getBuffers B.logged id base size mode load isForWriteOp = (some list, c') := by
  have hwf := (wf_run hinit hrun).getObject id
  have hobj := object_getObject s.container id id
  exact getBuffers_tiling hwf.memoryOk (hwf.layout id) hsize (by rw [hobj]) (by rw [hobj]) hend hget

/-- Two segments of object 1 with a gap between them. -/
def withGap : Server Malloc ((ObjectId → Bytes) × List StorageCall) :=
  (loggedServer 8).after localBackends.logged
    [.eagerWrite ⟨⟨1, 1⟩, 0, 8, fun _ => 7⟩, .eagerWrite ⟨⟨1, 1⟩, 16, 8, fun _ => 8⟩]

/-- A read over the gap gets three segments, and again the same three. -/
theorem withGap_exactTiling : ∃ list c',
    (withGap.container.getObject ⟨1, 1⟩).getBuffers localBackends.logged ⟨1, 1⟩ 4 16 .read true
      false = (some list, c') ∧ list.length = 3 ∧
    ExactTiling (withGap.container.getObject ⟨1, 1⟩) c' ⟨1, 1⟩ 0 24 list ∧
    c'.getBuffers localBackends.logged ⟨1, 1⟩ 4 16 .read true false = (some list, c') := by
  obtain ⟨list, c', hget⟩ : ∃ list c', (withGap.container.getObject ⟨1, 1⟩).getBuffers
      localBackends.logged ⟨1, 1⟩ 4 16 .read true false = (some list, c') := ⟨_, _, rfl⟩
  have hlen : ((withGap.container.getObject ⟨1, 1⟩).getBuffers localBackends.logged ⟨1, 1⟩ 4 16
      .read true false).1.map List.length = some 3 := by decide
  rw [hget] at hlen
  exact ⟨list, c', hget, Option.some.inj hlen, getBuffers_exactTiling (initial_loggedServer _ rfl 8)
    (run_after .start) (by decide) (by decide) hget⟩

end Server

end IoCatcher
