import IoCatcher.Model.RangeCopy
import IoCatcher.Safety.EagerWrite

/-!
# IO Catcher — the copies of a range copy-on-write

A source segment that a range copy cannot share is copied with one `memcpy` for each
buffer that the destination has in its place. The loop keeps four running values:
where it is in the source segment, where it is in the object, what is left, and how
much the buffer takes. The last one is not reduced by the place where the copy
starts in the first buffer.

* `rangeCopy_exact_iff` — every copy stays inside its buffers, and together they copy
  each position once, exactly when every border between two buffers lies in the part
  that is copied, and a border before its end only if the first buffer starts with
  it;
* `rangeCopy_over_border` — a part that starts inside a buffer and goes over its end.
-/

namespace IoCatcher

open Container

variable {μ σ : Type} {B : Backends μ σ} {c d : Container μ σ} {src dst : ObjectId}

-- ---------------------------------------------------------------------------
-- Statement
-- ---------------------------------------------------------------------------

/-- One `memcpy` of `rangeCopyOnWriteSegment`, with the buffer it targets. -/
structure CopyCall where
  it          : ObjectSegmentDescr
  destOffset  : Nat
  innerOffset : Nat
  copySize    : Nat
  deriving DecidableEq

/-- The calls that `copySegments` makes. -/
def copyCalls : List ObjectSegmentDescr → (innerOffset absOffset innerSize : Nat) → List CopyCall
  | [], _, _, _ => []
  | it :: rest, innerOffset, absOffset, innerSize =>
    let copySize := if innerSize < it.size then innerSize else it.size
    ⟨it, SizeT.sub absOffset it.offset, innerOffset, copySize⟩ ::
      copyCalls rest (SizeT.add innerOffset copySize) (SizeT.add absOffset copySize)
        (SizeT.sub innerSize copySize)

theorem copySegments_eq_foldl (mb : MemoryBackend μ) (sbuf : Addr) (l : List ObjectSegmentDescr) :
    ∀ (innerOffset absOffset innerSize : Nat) (m : Memory μ),
      copySegments mb sbuf l innerOffset absOffset innerSize m =
        (copyCalls l innerOffset absOffset innerSize).foldl (fun m call =>
          m.memcpy mb (call.it.ptr.add call.destOffset) ⟨sbuf, call.innerOffset⟩
            call.copySize) m := by
  induction l with
  | nil => exact fun _ _ _ _ => rfl
  | cons it rest ih =>
    intro innerOffset absOffset innerSize m
    rw [copySegments, copyCalls, List.foldl_cons]
    exact ih ..

/-- The calls of one step of a range copy. -/
def rangeCopyCalls (B : Backends μ σ) (c : Container μ σ) (dst : ObjectId) (orig : ObjectSegment)
    (offset size : Nat) : List CopyCall :=
  let inner := innerRange orig offset size
  let absOffset := SizeT.add orig.offset inner.1
  copyCalls ((c.getBuffers B dst absOffset inner.2 .write true false).1.getD []) inner.1 absOffset
    inner.2

/-- The positions a call writes, each with the position of the source it comes
from. -/
def CopyCall.positions (orig : ObjectSegment) (call : CopyCall) : List (Nat × Nat) :=
  (List.range call.copySize).map fun j =>
    (call.it.offset + call.destOffset + j, orig.offset + call.innerOffset + j)

/-- The calls stay inside their buffers and copy each position of `[lo, hi)` once,
to the same position. -/
structure ExactCalls (orig : ObjectSegment) (lo hi : Nat) (calls : List CopyCall) : Prop where
  writes : ∀ call ∈ calls, call.destOffset + call.copySize ≤ call.it.size
  reads  : ∀ call ∈ calls, call.innerOffset + call.copySize ≤ orig.getSize
  once   : calls.flatMap (CopyCall.positions orig) =
    (List.range' lo (hi - lo)).map fun x => (x, x)

/-- What the calls leave, from the container `d` with the buffers: the bytes that the
source had in `c`, and no other byte of any object changed. -/
structure CopiedBytes (src dst : ObjectId) (lo hi : Nat) (c d c' : Container μ σ) : Prop where
  inside  : ∀ x, lo ≤ x → x < hi → c'.cached dst x = c.cached src x
  outside : ∀ id x, ¬ (id = dst ∧ lo ≤ x ∧ x < hi) → c'.cached id x = d.cached id x

/-- Two buffers of the range `[b, e)` meet at `y`: a segment starts or ends there. -/
def Border (c : Container μ σ) (id : ObjectId) (b e y : Nat) : Prop :=
  b < y ∧ y < e ∧ ∃ k t, c.HasSegment id k t ∧ (t.offset = y ∨ t.stop = y)

/-- The copy of `[lo, hi)` into the buffers of the range `[b, e)` stays inside them. -/
structure CopyFits (c : Container μ σ) (id : ObjectId) (b e lo hi : Nat) : Prop where
  /-- The buffers reach the end of the part. -/
  reach   : Backed c id e (hi - 1)
  /-- They meet inside it, and before its end only if the first one starts with it. -/
  borders : ∀ y, Border c id b e y → lo < y ∧ y ≤ hi ∧
    (y < hi → b = lo ∧ ∀ k t, c.HasSegment id k t → t.Holds b → t.offset = b)

-- ---------------------------------------------------------------------------
-- The calls on a run of buffers
-- ---------------------------------------------------------------------------

section Calls

variable {orig : ObjectSegment} {inner lo hi last : Nat} {w : Nat × ObjectSegment}
  {rest : List (Nat × ObjectSegment)}

/-- The call for a buffer behind the first one. -/
def callOf (inner lo hi : Nat) (v : ObjectSegment) : CopyCall :=
  ⟨v.getSegmentDescr, SizeT.sub (min hi v.offset) v.offset, inner + (min hi v.offset - lo),
    min (hi - min hi v.offset) v.getSize⟩

theorem copyCalls_cons (s : ObjectSegment) (l : List ObjectSegmentDescr) (i a n : Nat) :
    copyCalls (s.getSegmentDescr :: l) i a n =
      ⟨s.getSegmentDescr, SizeT.sub a s.offset, i, min n s.getSize⟩ ::
        copyCalls l (SizeT.add i (min n s.getSize)) (SizeT.add a (min n s.getSize))
          (SizeT.sub n (min n s.getSize)) := by
  have hcopy : (if n < s.getSegmentDescr.size then n else s.getSegmentDescr.size) =
      min n s.getSize := by
    rw [ObjectSegment.size_getSegmentDescr]
    split_ifs <;> omega
  rw [copyCalls, hcopy, ObjectSegment.offset_getSegmentDescr]

/-- Once the copy has reached the end of a buffer, or of the part, it continues with
the next buffer. -/
theorem copyCalls_rest (hhi : hi < 2 ^ 64) (hlen : inner + (hi - lo) < 2 ^ 64) (hlohi : lo ≤ hi) :
    ∀ {rest : List (Nat × ObjectSegment)} {a : Nat},
      Tiles (fun w => w.2.offset) (fun w => w.2.getSize) a rest last → lo ≤ a →
      copyCalls (rest.map fun v => v.2.getSegmentDescr) (inner + (min hi a - lo)) (min hi a)
        (hi - min hi a) = rest.map fun v => callOf inner lo hi v.2 := by
  intro rest
  induction rest with
  | nil => exact fun _ _ => rfl
  | cons v rest ih =>
    rintro a ⟨hoff, hpos, htiles⟩ ha
    dsimp only at hoff hpos htiles
    obtain ⟨n, hn⟩ : ∃ n, n = min (hi - min hi a) v.2.getSize := ⟨_, rfl⟩
    have hnext : min hi a + n = min hi (v.2.offset + v.2.getSize) := by omega
    rw [List.map_cons, List.map_cons, copyCalls_cons, ← hn, SizeT.add_eq (by omega),
      SizeT.add_eq (by omega), SizeT.sub_eq (b := n) (by omega) (by omega), hnext,
      show inner + (min hi a - lo) + n = inner + (min hi (v.2.offset + v.2.getSize) - lo) by omega,
      show hi - min hi a - n = hi - min hi (v.2.offset + v.2.getSize) by omega,
      ih htiles (by omega)]
    unfold callOf
    rw [hoff, hn]

/-- A call that reads and writes at the same position. -/
theorem positions_eq {call : CopyCall} {x : Nat} (hdest : call.it.offset + call.destOffset = x)
    (hinner : orig.offset + call.innerOffset = x) :
    call.positions orig = (List.range' x call.copySize).map fun x => (x, x) := by
  unfold CopyCall.positions
  rw [List.range'_eq_map_range, List.map_map, hdest, hinner]
  rfl

/-- The positions of the buffers behind the first one. -/
theorem positions_rest (hinner : orig.offset + inner = lo) :
    ∀ {rest : List (Nat × ObjectSegment)} {a : Nat},
      Tiles (fun w => w.2.offset) (fun w => w.2.getSize) a rest last → lo ≤ a →
      (∀ v ∈ rest, v.2.offset ≤ hi ∧ v.2.offset < 2 ^ 64) →
      (rest.map fun v => callOf inner lo hi v.2).flatMap (CopyCall.positions orig) =
        (List.range' (min hi a) (min hi last - min hi a)).map fun x => (x, x) := by
  intro rest
  induction rest with
  | nil =>
    intro a htiles _ _
    obtain rfl : a = last := htiles
    rw [Nat.sub_self]
    rfl
  | cons v rest ih =>
    rintro a ⟨hoff, hpos, htiles⟩ ha hbelow
    dsimp only at hoff hpos htiles
    have hv := hbelow v (List.mem_cons_self ..)
    have hlast := htiles.le
    obtain ⟨n, hn⟩ : ∃ n, n = min (hi - min hi v.2.offset) v.2.getSize := ⟨_, rfl⟩
    have hnext : min hi a + n = min hi (v.2.offset + v.2.getSize) := by omega
    have hzero : SizeT.sub (min hi v.2.offset) v.2.offset = 0 := by
      rw [SizeT.sub_eq (by omega) (by omega)]
      omega
    -- the positions of this buffer, then those of the others
    have hfirst : CopyCall.positions orig (callOf inner lo hi v.2) =
        (List.range' (min hi a) n).map fun x => (x, x) := by
      rw [hn]
      refine positions_eq (?_ : (callOf inner lo hi v.2).it.offset + _ = _) ?_
      · show v.2.offset + SizeT.sub (min hi v.2.offset) v.2.offset = min hi a
        omega
      · show orig.offset + (inner + (min hi v.2.offset - lo)) = min hi a
        omega
    rw [List.map_cons, List.flatMap_cons, hfirst,
      ih htiles (by omega) fun v' hv' => hbelow v' (List.mem_cons_of_mem _ hv'), ← List.map_append,
      ← hnext, List.range'_append_1]
    congr 2
    omega

/-- **The calls on a run** are exact when the first buffer starts with the part or
contains it, no buffer starts behind the part, and they reach its end. -/
theorem exactCalls_iff (hhi : hi < 2 ^ 64) (hlohi : lo < hi) (hinner : orig.offset + inner = lo)
    (hlen : inner + (hi - lo) ≤ orig.getSize) (hsize : orig.getSize < 2 ^ 64)
    (htiles : Tiles (fun w => w.2.offset) (fun w => w.2.getSize) w.2.offset (w :: rest) last)
    (hlo : w.2.offset ≤ lo) (hbound : ∀ v ∈ rest, v.2.stop < 2 ^ 64) :
    ExactCalls orig lo hi
        (copyCalls ((w :: rest).map fun v => v.2.getSegmentDescr) inner lo (hi - lo)) ↔
      (w.2.offset = lo ∨ hi ≤ w.2.stop) ∧ (∀ v ∈ rest, v.2.offset ≤ hi) ∧ hi ≤ last := by
  obtain ⟨-, hpos, hrest⟩ := htiles
  dsimp only at hpos hrest
  have hstop : w.2.stop = w.2.offset + w.2.getSize := rfl
  have hlast := hrest.le
  have hbelow : ∀ v ∈ rest, v.2.offset + v.2.getSize < 2 ^ 64 := hbound
  obtain ⟨n, hn⟩ : ∃ n, n = min (hi - lo) w.2.getSize := ⟨_, rfl⟩
  rw [List.map_cons, copyCalls_cons, ← hn, SizeT.sub_eq (a := lo) hlo (by omega)]
  -- the first buffer, and what it leaves to the others
  have hfirst : lo - w.2.offset + n ≤ w.2.getSize ↔ w.2.offset = lo ∨ hi ≤ w.2.stop := by omega
  have hothers : (w.2.offset = lo ∨ hi ≤ w.2.stop) →
      copyCalls (rest.map fun v => v.2.getSegmentDescr) (SizeT.add inner n) (SizeT.add lo n)
        (SizeT.sub (hi - lo) n) = rest.map fun v => callOf inner lo hi v.2 := by
    intro hgood
    have hnext : lo + n = min hi (w.2.offset + w.2.getSize) := by omega
    rw [SizeT.add_eq (by omega), SizeT.add_eq (by omega), SizeT.sub_eq (by omega) (by omega), hnext,
      show inner + n = inner + (min hi (w.2.offset + w.2.getSize) - lo) by omega,
      show hi - lo - n = hi - min hi (w.2.offset + w.2.getSize) by omega]
    exact copyCalls_rest hhi (by omega) hlohi.le hrest (by omega)
  have hpositions : (w.2.offset = lo ∨ hi ≤ w.2.stop) → (∀ v ∈ rest, v.2.offset ≤ hi) →
      (CopyCall.positions orig ⟨w.2.getSegmentDescr, lo - w.2.offset, inner, n⟩) ++
        (rest.map fun v => callOf inner lo hi v.2).flatMap (CopyCall.positions orig) =
      (List.range' lo (min hi last - lo)).map fun x => (x, x) := by
    intro hgood hall
    have hnext : lo + n = min hi (w.2.offset + w.2.getSize) := by omega
    have hwhole : n + (min hi last - min hi (w.2.offset + w.2.getSize)) = min hi last - lo := by
      omega
    rw [positions_eq (x := lo) (by show w.2.offset + (lo - w.2.offset) = lo; omega) hinner,
      positions_rest hinner hrest (by omega) fun v hv => ⟨hall v hv, by have := hbelow v hv; omega⟩,
      ← List.map_append, ← hnext, List.range'_append_1, hnext, hwhole]
  constructor
  · intro h
    have hgood := hfirst.mp (h.writes _ (List.mem_cons_self ..))
    rw [hothers hgood] at h
    have hall : ∀ v ∈ rest, v.2.offset ≤ hi := by
      intro v hv
      have hin := h.writes _ (List.mem_cons_of_mem _ (List.mem_map.mpr ⟨v, hv, rfl⟩))
      have hvb := hbelow v hv
      by_contra hno
      -- the offset in the buffer wraps
      have hdest : SizeT.sub (min hi v.2.offset) v.2.offset + min (hi - min hi v.2.offset)
        v.2.getSize ≤ v.2.getSize := hin
      unfold SizeT.sub at hdest
      omega
    refine ⟨hgood, hall, ?_⟩
    have honce := congrArg List.length
      ((hpositions hgood hall).symm.trans ((List.flatMap_cons ..).symm.trans h.once))
    rw [List.length_map, List.length_map, List.length_range', List.length_range'] at honce
    omega
  · rintro ⟨hgood, hall, hend⟩
    rw [hothers hgood]
    refine ⟨fun call hcall => ?_, fun call hcall => ?_, ?_⟩
    · rcases List.mem_cons.mp hcall with rfl | hcall
      · exact hfirst.mpr hgood
      · obtain ⟨v, hv, rfl⟩ := List.mem_map.mp hcall
        have hle := hall v hv
        have hvb := hbelow v hv
        show SizeT.sub (min hi v.2.offset) v.2.offset + min (hi - min hi v.2.offset) v.2.getSize ≤
          v.2.getSize
        rw [SizeT.sub_eq (by omega) (by omega)]
        omega
    · rcases List.mem_cons.mp hcall with rfl | hcall
      · show inner + n ≤ orig.getSize
        omega
      · obtain ⟨v, hv, rfl⟩ := List.mem_map.mp hcall
        have hle := (hrest.mem_bounds hv).1
        show inner + (min hi v.2.offset - lo) + min (hi - min hi v.2.offset) v.2.getSize ≤
          orig.getSize
        omega
    · rw [List.flatMap_cons, hpositions hgood hall, Nat.min_eq_left hend]

end Calls

-- ---------------------------------------------------------------------------
-- The borders of the buffers
-- ---------------------------------------------------------------------------

section Borders

variable {b e lo hi : Nat} {w : Nat × ObjectSegment} {rest : List (Nat × ObjectSegment)}

/-- The buffers behind the first one start at the borders. -/
theorem border_iff (h : Wove B c d dst b e (w :: rest)) (y : Nat) :
    (∃ v ∈ rest, v.2.offset = y) ↔ Border c dst b e y := by
  obtain ⟨start, last, hstart, hlast, hoff, hpos, htiles⟩ := h.covers.tiles
  dsimp only at hoff hpos htiles
  have hw := h.covers.meets w (List.mem_cons_self ..)
  have hstop : w.2.stop = w.2.offset + w.2.getSize := rfl
  constructor
  · rintro ⟨v, hv, rfl⟩
    have hmem := List.mem_cons_of_mem w hv
    have hle := (htiles.mem_bounds hv).1
    refine ⟨by omega, (h.covers.meets v hmem).1, ?_⟩
    rcases h.weaves.new v hmem with ⟨t, ht⟩ | ⟨-, -, hb | ⟨k, t, ht, -, hend⟩⟩
    · exact ⟨v.1, t, ht, Or.inl (h.kept hmem ht).1.symm⟩
    · omega
    · exact ⟨k, t, ht, Or.inr hend⟩
  · rintro ⟨hby, hye, k, t, ht, hat⟩
    -- the buffer that holds the border starts there
    obtain ⟨v, hv, hv1, hv2⟩ := Tiles.exists_mem (l := w :: rest) (x := y) ⟨hoff, hpos, htiles⟩
      (by omega) (by omega)
    have htpos := h.layout.pos ht
    have htstop : t.stop = t.offset + t.getSize := rfl
    have hvstop : v.2.stop = v.2.offset + v.2.getSize := rfl
    obtain ⟨u, hu, huk⟩ := h.weaves.old ht (by omega) (by omega)
    obtain ⟨hu1, hu2⟩ := h.kept hu (huk ▸ ht)
    have hustop : u.2.stop = u.2.offset + u.2.getSize := rfl
    have hvy : v.2.offset = y := by
      obtain ⟨A, Loaded, hgrow⟩ := h.grows
      by_contra hne
      obtain ⟨-, hsame⟩ := hgrow.layout.eq_of_shared (h.covers.held v hv) (h.covers.held u hu)
        (x := if t.offset = y then y else y - 1) (by split_ifs <;> omega) (by split_ifs <;> omega)
        (by split_ifs <;> omega) (by split_ifs <;> omega)
      rw [hsame] at hne hv2
      omega
    rcases List.mem_cons.mp hv with rfl | hv
    · omega
    · exact ⟨v, hv, hvy⟩

/-- **When the copy fits**, in terms of the run. -/
theorem copyFits_iff (h : Wove B c d dst b e (w :: rest)) (hb : b ≤ lo) (hlohi : lo < hi) :
    CopyFits c dst b e lo hi ↔ (w.2.offset = lo ∨ hi ≤ w.2.stop) ∧ (∀ v ∈ rest, v.2.offset ≤ hi) ∧
      ∃ v ∈ w :: rest, v.2.Holds (hi - 1) := by
  obtain ⟨start, last, hstart, hlast, hoff, hpos, htiles⟩ := h.covers.tiles
  dsimp only at hoff hpos htiles
  have hmem : w ∈ w :: rest := List.mem_cons_self ..
  have hw := h.covers.meets w hmem
  have hstop : w.2.stop = w.2.offset + w.2.getSize := rfl
  have hafter : ∀ v ∈ rest, w.2.stop ≤ v.2.offset := fun v hv => (htiles.mem_bounds hv).1
  constructor
  · rintro ⟨hreach, hborders⟩
    obtain ⟨v, hv, hvx⟩ := (backed_iff h (x := hi - 1) (by omega)).mpr hreach
    refine ⟨?_, fun v hv => (hborders _ ((border_iff h _).mp ⟨v, hv, rfl⟩)).2.1, v, hv, hvx⟩
    have hv2 := hvx.2
    by_cases hin : hi ≤ w.2.stop
    · exact Or.inr hin
    · refine Or.inl ?_
      -- another buffer follows, where the first one ends
      cases rest with
      | nil =>
        rw [List.mem_singleton.mp hv] at hv2
        omega
      | cons v' rest =>
        have hv' : v'.2.offset = w.2.stop := htiles.1
        obtain ⟨-, -, hfirst⟩ := hborders _ ((border_iff h _).mp ⟨v', List.mem_cons_self .., rfl⟩)
        obtain ⟨rfl, hheld⟩ := hfirst (by omega)
        rcases h.weaves.new w hmem with ⟨t, ht⟩ | ⟨hge, -, -⟩
        · obtain ⟨h1, h2⟩ := h.kept hmem ht
          have := hheld _ t ht ⟨by omega, by omega⟩
          omega
        · omega
  · rintro ⟨hfirst, hbelow, hreach⟩
    refine ⟨(backed_iff h (by omega)).mp hreach, fun y hy => ?_⟩
    obtain ⟨v, hv, rfl⟩ := (border_iff h y).mpr hy
    have hle := hafter v hv
    refine ⟨by omega, hbelow v hv, fun hlt => ⟨by omega, fun k t ht htb => ?_⟩⟩
    have ht1 := htb.1
    obtain ⟨u, hu, rfl⟩ := h.weaves.old ht (by omega) htb.2
    obtain ⟨hu1, hu2⟩ := h.kept hu ht
    rcases List.mem_cons.mp hu with rfl | hu
    · omega
    · have := hafter u hu
      omega

end Borders

-- ---------------------------------------------------------------------------
-- One step
-- ---------------------------------------------------------------------------

section Step

variable {key offset size : Nat} {orig : ObjectSegment} {segments : List ObjectSegmentDescr}

/-- The calls of a step, on the part of the source segment that it copies. -/
theorem rangeCopyCalls_eq (hb : orig.stop < 2 ^ 64) (hnw : offset + size < 2 ^ 64)
    (h1 : orig.offset < offset + size) (h2 : offset < orig.stop)
    (hget : c.getBuffers B dst (partLo orig offset) (partHi orig offset size - partLo orig offset)
      .write true false = (some segments, d)) :
    rangeCopyCalls B c dst orig offset size = copyCalls segments (partLo orig offset - orig.offset)
      (partLo orig offset) (partHi orig offset size - partLo orig offset) := by
  obtain ⟨habs, hinner, hend⟩ := innerRange_spec hb hnw h1 h2
  have hlen : (innerRange orig offset size).2 = partHi orig offset size - partLo orig offset := by
    unfold partLo partHi
    omega
  have hlo : max orig.offset offset = partLo orig offset := rfl
  unfold rangeCopyCalls
  dsimp only
  rw [habs, hlen, hinner, hlo, hget]
  rfl

/-- The bytes that a copy which fits leaves. -/
theorem copiedBytes_of_run {g b e lo hi : Nat} {Loaded : Nat → Nat → Prop}
    {w : Nat × ObjectSegment} {rest : List (Nat × ObjectSegment)}
    (hgrow : Grows B g Loaded c d dst) (hlay : LayoutOk (c.segments src))
    (hs : c.HasSegment src key orig) (hpart : orig.offset ≤ lo ∧ lo < hi ∧ hi ≤ orig.stop)
    (hcov : Covers d dst b e (w :: rest))
    (hex : ∀ v ∈ w :: rest, d.Exclusive dst v.1 v.2.memory.buffer) (hlo : w.2.offset ≤ lo)
    (hfirst : w.2.offset = lo ∨ hi ≤ w.2.stop) (hbelow : ∀ v ∈ rest, v.2.offset ≤ hi)
    (hreach : ∀ x, lo ≤ x → x < hi → ∃ v ∈ w :: rest, v.2.Holds x) :
    CopiedBytes src dst lo hi c d { d with
      memory := copySegments B.memoryBackend
        (((d.segments src).find? key).getD orig).memory.buffer
        ((w :: rest).map fun v => v.2.getSegmentDescr) (lo - orig.offset) lo (hi - lo)
        d.memory } := by
  obtain ⟨t, ht, hsame, hfind⟩ := hgrow.source hs
  have hstop : w.2.stop = w.2.offset + w.2.getSize := rfl
  have hostop : orig.stop = orig.offset + orig.getSize := rfl
  have hpos := hgrow.layout.pos (hcov.held w (List.mem_cons_self ..))
  have hholds : w.2.Holds lo := ⟨hlo, by omega⟩
  have hst := stored_copySegments hgrow hs (hlay.bound hs) hpart hcov hex hholds hfirst hbelow ht
    hsame
  have hown : Owned d dst (w :: rest) := .of_held hcov.held hex
  rw [hfind]
  refine ⟨fun x hx1 hx2 => ?_, fun id x hx => ?_⟩
  · obtain ⟨v, hv, hvx⟩ := hreach x hx1 hx2
    rw [hown.cached_inside hst hgrow.layout ⟨hx1, by omega⟩ hv hvx,
      cached_of_segment hlay hs ⟨by omega, by omega⟩, ← hsame.bytes _ (by omega)]
    congr 2
    omega
  · exact hown.cached_outside hst fun hin => hx ⟨hin.1, hin.2.1, by omega⟩

/-- **When the copies of a step are exact**, in any well-formed state. -/
theorem exactCopy_iff (hwf : Wf B 1 c) (hs : c.HasSegment src key orig) (hsize : 0 < size)
    (hnw : offset + size < 2 ^ 64) (h1 : orig.offset < offset + size) (h2 : offset < orig.stop)
    (hhand : ByHand c dst orig offset size)
    (hget : c.getBuffers B dst (partLo orig offset) (partHi orig offset size - partLo orig offset)
      .write true false = (some segments, d)) :
    (ExactCalls orig (partLo orig offset) (partHi orig offset size)
        (rangeCopyCalls B c dst orig offset size) ∧
      CopiedBytes src dst (partLo orig offset) (partHi orig offset size) c d
        (c.rangeCopyOnWriteSegment B src dst key orig offset size)) ↔
    CopyFits c dst
      (alignRange (c.object dst).alignement (partLo orig offset)
        (partHi orig offset size - partLo orig offset)).1
      (SizeT.add
        (alignRange (c.object dst).alignement (partLo orig offset)
          (partHi orig offset size - partLo orig offset)).1
        (alignRange (c.object dst).alignement (partLo orig offset)
          (partHi orig offset size - partLo orig offset)).2)
      (partLo orig offset) (partHi orig offset size) := by
  have hb := (hwf.layout src).bound hs
  have hpos := (hwf.layout src).pos hs
  have hstop : orig.stop = orig.offset + orig.getSize := rfl
  have hpart : orig.offset ≤ partLo orig offset ∧ partLo orig offset < partHi orig offset size ∧
      partHi orig offset size ≤ orig.stop := by
    unfold partLo partHi
    omega
  have hresult := byHand_eq hs (hwf.layout src) hnw h1 h2 hhand hget.symm
  rw [rangeCopyCalls_eq hb hnw h1 h2 hget, hresult]
  obtain ⟨hgrow, -, -, hsome⟩ := getBuffers_spec (A := 1) hwf.memoryOk (hwf.layout dst) rfl rfl
    ⟨Nat.one_dvd _, Nat.one_dvd _⟩ hget.symm
  obtain ⟨run, rfl, hcov, hweave, hex⟩ := hsome segments rfl
  have hle := alignRange_fst_le (c.object dst).alignement (partLo orig offset)
    (partHi orig offset size - partLo orig offset)
  have hwove := Wove.mk (hwf.layout dst) ⟨_, _, hgrow⟩ hcov hweave
  clear hresult hget
  generalize partLo orig offset = lo at *
  generalize partHi orig offset size = hi at *
  cases run with
  | nil =>
    -- no buffer: nothing is copied
    constructor
    · rintro ⟨hexact, -⟩
      have honce := congrArg List.length hexact.once
      rw [List.map_nil, copyCalls, List.flatMap_nil, List.length_map, List.length_range'] at honce
      have : hi - lo = 0 := honce.symm
      omega
    · intro hfits
      obtain ⟨v, hv, -⟩ := (backed_iff hwove (by omega)).mpr hfits.reach
      exact absurd hv List.not_mem_nil
  | cons w rest =>
    obtain ⟨start, last, hstart, hlast, htiles⟩ := hcov.tiles
    have hoff : w.2.offset = start := htiles.1
    have hends : hi ≤ last ↔ ∃ v ∈ w :: rest, v.2.Holds (hi - 1) := by
      constructor
      · intro hend
        obtain ⟨v, hv, hv1, hv2⟩ := htiles.exists_mem (x := hi - 1) (by omega) (by omega)
        exact ⟨v, hv, hv1, hv2⟩
      · rintro ⟨v, hv, -, hv2⟩
        have hend : v.2.stop ≤ last := (htiles.mem_bounds hv).2.2
        omega
    have hinner : orig.offset + (lo - orig.offset) = lo := by omega
    have hlen : lo - orig.offset + (hi - lo) ≤ orig.getSize := by omega
    have hcalls := exactCalls_iff (by omega) hpart.2.1 hinner hlen (by omega) (hoff ▸ htiles)
      (by omega) fun v hv => hgrow.layout.bound (hcov.held v (List.mem_cons_of_mem _ hv))
    rw [copyFits_iff hwove (by omega) hpart.2.1, ← hends, ← hcalls]
    refine ⟨fun h => h.1, fun hexact => ⟨hexact, ?_⟩⟩
    obtain ⟨hfirst, hbelow, hend⟩ := hcalls.mp hexact
    refine copiedBytes_of_run hgrow (hwf.layout src) hs hpart hcov (hex rfl) (by omega) hfirst
      hbelow fun x hx1 hx2 => ?_
    obtain ⟨v, hv, hv1, hv2⟩ := htiles.exists_mem (x := x) (by omega) (by omega)
    exact ⟨v, hv, hv1, hv2⟩

end Step

namespace Server

variable {s s₀ : Server μ σ}

/-- **When the copies of a range copy stay inside their buffers.** In every reachable
state, at every turn of the loop over the source segments, if the buffers of the
destination were loaded. -/
theorem rangeCopy_exact_iff {A key offset size : Nat} {check : Bool} {keys : List Nat}
    {orig : ObjectSegment} {segments : List ObjectSegmentDescr} (hinit : Initial B A check s₀)
    (hrun : Run (Step B) (fun _ _ => True) s₀ s)
    (hc : c = rangeCopyLoop B src dst offset size keys (s.container.getObject dst))
    (hs : c.HasSegment src key orig) (hsize : 0 < size) (hnw : offset + size < 2 ^ 64)
    (h1 : orig.offset < offset + size) (h2 : offset < orig.stop)
    (hhand : ByHand c dst orig offset size)
    (hget : c.getBuffers B dst (partLo orig offset) (partHi orig offset size - partLo orig offset)
      .write true false = (some segments, d)) :
    (ExactCalls orig (partLo orig offset) (partHi orig offset size)
        (rangeCopyCalls B c dst orig offset size) ∧
      CopiedBytes src dst (partLo orig offset) (partHi orig offset size) c d
        (c.rangeCopyOnWriteSegment B src dst key orig offset size)) ↔
    CopyFits c dst
      (alignRange (c.object dst).alignement (partLo orig offset)
        (partHi orig offset size - partLo orig offset)).1
      (SizeT.add
        (alignRange (c.object dst).alignement (partLo orig offset)
          (partHi orig offset size - partLo orig offset)).1
        (alignRange (c.object dst).alignement (partLo orig offset)
          (partHi orig offset size - partLo orig offset)).2)
      (partLo orig offset) (partHi orig offset size) := by
  have hwf : Wf B 1 c := by
    rw [hc]
    exact (((wf_run hinit hrun).getObject dst).rangeCopyLoop (innerOk_one _ _ _)).1
  exact exactCopy_iff hwf hs hsize hnw h1 h2 hhand hget

/-- Object 1 has one segment of 16 bytes, object 2 two of 8. -/
def sixteenToEight : Server Malloc (ObjectId → Bytes) :=
  (localServer 8 0).after localBackends
    [.eagerWrite ⟨⟨1, 1⟩, 0, 16, fun _ => 7⟩, .eagerWrite ⟨⟨1, 2⟩, 0, 8, fun _ => 3⟩,
      .eagerWrite ⟨⟨1, 2⟩, 8, 8, fun _ => 3⟩]

/-- The source segment. -/
def sixteen : ObjectSegment := ⟨⟨0, 16⟩, 0, true⟩

theorem hasSegment_sixteen :
    (sixteenToEight.container.getObject ⟨1, 2⟩).HasSegment ⟨1, 1⟩ 15 sixteen :=
  List.mem_singleton_self _

/-- The first bytes of the segment go into both buffers. -/
theorem rangeCopy_two_buffers : ∃ d,
    ExactCalls sixteen 0 12
      (rangeCopyCalls localBackends (sixteenToEight.container.getObject ⟨1, 2⟩) ⟨1, 2⟩ sixteen 0
        12) ∧
    CopiedBytes ⟨1, 1⟩ ⟨1, 2⟩ 0 12 (sixteenToEight.container.getObject ⟨1, 2⟩) d
      ((sixteenToEight.container.getObject ⟨1, 2⟩).rangeCopyOnWriteSegment localBackends ⟨1, 1⟩
        ⟨1, 2⟩ 15 sixteen 0 12) := by
  have hfirst : sixteenToEight.container.getObject ⟨1, 2⟩ = rangeCopyLoop localBackends ⟨1, 1⟩
    ⟨1, 2⟩ 0 12 [] (sixteenToEight.container.getObject ⟨1, 2⟩) := rfl
  have hgrid : ∀ e ∈ ((sixteenToEight.container.getObject ⟨1, 2⟩).segments ⟨1, 2⟩).entries,
      e.2.offset % 8 = 0 ∧ e.2.stop % 8 = 0 := by decide
  obtain ⟨d, hget⟩ : ∃ d, (sixteenToEight.container.getObject ⟨1, 2⟩).getBuffers localBackends
    ⟨1, 2⟩ 0 12 .write true false = (some [⟨⟨1, 0⟩, 0, 8⟩, ⟨⟨2, 0⟩, 8, 8⟩], d) := ⟨_, rfl⟩
  refine ⟨d, (rangeCopy_exact_iff (initial_localServer 8 0) (run_after .start) hfirst
    hasSegment_sixteen (by decide) (by decide) (by decide) (by decide) (Or.inl (by decide))
    hget).mpr ⟨Or.inl (by decide), ?_⟩⟩
  rintro y ⟨hby, hye, k, t, ht, hat⟩
  have hy := hgrid _ ht
  have hb : 0 < y := hby
  have he : y < 16 := hye
  dsimp only at hy
  have hlo : partLo sixteen 0 = 0 := rfl
  have hhi : partHi sixteen 0 12 = 12 := rfl
  refine ⟨by omega, by omega, fun _ => ⟨rfl, fun _ _ _ hx => Nat.le_zero.mp hx.1⟩⟩

/-- **A copy over a border**: the part `[4, 12)` starts inside the first buffer and goes
over its end. The first call writes 8 bytes from the middle of a buffer of 8. -/
theorem rangeCopy_over_border :
    Run (Step localBackends) (fun _ _ => True) (localServer 8 0) sixteenToEight ∧
    ByHand (sixteenToEight.container.getObject ⟨1, 2⟩) ⟨1, 2⟩ sixteen 4 8 ∧
    (sixteenToEight.container.getObject ⟨1, 2⟩).HasSegment ⟨1, 1⟩ 15 sixteen ∧
    ((sixteenToEight.container.getObject ⟨1, 2⟩).getBuffers localBackends ⟨1, 2⟩ 4 8 .write true
      false).1 = some [⟨⟨1, 0⟩, 0, 8⟩, ⟨⟨2, 0⟩, 8, 8⟩] ∧
    ¬ ExactCalls sixteen 4 12
      (rangeCopyCalls localBackends (sixteenToEight.container.getObject ⟨1, 2⟩) ⟨1, 2⟩ sixteen 4
        8) := by
  refine ⟨run_after .start, Or.inl (by decide), hasSegment_sixteen, by decide, fun h => ?_⟩
  exact absurd (h.writes ⟨⟨⟨1, 0⟩, 0, 8⟩, 4, 4, 8⟩ (by decide)) (by decide)

end Server

end IoCatcher
