import IoCatcher.Model.Content
import IoCatcher.Model.Server

/-!
# IO Catcher — moving bytes in and out of segments

An eager write copies from the message into the segments, an RDMA write lands
there later; reads go the other way. All four walk a run of consecutive
segments and cut it to the requested range. `storeRun` says once what that
means for a write — for each segment, the part inside the range — and the
hooks are shown to do exactly this:

* `objEagerExtractFromMessage_eq` — the eager copy, whenever its assertions
  hold;
* `landGroups_filter` — the RDMA vectors, when no segment is trimmed by 2 GiB
  or more (the trim goes through an `int`);
* `rdmaPayload_eq` — the vectors of an RDMA read, likewise;
* `Stored` — the effect on memory and, through it, on the content.
-/

namespace IoCatcher

variable {μ σ : Type}

/-! ## Writes to memory -/

namespace Memory

variable {mb : MemoryBackend μ} {m : Memory μ}

@[simp] theorem backend_write (m : Memory μ) (p : Ptr) (len : Nat) (data : Bytes) :
    (m.write mb p len data).backend = m.backend := rfl

@[simp] theorem calls_write (m : Memory μ) (p : Ptr) (len : Nat) (data : Bytes) :
    (m.write mb p len data).calls = m.calls := rfl

/-- A write touches only its own chunk. -/
theorem bytes_write_other {p : Ptr} {len : Nat} {data : Bytes} {a : Addr} (h : a ≠ p.base) :
    (m.write mb p len data).bytes a = m.bytes a := by
  funext i
  exact if_neg fun hc => h hc.1

/-- Only the bytes that are written matter. -/
theorem write_congr {p : Ptr} {len : Nat} {data data' : Bytes} (h : ∀ i < len, data i = data' i) :
    m.write mb p len data = m.write mb p len data' := by
  unfold write
  congr 1
  funext a i
  split_ifs with hc
  · exact h _ (by omega)
  · rfl

theorem bytes_write {base : Addr} {delta len : Nat} {data : Bytes} {i : Nat} :
    (m.write mb ⟨base, delta⟩ len data).bytes base i =
      if delta ≤ i ∧ i < delta + len then data (i - delta) else m.bytes base i := by
  unfold write
  by_cases h : delta ≤ i ∧ i < delta + len
  · have h' : (delta : Int) ≤ i ∧ (i : Int) < delta + len := by omega
    rw [if_pos h]
    dsimp only
    rw [if_pos ⟨rfl, h'⟩]
    congr 1
    omega
  · have h' : ¬ ((delta : Int) ≤ i ∧ (i : Int) < delta + len) := by omega
    rw [if_neg h]
    exact if_neg fun hc => h' hc.2

theorem inBounds_of_chunk {base : Addr} {delta len size : Nat}
    (hc : mb.chunk m.backend base = some size) (h : delta + len ≤ size) :
    m.inBounds mb ⟨base, delta⟩ len = true := by
  unfold inBounds
  rw [hc]
  have h' : (0 : Int) ≤ delta ∧ (delta : Int) + len ≤ size := by omega
  exact decide_eq_true h'

end Memory

/-! ## Storing a run -/

/-- Store the bytes of a request into a run of segments: in each segment, the
part inside `[offset, offset + size)`. -/
def storeRun (mb : MemoryBackend μ) (data : Bytes) (offset size : Nat) :
    List (Nat × ObjectSegment) → Memory μ → Memory μ
  | [], m => m
  | w :: rest, m =>
    storeRun mb data offset size rest
      (m.write mb ⟨w.2.memory.buffer, (max w.2.offset offset - w.2.offset : Nat)⟩
        (min w.2.stop (offset + size) - max w.2.offset offset)
        fun i => data (max w.2.offset offset - offset + i))

/-- `m'` is `m` with the bytes of a request stored into the segments of `run`. -/
structure Stored (m m' : Memory μ) (data : Bytes) (offset size : Nat)
    (run : List (Nat × ObjectSegment)) : Prop where
  backend : m'.backend = m.backend
  calls   : m'.calls = m.calls
  overrun : m'.overruns = m.overruns
  bytes   : ∀ w ∈ run, ∀ i < w.2.getSize, m'.bytes w.2.memory.buffer i =
    if offset ≤ w.2.offset + i ∧ w.2.offset + i < offset + size
    then data (w.2.offset + i - offset) else m.bytes w.2.memory.buffer i
  others  : ∀ a, (∀ w ∈ run, w.2.memory.buffer ≠ a) → m'.bytes a = m.bytes a

theorem stored_storeRun {mb : MemoryBackend μ} {data : Bytes} {offset size : Nat}
    {run : List (Nat × ObjectSegment)} :
    ∀ {m : Memory μ}, (run.Pairwise fun w w' => w.2.memory.buffer ≠ w'.2.memory.buffer) →
      (∀ w ∈ run, offset ≤ w.2.stop ∧
        mb.chunk m.backend w.2.memory.buffer = some w.2.memory.size) →
      Stored m (storeRun mb data offset size run m) data offset size run := by
  induction run with
  | nil =>
    intro m _ _
    exact ⟨rfl, rfl, rfl, by simp, fun _ _ => rfl⟩
  | cons w rest ih =>
    intro m hdist hchunk
    obtain ⟨hw, hrest⟩ := List.pairwise_cons.mp hdist
    obtain ⟨hreach, hc⟩ := hchunk w (List.mem_cons_self ..)
    -- the memory after the first segment
    obtain ⟨m1, hm1⟩ : ∃ m1, m1 = m.write mb
      ⟨w.2.memory.buffer, (max w.2.offset offset - w.2.offset : Nat)⟩
      (min w.2.stop (offset + size) - max w.2.offset offset)
      (fun i => data (max w.2.offset offset - offset + i)) := ⟨_, rfl⟩
    have h1 : Stored m1 (storeRun mb data offset size rest m1) data offset size rest :=
      ih hrest fun w' hw' => by
        rw [hm1]
        exact hchunk w' (List.mem_cons_of_mem _ hw')
    have hover : m1.overruns = m.overruns := by
      have hlen : max w.2.offset offset - w.2.offset +
          (min w.2.stop (offset + size) - max w.2.offset offset) ≤ w.2.memory.size := by
        unfold ObjectSegment.stop ObjectSegment.getSize at *
        omega
      rw [hm1, Memory.write, Memory.inBounds_of_chunk hc hlen]
      rfl
    rw [storeRun, ← hm1]
    refine ⟨h1.backend.trans (by rw [hm1]; rfl), h1.calls.trans (by rw [hm1]; rfl),
      h1.overrun.trans hover, fun w' hw' i hi => ?_, fun a ha => ?_⟩
    · rcases List.mem_cons.mp hw' with rfl | hw'
      · rw [h1.others _ fun v hv => (hw v hv).symm, hm1, Memory.bytes_write]
        unfold ObjectSegment.stop
        split_ifs with hin hpos hpos
        · congr 1
          omega
        · omega
        · omega
        · rfl
      · rw [h1.bytes w' hw' i hi]
        have hne : w'.2.memory.buffer ≠ w.2.memory.buffer := (hw w' hw').symm
        rw [hm1, Memory.bytes_write_other hne]
    · rw [h1.others a fun v hv => ha v (List.mem_cons_of_mem _ hv), hm1,
        Memory.bytes_write_other (ha w (List.mem_cons_self ..)).symm]

theorem storeRun_append {mb : MemoryBackend μ} {data : Bytes} {offset size : Nat}
    {run run' : List (Nat × ObjectSegment)} {m : Memory μ} :
    storeRun mb data offset size (run ++ run') m =
      storeRun mb data offset size run' (storeRun mb data offset size run m) := by
  induction run generalizing m with
  | nil => rfl
  | cons w rest ih => exact ih

/-- Only the bytes of the request are stored. -/
theorem storeRun_congr {mb : MemoryBackend μ} {data data' : Bytes} {offset size : Nat}
    (h : ∀ i < size, data i = data' i) {run : List (Nat × ObjectSegment)} {m : Memory μ} :
    storeRun mb data offset size run m = storeRun mb data' offset size run m := by
  induction run generalizing m with
  | nil => rfl
  | cons w rest ih =>
    unfold storeRun
    rw [ih, Memory.write_congr fun i hi => h _ (by omega)]

/-! ## Eager transfers -/

/-- The slice of a segment an eager transfer moves, once the bytes before the
segment have been counted: the part inside the range. The assertions hold
exactly when the segment reaches past the start of the range. -/
theorem eagerSlice_eq {d : ObjectSegmentDescr} (offset size : Nat) (hpos : 0 < d.size)
    (hb : d.offset + d.size < 2 ^ 64) :
    eagerSlice offset size (min (d.offset - offset) size) d =
      if offset < d.offset + d.size then
        .ok (max d.offset offset - d.offset,
          min (d.offset + d.size) (offset + size) - max d.offset offset)
      else .error .assertion := by
  unfold eagerSlice
  by_cases hlt : d.offset < offset
  · simp only [if_pos hlt]
    by_cases hreach : offset < d.offset + d.size
    · -- the first segment: it holds the start of the range
      have hsub : SizeT.sub d.size (offset - d.offset) = d.offset + d.size - offset := by
        rw [SizeT.sub_eq (by omega) (by omega)]
        omega
      have hadd : SizeT.add (min (d.offset - offset) size) (d.offset + d.size - offset) =
          d.offset + d.size - offset := by
        rw [SizeT.add_eq] <;> omega
      rw [hsub, if_neg (by omega), hadd, if_pos hreach]
      by_cases hcut : size < d.offset + d.size - offset
      · rw [if_pos hcut, SizeT.sub_eq (by omega) (by omega), if_pos (by omega)]
        congr 2 <;> omega
      · rw [if_neg hcut, if_pos (by omega)]
        congr 2 <;> omega
    · rw [if_neg hreach]
      split_ifs
      · rfl
      · omega
      · rfl
      · omega
      · rfl
  · simp only [if_neg hlt]
    have hadd : SizeT.add (min (d.offset - offset) size) d.size =
        min (d.offset - offset) size + d.size := SizeT.add_eq (by omega)
    rw [if_neg (by omega), hadd, if_pos (c := offset < d.offset + d.size) (by omega)]
    by_cases hcut : size < min (d.offset - offset) size + d.size
    · rw [if_pos hcut, SizeT.sub_eq (by omega) (by omega), if_pos (by omega)]
      congr 2 <;> omega
    · rw [if_neg hcut, if_pos (by omega)]
      congr 2 <;> omega

/-- The eager copy is the store of the run, and returns exactly when every
segment of the run reaches past the start of the range. -/
theorem objEagerExtractFromMessage_eq (mb : MemoryBackend μ) (data : Bytes) (offset size : Nat)
    {run : List (Nat × ObjectSegment)} :
    ∀ {start last : Nat} {m : Memory μ},
      Tiles (fun w => w.2.offset) (fun w => w.2.getSize) start run last →
      (∀ w ∈ run, w.2.stop < 2 ^ 64) →
      objEagerExtractFromMessage mb data offset size (run.map fun w => w.2.getSegmentDescr)
          (min (start - offset) size) m =
        if ∀ w ∈ run, offset < w.2.stop then .ok (storeRun mb data offset size run m)
        else .error .assertion := by
  induction run with
  | nil => simp [objEagerExtractFromMessage, storeRun]
  | cons w rest ih =>
    rintro start last m ⟨rfl, hpos, htiles⟩ hb
    have hbw := hb w (List.mem_cons_self ..)
    rw [List.map_cons, objEagerExtractFromMessage,
      show eagerSlice offset size (min (w.2.offset - offset) size) w.2.getSegmentDescr =
        if offset < w.2.stop then .ok (max w.2.offset offset - w.2.offset,
          min w.2.stop (offset + size) - max w.2.offset offset) else .error .assertion
        from eagerSlice_eq offset size hpos hbw]
    by_cases hreach : offset < w.2.stop
    · rw [if_pos hreach]
      dsimp only
      have hcur : SizeT.add (min (w.2.offset - offset) size)
          (min w.2.stop (offset + size) - max w.2.offset offset) =
          min (w.2.offset + w.2.getSize - offset) size := by
        unfold ObjectSegment.stop at *
        rw [SizeT.add_eq] <;> omega
      rw [hcur, ih htiles fun v hv => hb v (List.mem_cons_of_mem _ hv)]
      have hfirst : (∀ v ∈ w :: rest, offset < v.2.stop) ↔ ∀ v ∈ rest, offset < v.2.stop := by
        simp [hreach]
      have hwrite : m.write mb (w.2.getSegmentDescr.ptr.add ↑(max w.2.offset offset - w.2.offset))
          (min w.2.stop (offset + size) - max w.2.offset offset)
          (fun i => data (min (w.2.offset - offset) size + i)) =
          m.write mb ⟨w.2.memory.buffer, (max w.2.offset offset - w.2.offset : Nat)⟩
          (min w.2.stop (offset + size) - max w.2.offset offset)
          (fun i => data (max w.2.offset offset - offset + i)) := by
        rw [ObjectSegment.ptr_getSegmentDescr, Ptr.add, Int.zero_add]
        refine Memory.write_congr fun i hi => ?_
        congr 1
        omega
      rw [hwrite]
      exact if_congr hfirst.symm rfl rfl
    · rw [if_neg hreach, if_neg fun hall => hreach (hall w (List.mem_cons_self ..))]

/-! ## RDMA transfers -/

/-- What `buildIovec` cuts off a descriptor survives the `int` it goes through. A
number of 2 GiB and more does not; at the end of the segment, where it is taken
off a `size_t`, the last 2^31 values come back when the sum wraps. -/
structure CutFits (offset size : Nat) (d : ObjectSegmentDescr) : Prop where
  front : offset - d.offset < 2 ^ 31
  back  : d.offset + d.size - (offset + size) < 2 ^ 31 ∨
    2 ^ 64 - 2 ^ 31 ≤ d.offset + d.size - (offset + size)

/-- The front of a descriptor after the first cut. -/
theorem cutFront_eq {offset : Nat} {d : ObjectSegmentDescr} (hfront : offset - d.offset < 2 ^ 31)
    (hafter : offset < d.offset + d.size) (hb : d.offset + d.size < 2 ^ 64) :
    (if d.offset < offset then
      (⟨d.ptr.add (SizeT.toInt32 (offset - d.offset)),
        SizeT.ofInt (d.offset + SizeT.toInt32 (offset - d.offset)),
        SizeT.ofInt (d.size - SizeT.toInt32 (offset - d.offset))⟩ : ObjectSegmentDescr)
      else d) = ⟨d.ptr.add (max d.offset offset - d.offset : Nat), max d.offset offset,
        d.offset + d.size - max d.offset offset⟩ := by
  rw [SizeT.toInt32_eq hfront]
  by_cases hlt : d.offset < offset
  · rw [if_pos hlt]
    unfold Ptr.add SizeT.ofInt
    congr 1
    · congr 1
      omega
    · omega
    · omega
  · rw [if_neg hlt]
    obtain ⟨ptr, off, len⟩ := d
    dsimp only at *
    rw [show max off offset = off by omega]
    congr 1
    · simp [Ptr.add]
    · omega

/-- `buildIovec` cuts a descriptor that meets the range to its part inside it. -/
theorem trimSegment_cut {offset size : Nat} {d : ObjectSegmentDescr} (hfit : CutFits offset size d)
    (hbefore : d.offset < offset + size) (hafter : offset < d.offset + d.size)
    (hb : d.offset + d.size < 2 ^ 64) (hnw : offset + size < 2 ^ 64) :
    trimSegment offset size d =
      ⟨d.ptr.add (max d.offset offset - d.offset : Nat), max d.offset offset,
        min (d.offset + d.size) (offset + size) - max d.offset offset⟩ := by
  have hback := hfit.back
  unfold trimSegment
  simp only [cutFront_eq hfit.front hafter hb]
  rw [SizeT.add_eq hnw, SizeT.add_eq (by omega),
    show max d.offset offset + (d.offset + d.size - max d.offset offset) = d.offset + d.size
      by omega]
  by_cases hend : offset + size < d.offset + d.size
  · rw [if_pos hend, SizeT.ofInt_sub_toInt32 (by omega) (by omega) hfit.back]
    congr 1
    omega
  · rw [if_neg hend]
    congr 1
    omega

/-- A segment meets the range, and extends less than 2 GiB past it on either
side: what `buildIovec` cuts off fits an `int`. -/
structure Trimmed (offset size : Nat) (s : ObjectSegment) : Prop where
  before : s.offset < offset + size
  after  : offset < s.stop
  front  : offset - s.offset < 2 ^ 31
  back   : s.stop - (offset + size) < 2 ^ 31

/-- `buildIovec` cuts such a segment to its part inside the range. -/
theorem trimSegment_eq {offset size : Nat} {s : ObjectSegment} (h : Trimmed offset size s)
    (hb : s.stop < 2 ^ 64) (hnw : offset + size < 2 ^ 64) :
    trimSegment offset size s.getSegmentDescr =
      ⟨⟨s.memory.buffer, (max s.offset offset - s.offset : Nat)⟩, max s.offset offset,
        min s.stop (offset + size) - max s.offset offset⟩ := by
  have hfit : CutFits offset size s.getSegmentDescr := ⟨h.front, Or.inl h.back⟩
  rw [trimSegment_cut hfit h.before h.after hb hnw]
  unfold Ptr.add
  rw [ObjectSegment.ptr_getSegmentDescr, Int.zero_add]
  rfl

/-- The addresses of the bytes of a list of vectors, in order. -/
def iovAddresses (iov : List Iovec) : List Ptr :=
  iov.flatMap fun v => (List.range v.iovLen).map fun i => v.iovBase.add i

theorem length_iovAddresses (iov : List Iovec) :
    (iovAddresses iov).length = (iov.map Iovec.iovLen).sum := by
  unfold iovAddresses
  rw [List.length_flatMap]
  simp

section Landing

variable {mb : MemoryBackend μ} {data : Bytes} {offset size : Nat}
  {run : List (Nat × ObjectSegment)} {start last : Nat} {m : Memory μ}

/-- The vectors of a run of segments. -/
abbrev runIovec (run : List (Nat × ObjectSegment)) (offset size : Nat) : List Iovec :=
  buildIovec (run.map fun w => w.2.getSegmentDescr) offset size

/-- The bytes of a client buffer that land in the vectors of a run are stored in
the run, from the position the bytes before it end at. -/
theorem landIov_eq (hnw : offset + size < 2 ^ 64) :
    ∀ {start : Nat} {m : Memory μ},
      Tiles (fun w => w.2.offset) (fun w => w.2.getSize) start run last →
      (∀ w ∈ run, Trimmed offset size w.2 ∧ w.2.stop < 2 ^ 64) →
      landIov mb data (runIovec run offset size) (min (start - offset) size) m =
        storeRun mb data offset size run m := by
  induction run with
  | nil => exact fun _ _ => rfl
  | cons w rest ih =>
    rintro start m ⟨rfl, hpos, htiles⟩ htrim
    obtain ⟨htw, hbw⟩ := htrim w (List.mem_cons_self ..)
    have h1 := htw.before
    have h2 := htw.after
    have hstop : w.2.stop = w.2.offset + w.2.getSize := rfl
    have hcur : min (w.2.offset - offset) size +
        (min w.2.stop (offset + size) - max w.2.offset offset) =
        min (w.2.offset + w.2.getSize - offset) size := by omega
    have hwrite : m.write mb ⟨w.2.memory.buffer, (max w.2.offset offset - w.2.offset : Nat)⟩
        (min w.2.stop (offset + size) - max w.2.offset offset)
        (fun i => data (min (w.2.offset - offset) size + i)) =
        m.write mb ⟨w.2.memory.buffer, (max w.2.offset offset - w.2.offset : Nat)⟩
        (min w.2.stop (offset + size) - max w.2.offset offset)
        (fun i => data (max w.2.offset offset - offset + i)) := by
      refine Memory.write_congr fun i hi => ?_
      congr 1
      omega
    rw [runIovec, List.map_cons, buildIovec, List.map_cons, trimSegment_eq htw hbw hnw, landIov,
      hcur, hwrite]
    exact ih htiles fun v hv => htrim v (List.mem_cons_of_mem _ hv)

/-- The bytes the vectors of a run take. -/
theorem sum_runIovec (hnw : offset + size < 2 ^ 64) :
    ∀ {start cur : Nat}, Tiles (fun w => w.2.offset) (fun w => w.2.getSize) start run last →
      (∀ w ∈ run, Trimmed offset size w.2 ∧ w.2.stop < 2 ^ 64) →
      cur = min (start - offset) size →
      ((runIovec run offset size).map (·.iovLen)).foldl SizeT.add cur =
        min (last - offset) size := by
  induction run with
  | nil =>
    rintro start cur rfl _ rfl
    rfl
  | cons w rest ih =>
    rintro start cur ⟨rfl, hpos, htiles⟩ htrim rfl
    obtain ⟨htw, hbw⟩ := htrim w (List.mem_cons_self ..)
    have h1 := htw.before
    have h2 := htw.after
    have hstop : w.2.stop = w.2.offset + w.2.getSize := rfl
    rw [runIovec, List.map_cons, buildIovec, List.map_cons, trimSegment_eq htw hbw hnw,
      List.map_cons, List.foldl_cons]
    refine ih htiles (fun v hv => htrim v (List.mem_cons_of_mem _ hv)) ?_
    dsimp only
    rw [SizeT.add_eq] <;> omega

/-- The segments of the posted operation with number `n`. -/
def groupRun (run : List (Nat × ObjectSegment)) (n : Nat) : List (Nat × ObjectSegment) :=
  (run.drop (n * maxRdmaSegs)).take maxRdmaSegs

/-- The posted operation with number `n`. -/
def rdmaGroup (iov : List Iovec) (n : Nat) : RdmaGroup :=
  ⟨((iov.take (n * maxRdmaSegs)).map (·.iovLen)).foldl SizeT.add 0,
    (iov.drop (n * maxRdmaSegs)).take maxRdmaSegs⟩

theorem rdmaGroups_eq (run : List (Nat × ObjectSegment)) (offset size : Nat) :
    rdmaGroups (runIovec run offset size) =
      (List.range ((run.length + (maxRdmaSegs - 1)) / maxRdmaSegs)).map
        (rdmaGroup (runIovec run offset size)) := by
  unfold rdmaGroups runIovec buildIovec
  rw [List.length_map, List.length_map]
  rfl

/-- One posted operation stores its segments of the run. -/
theorem landIov_group (hnw : offset + size < 2 ^ 64) (hstart : start ≤ offset)
    (htiles : Tiles (fun w => w.2.offset) (fun w => w.2.getSize) start run last)
    (htrim : ∀ w ∈ run, Trimmed offset size w.2 ∧ w.2.stop < 2 ^ 64) (n : Nat) :
    landIov mb data (rdmaGroup (runIovec run offset size) n).iov
        (rdmaGroup (runIovec run offset size) n).addr m =
      storeRun mb data offset size (groupRun run n) m := by
  have hsplit : run = run.take (n * maxRdmaSegs) ++ run.drop (n * maxRdmaSegs) :=
    (List.take_append_drop _ _).symm
  rw [hsplit] at htiles
  obtain ⟨mid, hfirst, hsecond⟩ := htiles.of_append
  rw [← List.take_append_drop maxRdmaSegs (run.drop (n * maxRdmaSegs))] at hsecond
  obtain ⟨mid', hchunk, -⟩ := hsecond.of_append
  have hiov : ∀ l : List (Nat × ObjectSegment), runIovec l offset size =
      l.map fun w => ⟨(trimSegment offset size w.2.getSegmentDescr).ptr,
        (trimSegment offset size w.2.getSegmentDescr).size⟩ := fun l => List.map_map ..
  have haddr : (rdmaGroup (runIovec run offset size) n).addr = min (mid - offset) size := by
    have hcur : 0 = min (start - offset) size := by omega
    rw [← sum_runIovec hnw hfirst (fun w hw => htrim w (List.mem_of_mem_take hw)) hcur]
    unfold rdmaGroup
    dsimp only
    rw [hiov, hiov, ← List.map_take]
  have hgroup : (rdmaGroup (runIovec run offset size) n).iov =
      runIovec (groupRun run n) offset size := by
    unfold rdmaGroup groupRun
    dsimp only
    rw [hiov, hiov, ← List.map_drop, ← List.map_take]
  rw [haddr, hgroup]
  exact landIov_eq hnw hchunk fun w hw =>
    htrim w (List.mem_of_mem_drop (List.mem_of_mem_take hw))

/-- **Landing.** Some of the operations of a posted write land: their segments
are stored. -/
theorem landGroups_filter (hnw : offset + size < 2 ^ 64) (hstart : start ≤ offset)
    (htiles : Tiles (fun w => w.2.offset) (fun w => w.2.getSize) start run last)
    (htrim : ∀ w ∈ run, Trimmed offset size w.2 ∧ w.2.stop < 2 ^ 64) (ns : List Nat) :
    landGroups mb data (ns.map (rdmaGroup (runIovec run offset size))) m =
      storeRun mb data offset size (ns.flatMap (groupRun run)) m := by
  induction ns generalizing m with
  | nil => rfl
  | cons n ns ih =>
    rw [List.flatMap_cons, storeRun_append, ← ih, ← landIov_group hnw hstart htiles htrim n]
    rfl

/-- The segments of all operations are the whole run. -/
theorem flatMap_groupRun (run : List (Nat × ObjectSegment)) (n : Nat) :
    (List.range n).flatMap (groupRun run) = run.take (n * maxRdmaSegs) := by
  induction n with
  | zero => simp
  | succ n ih =>
    rw [List.range_succ, List.flatMap_append, ih, List.flatMap_singleton, groupRun, Nat.succ_mul,
      List.take_add]

/-- **An RDMA read** moves the bytes of the run that lie in the range, in their
order. `f` names the byte of each position. -/
theorem rdmaPayload_eq (hnw : offset + size < 2 ^ 64) {f : Nat → UInt8}
    (hf : ∀ w ∈ run, ∀ x, w.2.Holds x → m.bytes w.2.memory.buffer (x - w.2.offset) = f x)
    (htiles : Tiles (fun w => w.2.offset) (fun w => w.2.getSize) start run last)
    (htrim : ∀ w ∈ run, Trimmed offset size w.2 ∧ w.2.stop < 2 ^ 64) :
    rdmaPayload m (runIovec run offset size) =
      (List.range' (max start offset) (min last (offset + size) - max start offset)).map f := by
  induction run generalizing start with
  | nil =>
    obtain rfl : start = last := htiles
    rw [show min start (offset + size) - max start offset = 0 by omega]
    rfl
  | cons w rest ih =>
    obtain ⟨rfl, hpos, hrest⟩ := htiles
    obtain ⟨htw, hbw⟩ := htrim w (List.mem_cons_self ..)
    have h1 := htw.before
    have h2 := htw.after
    have hstop : w.2.stop = w.2.offset + w.2.getSize := rfl
    have hle : w.2.stop ≤ last := hrest.le
    -- the part of the first segment
    have hfirst : (List.range (min w.2.stop (offset + size) - max w.2.offset offset)).map
        (m.read ⟨w.2.memory.buffer, (max w.2.offset offset - w.2.offset : Nat)⟩) =
        (List.range' (max w.2.offset offset)
          (min w.2.stop (offset + size) - max w.2.offset offset)).map f := by
      rw [List.range'_eq_map_range, List.map_map]
      refine List.map_congr_left fun i hi => ?_
      have hi' := List.mem_range.mp hi
      rw [Function.comp_apply, ← hf w (List.mem_cons_self ..) _ ⟨by omega, by omega⟩, Memory.read]
      congr 1
      dsimp only
      omega
    have hlater := ih (fun v hv => hf v (List.mem_cons_of_mem _ hv)) hrest
      fun v hv => htrim v (List.mem_cons_of_mem _ hv)
    have hiov : rdmaPayload m (runIovec (w :: rest) offset size) =
        (List.range (min w.2.stop (offset + size) - max w.2.offset offset)).map
          (m.read ⟨w.2.memory.buffer, (max w.2.offset offset - w.2.offset : Nat)⟩) ++
        rdmaPayload m (runIovec rest offset size) := by
      rw [runIovec, List.map_cons, buildIovec, List.map_cons, trimSegment_eq htw hbw hnw,
        rdmaPayload, List.flatMap_cons]
      rfl
    rw [hiov, hfirst, hlater, ← List.map_append]
    congr 1
    dsimp only
    by_cases hcut : w.2.stop ≤ offset + size
    · rw [show max (w.2.offset + w.2.getSize) offset = max w.2.offset offset +
          (min w.2.stop (offset + size) - max w.2.offset offset) by omega, List.range'_append_1]
      congr 1
      omega
    · -- the range ends in the first segment
      rw [show min last (offset + size) - max (w.2.offset + w.2.getSize) offset = 0 by omega,
        List.range'_zero, List.append_nil]
      congr 1
      omega

end Landing

end IoCatcher
