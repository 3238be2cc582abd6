import Mathlib.Data.List.Flatten
import IoCatcher.Model.Requests

/-!
# IO Catcher — RDMA writes in flight

Between the start of an RDMA write and its completion the server handles other
requests, while the posted operations hold raw pointers into segment buffers.
`Flight` is what must stay true of such a write for the bytes to land where
they belong: the operations were built from a run of segments that covers the
range, and each of these segments still is in the map, on the same buffer, and
its only owner.

* `Flight.of_retained` — what a request has to keep for the write to stay good;
* `Flight.stored`      — the completion stores the data in the run, and a
  failure a part of it;
* `cached_stored`      — what that means for the cached bytes.
-/

namespace IoCatcher

open Container

variable {μ σ : Type} {B : Backends μ σ} {c c' : Container μ σ} {id id' : ObjectId} {g x : Nat}

/-! ## Segments that stay -/

/-- Two segments on one buffer and range; the flags may differ. -/
structure SameRange (s t : ObjectSegment) : Prop where
  memory : t.memory = s.memory
  offset : t.offset = s.offset

theorem SameRange.refl (s : ObjectSegment) : SameRange s s := ⟨rfl, rfl⟩

theorem SameRange.trans {s t u : ObjectSegment} (h : SameRange s t) (h' : SameRange t u) :
    SameRange s u := ⟨h'.memory.trans h.memory, h'.offset.trans h.offset⟩

theorem SameRange.getSize {s t : ObjectSegment} (h : SameRange s t) : t.getSize = s.getSize := by
  unfold ObjectSegment.getSize
  rw [h.memory]

theorem SameRange.stop {s t : ObjectSegment} (h : SameRange s t) : t.stop = s.stop := by
  unfold ObjectSegment.stop
  rw [h.offset, h.getSize]

/-- The segment of `id` under `k`, when it is the only owner of its buffer, stays
on it and stays its only owner. -/
def Retained (c c' : Container μ σ) (id : ObjectId) (k : Nat) : Prop :=
  ∀ t, c.HasSegment id k t → c.Exclusive id k t.memory.buffer →
    ∃ t', c'.HasSegment id k t' ∧ SameRange t t' ∧ c'.Exclusive id k t.memory.buffer

theorem Retained.trans {c'' : Container μ σ} {k : Nat} (h : Retained c c' id k)
    (h' : Retained c' c'' id k) : Retained c c'' id k := by
  intro t ht hex
  obtain ⟨t', ht', hsame, hex'⟩ := h t ht hex
  obtain ⟨t'', ht'', hsame', hex''⟩ := h' t' ht' (by rw [hsame.memory]; exact hex')
  exact ⟨t'', ht'', hsame.trans hsame', by rw [← hsame.memory]; exact hex''⟩

/-- Same segments up to their flags. -/
structure SameSegments (c c' : Container μ σ) : Prop where
  kept : ∀ {id k t}, c.HasSegment id k t → ∃ t', c'.HasSegment id k t' ∧ SameRange t t'
  old  : ∀ {id k t'}, c'.HasSegment id k t' → ∃ t, c.HasSegment id k t ∧ SameRange t t'

theorem SameSegments.retained (h : SameSegments c c') (id : ObjectId) (k : Nat) :
    Retained c c' id k := by
  intro t ht hex
  obtain ⟨t', ht', hsame⟩ := h.kept ht
  refine ⟨t', ht', hsame, fun id' k' u hu hbuf => ?_⟩
  obtain ⟨v, hv, hsame'⟩ := h.old hu
  exact hex id' k' v hv (by rw [← hbuf, hsame'.memory])

theorem SameSegments.of_segments (h : ∀ id, c'.segments id = c.segments id) :
    SameSegments c c' := by
  refine ⟨fun {id k t} ht => ⟨t, ?_, .refl t⟩, fun {id k t} ht => ⟨t, ?_, .refl t⟩⟩
  · unfold HasSegment
    rw [h]
    exact ht
  · unfold HasSegment at ht
    rw [h] at ht
    exact ht

theorem SameSegments.trans {c'' : Container μ σ} (h : SameSegments c c')
    (h' : SameSegments c' c'') : SameSegments c c'' := by
  refine ⟨fun ht => ?_, fun ht => ?_⟩
  · obtain ⟨t', ht', hsame⟩ := h.kept ht
    obtain ⟨t'', ht'', hsame'⟩ := h'.kept ht'
    exact ⟨t'', ht'', hsame.trans hsame'⟩
  · obtain ⟨t', ht', hsame⟩ := h'.old ht
    obtain ⟨t, ht, hsame'⟩ := h.old ht'
    exact ⟨t, ht, hsame'.trans hsame⟩

theorem sameSegments_mapSegments {f : ObjectSegment → ObjectSegment}
    (hf : ∀ s, (f s).memory = s.memory ∧ (f s).offset = s.offset) :
    SameSegments c (c.setSegments id ((c.segments id).mapValues f)) := by
  constructor
  · intro id' k t ht
    by_cases hid : id' = id
    · exact ⟨f t, hasSegment_mapSegments.mpr (by rw [if_pos hid]; exact ⟨t, hid ▸ ht, rfl⟩),
        (hf t).1, (hf t).2⟩
    · exact ⟨t, hasSegment_mapSegments.mpr (by rw [if_neg hid]; exact ht), .refl t⟩
  · intro id' k t' ht
    rw [hasSegment_mapSegments] at ht
    split_ifs at ht with hid
    · obtain ⟨t, ht, rfl⟩ := ht
      exact ⟨t, hid ▸ ht, (hf t).1, (hf t).2⟩
    · exact ⟨t', ht, .refl t'⟩

theorem sameSegments_markDirty (c : Container μ σ) (id : ObjectId) (base size : Nat) :
    SameSegments c (c.markDirty id base size) :=
  sameSegments_mapSegments fun s => by split_ifs <;> exact ⟨rfl, rfl⟩

theorem sameSegments_flush (c : Container μ σ) (id : ObjectId) (offset size : Nat) :
    SameSegments c (c.flush B id offset size).2 := by
  obtain ⟨st, hst⟩ := flush_eq (B := B) c id offset size
  rw [hst]
  have h : SameSegments c ({ c with storage := st } : Container μ σ) := .of_segments fun _ => rfl
  exact h.trans (sameSegments_mapSegments fun s => by split_ifs <;> exact ⟨rfl, rfl⟩)

theorem sameSegments_getObject (c : Container μ σ) (id : ObjectId) :
    SameSegments c (c.getObject id) := .of_segments fun _ => segments_getObject ..

theorem sameSegments_setMemory (c : Container μ σ) (m : Memory μ) :
    SameSegments c ({ c with memory := m } : Container μ σ) := .of_segments fun _ => rfl

theorem Container.Grows.retained {Loaded : Nat → Nat → Prop} (h : Grows B g Loaded c c' id)
    (id' : ObjectId) (k : Nat) : Retained c c' id' k := fun t ht hex =>
  ⟨t, (h.exclusive ht hex).1, .refl t, (h.exclusive ht hex).2⟩

/-! ## Storing into a run -/

/-- The segments of `run` are in the map of `id`, each the only owner of its
buffer. -/
structure Owned (c : Container μ σ) (id : ObjectId) (run : List (Nat × ObjectSegment)) : Prop where
  held      : ∀ w ∈ run, ∃ t, c.HasSegment id w.1 t ∧ SameRange w.2 t
  exclusive : ∀ w ∈ run, c.Exclusive id w.1 w.2.memory.buffer

variable {run : List (Nat × ObjectSegment)} {m : Memory μ} {data : Bytes} {offset size : Nat}

theorem Owned.of_held (hheld : ∀ w ∈ run, c.HasSegment id w.1 w.2)
    (hex : ∀ w ∈ run, c.Exclusive id w.1 w.2.memory.buffer) : Owned c id run :=
  ⟨fun w hw => ⟨w.2, hheld w hw, .refl _⟩, hex⟩

theorem Owned.sublist {sub : List (Nat × ObjectSegment)} (h : Owned c id run)
    (hsub : sub.Sublist run) : Owned c id sub :=
  ⟨fun w hw => h.held w (hsub.subset hw), fun w hw => h.exclusive w (hsub.subset hw)⟩

theorem Owned.of_retained (h : Owned c id run) (hret : ∀ w ∈ run, Retained c c' id w.1) :
    Owned c' id run := by
  constructor
  · intro w hw
    obtain ⟨t, ht, hsame⟩ := h.held w hw
    obtain ⟨t', ht', hsame', -⟩ := hret w hw t ht (by rw [hsame.memory]; exact h.exclusive w hw)
    exact ⟨t', ht', hsame.trans hsame'⟩
  · intro w hw
    obtain ⟨t, ht, hsame⟩ := h.held w hw
    obtain ⟨t', -, -, hex⟩ := hret w hw t ht (by rw [hsame.memory]; exact h.exclusive w hw)
    rw [← hsame.memory]
    exact hex

/-- The segment a store reaches is one of its run. -/
theorem Owned.bytes_segment (h : Owned c id run) (hst : Stored c.memory m data offset size run)
    {k : Nat} {t : ObjectSegment} (ht : c.HasSegment id' k t) :
    (id' = id ∧ ∃ w ∈ run, w.1 = k ∧ SameRange w.2 t) ∨
      m.bytes t.memory.buffer = c.memory.bytes t.memory.buffer := by
  by_cases hrun : ∃ w ∈ run, w.2.memory.buffer = t.memory.buffer
  · obtain ⟨w, hw, hbuf⟩ := hrun
    obtain ⟨rfl, rfl⟩ := h.exclusive w hw id' k t ht hbuf.symm
    obtain ⟨t', ht', hsame⟩ := h.held w hw
    obtain rfl := hasSegment_unique ht' ht
    exact Or.inl ⟨rfl, w, hw, rfl, hsame⟩
  · exact Or.inr (hst.others _ fun w hw heq => hrun ⟨w, hw, heq⟩)

theorem SameRange.holds {s t : ObjectSegment} (h : SameRange s t) : t.Holds x ↔ s.Holds x := by
  unfold ObjectSegment.Holds
  rw [h.offset, h.stop]

/-- **What a store does to the cached bytes**, inside the range. -/
theorem Owned.cached_inside (h : Owned c id run) (hst : Stored c.memory m data offset size run)
    (hlay : LayoutOk (c.segments id)) (hx : offset ≤ x ∧ x < offset + size)
    {w : Nat × ObjectSegment} (hw : w ∈ run) (hwx : w.2.Holds x) :
    ({ c with memory := m } : Container μ σ).cached id x = some (data (x - offset)) := by
  obtain ⟨t, ht, hsame⟩ := h.held w hw
  have h1 := hwx.1
  have h2 := hwx.2
  have hstop : w.2.stop = w.2.offset + w.2.getSize := rfl
  have ht' : ({ c with memory := m } : Container μ σ).HasSegment id w.1 t := ht
  rw [cached_of_segment (c := { c with memory := m }) hlay ht' (hsame.holds.mpr hwx), hsame.memory,
    hsame.offset, hst.bytes w hw (x - w.2.offset) (by omega), if_pos (by omega)]
  congr 2
  omega

/-- Everywhere else the cached bytes are as they were. -/
theorem Owned.cached_outside (h : Owned c id run) (hst : Stored c.memory m data offset size run)
    (hx : ¬ (id' = id ∧ offset ≤ x ∧ x < offset + size ∧ ∃ w ∈ run, w.2.Holds x)) :
    ({ c with memory := m } : Container μ σ).cached id' x = c.cached id' x := by
  refine cached_congr_at rfl fun {k t} ht htx => ?_
  have ht' : c.HasSegment id' k t := ht
  rcases h.bytes_segment hst ht' with ⟨rfl, w, hw, -, hsame⟩ | hbytes
  · have hwx := hsame.holds.mp htx
    have h1 := hwx.1
    have h2 := hwx.2
    have hstop : w.2.stop = w.2.offset + w.2.getSize := rfl
    show m.bytes t.memory.buffer (x - t.offset) = _
    rw [hsame.memory, hsame.offset, hst.bytes w hw (x - w.2.offset) (by omega), if_neg]
    intro hin
    exact hx ⟨rfl, by omega, by omega, w, hw, hwx⟩
  · show m.bytes t.memory.buffer _ = _
    rw [hbytes]

theorem Owned.distinct (h : Owned c id run) {start last : Nat}
    (htiles : Tiles (fun w => w.2.offset) (fun w => w.2.getSize) start run last) :
    run.Pairwise fun w w' => w.2.memory.buffer ≠ w'.2.memory.buffer := by
  refine (List.Pairwise.and_mem.mp htiles.pairwise).imp ?_
  rintro w w' ⟨hw, hw', hlt⟩ heq
  obtain ⟨t, ht, hsame⟩ := h.held w hw
  obtain ⟨t', ht', hsame'⟩ := h.held w' hw'
  obtain ⟨-, hkey⟩ := h.exclusive w hw id w'.1 t' ht' (by rw [hsame'.memory, heq])
  obtain rfl := hasSegment_unique ht (hkey ▸ ht')
  have hpos : 0 < w.2.getSize := (htiles.mem_bounds hw).2.1
  have := hsame.offset
  have := hsame'.offset
  omega

/-! ## A write in flight -/

/-- The posted write `p` targets the segments of `run`: they cover its range,
they belong to the object, and its operations point into them. -/
structure Flight (c : Container μ σ) (p : PendingWrite) (run : List (Nat × ObjectSegment)) :
    Prop extends Owned c p.write.object run where
  groups  : p.groups = rdmaGroups (runIovec run p.write.offset p.write.size)
  nowrap  : p.write.offset + p.write.size < 2 ^ 64
  tiles   : ∃ start last, start ≤ p.write.offset ∧ p.write.offset + p.write.size ≤ last ∧
    Tiles (fun w => w.2.offset) (fun w => w.2.getSize) start run last
  trimmed : ∀ w ∈ run, Trimmed p.write.offset p.write.size w.2 ∧ w.2.stop < 2 ^ 64

variable {p : PendingWrite}

/-- The write stays good as long as its segments are retained. -/
theorem Flight.of_retained (h : Flight c p run)
    (hret : ∀ w ∈ run, Retained c c' p.write.object w.1) : Flight c' p run :=
  { h with toOwned := h.toOwned.of_retained hret }

/-- Every position of the write lies in one of its segments. -/
theorem Flight.exists_holds (h : Flight c p run) (hx : p.write.Covers id x) :
    ∃ w ∈ run, w.2.Holds x := by
  obtain ⟨start, last, hstart, hlast, htiles⟩ := h.tiles
  obtain ⟨w, hw, h1, h2⟩ := htiles.exists_mem (x := x) (hstart.trans hx.2.1)
    (Nat.lt_of_lt_of_le hx.2.2 hlast)
  exact ⟨w, hw, h1, h2⟩

theorem storedRun {sub : List (Nat × ObjectSegment)} (h : Flight c p run) (hmem : MemoryOk B c)
    (hsub : sub.Sublist run) :
    Stored c.memory (storeRun B.memoryBackend p.write.data p.write.offset p.write.size sub c.memory)
      p.write.data p.write.offset p.write.size sub := by
  obtain ⟨start, last, -, -, htiles⟩ := h.tiles
  refine stored_storeRun ((h.toOwned.distinct htiles).sublist hsub) fun w hw => ?_
  have hw' := hsub.subset hw
  obtain ⟨t, ht, hsame⟩ := h.held w hw'
  refine ⟨(h.trimmed w hw').1.after.le, ?_⟩
  rw [← hsame.memory]
  exact hmem.chunk ht

/-- **The completion** of a posted write stores its data in its run. -/
theorem Flight.stored (h : Flight c p run) (hmem : MemoryOk B c) :
    Stored c.memory (landGroups B.memoryBackend p.write.data p.groups c.memory)
      p.write.data p.write.offset p.write.size run := by
  obtain ⟨start, last, hstart, -, htiles⟩ := h.tiles
  have hall : (List.range ((run.length + (maxRdmaSegs - 1)) / maxRdmaSegs)).flatMap (groupRun run) =
      run := by
    rw [flatMap_groupRun, List.take_of_length_le]
    unfold maxRdmaSegs
    omega
  rw [h.groups, rdmaGroups_eq, landGroups_filter h.nowrap hstart htiles h.trimmed, hall]
  exact storedRun h hmem (List.Sublist.refl _)

/-- **A failure** of a posted write stores its data in a part of its run. -/
theorem Flight.stored_part (h : Flight c p run) (hmem : MemoryOk B c) (landed : RdmaGroup → Bool) :
    ∃ sub, sub.Sublist run ∧
      Stored c.memory (landGroups B.memoryBackend p.write.data (p.groups.filter landed) c.memory)
        p.write.data p.write.offset p.write.size sub := by
  obtain ⟨start, last, hstart, -, htiles⟩ := h.tiles
  obtain ⟨ns, hns⟩ : ∃ ns, ns = (List.range ((run.length + (maxRdmaSegs - 1)) / maxRdmaSegs)).filter
    (landed ∘ rdmaGroup (runIovec run p.write.offset p.write.size)) := ⟨_, rfl⟩
  have hgroups : p.groups.filter landed =
      ns.map (rdmaGroup (runIovec run p.write.offset p.write.size)) := by
    rw [h.groups, rdmaGroups_eq, hns, List.filter_map]
  have hsub : (ns.flatMap (groupRun run)).Sublist run := by
    have h1 := (hns ▸ List.filter_sublist : ns.Sublist (List.range
      ((run.length + (maxRdmaSegs - 1)) / maxRdmaSegs))).flatMap (groupRun run)
    rw [flatMap_groupRun] at h1
    exact h1.trans (List.take_sublist ..)
  refine ⟨ns.flatMap (groupRun run), hsub, ?_⟩
  rw [hgroups, landGroups_filter h.nowrap hstart htiles h.trimmed]
  exact storedRun h hmem hsub

/-- Segment `t` meets the range of the write. -/
def WriteRequest.Meets (w : WriteRequest) (t : ObjectSegment) : Prop :=
  t.offset < w.offset + w.size ∧ w.offset < t.stop

theorem Flight.meets (h : Flight c p run) {w : Nat × ObjectSegment} (hw : w ∈ run)
    {t : ObjectSegment} (ht : c.HasSegment p.write.object w.1 t) : p.write.Meets t := by
  obtain ⟨t', ht', hsame⟩ := h.held w hw
  obtain rfl := hasSegment_unique ht' ht
  have htrim := (h.trimmed w hw).1
  exact ⟨hsame.offset ▸ htrim.before, hsame.stop ▸ htrim.after⟩

/-- The write `p` is in flight, and the segments it targets satisfy `Q`. -/
def Aloft (Q : ObjectSegment → Prop) (c : Container μ σ) (p : PendingWrite) : Prop :=
  ∃ run, Flight c p run ∧ ∀ w ∈ run, ∀ t, c.HasSegment p.write.object w.1 t → Q t

section Aloft

variable {Q : ObjectSegment → Prop}

theorem Aloft.grows {Loaded : Nat → Nat → Prop} (h : Aloft Q c p)
    (hg : Grows B g Loaded c c' id) : Aloft Q c' p := by
  obtain ⟨run, hf, hq⟩ := h
  refine ⟨run, hf.of_retained fun w _ => hg.retained _ _, fun w hw t' ht' => ?_⟩
  obtain ⟨t, ht, hsame⟩ := hf.held w hw
  have hstay := (hg.exclusive ht (by rw [hsame.memory]; exact hf.exclusive w hw)).1
  rw [← hasSegment_unique hstay ht']
  exact hq w hw t ht

theorem Aloft.of_sameSegments (h : Aloft Q c p) (hs : SameSegments c c')
    (hQ : ∀ {k t t'}, p.write.Meets t → c.HasSegment p.write.object k t →
      c'.HasSegment p.write.object k t' → Q t → Q t') : Aloft Q c' p := by
  obtain ⟨run, hf, hq⟩ := h
  refine ⟨run, hf.of_retained fun w _ => hs.retained _ _, fun w hw t' ht' => ?_⟩
  obtain ⟨t, ht, -⟩ := hs.old ht'
  exact hQ (hf.meets hw ht) ht ht' (hq w hw t ht)

theorem Aloft.of_segments (h : Aloft Q c p) (hs : ∀ id, c'.segments id = c.segments id) :
    Aloft Q c' p := by
  refine h.of_sameSegments (.of_segments hs) fun {k t t'} _ ht ht' hq => ?_
  unfold HasSegment at ht'
  rw [hs] at ht'
  rw [← hasSegment_unique ht ht']
  exact hq

/-- Marking keeps what holds of dirty segments. -/
theorem Aloft.markDirty (h : Aloft Q c p) (hQ : ∀ t, t.dirty = true → Q t) (id : ObjectId)
    (base size : Nat) : Aloft Q (c.markDirty id base size) p := by
  refine h.of_sameSegments (sameSegments_markDirty ..) fun {k t t'} _ ht ht' hq => ?_
  unfold Container.markDirty at ht'
  rw [hasSegment_mapSegments] at ht'
  split_ifs at ht' with hid
  · obtain ⟨u, hu, rfl⟩ := ht'
    obtain rfl := hasSegment_unique (hid ▸ hu) ht
    split_ifs
    · exact hQ _ rfl
    · exact hq
  · rw [← hasSegment_unique ht ht']
    exact hq

/-- A flush keeps what it leaves true of the segments it cleans. -/
theorem Aloft.flush (h : Aloft Q c p) {offset size : Nat}
    (hQ : ∀ k t, p.write.object = id → c.HasSegment id k t → p.write.Meets t →
      flushed offset size t = true → Q { t with dirty := false }) :
    Aloft Q (c.flush B id offset size).2 p := by
  refine h.of_sameSegments (sameSegments_flush ..) fun {k t t'} hm ht ht' hq => ?_
  rw [hasSegment_flush] at ht'
  split_ifs at ht' with hid
  · obtain ⟨u, hu, rfl⟩ := ht'
    obtain rfl := hasSegment_unique (hid ▸ hu) ht
    split_ifs with hfl
    · exact hQ k u hid hu hm hfl
    · exact hq
  · rw [← hasSegment_unique ht ht']
    exact hq

end Aloft

/-! ## Starting a write -/

/-- What `buildIovec` cuts off the segments that a request reaches fits an
`int`: the segments there are, and those the rounding creates. -/
structure Untruncated (A : Nat) (c : Container μ σ) (id : ObjectId) (offset size : Nat) : Prop where
  front    : offset - alignedBase A offset < 2 ^ 31
  back     : alignedEnd A offset size - (offset + size) < 2 ^ 31
  segments : ∀ k t, c.HasSegment id k t → t.offset < alignedEnd A offset size →
    alignedBase A offset < t.stop → offset - t.offset < 2 ^ 31 ∧ t.stop - (offset + size) < 2 ^ 31

/-- In a map aligned to the grain, a segment that meets the rounded range meets
the request itself. -/
theorem meets_of_aligned {A : Nat} {s : ObjectSegment} (hoff : grain A ∣ s.offset)
    (hsize : grain A ∣ s.getSize) (h1 : s.offset < alignedEnd A offset size)
    (h2 : alignedBase A offset < s.stop) : s.offset < offset + size ∧ offset < s.stop := by
  rcases Nat.eq_zero_or_pos A with rfl | hA
  · exact ⟨h1, h2⟩
  · rw [grain, if_neg (by omega)] at hoff hsize
    have hlt1 := alignedEnd_lt hA offset size
    have hlt2 := lt_alignedBase_add hA offset
    obtain ⟨e, he⟩ := dvd_alignedEnd hA offset size
    obtain ⟨b, hb⟩ := dvd_alignedBase hA offset
    obtain ⟨q, hq⟩ := hoff
    obtain ⟨r, hr⟩ := Nat.dvd_add ⟨q, hq⟩ hsize
    have hstop : s.stop = A * r := hr
    rw [he, hq] at h1
    rw [hb, hstop] at h2
    have hqe : A * (q + 1) ≤ A * e := Nat.mul_le_mul_left A (Nat.lt_of_mul_lt_mul_left h1)
    have hbr : A * (b + 1) ≤ A * r := Nat.mul_le_mul_left A (Nat.lt_of_mul_lt_mul_left h2)
    rw [Nat.mul_add_one] at hqe hbr
    omega

theorem trimmed_of_untruncated {A : Nat} {Loaded : Nat → Nat → Prop}
    (hun : Untruncated A c id offset size) (hgrow : Grows B g Loaded c c' id)
    (ha : Aligned (grain A) (c'.segments id))
    (hcov : Covers c' id (alignedBase A offset) (alignedEnd A offset size) run)
    (hweave : Weaves c id (alignedBase A offset) (alignedEnd A offset size) run) :
    ∀ w ∈ run, Trimmed offset size w.2 ∧ w.2.stop < 2 ^ 64 := by
  intro w hw
  have hheld := hcov.held w hw
  have hmeets := hcov.meets w hw
  obtain ⟨h1, h2⟩ := meets_of_aligned (ha hheld).1 (ha hheld).2 hmeets.1 hmeets.2
  have htrim : offset - w.2.offset < 2 ^ 31 ∧ w.2.stop - (offset + size) < 2 ^ 31 := by
    rcases hweave.new w hw with ⟨t, ht⟩ | ⟨hb, he, -⟩
    · obtain ⟨t', ht', hsame⟩ := hgrow.kept ht
      obtain rfl := hasSegment_unique ht' hheld
      have hoff := hsame.offset
      have hstop : w.2.stop = t.stop := by
        unfold ObjectSegment.stop
        rw [hsame.offset, hsame.size]
      have := hun.segments _ t ht (by omega) (by omega)
      omega
    · have := hun.front
      have := hun.back
      omega
  exact ⟨⟨h1, h2, htrim.1, htrim.2⟩, hgrow.layout.bound hheld⟩

namespace Server

variable {s s' : Server μ σ} {A : Nat}

/-- The range of a request, as `getBuffers` rounds it. -/
theorem Sound.rounded (h : Sound B A s) (id : ObjectId) (hr : alignedEnd A offset size < 2 ^ 64) :
    (alignRange (s.container.object id).alignement offset size).1 = alignedBase A offset ∧
      SizeT.add (alignRange (s.container.object id).alignement offset size).1
        (alignRange (s.container.object id).alignement offset size).2 =
        alignedEnd A offset size := by
  rw [h.fixed.object, end_alignRange hr, alignRange_eq hr]
  exact ⟨rfl, rfl⟩

/-- **The start** of an RDMA write puts it in flight. -/
theorem rdmaWrite_flight {w : WriteRequest} {reply : Reply} (h : Sound B A s)
    (hr : alignedEnd A w.offset w.size < 2 ^ 64)
    (hun : Untruncated A s.container w.object w.offset w.size)
    (hok : s.rdmaWrite B w = (reply, s')) :
    ∃ c₁ run groups,
      Grows B (grain A) (GapLoaded B w.offset w.size true true) s.container c₁ w.object ∧
      Covers c₁ w.object (alignedBase A w.offset) (alignedEnd A w.offset w.size) run ∧
      Flight (c₁.markDirty w.object w.offset w.size) ⟨s.started.length, w, groups⟩ run ∧
      s' = { s with
        container := c₁.markDirty w.object w.offset w.size
        pending := if groups = [] then s.pending else s.pending ++ [⟨s.started.length, w, groups⟩]
        started := s.started ++ [w] } := by
  obtain ⟨c₁, run, groups, hgrow, hcov, hweave, hex, -, rfl, rfl⟩ :=
    rdmaWrite_ok h.wf (h.rangeOk hr) hok
  obtain ⟨hbase, hend⟩ := h.rounded w.object hr
  rw [hend, hbase] at hcov hweave
  have howned : Owned c₁ w.object run := .of_held hcov.held hex
  obtain ⟨start, last, hstart, hlast, htiles⟩ := hcov.tiles
  refine ⟨c₁, run, _, hgrow, hcov, ⟨?_, rfl, ?_, ⟨start, last, ?_, ?_, htiles⟩, ?_⟩, rfl⟩
  · exact howned.of_retained fun v _ => (sameSegments_markDirty c₁ ..).retained _ _
  · exact Nat.lt_of_le_of_lt (le_alignedEnd ..) hr
  · exact hstart.trans (alignedBase_le ..)
  · exact (le_alignedEnd ..).trans hlast
  · exact trimmed_of_untruncated hun hgrow (hgrow.aligned (h.wf.aligned _)) hcov hweave

/-! ## What a write leaves in the cache -/

/-- An eager write leaves its data, and the other cached bytes as they were. -/
theorem eagerWrite_cached {w : WriteRequest} {reply : Reply} (h : Sound B A s)
    (hr : alignedEnd A w.offset w.size < 2 ^ 64) (hok : s.eagerWrite B w = .ok (reply, s'))
    (id : ObjectId) (x : Nat) :
    (w.Covers id x → s'.container.cached id x = some (w.data (x - w.offset))) ∧
      ∀ v, s.container.cached id x = some v → ¬ w.Covers id x →
        s'.container.cached id x = some v := by
  obtain ⟨c₁, run, m, hgrow, hcov, hex, hst, -, rfl⟩ := eagerWrite_ok h.wf (h.rangeOk hr) hok
  obtain ⟨hbase, hend⟩ := h.rounded w.object hr
  rw [hend, hbase] at hcov
  have howned : Owned c₁ w.object run := .of_held hcov.held hex
  obtain ⟨start, last, hstart, hlast, htiles⟩ := hcov.tiles
  have hb := alignedBase_le A w.offset
  have he := le_alignedEnd A w.offset w.size
  constructor
  · rintro ⟨rfl, h1, h2⟩
    obtain ⟨v, hv, h3, h4⟩ := htiles.exists_mem (x := x) (by omega) (by omega)
    show (({ c₁ with memory := m } : Container μ σ).markDirty _ _ _).cached w.object x = _
    rw [cached_markDirty]
    exact howned.cached_inside hst hgrow.layout ⟨h1, h2⟩ hv ⟨h3, h4⟩
  · intro v hv hno
    show (({ c₁ with memory := m } : Container μ σ).markDirty _ _ _).cached id x = _
    rw [cached_markDirty, howned.cached_outside hst fun hin => hno ⟨hin.1.symm, hin.2.1, hin.2.2.1⟩]
    by_cases hid : id = w.object
    · rw [hid] at hv ⊢
      exact hgrow.cached (h.wf.layout _) hv
    · rw [hgrow.cached_other hid]
      exact hv

theorem findPending_spec {number : Nat} (h : s.findPending number = some p) :
    p ∈ s.pending ∧ p.number = number := by
  unfold findPending at h
  exact ⟨List.mem_of_find?_eq_some h, by simpa using List.find?_some h⟩

theorem container_rdmaDone {number : Nat} (h : s.findPending number = some p) :
    (s.rdmaDone B number).2.container = ({ s.container with
      memory := landGroups B.memoryBackend p.write.data p.groups s.container.memory } :
        Container μ σ) := by
  unfold rdmaDone
  rw [h]

theorem container_rdmaFail {number : Nat} {landed : RdmaGroup → Bool}
    (h : s.findPending number = some p) :
    (s.rdmaFail B number landed).2.container = ({ s.container with
      memory := landGroups B.memoryBackend p.write.data (p.groups.filter landed)
        s.container.memory } : Container μ σ) := by
  unfold rdmaFail
  rw [h]

/-- A completion leaves the data of its write, and every other cached byte of
every object as it was. -/
theorem landed_cached {c : Container μ σ} (hlay : LayoutOk (c.segments p.write.object))
    (hf : Flight c p run) (hst : Stored c.memory m p.write.data p.write.offset p.write.size run)
    (id : ObjectId) (x : Nat) :
    (p.write.Covers id x → ({ c with memory := m } : Container μ σ).cached id x =
        some (p.write.data (x - p.write.offset))) ∧
      (¬ p.write.Covers id x →
        ({ c with memory := m } : Container μ σ).cached id x = c.cached id x) := by
  constructor
  · intro hx
    obtain ⟨w, hw, hwx⟩ := hf.exists_holds hx
    obtain ⟨rfl, h1, h2⟩ := hx
    exact hf.toOwned.cached_inside hst hlay ⟨h1, h2⟩ hw hwx
  · intro hx
    exact hf.toOwned.cached_outside hst fun hin => hx ⟨hin.1.symm, hin.2.1, hin.2.2.1⟩

/-! ## Runs -/

/-- Every posted write is in flight, for the request that was started under its
number; the segments it targets satisfy `Q`. -/
structure InFlight (B : Backends μ σ) (A : Nat) (Q : ObjectSegment → Prop) (s : Server μ σ) :
    Prop where
  sound   : Sound B A s
  aloft   : ∀ p ∈ s.pending, Aloft Q s.container p
  request : ∀ p ∈ s.pending, s.started[p.number]? = some p.write

theorem Initial.inFlight {check : Bool} {Q : ObjectSegment → Prop} (h : Initial B A check s) :
    InFlight B A Q s := by
  refine ⟨h.sound, ?_, ?_⟩ <;>
  · obtain ⟨m, st, -, -, rfl⟩ := h
    exact fun p hp => absurd hp List.not_mem_nil

/-- What a step must meet for the writes in flight to land: a write that is
started can be described by its vectors, and a flush keeps `Q`. -/
def Landable (A : Nat) (Q : ObjectSegment → Prop) (s : Server μ σ) : Event → Prop
  | .rdmaWrite w => Untruncated A s.container w.object w.offset w.size
  | .flush id offset size => ∀ p ∈ s.pending, ∀ k t, p.write.object = id →
      s.container.HasSegment id k t → p.write.Meets t → flushed offset size t = true →
      Q { t with dirty := false }
  | _ => True

theorem pending_cow {sourceId destId : ObjectId} {allowExist : Bool} {reply : Reply}
    (hok : s.cow B sourceId destId allowExist offset size = .ok (reply, s')) :
    s'.pending = s.pending ∧ s'.started = s.started := by
  obtain ⟨-, _, _, -, -, rfl⟩ | ⟨-, _, _, -, -, rfl⟩ := cow_ok hok <;> exact ⟨rfl, rfl⟩

theorem request_append {s : Server μ σ} (h : ∀ p ∈ s.pending, s.started[p.number]? = some p.write)
    (w : WriteRequest) : ∀ p ∈ s.pending, (s.started ++ [w])[p.number]? = some p.write := by
  intro p hp
  have hn := h p hp
  rw [List.getElem?_append_left (List.getElem?_eq_some_iff.mp hn).1]
  exact hn

/-- **Every step but a copy keeps the writes in flight**; for a copy it has to be
shown. -/
theorem inFlight_step {Q : ObjectSegment → Prop} {e : Event} (hQ : ∀ t, t.dirty = true → Q t)
    (h : InFlight B A Q s) (hr : InRange A e) (hl : Landable A Q s e)
    (hcow : ∀ {sourceId destId allowExist offset size},
      e = .cow sourceId destId allowExist offset size →
        ∀ p ∈ s.pending, Aloft Q s.container p → Aloft Q s'.container p)
    (hstep : Step B s e s') : InFlight B A Q s' := by
  have hsound := sound_step h.sound hr hstep
  obtain ⟨reply, hok⟩ := hstep
  cases e with
  | eagerWrite w =>
    obtain ⟨c₁, run, m, hgrow, -, -, -, -, rfl⟩ := eagerWrite_ok h.sound.wf (h.sound.rangeOk hr) hok
    refine ⟨hsound, fun p hp => ?_, request_append h.request w⟩
    have hmem : Aloft Q ({ c₁ with memory := m } : Container μ σ) p :=
      ((h.aloft p hp).grows hgrow).of_segments fun _ => rfl
    exact hmem.markDirty hQ ..
  | rdmaWrite w =>
    obtain ⟨c₁, run, groups, hgrow, hcov, hflight, rfl⟩ :=
      rdmaWrite_flight h.sound hr hl (Except.ok.inj hok)
    have hold : ∀ p ∈ s.pending, Aloft Q (c₁.markDirty w.object w.offset w.size) p := fun p hp =>
      ((h.aloft p hp).grows hgrow).markDirty hQ ..
    -- the segments of the new write have been marked
    have hnew : Aloft Q (c₁.markDirty w.object w.offset w.size) ⟨s.started.length, w, groups⟩ := by
      refine ⟨run, hflight, fun v hv t ht => hQ t ?_⟩
      by_contra hclean
      obtain ⟨-, hout⟩ := clean_of_markDirty hgrow.layout hflight.nowrap ht
        (Bool.eq_false_iff.mpr hclean)
      have hmeets : w.Meets t := hflight.meets hv ht
      have hout' : t.stop ≤ w.offset ∨ w.offset + w.size ≤ t.offset := hout rfl
      unfold WriteRequest.Meets at hmeets
      omega
    refine ⟨hsound, fun p hp => ?_, fun p hp => ?_⟩
    · dsimp only at hp
      split_ifs at hp
      · exact hold p hp
      · rcases List.mem_append.mp hp with hp | hp
        · exact hold p hp
        · rw [List.mem_singleton.mp hp]
          exact hnew
    · dsimp only at hp
      split_ifs at hp
      · exact request_append h.request w p hp
      · rcases List.mem_append.mp hp with hp | hp
        · exact request_append h.request w p hp
        · rw [List.mem_singleton.mp hp]
          simp
  | rdmaDone | rdmaFail =>
    have hland := lands_step ⟨reply, hok⟩ trivial
    obtain ⟨m, hm, -, -⟩ := hland.container
    refine ⟨hsound, fun p hp => ?_, fun p hp => ?_⟩
    · rw [hm]
      exact (h.aloft p (hland.pending p hp)).of_segments fun _ => rfl
    · rw [hland.started]
      exact h.request p (hland.pending p hp)
  | read id offset size uninitialised =>
    obtain ⟨c₁, hgrow, rfl, -⟩ := read_ok h.sound.wf (h.sound.rangeOk hr) hok
    exact ⟨hsound, fun p hp => (h.aloft p hp).grows hgrow, h.request⟩
  | flush id offset size =>
    obtain ⟨-, rfl⟩ := Prod.mk.inj (Except.ok.inj hok)
    refine ⟨hsound, fun p hp => ?_, h.request⟩
    have hget : Aloft Q (s.container.getObject id) p :=
      (h.aloft p hp).of_segments fun _ => segments_getObject ..
    refine hget.flush fun k t hid ht hm hfl => hl p hp k t hid ?_ hm hfl
    unfold HasSegment at ht ⊢
    rwa [segments_getObject] at ht
  | create id =>
    obtain ⟨-, rfl⟩ := Prod.mk.inj (Except.ok.inj hok)
    obtain ⟨st, hst⟩ := create_eq (B := B) (s.container.getObject id) id
    refine ⟨hsound, fun p hp => ?_, h.request⟩
    show Aloft Q ((s.container.getObject id).create B id).2 p
    rw [hst]
    exact (h.aloft p hp).of_segments fun id' => segments_getObject s.container id id'
  | cow sourceId destId allowExist offset size =>
    obtain ⟨hp', hs'⟩ := pending_cow hok
    refine ⟨hsound, fun p hp => ?_, fun p hp => ?_⟩
    · rw [hp'] at hp
      exact hcow rfl p hp (h.aloft p hp)
    · rw [hp'] at hp
      rw [hs']
      exact h.request p hp
  | rangeRegister | rangeUnregister | clientDisconnect =>
    have hsame := onTrackers_step ⟨reply, hok⟩ trivial
    refine ⟨hsound, fun p hp => ?_, fun p hp => ?_⟩
    · rw [hsame.pending] at hp
      exact (h.aloft p hp).of_segments hsame.segments
    · rw [hsame.pending] at hp
      rw [hsame.started]
      exact h.request p hp

end Server

end IoCatcher
