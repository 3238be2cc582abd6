import IoCatcher.Model.WellFormed

/-!
# IO Catcher — copy-on-write keeps containers well formed

The two copy-on-write operations change segment maps in ways `getBuffers`
never does: they store segments on buffers that already have an owner, and a
full copy replaces a whole object.

* `Wf.makeObjectRangeCow` — a range copy, into any object, the source included;
* `makeObjectFullCow_ok` — what a full copy leaves: the destination holds
  the segment map of the source, and no other object changed;
* `Wf.makeObjectFullCow`.
-/

namespace IoCatcher

theorem LayoutOk.of_subset {m m' : ObjectSegmentMap} (h : LayoutOk m)
    (hsub : ∀ e ∈ m'.entries, e ∈ m.entries) : LayoutOk m' :=
  ⟨fun ha => h.key (hsub _ ha), fun ha => h.pos (hsub _ ha), fun ha => h.bound (hsub _ ha),
    fun ha ha' => h.disjoint (hsub _ ha) (hsub _ ha')⟩

/-- The key under which a segment is shared is its last byte. -/
theorem LayoutOk.cow_key {m : ObjectSegmentMap} (h : LayoutOk m) {key : Nat} {s : ObjectSegment}
    (hs : (key, s) ∈ m.entries) : SizeT.sub (SizeT.add s.offset s.getSize) 1 = key := by
  have hk := h.key hs
  have hp := h.pos hs
  have hb := h.bound hs
  unfold ObjectSegment.stop at hk hb
  rw [SizeT.add_eq hb, SizeT.sub_eq (by omega) hb]
  omega

/-- A segment whose range is free, or exactly taken, in the destination. -/
theorem LayoutOk.insert_shared {m : ObjectSegmentMap} (h : LayoutOk m) {key : Nat}
    {s : ObjectSegment} (hk : key + 1 = s.stop) (hpos : 0 < s.getSize) (hb : s.stop < 2 ^ 64)
    (hloc : Container.localPartialOverlap m s = false) : LayoutOk (m.insert key s) := by
  unfold Container.localPartialOverlap at hloc
  cases hlb : m.lowerBound s.offset with
  | nil =>
    refine h.insert_gap hk hpos hb fun k t ht => Or.inl ?_
    have hkt := h.key ht
    by_contra hlt
    have hmem : (k, t) ∈ m.lowerBound s.offset :=
      OrderedMap.mem_lowerBound.mpr ⟨ht, by dsimp only; omega⟩
    rw [hlb] at hmem
    exact List.not_mem_nil hmem
  | cons e rest =>
    rw [hlb] at hloc
    simp only [Bool.or_eq_false_iff, decide_eq_false_iff_not, not_not] at hloc
    have he : e ∈ m.entries := by
      have : e ∈ m.lowerBound s.offset := hlb ▸ by simp
      exact (OrderedMap.mem_lowerBound.mp this).1
    have hek : e.1 = key := by
      have h1 := h.key (k := e.1) (s := e.2) he
      unfold ObjectSegment.stop at h1 hk
      omega
    exact h.insert_same (s := e.2) (hek ▸ he) hloc.1.symm hloc.2.symm

namespace Container

variable {μ σ : Type} {B : Backends μ σ} {c c' : Container μ σ} {id src dst : ObjectId} {g : Nat}

/-! ## Copying bytes -/

@[simp] theorem copySegments_backend (mb : MemoryBackend μ) (src : Addr)
    (l : List ObjectSegmentDescr) (i a n : Nat) (m : Memory μ) :
    (copySegments mb src l i a n m).backend = m.backend := by
  induction l generalizing i a n m with
  | nil => rfl
  | cons it rest ih => exact ih ..

@[simp] theorem copySegments_calls (mb : MemoryBackend μ) (src : Addr)
    (l : List ObjectSegmentDescr) (i a n : Nat) (m : Memory μ) :
    (copySegments mb src l i a n m).calls = m.calls := by
  induction l generalizing i a n m with
  | nil => rfl
  | cons it rest ih => exact ih ..

/-! ## One shared segment -/

theorem makeCowOf_eq (c : Container μ σ) (id : ObjectId) (key : Nat) (orig : ObjectSegment) :
    c.makeCowOf B id key orig = c.storeSegment B id key orig := rfl

theorem Wf.makeCowOf (h : Wf B g c) {key : Nat} {orig : ObjectSegment}
    (hs : c.HasSegment src key orig) (hloc : localPartialOverlap (c.segments dst) orig = false) :
    Wf B g (c.makeCowOf B dst key orig) := by
  rw [makeCowOf_eq]
  have hseg := segments_storeSegment (B := B) c dst key orig
  refine ⟨h.memoryOk.storeSegment (h.memoryOk.chunk hs), fun id => ?_, fun id => ?_, ?_⟩
  · rw [hseg]
    split_ifs
    · exact (h.layout dst).insert_shared ((h.layout src).key hs) ((h.layout src).pos hs)
        ((h.layout src).bound hs) hloc
    · exact h.layout id
  · rw [hseg]
    split_ifs
    · exact Aligned.insert (h.aligned dst) (h.aligned src hs).1 (h.aligned src hs).2
    · exact h.aligned id
  · intro call hcall
    rcases calls_storeSegment h.memoryOk hcall with hold | ⟨old, hold, rfl⟩
    · exact h.calls call hold
    · exact ⟨rfl, (h.layout dst).pos hold, (h.aligned dst hold).2⟩

/-! ## Range copies -/

/-- The part of the source segment that a range copy takes. -/
theorem innerRange_spec {s : ObjectSegment} {offset size : Nat} (hb : s.stop < 2 ^ 64)
    (hr : offset + size < 2 ^ 64) (h1 : s.offset < offset + size) (h2 : offset < s.stop) :
    SizeT.add s.offset (innerRange s offset size).1 = max s.offset offset ∧
      (innerRange s offset size).1 = max s.offset offset - s.offset ∧
      max s.offset offset + (innerRange s offset size).2 = min s.stop (offset + size) := by
  unfold ObjectSegment.stop at *
  have hstop : SizeT.add s.offset s.getSize = s.offset + s.getSize := SizeT.add_eq hb
  have hend : SizeT.add offset size = offset + size := SizeT.add_eq hr
  unfold innerRange
  dsimp only
  rw [hstop, hend]
  split_ifs with hlt hcut hcut
  · rw [SizeT.add_eq (by omega), SizeT.sub_eq (b := offset - s.offset) (by omega) (by omega),
      SizeT.sub_eq (by omega) (by omega)]
    omega
  · rw [SizeT.add_eq (by omega), SizeT.sub_eq (by omega) (by omega)]
    omega
  · rw [SizeT.add_eq (by omega), SizeT.sub_eq (b := 0) (by omega) (by omega),
      SizeT.sub_eq (by omega) (by omega)]
    omega
  · rw [SizeT.add_eq (by omega), SizeT.sub_eq (by omega) (by omega)]
    omega

/-- The requests a range copy makes to the destination start and end on the
grain. -/
def InnerOk (g A offset size : Nat) : Prop :=
  ∀ s : ObjectSegment, 0 < s.getSize → s.stop < 2 ^ 64 → g ∣ s.offset → g ∣ s.getSize →
    s.overlap offset size = true →
    RangeOk g A (SizeT.add s.offset (innerRange s offset size).1) (innerRange s offset size).2

theorem innerOk_one (A offset size : Nat) : InnerOk 1 A offset size :=
  fun _ _ _ _ _ _ => rangeOk_one ..

/-- Rounding a range inside an aligned segment does not leave the segment. -/
theorem alignedEnd_le {A base size stop : Nat} (h : base + size ≤ stop) (hA : grain A ∣ stop) :
    alignedEnd A base size ≤ stop := by
  unfold alignedEnd grain at *
  split_ifs at * with h0
  · exact h
  · obtain ⟨q, rfl⟩ := hA
    have hpos : 0 < A := Nat.pos_of_ne_zero h0
    rw [Nat.mul_comm A q]
    refine Nat.mul_le_mul_right A (Nat.le_of_lt_succ ((Nat.div_lt_iff_lt_mul hpos).mpr ?_))
    rw [Nat.succ_mul, Nat.mul_comm q A]
    omega

theorem innerOk_grain {A offset size : Nat} (hr : offset + size < 2 ^ 64) :
    InnerOk (grain A) A offset size := by
  intro s hpos hb hoff hsize hov
  refine rangeOk_grain (Nat.lt_of_le_of_lt (alignedEnd_le ?_
    (Nat.dvd_add hoff hsize)) hb)
  rw [ObjectSegment.overlap, SizeT.add_eq hr, SizeT.add_eq hb, Bool.and_eq_true,
    decide_eq_true_eq, decide_eq_true_eq] at hov
  obtain ⟨habs, -, hend⟩ := innerRange_spec hb hr hov.1 hov.2
  rw [habs, hend]
  exact Nat.min_le_left ..

/-- One segment of a range copy. -/
theorem Wf.rangeCopyOnWriteSegment (h : Wf B g c) {key : Nat} {orig : ObjectSegment}
    {offset size : Nat} (hs : c.HasSegment src key orig) (hov : orig.overlap offset size = true)
    (hr : InnerOk g (c.object dst).alignement offset size) :
    Wf B g (c.rangeCopyOnWriteSegment B src dst key orig offset size) ∧
      SameHeader c (c.rangeCopyOnWriteSegment B src dst key orig offset size) := by
  unfold Container.rangeCopyOnWriteSegment
  dsimp only
  split_ifs with hpart
  · have hreq := hr orig ((h.layout src).pos hs) ((h.layout src).bound hs) (h.aligned src hs).1
      (h.aligned src hs).2 hov
    have hget := h.getBuffers .write true false hreq
    refine ⟨hget.of_objects (fun _ => rfl) (copySegments_backend ..) (copySegments_calls ..), ?_⟩
    refine (sameHeader_getBuffers h.memoryOk (h.layout dst) (SizeT.add orig.offset
      (innerRange orig offset size).1) (innerRange orig offset size).2 .write true false).trans ?_
    exact sameHeader_of_objects rfl rfl
  · rw [Bool.not_eq_true, Bool.or_eq_false_iff] at hpart
    rw [(h.layout src).cow_key hs]
    exact ⟨h.makeCowOf hs hpart.2, sameHeader_storeSegment ..⟩

theorem Wf.rangeCopyLoop {offset size : Nat} {keys : List Nat} :
    ∀ {c : Container μ σ}, Wf B g c → InnerOk g (c.object dst).alignement offset size →
      Wf B g (rangeCopyLoop B src dst offset size keys c) ∧
        SameHeader c (rangeCopyLoop B src dst offset size keys c) := by
  induction keys with
  | nil => exact fun {c} h _ => ⟨h, .refl c⟩
  | cons key rest ih =>
    intro c h hr
    unfold Container.rangeCopyLoop
    cases hf : (c.segments src).find? key with
    | none => exact ⟨h, .refl c⟩
    | some orig =>
      dsimp only
      split_ifs with hov
      · obtain ⟨h1, hh1⟩ := h.rangeCopyOnWriteSegment (OrderedMap.find?_eq_some.mp hf) hov hr
        obtain ⟨h2, hh2⟩ := ih h1 (hh1.alignement dst ▸ hr)
        exact ⟨h2, hh1.trans hh2⟩
      · exact ⟨h, .refl c⟩

theorem Wf.rangeCopyOnWrite (h : Wf B g c) {offset size : Nat}
    (hr : InnerOk g (c.object dst).alignement offset size) :
    Wf B g (c.rangeCopyOnWrite B src dst offset size) ∧
      SameHeader c (c.rangeCopyOnWrite B src dst offset size) := by
  unfold Container.rangeCopyOnWrite
  split
  · exact ⟨h, .refl c⟩
  · split_ifs
    · exact h.rangeCopyLoop hr
    · exact h.rangeCopyLoop hr

theorem Wf.makeObjectRangeCow (h : Wf B g c) {allowExist : Bool} {offset size : Nat}
    (hr : InnerOk g (c.object dst).alignement offset size) :
    Wf B g (c.makeObjectRangeCow B src dst allowExist offset size).2 ∧
      SameHeader c (c.makeObjectRangeCow B src dst allowExist offset size).2 := by
  unfold Container.makeObjectRangeCow
  split_ifs
  · exact ⟨h, .refl c⟩
  · exact ⟨h, .refl c⟩
  · obtain ⟨h1, hh1⟩ := (h.getObject dst).rangeCopyOnWrite (by rwa [object_getObject])
    exact ⟨h1, (sameHeader_getObject c dst).trans hh1⟩

/-! ## Deleting an object -/

/-- Object `id` lost segments between `c` and `c'`, and buffers without owner
went back to the backend; nothing else changed. -/
structure Shrinks (B : Backends μ σ) (g : Nat) (c c' : Container μ σ) (id : ObjectId) : Prop where
  wf      : Wf B g c'
  default : c'.objectSegmentsAlignement = c.objectSegmentsAlignement
  others  : ∀ {id'}, id' ≠ id → c'.object id' = c.object id'
  sub     : ∀ e ∈ (c'.segments id).entries, e ∈ (c.segments id).entries
  bytes   : c'.memory.bytes = c.memory.bytes
  overrun : c'.memory.overruns = c.memory.overruns
  storage : c'.storage = c.storage
  exists' : ∀ {id'}, id' ≠ id → c'.hasObject id' = c.hasObject id'

theorem Shrinks.trans {c'' : Container μ σ} (h : Shrinks B g c c' id)
    (h' : Shrinks B g c' c'' id) : Shrinks B g c c'' id :=
  ⟨h'.wf, h'.default.trans h.default, fun hne => (h'.others hne).trans (h.others hne),
    fun e he => h.sub e (h'.sub e he), h'.bytes.trans h.bytes, h'.overrun.trans h.overrun,
    h'.storage.trans h.storage, fun hne => (h'.exists' hne).trans (h.exists' hne)⟩

theorem Wf.of_subset (h : Wf B g c) (hsub : ∀ id, ∀ e ∈ (c'.segments id).entries,
    e ∈ (c.segments id).entries) (hm : c'.memory = c.memory) : Wf B g c' := by
  refine ⟨h.memoryOk.of_segments (fun {id key s} hs => ⟨id, key, s, hsub id _ hs, rfl⟩)
    (by rw [hm]), fun id => (h.layout id).of_subset (hsub id),
    fun id _ _ hs => h.aligned id (hsub id _ hs), ?_⟩
  unfold CallsOk
  rw [hm]
  exact h.calls

theorem Wf.release (h : Wf B g c) {m : ObjectSegmentMemory}
    (hm : B.memoryBackend.chunk c.memory.backend m.buffer = some m.size) (hpos : 0 < m.size)
    (hdvd : g ∣ m.size) : Wf B g (c.release B m) := by
  refine ⟨h.memoryOk.release hm, fun id => ?_, fun id => ?_, fun call hcall => ?_⟩
  · rw [segments_release]
    exact h.layout id
  · rw [segments_release]
    exact h.aligned id
  · rcases calls_release hm hcall with hold | rfl
    · exact h.calls call hold
    · exact ⟨rfl, hpos, hdvd⟩

/-- One segment of an object is destroyed. -/
theorem shrinks_eraseSegment (h : Wf B g c) {key : Nat} {s : ObjectSegment}
    (hs : c.HasSegment id key s) :
    Shrinks B g c ((c.setSegments id ((c.segments id).erase key)).release B s.memory) id := by
  have hsub : ∀ id', ∀ e ∈ ((c.setSegments id ((c.segments id).erase key)).segments id').entries,
      e ∈ (c.segments id').entries := by
    intro id' e he
    rw [segments_setSegments] at he
    split_ifs at he with hid
    · rw [hid]
      exact (OrderedMap.mem_erase.mp he).1
    · exact he
  have hwf : Wf B g (c.setSegments id ((c.segments id).erase key)) := h.of_subset hsub rfl
  refine ⟨hwf.release (h.memoryOk.chunk hs) ((h.layout id).pos hs) (h.aligned id hs).2,
    alignement_release .., fun {id'} hne => ?_, fun e he => ?_, bytes_release ..,
    overrun_release .., storage_release .., fun {id'} hne => ?_⟩
  · unfold object
    rw [objects_release, alignement_release]
    exact object_setObject_ne hne
  · rw [segments_release] at he
    exact hsub id e he
  · unfold hasObject
    rw [objects_release]
    show ((c.objects.insert id _).find? id').isSome = _
    rw [OrderedMap.find?_insert_ne hne]

theorem destroySegments_shrinks {es : List (Nat × ObjectSegment)} :
    ∀ {c : Container μ σ}, Wf B g c → (es.Pairwise fun a b => a.1 < b.1) →
      (∀ e ∈ es, c.HasSegment id e.1 e.2) → Shrinks B g c (destroySegments B id es c) id := by
  induction es with
  | nil =>
    intro c h _ _
    exact ⟨h, rfl, fun _ => rfl, fun _ he => he, rfl, rfl, rfl, fun _ => rfl⟩
  | cons e rest ih =>
    intro c h hsorted hes
    obtain ⟨hlt, hrest⟩ := List.pairwise_cons.mp hsorted
    have h1 := shrinks_eraseSegment h (hes e (List.mem_cons_self ..))
    refine h1.trans (ih h1.wf hrest fun e' he' => ?_)
    -- the later segments are still there: their keys are larger
    unfold HasSegment
    rw [segments_release, segments_setSegments_self]
    exact OrderedMap.mem_erase.mpr ⟨hes e' (List.mem_cons_of_mem _ he'), (hlt e' he').ne'⟩

/-- After `delete`, the object is gone and the others are as they were. -/
theorem deleteObject_shrinks (h : Wf B g c) : Shrinks B g c (c.deleteObject B id) id := by
  have h1 := destroySegments_shrinks (B := B) h (c.segments id).sorted fun e he => he
  have hobj : ∀ {id'}, id' ≠ id → (c.deleteObject B id).object id' =
      (destroySegments B id (c.segments id).entries c).object id' := by
    intro id' hne
    unfold deleteObject object
    rw [OrderedMap.find?_erase_ne hne]
  have hself : (c.deleteObject B id).segments id = OrderedMap.empty := by
    unfold deleteObject segments object
    simp [Object.new]
  have hsub : ∀ id', ∀ e ∈ ((c.deleteObject B id).segments id').entries,
      e ∈ ((destroySegments B id (c.segments id).entries c).segments id').entries := by
    intro id' e he
    by_cases hid : id' = id
    · rw [hid, hself] at he
      exact absurd he List.not_mem_nil
    · rw [segments, hobj hid] at he
      exact he
  refine ⟨h1.wf.of_subset hsub rfl, h1.default, fun hne => (hobj hne).trans (h1.others hne),
    fun e he => ?_, h1.bytes, h1.overrun, h1.storage, fun {id'} hne => ?_⟩
  · rw [hself] at he
    exact absurd he List.not_mem_nil
  · rw [← h1.exists' hne]
    unfold deleteObject hasObject
    rw [OrderedMap.find?_erase_ne hne]

theorem hasObject_deleteObject (c : Container μ σ) (id : ObjectId) :
    (c.deleteObject B id).hasObject id = false := by
  simp [deleteObject, hasObject]

/-! ## Full copies -/

theorem makeCowSegment_eq {offset size : Nat}
    (h : c.makeCowSegment B src dst offset size = .ok c') :
    ∃ st, c' = { c with storage := st } := by
  unfold makeCowSegment at h
  split at h
  · exact absurd h (by simp)
  · dsimp only at h
    split_ifs at h
    exact ⟨_, (Except.ok.inj h).symm⟩

theorem flushCow_eq {s : ObjectSegment} (h : c.flushCow B dst s = .ok c') :
    ∃ st, c' = { c with storage := st } := by
  unfold flushCow at h
  split_ifs at h with hd
  · exact ⟨c.storage, (Except.ok.inj h).symm⟩
  · dsimp only at h
    split_ifs at h
    obtain ⟨st, hst⟩ := pwrite_eq (B := B) c dst s.memory.buffer s.getSize s.offset
    exact ⟨st, by rw [← Except.ok.inj h, hst]⟩

/-- The first segment of the loop of a full copy: the gap before it, then its own
bytes. -/
theorem fullCowLoop_cons {src dst : ObjectId} {e : Nat × ObjectSegment}
    {rest : List (Nat × ObjectSegment)} {cursor : Nat} {cow m : ObjectSegmentMap}
    {d : Container μ σ} (hok : fullCowLoop B src dst (e :: rest) cursor cow c = .ok (m, d)) :
    ∃ c₁ c₂, (if cursor < e.2.offset then c.makeCowSegment B src dst cursor (e.2.offset - cursor)
        else .ok c) = .ok c₁ ∧ c₁.flushCow B dst e.2 = .ok c₂ ∧
      fullCowLoop B src dst rest (SizeT.add e.2.offset e.2.getSize) (cow.insert e.1 e.2) c₂ =
        .ok (m, d) := by
  rw [fullCowLoop] at hok
  split at hok
  · exact absurd hok (by simp)
  · rename_i c₁ hgap
    split at hok
    · exact absurd hok (by simp)
    · rename_i c₂ hflush
      exact ⟨c₁, c₂, hgap, hflush, hok⟩

/-- The copied map lists the segments visited so far, and only the storage
changes. -/
theorem fullCowLoop_ok {es : List (Nat × ObjectSegment)} :
    ∀ {cursor : Nat} {cow m : ObjectSegmentMap} {c c' : Container μ σ},
      (cow.entries ++ es).Pairwise (fun a b => a.1 < b.1) →
      fullCowLoop B src dst es cursor cow c = .ok (m, c') →
      m.entries = cow.entries ++ es ∧ ∃ st, c' = { c with storage := st } := by
  induction es with
  | nil =>
    intro cursor cow m c c' _ h
    obtain ⟨rfl, rfl⟩ := Prod.mk.inj (Except.ok.inj h)
    exact ⟨(List.append_nil _).symm, c.storage, rfl⟩
  | cons e rest ih =>
    intro cursor cow m c c' hsorted h
    have hlast : (cow.insert e.1 e.2).entries = cow.entries ++ [e] := by
      have hlt : ∀ a ∈ cow.entries, a.1 < e.1 := fun a ha =>
        (List.pairwise_append.mp hsorted).2.2 a ha e (List.mem_cons_self ..)
      have happend : OrderedMap.insertEntry e.1 e.2 (cow.entries ++ []) =
          cow.entries ++ OrderedMap.insertEntry e.1 e.2 [] := OrderedMap.insertEntry_append hlt
      simpa [OrderedMap.insert, OrderedMap.insertEntry] using happend
    obtain ⟨c₁, c₂, hgap, hflush, hloop⟩ := fullCowLoop_cons h
    have h₁ : ∃ st, c₁ = { c with storage := st } := by
      split_ifs at hgap
      · exact makeCowSegment_eq hgap
      · exact ⟨c.storage, (Except.ok.inj hgap).symm⟩
    obtain ⟨st₁, rfl⟩ := h₁
    obtain ⟨st₂, rfl⟩ := flushCow_eq hflush
    obtain ⟨hm, st, hst⟩ := ih (by rw [hlast]; simpa using hsorted) hloop
    exact ⟨by rw [hm, hlast]; simp, st, hst⟩

theorem makeFullCopyOnWrite_ok {allowExist : Bool} {cow : Object}
    (h : c.makeFullCopyOnWrite B src dst allowExist = .ok (cow, c')) :
    cow = ⟨c.segments src, (c.object src).alignement, .new⟩ ∧
      ∃ st, c' = { c with storage := st } := by
  unfold makeFullCopyOnWrite at h
  have hcreate : ∃ st, (c.create B dst).2 = { c with storage := st } := by
    unfold create
    split
    · exact ⟨c.storage, rfl⟩
    · exact ⟨_, rfl⟩
  obtain ⟨st0, hst0⟩ := hcreate
  dsimp only at h
  split_ifs at h
  split at h
  · exact absurd h (by simp)
  · rename_i m c1 hloop
    obtain ⟨hm, st, hst⟩ := fullCowLoop_ok (by simpa using (c.segments src).sorted) hloop
    obtain ⟨rfl, rfl⟩ := Prod.mk.inj (Except.ok.inj h)
    refine ⟨?_, st, by rw [hst, hst0]⟩
    have hmap : m = c.segments src := OrderedMap.ext (by simpa using hm)
    rw [hmap]
    rfl

/-- What a successful full copy leaves. The container `d` is the one after the
old destination is deleted; `st` is the storage the copy wrote. -/
theorem makeObjectFullCow_ok (h : Wf B g c) {allowExist : Bool}
    (hok : c.makeObjectFullCow B src dst allowExist = .ok (true, c')) :
    src ≠ dst ∧ c.hasObject src = true ∧ (c.hasObject dst = true → allowExist = true) ∧
      ∃ d st, Shrinks B g c d dst ∧ d.segments dst = OrderedMap.empty ∧
        d = (if c.hasObject dst then c.deleteObject B dst else c) ∧
        d.makeFullCopyOnWrite B src dst allowExist =
          .ok (⟨c.segments src, (c.object src).alignement, .new⟩,
            ({ d with storage := st } : Container μ σ)) ∧
        c' = ({ d with storage := st } : Container μ σ).setObject dst
          ⟨c.segments src, (c.object src).alignement, .new⟩ := by
  unfold makeObjectFullCow at hok
  by_cases hsrc : c.hasObject src = false
  · simp [hsrc] at hok
  by_cases hexist : c.hasObject dst = true ∧ allowExist = false
  · simp [hexist] at hok
  rw [if_neg hsrc, if_neg hexist] at hok
  dsimp only at hok
  obtain ⟨d, hd⟩ : ∃ d, d = if c.hasObject dst then c.deleteObject B dst else c := ⟨_, rfl⟩
  rw [← hd] at hok
  by_cases hnull : d.hasObject src = false
  · simp [hnull] at hok
  rw [if_neg hnull] at hok
  have hne : src ≠ dst := by
    rintro rfl
    rw [if_pos (by simpa using hsrc)] at hd
    rw [hd, hasObject_deleteObject] at hnull
    exact hnull rfl
  have hshrink : Shrinks B g c d dst ∧ d.segments dst = OrderedMap.empty := by
    split_ifs at hd with hdst
    · rw [hd]
      refine ⟨deleteObject_shrinks h, ?_⟩
      unfold deleteObject segments object
      simp [Object.new]
    · rw [hd]
      refine ⟨⟨h, rfl, fun _ => rfl, fun _ he => he, rfl, rfl, rfl, fun _ => rfl⟩, ?_⟩
      unfold segments object
      rw [hasObject, Bool.not_eq_true, Option.isSome_eq_false_iff, Option.isNone_iff_eq_none]
        at hdst
      rw [hdst]
      rfl
  split at hok
  · exact absurd hok (by simp)
  · rename_i cow c1 hcow
    obtain ⟨hobj, st, hst⟩ := makeFullCopyOnWrite_ok hcow
    have hsame : d.object src = c.object src := hshrink.1.others hne
    rw [segments, hsame] at hobj
    subst hobj hst
    refine ⟨hne, by simpa using hsrc, fun hdst => ?_, d, st, hshrink.1, hshrink.2, hd, hcow, ?_⟩
    · simpa [hdst] using hexist
    · exact (Prod.mk.inj (Except.ok.inj hok)).2.symm

theorem makeObjectFullCow_false {allowExist : Bool}
    (hok : c.makeObjectFullCow B src dst allowExist = .ok (false, c')) : c' = c := by
  unfold makeObjectFullCow at hok
  split_ifs at hok
  · exact (Prod.mk.inj (Except.ok.inj hok)).2.symm
  · exact (Prod.mk.inj (Except.ok.inj hok)).2.symm
  all_goals
    dsimp only at hok
    split_ifs at hok
    split at hok
    · exact absurd hok (by simp)
    · exact absurd (Prod.mk.inj (Except.ok.inj hok)).1 (by simp)

theorem Wf.makeObjectFullCow (h : Wf B g c) {allowExist r : Bool}
    (hok : c.makeObjectFullCow B src dst allowExist = .ok (r, c')) : Wf B g c' := by
  cases r with
  | false =>
    rw [makeObjectFullCow_false hok]
    exact h
  | true =>
    obtain ⟨hne, -, -, d, st, hd, -, -, -, rfl⟩ := makeObjectFullCow_ok h hok
    -- each segment of the result is one of `d`, possibly under another object
    have hseg : ∀ id', (({ d with storage := st } : Container μ σ).setObject dst
        ⟨c.segments src, (c.object src).alignement, .new⟩).segments id' =
          if id' = dst then d.segments src else d.segments id' := by
      intro id'
      rw [segments, object_setObject]
      split_ifs
      · show c.segments src = d.segments src
        rw [segments, segments, hd.others hne]
      · rfl
    refine ⟨hd.wf.memoryOk.of_segments (fun {id' key s} hs => ?_) rfl, fun id' => ?_, fun id' => ?_,
      hd.wf.calls⟩
    · unfold HasSegment at hs
      rw [hseg] at hs
      split_ifs at hs
      · exact ⟨src, key, s, hs, rfl⟩
      · exact ⟨id', key, s, hs, rfl⟩
    · rw [hseg]
      split_ifs
      · exact hd.wf.layout src
      · exact hd.wf.layout id'
    · rw [hseg]
      split_ifs
      · exact hd.wf.aligned src
      · exact hd.wf.aligned id'

/-- The copy takes the alignment of its source. -/
theorem FixedAlignement.makeObjectFullCow {A : Nat} (hfix : FixedAlignement A c) (h : Wf B g c)
    {allowExist r : Bool} (hok : c.makeObjectFullCow B src dst allowExist = .ok (r, c')) :
    FixedAlignement A c' := by
  cases r with
  | false =>
    rw [makeObjectFullCow_false hok]
    exact hfix
  | true =>
    obtain ⟨-, -, -, d, st, hd, -, -, -, rfl⟩ := makeObjectFullCow_ok h hok
    refine ⟨hd.default.trans hfix.default, fun id => ?_⟩
    rw [object_setObject]
    split_ifs with hid
    · exact hfix.object src
    · show (d.object id).alignement = A
      rw [hd.others hid, hfix.object]

end Container

end IoCatcher
