import IoCatcher.Model.WellFormed

/-!
# IO Catcher — the content of an object

What a client sees at a position of an object: the cached byte when a segment
holds the position, the stored byte otherwise. The operations are related to
it by the lemmas of this file and by nothing else:

* `cached_eq_some` / `cached_eq_none` — the cached byte in terms of segments;
* `Grows.cached` / `Grows.content` — growing hides no byte, and shows the
  stored ones where it loads;
* `content_flush` — a flush moves bytes to the storage and changes no content.
-/

namespace IoCatcher

/-- The segment holds position `x`. -/
def ObjectSegment.Holds (s : ObjectSegment) (x : Nat) : Prop := s.offset ≤ x ∧ x < s.stop

instance (s : ObjectSegment) (x : Nat) : Decidable (s.Holds x) :=
  inferInstanceAs (Decidable (_ ∧ _))

namespace Container

variable {μ σ : Type} {B : Backends μ σ} {c c' : Container μ σ} {id id' : ObjectId} {x : Nat}

/-- The cached byte at position `x` of an object. -/
def cached (c : Container μ σ) (id : ObjectId) (x : Nat) : Option UInt8 :=
  ((c.segments id).entries.find? fun e => e.2.Holds x).map fun e =>
    c.memory.bytes e.2.memory.buffer (x - e.2.offset)

/-- The byte at position `x` of an object: the cached one if there is one, else
the stored one. -/
def content (B : Backends μ σ) (c : Container μ σ) (id : ObjectId) (x : Nat) : UInt8 :=
  (c.cached id x).getD (c.disk B id x)

theorem cached_of_segment (h : LayoutOk (c.segments id)) {k : Nat} {s : ObjectSegment}
    (hs : c.HasSegment id k s) (hx : s.Holds x) :
    c.cached id x = some (c.memory.bytes s.memory.buffer (x - s.offset)) := by
  unfold cached
  cases hf : (c.segments id).entries.find? fun e => e.2.Holds x with
  | none =>
    have := List.find?_eq_none.mp hf _ hs
    simp [hx] at this
  | some e =>
    have he := List.mem_of_find?_eq_some hf
    have hex : e.2.Holds x := by simpa using List.find?_some hf
    obtain ⟨-, heq⟩ := h.eq_of_shared (k := e.1) (s := e.2) he hs hex.1 hex.2 hx.1 hx.2
    rw [Option.map_some, heq]

/-- The content of a segment. -/
theorem content_of_segment (h : LayoutOk (c.segments id)) {k : Nat} {s : ObjectSegment}
    (hs : c.HasSegment id k s) (hx : s.Holds x) :
    c.content B id x = c.memory.bytes s.memory.buffer (x - s.offset) := by
  unfold content
  rw [cached_of_segment h hs hx]
  rfl

theorem cached_eq_none :
    c.cached id x = none ↔ ∀ k s, c.HasSegment id k s → ¬ s.Holds x := by
  unfold cached
  rw [Option.map_eq_none_iff, List.find?_eq_none]
  constructor
  · intro h k s hs hx
    have := h (k, s) hs
    simp [hx] at this
  · intro h e he
    simpa using h e.1 e.2 he

theorem cached_eq_some (h : LayoutOk (c.segments id)) {v : UInt8} :
    c.cached id x = some v ↔ ∃ k s, c.HasSegment id k s ∧ s.Holds x ∧
      c.memory.bytes s.memory.buffer (x - s.offset) = v := by
  constructor
  · intro hv
    by_cases hex : ∃ k s, c.HasSegment id k s ∧ s.Holds x
    · obtain ⟨k, s, hs, hx⟩ := hex
      rw [cached_of_segment h hs hx] at hv
      exact ⟨k, s, hs, hx, Option.some.inj hv⟩
    · have : c.cached id x = none :=
        cached_eq_none.mpr fun k s hs hx => hex ⟨k, s, hs, hx⟩
      rw [this] at hv
      exact absurd hv (by simp)
  · rintro ⟨k, s, hs, hx, rfl⟩
    exact cached_of_segment h hs hx

/-- The cached bytes of an object depend on its segments and their bytes. -/
theorem cached_congr_at (hseg : c'.segments id = c.segments id)
    (hb : ∀ {k s}, c.HasSegment id k s → s.Holds x →
      c'.memory.bytes s.memory.buffer (x - s.offset) =
        c.memory.bytes s.memory.buffer (x - s.offset)) :
    c'.cached id x = c.cached id x := by
  unfold cached
  rw [hseg]
  cases hf : (c.segments id).entries.find? fun e => e.2.Holds x with
  | none => rfl
  | some e =>
    have hx : e.2.Holds x := by simpa using List.find?_some hf
    rw [Option.map_some, Option.map_some]
    rw [hb (k := e.1) (s := e.2) (List.mem_of_find?_eq_some hf) hx]

theorem cached_congr (hseg : c'.segments id = c.segments id)
    (hb : ∀ {k s}, c.HasSegment id k s →
      c'.memory.bytes s.memory.buffer = c.memory.bytes s.memory.buffer) :
    c'.cached id x = c.cached id x :=
  cached_congr_at hseg fun hs _ => by rw [hb hs]

/-! ## Growing -/

section

variable {g : Nat} {Loaded : Nat → Nat → Prop}

theorem Grows.cached_other (h : Grows B g Loaded c c' id) (hne : id' ≠ id) :
    c'.cached id' x = c.cached id' x :=
  cached_congr (h.others hne) fun hs => h.otherBytes hne hs

/-- A cached byte stays. -/
theorem Grows.cached (h : Grows B g Loaded c c' id) (hlay : LayoutOk (c.segments id)) {v : UInt8}
    (hv : c.cached id x = some v) : c'.cached id x = some v := by
  obtain ⟨k, s, hs, hx, rfl⟩ := (cached_eq_some hlay).mp hv
  obtain ⟨s', hs', hd⟩ := h.kept hs
  have hx' : s'.Holds x := by
    unfold ObjectSegment.Holds ObjectSegment.stop at hx ⊢
    rw [hd.offset, hd.size]
    exact hx
  rw [cached_of_segment h.layout hs' hx', hd.offset, hd.bytes]
  unfold ObjectSegment.Holds ObjectSegment.stop at hx
  omega

/-- A byte that was not cached is cached by a new segment. -/
theorem Grows.new_of_cached (h : Grows B g Loaded c c' id)
    {k : Nat} {s : ObjectSegment} (hs : c'.HasSegment id k s) (hx : s.Holds x)
    (hno : c.cached id x = none) : ∀ t, ¬ c.HasSegment id k t := by
  intro t ht
  obtain ⟨s', hs', hd⟩ := h.kept ht
  obtain rfl := hasSegment_unique hs' hs
  refine cached_eq_none.mp hno k t ht ?_
  unfold ObjectSegment.Holds ObjectSegment.stop at hx ⊢
  rw [← hd.offset, ← hd.size]
  exact hx

/-- Where a cached byte comes from: it was cached, or a new segment holds it and
shows the stored byte if it was loaded. -/
theorem Grows.cached_cases (h : Grows B g Loaded c c' id) (hlay : LayoutOk (c.segments id))
    {v : UInt8} (hv : c'.cached id x = some v) :
    c.cached id x = some v ∨ (c.cached id x = none ∧ ∃ k s, c'.HasSegment id k s ∧ s.Holds x ∧
      (Loaded s.offset s.getSize → v = c.disk B id x)) := by
  cases hc : c.cached id x with
  | some u =>
    rw [h.cached hlay hc] at hv
    exact Or.inl hv
  | none =>
    obtain ⟨k, s, hs, hx, rfl⟩ := (cached_eq_some h.layout).mp hv
    refine Or.inr ⟨rfl, k, s, hs, hx, fun hload => ?_⟩
    obtain ⟨-, hbytes⟩ := h.added hs (h.new_of_cached hs hx hc)
    unfold ObjectSegment.Holds ObjectSegment.stop at hx
    rw [hbytes hload _ (by omega)]
    congr 1
    omega

/-- When every new segment was loaded, no content changes. -/
theorem Grows.content (h : Grows B g Loaded c c' id) (hlay : LayoutOk (c.segments id))
    (hload : ∀ offset size, Loaded offset size) :
    c'.content B id' x = c.content B id' x := by
  unfold Container.content
  rw [h.disk]
  by_cases hid : id' = id
  · subst hid
    cases hc : c.cached id' x with
    | some v => rw [h.cached hlay hc]
    | none =>
      cases hc' : c'.cached id' x with
      | none => rfl
      | some v =>
        rcases h.cached_cases hlay hc' with hold | ⟨-, k, s, -, -, hv⟩
        · exact absurd (hc.symm.trans hold) (by simp)
        · exact hv (hload _ _)
  · rw [h.cached_other hid]

end

/-! ## Flags and storage -/

/-- Flags do not show in the content. -/
theorem cached_mapSegments {f : ObjectSegment → ObjectSegment}
    (hf : ∀ s, (f s).memory = s.memory ∧ (f s).offset = s.offset) (id : ObjectId) :
    (c.setSegments id ((c.segments id).mapValues f)).cached id' x = c.cached id' x := by
  by_cases hid : id' = id
  · subst hid
    unfold cached
    rw [segments_setSegments_self]
    have hcomp : (fun e : Nat × ObjectSegment => decide (e.2.Holds x)) ∘
        (fun e : Nat × ObjectSegment => (e.1, f e.2)) = fun e => decide (e.2.Holds x) := by
      funext e
      have hs : (f e.2).getSize = e.2.getSize := by
        unfold ObjectSegment.getSize
        rw [(hf e.2).1]
      have hiff : (f e.2).Holds x ↔ e.2.Holds x := by
        unfold ObjectSegment.Holds ObjectSegment.stop
        rw [(hf e.2).2, hs]
      exact decide_eq_decide.mpr hiff
    unfold OrderedMap.mapValues
    dsimp only
    rw [List.find?_map, hcomp, Option.map_map]
    congr 1
    funext e
    simp [(hf e.2).1, (hf e.2).2]
  · refine cached_congr ?_ fun _ => rfl
    rw [segments_setSegments, if_neg hid]

theorem cached_markDirty (base size : Nat) (id : ObjectId) :
    (c.markDirty id base size).cached id' x = c.cached id' x :=
  cached_mapSegments (fun s => by split_ifs <;> exact ⟨rfl, rfl⟩) id

theorem cached_flush (offset size : Nat) (id : ObjectId) :
    (c.flush B id offset size).2.cached id' x = c.cached id' x := by
  obtain ⟨st, hst⟩ := flush_eq (B := B) c id offset size
  rw [hst]
  exact cached_mapSegments (c := { c with storage := st })
    (fun s => by split_ifs <;> exact ⟨rfl, rfl⟩) id

@[simp] theorem cached_getObject (id : ObjectId) :
    (c.getObject id).cached id' x = c.cached id' x :=
  cached_congr (segments_getObject ..) fun _ => rfl

@[simp] theorem disk_getObject (id : ObjectId) : (c.getObject id).disk B = c.disk B := rfl

@[simp] theorem disk_markDirty (id : ObjectId) (base size : Nat) :
    (c.markDirty id base size).disk B = c.disk B := rfl

/-- A `pwrite` changes nothing outside its range. -/
theorem disk_pwrite {buffer : Addr} {size offset : Nat}
    (h : ¬ (id' = id ∧ offset ≤ x ∧ x < offset + size)) :
    (c.pwrite B id buffer size offset).2.disk B id' x = c.disk B id' x := by
  unfold pwrite Container.disk
  cases hsb : B.storageBackend with
  | none => rfl
  | some sb => exact sb.disk_pwrite id' x h

/-- A reliable `pwrite` stores the bytes of the buffer and answers its size. -/
theorem pwrite_reliable {sb : StorageBackend σ} (hsb : B.storageBackend = some sb)
    (hrel : sb.Reliable) {buffer : Addr} {size offset : Nat} (hsize : size < 2 ^ 64) :
    SizeT.ofInt (c.pwrite B id buffer size offset).1 = size ∧
      ∀ i < size, (c.pwrite B id buffer size offset).2.disk B id (offset + i) =
        c.memory.bytes buffer i := by
  have hst : SizeT.ofInt (sb.pwrite c.storage id (c.memory.bytes buffer) size offset).1 = size :=
    hrel.pwrite _ _ _ _ _ hsize
  unfold pwrite Container.disk
  rw [hsb]
  exact ⟨hst, fun i hi => sb.pwrite_full hst i hi⟩

/-- Outside the segments it writes, a flush leaves the storage alone. -/
theorem disk_flushSegments {offset size : Nat} {es : List (Nat × ObjectSegment)} {ret : Int}
    (h : id' ≠ id ∨ ∀ e ∈ es, flushed offset size e.2 = true → ¬ e.2.Holds x) :
    (flushSegments B id offset size es ret c).2.disk B id' x = c.disk B id' x := by
  induction es generalizing ret c with
  | nil => rfl
  | cons e rest ih =>
    have hrest : id' ≠ id ∨ ∀ e ∈ rest, flushed offset size e.2 = true → ¬ e.2.Holds x :=
      h.imp_right fun h e' he' => h e' (List.mem_cons_of_mem _ he')
    unfold flushSegments
    split_ifs with hfl
    · dsimp only
      rw [ih hrest]
      refine disk_pwrite ?_
      rintro ⟨rfl, hx⟩
      rcases h with h | h
      · exact h rfl
      · exact h e (List.mem_cons_self ..) hfl hx
    · exact ih hrest

theorem disk_flush {offset size : Nat}
    (h : id' ≠ id ∨ ∀ {k s}, c.HasSegment id k s → flushed offset size s = true → ¬ s.Holds x) :
    (c.flush B id offset size).2.disk B id' x = c.disk B id' x := by
  show (flushSegments B id offset size (c.segments id).entries 0 c).2.disk B id' x = _
  exact disk_flushSegments (h.imp_right fun h e he => h (k := e.1) he)

/-- **A flush changes no content**: what it writes was cached, and stays so. -/
theorem content_flush (offset size : Nat) (id : ObjectId) :
    (c.flush B id offset size).2.content B id' x = c.content B id' x := by
  unfold content
  rw [cached_flush]
  cases hc : c.cached id' x with
  | some v => rfl
  | none =>
    rw [Option.getD_none, Option.getD_none]
    refine disk_flush ?_
    by_cases hid : id' = id
    · subst hid
      exact Or.inr fun hs _ => cached_eq_none.mp hc _ _ hs
    · exact Or.inl hid

end Container

end IoCatcher
