import IoCatcher.Model.StorageLog

/-!
# IO Catcher — a flush that fails half way

`Object::flush` writes the dirty segments of a range one after the other, collects
an error in its result and goes on. It writes what it has to, changes no byte and
reports a failure. But it marks every segment it wrote clean, whatever the write
returned: a segment that could not be written is forgotten, and the next flush does
not try it again. The flush does what it is for if and only if every write of it is
full (`flush_exact_iff`).
-/

namespace IoCatcher

namespace Container

variable {μ σ : Type} {B : Backends μ σ} {id : ObjectId} {offset size : Nat}

-- ---------------------------------------------------------------------------
-- Statement
-- ---------------------------------------------------------------------------

/-- The result of a transfer of `size` bytes says that all of them were
transferred. -/
def IsFull (result : Int) (size : Nat) : Prop := SizeT.ofInt result = size

instance (result : Int) (size : Nat) : Decidable (IsFull result size) :=
  inferInstanceAs (Decidable (_ = _))

/-- The dirty segments that meet the range; a range of size 0 is the whole
object. -/
def unsaved (c : Container μ σ) (id : ObjectId) (offset size : Nat) :
    List (Nat × ObjectSegment) :=
  (c.segments id).entries.filter fun w =>
    w.2.dirty = true ∧ (size = 0 ∨ w.2.offset < offset + size ∧ offset < w.2.stop)

/-- The results of `Object::pwrite` in the loop of `Object::flush`. -/
def flushResults (B : Backends μ σ) (id : ObjectId) (offset size : Nat) :
    List (Nat × ObjectSegment) → Container μ σ → List Int
  | [], _ => []
  | e :: rest, c =>
    if flushed offset size e.2 then
      let r := c.pwrite B id e.2.memory.buffer e.2.getSize e.2.offset
      r.1 :: flushResults B id offset size rest r.2
    else flushResults B id offset size rest c

/-- What a flush of `c` has to leave when its writes have these results. -/
structure FlushExact (B : Backends μ σ) (c c' : Container μ (σ × List StorageCall))
    (id : ObjectId) (offset size : Nat) (ret : Int) (results : List Int) : Prop where
  /-- Each unsaved segment is written once, whole and at its offset, and nothing
  else is. Without a storage backend there is nobody to call. -/
  writes : results.length = (c.unsaved id offset size).length ∧
    c'.log = c.log ++ if B.storageBackend.isSome then
      List.zipWith (fun w r => .pwrite id (c.memory.bytes w.2.memory.buffer) w.2.getSize
        w.2.offset r) (c.unsaved id offset size) results else []
  bytes  : ∀ id' x, c'.cached id' x = c.cached id' x
  status : ret = 0 ↔ ∀ p ∈ (c.unsaved id offset size).zip results, IsFull p.2 p.1.2.getSize
  /-- A segment is clean when it was clean before or its own write was full. -/
  flags  : ∀ k s', c'.HasSegment id k s' ↔ ∃ s, c.HasSegment id k s ∧
    s'.memory = s.memory ∧ s'.offset = s.offset ∧
    (s'.dirty = false ↔ s.dirty = false ∨
      ∃ r, ((k, s), r) ∈ (c.unsaved id offset size).zip results ∧ IsFull r s.getSize)

-- ---------------------------------------------------------------------------
-- The loop
-- ---------------------------------------------------------------------------

/-- The test of the loop, on a range that does not wrap. -/
theorem unsaved_eq {c : Container μ σ} (hlay : LayoutOk (c.segments id))
    (hnw : offset + size < 2 ^ 64) :
    c.unsaved id offset size = (c.segments id).entries.filter fun w => flushed offset size w.2 := by
  refine List.filter_congr fun w hw => ?_
  unfold flushed
  rw [Bool.eq_iff_iff, decide_eq_true_eq, Bool.and_eq_true, Bool.or_eq_true, decide_eq_true_eq,
    hlay.overlap_iff hw, SizeT.add_eq hnw]

theorem length_flushResults (es : List (Nat × ObjectSegment)) :
    ∀ c : Container μ σ, (flushResults B id offset size es c).length =
      (es.filter fun w => flushed offset size w.2).length := by
  induction es with
  | nil => exact fun _ => rfl
  | cons e rest ih =>
    intro c
    unfold flushResults
    by_cases hfl : flushed offset size e.2 = true
    · rw [if_pos hfl, List.filter_cons, if_pos hfl]
      exact congrArg Nat.succ (ih _)
    · rw [if_neg hfl, List.filter_cons, if_neg hfl]
      exact ih c

theorem log_pwrite (c : Container μ (σ × List StorageCall)) (buffer : Addr) (size offset : Nat) :
    (c.pwrite B.logged id buffer size offset).2.log =
      c.log ++ if B.storageBackend.isSome then
        [.pwrite id (c.memory.bytes buffer) size offset
          (c.pwrite B.logged id buffer size offset).1] else [] := by
  unfold pwrite log Backends.logged
  cases B.storageBackend with
  | none => simp
  | some sb => rfl

/-- The calls of the loop. -/
theorem log_flushSegments (es : List (Nat × ObjectSegment)) :
    ∀ (ret : Int) (c : Container μ (σ × List StorageCall)),
      (flushSegments B.logged id offset size es ret c).2.log =
        c.log ++ if B.storageBackend.isSome then
          List.zipWith (fun w r => .pwrite id (c.memory.bytes w.2.memory.buffer) w.2.getSize
            w.2.offset r) (es.filter fun w => flushed offset size w.2)
            (flushResults B.logged id offset size es c) else [] := by
  induction es with
  | nil =>
    intro ret c
    cases B.storageBackend <;> simp [flushSegments, flushResults]
  | cons e rest ih =>
    intro ret c
    unfold flushSegments flushResults
    by_cases hfl : flushed offset size e.2 = true
    · have hmem : (c.pwrite B.logged id e.2.memory.buffer e.2.getSize e.2.offset).2.memory =
          c.memory := by
        obtain ⟨st, hst⟩ := pwrite_eq (B := B.logged) c id e.2.memory.buffer e.2.getSize e.2.offset
        rw [hst]
      rw [if_pos hfl, if_pos hfl, List.filter_cons, if_pos hfl, ih, log_pwrite, hmem]
      cases B.storageBackend with
      | none => simp
      | some sb => simp
    · rw [if_neg hfl, if_neg hfl, List.filter_cons, if_neg hfl, ih]

/-- The result of the loop is 0 while every write is full. -/
theorem status_flushSegments (es : List (Nat × ObjectSegment)) :
    ∀ (ret : Int) (c : Container μ σ),
      (flushSegments B id offset size es ret c).1 = 0 ↔ ret = 0 ∧
        ∀ p ∈ (es.filter fun w => flushed offset size w.2).zip
          (flushResults B id offset size es c), IsFull p.2 p.1.2.getSize := by
  induction es with
  | nil =>
    intro ret c
    simp [flushSegments]
  | cons e rest ih =>
    intro ret c
    unfold flushSegments flushResults
    by_cases hfl : flushed offset size e.2 = true
    · rw [if_pos hfl, if_pos hfl, List.filter_cons, if_pos hfl, ih, List.zip_cons_cons,
        List.forall_mem_cons]
      by_cases hfull : SizeT.ofInt (c.pwrite B id e.2.memory.buffer e.2.getSize e.2.offset).1 ≠
          e.2.getSize
      · rw [if_pos hfull]
        simp [IsFull, hfull]
      · rw [if_neg hfull]
        simp only [IsFull, not_not.mp hfull, true_and]
    · rw [if_neg hfl, if_neg hfl, List.filter_cons, if_neg hfl, ih]

-- ---------------------------------------------------------------------------
-- A segment and its own result
-- ---------------------------------------------------------------------------

theorem exists_mem_zip {α β : Type} {l : List α} {l' : List β} (hlen : l'.length = l.length)
    {a : α} (ha : a ∈ l) : ∃ r, (a, r) ∈ l.zip l' := by
  obtain ⟨i, hi, rfl⟩ := List.mem_iff_getElem.mp ha
  refine ⟨l'[i], List.mem_iff_getElem.mpr ⟨i, ?_, ?_⟩⟩
  · rw [List.length_zip]
    omega
  · rw [List.getElem_zip]

/-- An element that occurs once has one partner. -/
theorem eq_of_mem_zip {α β : Type} {l : List α} {l' : List β} (hl : l.Nodup) {a : α} {r r' : β}
    (h : (a, r) ∈ l.zip l') (h' : (a, r') ∈ l.zip l') : r = r' := by
  obtain ⟨i, hi, heq⟩ := List.mem_iff_getElem.mp h
  obtain ⟨j, hj, heq'⟩ := List.mem_iff_getElem.mp h'
  rw [List.getElem_zip] at heq heq'
  rw [List.length_zip] at hi hj
  have hij : i = j := (List.Nodup.getElem_inj_iff hl).mp
    ((Prod.mk.inj heq).1.trans (Prod.mk.inj heq').1.symm)
  subst hij
  exact (Prod.mk.inj heq).2.symm.trans (Prod.mk.inj heq').2

theorem nodup_unsaved (c : Container μ σ) (id : ObjectId) (offset size : Nat) :
    (c.unsaved id offset size).Nodup := by
  refine List.Nodup.filter _ ((c.segments id).sorted.imp fun {w w'} hlt heq => ?_)
  rw [heq] at hlt
  exact Nat.lt_irrefl _ hlt

-- ---------------------------------------------------------------------------
-- The whole flush
-- ---------------------------------------------------------------------------

/-- A flush does what it is for if and only if every write of it is full. -/
theorem flushExact_iff {c : Container μ (σ × List StorageCall)} (hlay : LayoutOk (c.segments id))
    (hnw : offset + size < 2 ^ 64) :
    FlushExact B c (c.flush B.logged id offset size).2 id offset size
        (c.flush B.logged id offset size).1
        (flushResults B.logged id offset size (c.segments id).entries c) ↔
      ∀ p ∈ (c.unsaved id offset size).zip
        (flushResults B.logged id offset size (c.segments id).entries c),
        IsFull p.2 p.1.2.getSize := by
  have hunsaved := unsaved_eq hlay hnw
  have hlen : (flushResults B.logged id offset size (c.segments id).entries c).length =
      (c.unsaved id offset size).length := by
    rw [hunsaved]
    exact length_flushResults ..
  have hmem : ∀ {k s}, (k, s) ∈ c.unsaved id offset size ↔
      c.HasSegment id k s ∧ flushed offset size s = true := by
    intro k s
    rw [hunsaved, List.mem_filter]
    exact Iff.rfl
  have hflag : ∀ {k s'}, (c.flush B.logged id offset size).2.HasSegment id k s' ↔
      ∃ t, c.HasSegment id k t ∧
        (if flushed offset size t then { t with dirty := false } else t) = s' := by
    intro k s'
    rw [hasSegment_flush, if_pos rfl]
  constructor
  · -- a segment whose write failed is clean after the flush
    rintro h ⟨⟨k, s⟩, r⟩ hp
    obtain ⟨hs, hfl⟩ := hmem.mp (List.of_mem_zip hp).1
    have hdirty : s.dirty = true := (Bool.and_eq_true _ _ ▸ hfl).1
    obtain ⟨t, ht, -, -, hclean⟩ := (h.flags k { s with dirty := false }).mp
      (hflag.mpr ⟨s, hs, if_pos hfl⟩)
    obtain rfl := hasSegment_unique hs ht
    rcases hclean.mp rfl with hd | ⟨r', hp', hfull⟩
    · rw [hdirty] at hd
      exact absurd hd (by decide)
    · rw [eq_of_mem_zip (nodup_unsaved ..) hp hp']
      exact hfull
  · intro hfull
    refine ⟨⟨hlen, ?_⟩, fun id' x => cached_flush offset size id, ?_, fun k s' => ?_⟩
    · rw [hunsaved]
      exact log_flushSegments (c.segments id).entries 0 c
    · refine (status_flushSegments (c.segments id).entries 0 c).trans ?_
      rw [hunsaved]
      simp
    · rw [hflag]
      refine exists_congr fun t => and_congr_right fun ht => ?_
      by_cases hfl : flushed offset size t = true
      · rw [if_pos hfl]
        obtain ⟨r, hr⟩ := exists_mem_zip hlen (hmem.mpr ⟨ht, hfl⟩)
        constructor
        · rintro rfl
          exact ⟨rfl, rfl, fun _ => Or.inr ⟨r, hr, hfull _ hr⟩, fun _ => rfl⟩
        · rintro ⟨hmemory, hoffset, hclean⟩
          have hd := hclean.mpr (Or.inr ⟨r, hr, hfull _ hr⟩)
          obtain ⟨m, o, d⟩ := s'
          cases hmemory
          cases hoffset
          cases hd
          rfl
      · rw [if_neg hfl]
        have hno : ∀ r, ((k, t), r) ∉ (c.unsaved id offset size).zip
            (flushResults B.logged id offset size (c.segments id).entries c) :=
          fun r hr => hfl (hmem.mp (List.of_mem_zip hr).1).2
        constructor
        · rintro rfl
          exact ⟨rfl, rfl, Or.inl, fun h => h.resolve_right fun ⟨r, hr, _⟩ => hno r hr⟩
        · rintro ⟨hmemory, hoffset, hclean⟩
          have hd : s'.dirty = false ↔ t.dirty = false :=
            hclean.trans ⟨fun h => h.resolve_right fun ⟨r, hr, _⟩ => hno r hr, Or.inl⟩
          obtain ⟨m, o, d⟩ := s'
          obtain ⟨m', o', d'⟩ := t
          cases hmemory
          cases hoffset
          cases d <;> cases d' <;> simp_all

end Container

namespace Server

open Container

variable {μ σ : Type} {B : Backends μ σ} {s₀ s : Server μ (σ × List StorageCall)} {id : ObjectId}
  {offset size : Nat}

/-- **When a flush forgets nothing.** For every object of a reachable state, every
range that does not wrap and every results of the writes: if and only if each
write is full. -/
theorem flush_exact_iff {A : Nat} {check : Bool} (hinit : Initial B.logged A check s₀)
    (hrun : Run (Step B.logged) (fun _ _ => True) s₀ s) (hnw : offset + size < 2 ^ 64) :
    FlushExact B (s.container.getObject id)
        ((s.container.getObject id).flush B.logged id offset size).2 id offset size
        ((s.container.getObject id).flush B.logged id offset size).1
        (flushResults B.logged id offset size ((s.container.getObject id).segments id).entries
          (s.container.getObject id)) ↔
      ∀ p ∈ ((s.container.getObject id).unsaved id offset size).zip
        (flushResults B.logged id offset size ((s.container.getObject id).segments id).entries
          (s.container.getObject id)), IsFull p.2 p.1.2.getSize :=
  flushExact_iff (((wf_run hinit hrun).getObject id).layout id) hnw

/-- Two segments of object 1, one of them flushed. -/
def halfFlushed : Server Malloc ((ObjectId → Bytes) × List StorageCall) :=
  (loggedServer 8).after localBackends.logged
    [.eagerWrite ⟨⟨1, 1⟩, 0, 8, fun _ => 7⟩, .flush ⟨1, 1⟩ 0 0,
      .eagerWrite ⟨⟨1, 1⟩, 8, 8, fun _ => 8⟩]

/-- On a storage that takes every write, the second one is written. -/
theorem halfFlushed_flush_exact :
    FlushExact localBackends (halfFlushed.container.getObject ⟨1, 1⟩)
      ((halfFlushed.container.getObject ⟨1, 1⟩).flush localBackends.logged ⟨1, 1⟩ 0 0).2 ⟨1, 1⟩ 0 0
      ((halfFlushed.container.getObject ⟨1, 1⟩).flush localBackends.logged ⟨1, 1⟩ 0 0).1
      (flushResults localBackends.logged ⟨1, 1⟩ 0 0
        ((halfFlushed.container.getObject ⟨1, 1⟩).segments ⟨1, 1⟩).entries
        (halfFlushed.container.getObject ⟨1, 1⟩)) :=
  (flush_exact_iff (initial_loggedServer _ rfl 8) (run_after .start) (by decide)).mpr (by decide)

/-- A storage without room: nothing is written. -/
def noRoom : StorageBackend (ObjectId → Bytes) :=
  { byteStore with
    pwrite := fun s _ _ _ _ => (0, s)
    disk_pwrite := fun _ _ _ => rfl
    pwrite_full := by
      intro s id buffer size offset hfull i hi
      obtain rfl : 0 = size := hfull
      exact absurd hi (Nat.not_lt_zero i) }

/-- The server on it. -/
def noRoomBackends : Backends Malloc (ObjectId → Bytes) := ⟨Malloc.backend, some noRoom⟩

/-- One segment of object 1, not saved. -/
def oneUnsaved : Server Malloc ((ObjectId → Bytes) × List StorageCall) :=
  (loggedServer 8).after noRoomBackends.logged [.eagerWrite ⟨⟨1, 1⟩, 0, 8, fun _ => 7⟩]

/-- **A failed write is forgotten**: the segment is clean after the flush. -/
theorem flush_forgets_unsaved :
    ¬ ∀ (B : Backends Malloc (ObjectId → Bytes))
      (s₀ s : Server Malloc ((ObjectId → Bytes) × List StorageCall)) (id : ObjectId)
      (offset size : Nat), Initial B.logged 8 false s₀ →
      Run (Step B.logged) (fun _ _ => True) s₀ s → offset + size < 2 ^ 64 →
      FlushExact B (s.container.getObject id)
        ((s.container.getObject id).flush B.logged id offset size).2 id offset size
        ((s.container.getObject id).flush B.logged id offset size).1
        (flushResults B.logged id offset size ((s.container.getObject id).segments id).entries
          (s.container.getObject id)) := by
  intro hall
  have hinit := initial_loggedServer noRoomBackends rfl 8
  have hrun : Run (Step noRoomBackends.logged) (fun _ _ => True) (loggedServer 8) oneUnsaved :=
    run_after .start
  have hexact := hall noRoomBackends _ oneUnsaved ⟨1, 1⟩ 0 0 hinit hrun (by decide)
  have hlayout := ((wf_run hinit hrun).getObject ⟨1, 1⟩).layout ⟨1, 1⟩
  exact absurd ((flushExact_iff hlayout (by decide)).mp hexact) (by decide)

end Server

end IoCatcher
