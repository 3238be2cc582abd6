import IoCatcher.Model.Flight

/-!
# IO Catcher — chunks in use

`MemoryOk` says that the buffer of every segment is a chunk in use. `Accounted` is the
other direction: every chunk in use is the buffer of a segment, so that no allocation is
forgotten. Whatever makes a segment lose its buffer releases the buffer when no other
segment has it, and a load that fails gives its chunk back.

* `Accounted.getBuffers`          — a call of `getBuffers` forgets no chunk, also when it fails;
* `Accounted.makeObjectRangeCow`,
  `Accounted.makeObjectFullCow`   — nor do the copies, and the deletion of a destination;
* `accounted_run`                 — so every reachable server has its chunks accounted for.
-/

namespace IoCatcher

namespace Container

variable {μ σ : Type} {B : Backends μ σ} {c c' : Container μ σ} {id src dst : ObjectId}
  {a : Addr} {size key g : Nat} {s : ObjectSegment}

/-- A segment has the buffer. -/
def IsBuffer (c : Container μ σ) (a : Addr) : Prop :=
  ∃ id key s, c.HasSegment id key s ∧ s.memory.buffer = a

/-- The chunks in use are the buffers of the segments. -/
structure Accounted (B : Backends μ σ) (c : Container μ σ) : Prop where
  memoryOk : MemoryOk B c
  buffer   : ∀ {a size}, B.memoryBackend.chunk c.memory.backend a = some size → c.IsBuffer a

theorem isBuffer_of_useCount (h : c.useCount a ≠ 0) : c.IsBuffer a := by
  obtain ⟨x, hx⟩ := List.exists_mem_of_length_pos (Nat.pos_of_ne_zero h)
  obtain ⟨s, hs, hbuf⟩ := mem_owners.mp (show (x.1, x.2) ∈ c.owners a from hx)
  exact ⟨x.1, x.2, s, hs, hbuf⟩

/-- The chunks and the segments are the same as before, up to who owns what. -/
theorem Accounted.of_segments (h : Accounted B c) (hok : MemoryOk B c')
    (hs : ∀ {id key s}, c.HasSegment id key s → c'.IsBuffer s.memory.buffer)
    (hb : c'.memory.backend = c.memory.backend) : Accounted B c' := by
  refine ⟨hok, fun ha => ?_⟩
  rw [hb] at ha
  obtain ⟨id, key, s, hseg, rfl⟩ := h.buffer ha
  exact hs hseg

/-- Only bytes, flags, registrations or the storage change. -/
theorem Accounted.of_same (h : Accounted B c) (hs : SameSegments c c')
    (hb : c'.memory.backend = c.memory.backend) : Accounted B c' := by
  refine h.of_segments ⟨hb ▸ h.memoryOk.valid, fun hseg => ?_⟩ (fun hseg => ?_) hb
  · obtain ⟨t, ht, hsame⟩ := hs.old hseg
    rw [hb, hsame.memory]
    exact h.memoryOk.chunk ht
  · obtain ⟨t, ht, hsame⟩ := hs.kept hseg
    exact ⟨_, _, t, ht, by rw [hsame.memory]⟩

-- ---------------------------------------------------------------------------
-- Releasing and storing
-- ---------------------------------------------------------------------------

/-- A buffer that has lost an owner is given back, or still has one. -/
theorem accounted_release (hok : MemoryOk B c) {m : ObjectSegmentMemory}
    (hm : B.memoryBackend.chunk c.memory.backend m.buffer = some m.size)
    (h : ∀ {a size}, B.memoryBackend.chunk c.memory.backend a = some size →
      c.IsBuffer a ∨ a = m.buffer) : Accounted B (c.release B m) := by
  refine ⟨hok.release hm, fun {a size} ha => ?_⟩
  have hseg : c.IsBuffer a → (c.release B m).IsBuffer a := by
    rintro ⟨id, key, s, hs, hbuf⟩
    refine ⟨id, key, s, ?_, hbuf⟩
    unfold HasSegment
    rw [segments_release]
    exact hs
  refine hseg ?_
  unfold release at ha
  split_ifs at ha with hzero
  · have hdone : B.memoryBackend.chunk
        (B.memoryBackend.deallocate c.memory.backend m.buffer m.size) a = some size := ha
    rw [B.memoryBackend.chunk_deallocate _ hok.valid hm] at hdone
    split_ifs at hdone with heq
    exact (h hdone).resolve_right heq
  · rcases h ha with hin | rfl
    · exact hin
    · exact isBuffer_of_useCount hzero

/-- A segment that is stored brings its buffer, and the one it replaces may leave one. -/
theorem accounted_storeSegment (hok : MemoryOk B c)
    (hs : B.memoryBackend.chunk c.memory.backend s.memory.buffer = some s.memory.size)
    (h : ∀ {a size}, B.memoryBackend.chunk c.memory.backend a = some size →
      c.IsBuffer a ∨ a = s.memory.buffer) : Accounted B (c.storeSegment B id key s) := by
  refine ⟨hok.storeSegment hs, ?_⟩
  have hself : (c.setSegments id ((c.segments id).insert key s)).HasSegment id key s := by
    unfold HasSegment
    rw [segments_setSegments_self]
    exact OrderedMap.mem_insert.mpr (Or.inl rfl)
  -- the other segments stay
  have hkept : ∀ {id' key' t}, c.HasSegment id' key' t → ¬ (id' = id ∧ key' = key) →
      (c.setSegments id ((c.segments id).insert key s)).HasSegment id' key' t := by
    intro id' key' t ht hne
    unfold HasSegment
    rw [segments_setSegments]
    split_ifs with hid
    · subst hid
      exact OrderedMap.mem_insert.mpr (Or.inr ⟨fun hkey => hne ⟨rfl, hkey⟩, ht⟩)
    · exact ht
  unfold storeSegment
  dsimp only
  cases hf : (c.segments id).find? key with
  | none =>
    intro a size ha
    rcases h ha with ⟨id', key', t, ht, hbuf⟩ | rfl
    · refine ⟨id', key', t, hkept ht ?_, hbuf⟩
      rintro ⟨rfl, rfl⟩
      exact absurd (hf.symm.trans (OrderedMap.find?_eq_some.mpr ht)) (by simp)
    · exact ⟨_, _, _, hself, rfl⟩
  | some old =>
    have hold : c.HasSegment id key old := OrderedMap.find?_eq_some.mp hf
    have hrel : Accounted B ((c.setSegments id ((c.segments id).insert key s)).release B
        old.memory) := by
      refine accounted_release (hok.insertSegment hs) (hok.chunk hold) fun {a size} ha => ?_
      rcases h ha with ⟨id', key', t, ht, hbuf⟩ | rfl
      · by_cases hsame : id' = id ∧ key' = key
        · obtain ⟨rfl, rfl⟩ := hsame
          exact Or.inr (hbuf.symm.trans (by rw [hasSegment_unique ht hold]))
        · exact Or.inl ⟨id', key', t, hkept ht hsame, hbuf⟩
      · exact Or.inl ⟨_, _, _, hself, rfl⟩
    intro a size ha
    exact hrel.buffer ha

/-- A segment on a newly allocated chunk is stored, whatever happened to the bytes and to
the storage in between. -/
theorem Accounted.storeFresh (h : Accounted B c) {m : Memory μ} (st : σ)
    (hs : s.memory = ⟨(c.memory.allocate B.memoryBackend size).1, size⟩)
    (hbackend : m.backend = (c.memory.allocate B.memoryBackend size).2.backend) :
    Accounted B ({ c with memory := m, storage := st }.storeSegment B id key s) := by
  have hchunk := h.memoryOk.chunk_allocated hbackend
  refine accounted_storeSegment (h.memoryOk.allocate hbackend) ?_ fun {a size'} ha => ?_
  · show B.memoryBackend.chunk m.backend _ = _
    rw [hchunk, hs, if_pos rfl]
  · have ha' : B.memoryBackend.chunk m.backend a = some size' := ha
    rw [hchunk] at ha'
    split_ifs at ha' with heq
    · exact Or.inr (by rw [heq, hs])
    · obtain ⟨id', key', t, ht, hbuf⟩ := h.buffer ha'
      exact Or.inl ⟨id', key', t, ht, hbuf⟩

-- ---------------------------------------------------------------------------
-- `getBuffers`
-- ---------------------------------------------------------------------------

theorem Accounted.applyCow (h : Accounted B c) (id : ObjectId) (key : Nat) (s : ObjectSegment) :
    Accounted B (c.applyCow B id key s).2 := by
  unfold Container.applyCow
  exact h.storeFresh c.storage rfl rfl

/-- A load that fails gives its chunk back, and one that succeeds stores it. -/
theorem Accounted.loadSegment (h : Accounted B c) (id : ObjectId) (offset size : Nat)
    (load acceptLoadFail : Bool) :
    Accounted B (c.loadSegment B id offset size load acceptLoadFail).2 := by
  obtain ⟨m, st, hr, hl⟩ := c.loadChunk_loaded (B := B) id offset size load
  rw [loadSegment_eq, hr]
  split_ifs
  · refine ⟨h.memoryOk.deallocate hl.backend, fun {a size'} ha => ?_⟩
    exact h.buffer (((h.memoryOk.chunk_returned hl.backend).2 a).symm.trans ha)
  · exact h.storeFresh st rfl hl.backend

theorem Accounted.loadGap (h : Accounted B c) (id : ObjectId) (origBase origSize : Nat)
    (load isForWriteOp : Bool) (lastOffset size : Nat) :
    Accounted B (c.loadGap B id origBase origSize load isForWriteOp lastOffset size).2 :=
  h.loadSegment ..

theorem Accounted.extractSegments (id : ObjectId) (base size : Nat)
    (accessMode : ObjectAccessMode) (es : List (Nat × ObjectSegment)) :
    ∀ {c : Container μ σ}, Accounted B c →
      Accounted B (extractSegments B id base size accessMode es c).2 := by
  induction es with
  | nil => exact fun h => h
  | cons e rest ih =>
    intro c h
    unfold Container.extractSegments
    split_ifs
    · exact ih (h.applyCow ..)
    · exact ih h
    · exact h

theorem Accounted.completeSegments (id : ObjectId) (origBase origSize : Nat)
    (load isForWriteOp : Bool) (es : List ObjectSegmentDescr) :
    ∀ (lastOffset : Nat) {c : Container μ σ}, Accounted B c →
      Accounted B
        (completeSegments B id origBase origSize load isForWriteOp es lastOffset c).2 := by
  induction es with
  | nil => exact fun _ _ h => h
  | cons it rest ih =>
    intro lastOffset c h
    unfold Container.completeSegments
    split_ifs with hgap
    · have hload := h.loadGap id origBase origSize load isForWriteOp lastOffset
        (it.offset - lastOffset)
      generalize c.loadGap B id origBase origSize load isForWriteOp lastOffset
        (it.offset - lastOffset) = r at hload
      obtain ⟨descr?, c₁⟩ := r
      cases descr? with
      | none => exact hload
      | some descr =>
        have hrest := ih (SizeT.add it.offset it.size) hload
        dsimp only at hrest ⊢
        generalize Container.completeSegments B id origBase origSize load isForWriteOp rest
          (SizeT.add it.offset it.size) c₁ = q at hrest
        obtain ⟨q1, c₂⟩ := q
        cases q1 <;> exact hrest
    · exact ih _ h

/-- **A call of `getBuffers` forgets no chunk.** -/
theorem Accounted.getBuffers (h : Accounted B c) (id : ObjectId) (base size : Nat)
    (accessMode : ObjectAccessMode) (load isForWriteOp : Bool) :
    Accounted B (c.getBuffers B id base size accessMode load isForWriteOp).2 := by
  unfold Container.getBuffers
  dsimp only
  have hfound := Accounted.extractSegments id (alignRange (c.object id).alignement base size).1
    (alignRange (c.object id).alignement base size).2 accessMode
    ((c.segments id).lowerBound (alignRange (c.object id).alignement base size).1) h
  generalize Container.extractSegments B id _ _ accessMode _ c = found at hfound
  have hdone := Accounted.completeSegments id base size load isForWriteOp found.1
    (alignRange (c.object id).alignement base size).1 hfound
  generalize Container.completeSegments B id base size load isForWriteOp found.1 _ found.2 = q
    at hdone
  obtain ⟨q1, c₁⟩ := q
  cases q1 with
  | none => exact hdone
  | some tmp =>
    dsimp only at hdone ⊢
    split_ifs
    · have htail := hdone.loadGap id base size load isForWriteOp tmp.2
        (SizeT.add (alignRange (c.object id).alignement base size).1
          (alignRange (c.object id).alignement base size).2 - tmp.2)
      generalize c₁.loadGap B id base size load isForWriteOp tmp.2 _ = r at htail
      obtain ⟨descr?, c₂⟩ := r
      cases descr? <;> exact htail
    · exact hdone

-- ---------------------------------------------------------------------------
-- Copies
-- ---------------------------------------------------------------------------

/-- The buffer of a segment gets one more owner. -/
theorem Accounted.makeCowOf (h : Accounted B c) (hs : c.HasSegment src key s) (k : Nat) :
    Accounted B (c.makeCowOf B dst k s) :=
  accounted_storeSegment h.memoryOk (h.memoryOk.chunk hs) fun ha => Or.inl (h.buffer ha)

theorem Accounted.rangeCopyOnWriteSegment (h : Accounted B c) (hs : c.HasSegment src key s)
    (offset size : Nat) : Accounted B (c.rangeCopyOnWriteSegment B src dst key s offset size) := by
  unfold Container.rangeCopyOnWriteSegment
  dsimp only
  split_ifs
  · exact (h.getBuffers ..).of_same (sameSegments_setMemory ..) (copySegments_backend ..)
  · exact h.makeCowOf hs _

theorem Accounted.rangeCopyLoop (offset size : Nat) (keys : List Nat) :
    ∀ {c : Container μ σ}, Accounted B c →
      Accounted B (rangeCopyLoop B src dst offset size keys c) := by
  induction keys with
  | nil => exact fun h => h
  | cons key rest ih =>
    intro c h
    unfold Container.rangeCopyLoop
    cases hf : (c.segments src).find? key with
    | none => exact h
    | some orig =>
      dsimp only
      split_ifs
      · exact ih (h.rangeCopyOnWriteSegment (OrderedMap.find?_eq_some.mp hf) offset size)
      · exact h

theorem Accounted.rangeCopyOnWrite (h : Accounted B c) (offset size : Nat) :
    Accounted B (c.rangeCopyOnWrite B src dst offset size) := by
  unfold Container.rangeCopyOnWrite
  split
  · exact h
  · split_ifs
    · exact h.rangeCopyLoop offset size _
    · exact h.rangeCopyLoop offset size _

theorem Accounted.getObject (h : Accounted B c) (id : ObjectId) : Accounted B (c.getObject id) := by
  refine h.of_same (sameSegments_getObject c id) ?_
  unfold Container.getObject
  rfl

/-- **A range copy forgets no chunk.** -/
theorem Accounted.makeObjectRangeCow (h : Accounted B c) (allowExist : Bool) (offset size : Nat) :
    Accounted B (c.makeObjectRangeCow B src dst allowExist offset size).2 := by
  unfold Container.makeObjectRangeCow
  split_ifs
  · exact h
  · exact h
  · exact (h.getObject dst).rangeCopyOnWrite offset size

/-- One segment of an object is destroyed. -/
theorem Accounted.eraseSegment (h : Accounted B c) (hs : c.HasSegment id key s) :
    Accounted B ((c.setSegments id ((c.segments id).erase key)).release B s.memory) := by
  have hsub : ∀ {id' key' t},
      (c.setSegments id ((c.segments id).erase key)).HasSegment id' key' t ↔
        c.HasSegment id' key' t ∧ ¬ (id' = id ∧ key' = key) := by
    intro id' key' t
    unfold HasSegment
    rw [segments_setSegments]
    split_ifs with hid
    · rw [hid, OrderedMap.mem_erase]
      simp
    · simp [hid]
  have hok : MemoryOk B (c.setSegments id ((c.segments id).erase key)) :=
    h.memoryOk.of_segments (fun ht => ⟨_, _, _, (hsub.mp ht).1, rfl⟩) rfl
  refine accounted_release hok (h.memoryOk.chunk hs) fun {a size} ha => ?_
  obtain ⟨id', key', t, ht, hbuf⟩ := h.buffer ha
  by_cases hsame : id' = id ∧ key' = key
  · obtain ⟨rfl, rfl⟩ := hsame
    exact Or.inr (hbuf.symm.trans (by rw [hasSegment_unique ht hs]))
  · exact Or.inl ⟨id', key', t, hsub.mpr ⟨ht, hsame⟩, hbuf⟩

/-- The segments of an object are destroyed one after the other: those that are listed
are gone, and the chunks stay accounted for. -/
theorem Accounted.destroySegments {es : List (Nat × ObjectSegment)} :
    ∀ {c : Container μ σ}, Accounted B c → (es.Pairwise fun a b => a.1 < b.1) →
      (∀ e ∈ es, c.HasSegment id e.1 e.2) →
        Accounted B (destroySegments B id es c) ∧
          ∀ e ∈ ((destroySegments B id es c).segments id).entries,
            e ∈ (c.segments id).entries ∧ e ∉ es := by
  induction es with
  | nil => exact fun h _ _ => ⟨h, fun e he => ⟨he, List.not_mem_nil⟩⟩
  | cons e rest ih =>
    intro c h hsorted hes
    obtain ⟨hlt, hrest⟩ := List.pairwise_cons.mp hsorted
    have hmem : ∀ e', e' ∈ (((c.setSegments id ((c.segments id).erase e.1)).release B
        e.2.memory).segments id).entries ↔ e' ∈ (c.segments id).entries ∧ e'.1 ≠ e.1 := by
      intro e'
      rw [segments_release, segments_setSegments_self]
      exact OrderedMap.mem_erase
    obtain ⟨hdone, hleft⟩ := ih (h.eraseSegment (hes e (List.mem_cons_self ..))) hrest
      fun e' he' => (hmem e').mpr ⟨hes e' (List.mem_cons_of_mem _ he'), (hlt e' he').ne'⟩
    refine ⟨hdone, fun e' he' => ?_⟩
    obtain ⟨hin, hout⟩ := hleft e' he'
    obtain ⟨hold, hne⟩ := (hmem e').mp hin
    refine ⟨hold, fun h' => ?_⟩
    rcases List.mem_cons.mp h' with rfl | h'
    · exact hne rfl
    · exact hout h'

/-- **Deleting an object gives the chunks back that only it has.** -/
theorem Accounted.deleteObject (h : Accounted B c) (hwf : Wf B g c) (id : ObjectId) :
    Accounted B (c.deleteObject B id) := by
  obtain ⟨hdone, hleft⟩ := h.destroySegments (c.segments id).sorted fun e he => he
  refine hdone.of_segments (deleteObject_shrinks hwf).wf.memoryOk (fun {id' key s} hs => ?_) rfl
  refine ⟨id', key, s, ?_, rfl⟩
  by_cases hid : id' = id
  · subst hid
    exact absurd (hleft _ hs).1 (hleft _ hs).2
  · unfold Container.deleteObject HasSegment segments object
    rw [OrderedMap.find?_erase_ne hid]
    exact hs

/-- **A full copy forgets no chunk.** -/
theorem Accounted.makeObjectFullCow (h : Accounted B c) (hwf : Wf B g c) {allowExist r : Bool}
    (hok : c.makeObjectFullCow B src dst allowExist = .ok (r, c')) : Accounted B c' := by
  cases r with
  | false =>
    rw [makeObjectFullCow_false hok]
    exact h
  | true =>
    have hmem := (hwf.makeObjectFullCow hok).memoryOk
    obtain ⟨-, -, -, d, st, -, hempty, hd, -, rfl⟩ := makeObjectFullCow_ok hwf hok
    have hacc : Accounted B d := by
      rw [hd]
      split_ifs
      · exact h.deleteObject hwf dst
      · exact h
    -- the destination had no segment to lose
    refine hacc.of_segments hmem (fun {id' key s} hs => ⟨id', key, s, ?_, rfl⟩) rfl
    have hne : id' ≠ dst := by
      rintro rfl
      unfold HasSegment at hs
      rw [hempty] at hs
      exact List.not_mem_nil hs
    unfold HasSegment segments
    rw [object_setObject_ne hne]
    exact hs

end Container

-- ---------------------------------------------------------------------------
-- The server
-- ---------------------------------------------------------------------------

namespace Server

open Container

variable {μ σ : Type} {B : Backends μ σ} {s s' s₀ : Server μ σ} {g : Nat}

/-- **Every step keeps the chunks accounted for.** -/
theorem accounted_step {e : Event} (h : Accounted B s.container) (hwf : Wf B 1 s.container)
    (hstep : Step B s e s') : Accounted B s'.container := by
  obtain ⟨reply, hok⟩ := hstep
  cases e with
  | eagerWrite w =>
    obtain ⟨c₁, hc₁⟩ : ∃ c₁, c₁ = ((s.container.getObject w.object).getBuffers B w.object
      w.offset w.size .write true true).2 := ⟨_, rfl⟩
    obtain ⟨hgrow, run, hcov, -, hex, heq⟩ := eagerWrite_eq hwf (rangeOk_one ..) hc₁
    rw [show s.exec B (.eagerWrite w) = s.eagerWrite B w from rfl, heq] at hok
    split_ifs at hok with hreach
    obtain ⟨-, rfl⟩ := Prod.mk.inj (Except.ok.inj hok)
    have hget : Accounted B c₁ := hc₁ ▸ (h.getObject w.object).getBuffers ..
    have hstored : Stored c₁.memory
        (storeRun B.memoryBackend w.data w.offset w.size run c₁.memory)
        w.data w.offset w.size run :=
      stored_storeRun (hcov.distinct hex) fun v hv =>
        ⟨(hreach v hv).le, hgrow.memoryOk.chunk (hcov.held v hv)⟩
    exact hget.of_same ((sameSegments_setMemory ..).trans (sameSegments_markDirty ..))
      hstored.backend
  | rdmaWrite w =>
    obtain rfl := (congrArg Prod.snd (Except.ok.inj hok)).symm
    have hget := (h.getObject w.object).getBuffers w.object w.offset w.size .write true true
    rw [container_rdmaWrite]
    exact hget.of_same (sameSegments_markDirty ..) rfl
  | rdmaDone | rdmaFail =>
    obtain ⟨m, hm, hb, -⟩ := (lands_step ⟨reply, hok⟩ trivial).container
    rw [hm]
    exact h.of_same (sameSegments_setMemory ..) hb
  | read id offset size uninitialised =>
    obtain ⟨rfl, -⟩ := read_eq hok
    exact (h.getObject id).getBuffers id offset size .read true false
  | flush id offset size =>
    obtain ⟨-, rfl⟩ := Prod.mk.inj (Except.ok.inj hok)
    obtain ⟨st, hst⟩ := flush_eq (B := B) (s.container.getObject id) id offset size
    refine (h.getObject id).of_same (sameSegments_flush ..) ?_
    rw [hst]
    rfl
  | create id =>
    obtain ⟨-, rfl⟩ := Prod.mk.inj (Except.ok.inj hok)
    obtain ⟨st, hst⟩ := create_eq (B := B) (s.container.getObject id) id
    show Accounted B ((s.container.getObject id).create B id).2
    rw [hst]
    exact (h.getObject id).of_same (.of_segments fun _ => rfl) rfl
  | cow sourceId destId allowExist offset size =>
    obtain ⟨-, status, d, hfull, -, rfl⟩ | ⟨-, status, d, hrange, -, rfl⟩ := cow_ok hok
    · exact h.makeObjectFullCow hwf hfull
    · obtain rfl : _ = d := congrArg Prod.snd hrange
      exact h.makeObjectRangeCow allowExist offset size
  | rangeRegister | rangeUnregister | clientDisconnect =>
    have hsame := onTrackers_step ⟨reply, hok⟩ trivial
    exact h.of_same (.of_segments hsame.segments) (by rw [hsame.memory])

/-- A server that starts with no chunk in use. -/
theorem Initial.accounted {A : Nat} {check : Bool} (h : Initial B A check s)
    (hnone : ∀ a, B.memoryBackend.chunk s.container.memory.backend a = none) :
    Accounted B s.container :=
  ⟨(h.wf (g := 1)).memoryOk, fun {a _} ha => absurd ((hnone a).symm.trans ha) (by simp)⟩

/-- **The chunks of every reachable server are accounted for.** -/
theorem accounted_run {A : Nat} {check : Bool} {guard : Server μ σ → Event → Prop}
    (hinit : Initial B A check s₀)
    (hnone : ∀ a, B.memoryBackend.chunk s₀.container.memory.backend a = none)
    (hrun : Run (Step B) guard s₀ s) : Accounted B s.container := by
  have hinv : Wf B 1 s.container ∧ Accounted B s.container :=
    hrun.invariant (I := fun s => Wf B 1 s.container ∧ Accounted B s.container)
      ⟨hinit.wf, hinit.accounted hnone⟩ fun {s _ e} h _ hstep =>
        ⟨wf_step h.1 (stepOk_one s e) hstep, accounted_step h.2 h.1 hstep⟩
  exact hinv.2

end Server

end IoCatcher
