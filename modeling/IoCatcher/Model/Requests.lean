import IoCatcher.Lib.Run
import IoCatcher.Model.CopyOnWrite
import IoCatcher.Model.Transfer

/-!
# IO Catcher — what a request does to the container

One lemma per kind of request, in terms of `Grows`, `Stored` and the flags, so
that the results about runs never look inside the hooks:

* `eagerWrite_ok`, `rdmaWrite_ok`, `read_ok` — the requests that go through
  `getBuffers`;
* `wf_step` — every step keeps the container well formed;
* `Stored.bytes_segment` — which segments a write changes: its own run, and
  no other segment of any object.
-/

namespace IoCatcher

open Container

variable {μ σ : Type} {B : Backends μ σ} {c c' : Container μ σ} {id : ObjectId} {g : Nat}

/-! ## Looking an object up -/

/-- Creating an empty object is a growth without new segment. -/
theorem grows_getObject {Loaded : Nat → Nat → Prop} (h : Wf B g c) (id id' : ObjectId) :
    Grows B g Loaded c (c.getObject id) id' :=
  .of_same (h.getObject id).memoryOk (h.layout id') rfl (object_getObject c id) (fun _ => rfl) rfl
    rfl fun _ hc => hc

/-- `getBuffers` on an object looked up in the container. -/
theorem getBuffers_getObject (h : Wf B g c) {base size : Nat} {mode : ObjectAccessMode}
    {load isForWriteOp : Bool} (hr : RangeOk g (c.object id).alignement base size)
    {r : Option (List ObjectSegmentDescr) × Container μ σ}
    (hget : (c.getObject id).getBuffers B id base size mode load isForWriteOp = r) :
    Grows B g (GapLoaded B base size load isForWriteOp) c r.2 id ∧
      (r.1 = none → isForWriteOp = false ∧ ¬ Readable B true) ∧
      ∀ l, r.1 = some l → ∃ run, l = run.map (fun w => w.2.getSegmentDescr) ∧
        Covers r.2 id (alignRange (c.object id).alignement base size).1
          (SizeT.add (alignRange (c.object id).alignement base size).1
            (alignRange (c.object id).alignement base size).2) run ∧
        Weaves c id (alignRange (c.object id).alignement base size).1
          (SizeT.add (alignRange (c.object id).alignement base size).1
            (alignRange (c.object id).alignement base size).2) run ∧
        (mode = .write → ∀ w ∈ run, r.2.Exclusive id w.1 w.2.memory.buffer) := by
  have h' := h.getObject id
  have hobj := object_getObject c id id
  obtain ⟨hgrow, -, hnone, hsome⟩ := getBuffers_spec (A := g) h'.memoryOk (h'.layout id)
    (b := (alignRange (c.object id).alignement base size).1)
    (e := SizeT.add (alignRange (c.object id).alignement base size).1
      (alignRange (c.object id).alignement base size).2) (by rw [hobj]) (by rw [hobj]) hr hget.symm
  refine ⟨(grows_getObject h id id).trans hgrow, hnone, fun l hl => ?_⟩
  obtain ⟨run, hlist, hcov, hweave, hex⟩ := hsome l hl
  exact ⟨run, hlist, hcov, hweave.of_segments (segments_getObject c id id), hex⟩

/-! ## Runs of segments -/

/-- The rounded range starts at or before the request. -/
theorem alignRange_fst_le (A base size : Nat) : (alignRange A base size).1 ≤ base := by
  unfold alignRange
  split_ifs
  · exact Nat.sub_le ..
  · exact le_rfl

theorem Container.Covers.distinct {b e : Nat} {run : List (Nat × ObjectSegment)}
    (h : Covers c id b e run) (hex : ∀ w ∈ run, c.Exclusive id w.1 w.2.memory.buffer) :
    run.Pairwise fun w w' => w.2.memory.buffer ≠ w'.2.memory.buffer := by
  obtain ⟨start, last, -, -, htiles⟩ := h.tiles
  refine (List.Pairwise.and_mem.mp htiles.pairwise).imp ?_
  rintro w w' ⟨hw, hw', hlt⟩ heq
  obtain ⟨-, hkey⟩ := hex w hw id w'.1 w'.2 (h.held w' hw') heq.symm
  have hsame := hasSegment_unique (h.held w hw) (hkey ▸ h.held w' hw')
  have hpos := (htiles.mem_bounds hw).2.1
  rw [← hsame] at hlt
  omega

/-- The segments a write changes are those of its run. -/
theorem Stored.bytes_segment {m : Memory μ} {data : Bytes} {offset size : Nat}
    {run : List (Nat × ObjectSegment)} (h : Stored c.memory m data offset size run)
    (hex : ∀ w ∈ run, c.Exclusive id w.1 w.2.memory.buffer)
    (hheld : ∀ w ∈ run, c.HasSegment id w.1 w.2) {id' : ObjectId} {k : Nat} {t : ObjectSegment}
    (ht : c.HasSegment id' k t) :
    (id' = id ∧ (k, t) ∈ run) ∨ m.bytes t.memory.buffer = c.memory.bytes t.memory.buffer := by
  by_cases hrun : ∃ w ∈ run, w.2.memory.buffer = t.memory.buffer
  · obtain ⟨w, hw, hbuf⟩ := hrun
    obtain ⟨rfl, rfl⟩ := hex w hw id' k t ht hbuf.symm
    have := hasSegment_unique (hheld w hw) ht
    exact Or.inl ⟨rfl, by rw [← this]; exact hw⟩
  · exact Or.inr (h.others _ fun w hw heq => hrun ⟨w, hw, heq⟩)

/-! ## The requests that look segments up -/

namespace Server

variable {s s' s₀ : Server μ σ} {reply : Reply}

/-- What an eager write does: its buffers are a run of segments that the object owns
alone, and the copy stops at an assertion or stores into all of them. -/
theorem eagerWrite_eq {w : WriteRequest} (h : Wf B g s.container)
    (hr : RangeOk g (s.container.object w.object).alignement w.offset w.size)
    {c₁ : Container μ σ} (hc₁ : c₁ = ((s.container.getObject w.object).getBuffers B w.object
      w.offset w.size .write true true).2) :
    Grows B g (GapLoaded B w.offset w.size true true) s.container c₁ w.object ∧ ∃ run,
      Covers c₁ w.object (alignRange (s.container.object w.object).alignement w.offset w.size).1
        (SizeT.add (alignRange (s.container.object w.object).alignement w.offset w.size).1
          (alignRange (s.container.object w.object).alignement w.offset w.size).2) run ∧
      Weaves s.container w.object
        (alignRange (s.container.object w.object).alignement w.offset w.size).1
        (SizeT.add (alignRange (s.container.object w.object).alignement w.offset w.size).1
          (alignRange (s.container.object w.object).alignement w.offset w.size).2) run ∧
      (∀ v ∈ run, c₁.Exclusive w.object v.1 v.2.memory.buffer) ∧
      s.eagerWrite B w = if ∀ v ∈ run, w.offset < v.2.stop then
        .ok (.ack 0, { s with
          container := (Container.markDirty
            { c₁ with memory := storeRun B.memoryBackend w.data w.offset w.size run c₁.memory }
            w.object w.offset w.size)
          started := s.started ++ [w]
          acked := s.acked ++ [s.started.length] })
        else .error .assertion := by
  unfold eagerWrite
  obtain ⟨r, hget⟩ : ∃ r, (s.container.getObject w.object).getBuffers B w.object w.offset w.size
    .write true true = r := ⟨_, rfl⟩
  obtain ⟨hgrow, hnone, hsome⟩ := getBuffers_getObject h hr hget
  rw [hget] at hc₁ ⊢
  obtain ⟨r1, c₂⟩ := r
  obtain rfl : c₁ = c₂ := hc₁
  refine ⟨hgrow, ?_⟩
  cases r1 with
  | none => exact absurd (hnone rfl).1 (by decide)
  | some l =>
    obtain ⟨run, rfl, hcov, hweave, hex⟩ := hsome l rfl
    refine ⟨run, hcov, hweave, hex rfl, ?_⟩
    obtain ⟨start, last, hstart, -, htiles⟩ := hcov.tiles
    have hle := alignRange_fst_le (s.container.object w.object).alignement w.offset w.size
    have hcur : min (start - w.offset) w.size = 0 := by omega
    have heq := objEagerExtractFromMessage_eq B.memoryBackend w.data w.offset w.size
      (m := c₁.memory) htiles fun v hv => hgrow.layout.bound (hcov.held v hv)
    rw [hcur] at heq
    dsimp only
    rw [heq]
    by_cases hreach : ∀ v ∈ run, w.offset < v.2.stop
    · rw [if_pos hreach, if_pos hreach]
    · rw [if_neg hreach, if_neg hreach]

/-- What an eager write leaves: the object has grown to hold the range, the
bytes are stored in a run of segments it owns alone, and the flags are set. -/
theorem eagerWrite_ok {w : WriteRequest} (h : Wf B g s.container)
    (hr : RangeOk g (s.container.object w.object).alignement w.offset w.size)
    (hok : s.eagerWrite B w = .ok (reply, s')) :
    ∃ c₁ run m, Grows B g (GapLoaded B w.offset w.size true true) s.container c₁ w.object ∧
      Covers c₁ w.object (alignRange (s.container.object w.object).alignement w.offset w.size).1
        (SizeT.add (alignRange (s.container.object w.object).alignement w.offset w.size).1
          (alignRange (s.container.object w.object).alignement w.offset w.size).2) run ∧
      (∀ v ∈ run, c₁.Exclusive w.object v.1 v.2.memory.buffer) ∧
      Stored c₁.memory m w.data w.offset w.size run ∧ reply = .ack 0 ∧
      s' = { s with
        container := ({ c₁ with memory := m } : Container μ σ).markDirty w.object w.offset w.size
        started := s.started ++ [w]
        acked := s.acked ++ [s.started.length] } := by
  obtain ⟨hgrow, run, hcov, -, hex, heq⟩ := eagerWrite_eq h hr rfl
  rw [heq] at hok
  split_ifs at hok with hreach
  obtain ⟨rfl, rfl⟩ := Prod.mk.inj (Except.ok.inj hok)
  refine ⟨_, run, _, hgrow, hcov, hex, stored_storeRun (hcov.distinct hex) ?_, rfl, rfl⟩
  exact fun v hv => ⟨(hreach v hv).le, hgrow.memoryOk.chunk (hcov.held v hv)⟩

/-- What the start of an RDMA write leaves. -/
theorem rdmaWrite_ok {w : WriteRequest} (h : Wf B g s.container)
    (hr : RangeOk g (s.container.object w.object).alignement w.offset w.size)
    (hok : s.rdmaWrite B w = (reply, s')) :
    ∃ c₁ run groups, Grows B g (GapLoaded B w.offset w.size true true) s.container c₁ w.object ∧
      Covers c₁ w.object (alignRange (s.container.object w.object).alignement w.offset w.size).1
        (SizeT.add (alignRange (s.container.object w.object).alignement w.offset w.size).1
          (alignRange (s.container.object w.object).alignement w.offset w.size).2) run ∧
      Weaves s.container w.object
        (alignRange (s.container.object w.object).alignement w.offset w.size).1
        (SizeT.add (alignRange (s.container.object w.object).alignement w.offset w.size).1
          (alignRange (s.container.object w.object).alignement w.offset w.size).2) run ∧
      (∀ v ∈ run, c₁.Exclusive w.object v.1 v.2.memory.buffer) ∧ reply = .nothing ∧
      groups = rdmaGroups (buildIovec (run.map fun v => v.2.getSegmentDescr) w.offset w.size) ∧
      s' = { s with
        container := c₁.markDirty w.object w.offset w.size
        pending := if groups = [] then s.pending else s.pending ++ [⟨s.started.length, w, groups⟩]
        started := s.started ++ [w] } := by
  unfold rdmaWrite at hok
  obtain ⟨r, hget⟩ : ∃ r, (s.container.getObject w.object).getBuffers B w.object w.offset w.size
    .write true true = r := ⟨_, rfl⟩
  obtain ⟨hgrow, hnone, hsome⟩ := getBuffers_getObject h hr hget
  rw [hget] at hok
  obtain ⟨r1, c₁⟩ := r
  cases r1 with
  | none => exact absurd (hnone rfl).1 (by decide)
  | some l =>
    obtain ⟨run, rfl, hcov, hweave, hex⟩ := hsome l rfl
    obtain ⟨rfl, rfl⟩ := Prod.mk.inj hok
    exact ⟨c₁, run, _, hgrow, hcov, hweave, hex rfl, rfl, rfl, rfl⟩

/-- The start of an RDMA write leaves what `getBuffers` left. -/
theorem container_rdmaWrite (s : Server μ σ) (w : WriteRequest) :
    (s.rdmaWrite B w).2.container = (((s.container.getObject w.object).getBuffers B w.object
      w.offset w.size .write true true).2).markDirty w.object w.offset w.size := by
  unfold rdmaWrite
  cases (s.container.getObject w.object).getBuffers B w.object w.offset w.size .write true
      true with
  | mk r c₁ => cases r <;> rfl

/-- A read leaves what `getBuffers` left, and answers -1 when it failed. -/
theorem read_eq {offset size : Nat} {uninitialised : Nat → LibfabricBuffer}
    (hok : s.read B id offset size uninitialised = .ok (reply, s')) :
    s' = { s with
        container := ((s.container.getObject id).getBuffers B id offset size .read true false).2 } ∧
      (reply = .ack (-1) ↔
        ((s.container.getObject id).getBuffers B id offset size .read true false).1 = none) := by
  unfold read at hok
  cases hget : (s.container.getObject id).getBuffers B id offset size .read true false with
  | mk r c₁ =>
    rw [hget] at hok
    cases r with
    | none =>
      obtain ⟨rfl, rfl⟩ := Prod.mk.inj (Except.ok.inj hok)
      exact ⟨rfl, by simp⟩
    | some l =>
      dsimp only at hok
      split_ifs at hok
      · split at hok
        · exact absurd hok (by simp)
        · obtain ⟨rfl, rfl⟩ := Prod.mk.inj (Except.ok.inj hok)
          exact ⟨rfl, by simp⟩
      · obtain ⟨rfl, rfl⟩ := Prod.mk.inj (Except.ok.inj hok)
        exact ⟨rfl, by simp⟩

/-- What a read leaves, and what it answers. -/
theorem read_ok {offset size : Nat} {uninitialised : Nat → LibfabricBuffer}
    (h : Wf B g s.container) (hr : RangeOk g (s.container.object id).alignement offset size)
    (hok : s.read B id offset size uninitialised = .ok (reply, s')) :
    ∃ c₁, Grows B g (GapLoaded B offset size true false) s.container c₁ id ∧
      s' = { s with container := c₁ } ∧
      (reply = .ack (-1) ∨ ∃ run, Covers c₁ id
        (alignRange (s.container.object id).alignement offset size).1
        (SizeT.add (alignRange (s.container.object id).alignement offset size).1
          (alignRange (s.container.object id).alignement offset size).2) run ∧
        Weaves s.container id (alignRange (s.container.object id).alignement offset size).1
          (SizeT.add (alignRange (s.container.object id).alignement offset size).1
            (alignRange (s.container.object id).alignement offset size).2) run ∧
        ((size ≤ eagerMaxRead ∧ ∃ r, reply = .eager r ∧ objEagerPushToClient c₁.memory uninitialised
            offset size (run.map fun v => v.2.getSegmentDescr) = .ok r) ∨
          (eagerMaxRead < size ∧ reply = .rdma (rdmaPayload c₁.memory
            (buildIovec (run.map fun v => v.2.getSegmentDescr) offset size))))) := by
  unfold read at hok
  obtain ⟨r, hget⟩ : ∃ r, (s.container.getObject id).getBuffers B id offset size .read true false =
    r := ⟨_, rfl⟩
  obtain ⟨hgrow, -, hsome⟩ := getBuffers_getObject h hr hget
  rw [hget] at hok
  obtain ⟨r1, c₁⟩ := r
  cases r1 with
  | none =>
    obtain ⟨rfl, rfl⟩ := Prod.mk.inj (Except.ok.inj hok)
    exact ⟨c₁, hgrow, rfl, Or.inl rfl⟩
  | some l =>
    obtain ⟨run, rfl, hcov, hweave, -⟩ := hsome l rfl
    dsimp only at hok
    split_ifs at hok with heager
    · split at hok
      · exact absurd hok (by simp)
      · rename_i resp hresp
        obtain ⟨rfl, rfl⟩ := Prod.mk.inj (Except.ok.inj hok)
        exact ⟨c₁, hgrow, rfl, Or.inr ⟨run, hcov, hweave, Or.inl ⟨heager, resp, rfl, hresp⟩⟩⟩
    · obtain ⟨rfl, rfl⟩ := Prod.mk.inj (Except.ok.inj hok)
      exact ⟨c₁, hgrow, rfl, Or.inr ⟨run, hcov, hweave, Or.inr ⟨by omega, rfl⟩⟩⟩

/-! ## Every step -/

/-- The ranges an event asks for start and end on the grain once rounded. -/
def StepOk (g : Nat) (s : Server μ σ) : Event → Prop
  | .eagerWrite w => RangeOk g (s.container.object w.object).alignement w.offset w.size
  | .rdmaWrite w => RangeOk g (s.container.object w.object).alignement w.offset w.size
  | .read id offset size _ => RangeOk g (s.container.object id).alignement offset size
  | .cow _ destId _ offset size => InnerOk g (s.container.object destId).alignement offset size
  | _ => True

theorem stepOk_one (s : Server μ σ) (e : Event) : StepOk 1 s e := by
  cases e <;> first | exact rangeOk_one _ _ _ | exact innerOk_one _ _ _ | exact trivial

@[simp] theorem backend_landIov (mb : MemoryBackend μ) (data : Bytes) (iov : List Iovec) (cur : Nat)
    (m : Memory μ) : (landIov mb data iov cur m).backend = m.backend := by
  induction iov generalizing cur m with
  | nil => rfl
  | cons v rest ih => exact ih ..

@[simp] theorem calls_landIov (mb : MemoryBackend μ) (data : Bytes) (iov : List Iovec) (cur : Nat)
    (m : Memory μ) : (landIov mb data iov cur m).calls = m.calls := by
  induction iov generalizing cur m with
  | nil => rfl
  | cons v rest ih => exact ih ..

@[simp] theorem backend_landGroups (mb : MemoryBackend μ) (data : Bytes) (groups : List RdmaGroup)
    (m : Memory μ) : (landGroups mb data groups m).backend = m.backend := by
  induction groups generalizing m with
  | nil => rfl
  | cons x rest ih => exact (ih _).trans (backend_landIov ..)

@[simp] theorem calls_landGroups (mb : MemoryBackend μ) (data : Bytes) (groups : List RdmaGroup)
    (m : Memory μ) : (landGroups mb data groups m).calls = m.calls := by
  induction groups generalizing m with
  | nil => rfl
  | cons x rest ih => exact (ih _).trans (calls_landIov ..)

theorem wf_setMemory (h : Wf B g c) {m : Memory μ} (hb : m.backend = c.memory.backend)
    (hc : m.calls = c.memory.calls) : Wf B g ({ c with memory := m } : Container μ σ) :=
  h.of_objects (fun _ => rfl) hb hc

theorem rdmaDone_memory (s : Server μ σ) (number : Nat) : ∃ m,
    (s.rdmaDone B number).2.container = { s.container with memory := m } ∧
      m.backend = s.container.memory.backend ∧ m.calls = s.container.memory.calls := by
  unfold rdmaDone
  split
  · exact ⟨_, rfl, rfl, rfl⟩
  · exact ⟨_, rfl, backend_landGroups .., calls_landGroups ..⟩

theorem rdmaFail_memory (s : Server μ σ) (number : Nat) (landed : RdmaGroup → Bool) : ∃ m,
    (s.rdmaFail B number landed).2.container = { s.container with memory := m } ∧
      m.backend = s.container.memory.backend ∧ m.calls = s.container.memory.calls := by
  unfold rdmaFail
  split
  · exact ⟨_, rfl, rfl, rfl⟩
  · exact ⟨_, rfl, backend_landGroups .., calls_landGroups ..⟩

theorem pending_rdmaDone (s : Server μ σ) (number : Nat) :
    (∀ p ∈ (s.rdmaDone B number).2.pending, p ∈ s.pending) ∧
      (s.rdmaDone B number).2.started = s.started ∧
      (s.rdmaDone B number).2.consistencyCheck = s.consistencyCheck := by
  unfold rdmaDone
  split
  · exact ⟨fun _ hp => hp, rfl, rfl⟩
  · exact ⟨fun _ hp => List.mem_of_mem_filter hp, rfl, rfl⟩

theorem pending_rdmaFail (s : Server μ σ) (number : Nat) (landed : RdmaGroup → Bool) :
    (∀ p ∈ (s.rdmaFail B number landed).2.pending, p ∈ s.pending) ∧
      (s.rdmaFail B number landed).2.started = s.started ∧
      (s.rdmaFail B number landed).2.consistencyCheck = s.consistencyCheck := by
  unfold rdmaFail
  split
  · exact ⟨fun _ hp => hp, rfl, rfl⟩
  · exact ⟨fun _ hp => List.mem_of_mem_filter hp, rfl, rfl⟩

/-- A fetch is over, well or not. -/
def Lands : Event → Prop
  | .rdmaDone _ => True
  | .rdmaFail .. => True
  | _ => False

/-- `s'` is `s` but for bytes in memory, and for writes that are no longer in flight. -/
structure SameButBytes (s s' : Server μ σ) : Prop where
  container : ∃ m, s'.container = { s.container with memory := m } ∧
    m.backend = s.container.memory.backend ∧ m.calls = s.container.memory.calls
  check     : s'.consistencyCheck = s.consistencyCheck
  pending   : ∀ p ∈ s'.pending, p ∈ s.pending
  started   : s'.started = s.started

/-- Such a step changes nothing else. -/
theorem lands_step {e : Event} (hstep : Step B s e s') (he : Lands e) : SameButBytes s s' := by
  obtain ⟨reply, hok⟩ := hstep
  cases e with
  | rdmaDone number =>
    obtain rfl : s' = (s.rdmaDone B number).2 := (congrArg Prod.snd (Except.ok.inj hok)).symm
    obtain ⟨hpending, hstarted, hcheck⟩ := pending_rdmaDone (B := B) s number
    exact ⟨rdmaDone_memory s number, hcheck, hpending, hstarted⟩
  | rdmaFail number landed =>
    obtain rfl : s' = (s.rdmaFail B number landed).2 := (congrArg Prod.snd (Except.ok.inj hok)).symm
    obtain ⟨hpending, hstarted, hcheck⟩ := pending_rdmaFail (B := B) s number landed
    exact ⟨rdmaFail_memory s number landed, hcheck, hpending, hstarted⟩
  | _ => exact he.elim

theorem create_eq (c : Container μ σ) (id : ObjectId) :
    ∃ st, (c.create B id).2 = { c with storage := st } := by
  unfold Container.create
  split
  · exact ⟨c.storage, rfl⟩
  · exact ⟨_, rfl⟩

theorem segments_setTracker (s : Server μ σ) (id : ObjectId) (t : ConsistencyTracker)
    (id' : ObjectId) : (s.setTracker id t).container.segments id' = s.container.segments id' := by
  unfold setTracker Container.segments
  rw [object_setObject]
  split_ifs with h
  · rw [h]
  · rfl

theorem rangeRegister_eq (s : Server μ σ) (client : Nat) (id : ObjectId) (offset size : Nat)
    (write : Bool) : ∃ t, (s.rangeRegister client id offset size write).2 = s.setTracker id t := by
  unfold rangeRegister
  split_ifs
  · exact ⟨_, rfl⟩
  · exact ⟨(s.container.object id).consistencyTracker, rfl⟩

theorem rangeUnregister_eq (s : Server μ σ) (client : Nat) (id : ObjectId) (rangeId : Int)
    (offset size : Nat) (write : Bool) :
    ∃ t, (s.rangeUnregister client id rangeId offset size write).2 = s.setTracker id t := by
  unfold rangeUnregister
  split_ifs
  · exact ⟨_, rfl⟩
  · exact ⟨(s.container.object id).consistencyTracker, rfl⟩

theorem object_onClientDisconnect (c : Container μ σ) (client : Nat) (id : ObjectId) :
    (c.onClientDisconnect client).object id =
      { c.object id with
        consistencyTracker := (c.object id).consistencyTracker.clientDisconnect client } := by
  unfold onClientDisconnect Container.object
  rw [OrderedMap.find?_mapValues]
  cases c.objects.find? id <;> rfl

theorem alignement_setTracker (s : Server μ σ) (id : ObjectId) (t : ConsistencyTracker)
    (id' : ObjectId) : ((s.setTracker id t).container.object id').alignement =
      (s.container.object id').alignement := by
  unfold setTracker
  rw [object_setObject]
  split_ifs with h
  · rw [h]
  · rfl

/-- A copy that returns is a full one, when the size is 0, or one of the range. -/
theorem cow_ok {sourceId destId : ObjectId} {allowExist : Bool} {offset size : Nat}
    {reply : Reply} (hok : s.cow B sourceId destId allowExist offset size = .ok (reply, s')) :
    (size = 0 ∧ ∃ status d,
      s.container.makeObjectFullCow B sourceId destId allowExist = .ok (status, d) ∧
      reply = .ack (if status then 0 else -1) ∧ s' = { s with container := d }) ∨
    (size ≠ 0 ∧ ∃ status d,
      s.container.makeObjectRangeCow B sourceId destId allowExist offset size = (status, d) ∧
      reply = .ack (if status then 0 else -1) ∧ s' = { s with container := d }) := by
  unfold cow at hok
  split_ifs at hok with hsize
  · split at hok
    · exact absurd hok (by simp)
    · rename_i status d hfull
      obtain ⟨rfl, rfl⟩ := Prod.mk.inj (Except.ok.inj hok)
      exact Or.inl ⟨hsize, status, d, hfull, rfl, rfl⟩
  · obtain ⟨rfl, rfl⟩ := Prod.mk.inj (Except.ok.inj hok)
    exact Or.inr ⟨hsize, _, _, rfl, rfl, rfl⟩

/-- The requests about registrations and the departure of a client. -/
def OnTrackers : Event → Prop
  | .rangeRegister .. => True
  | .rangeUnregister .. => True
  | .clientDisconnect _ => True
  | _ => False

/-- `s'` is `s` but for the registrations. -/
structure SameButTrackers (s s' : Server μ σ) : Prop where
  segments   : ∀ id, s'.container.segments id = s.container.segments id
  alignement : ∀ id, (s'.container.object id).alignement = (s.container.object id).alignement
  default    : s'.container.objectSegmentsAlignement = s.container.objectSegmentsAlignement
  memory     : s'.container.memory = s.container.memory
  storage    : s'.container.storage = s.container.storage
  check      : s'.consistencyCheck = s.consistencyCheck
  pending    : s'.pending = s.pending
  started    : s'.started = s.started

theorem sameButTrackers_setTracker (s : Server μ σ) (id : ObjectId) (t : ConsistencyTracker) :
    SameButTrackers s (s.setTracker id t) :=
  ⟨segments_setTracker s id t, alignement_setTracker s id t, rfl, rfl, rfl, rfl, rfl, rfl⟩

/-- Such a step changes nothing else. -/
theorem onTrackers_step {e : Event} (hstep : Step B s e s') (he : OnTrackers e) :
    SameButTrackers s s' := by
  obtain ⟨reply, hok⟩ := hstep
  cases e with
  | rangeRegister client id offset size write =>
    obtain ⟨t, ht⟩ := rangeRegister_eq s client id offset size write
    rw [show s' = (s.rangeRegister client id offset size write).2 from
      (congrArg Prod.snd (Except.ok.inj hok)).symm, ht]
    exact sameButTrackers_setTracker s id t
  | rangeUnregister client id rangeId offset size write =>
    obtain ⟨t, ht⟩ := rangeUnregister_eq s client id rangeId offset size write
    rw [show s' = (s.rangeUnregister client id rangeId offset size write).2 from
      (congrArg Prod.snd (Except.ok.inj hok)).symm, ht]
    exact sameButTrackers_setTracker s id t
  | clientDisconnect client =>
    obtain ⟨-, rfl⟩ := Prod.mk.inj (Except.ok.inj hok)
    refine ⟨fun id => ?_, fun id => ?_, rfl, rfl, rfl, rfl, rfl, rfl⟩
    · unfold Container.segments
      rw [object_onClientDisconnect]
    · rw [object_onClientDisconnect]
  | _ => exact he.elim

/-- **Every step keeps the container well formed.** -/
theorem wf_step {e : Event} (h : Wf B g s.container) (hr : StepOk g s e) (hstep : Step B s e s') :
    Wf B g s'.container := by
  obtain ⟨reply, hok⟩ := hstep
  cases e with
  | eagerWrite w =>
    obtain ⟨c₁, run, m, hgrow, -, -, hst, -, rfl⟩ := eagerWrite_ok h hr hok
    exact (wf_setMemory (h.grows hgrow) hst.backend hst.calls).markDirty ..
  | rdmaWrite w =>
    obtain ⟨c₁, run, groups, hgrow, -, -, -, -, -, rfl⟩ := rdmaWrite_ok h hr (Except.ok.inj hok)
    exact (h.grows hgrow).markDirty ..
  | rdmaDone | rdmaFail =>
    obtain ⟨m, hm, hb, hc⟩ := (lands_step ⟨reply, hok⟩ trivial).container
    rw [hm]
    exact wf_setMemory h hb hc
  | read id offset size uninitialised =>
    obtain ⟨c₁, hgrow, rfl, -⟩ := read_ok h hr hok
    exact h.grows hgrow
  | flush id offset size =>
    obtain ⟨-, rfl⟩ := Prod.mk.inj (Except.ok.inj hok)
    exact (h.getObject id).flush ..
  | create id =>
    obtain ⟨-, rfl⟩ := Prod.mk.inj (Except.ok.inj hok)
    obtain ⟨st, hst⟩ := create_eq (B := B) (s.container.getObject id) id
    show Wf B g ((s.container.getObject id).create B id).2
    rw [hst]
    exact (h.getObject id).of_objects (fun _ => rfl) rfl rfl
  | cow sourceId destId allowExist offset size =>
    obtain ⟨-, status, d, hfull, -, rfl⟩ | ⟨-, status, d, hrange, -, rfl⟩ := cow_ok hok
    · exact h.makeObjectFullCow hfull
    · obtain rfl : _ = d := congrArg Prod.snd hrange
      exact (h.makeObjectRangeCow hr).1
  | rangeRegister | rangeUnregister | clientDisconnect =>
    have hsame := onTrackers_step ⟨reply, hok⟩ trivial
    exact h.of_objects hsame.segments (by rw [hsame.memory]) (by rw [hsame.memory])

/-- Events that neither change registrations nor replace an object. -/
def Plain : Event → Prop
  | .rangeRegister .. => False
  | .rangeUnregister .. => False
  | .clientDisconnect _ => False
  | .cow _ _ _ _ rangeSize => rangeSize ≠ 0
  | _ => True

theorem sameHeader_setMemory (c : Container μ σ) (m : Memory μ) :
    SameHeader c ({ c with memory := m } : Container μ σ) := sameHeader_of_objects rfl rfl

/-- Such an event leaves alignments and registrations alone. -/
theorem sameHeader_step {e : Event} (h : Wf B g s.container) (hr : StepOk g s e) (hp : Plain e)
    (hstep : Step B s e s') : SameHeader s.container s'.container := by
  obtain ⟨reply, hok⟩ := hstep
  cases e with
  | eagerWrite w =>
    obtain ⟨c₁, run, m, hgrow, -, -, -, -, rfl⟩ := eagerWrite_ok h hr hok
    exact hgrow.header.trans ((sameHeader_setMemory c₁ m).trans (sameHeader_markDirty ..))
  | rdmaWrite w =>
    obtain ⟨c₁, run, groups, hgrow, -, -, -, -, -, rfl⟩ := rdmaWrite_ok h hr (Except.ok.inj hok)
    exact hgrow.header.trans (sameHeader_markDirty ..)
  | rdmaDone | rdmaFail =>
    obtain ⟨m, hm, -, -⟩ := (lands_step ⟨reply, hok⟩ trivial).container
    rw [hm]
    exact sameHeader_setMemory ..
  | read id offset size uninitialised =>
    obtain ⟨c₁, hgrow, rfl, -⟩ := read_ok h hr hok
    exact hgrow.header
  | flush id offset size =>
    obtain ⟨-, rfl⟩ := Prod.mk.inj (Except.ok.inj hok)
    exact (sameHeader_getObject ..).trans (sameHeader_flush ..)
  | create id =>
    obtain ⟨-, rfl⟩ := Prod.mk.inj (Except.ok.inj hok)
    obtain ⟨st, hst⟩ := create_eq (B := B) (s.container.getObject id) id
    show SameHeader s.container ((s.container.getObject id).create B id).2
    rw [hst]
    exact (sameHeader_getObject ..).trans (sameHeader_of_objects rfl rfl)
  | cow sourceId destId allowExist offset size =>
    obtain ⟨hzero, -⟩ | ⟨-, status, d, hrange, -, rfl⟩ := cow_ok hok
    · exact absurd hzero hp
    · obtain rfl : _ = d := congrArg Prod.snd hrange
      exact (h.makeObjectRangeCow hr).2
  | rangeRegister client id offset size write => exact hp.elim
  | rangeUnregister client id rangeId offset size write => exact hp.elim
  | clientDisconnect client => exact hp.elim

/-! ## Starting a server -/

/-- A server that was just started: no object, no call made to the allocator. -/
def Initial (B : Backends μ σ) (A : Nat) (check : Bool) (s : Server μ σ) : Prop :=
  ∃ m st, B.memoryBackend.Valid m.backend ∧ m.calls = [] ∧
    s = Server.new (Container.new A m st) check

theorem Initial.wf {A g : Nat} {check : Bool} (h : Initial B A check s) : Wf B g s.container := by
  obtain ⟨m, st, hm, hcalls, rfl⟩ := h
  have hno : ∀ {id k t}, ¬ (Container.new A m st).HasSegment id k t := fun h =>
    absurd h List.not_mem_nil
  refine ⟨⟨hm, fun hs => absurd hs hno⟩, fun id => layoutOk_empty, fun id => aligned_empty _, ?_⟩
  intro call hcall
  rw [show (Server.new (Container.new A m st) check).container.memory.calls = [] from hcalls]
    at hcall
  exact absurd hcall List.not_mem_nil

theorem wf_run {A : Nat} {check : Bool} {guard : Server μ σ → Event → Prop}
    (hinit : Initial B A check s₀) (hrun : Run (Step B) guard s₀ s) : Wf B 1 s.container :=
  hrun.invariant (I := fun s => Wf B 1 s.container) hinit.wf
    fun {s _ e} h _ hstep => wf_step h (stepOk_one s e) hstep

/-! ## Requests that do not wrap -/

/-- The range an event asks for, rounded out to `A`, ends below `2^64`. -/
def InRange (A : Nat) : Event → Prop
  | .eagerWrite w => alignedEnd A w.offset w.size < 2 ^ 64
  | .rdmaWrite w => alignedEnd A w.offset w.size < 2 ^ 64
  | .read _ offset size _ => alignedEnd A offset size < 2 ^ 64
  | .cow _ _ _ rangeOffset rangeSize => alignedEnd A rangeOffset rangeSize < 2 ^ 64
  | _ => True

instance (A : Nat) : DecidablePred (InRange A)
  | .eagerWrite _ | .rdmaWrite _ | .read .. | .cow .. => inferInstanceAs (Decidable (_ < _))
  | .rdmaDone _ | .rdmaFail .. | .flush .. | .create _ | .rangeRegister .. | .rangeUnregister ..
  | .clientDisconnect _ => isTrue trivial

/-- The container is well formed to its own alignment. -/
structure Sound (B : Backends μ σ) (A : Nat) (s : Server μ σ) : Prop where
  wf    : Wf B (grain A) s.container
  fixed : FixedAlignement A s.container

theorem Initial.sound {A : Nat} {check : Bool} (h : Initial B A check s) : Sound B A s := by
  refine ⟨h.wf, ?_⟩
  obtain ⟨m, st, -, -, rfl⟩ := h
  exact ⟨rfl, fun _ => rfl⟩

theorem Sound.rangeOk {A : Nat} (h : Sound B A s) {id : ObjectId} {offset size : Nat}
    (hr : alignedEnd A offset size < 2 ^ 64) :
    RangeOk (grain A) (s.container.object id).alignement offset size := by
  rw [h.fixed.object]
  exact rangeOk_grain hr

theorem Sound.stepOk {A : Nat} {e : Event} (h : Sound B A s) (hr : InRange A e) :
    StepOk (grain A) s e := by
  cases e with
  | eagerWrite w => exact h.rangeOk hr
  | rdmaWrite w => exact h.rangeOk hr
  | read id offset size uninitialised => exact h.rangeOk hr
  | cow sourceId destId allowExist offset size =>
    show InnerOk (grain A) (s.container.object destId).alignement offset size
    rw [h.fixed.object]
    exact innerOk_grain (Nat.lt_of_le_of_lt (le_alignedEnd A offset size) hr)
  | _ => trivial

theorem Sound.step {A : Nat} {e : Event} (h : Sound B A s) (hr : StepOk (grain A) s e)
    (hstep : Step B s e s') : Sound B A s' := by
  refine ⟨wf_step h.wf hr hstep, ?_⟩
  have hplain : Plain e → FixedAlignement A s'.container := fun hp =>
    h.fixed.of_header (sameHeader_step h.wf hr hp hstep)
  cases e with
  | cow sourceId destId allowExist offset size =>
    obtain ⟨reply, hok⟩ := hstep
    obtain ⟨-, status, d, hfull, -, rfl⟩ | ⟨hsize, -⟩ := cow_ok hok
    · exact h.fixed.makeObjectFullCow h.wf hfull
    · exact hplain hsize
  | rangeRegister | rangeUnregister | clientDisconnect =>
    have hsame := onTrackers_step hstep trivial
    exact ⟨hsame.default.trans h.fixed.default,
      fun id => (hsame.alignement id).trans (h.fixed.object id)⟩
  | _ => exact hplain trivial

theorem sound_step {A : Nat} {e : Event} (h : Sound B A s) (hr : InRange A e)
    (hstep : Step B s e s') : Sound B A s' := h.step (h.stepOk hr) hstep

theorem sound_run {A : Nat} {check : Bool} {guard : Server μ σ → Event → Prop}
    (hguard : ∀ {s e}, guard s e → InRange A e) (hinit : Initial B A check s₀)
    (hrun : Run (Step B) guard s₀ s) : Sound B A s :=
  hrun.invariant hinit.sound fun h hg hstep => sound_step h (hguard hg) hstep

/-- No request leaves the grid of the alignment: its rounded range does not
wrap, or wrapping keeps multiples of the alignment. -/
def OnGrid (A : Nat) (e : Event) : Prop := grain A ∣ 2 ^ 64 ∨ InRange A e

theorem Sound.stepOk_of_onGrid {A : Nat} {e : Event} (h : Sound B A s) (hg : OnGrid A e) :
    StepOk (grain A) s e := by
  rcases hg with hdvd | hr
  · have hrange : ∀ id offset size,
        RangeOk (grain A) (s.container.object id).alignement offset size := by
      intro id offset size
      rw [h.fixed.object]
      exact rangeOk_of_dvd hdvd offset size
    cases e with
    | cow sourceId destId allowExist offset size => exact fun _ _ _ _ _ _ => hrange ..
    | eagerWrite w => exact hrange ..
    | rdmaWrite w => exact hrange ..
    | read id offset size uninitialised => exact hrange ..
    | _ => trivial
  · exact h.stepOk hr

theorem sound_run_of_onGrid {A : Nat} {check : Bool} (hinit : Initial B A check s₀)
    (hrun : Run (Step B) (fun _ e => OnGrid A e) s₀ s) : Sound B A s :=
  hrun.invariant hinit.sound fun h hg hstep => h.step (h.stepOk_of_onGrid hg) hstep

end Server

end IoCatcher
