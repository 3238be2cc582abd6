import IoCatcher.Lib.Run
import IoCatcher.Model.CopyOnWrite

/-!
# IO Catcher — the segment map over whole runs

A container is driven by calls to `getBuffers`, `markDirty`, `flush` and the two
copy-on-write operations, in any order, on any objects, over any backends. As
long as no requested range wraps when rounded out to the alignment, the map of
every object stays ordered by offset, free of overlaps and aligned — also
after a load that failed half way through a request.

* `Operation.step_wf`     — one call keeps the invariant;
* `segmentMap_of_run`     — every reachable segment map is well formed, and
  no call to the allocators has ever broken one of their size assertions.
-/

namespace IoCatcher

/-- A call on a container. -/
inductive Operation where
  | getBuffers (id : ObjectId) (base size : Nat) (accessMode : ObjectAccessMode)
      (load isForWriteOp : Bool)
  | markDirty (id : ObjectId) (base size : Nat)
  | flush (id : ObjectId) (offset size : Nat)
  | makeObjectRangeCow (sourceId destId : ObjectId) (allowExist : Bool) (offset size : Nat)
  | makeObjectFullCow (sourceId destId : ObjectId) (allowExist : Bool)

namespace Operation

variable {μ σ : Type} {B : Backends μ σ} {c c' : Container μ σ}

/-- The container after a call. -/
def exec (B : Backends μ σ) (c : Container μ σ) : Operation → Except Fault (Container μ σ)
  | getBuffers id base size accessMode load isForWriteOp =>
    .ok ((c.getObject id).getBuffers B id base size accessMode load isForWriteOp).2
  | markDirty id base size => .ok ((c.getObject id).markDirty id base size)
  | flush id offset size => .ok ((c.getObject id).flush B id offset size).2
  | makeObjectRangeCow sourceId destId allowExist offset size =>
    .ok (c.makeObjectRangeCow B sourceId destId allowExist offset size).2
  | makeObjectFullCow sourceId destId allowExist =>
    (c.makeObjectFullCow B sourceId destId allowExist).map Prod.snd

/-- One call that returns. -/
def Step (B : Backends μ σ) (c : Container μ σ) (op : Operation) (c' : Container μ σ) : Prop :=
  op.exec B c = .ok c'

/-- The range asked for, rounded out to `A`, ends below `2^64`. The calls that
create no segment may be given any range. -/
def InRange (A : Nat) : Operation → Prop
  | getBuffers _ base size _ _ _ => alignedEnd A base size < 2 ^ 64
  | makeObjectRangeCow _ _ _ offset size => alignedEnd A offset size < 2 ^ 64
  | _ => True

instance (A : Nat) : (op : Operation) → Decidable (op.InRange A)
  | getBuffers _ base size _ _ _ => inferInstanceAs (Decidable (alignedEnd A base size < 2 ^ 64))
  | makeObjectRangeCow _ _ _ offset size =>
    inferInstanceAs (Decidable (alignedEnd A offset size < 2 ^ 64))
  | markDirty .. => inferInstanceAs (Decidable True)
  | flush .. => inferInstanceAs (Decidable True)
  | makeObjectFullCow .. => inferInstanceAs (Decidable True)

/-- What a run keeps: the container is well formed to its own alignment. -/
structure Inv (B : Backends μ σ) (A : Nat) (c : Container μ σ) : Prop where
  wf    : c.Wf B (grain A)
  fixed : c.FixedAlignement A

theorem inv_new {A : Nat} {m : Memory μ} {st : σ} (hm : B.memoryBackend.Valid m.backend)
    (hcalls : m.calls = []) : Inv B A (Container.new A m st) := by
  have hno : ∀ {id k s}, ¬ (Container.new A m st).HasSegment id k s := fun h =>
    absurd h List.not_mem_nil
  refine ⟨⟨⟨hm, fun hs => absurd hs hno⟩, fun id => layoutOk_empty, fun id => aligned_empty _, ?_⟩,
    rfl, fun _ => rfl⟩
  intro call hcall
  rw [show (Container.new A m st).memory.calls = [] from hcalls] at hcall
  exact absurd hcall List.not_mem_nil

theorem Inv.of_header {A : Nat} (h : Inv B A c) (hwf : c'.Wf B (grain A))
    (hh : Container.SameHeader c c') : Inv B A c' := ⟨hwf, h.fixed.of_header hh⟩

/-- One call keeps the invariant. -/
theorem step_wf {A : Nat} {op : Operation} (h : Inv B A c) (hr : op.InRange A)
    (hstep : Step B c op c') : Inv B A c' := by
  have hget : ∀ id, Inv B A (c.getObject id) := fun id =>
    h.of_header (h.wf.getObject id) (Container.sameHeader_getObject c id)
  cases op with
  | getBuffers id base size accessMode load isForWriteOp =>
    obtain rfl := Except.ok.inj hstep
    have hid := hget id
    refine hid.of_header (hid.wf.getBuffers accessMode load isForWriteOp ?_)
      (Container.sameHeader_getBuffers hid.wf.memoryOk (hid.wf.layout id) ..)
    rw [hid.fixed.object]
    exact rangeOk_grain hr
  | markDirty id base size =>
    obtain rfl := Except.ok.inj hstep
    exact (hget id).of_header ((hget id).wf.markDirty ..) (Container.sameHeader_markDirty ..)
  | flush id offset size =>
    obtain rfl := Except.ok.inj hstep
    exact (hget id).of_header ((hget id).wf.flush ..) (Container.sameHeader_flush ..)
  | makeObjectRangeCow sourceId destId allowExist offset size =>
    obtain rfl := Except.ok.inj hstep
    have hend := le_alignedEnd A offset size
    have hinner : Container.InnerOk (grain A) (c.object destId).alignement offset size := by
      rw [h.fixed.object]
      exact Container.innerOk_grain (Nat.lt_of_le_of_lt hend hr)
    obtain ⟨hwf, hh⟩ := h.wf.makeObjectRangeCow hinner
    exact h.of_header hwf hh
  | makeObjectFullCow sourceId destId allowExist =>
    have hmap : (c.makeObjectFullCow B sourceId destId allowExist).map Prod.snd = .ok c' := hstep
    cases hcow : c.makeObjectFullCow B sourceId destId allowExist with
    | error f =>
      rw [hcow] at hmap
      exact absurd hmap (by simp [Except.map])
    | ok r =>
      rw [hcow] at hmap
      obtain ⟨ret, d⟩ := r
      obtain rfl : d = c' := Except.ok.inj hmap
      exact ⟨h.wf.makeObjectFullCow hcow, h.fixed.makeObjectFullCow h.wf hcow⟩

end Operation

/-! ## The invariant of reachable states -/

theorem MemoryCall.Ok.mono {A D : Nat} (hdvd : D ∣ A) : ∀ {call : MemoryCall}, call.Ok A → call.Ok D
  | .allocate _, h => ⟨h.1, Nat.dvd_trans hdvd h.2⟩
  | .deallocate _ _, h => ⟨h.1, h.2.1, Nat.dvd_trans hdvd h.2.2⟩

/-- The shape of a segment map: each segment under its last byte, none empty,
no two sharing a byte and in offset order, and all of them aligned when the
container has an alignment. -/
structure SegmentMapOk (A : Nat) (m : ObjectSegmentMap) : Prop where
  key      : ∀ {k s}, (k, s) ∈ m.entries → k = s.offset + s.getSize - 1
  pos      : ∀ {k s}, (k, s) ∈ m.entries → 0 < s.getSize
  disjoint : ∀ {k s k' s'}, (k, s) ∈ m.entries → (k', s') ∈ m.entries → k < k' →
    s.offset + s.getSize ≤ s'.offset
  aligned  : 0 < A → ∀ {k s}, (k, s) ∈ m.entries → A ∣ s.offset ∧ A ∣ s.getSize

variable {μ σ : Type} {B : Backends μ σ} {c : Container μ σ}

/-- **The segment map invariant.** In every state reached from a new container
of alignment `A`, every object's map is well formed, and if `A` is a multiple
of the page size every size passed to the allocators so far was a positive
multiple of it, given back as it was allocated. -/
theorem segmentMap_of_run {A : Nat} {m : Memory μ} {st : σ}
    (hm : B.memoryBackend.Valid m.backend) (hcalls : m.calls = [])
    (hrun : Run (Operation.Step B) (fun _ op => op.InRange A) (Container.new A m st) c) :
    (∀ id, SegmentMapOk A (c.segments id)) ∧
      (0 < A → 4096 ∣ A → ∀ call ∈ c.memory.calls, call.Ok 4096) := by
  have hinv : Operation.Inv B A c := hrun.invariant (Operation.inv_new hm hcalls)
    fun h hr hstep => Operation.step_wf h hr hstep
  have hgrain : 0 < A → grain A = A := fun hA => if_neg (by omega)
  refine ⟨fun id => ⟨fun hs => ?_, fun hs => (hinv.wf.layout id).pos hs,
    fun hs hs' hlt => (hinv.wf.layout id).disjoint hs hs' hlt, fun hA k s hs => ?_⟩,
    fun hA hpage call hcall => ?_⟩
  · have := (hinv.wf.layout id).key hs
    unfold ObjectSegment.stop at this
    omega
  · have := hinv.wf.aligned id hs
    rwa [hgrain hA] at this
  · have := hinv.wf.calls call hcall
    rw [hgrain hA] at this
    exact this.mono hpage

/-- A run that fills a gap, shares a segment, unshares it and copies an object. -/
def sampleOperations : List Operation :=
  [.getBuffers ⟨1, 1⟩ 100 5000 .write true true, .markDirty ⟨1, 1⟩ 100 5000,
    .makeObjectRangeCow ⟨1, 1⟩ ⟨1, 2⟩ false 0 8192, .getBuffers ⟨1, 2⟩ 4096 10 .write true true,
    .makeObjectFullCow ⟨1, 2⟩ ⟨1, 3⟩ false, .flush ⟨1, 3⟩ 0 0]

theorem segmentMap_of_sampleOperations :
    ∃ c, Run (Operation.Step localBackends) (fun _ op => op.InRange 4096)
        (Container.new 4096 (Memory.fresh 0) fun _ _ => 0) c ∧
      (c.segments ⟨1, 3⟩).entries.length = 1 ∧ (∀ id, SegmentMapOk 4096 (c.segments id)) ∧
      ∀ call ∈ c.memory.calls, call.Ok 4096 := by
  obtain ⟨c, hc⟩ : ∃ c, Run.trace (Operation.exec localBackends) (fun _ op => op.InRange 4096)
      sampleOperations (Container.new 4096 (Memory.fresh 0) fun _ _ => 0) = some c :=
    Option.isSome_iff_exists.mp (by decide)
  have hlen : (Run.trace (Operation.exec localBackends) (fun _ op => op.InRange 4096)
      sampleOperations (Container.new 4096 (Memory.fresh 0) fun _ _ => 0)).map
      (fun c => (c.segments ⟨1, 3⟩).entries.length) = some 1 := by decide
  have hrun := Run.of_trace (.start) hc
  obtain ⟨hmap, hok⟩ := segmentMap_of_run (B := localBackends) (Memory.valid_fresh 0) rfl hrun
  rw [hc] at hlen
  exact ⟨c, hrun, Option.some.inj hlen, hmap, hok (by decide) (Nat.dvd_refl _)⟩

end IoCatcher
