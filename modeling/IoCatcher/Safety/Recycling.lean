import IoCatcher.Model.Lockstep
import IoCatcher.Model.MemoryCache
import IoCatcher.Safety.Origins

/-!
# IO Catcher — recycled memory

`MemoryBackendCache` hands a chunk out again as it was given back. A segment can
be published before its buffer is filled: a write does not load the part of its
rounded range that the storage cannot read, and without storage nothing is ever
loaded. What such a position shows was left by the object that had the buffer
before.

Two runs of the server take the same requests and differ in the bytes written to
one object, the secret. `Pair` holds both, with two history variables: the
objects that were copied from the secret, and the stale positions, published and
not yet filled.

* `noLeak_of_run`     — no byte of another object depends on the secret, in any
  state of any pair of runs in which reads, flushes and copies to the storage keep
  away from stale positions;
* `recycled_leaks`    — the buffer of a replaced object shows through a write of
  another one.
-/

namespace IoCatcher

open Container

variable {μ σ κ : Type} {B : Backends μ σ} {control : σ → κ} {id src dst secret : ObjectId}
  {A offset size x : Nat}

namespace Server

variable {s s' s₀ r r' : Server μ σ}

-- ---------------------------------------------------------------------------
-- Two servers in step
-- ---------------------------------------------------------------------------

/-- Two write requests that differ in their bytes only, and only if they write the
secret. -/
structure SameWrite (secret : ObjectId) (w w' : WriteRequest) : Prop where
  object : w'.object = w.object
  offset : w'.offset = w.offset
  size   : w'.size = w.size
  data   : w.object ≠ secret → w'.data = w.data

theorem SameWrite.refl (secret : ObjectId) (w : WriteRequest) : SameWrite secret w w :=
  ⟨rfl, rfl, rfl, fun _ => rfl⟩

theorem SameWrite.covers {w w' : WriteRequest} (h : SameWrite secret w w') :
    w'.Covers id x ↔ w.Covers id x := by
  unfold WriteRequest.Covers
  rw [h.object, h.offset, h.size]

/-- The same request, up to the bytes written to the secret. What the fragment array of
a read contained is no part of the request. -/
inductive SameRequest (secret : ObjectId) : Event → Event → Prop where
  | eagerWrite {w w' : WriteRequest} (h : SameWrite secret w w') :
      SameRequest secret (.eagerWrite w) (.eagerWrite w')
  | rdmaWrite {w w' : WriteRequest} (h : SameWrite secret w w') :
      SameRequest secret (.rdmaWrite w) (.rdmaWrite w')
  | read (id : ObjectId) (offset size : Nat) (u u' : Nat → LibfabricBuffer) :
      SameRequest secret (.read id offset size u) (.read id offset size u')
  | same (e : Event) : SameRequest secret e e

theorem SameRequest.inRange {e e' : Event} (h : SameRequest secret e e') (hr : InRange A e) :
    InRange A e' := by
  cases h with
  | eagerWrite h | rdmaWrite h => simpa only [InRange, h.offset, h.size] using hr
  | read id offset size u u' => exact hr
  | same e => exact hr

/-- The same operations of the same write. -/
structure SamePending (secret : ObjectId) (p p' : PendingWrite) : Prop where
  number : p'.number = p.number
  groups : p'.groups = p.groups
  write  : SameWrite secret p.write p'.write

/-- Two servers in step: they differ in bytes only. -/
structure InStep (control : σ → κ) (secret : ObjectId) (s r : Server μ σ) : Prop where
  container : Parallel control s.container r.container
  check     : r.consistencyCheck = s.consistencyCheck
  pending   : List.Forall₂ (SamePending secret) s.pending r.pending
  started   : r.started.length = s.started.length

theorem InStep.refl (control : σ → κ) (secret : ObjectId) (s : Server μ σ) :
    InStep control secret s s :=
  ⟨.refl control _, rfl, List.forall₂_same.mpr fun p _ => ⟨rfl, rfl, .refl secret p.write⟩, rfl⟩

/-- They find the same pending write. -/
theorem InStep.findPending (h : InStep control secret s r) (number : Nat) :
    (s.findPending number = none ∧ r.findPending number = none) ∨
      ∃ p p', s.findPending number = some p ∧ r.findPending number = some p' ∧
        SamePending secret p p' := by
  have hpending := h.pending
  unfold Server.findPending
  generalize s.pending = l, r.pending = l' at hpending
  induction hpending with
  | nil => exact Or.inl ⟨rfl, rfl⟩
  | @cons p p' l l' hp _ ih =>
    rw [List.find?_cons, List.find?_cons, hp.number]
    by_cases hn : p.number = number
    · simp only [hn, decide_true]
      exact Or.inr ⟨p, p', rfl, rfl, hp⟩
    · simp only [hn, decide_false]
      exact ih

/-- A write in flight in one is in flight in the other. -/
theorem flight_of_parallel {c c' : Container μ σ} {p p' : PendingWrite}
    {run : List (Nat × ObjectSegment)} (h : Flight c p run) (hpar : Parallel control c c')
    (hp : SamePending secret p p') : Flight c' p' run := by
  obtain ⟨⟨hheld, hex⟩, hgroups, hnw, htiles, htrim⟩ := h
  obtain ⟨-, hg, hw⟩ := hp
  refine ⟨⟨fun w hwm => ?_, fun w hwm id k t ht hbuf => ?_⟩, ?_, ?_, ?_, ?_⟩
  · obtain ⟨t, ht, hsame⟩ := hheld w hwm
    rw [hw.object]
    exact ⟨t, hpar.hasSegment.mpr ht, hsame⟩
  · rw [hw.object]
    exact hex w hwm id k t (hpar.hasSegment.mp ht) hbuf
  · rw [hg, hw.offset, hw.size]
    exact hgroups
  · rw [hw.offset, hw.size]
    exact hnw
  · rw [hw.offset, hw.size]
    exact htiles
  · rw [hw.offset, hw.size]
    exact htrim

section Steps

variable (h : InStep control secret s r) (hB : B.Oblivious control)

include h

theorem InStep.filter (number : Nat) :
    List.Forall₂ (SamePending secret) (s.pending.filter fun q => q.number ≠ number)
      (r.pending.filter fun q => q.number ≠ number) := by
  refine List.rel_filter (fun p p' hp => ?_) h.pending
  simp only [hp.number, decide_eq_true_eq]

theorem InStep.rdmaDone (number : Nat) :
    InStep control secret (s.rdmaDone B number).2 (r.rdmaDone B number).2 := by
  unfold Server.rdmaDone
  rcases h.findPending number with ⟨hn, hn'⟩ | ⟨p, p', hp, hp', -⟩
  · rw [hn, hn']
    exact h
  · rw [hp, hp']
    refine ⟨h.container.withMemory ?_, h.check, h.filter number, h.started⟩
    rw [backend_landGroups, backend_landGroups, h.container.backend]

theorem InStep.rdmaFail (number : Nat) (landed : RdmaGroup → Bool) :
    InStep control secret (s.rdmaFail B number landed).2 (r.rdmaFail B number landed).2 := by
  unfold Server.rdmaFail
  rcases h.findPending number with ⟨hn, hn'⟩ | ⟨p, p', hp, hp', -⟩
  · rw [hn, hn']
    exact h
  · rw [hp, hp']
    refine ⟨h.container.withMemory ?_, h.check, h.filter number, h.started⟩
    rw [backend_landGroups, backend_landGroups, h.container.backend]

theorem InStep.setTracker (id : ObjectId) (t : ConsistencyTracker) :
    InStep control secret (s.setTracker id t) (r.setTracker id t) := by
  refine ⟨?_, h.check, h.pending, h.started⟩
  unfold Server.setTracker
  rw [h.container.object]
  exact h.container.setObject id _

theorem InStep.setContainer {c c' : Container μ σ} (hpar : Parallel control c c') :
    InStep control secret { s with container := c } { r with container := c' } :=
  ⟨hpar, h.check, h.pending, h.started⟩

theorem InStep.rangeRegister (client : Nat) (id : ObjectId) (offset size : Nat) (write : Bool) :
    InStep control secret (s.rangeRegister client id offset size write).2
      (r.rangeRegister client id offset size write).2 := by
  unfold Server.rangeRegister
  rw [h.check, h.container.object]
  split_ifs
  · exact h.setTracker id _
  · exact ⟨h.container.getObject id, rfl, h.pending, h.started⟩

theorem InStep.rangeUnregister (client : Nat) (id : ObjectId) (rangeId : Int) (offset size : Nat)
    (write : Bool) :
    InStep control secret (s.rangeUnregister client id rangeId offset size write).2
      (r.rangeUnregister client id rangeId offset size write).2 := by
  unfold Server.rangeUnregister
  rw [h.check, h.container.object]
  split_ifs
  · exact h.setTracker id _
  · exact ⟨h.container.getObject id, rfl, h.pending, h.started⟩

include hB

theorem InStep.eagerWrite {w w' : WriteRequest} (hw : SameWrite secret w w') (hs : Sound B A s)
    (hr : Sound B A r) (hrange : alignedEnd A w.offset w.size < 2 ^ 64) {reply reply' : Reply}
    (hok : s.eagerWrite B w = .ok (reply, s')) (hok' : r.eagerWrite B w' = .ok (reply', r')) :
    InStep control secret s' r' := by
  obtain ⟨object, offset, size, data⟩ := w'
  obtain ⟨rfl, rfl, rfl, -⟩ := hw
  obtain ⟨run, m, -, -, hst, hcont, hpend, hstart, hcheck⟩ := eagerWrite_stores hs hrange hok rfl
  obtain ⟨run', m', -, -, hst', hcont', hpend', hstart', hcheck'⟩ :=
    eagerWrite_stores (w := ⟨w.object, w.offset, w.size, data⟩) hr hrange hok' rfl
  have hget := ((h.container.getObject w.object).getBuffers hB w.object w.offset w.size .write true
    true).snd
  refine ⟨?_, ?_, ?_, ?_⟩
  · rw [hcont, hcont']
    refine (hget.withMemory ?_).markDirty w.object w.offset w.size
    rw [hst.backend, hst'.backend, hget.backend]
  · rw [hcheck, hcheck', h.check]
  · rw [hpend, hpend']
    exact h.pending
  · rw [hstart, hstart', List.length_append, List.length_append, h.started]
    rfl

theorem InStep.rdmaWrite {w w' : WriteRequest} (hw : SameWrite secret w w') :
    InStep control secret (s.rdmaWrite B w).2 (r.rdmaWrite B w').2 := by
  obtain ⟨object, offset, size, data⟩ := w'
  obtain ⟨rfl, rfl, rfl, hdata⟩ := hw
  have hget := (h.container.getObject w.object).getBuffers hB w.object w.offset w.size .write true
    true
  have hlen : (r.started ++ [(⟨w.object, w.offset, w.size, data⟩ : WriteRequest)]).length =
      (s.started ++ [w]).length := by
    rw [List.length_append, List.length_append, h.started]
    rfl
  unfold Server.rdmaWrite
  generalize (s.container.getObject w.object).getBuffers B w.object w.offset w.size .write true
    true = q at hget ⊢
  generalize (r.container.getObject w.object).getBuffers B w.object w.offset w.size .write true
    true = q' at hget ⊢
  cases hget with
  | mk segments hpar =>
    have hdirty := hpar.markDirty w.object w.offset w.size
    cases segments with
    | none => exact ⟨hdirty, h.check, h.pending, hlen⟩
    | some l =>
      refine ⟨hdirty, h.check, ?_, hlen⟩
      dsimp only
      split_ifs
      · exact h.pending
      · have hnew : SamePending secret
            ⟨s.started.length, w, rdmaGroups (buildIovec l w.offset w.size)⟩
            ⟨r.started.length, ⟨w.object, w.offset, w.size, data⟩,
              rdmaGroups (buildIovec l w.offset w.size)⟩ :=
          ⟨h.started, rfl, rfl, rfl, rfl, hdata⟩
        exact List.rel_append h.pending (.cons hnew .nil)

theorem InStep.cow {allowExist : Bool} {reply reply' : Reply}
    (hok : s.cow B src dst allowExist offset size = .ok (reply, s'))
    (hok' : r.cow B src dst allowExist offset size = .ok (reply', r')) :
    InStep control secret s' r' := by
  obtain ⟨hsize, _, d, hcow, -, rfl⟩ | ⟨hsize, _, d, hcow, -, rfl⟩ := cow_ok hok <;>
    obtain ⟨hsize', _, d', hcow', -, rfl⟩ | ⟨hsize', _, d', hcow', -, rfl⟩ := cow_ok hok'
  · exact h.setContainer (h.container.makeObjectFullCow hB hcow hcow').2
  · exact absurd hsize hsize'
  · exact absurd hsize' hsize
  · have hagrees := h.container.makeObjectRangeCow hB src dst allowExist offset size
    rw [hcow, hcow'] at hagrees
    exact h.setContainer hagrees.snd

theorem InStep.read {u u' : Nat → LibfabricBuffer} {reply reply' : Reply}
    (hok : s.read B id offset size u = .ok (reply, s'))
    (hok' : r.read B id offset size u' = .ok (reply', r')) : InStep control secret s' r' := by
  obtain ⟨rfl, -⟩ := read_eq hok
  obtain ⟨rfl, -⟩ := read_eq hok'
  exact h.setContainer ((h.container.getObject id).getBuffers hB id offset size .read true
    false).snd

/-- **The same request keeps two servers in step.** -/
theorem inStep_of_step {e e' : Event} (hreq : SameRequest secret e e') (hs : Sound B A s)
    (hr : Sound B A r) (hrange : InRange A e) (hstep : Step B s e s') (hstep' : Step B r e' r') :
    InStep control secret s' r' := by
  obtain ⟨reply, hok⟩ := hstep
  obtain ⟨reply', hok'⟩ := hstep'
  cases hreq with
  | eagerWrite hw => exact h.eagerWrite hB hw hs hr hrange hok hok'
  | rdmaWrite hw =>
    obtain rfl := (congrArg Prod.snd (Except.ok.inj hok)).symm
    obtain rfl := (congrArg Prod.snd (Except.ok.inj hok')).symm
    exact h.rdmaWrite hB hw
  | read id offset size u u' => exact h.read hB hok hok'
  | same =>
    cases e with
    | eagerWrite w => exact h.eagerWrite hB (.refl secret w) hs hr hrange hok hok'
    | read id offset size u => exact h.read hB hok hok'
    | cow src dst allowExist offset size => exact h.cow hB hok hok'
    | _ =>
      obtain rfl := (congrArg Prod.snd (Except.ok.inj hok)).symm
      obtain rfl := (congrArg Prod.snd (Except.ok.inj hok')).symm
      first
      | exact h.rdmaWrite hB (.refl secret _)
      | exact h.rdmaDone _
      | exact h.rdmaFail _ _
      | exact h.setContainer ((h.container.getObject _).flush hB _ _ _).snd
      | exact h.setContainer ((h.container.getObject _).create hB _).snd
      | exact h.rangeRegister _ _ _ _ _
      | exact h.rangeUnregister _ _ _ _ _ _
      | exact h.setContainer (h.container.onClientDisconnect _)

end Steps

-- ---------------------------------------------------------------------------
-- Pairs of runs
-- ---------------------------------------------------------------------------

/-- Two servers in step, with the objects that descend from the secret by copies, and
the positions that show what their buffers held before. -/
structure Pair (μ σ : Type) where
  left   : Server μ σ
  right  : Server μ σ
  family : ObjectId → Prop
  stale  : ObjectId → Nat → Prop

/-- Two copies of a server before its first request. -/
def Pair.new (secret : ObjectId) (s₀ : Server μ σ) : Pair μ σ :=
  ⟨s₀, s₀, fun id => id = secret, fun _ _ => False⟩

/-- The destination of a copy from the family joins it. -/
def familyAfter (s : Server μ σ) (family : ObjectId → Prop) (e : Event) (id : ObjectId) : Prop :=
  match e with
  | .cow src dst allowExist _ _ =>
    family id ∨ (id = dst ∧ family src ∧ Carried s.container src dst allowExist)
  | _ => family id

/-- The copy gives position `x` of the destination what the source shows there. -/
def Copied (B : Backends μ σ) (c : Container μ σ) (src dst : ObjectId) (allowExist : Bool)
    (offset size x : Nat) : Prop :=
  if size = 0 then Carried c src dst allowExist
  else CopiedIn B (rangeCowTurns B c src dst allowExist offset size) dst offset size x

/-- The stale positions after a step. A write publishes its unfilled gaps and fills what
it covers; without storage every other new position is stale; a copy takes along what
it copies. -/
def staleAfter (B : Backends μ σ) (s s' : Server μ σ) (stale : ObjectId → Nat → Prop) (e : Event)
    (id : ObjectId) (x : Nat) : Prop :=
  match e with
  | .eagerWrite w => (stale id x ∨ InGap B s.container w id x) ∧ ¬ w.Covers id x
  | .rdmaWrite w => stale id x ∨ InGap B s.container w id x
  | .rdmaDone number =>
    stale id x ∧ ∀ p, s.findPending number = some p → ¬ p.write.Covers id x
  | .read .. => stale id x ∨ Bare B s.container s'.container id x
  | .cow src dst allowExist offset size =>
    (id = dst ∧ Copied B s.container src dst allowExist offset size x ∧ stale src x) ∨
      (¬ (id = dst ∧ Copied B s.container src dst allowExist offset size x) ∧
        (stale id x ∨ Bare B s.container s'.container id x))
  | _ => stale id x

/-- Both servers take the same request, and the history is recorded. -/
def Pair.Step (B : Backends μ σ) (secret : ObjectId) (t : Pair μ σ) (e : Event × Event)
    (t' : Pair μ σ) : Prop :=
  SameRequest secret e.1 e.2 ∧ t.left.Step B e.1 t'.left ∧ t.right.Step B e.2 t'.right ∧
    t'.family = familyAfter t.left t.family e.1 ∧
    t'.stale = staleAfter B t.left t'.left t.stale e.1

/-- No stale position is answered, or written to the storage, for an object outside of
the family; and the requests are those the code handles. -/
def Contained (B : Backends μ σ) (A : Nat) (t : Pair μ σ) (e : Event × Event) : Prop :=
  SnapshotScope A t.left e.1 ∧
    match e.1 with
    | .read id offset size _ => ¬ t.family id → 0 < size ∧ Answerable A t.left id offset size ∧
        ∀ x, offset ≤ x → x < offset + size → ¬ t.stale id x ∧
          (B.storageBackend = none → t.left.container.cached id x ≠ none)
    | .flush id offset size => ¬ t.family id → B.storageBackend ≠ none →
        ∀ k u, t.left.container.HasSegment id k u → flushed offset size u = true →
          ∀ x, u.Holds x → ¬ t.stale id x
    | .cow src dst allowExist offset size => Carried t.left.container src dst allowExist →
        if size = 0 then
          ¬ t.family src → ¬ t.family dst → B.storageBackend ≠ none →
            ∀ k u, t.left.container.HasSegment src k u → u.dirty = false →
              ∀ x, u.Holds x → ¬ t.stale src x
        else PartsFit A t.left.container src dst offset size
    | _ => True

/-- An observer who leaves the family and the stale positions alone sees no difference
between the two servers. -/
structure Blind (B : Backends μ σ) (t : Pair μ σ) : Prop where
  cached : ∀ id x, ¬ t.family id → ¬ t.stale id x →
    t.right.container.cached id x = t.left.container.cached id x
  disk   : ∀ id, ¬ t.family id → t.right.container.disk B id = t.left.container.disk B id

/-- What a pair of runs keeps. -/
structure LeakInv (B : Backends μ σ) (control : σ → κ) (A : Nat) (secret : ObjectId)
    (t : Pair μ σ) : Prop where
  left   : InFlight B A (fun _ => True) t.left
  right  : Sound B A t.right
  inStep : InStep control secret t.left t.right
  secret : t.family secret
  blind  : Blind B t

theorem Initial.leakInv {check : Bool} (h : Initial B A check s₀) (control : σ → κ)
    (secret : ObjectId) : LeakInv B control A secret (.new secret s₀) :=
  ⟨h.inFlight, h.sound, .refl control secret s₀, rfl, ⟨fun _ _ _ _ => rfl, fun _ _ => rfl⟩⟩

/-- Parallel containers that explain a position by the same bytes show the same
byte. -/
theorem cached_eq_of_explained {c c' d d' : Container μ σ} (hpar : Parallel control d d')
    (h : Explained B c d id x) (h' : Explained B c' d' id x)
    (hcached : c'.cached id x = c.cached id x) (hdisk : c'.disk B id = c.disk B id) :
    d'.cached id x = d.cached id x := by
  unfold Explained at h'
  rw [hcached, hdisk] at h'
  cases hd : d.cached id x with
  | none => exact hpar.cached_eq_none.mpr hd
  | some v =>
    obtain ⟨v', hv'⟩ := Option.ne_none_iff_exists'.mp fun hno =>
      absurd (hd.symm.trans (hpar.cached_eq_none.mp hno)) (by simp)
    rw [hv']
    rcases h with hsame | ⟨hnone, hload⟩ <;> rcases h' with hsame' | ⟨hnone', hload'⟩
    · rw [← hd, hsame, ← hsame', hv']
    · exact absurd (hd.symm.trans (hsame.trans hnone')) (by simp)
    · exact absurd (hv'.symm.trans (hsame'.trans hnone)) (by simp)
    · rw [hload v hd, hload' v' hv']

/-- A segment that shows the same byte holds the same byte. -/
theorem bytes_eq_of_cached {c c' : Container μ σ} {k : Nat} {u : ObjectSegment}
    (hpar : Parallel control c c') (hlay : LayoutOk (c.segments id)) (hu : c.HasSegment id k u)
    (hx : u.Holds x) (hcached : c'.cached id x = c.cached id x) :
    c'.memory.bytes u.memory.buffer (x - u.offset) =
      c.memory.bytes u.memory.buffer (x - u.offset) := by
  have hlay' : LayoutOk (c'.segments id) := hpar.segments id ▸ hlay
  rw [cached_of_segment hlay hu hx, cached_of_segment hlay' (hpar.hasSegment.mpr hu) hx] at hcached
  exact Option.some.inj hcached

/-- Parallel containers make the same turns of a range copy. -/
theorem copiedIn_copyTurns_iff (hB : B.Oblivious control) (src dst : ObjectId)
    (offset size : Nat) (keys : List Nat) (x : Nat) : ∀ {c c' : Container μ σ},
      Parallel control c c' →
      (CopiedIn B (copyTurns B src dst offset size keys c') dst offset size x ↔
        CopiedIn B (copyTurns B src dst offset size keys c) dst offset size x) := by
  induction keys with
  | nil => exact fun _ => Iff.rfl
  | cons key rest ih =>
    intro c c' h
    have hmade : ∀ {orig : ObjectSegment},
        Made B c' dst key orig offset size ↔ Made B c dst key orig offset size := by
      intro orig
      rw [made_iff, made_iff, ByHand, h.segments, (h.getBuffers hB dst _ _ .write true false).fst]
      rfl
    unfold copyTurns
    rw [h.segments]
    cases (c.segments src).find? key with
    | none => exact Iff.rfl
    | some orig =>
      dsimp only
      split_ifs
      · have hrest := ih (h.rangeCopyOnWriteSegment hB src dst key orig offset size)
        unfold CopiedIn at hrest ⊢
        simp only [List.mem_cons, exists_eq_or_imp]
        exact or_congr (and_congr_left fun _ => hmade) hrest
      · exact Iff.rfl

theorem copiedIn_rangeCow_iff {c c' : Container μ σ} (h : Parallel control c c')
    (hB : B.Oblivious control) (hw : Wf B (grain A) c) (hw' : Wf B (grain A) c')
    (hnw : offset + size < 2 ^ 64) {allowExist : Bool} (hdone : Carried c src dst allowExist) :
    CopiedIn B (rangeCowTurns B c' src dst allowExist offset size) dst offset size x ↔
      CopiedIn B (rangeCowTurns B c src dst allowExist offset size) dst offset size x := by
  have hdone' : Carried c' src dst allowExist := by
    unfold Carried
    rwa [h.hasObject, h.hasObject]
  rw [rangeCowTurns_eq hw hnw hdone, rangeCowTurns_eq hw' hnw hdone', (h.getObject dst).segments]
  exact copiedIn_copyTurns_iff hB src dst offset size _ x (h.getObject dst)

theorem partsFit_of_parallel {c c' : Container μ σ} (h : Parallel control c c')
    (hfit : PartsFit A c src dst offset size) : PartsFit A c' src dst offset size := by
  intro k t ht h1 h2 hhand
  have hhand' : ByHand c dst t offset size := by
    unfold ByHand at hhand ⊢
    rwa [h.segments] at hhand
  have hf := hfit k t (h.hasSegment.mp ht) h1 h2 hhand'
  unfold Fits at hf ⊢
  simpa only [h.hasSegment] using hf

/-- Landing the same bytes keeps the bytes that agree. -/
theorem landGroups_congr {mb : MemoryBackend μ} {data : Bytes} {groups : List RdmaGroup} {a : Addr}
    {i : Nat} : ∀ {m m' : Memory μ}, m'.bytes a i = m.bytes a i →
      (landGroups mb data groups m').bytes a i = (landGroups mb data groups m).bytes a i := by
  have hiov : ∀ (iov : List Iovec) (cur : Nat) {m m' : Memory μ}, m'.bytes a i = m.bytes a i →
      (landIov mb data iov cur m').bytes a i = (landIov mb data iov cur m).bytes a i := by
    intro iov
    induction iov with
    | nil => exact fun _ _ _ hm => hm
    | cons v rest ih =>
      intro cur m m' hm
      refine ih _ ?_
      unfold Memory.write
      dsimp only
      rw [hm]
  induction groups with
  | nil => exact fun hm => hm
  | cons g rest ih => exact fun hm => ih (hiov g.iov g.addr hm)

-- ---------------------------------------------------------------------------
-- One step
-- ---------------------------------------------------------------------------

section Blind

variable {t t' : Pair μ σ} {reply reply' : Reply} (h : LeakInv B control A secret t)
  (hin : InStep control secret t'.left t'.right)

include h

/-- A step that neither shows nor stores anything new. -/
theorem blind_of_quiet (hF : ∀ id, t.family id → t'.family id)
    (hS : ∀ id x, t.stale id x → t'.stale id x)
    (hleft : ∀ id x, t'.left.container.cached id x = t.left.container.cached id x)
    (hright : ∀ id x, t'.right.container.cached id x = t.right.container.cached id x)
    (hdisk : t'.left.container.disk B = t.left.container.disk B)
    (hdisk' : t'.right.container.disk B = t.right.container.disk B) : Blind B t' := by
  refine ⟨fun id x hid hx => ?_, fun id hid => ?_⟩
  · rw [hleft, hright]
    exact h.blind.cached id x (mt (hF id) hid) (mt (hS id x) hx)
  · rw [hdisk, hdisk']
    exact h.blind.disk id (mt (hF id) hid)

/-- The same gaps stay unfilled. -/
theorem inGap_iff (hB : B.Oblivious control) {w w' : WriteRequest} (hw : SameWrite secret w w') :
    InGap B t.right.container w' id x ↔ InGap B t.left.container w id x := by
  unfold InGap
  rw [hw.object, hw.offset, hw.size, (h.inStep.container.getObject id).unfilledByWrite hB]

include hin

theorem blind_eagerWrite (hB : B.Oblivious control) {w w' : WriteRequest}
    (hw : SameWrite secret w w') (hr : alignedEnd A w.offset w.size < 2 ^ 64)
    (hok : t.left.eagerWrite B w = .ok (reply, t'.left))
    (hok' : t.right.eagerWrite B w' = .ok (reply', t'.right)) (hF : t'.family = t.family)
    (hS : t'.stale = staleAfter B t.left t'.left t.stale (.eagerWrite w)) : Blind B t' := by
  have hr' : alignedEnd A w'.offset w'.size < 2 ^ 64 := by rwa [hw.offset, hw.size]
  obtain ⟨run, m, hgrow, -, -, hcont, -⟩ := eagerWrite_stores h.left.sound hr hok rfl
  obtain ⟨run', m', hgrow', -, -, hcont', -⟩ := eagerWrite_stores h.right hr' hok' rfl
  refine ⟨fun id x hid hx => ?_, fun id hid => ?_⟩
  · rw [hF] at hid
    rw [hS] at hx
    by_cases hcov : w.Covers id x
    · -- the data of the write, which is not one of the secret
      have hobj : w.object ≠ secret := fun hsec => hid (hcov.1 ▸ hsec ▸ h.secret)
      rw [(eagerWrite_cached h.left.sound hr hok id x).1 hcov,
        (eagerWrite_cached h.right hr' hok' id x).1 (hw.covers.mpr hcov), hw.data hobj, hw.offset]
    · have hx' : ¬ (t.stale id x ∨ InGap B t.left.container w id x) := fun hno => hx ⟨hno, hcov⟩
      rw [not_or] at hx'
      exact cached_eq_of_explained hin.container
        (eagerWrite_explained h.left.sound hr hok hcov hx'.2)
        (eagerWrite_explained h.right hr' hok' (hw.covers.not.mpr hcov)
          ((inGap_iff h hB hw).not.mpr hx'.2))
        (h.blind.cached id x hid hx'.1) (h.blind.disk id hid)
  · rw [hF] at hid
    rw [hcont, hcont', disk_markDirty, disk_markDirty]
    show (Container.disk B _) id = (Container.disk B _) id
    exact (congrFun hgrow'.disk id).trans
      ((h.blind.disk id hid).trans (congrFun hgrow.disk id).symm)

theorem blind_rdmaWrite (hB : B.Oblivious control) {w w' : WriteRequest}
    (hw : SameWrite secret w w') (hr : alignedEnd A w.offset w.size < 2 ^ 64)
    (hleft : t'.left = (t.left.rdmaWrite B w).2) (hright : t'.right = (t.right.rdmaWrite B w').2)
    (hF : t'.family = t.family)
    (hS : t'.stale = staleAfter B t.left t'.left t.stale (.rdmaWrite w)) : Blind B t' := by
  have hr' : alignedEnd A w'.offset w'.size < 2 ^ 64 := by rwa [hw.offset, hw.size]
  obtain ⟨hgrow, -, -⟩ := getBuffers_getObject h.left.sound.wf (h.left.sound.rangeOk hr) rfl
  obtain ⟨hgrow', -, -⟩ := getBuffers_getObject h.right.wf (h.right.rangeOk hr') rfl
  refine ⟨fun id x hid hx => ?_, fun id hid => ?_⟩
  · rw [hF] at hid
    rw [hS] at hx
    have hx' : ¬ (t.stale id x ∨ InGap B t.left.container w id x) := hx
    rw [not_or] at hx'
    refine cached_eq_of_explained hin.container ?_ ?_ (h.blind.cached id x hid hx'.1)
      (h.blind.disk id hid)
    · rw [hleft]
      exact rdmaWrite_explained h.left.sound hr hx'.2
    · rw [hright]
      exact rdmaWrite_explained h.right hr' ((inGap_iff h hB hw).not.mpr hx'.2)
  · rw [hF] at hid
    rw [hleft, hright, container_rdmaWrite, container_rdmaWrite, disk_markDirty, disk_markDirty]
    exact (congrFun hgrow'.disk id).trans
      ((h.blind.disk id hid).trans (congrFun hgrow.disk id).symm)

omit hin

theorem blind_rdmaDone {number : Nat} (hleft : t'.left = (t.left.rdmaDone B number).2)
    (hright : t'.right = (t.right.rdmaDone B number).2) (hF : t'.family = t.family)
    (hS : t'.stale = staleAfter B t.left t'.left t.stale (.rdmaDone number)) : Blind B t' := by
  obtain ⟨m, hm, -, -⟩ := rdmaDone_memory (B := B) t.left number
  obtain ⟨m', hm', -, -⟩ := rdmaDone_memory (B := B) t.right number
  refine ⟨fun id x hid hx => ?_, fun id hid => ?_⟩
  · rw [hF] at hid
    rw [hS] at hx
    rcases h.inStep.findPending number with ⟨hn, hn'⟩ | ⟨p, p', hp, hp', hsame⟩
    · have hx' : ¬ t.stale id x := fun hno =>
        hx ⟨hno, fun q hq => absurd (hn.symm.trans hq) (by simp)⟩
      rw [hleft, hright, rdmaDone, rdmaDone, hn, hn']
      exact h.blind.cached id x hid hx'
    · obtain ⟨run, hf, -⟩ := h.left.aloft p (findPending_spec hp).1
      have hf' := flight_of_parallel hf h.inStep.container hsame
      have hdone := landed_cached (h.left.sound.wf.layout p.write.object) hf
        (hf.stored h.left.sound.wf.memoryOk) id x
      have hdone' := landed_cached (h.right.wf.layout p'.write.object) hf'
        (hf'.stored h.right.wf.memoryOk) id x
      rw [hleft, hright, container_rdmaDone hp, container_rdmaDone hp']
      by_cases hcov : p.write.Covers id x
      · have hobj : p.write.object ≠ secret := fun hsec => hid (hcov.1 ▸ hsec ▸ h.secret)
        rw [hdone.1 hcov, hdone'.1 (hsame.write.covers.mpr hcov), hsame.write.data hobj,
          hsame.write.offset]
      · have hx' : ¬ t.stale id x := fun hno => hx ⟨hno, fun q hq => by
          rwa [← Option.some.inj (hp.symm.trans hq)]⟩
        rw [hdone.2 hcov, hdone'.2 (hsame.write.covers.not.mpr hcov)]
        exact h.blind.cached id x hid hx'
  · rw [hF] at hid
    rw [hleft, hright, hm, hm']
    exact h.blind.disk id hid

theorem blind_rdmaFail {number : Nat} {landed : RdmaGroup → Bool}
    (hleft : t'.left = (t.left.rdmaFail B number landed).2)
    (hright : t'.right = (t.right.rdmaFail B number landed).2) (hF : t'.family = t.family)
    (hS : t'.stale = t.stale) : Blind B t' := by
  obtain ⟨m, hm, -, -⟩ := rdmaFail_memory (B := B) t.left number landed
  obtain ⟨m', hm', -, -⟩ := rdmaFail_memory (B := B) t.right number landed
  refine ⟨fun id x hid hx => ?_, fun id hid => ?_⟩
  · rw [hF] at hid
    rw [hS] at hx
    have hold := h.blind.cached id x hid hx
    rcases h.inStep.findPending number with ⟨hn, hn'⟩ | ⟨p, p', hp, hp', hsame⟩
    · rw [hleft, hright, rdmaFail, rdmaFail, hn, hn']
      exact hold
    · rw [hleft, hright, container_rdmaFail hp, container_rdmaFail hp']
      by_cases hobj : p.write.object = secret
      · -- a part of a write of the secret: nothing outside of it changes
        have hne : id ≠ p.write.object := fun hno => hid (hno ▸ hobj ▸ h.secret)
        obtain ⟨run, hf, -⟩ := h.left.aloft p (findPending_spec hp).1
        have hf' := flight_of_parallel hf h.inStep.container hsame
        obtain ⟨sub, hsub, hst⟩ := hf.stored_part h.left.sound.wf.memoryOk landed
        obtain ⟨sub', hsub', hst'⟩ := hf'.stored_part h.right.wf.memoryOk landed
        rw [(hf.toOwned.sublist hsub).cached_outside hst fun hno => hne hno.1,
          (hf'.toOwned.sublist hsub').cached_outside hst' fun hno =>
            hne (hno.1.trans hsame.write.object), hold]
      · -- the same part of the same bytes
        rw [hsame.write.data hobj, hsame.groups]
        have hlay := h.left.sound.wf.layout id
        refine cached_congr_at (h.inStep.container.segments id) fun {k u} hu hux => ?_
        exact landGroups_congr (bytes_eq_of_cached h.inStep.container hlay hu hux hold)
  · rw [hF] at hid
    rw [hleft, hright, hm, hm']
    exact h.blind.disk id hid

theorem blind_flush (hB : B.Oblivious control)
    (hleft : t'.left = (t.left.flush B id offset size).2)
    (hright : t'.right = (t.right.flush B id offset size).2)
    (hscope : ¬ t.family id → B.storageBackend ≠ none → ∀ k u,
      t.left.container.HasSegment id k u → flushed offset size u = true →
        ∀ x, u.Holds x → ¬ t.stale id x)
    (hF : t'.family = t.family) (hS : t'.stale = t.stale) : Blind B t' := by
  have hcont : t'.left.container = ((t.left.container.getObject id).flush B id offset size).2 := by
    rw [hleft]
    rfl
  have hcont' : t'.right.container =
      ((t.right.container.getObject id).flush B id offset size).2 := by
    rw [hright]
    rfl
  have hpar := h.inStep.container.getObject id
  refine ⟨fun id' x hid hx => ?_, fun id' hid => ?_⟩
  · rw [hF] at hid
    rw [hS] at hx
    rw [hcont, hcont', cached_flush, cached_flush, cached_getObject, cached_getObject]
    exact h.blind.cached id' x hid hx
  · rw [hF] at hid
    have hold := h.blind.disk id' hid
    rw [hcont, hcont']
    by_cases hobj : id' = id
    · subst hobj
      cases hsb : B.storageBackend with
      | none =>
        unfold Container.disk
        rw [hsb]
      | some sb =>
        refine disk_flush_eq hpar hB hold fun k u hu hfl i hi => ?_
        have hu' : t.left.container.HasSegment id' k u := by
          unfold HasSegment at hu ⊢
          rwa [segments_getObject] at hu
        have hux : u.Holds (u.offset + i) := ⟨by omega, by unfold ObjectSegment.stop; omega⟩
        have hbyte := bytes_eq_of_cached h.inStep.container (h.left.sound.wf.layout id') hu' hux
          (h.blind.cached id' _ hid (hscope hid (by simp [hsb]) k u hu' hfl _ hux))
        rwa [show u.offset + i - u.offset = i by omega] at hbyte
    · funext x
      rw [disk_flush (Or.inl hobj), disk_flush (Or.inl hobj), disk_getObject, disk_getObject, hold]

theorem blind_fullCow (hB : B.Oblivious control) {allowExist : Bool} {c c' : Container μ σ}
    (hok : t.left.container.makeObjectFullCow B src dst allowExist = .ok (true, c))
    (hok' : t.right.container.makeObjectFullCow B src dst allowExist = .ok (true, c'))
    (hleft : t'.left.container = c) (hright : t'.right.container = c')
    (hscope : ¬ t.family src → ¬ t.family dst → B.storageBackend ≠ none → ∀ k u,
      t.left.container.HasSegment src k u → u.dirty = false → ∀ x, u.Holds x → ¬ t.stale src x)
    (hF : ∀ id, ¬ t'.family id → ¬ t.family id ∧ (id = dst → ¬ t.family src))
    (hS : ∀ id x, ¬ t'.stale id x → ¬ t.stale (if id = dst then src else id) x) : Blind B t' := by
  obtain ⟨hcached, hdisk⟩ := cached_of_fullCow h.left.sound.wf hok
  obtain ⟨hcached', hdisk'⟩ := cached_of_fullCow h.right.wf hok'
  have hclean : ∀ {id}, ¬ t'.family id → ¬ t.family (if id = dst then src else id) := by
    intro id hid
    obtain ⟨hold, hsrc⟩ := hF id hid
    split_ifs with hdst
    · exact hsrc hdst
    · exact hold
  refine ⟨fun id x hid hx => ?_, fun id hid => ?_⟩
  · rw [hleft, hright, hcached, hcached']
    exact h.blind.cached _ x (hclean hid) (hS id x hx)
  · rw [hleft, hright]
    by_cases hdst : id = dst
    · subst hdst
      obtain ⟨hold, hsrc⟩ := hF id hid
      refine disk_fullCow_eq h.inStep.container hB h.left.sound.wf h.right.wf
        (h.blind.disk src (hsrc rfl)) (h.blind.disk id hold) (fun hsb k u hu hd i hi => ?_) hok hok'
      have hux : u.Holds (u.offset + i) := ⟨by omega, by unfold ObjectSegment.stop; omega⟩
      have hbyte := bytes_eq_of_cached h.inStep.container (h.left.sound.wf.layout src) hu hux
        (h.blind.cached src _ (hsrc rfl) (hscope (hsrc rfl) hold hsb k u hu hd _ hux))
      rwa [show u.offset + i - u.offset = i by omega] at hbyte
    · rw [hdisk id hdst, hdisk' id hdst]
      exact h.blind.disk id (hF id hid).1

include hin

theorem blind_read {u u' : Nat → LibfabricBuffer} (hr : alignedEnd A offset size < 2 ^ 64)
    (hok : t.left.read B id offset size u = .ok (reply, t'.left))
    (hok' : t.right.read B id offset size u' = .ok (reply', t'.right)) (hF : t'.family = t.family)
    (hS : t'.stale = staleAfter B t.left t'.left t.stale (.read id offset size u)) :
    Blind B t' := by
  have hgrown : ∀ {s s' : Server μ σ} {u : Nat → LibfabricBuffer} {reply : Reply}, Sound B A s →
      s.read B id offset size u = .ok (reply, s') →
      (∀ id' x, Grown B s.container s'.container id' x) ∧
        s'.container.disk B = s.container.disk B := by
    intro s s' u reply hs hok
    obtain ⟨c₁, hgrow, hs', -⟩ := read_ok hs.wf (hs.rangeOk hr) hok
    rw [hs']
    refine ⟨fun id' x => ?_, hgrow.disk⟩
    by_cases hid : id' = id
    · subst hid
      exact hgrow.grown (hs.wf.layout id')
    · exact Or.inl (hgrow.cached_other hid)
  obtain ⟨hnew, hdisk⟩ := hgrown h.left.sound hok
  obtain ⟨hnew', hdisk'⟩ := hgrown h.right hok'
  refine ⟨fun id' x hid hx => ?_, fun id' hid => ?_⟩
  · rw [hF] at hid
    rw [hS] at hx
    have hx' : ¬ (t.stale id' x ∨ Bare B t.left.container t'.left.container id' x) := hx
    rw [not_or] at hx'
    have hbare : ¬ Bare B t.right.container t'.right.container id' x := fun ⟨h1, h2, h3⟩ =>
      hx'.2 ⟨h1, h.inStep.container.cached_eq_none.mp h2,
        fun hno => h3 (hin.container.cached_eq_none.mpr hno)⟩
    exact cached_eq_of_explained hin.container ((hnew id' x).explained hx'.2)
      ((hnew' id' x).explained hbare) (h.blind.cached id' x hid hx'.1) (h.blind.disk id' hid)
  · rw [hF] at hid
    rw [hdisk, hdisk']
    exact h.blind.disk id' hid

theorem blind_rangeCow (hB : B.Oblivious control) {allowExist : Bool} {c c' : Container μ σ}
    (hnw : offset + size < 2 ^ 64) (hsize : 0 < size)
    (hfit : PartsFit A t.left.container src dst offset size)
    (hok : t.left.container.makeObjectRangeCow B src dst allowExist offset size = (true, c))
    (hok' : t.right.container.makeObjectRangeCow B src dst allowExist offset size = (true, c'))
    (hleft : t'.left.container = c) (hright : t'.right.container = c')
    (hF : ∀ id, ¬ t'.family id → ¬ t.family id ∧ (id = dst → ¬ t.family src))
    (hS : t'.stale = staleAfter B t.left t'.left t.stale
      (.cow src dst allowExist offset size)) : Blind B t' := by
  have hpar := h.inStep.container
  have hcopy := makeObjectRangeCow_cached h.left.sound.wf h.left.sound.fixed hnw hsize hfit hok
  have hcopy' := makeObjectRangeCow_cached h.right.wf h.right.fixed hnw hsize
    (partsFit_of_parallel hpar hfit) hok'
  have hiff : ∀ {x}, CopiedIn B
      (rangeCowTurns B t.right.container src dst allowExist offset size) dst offset size x ↔
      CopiedIn B (rangeCowTurns B t.left.container src dst allowExist offset size) dst offset size
        x := copiedIn_rangeCow_iff hpar hB h.left.sound.wf h.right.wf hnw (carried_of_rangeCow hok)
  have hcopied : ∀ {x}, Copied B t.left.container src dst allowExist offset size x ↔
      CopiedIn B (rangeCowTurns B t.left.container src dst allowExist offset size) dst offset size
        x := by
    intro x
    unfold Copied
    rw [if_neg (by omega)]
  refine ⟨fun id x hid hx => ?_, fun id hid => ?_⟩
  · obtain ⟨hold, hsrc⟩ := hF id hid
    rw [hS] at hx
    have hx' : ¬ ((id = dst ∧ Copied B t.left.container src dst allowExist offset size x ∧
        t.stale src x) ∨ (¬ (id = dst ∧ Copied B t.left.container src dst allowExist offset size
          x) ∧ (t.stale id x ∨ Bare B t.left.container t'.left.container id x))) := hx
    rw [not_or] at hx'
    by_cases hin' : id = dst ∧ Copied B t.left.container src dst allowExist offset size x
    · -- a copied position shows what the source shows
      obtain ⟨rfl, hc⟩ := hin'
      rw [hleft, hright, hcopy.inside (hcopied.mp hc), hcopy'.inside (hiff.mpr (hcopied.mp hc))]
      exact h.blind.cached src x (hsrc rfl) fun hno => hx'.1 ⟨rfl, hc, hno⟩
    · have hx'' : ¬ (t.stale id x ∨ Bare B t.left.container t'.left.container id x) := fun hno =>
        hx'.2 ⟨hin', hno⟩
      rw [not_or] at hx''
      have hsame := h.blind.cached id x hold hx''.1
      by_cases hdst : id = dst
      · subst hdst
        have hout : ¬ CopiedIn B (rangeCowTurns B t.left.container src id allowExist offset size)
          id offset size x := fun hno => hin' ⟨rfl, hcopied.mpr hno⟩
        have hbare : ¬ Bare B t.right.container t'.right.container id x := fun ⟨h1, h2, h3⟩ =>
          hx''.2 ⟨h1, hpar.cached_eq_none.mp h2,
            fun hno => h3 (hin.container.cached_eq_none.mpr hno)⟩
        rw [hleft] at hx''
        rw [hright] at hbare
        have hexp := (hcopy.outside hout).explained hx''.2
        have hexp' := (hcopy'.outside (hiff.not.mpr hout)).explained hbare
        rw [← hleft] at hexp
        rw [← hright] at hexp'
        exact cached_eq_of_explained hin.container hexp hexp' hsame (h.blind.disk id hold)
      · rw [hleft, hright, hcopy.others hdst, hcopy'.others hdst]
        exact hsame
  · rw [hleft, hright, hcopy.disk, hcopy'.disk]
    exact h.blind.disk id (hF id hid).1

theorem blind_cow (hB : B.Oblivious control) {allowExist : Bool}
    (hr : alignedEnd A offset size < 2 ^ 64)
    (hscope : Carried t.left.container src dst allowExist →
      if size = 0 then
        ¬ t.family src → ¬ t.family dst → B.storageBackend ≠ none →
          ∀ k u, t.left.container.HasSegment src k u → u.dirty = false →
            ∀ x, u.Holds x → ¬ t.stale src x
      else PartsFit A t.left.container src dst offset size)
    (hok : t.left.cow B src dst allowExist offset size = .ok (reply, t'.left))
    (hok' : t.right.cow B src dst allowExist offset size = .ok (reply', t'.right))
    (hF : t'.family = familyAfter t.left t.family (.cow src dst allowExist offset size))
    (hS : t'.stale = staleAfter B t.left t'.left t.stale
      (.cow src dst allowExist offset size)) : Blind B t' := by
  have hfam : ∀ id, t'.family id ↔
      t.family id ∨ (id = dst ∧ t.family src ∧ Carried t.left.container src dst allowExist) := by
    intro id
    rw [hF]
    rfl
  have hjoin : Carried t.left.container src dst allowExist → ∀ id, ¬ t'.family id →
      ¬ t.family id ∧ (id = dst → ¬ t.family src) := by
    intro hdone id hid
    rw [hfam, not_or] at hid
    exact ⟨hid.1, fun hdst hsrc => hid.2 ⟨hdst, hsrc, hdone⟩⟩
  -- a copy that is refused changes nothing
  have hrefused : ¬ Carried t.left.container src dst allowExist →
      t'.left.container = t.left.container → t'.right.container = t.right.container →
      Blind B t' := by
    intro hdone hleft hright
    refine blind_of_quiet h (fun id hid => (hfam id).mpr (Or.inl hid)) (fun id x hx => ?_)
      (fun _ _ => by rw [hleft]) (fun _ _ => by rw [hright]) (by rw [hleft]) (by rw [hright])
    rw [hS]
    refine Or.inr ⟨fun hno => hdone ?_, Or.inl hx⟩
    have hc := hno.2
    unfold Copied at hc
    split_ifs at hc with hzero
    · exact hc
    · rw [rangeCowTurns_refused hdone] at hc
      obtain ⟨e, he, -⟩ := hc
      exact absurd he List.not_mem_nil
  obtain ⟨hsize, status, c, hcow, -, hs⟩ | ⟨hsize, status, c, hcow, -, hs⟩ := cow_ok hok <;>
    obtain ⟨hsize', status', c', hcow', -, hs'⟩ | ⟨hsize', status', c', hcow', -, hs'⟩ :=
      cow_ok hok'
  case inl.inr => exact absurd hsize hsize'
  case inr.inl => exact absurd hsize' hsize
  all_goals
    have hleft : t'.left.container = c := congrArg Server.container hs
    have hright : t'.right.container = c' := congrArg Server.container hs'
  case inl.inl =>
    rw [if_pos hsize] at hscope
    obtain ⟨rfl, -⟩ := h.inStep.container.makeObjectFullCow hB hcow hcow'
    cases status' with
    | false =>
      refine hrefused (fun hdone => ?_) ?_ ?_
      · exact absurd ((carried_of_fullCow hcow).mpr hdone) (by simp)
      · rw [hleft, makeObjectFullCow_false hcow]
      · rw [hright, makeObjectFullCow_false hcow']
    | true =>
      have hdone := (carried_of_fullCow hcow).mp rfl
      refine blind_fullCow h hB hcow hcow' hleft hright (hscope hdone) (hjoin hdone)
        fun id x hx hno => hx ?_
      rw [hS]
      split_ifs at hno with hdst
      · refine Or.inl ⟨hdst, ?_, hno⟩
        unfold Copied
        rwa [if_pos hsize]
      · exact Or.inr ⟨fun hin => hdst hin.1, Or.inl hno⟩
  case inr.inr =>
    rw [if_neg hsize] at hscope
    have hagrees := h.inStep.container.makeObjectRangeCow hB src dst allowExist offset size
    have hiff := rangeCow_iff_carried B t.left.container src dst allowExist offset size
    rw [hcow, hcow'] at hagrees
    rw [hcow] at hiff
    obtain rfl : status' = status := hagrees.fst
    cases status' with
    | true =>
      have hdone := hiff.mp rfl
      exact blind_rangeCow h hin hB (Nat.lt_of_le_of_lt (le_alignedEnd ..) hr)
        (Nat.pos_of_ne_zero hsize) (hscope hdone) hcow hcow' hleft hright (hjoin hdone) hS
    | false =>
      refine hrefused (fun hdone => absurd (hiff.mpr hdone) (by simp)) ?_ ?_
      · rw [hleft]
        exact makeObjectRangeCow_false hcow
      · rw [hright]
        exact makeObjectRangeCow_false hcow'

end Blind

/-- **Every step in scope keeps an observer outside of the family blind.** -/
theorem leakInv_step (hB : B.Oblivious control) {t t' : Pair μ σ} {e : Event × Event}
    (h : LeakInv B control A secret t) (hscope : Contained B A t e)
    (hstep : Pair.Step B secret t e t') : LeakInv B control A secret t' := by
  obtain ⟨e, e'⟩ := e
  obtain ⟨hreq, hleft, hright, hF, hS⟩ := hstep
  obtain ⟨hsnap, hscope⟩ := hscope
  dsimp only at hreq hleft hright hF hS hsnap hscope
  have hr := hsnap.1
  have hin := inStep_of_step h.inStep hB hreq h.left.sound h.right hr hleft hright
  have hsecret : t'.family secret := by
    rw [hF]
    cases e with
    | cow => exact Or.inl h.secret
    | _ => exact h.secret
  refine ⟨inFlight_of_scope h.left hsnap hleft, sound_step h.right (hreq.inRange hr) hright, hin,
    hsecret, ?_⟩
  obtain ⟨reply, hok⟩ := hleft
  obtain ⟨reply', hok'⟩ := hright
  cases hreq with
  | eagerWrite hw => exact blind_eagerWrite h hin hB hw hr hok hok' hF hS
  | rdmaWrite hw =>
    exact blind_rdmaWrite h hin hB hw hr (congrArg Prod.snd (Except.ok.inj hok)).symm
      (congrArg Prod.snd (Except.ok.inj hok')).symm hF hS
  | read id offset size u u' => exact blind_read h hin hr hok hok' hF hS
  | same =>
    cases e with
    | eagerWrite w => exact blind_eagerWrite h hin hB (.refl secret w) hr hok hok' hF hS
    | read id offset size u => exact blind_read h hin hr hok hok' hF hS
    | cow src dst allowExist offset size => exact blind_cow h hin hB hr hscope hok hok' hF hS
    | rdmaWrite w =>
      exact blind_rdmaWrite h hin hB (.refl secret w) hr
        (congrArg Prod.snd (Except.ok.inj hok)).symm (congrArg Prod.snd (Except.ok.inj hok')).symm
        hF hS
    | rdmaDone number =>
      exact blind_rdmaDone h (congrArg Prod.snd (Except.ok.inj hok)).symm
        (congrArg Prod.snd (Except.ok.inj hok')).symm hF hS
    | rdmaFail number landed =>
      exact blind_rdmaFail h (congrArg Prod.snd (Except.ok.inj hok)).symm
        (congrArg Prod.snd (Except.ok.inj hok')).symm hF hS
    | flush id offset size =>
      exact blind_flush h hB (congrArg Prod.snd (Except.ok.inj hok)).symm
        (congrArg Prod.snd (Except.ok.inj hok')).symm hscope hF hS
    | create id =>
      have hquiet : ∀ {s s' : Server μ σ} {reply : Reply}, .ok (s.create B id) =
          (Except.ok (reply, s') : Except Fault (Reply × Server μ σ)) →
          (∀ id x, s'.container.cached id x = s.container.cached id x) ∧
            s'.container.disk B = s.container.disk B := by
        intro s s' reply hc
        obtain rfl := (congrArg Prod.snd (Except.ok.inj hc)).symm
        obtain ⟨st, hst⟩ := create_eq (B := B) (s.container.getObject id) id
        refine ⟨fun id' x => ?_, (create_frame (B := B) (s.container.getObject id) id).2⟩
        show ((s.container.getObject id).create B id).2.cached id' x = _
        rw [hst]
        exact cached_getObject id
      exact blind_of_quiet h (fun _ hid => hF ▸ hid) (fun _ _ hx => hS ▸ hx) (hquiet hok).1
        (hquiet hok').1 (hquiet hok).2 (hquiet hok').2
    | rangeRegister | rangeUnregister | clientDisconnect =>
      have hl := onTrackers_step ⟨reply, hok⟩ trivial
      have hrt := onTrackers_step ⟨reply', hok'⟩ trivial
      refine blind_of_quiet h (fun _ hid => hF ▸ hid) (fun _ _ hx => hS ▸ hx)
        (fun id x => cached_congr (hl.segments id) fun _ => by rw [hl.memory])
        (fun id x => cached_congr (hrt.segments id) fun _ => by rw [hrt.memory]) ?_ ?_
      · exact disk_of_storage hl.storage
      · exact disk_of_storage hrt.storage

-- ---------------------------------------------------------------------------
-- Nothing leaks
-- ---------------------------------------------------------------------------

/-- The same reads can be answered. -/
theorem InStep.answerable (h : InStep control secret s r) (hans : Answerable A s id offset size) :
    Answerable A r id offset size := by
  unfold Answerable at hans ⊢
  split_ifs at hans ⊢
  · unfold OneSegment at hans ⊢
    simpa only [h.container.hasSegment] using hans
  · exact ⟨hans.front, hans.back, fun k t ht => hans.segments k t (h.container.hasSegment.mp ht)⟩

/-- Outside of the family both servers store the same bytes, and both answer a read in
scope the same. -/
structure NoLeak (B : Backends μ σ) (A : Nat) (t : Pair μ σ) : Prop where
  stored   : ∀ id, ¬ t.family id → t.right.container.disk B id = t.left.container.disk B id
  answered : ∀ {id offset size u u' reply reply' s' r'}, ¬ t.family id →
    Contained B A t (.read id offset size u, .read id offset size u') →
    t.left.exec B (.read id offset size u) = .ok (reply, s') →
    t.right.exec B (.read id offset size u') = .ok (reply', r') → reply' = reply

theorem LeakInv.noLeak {t : Pair μ σ} (h : LeakInv B control A secret t)
    (hB : B.Oblivious control) : NoLeak B A t := by
  refine ⟨h.blind.disk, fun {id offset size u u' reply reply' s' r'} hid hscope hok hok' => ?_⟩
  have hpar := h.inStep.container.getObject id
  have hr := hscope.1.1
  obtain ⟨hpos, hans, hfresh⟩ := hscope.2 hid
  -- the pair after the read
  have hstep : Pair.Step B secret t (.read id offset size u, .read id offset size u')
      ⟨s', r', familyAfter t.left t.family (.read id offset size u),
        staleAfter B t.left s' t.stale (.read id offset size u)⟩ :=
    ⟨.read id offset size u u', ⟨reply, hok⟩, ⟨reply', hok'⟩, rfl, rfl⟩
  have hnext := leakInv_step hB h hscope hstep
  have hcached : ∀ i ∈ List.range size,
      r'.container.cached id (offset + i) = s'.container.cached id (offset + i) := by
    intro i hi
    have hlt := List.mem_range.mp hi
    obtain ⟨hstale, hbare⟩ := hfresh (offset + i) (by omega) (by omega)
    refine hnext.blind.cached id (offset + i) hid fun hno => ?_
    exact Or.elim hno hstale fun hnew => hbare hnew.1 hnew.2.1
  rw [read_reply h.left.sound hr hpos hans hok,
    read_reply h.right hr hpos (h.inStep.answerable hans) hok',
    (hpar.getBuffers hB id offset size .read true false).fst,
    List.map_congr_left fun i hi => congrArg (Option.getD · 0) (hcached i hi)]

/-- The server on a cache over `mb`. -/
def cacheBackends (mb : MemoryBackend μ) (storage : Option (StorageBackend σ)) :
    Backends (MemoryBackendCache μ) σ :=
  ⟨MemoryBackendCache.memoryBackend mb, storage⟩

def recyclingBackends : Backends (MemoryBackendCache Malloc) Unit :=
  cacheBackends Malloc.backend none

def recyclingServer : Server (MemoryBackendCache Malloc) Unit :=
  .new (.new 8 ⟨fun _ _ => 0, .new ⟨0, fun _ => none⟩, [], 0⟩ ()) false

theorem initial_recyclingServer : Initial recyclingBackends 8 false recyclingServer :=
  ⟨⟨fun _ _ => 0, .new ⟨0, fun _ => none⟩, [], 0⟩, (),
    MemoryBackendCache.valid_new (fun _ _ => rfl) fun _ => rfl, rfl, rfl⟩

/-- The pair after a request that both servers answer. -/
def Pair.after (B : Backends μ σ) (t : Pair μ σ) (e : Event × Event) : Pair μ σ :=
  ⟨t.left.after B [e.1], t.right.after B [e.2], familyAfter t.left t.family e.1,
    staleAfter B t.left (t.left.after B [e.1]) t.stale e.1⟩

theorem Pair.step_after {t : Pair μ σ} {e : Event × Event} (hreq : SameRequest secret e.1 e.2)
    (hleft : t.left.Step B e.1 (t.left.after B [e.1]))
    (hright : t.right.Step B e.2 (t.right.after B [e.2])) : Pair.Step B secret t e (t.after B e) :=
  ⟨hreq, hleft, hright, rfl, rfl⟩

/-- Object 1 is written, and replaced by an empty object: its buffer is free
again. -/
def recyclingRequests (v : UInt8) : List Event :=
  [.eagerWrite ⟨⟨1, 1⟩, 0, 8, fun _ => v⟩, .create ⟨1, 2⟩, .cow ⟨1, 2⟩ ⟨1, 1⟩ true 0 0]

def recyclingPair : Pair (MemoryBackendCache Malloc) Unit :=
  ((recyclingRequests 7).zip (recyclingRequests 8)).foldl (Pair.after recyclingBackends)
    (.new ⟨1, 1⟩ recyclingServer)

theorem run_recyclingPair : Run (Pair.Step recyclingBackends ⟨1, 1⟩)
    (Contained recyclingBackends 8) (.new ⟨1, 1⟩ recyclingServer) recyclingPair := by
  have hwrite : SameWrite ⟨1, 1⟩ ⟨⟨1, 1⟩, 0, 8, fun _ => 7⟩ ⟨⟨1, 1⟩, 0, 8, fun _ => 8⟩ :=
    ⟨rfl, rfl, rfl, fun hno => absurd rfl hno⟩
  refine .next (.next (e := (.create ⟨1, 2⟩, .create ⟨1, 2⟩)) (.next .start
    ⟨⟨by decide, trivial⟩, trivial⟩ (Pair.step_after (.eagerWrite hwrite) ⟨_, rfl⟩ ⟨_, rfl⟩))
    ⟨⟨trivial, trivial⟩, trivial⟩ (Pair.step_after (.same _) ⟨_, rfl⟩ ⟨_, rfl⟩))
    ⟨⟨by decide, ?_⟩, fun _ => ?_⟩ (Pair.step_after (.same _) ⟨_, rfl⟩ ⟨_, rfl⟩)
  · exact fun _ _ p hp => absurd hp List.not_mem_nil
  · rw [if_pos rfl]
    exact fun _ _ hno => absurd rfl hno

end Server

end IoCatcher
