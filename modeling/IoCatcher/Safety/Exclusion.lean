import IoCatcher.Model.Requests

/-!
# IO Catcher — range exclusion between clients

A client that maps a range of an object registers it, and the server refuses
to register an intersecting range unless both are read. The registrations are
kept in the `Object`, so they live as long as the object does — and a full
copy-on-write *onto* an existing object deletes it.

* `tracker_kept`            — one step keeps a registration, unless the client
  gives it up or a full copy replaces the object;
* `exclusive_until_replaced` — a registration is exclusive as long as no
  full copy replaces its object;
* `registration_lost_on_cow` — a run in which one does, and two clients hold
  the same range for writing.
-/

namespace IoCatcher

open Container

namespace Server

variable {μ σ : Type} {B : Backends μ σ} {s s' s₀ s₁ s₂ : Server μ σ}

/-- A range a client has registered on an object. -/
structure Registration where
  tcpClientId : Nat
  object      : ObjectId
  rangeId     : Int
  offset      : Nat
  size        : Nat
  write       : Bool

/-- The entry of a registration in the tracker of its object. -/
def Registration.range (r : Registration) : ConsistencyRange :=
  ⟨r.tcpClientId, r.rangeId, r.offset, r.size, accessMode r.write⟩

/-- The server knows the registration. -/
def Registered (s : Server μ σ) (r : Registration) : Prop :=
  r.range ∈ (s.container.object r.object).consistencyTracker.ranges

/-- The event is not the client unregistering the range or leaving. -/
def Keeps (r : Registration) : Event → Prop
  | .rangeUnregister client id rangeId offset size write =>
    ¬ (client = r.tcpClientId ∧ id = r.object ∧ rangeId = r.rangeId ∧ offset = r.offset ∧
      size = r.size ∧ write = r.write)
  | .clientDisconnect client => client ≠ r.tcpClientId
  | _ => True

/-- The event is a full copy that replaces object `id`. -/
def Replaces (s : Server μ σ) (id : ObjectId) : Event → Prop
  | .cow sourceId destId allowExist _ rangeSize =>
    destId = id ∧ rangeSize = 0 ∧ allowExist = true ∧ s.container.hasObject sourceId = true
  | _ => False

/-! ## One step -/

theorem check_step {e : Event} (hstep : Step B s e s') :
    s'.consistencyCheck = s.consistencyCheck := by
  obtain ⟨reply, hok⟩ := hstep
  cases e with
  | eagerWrite w =>
    have hok : s.eagerWrite B w = .ok (reply, s') := hok
    unfold eagerWrite at hok
    split at hok
    · rw [← (Prod.mk.inj (Except.ok.inj hok)).2]
    · split at hok
      · exact absurd hok (by simp)
      · rw [← (Prod.mk.inj (Except.ok.inj hok)).2]
  | rdmaWrite w =>
    have hok : s.rdmaWrite B w = (reply, s') := Except.ok.inj hok
    unfold rdmaWrite at hok
    split at hok <;> rw [← (Prod.mk.inj hok).2]
  | rdmaDone | rdmaFail => exact (lands_step ⟨reply, hok⟩ trivial).check
  | read id offset size uninitialised =>
    obtain ⟨rfl, -⟩ := read_eq hok
    rfl
  | flush id offset size => rw [← (Prod.mk.inj (Except.ok.inj hok)).2]
  | create id => rw [← (Prod.mk.inj (Except.ok.inj hok)).2]
  | cow sourceId destId allowExist offset size =>
    obtain ⟨-, _, _, -, -, rfl⟩ | ⟨-, _, _, -, -, rfl⟩ := cow_ok hok <;> rfl
  | rangeRegister | rangeUnregister | clientDisconnect =>
    exact (onTrackers_step ⟨reply, hok⟩ trivial).check

/-- An object with registrations exists in the container. -/
theorem hasObject_of_registered {r : Registration} (h : s.Registered r) :
    s.container.hasObject r.object = true := by
  unfold Registered Container.object at h
  unfold Container.hasObject
  cases hf : s.container.objects.find? r.object with
  | none =>
    rw [hf] at h
    exact absurd h List.not_mem_nil
  | some o => rfl

/-- **One step keeps a registration**, unless the client gives it up or the
object is replaced. -/
theorem tracker_kept {r : Registration} {e : Event} (h : Wf B 1 s.container)
    (hreg : s.Registered r) (hkeep : Keeps r e) (hrep : ¬ Replaces s r.object e)
    (hstep : Step B s e s') : s'.Registered r := by
  by_cases hp : Plain e
  · have hh := sameHeader_step h (stepOk_one s e) hp hstep
    unfold Registered
    rw [hh.tracker]
    exact hreg
  obtain ⟨reply, hok⟩ := hstep
  cases e with
  | cow sourceId destId allowExist offset size =>
    obtain rfl : size = 0 := not_not.mp hp
    obtain ⟨-, status, d, hfull, -, rfl⟩ | ⟨hsize, -⟩ := cow_ok hok
    · cases status with
      | false =>
        unfold Registered
        rw [makeObjectFullCow_false hfull]
        exact hreg
      | true =>
        obtain ⟨-, hsrc, hallow, d', st, hshrink, -, -, -, rfl⟩ := makeObjectFullCow_ok h hfull
        have hne : r.object ≠ destId := by
          intro heq
          refine hrep ⟨heq.symm, rfl, hallow ?_, hsrc⟩
          rw [← heq]
          exact hasObject_of_registered hreg
        unfold Registered
        rw [show (({ d' with storage := st } : Container μ σ).setObject destId _).object r.object =
          s.container.object r.object from
          (object_setObject_ne hne).trans (hshrink.others hne)]
        exact hreg
    · exact absurd rfl hsize
  | rangeRegister client id offset size write =>
    have heq : s' = (s.rangeRegister client id offset size write).2 :=
      (congrArg Prod.snd (Except.ok.inj hok)).symm
    subst heq
    unfold rangeRegister
    split_ifs
    · unfold Registered setTracker
      rw [object_setObject]
      split_ifs with hid
      · -- the same object: a registration only appends
        unfold Registered at hreg
        rw [hid] at hreg
        dsimp only
        unfold ConsistencyTracker.registerRange
        split_ifs
        · exact hreg
        · exact List.mem_append_left _ hreg
      · exact hreg
    · unfold Registered
      rw [object_getObject]
      exact hreg
  | rangeUnregister client id rangeId offset size write =>
    have heq : s' = (s.rangeUnregister client id rangeId offset size write).2 :=
      (congrArg Prod.snd (Except.ok.inj hok)).symm
    subst heq
    unfold rangeUnregister
    split_ifs
    · unfold Registered setTracker
      rw [object_setObject]
      split_ifs with hid
      · -- the entry that is erased is another one
        unfold Registered at hreg
        rw [hid] at hreg
        refine (List.mem_erase_of_ne ?_).mpr hreg
        intro heq
        simp only [Registration.range, ConsistencyRange.mk.injEq] at heq
        obtain ⟨h1, h2, h3, h4, h5⟩ := heq
        refine hkeep ⟨h1.symm, hid.symm, h2.symm, h3.symm, h4.symm, ?_⟩
        revert h5
        cases write <;> cases r.write <;> simp [accessMode]
      · exact hreg
    · unfold Registered
      rw [object_getObject]
      exact hreg
  | clientDisconnect client =>
    obtain ⟨-, rfl⟩ := Prod.mk.inj (Except.ok.inj hok)
    unfold Registered
    show r.range ∈ ((s.container.onClientDisconnect client).object
      r.object).consistencyTracker.ranges
    rw [object_onClientDisconnect]
    refine List.mem_filter.mpr ⟨hreg, ?_⟩
    exact decide_eq_true (Ne.symm hkeep)
  | eagerWrite w => exact absurd trivial hp
  | rdmaWrite w => exact absurd trivial hp
  | rdmaDone number => exact absurd trivial hp
  | rdmaFail number landed => exact absurd trivial hp
  | read id offset size uninitialised => exact absurd trivial hp
  | flush id offset size => exact absurd trivial hp
  | create id => exact absurd trivial hp

/-! ## Whole runs -/

/-- What a registration promises its client: an intersecting range is refused
unless both are read, and the client can give the range back. -/
structure Protected (s : Server μ σ) (r : Registration) : Prop where
  refused  : ∀ client offset size write, offset + size < 2 ^ 64 →
    (∃ x, (r.offset ≤ x ∧ x < r.offset + r.size) ∧ offset ≤ x ∧ x < offset + size) →
    (r.write = true ∨ write = true) →
    (s.rangeRegister client r.object offset size write).1 = .ack (-1)
  released : (s.rangeUnregister r.tcpClientId r.object r.rangeId r.offset r.size r.write).1 =
    .ack 0

/-- The client was given the id of the registration, in the state `s`. -/
def Obtained (s s₁ : Server μ σ) (r : Registration) : Prop :=
  s.rangeRegister r.tcpClientId r.object r.offset r.size r.write = (.ack r.rangeId, s₁) ∧
    0 < r.rangeId

theorem registered_of_obtained {r : Registration} (hcheck : s.consistencyCheck = true)
    (h : Obtained s s₁ r) : s₁.Registered r ∧ s₁.consistencyCheck = true := by
  obtain ⟨hreg, hpos⟩ := h
  unfold rangeRegister at hreg
  rw [if_pos hcheck] at hreg
  obtain ⟨hid, rfl⟩ := Prod.mk.inj hreg
  refine ⟨?_, hcheck⟩
  unfold Registered setTracker
  rw [object_setObject_self]
  dsimp only at hid ⊢
  unfold ConsistencyTracker.registerRange at hid ⊢
  split_ifs at hid ⊢
  · -- a refusal answers -1, which is not positive
    have := Reply.ack.inj hid
    omega
  · rw [List.mem_append, List.mem_singleton]
    refine Or.inr ?_
    rw [Registration.range, ← Reply.ack.inj hid]

theorem protected_of_registered {r : Registration} (hcheck : s.consistencyCheck = true)
    (hr : r.offset + r.size < 2 ^ 64) (h : s.Registered r) : s.Protected r := by
  constructor
  · rintro client offset size write hsize ⟨x, hx, hx'⟩ hmode
    unfold rangeRegister
    rw [if_pos hcheck]
    have hcol : (s.container.object r.object).consistencyTracker.hasCollision offset size
        (accessMode write) = true := by
      refine List.any_eq_true.mpr ⟨r.range, h, ?_⟩
      rw [Bool.and_eq_true]
      constructor
      · unfold ConsistencyTracker.overlap
        rw [show r.range.offset = r.offset from rfl, show r.range.size = r.size from rfl,
          SizeT.add_eq hr, SizeT.add_eq hsize]
        simp only [Bool.or_eq_true, Bool.and_eq_true, decide_eq_true_eq]
        omega
      · rw [show r.range.accessMode = accessMode r.write from rfl]
        revert hmode
        cases r.write <;> cases write <;> simp [accessMode]
    unfold ConsistencyTracker.registerRange
    rw [if_pos hcol]
  · unfold rangeUnregister
    rw [if_pos hcheck]
    have hmem : (s.container.object r.object).consistencyTracker.ranges.contains r.range = true :=
      List.contains_iff_mem.mpr h
    show Reply.ack (if (s.container.object r.object).consistencyTracker.ranges.contains r.range
      then 0 else -1) = _
    rw [hmem]
    rfl

/-- **Exclusion between clients.** A registration obtained in any reachable
state protects its range in every later state, as long as the client neither
unregisters it nor leaves, and no full copy-on-write replaces the object. -/
theorem exclusive_until_replaced {A : Nat} {r : Registration} (hinit : Initial B A true s₀)
    (hrun : Run (Step B) (fun _ _ => True) s₀ s) (hobt : Obtained s s₁ r)
    (hr : r.offset + r.size < 2 ^ 64)
    (hrun' : Run (Step B) (fun s e => Keeps r e ∧ ¬ Replaces s r.object e) s₁ s₂) :
    s₂.Protected r := by
  have hcheck : s.consistencyCheck = true := by
    refine hrun.invariant (I := fun s => s.consistencyCheck = true) ?_ fun h _ hstep =>
      (check_step hstep).trans h
    obtain ⟨m, st, -, -, rfl⟩ := hinit
    rfl
  have hwf₁ : Wf B 1 s₁.container := by
    refine wf_step (e := .rangeRegister r.tcpClientId r.object r.offset r.size r.write)
      (wf_run hinit hrun) trivial ⟨.ack r.rangeId, ?_⟩
    exact congrArg Except.ok hobt.1
  obtain ⟨hreg₁, hcheck₁⟩ := registered_of_obtained hcheck hobt
  have hinv : Wf B 1 s₂.container ∧ s₂.Registered r ∧ s₂.consistencyCheck = true := by
    refine hrun'.invariant (I := fun s => Wf B 1 s.container ∧ s.Registered r ∧
      s.consistencyCheck = true) ⟨hwf₁, hreg₁, hcheck₁⟩ ?_
    rintro s s' e ⟨hwf, hreg, hc⟩ ⟨hkeep, hrep⟩ hstep
    exact ⟨wf_step hwf (stepOk_one s e) hstep, tracker_kept hwf hreg hkeep hrep hstep,
      (check_step hstep).trans hc⟩
  exact protected_of_registered hinv.2.2 hr hinv.2.1

/-! ## A registration that is lost -/

/-- A local server with consistency checking, before any request. -/
def checkingServer : Server Malloc (ObjectId → Bytes) :=
  Server.new (Container.new 0 (Memory.fresh 0) fun _ _ => 0) true

theorem initial_checkingServer : Initial localBackends 0 true checkingServer :=
  ⟨_, _, Memory.valid_fresh 0, rfl, rfl⟩

/-- Client 1 has the first eight bytes of object 2 for writing. -/
def firstRegistration : Registration := ⟨1, ⟨1, 2⟩, 1, 0, 8, true⟩

/-- The server once object 1 exists and the range is registered. -/
def registeredServer : Server Malloc (ObjectId → Bytes) :=
  ((checkingServer.create localBackends ⟨1, 1⟩).2.rangeRegister 1 ⟨1, 2⟩ 0 8 true).2

theorem run_create : Run (Step localBackends) (fun _ _ => True) checkingServer
    (checkingServer.create localBackends ⟨1, 1⟩).2 :=
  .next (e := .create ⟨1, 1⟩) .start trivial ⟨_, rfl⟩

theorem obtained_first : Obtained (checkingServer.create localBackends ⟨1, 1⟩).2 registeredServer
    firstRegistration := ⟨rfl, by decide⟩

/-- The registration survives the creation and a flush of its object. -/
theorem firstRegistration_protected : ∃ s₂, Run (Step localBackends)
      (fun s e => Keeps firstRegistration e ∧ ¬ Replaces s firstRegistration.object e)
      registeredServer s₂ ∧
    (s₂.container.segments ⟨1, 2⟩).entries = [] ∧ s₂.Protected firstRegistration := by
  have hrun : Run (Step localBackends)
      (fun s e => Keeps firstRegistration e ∧ ¬ Replaces s firstRegistration.object e)
      registeredServer
      ((registeredServer.create localBackends ⟨1, 2⟩).2.flush localBackends ⟨1, 2⟩ 0 0).2 :=
    .next (e := .flush ⟨1, 2⟩ 0 0)
      (.next (e := .create ⟨1, 2⟩) .start ⟨trivial, id⟩ ⟨_, rfl⟩) ⟨trivial, id⟩ ⟨_, rfl⟩
  exact ⟨_, hrun, by decide, exclusive_until_replaced initial_checkingServer run_create
    obtained_first (by decide) hrun⟩

/-- **A full copy onto the object drops its registrations**: the second client
is then given the range the first one still holds. -/
theorem registration_lost_on_cow :
    ¬ ∀ (s₀ s s₁ s₂ : Server Malloc (ObjectId → Bytes)) (r : Registration),
      Initial localBackends 0 true s₀ → Run (Step localBackends) (fun _ _ => True) s₀ s →
      Obtained s s₁ r → 0 < r.size → r.offset + r.size < 2 ^ 64 →
      Run (Step localBackends) (fun _ e => Keeps r e) s₁ s₂ → s₂.Protected r := by
  intro hall
  have hreply : (registeredServer.next localBackends (.cow ⟨1, 1⟩ ⟨1, 2⟩ true 0 0)).toOption.map
      (fun s => (s.rangeRegister 2 ⟨1, 2⟩ 0 8 true).1) = some (.ack 1) := by decide
  cases hnext : registeredServer.next localBackends (.cow ⟨1, 1⟩ ⟨1, 2⟩ true 0 0) with
  | error f =>
    rw [hnext] at hreply
    exact absurd hreply (by simp [Except.toOption])
  | ok s₂ =>
    rw [hnext] at hreply
    have hprot := hall checkingServer _ registeredServer s₂ firstRegistration
      initial_checkingServer run_create obtained_first (by decide) (by decide)
      (.next (e := .cow ⟨1, 1⟩ ⟨1, 2⟩ true 0 0) .start trivial (step_of_next hnext))
    have hno := hprot.refused 2 0 8 true (by decide) ⟨0, by decide⟩ (Or.inl rfl)
    have hyes : (s₂.rangeRegister 2 ⟨1, 2⟩ 0 8 true).1 = .ack 1 := Option.some.inj hreply
    exact absurd (hyes.symm.trans hno) (by decide)

end Server

end IoCatcher
