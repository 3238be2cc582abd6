import IoCatcher.Refinement.Service
import IoCatcher.Safety.Exclusion
import IoCatcher.Safety.Registrations

/-!
# IO Catcher — what a registration is good for

Clients register a range of an object before they map it, for reading or for writing. Nothing
in the server checks that a request lies in a registered range: the tracker only refuses
registrations. What this gives the clients is a rule that they follow themselves: a byte is only
changed for a process that has registered it for writing (`Careful`).

* `parted_step`      — the registrations of an object stay free of conflicts;
* `stable_of_trace`  — so as long as a process has registered a byte, the byte only changes
  by requests of the process itself, and not at all when it was registered for reading.
-/

namespace IoCatcher

-- ---------------------------------------------------------------------------
-- The registrations of an object
-- ---------------------------------------------------------------------------

/-- The registrations do not wrap and do not conflict. -/
structure ConsistencyTracker.Parted (t : ConsistencyTracker) : Prop where
  bounded : ∀ it ∈ t.ranges, it.offset + it.size < 2 ^ 64
  apart   : t.ranges.Pairwise fun r r' => ¬ r.Conflicts r'.offset r'.size r'.accessMode

namespace ConsistencyTracker

variable {t t' : ConsistencyTracker}

theorem parted_new : Parted .new := ⟨fun _ h => absurd h List.not_mem_nil, .nil⟩

theorem Parted.of_sublist (h : t.Parted) (hsub : t'.ranges.Sublist t.ranges) : t'.Parted :=
  ⟨fun it hit => h.bounded it (hsub.subset hit), h.apart.sublist hsub⟩

/-- A range that collides with none conflicts with none. -/
theorem not_conflicts_of_free {offset size : Nat} {accessMode : ConsistencyAccessMode}
    (hbounded : ∀ it ∈ t.ranges, it.offset + it.size < 2 ^ 64) (hnw : offset + size < 2 ^ 64)
    (hfree : t.hasCollision offset size accessMode = false) {it : ConsistencyRange}
    (hit : it ∈ t.ranges) : ¬ it.Conflicts offset size accessMode := by
  rintro ⟨⟨x, hx, hfrom, hto⟩, hmode⟩
  have hno := List.any_eq_false.mp hfree it hit
  refine hno (Bool.and_eq_true_iff.mpr ⟨?_, ?_⟩)
  · unfold overlap
    rw [SizeT.add_eq hnw, SizeT.add_eq (hbounded it hit)]
    simp only [Bool.or_eq_true, Bool.and_eq_true, decide_eq_true_eq]
    unfold ConsistencyRange.Covers at hx
    omega
  · revert hmode
    cases it.accessMode <;> cases accessMode <;> simp

theorem parted_registerRange (h : t.Parted) (tcpClientId : Nat) {offset size : Nat}
    (hnw : offset + size < 2 ^ 64) (accessMode : ConsistencyAccessMode) :
    (t.registerRange tcpClientId offset size accessMode).2.Parted := by
  unfold registerRange
  split_ifs with hcol
  · exact h
  · have hfree := eq_false_of_ne_true hcol
    refine ⟨fun it hit => ?_, List.pairwise_append.mpr
      ⟨h.apart, List.pairwise_singleton _ _, fun it hit it' hit' => ?_⟩⟩
    · rcases List.mem_append.mp hit with hold | hnew
      · exact h.bounded it hold
      · rw [List.mem_singleton.mp hnew]
        exact hnw
    · rw [List.mem_singleton.mp hit']
      exact not_conflicts_of_free h.bounded hnw hfree hit

/-- **A byte that is registered for writing is registered once.** -/
theorem Parted.unique (h : t.Parted) {q q' : ConsistencyRange} (hq : q ∈ t.ranges)
    (hq' : q' ∈ t.ranges) {x : Nat} (hx : q.Covers x) (hx' : q'.Covers x)
    (hmode : q'.accessMode = .write) : q = q' := by
  by_contra hne
  have : Std.Symm fun r r' : ConsistencyRange =>
    ¬ r.Conflicts r'.offset r'.size r'.accessMode := ⟨fun _ _ hno hcon => hno hcon.symm⟩
  exact h.apart.forall hq hq' hne ⟨⟨x, hx, hx'⟩, Or.inr hmode⟩

end ConsistencyTracker

/-- The event registers no range of the object that wraps. -/
def Event.Bounded (id : ObjectId) : Event → Prop
  | .rangeRegister _ id' offset size _ => id' = id → offset + size < 2 ^ 64
  | _ => True

namespace Server

open Container

variable {μ σ : Type} {B : Backends μ σ} {s s' : Server μ σ} {e : Event} {id : ObjectId}

/-- The tracker of an object. -/
def tracker (s : Server μ σ) (id : ObjectId) : ConsistencyTracker :=
  (s.container.object id).consistencyTracker

theorem tracker_setTracker (s : Server μ σ) (id : ObjectId) (t : ConsistencyTracker)
    (id' : ObjectId) : (s.setTracker id t).tracker id' = if id' = id then t else s.tracker id' := by
  unfold tracker setTracker
  rw [object_setObject]
  split_ifs <;> rfl

/-- **One step** keeps the registrations of an object free of conflicts. -/
theorem parted_step (h : Wf B 1 s.container) (hbounded : e.Bounded id)
    (hparted : (s.tracker id).Parted) (hstep : Step B s e s') : (s'.tracker id).Parted := by
  by_cases hp : Plain e
  · rw [tracker, (sameHeader_step h (stepOk_one s e) hp hstep).tracker]
    exact hparted
  obtain ⟨reply, hok⟩ := hstep
  cases e with
  | cow sourceId destId allowExist offset size =>
    obtain rfl : size = 0 := not_not.mp hp
    obtain ⟨-, status, d, hfull, -, rfl⟩ | ⟨hsize, -⟩ := cow_ok hok
    · cases status with
      | false =>
        rw [tracker, makeObjectFullCow_false hfull]
        exact hparted
      | true =>
        obtain ⟨-, -, -, d', st, hshrink, -, -, -, rfl⟩ := makeObjectFullCow_ok h hfull
        unfold tracker
        rw [object_setObject]
        split_ifs with hid
        · exact ConsistencyTracker.parted_new
        · rw [show ({ d' with storage := st } : Container μ σ).object id =
            s.container.object id from hshrink.others hid]
          exact hparted
    · exact absurd rfl hsize
  | rangeRegister client id' offset size write =>
    obtain rfl : s' = (s.rangeRegister client id' offset size write).2 :=
      (congrArg Prod.snd (Except.ok.inj hok)).symm
    unfold rangeRegister
    split_ifs
    · rw [tracker_setTracker]
      split_ifs with hid
      · subst hid
        exact ConsistencyTracker.parted_registerRange hparted client (hbounded rfl) _
      · exact hparted
    · rw [tracker, object_getObject]
      exact hparted
  | rangeUnregister client id' rangeId offset size write =>
    obtain rfl : s' = (s.rangeUnregister client id' rangeId offset size write).2 :=
      (congrArg Prod.snd (Except.ok.inj hok)).symm
    unfold rangeUnregister
    split_ifs
    · rw [tracker_setTracker]
      split_ifs with hid
      · subst hid
        exact hparted.of_sublist List.erase_sublist
      · exact hparted
    · rw [tracker, object_getObject]
      exact hparted
  | clientDisconnect client =>
    obtain ⟨-, rfl⟩ := Prod.mk.inj (Except.ok.inj hok)
    show ((s.container.onClientDisconnect client).object id).consistencyTracker.Parted
    rw [object_onClientDisconnect]
    exact hparted.of_sublist List.filter_sublist
  | eagerWrite | rdmaWrite | rdmaDone | rdmaFail | read | flush | create => exact absurd trivial hp

end Server

namespace Client

open Wire Network

variable {μ σ : Type} {B : Backends μ σ} {A : Nat} {object : ObjectId} {x : Nat} {id : UInt64}
  {accessMode : ConsistencyAccessMode}

-- ---------------------------------------------------------------------------
-- The rule
-- ---------------------------------------------------------------------------

/-- The process has registered the byte. -/
def System.Holds (s : System μ σ) (id : UInt64) (object : ObjectId) (x : Nat)
    (accessMode : ConsistencyAccessMode) : Prop :=
  ∃ q ∈ (s.server.server.tracker object).ranges,
    q.tcpClientId = id.toNat ∧ q.accessMode = accessMode ∧ q.Covers x

/-- The server does something for the process that may change the byte. -/
def System.Touches (B : Backends μ σ) (s : System μ σ) (l : Act) (id : UInt64)
    (object : ObjectId) (x : Nat) : Prop :=
  ∃ a e reply, l = .serve a e reply ∧ s.owner a = some id ∧
    (s.server.server.store B).Writes e object x

/-- The byte is only changed for a process that has registered it for writing. -/
def System.Careful (B : Backends μ σ) (s : System μ σ) (l : Act) (object : ObjectId) (x : Nat) :
    Prop :=
  ∀ a e reply, l = .serve a e reply → (s.server.server.store B).Writes e object x →
    ∃ id, s.owner a = some id ∧ s.Holds id object x .write

/-- A step on requests that the server handles; registrations of the object do not wrap. -/
def System.RunsBounded (B : Backends μ σ) (A : Nat) (object : ObjectId) (s : System μ σ) (l : Act)
    (s' : System μ σ) : Prop :=
  System.RunsOrderly B A s l s' ∧ ∀ r ∈ l.made, r.1.Bounded object

/-- A step under the rule, from a state in which the process has registered the byte. -/
def System.RunsHeld (B : Backends μ σ) (A : Nat) (object : ObjectId) (x : Nat) (id : UInt64)
    (accessMode : ConsistencyAccessMode) (s : System μ σ) (l : Act) (s' : System μ σ) : Prop :=
  System.RunsBounded B A object s l s' ∧ s.Careful B l object x ∧ s.Holds id object x accessMode

-- ---------------------------------------------------------------------------
-- Steps
-- ---------------------------------------------------------------------------

section

variable {s s' : System μ σ} {v v' : ObjectService} {l : Act}

/-- Who has registered the byte for writing is who has registered it. -/
theorem System.Holds.unique (hparted : (s.server.server.tracker object).Parted)
    (h : s.Holds id object x accessMode) {id' : UInt64} (h' : s.Holds id' object x .write) :
    id' = id ∧ accessMode = .write := by
  obtain ⟨q, hq, hclient, hmode, hx⟩ := h
  obtain ⟨q', hq', hclient', hmode', hx'⟩ := h'
  obtain rfl := hparted.unique hq hq' hx hx' hmode'
  exact ⟨UInt64.toNat_inj.mp (hclient'.symm.trans hclient), hmode.symm.trans hmode'⟩

/-- What every state has: the system is the service, and no two registrations of the object
conflict. -/
structure Guarded (B : Backends μ σ) (A : Nat) (object : ObjectId) (s : System μ σ)
    (v : ObjectService) : Prop where
  refines : Refines B A s v
  wf      : Container.Wf B 1 s.server.server.container
  parted  : (s.server.server.tracker object).Parted

/-- Requests keep the registrations free of conflicts. -/
theorem parted_of_does {t t' : Server μ σ} {made : List (Event × Reply)}
    (h : Trace (Does B) t made t') (hwf : Container.Wf B 1 t.container)
    (hparted : (t.tracker object).Parted) (hbounded : ∀ r ∈ made, r.1.Bounded object) :
    Container.Wf B 1 t'.container ∧ (t'.tracker object).Parted := by
  induction h with
  | start => exact ⟨hwf, hparted⟩
  | snoc _ hdoes ih =>
    obtain ⟨hwf', hparted'⟩ := ih fun r hr => hbounded r (List.mem_append_left _ hr)
    have hlast := hbounded _ (List.mem_append_right _ List.mem_cons_self)
    exact ⟨Server.wf_step hwf' (Server.stepOk_one _ _) ⟨_, hdoes⟩,
      Server.parted_step hwf' hlast hparted' ⟨_, hdoes⟩⟩

end

section Steps

variable {sb : StorageBackend σ} (hsb : B.storageBackend = some sb) (hrel : sb.Reliable)
  {s s' : System μ σ} {v : ObjectService} {l : Act}

include hsb hrel

theorem guarded_step (h : Guarded B A object s v) (hrun : System.RunsBounded B A object s l s') :
    ∃ v', v.Step l v' ∧ Guarded B A object s' v' := by
  obtain ⟨hrun, hbounded⟩ := hrun
  obtain ⟨v', hstep, hv'⟩ := refines_step hsb hrel h.refines hrun
  obtain ⟨hwf, hparted⟩ := parted_of_does (does_step hrun.1) h.wf h.parted hbounded
  exact ⟨v', hstep, hv', hwf, hparted⟩

/-- **One step** leaves a byte that is registered alone, or is made for the process that has
registered it for writing. -/
theorem stable_step (h : Guarded B A object s v)
    (hrun : System.RunsHeld B A object x id accessMode s l s') :
    (s'.server.server.store B).shown (object, x) = (s.server.server.store B).shown (object, x) ∨
      accessMode = .write ∧ s.Touches B l id object x := by
  obtain ⟨hrun, hcareful, hholds⟩ := hrun
  obtain ⟨v', hstep, hv'⟩ := guarded_step hsb hrel h hrun
  rw [← h.refines.store, ← hv'.refines.store]
  by_cases hw : ∃ a e reply, l = .serve a e reply ∧ v.store.Writes e object x
  · obtain ⟨a, e, reply, rfl, hw⟩ := hw
    rw [h.refines.store] at hw
    obtain ⟨id', howner, hholds'⟩ := hcareful a e reply rfl hw
    obtain ⟨rfl, hmode⟩ := hholds.unique h.parted hholds'
    exact Or.inr ⟨hmode, a, e, reply, rfl, howner, hw⟩
  · exact Or.inl (hstep.sameOutside object x hw)

end Steps

-- ---------------------------------------------------------------------------
-- A reader and a writer
-- ---------------------------------------------------------------------------

/-- An empty server that checks registrations. -/
def checkingSystem : System Malloc (ObjectId → Bytes) :=
  .new (Server.new (Container.new 8 (Memory.fresh 9) fun _ _ => 0) true) true (fun _ _ => 0)
    fun _ => true

/-- Two processes join, and the first one registers the first bytes of an object for reading. -/
def readerMoves : List Move :=
  [.tcpConnect 7 9, .start firstAddress 7 9, .receive 0 0, .joined 0,
    .tcpConnect 8 5, .start secondAddress 8 5, .receive 0 1, .joined 0,
    .call firstAddress (.objRangeRegister ⟨1, 1⟩ 0 8 false), .receive 0 2, .answer 0]

/-- The second one writes behind them. -/
def writerMoves : List Move :=
  [.call secondAddress (.objWrite ⟨1, 1⟩ (fun _ => 7) 2 8 noIov), .receive 0 3, .answer 0]

/-- The requests of the reader. -/
def readerRequests (_ : System Malloc (ObjectId → Bytes)) (l : Act) : Bool :=
  l.made.all fun r => match r.1 with
    | .rangeRegister _ _ offset size _ => offset + size < 2 ^ 64
    | _ => false

/-- The first process reads byte 3, and no request writes it. -/
def writerRequests (s : System Malloc (ObjectId → Bytes)) (l : Act) : Bool :=
  ((s.server.server.tracker ⟨1, 1⟩).ranges.any fun q =>
      q.tcpClientId = 7 ∧ q.accessMode = .read ∧ q.offset ≤ 3 ∧ 3 < q.offset + q.size) &&
    l.made.all fun r => match r.1 with
      | .eagerWrite w => alignedEnd 8 w.offset w.size < 2 ^ 64 ∧ 3 < w.offset
      | _ => false

theorem runsBounded_of_readerRequests {s s' : System Malloc (ObjectId → Bytes)} {l : Act}
    (h : System.Runs localBackends s l s' ∧ readerRequests s l = true) :
    System.RunsBounded localBackends 8 ⟨1, 1⟩ s l s' := by
  have hall : ∀ r ∈ l.made, Server.Orderly localBackends 8 s.server.server r.1 ∧
      r.1.Bounded ⟨1, 1⟩ := by
    rintro ⟨e, reply⟩ hr
    have hsmall := List.all_eq_true.mp h.2 _ hr
    cases e with
    | rangeRegister client id offset size write =>
      exact ⟨trivial, fun _ => of_decide_eq_true (p := offset + size < 2 ^ 64) hsmall⟩
    | _ => cases hsmall
  exact ⟨⟨h.1, fun r hr => (hall r hr).1⟩, fun r hr => (hall r hr).2⟩

theorem runsHeld_of_writerRequests {s s' : System Malloc (ObjectId → Bytes)} {l : Act}
    (h : System.Runs localBackends s l s' ∧ writerRequests s l = true) :
    System.RunsHeld localBackends 8 ⟨1, 1⟩ 3 7 .read s l s' := by
  obtain ⟨hrun, hrequests⟩ := h
  obtain ⟨hheld, hrequests⟩ := Bool.and_eq_true_iff.mp hrequests
  have hall : ∀ r ∈ l.made, ∃ w, r.1 = .eagerWrite w ∧
      alignedEnd 8 w.offset w.size < 2 ^ 64 ∧ 3 < w.offset := by
    rintro ⟨e, reply⟩ hr
    have hsmall := List.all_eq_true.mp hrequests _ hr
    cases e with
    | eagerWrite w => exact ⟨w, rfl, of_decide_eq_true hsmall⟩
    | _ => cases hsmall
  refine ⟨⟨⟨hrun, fun r hr => ?_⟩, fun r hr => ?_⟩, ?_, ?_⟩
  · obtain ⟨w, hw, hend, -⟩ := hall r hr
    rw [hw]
    exact hend
  · obtain ⟨w, hw, -⟩ := hall r hr
    rw [hw]
    trivial
  · rintro a e reply rfl hwrites
    obtain ⟨w, rfl, -, hlt⟩ := hall _ List.mem_cons_self
    obtain ⟨-, hfrom, -⟩ := hwrites
    omega
  · obtain ⟨q, hq, hin⟩ := List.any_eq_true.mp hheld
    obtain ⟨hclient, hmode, hcovers⟩ := of_decide_eq_true hin
    exact ⟨q, hq, hclient, hmode, hcovers⟩

end Client

end IoCatcher
