import IoCatcher.Network.Threads
import IoCatcher.Safety.Exclusion

/-!
# IO Catcher — what a client leaves behind

When a client disconnects, the server takes it out of the registry, so that its
requests are refused, and then removes its registrations from every object. The
check of a request and its hook are two critical sections: a registration that
was checked before the client left the registry can be made after the loop over
the objects has gone by, and then nothing removes it.

* `holdsRange_step`     — where a registration in a tracker comes from;
* `Forgotten`           — the invariant: a client that left has no registration
  pending, and none at the objects the loop has gone by;
* `no_range_of_gone`    — no registration outlives its client, as long as no
  client leaves between the check and the hook of a registration it asks for;
* `range_outlives_client` — a run in which one does.
-/

namespace IoCatcher

open Container

-- ---------------------------------------------------------------------------
-- Registrations of a client
-- ---------------------------------------------------------------------------

namespace Server

variable {μ σ : Type} {B : Backends μ σ} {s s' : Server μ σ}

/-- The tracker of an object contains a range of this client. -/
def HoldsRange (s : Server μ σ) (tcpClientId : Nat) (id : ObjectId) : Prop :=
  ∃ range ∈ (s.container.object id).consistencyTracker.ranges, range.tcpClientId = tcpClientId

instance (s : Server μ σ) (tcpClientId : Nat) (id : ObjectId) :
    Decidable (s.HoldsRange tcpClientId id) :=
  inferInstanceAs (Decidable (∃ range ∈ _, _))

/-- The event is a registration by this client. -/
def Registers (client : Nat) : Event → Prop
  | .rangeRegister tcpClientId .. => tcpClientId = client
  | _ => False

instance (client : Nat) : DecidablePred (Registers client)
  | .rangeRegister .. => inferInstanceAs (Decidable (_ = _))
  | .rangeUnregister .. | .rdmaDone _ | .rdmaFail .. | .clientDisconnect _ | .eagerWrite _
  | .rdmaWrite _ | .read .. | .flush .. | .create _ | .cow .. => inferInstanceAs (Decidable False)

theorem HoldsRange.of_ranges {client : Nat} {id : ObjectId} (h : s'.HoldsRange client id)
    (hsub : ∀ range ∈ (s'.container.object id).consistencyTracker.ranges,
      range ∈ (s.container.object id).consistencyTracker.ranges) : s.HoldsRange client id := by
  obtain ⟨range, hmem, hclient⟩ := h
  exact ⟨range, hsub range hmem, hclient⟩

/-- Only an object of the map has registrations. -/
theorem HoldsRange.hasObject {client : Nat} {id : ObjectId} (h : s.HoldsRange client id) :
    s.container.hasObject id = true := by
  obtain ⟨range, hmem, -⟩ := h
  unfold Container.object at hmem
  unfold Container.hasObject
  cases hf : s.container.objects.find? id with
  | none =>
    rw [hf] at hmem
    exact absurd hmem List.not_mem_nil
  | some o => rfl

/-- Replacing a tracker by one with fewer ranges adds no registration. -/
theorem holdsRange_setTracker {client : Nat} {id id' : ObjectId} {t : ConsistencyTracker}
    (hsub : ∀ range ∈ t.ranges, range.tcpClientId = client →
      range ∈ (s.container.object id).consistencyTracker.ranges)
    (h : (s.setTracker id t).HoldsRange client id') : s.HoldsRange client id' := by
  obtain ⟨range, hmem, hclient⟩ := h
  unfold setTracker at hmem
  rw [object_setObject] at hmem
  split_ifs at hmem with hid
  · rw [hid]
    exact ⟨range, hsub range hmem hclient, hclient⟩
  · exact ⟨range, hmem, hclient⟩

/-- **Where a registration comes from**: the tracker had it before the step, or
the step is the registration. -/
theorem holdsRange_step {e : Event} {client : Nat} {id : ObjectId} (h : Wf B 1 s.container)
    (hstep : Step B s e s') (hholds : s'.HoldsRange client id) (hreg : ¬ Registers client e) :
    s.HoldsRange client id := by
  by_cases hp : Plain e
  · have hh := sameHeader_step h (stepOk_one s e) hp hstep
    refine hholds.of_ranges fun range hmem => ?_
    rw [hh.tracker] at hmem
    exact hmem
  obtain ⟨reply, hok⟩ := hstep
  cases e with
  | cow sourceId destId allowExist offset size =>
    obtain rfl : size = 0 := not_not.mp hp
    obtain ⟨-, status, d, hfull, -, rfl⟩ | ⟨hsize, -⟩ := cow_ok hok
    · cases status with
      | false =>
        rw [makeObjectFullCow_false hfull] at hholds
        exact hholds
      | true =>
        obtain ⟨-, -, -, d', st, hshrink, -, -, -, rfl⟩ := makeObjectFullCow_ok h hfull
        refine hholds.of_ranges fun range hmem => ?_
        dsimp only at hmem
        rw [object_setObject] at hmem
        split_ifs at hmem with hid
        · -- the copy starts with an empty tracker
          exact absurd hmem List.not_mem_nil
        · rw [show (({ d' with storage := st } : Container μ σ).object id) =
            s.container.object id from hshrink.others hid] at hmem
          exact hmem
    · exact absurd rfl hsize
  | rangeRegister tcpClientId id' offset size write =>
    have heq : s' = (s.rangeRegister tcpClientId id' offset size write).2 :=
      (congrArg Prod.snd (Except.ok.inj hok)).symm
    subst heq
    unfold rangeRegister at hholds
    split_ifs at hholds
    · refine holdsRange_setTracker (fun range hmem hclient => ?_) hholds
      unfold ConsistencyTracker.registerRange at hmem
      split_ifs at hmem
      · exact hmem
      · rcases List.mem_append.mp hmem with hmem | hmem
        · exact hmem
        · -- the new entry is of the client that registers
          rw [List.mem_singleton.mp hmem] at hclient
          exact absurd hclient hreg
    · refine hholds.of_ranges fun range hmem => ?_
      rw [object_getObject] at hmem
      exact hmem
  | rangeUnregister tcpClientId id' rangeId offset size write =>
    have heq : s' = (s.rangeUnregister tcpClientId id' rangeId offset size write).2 :=
      (congrArg Prod.snd (Except.ok.inj hok)).symm
    subst heq
    unfold rangeUnregister at hholds
    split_ifs at hholds
    · exact holdsRange_setTracker (fun range hmem _ => List.mem_of_mem_erase hmem) hholds
    · refine hholds.of_ranges fun range hmem => ?_
      rw [object_getObject] at hmem
      exact hmem
  | clientDisconnect tcpClientId =>
    obtain ⟨-, rfl⟩ := Prod.mk.inj (Except.ok.inj hok)
    refine hholds.of_ranges fun range hmem => ?_
    dsimp only at hmem
    rw [object_onClientDisconnect] at hmem
    exact (List.mem_filter.mp hmem).1
  | eagerWrite w => exact absurd trivial hp
  | rdmaWrite w => exact absurd trivial hp
  | rdmaDone number => exact absurd trivial hp
  | rdmaFail number landed => exact absurd trivial hp
  | read id' offset size uninitialised => exact absurd trivial hp
  | flush id' offset size => exact absurd trivial hp
  | create id' => exact absurd trivial hp

end Server

namespace Network

open Server

/-- The loop over the objects has not gone by `key` yet. -/
def TcpThread.Ahead (key : ObjectId) : TcpThread → Prop
  | .waiting | .leaving _ => True
  | .visiting _ pos => pos ≤ key
  | .visited _ pos => pos < key

/-- A request registers for no other client than the one that was checked. -/
theorem eq_of_registers {id : UInt64} {client : Nat} {e : Event} (h : RequestOf id e)
    (hreg : Registers client e) : client = id.toNat := by
  cases e with
  | rangeRegister tcpClientId id' offset size write => exact (show _ = _ from hreg).symm.trans h
  | _ => exact hreg.elim

theorem not_registers_of_completion {e : Event} (h : IsCompletion e) (client : Nat) :
    ¬ Registers client e := by
  cases e with
  | rangeRegister tcpClientId id' offset size write => exact h.elim
  | _ => exact id

namespace Threads

variable {μ σ : Type} {B : Backends μ σ} {t t' t₀ : Threads μ σ}

-- ---------------------------------------------------------------------------
-- The invariant
-- ---------------------------------------------------------------------------

/-- The client has left the registry: its disconnection is being handled, or has
been. -/
def Left (t : Threads μ σ) (id : UInt64) : Prop := t.tcp.client = some id ∨ id ∈ t.gone

/-- A client that left has no registration to come, and none behind the loop. -/
structure Forgotten (B : Backends μ σ) (t : Threads μ σ) : Prop where
  wf      : Wf B 1 t.server.container
  unknown : ∀ {id}, t.Left id → t.clients id = none
  unasked : ∀ {id e}, t.Left id → t.request = some e → ¬ Registers id.toNat e
  gone    : ∀ {id}, id ∈ t.gone → ∀ key, ¬ t.server.HoldsRange id.toNat key
  loop    : ∀ {id key}, t.tcp.client = some id → t.server.HoldsRange id.toNat key →
    t.tcp.Ahead key

/-- The steps the result is about: no client leaves between the check and the
hook of a registration of its own, and no client gets the id of one that is
gone. -/
def Undisturbed (t : Threads μ σ) : ThreadEvent → Prop
  | .disconnectClient id => ∀ e ∈ t.request, ¬ Registers id.toNat e
  | .registerClient _ => t.nextId ∉ t.gone
  | _ => True

theorem forgotten_new {A : Nat} {check : Bool} {s : Server μ σ} (h : Initial B A check s) :
    Forgotten B (Threads.new s) := by
  have hleft : ∀ {id}, ¬ (Threads.new s).Left id := by
    rintro id (hclient | hgone)
    · exact absurd hclient (by simp [Threads.new, TcpThread.client])
    · exact absurd hgone List.not_mem_nil
  exact ⟨h.wf, fun hl => absurd hl hleft, fun hl => absurd hl hleft,
    fun hg => absurd (Or.inr hg) hleft, fun hc => absurd (Or.inl hc) hleft⟩

-- ---------------------------------------------------------------------------
-- One step
-- ---------------------------------------------------------------------------

theorem run_ok {e : Event} (h : t.run B e = .ok t') :
    ∃ s, t.server.Step B e s ∧ t' = { t with server := s, request := none } := by
  unfold run at h
  split at h
  · rename_i s hs
    exact ⟨s, step_of_next hs, (Except.ok.inj h).symm⟩
  · exact absurd h (by simp)

/-- The network thread runs an event that registers for no client that left. -/
theorem Forgotten.run {e : Event} (h : Forgotten B t) (hrun : t.run B e = .ok t')
    (hreg : ∀ {id}, t.Left id → ¬ Registers id.toNat e) : Forgotten B t' := by
  obtain ⟨s, hstep, rfl⟩ := run_ok hrun
  refine ⟨wf_step h.wf (stepOk_one _ e) hstep, h.unknown, fun _ hr => absurd hr (by simp), ?_, ?_⟩
  · intro id hgone key hholds
    exact h.gone hgone key (holdsRange_step h.wf hstep hholds (hreg (Or.inr hgone)))
  · intro id key hclient hholds
    exact h.loop hclient (holdsRange_step h.wf hstep hholds (hreg (Or.inl hclient)))

/-- The iterator moves, or the loop ends: no object with a registration of the
client is skipped. -/
theorem Forgotten.loopTo {id : UInt64} {next : Option ObjectId} (h : Forgotten B t)
    (hclient : t.tcp.client = some id)
    (hnext : ∀ {key}, t.server.HoldsRange id.toNat key → ∃ n, next = some n ∧ n ≤ key) :
    Forgotten B (t.loopTo id next) := by
  cases next with
  | some key =>
    refine ⟨h.wf, fun hl => h.unknown ?_, fun hl => h.unasked ?_, h.gone, ?_⟩
    · exact hl.imp_left hclient.trans
    · exact hl.imp_left hclient.trans
    · intro id' key' hid hholds
      obtain rfl : id = id' := Option.some.inj hid
      obtain ⟨n, hn, hle⟩ := hnext hholds
      rw [Option.some.inj hn]
      exact hle
  | none =>
    have hleft : ∀ {id'}, (t.loopTo id none).Left id' → t.Left id' := by
      rintro id' (hc | hg)
      · exact absurd hc (by simp [Threads.loopTo, TcpThread.client])
      · rcases List.mem_cons.mp hg with rfl | hg
        · exact Or.inl hclient
        · exact Or.inr hg
    refine ⟨h.wf, fun hl => h.unknown (hleft hl), fun hl => h.unasked (hleft hl), ?_, ?_⟩
    · intro id' hg key hholds
      rcases List.mem_cons.mp hg with rfl | hg
      · obtain ⟨n, hn, -⟩ := hnext hholds
        exact absurd hn (by simp)
      · exact h.gone hg key hholds
    · intro id' key hc
      exact absurd hc (by simp [Threads.loopTo, TcpThread.client])

/-- The registrations of the client at the object of the iterator are removed. -/
theorem Forgotten.clientDisconnect {id : UInt64} {key : ObjectId} (h : Forgotten B t)
    (htcp : t.tcp = .visiting id key) :
    Forgotten B { t with
      server := t.server.setTracker key
        ((t.server.container.object key).consistencyTracker.clientDisconnect id.toNat)
      tcp := .visited id key } := by
  have hsub : ∀ {client key'}, (t.server.setTracker key ((t.server.container.object
      key).consistencyTracker.clientDisconnect id.toNat)).HoldsRange client key' →
      t.server.HoldsRange client key' := fun hholds =>
    holdsRange_setTracker (fun range hmem _ => (List.mem_filter.mp hmem).1) hholds
  have hclient : t.tcp.client = some id := by rw [htcp]; rfl
  refine ⟨h.wf.of_objects (segments_setTracker t.server key _) rfl rfl,
    fun hl => h.unknown (hl.imp_left hclient.trans),
    fun hl => h.unasked (hl.imp_left hclient.trans), ?_, ?_⟩
  · intro id' hg key' hholds
    exact h.gone hg key' (hsub hholds)
  · intro id' key' hid hholds
    obtain rfl : id = id' := Option.some.inj hid
    have hle : t.tcp.Ahead key' := h.loop hclient (hsub hholds)
    rw [htcp] at hle
    refine lt_of_le_of_ne hle ?_
    -- at the object itself nothing of the client is left
    rintro rfl
    obtain ⟨range, hmem, hrange⟩ := hholds
    unfold setTracker at hmem
    rw [object_setObject_self] at hmem
    exact absurd hrange (of_decide_eq_true (List.mem_filter.mp hmem).2)

/-- **Every undisturbed step keeps the invariant.** -/
theorem forgotten_step {e : ThreadEvent} (h : Forgotten B t) (hund : t.Undisturbed e)
    (hstep : Step B t e t') : Forgotten B t' := by
  unfold Step exec at hstep
  cases e with
  | checkIdentification id key e =>
    dsimp only at hstep
    split_ifs at hstep with hcan hauth
    · -- the client is registered, so it is none of those that left
      rw [← Except.ok.inj hstep]
      refine ⟨h.wf, h.unknown, fun {id' e'} hl hr hreg => ?_, h.gone, h.loop⟩
      rw [← Option.some.inj hr] at hreg
      obtain rfl : id' = id := UInt64.toNat_inj.mp (eq_of_registers hcan.2 hreg)
      have hsome : t.clients id' = some key := of_decide_eq_true hauth
      rw [h.unknown hl] at hsome
      exact absurd hsome (by simp)
    · rw [← Except.ok.inj hstep]
      exact h
  | onMessage =>
    dsimp only at hstep
    split at hstep
    · rename_i e hrequest
      exact h.run hstep fun hl => h.unasked hl hrequest
    · exact absurd hstep (by simp)
  | completion e =>
    dsimp only at hstep
    split_ifs at hstep with hcan
    exact h.run hstep fun _ => not_registers_of_completion hcan.2 _
  | registerClient key =>
    dsimp only at hstep
    split_ifs at hstep with htcp hnew
    rw [← Except.ok.inj hstep]
    refine ⟨h.wf, fun {id} hl => ?_, h.unasked, h.gone, h.loop⟩
    have hne : id ≠ t.nextId := by
      rintro rfl
      rcases hl with hc | hg
      · rw [htcp] at hc
        exact absurd hc (by simp [TcpThread.client])
      · exact hund hg
    exact (if_neg hne).trans (h.unknown hl)
  | disconnectClient id =>
    dsimp only at hstep
    split_ifs at hstep with htcp hknown
    rw [← Except.ok.inj hstep]
    refine ⟨h.wf, fun {id'} hl => ?_, fun {id' e} hl hr => ?_, h.gone, fun _ _ => trivial⟩
    · dsimp only
      split_ifs with hid
      · rfl
      · refine h.unknown (Or.inr (hl.resolve_left fun hc => hid ?_))
        exact (Option.some.inj hc).symm
    · rcases hl with hc | hg
      · obtain rfl : id = id' := Option.some.inj hc
        exact hund e hr
      · exact h.unasked (Or.inr hg) hr
  | loopBegin =>
    dsimp only at hstep
    split at hstep
    · rename_i id htcp
      rw [← Except.ok.inj hstep]
      refine h.loopTo (by rw [htcp]; rfl) fun hholds => ?_
      exact OrderedMap.first?_le hholds.hasObject
    · exact absurd hstep (by simp)
  | clientDisconnect =>
    dsimp only at hstep
    split at hstep
    · rename_i id key htcp
      rw [← Except.ok.inj hstep]
      exact h.clientDisconnect htcp
    · exact absurd hstep (by simp)
  | loopNext =>
    dsimp only at hstep
    split at hstep
    · rename_i id key htcp
      have hclient : t.tcp.client = some id := by rw [htcp]; rfl
      rw [← Except.ok.inj hstep]
      refine h.loopTo hclient fun hholds => OrderedMap.next?_le hholds.hasObject ?_
      have hahead := h.loop hclient hholds
      rw [htcp] at hahead
      exact hahead
    · exact absurd hstep (by simp)

-- ---------------------------------------------------------------------------
-- Whole runs
-- ---------------------------------------------------------------------------

/-- **No registration outlives its client.** In every interleaving of the two
threads in which no client leaves between the check and the hook of a
registration of its own, and no id is given twice: once the disconnection of a
client is handled, no tracker contains a range of that client, ever again. -/
theorem no_range_of_gone {A : Nat} {s : Server μ σ} (hinit : Initial B A true s)
    (hrun : Run (Step B) Undisturbed (Threads.new s) t) :
    ∀ id ∈ t.gone, ∀ key, ¬ t.server.HoldsRange id.toNat key := by
  have h : Forgotten B t := hrun.invariant (forgotten_new hinit) forgotten_step
  exact fun id hgone => h.gone hgone

-- ---------------------------------------------------------------------------
-- A client that leaves, and one that leaves too early
-- ---------------------------------------------------------------------------

instance (t : Threads μ σ) (e : ThreadEvent) : Decidable (t.Undisturbed e) :=
  match e with
  | .disconnectClient _ => inferInstanceAs (Decidable (∀ e ∈ t.request, _))
  | .registerClient _ => inferInstanceAs (Decidable (_ ∉ t.gone))
  | .checkIdentification .. | .onMessage | .completion _ | .loopBegin | .clientDisconnect
  | .loopNext => isTrue trivial

/-- Client 0 asks for the first eight bytes of object 2. -/
def firstRegister : Event := .rangeRegister 0 ⟨1, 2⟩ 0 8 true

/-- The client leaves after its registration: the loop finds it. -/
def orderlyEvents : List ThreadEvent :=
  [.registerClient 7, .checkIdentification 0 7 firstRegister, .onMessage, .disconnectClient 0,
    .loopBegin, .clientDisconnect, .loopNext]

/-- The client leaves between the check and the hook. Object 2 is there and the
loop visits it. -/
def disturbedEvents : List ThreadEvent :=
  [.registerClient 7, .checkIdentification 0 7 (.create ⟨1, 2⟩), .onMessage,
    .checkIdentification 0 7 firstRegister, .disconnectClient 0, .loopBegin, .clientDisconnect,
    .loopNext, .onMessage]

theorem orderly_no_range : ∃ t,
    Run (Step localBackends) Undisturbed (Threads.new checkingServer) t ∧ t.gone = [0] ∧
    ∀ id ∈ t.gone, ∀ key, ¬ t.server.HoldsRange id.toNat key := by
  obtain ⟨t, hrun, hgone⟩ := run_of_trace localBackends Undisturbed orderlyEvents
    (Threads.new checkingServer) (p := fun t => t.gone = [0]) (by decide)
  exact ⟨t, hrun, hgone, no_range_of_gone initial_checkingServer hrun⟩

/-- **A registration that outlives its client.** -/
theorem range_outlives_client :
    ¬ ∀ (s : Server Malloc (ObjectId → Bytes)) (t : Threads Malloc (ObjectId → Bytes)),
      Initial localBackends 0 true s →
      Run (Step localBackends) (fun _ _ => True) (Threads.new s) t →
      ∀ id ∈ t.gone, ∀ key, ¬ t.server.HoldsRange id.toNat key := by
  intro hall
  obtain ⟨t, hrun, hgone, hholds⟩ := run_of_trace localBackends (fun _ _ => True)
    disturbedEvents (Threads.new checkingServer)
    (p := fun t => t.gone = [0] ∧ t.server.HoldsRange 0 ⟨1, 2⟩) (by decide)
  refine hall checkingServer t initial_checkingServer hrun 0 ?_ ⟨1, 2⟩ hholds
  rw [hgone]
  exact List.mem_singleton_self 0

end Threads

end Network

end IoCatcher
