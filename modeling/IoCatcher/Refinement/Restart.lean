import IoCatcher.Refinement.Service

/-!
# IO Catcher — clients and a server that dies

When the server dies its clients die with it: a new server is started on the storage that is
left, and new clients join. The old server may have been in the middle of a flush.

For a client this comes down to what `obj_flush` means: when it has returned, what the server
showed when it made the request is in the storage, and comes back after any number of restarts,
as far as no later request wrote over it (`durable_of_answer`).
-/

namespace IoCatcher.Client

open Wire Network

variable {μ σ : Type} {B : Backends μ σ} {A : Nat} {check : Bool}

-- ---------------------------------------------------------------------------
-- Lives
-- ---------------------------------------------------------------------------

/-- What happens to a service whose server may die. -/
inductive Happening where
  | act (l : Act)
  | restart (cut : Option FlushCut)

/-- The label of a restart. -/
def Happening.IsRestart : Happening → Prop
  | .act _ => False
  | .restart _ => True

/-- A server without clients, on this storage. -/
def System.Started (B : Backends μ σ) (A : Nat) (check : Bool) (storage : σ) (s : System μ σ) :
    Prop :=
  ∃ server checkClientAuth recvBuffers fiAvInsert, Server.Initial B A check server ∧
    server.container.storage = storage ∧
    s = System.new server checkClientAuth recvBuffers fiAvInsert

/-- One step of the server and its clients, or a restart. -/
def System.Lives (B : Backends μ σ) (A : Nat) (check : Bool) (s : System μ σ) (h : Happening)
    (s' : System μ σ) : Prop :=
  match h with
  | .act l => System.RunsOrderly B A s l s'
  | .restart cut => s'.Started B A check (s.server.server.storageAt B cut)

/-- The server makes the request that a flush asks for. -/
def FlushedIn (B : Backends μ σ) (A : Nat) (check : Bool) (s₀ : System μ σ) (hs : List Happening)
    (s : System μ σ) (a : Address) (objectId : LibfabricObjectId) (offset size : UInt64)
    (reply : Reply) : Prop :=
  Trace.Takes (System.Lives B A check) s₀ hs s fun _ h _ =>
    h = .act (.serve a (.flush (objectOf objectId) offset.toNat size.toNat) reply)

/-- The system is the service, and a flush that is answered was made. -/
structure Flushes (B : Backends μ σ) (A : Nat) (check : Bool) (s₀ : System μ σ)
    (hs : List Happening) (s : System μ σ) (v : ObjectService) : Prop where
  refines  : Refines B A s v
  answered : ∀ a objectId offset size reply,
    v.stages a = .answered (.objFlush objectId offset size) reply →
      FlushedIn B A check s₀ hs s a objectId offset size reply
  fetching : ∀ a objectId offset size number,
    v.stages a ≠ .fetching (.objFlush objectId offset size) number

-- ---------------------------------------------------------------------------
-- Steps
-- ---------------------------------------------------------------------------

section

variable {s₀ s s' : System μ σ} {hs : List Happening} {v v' : ObjectService} {h : Happening}

/-- A step in which one client moves. -/
theorem Flushes.update (hv : Flushes B A check s₀ hs s v) (hlives : s.Lives B A check h s')
    (hv' : Refines B A s' v') {a : Address} {stage : Stage}
    (hstages : v'.stages = setStage v.stages a stage)
    (hanswered : ∀ objectId offset size reply,
      stage = .answered (.objFlush objectId offset size) reply →
        FlushedIn B A check s₀ (hs ++ [h]) s' a objectId offset size reply)
    (hfetching : ∀ objectId offset size number,
      stage ≠ .fetching (.objFlush objectId offset size) number) :
    Flushes B A check s₀ (hs ++ [h]) s' v' := by
  refine ⟨hv', fun b objectId offset size reply hb => ?_,
    fun b objectId offset size number hb => ?_⟩
  · rw [hstages] at hb
    rcases setStage_eq hb with ⟨rfl, hnew⟩ | hold
    · exact hanswered objectId offset size reply hnew
    · exact (hv.answered b objectId offset size reply hold).snoc hlives
  · rw [hstages] at hb
    rcases setStage_eq hb with ⟨-, hnew⟩ | hold
    · exact hfetching objectId offset size number hnew
    · exact hv.fetching b objectId offset size number hold

/-- A step in which no client moves. -/
theorem Flushes.same_stages (hv : Flushes B A check s₀ hs s v) (hlives : s.Lives B A check h s')
    (hv' : Refines B A s' v') (hstages : v'.stages = v.stages) :
    Flushes B A check s₀ (hs ++ [h]) s' v' := by
  refine ⟨hv', fun b objectId offset size reply hb => ?_, hstages ▸ hv.fetching⟩
  rw [hstages] at hb
  exact (hv.answered b objectId offset size reply hb).snoc hlives

theorem flushes_act {l : Act} (hv : Flushes B A check s₀ hs s v)
    (ht : Trace (System.Lives B A check) s₀ hs s) (hrun : System.RunsOrderly B A s l s')
    (hstep : v.Step l v') (hv' : Refines B A s' v') :
    Flushes B A check s₀ (hs ++ [.act l]) s' v' := by
  have hlives : s.Lives B A check (.act l) s' := hrun
  cases hstep with
  | internal => exact hv.same_stages hlives hv' rfl
  | disconnect => exact hv.same_stages hlives hv' rfl
  | call | answer => exact hv.update hlives hv' rfl (by simp) (by simp)
  | serve hclient hstage hasks hserves hreply =>
    refine hv.update hlives hv' rfl (fun objectId offset size reply heq => ?_) (by simp)
    obtain ⟨rfl, rfl⟩ := Stage.answered.inj heq
    obtain rfl := hasks
    exact .last ht hlives rfl
  | fetch hclient hstage hasks =>
    refine hv.update hlives hv' rfl (by simp) fun objectId offset size number heq => ?_
    obtain ⟨rfl, -⟩ := Stage.fetching.inj heq
    cases hasks
  | fetched hstage =>
    refine hv.update hlives hv' rfl (fun objectId offset size reply heq => ?_) (by simp)
    obtain ⟨rfl, -⟩ := Stage.answered.inj heq
    exact absurd hstage (hv.fetching _ _ _ _ _)

end

section Steps

variable {sb : StorageBackend σ} (hsb : B.storageBackend = some sb) (hrel : sb.Reliable)
  {s₀ s s' : System μ σ} {hs : List Happening} {v : ObjectService} {h : Happening}

theorem refines_of_started {storage : σ} (hs : s.Started B A check storage) :
    ∃ v, Refines B A s v ∧ v.stages = fun _ => .idle := by
  obtain ⟨server, checkClientAuth, recvBuffers, fiAvInsert, hinit, -, rfl⟩ := hs
  exact ⟨_, refines_start hinit checkClientAuth recvBuffers fiAvInsert, rfl⟩

include hsb hrel

/-- **One step** keeps the relation to the service, and the flushes that are answered. -/
theorem flushes_step (hv : Flushes B A check s₀ hs s v)
    (ht : Trace (System.Lives B A check) s₀ hs s) (hlives : s.Lives B A check h s') :
    ∃ v', Flushes B A check s₀ (hs ++ [h]) s' v' := by
  cases h with
  | act l =>
    obtain ⟨v', hstep, hv'⟩ := refines_step hsb hrel hv.refines hlives
    exact ⟨v', flushes_act hv ht hlives hstep hv'⟩
  | restart cut =>
    obtain ⟨v', hv', hstages⟩ := refines_of_started hlives
    exact ⟨v', hv', by simp [hstages], by simp [hstages]⟩

/-- The server and its clients are a write-back store. -/
theorem system_keeps : WriteBack.Keeps (System.Lives B A check) Happening.IsRestart
    (fun s => (s.server.server.store B).toStore) fun s => ∃ v, Refines B A s v where
  invariant := by
    rintro s h s' ⟨v, hv⟩ hlives
    cases h with
    | act l =>
      obtain ⟨v', -, hv'⟩ := refines_step hsb hrel hv hlives
      exact ⟨v', hv'⟩
    | restart cut =>
      obtain ⟨v', hv', -⟩ := refines_of_started hlives
      exact ⟨v', hv'⟩
  operates := by
    rintro s h s' ⟨v, hv⟩ hlives hno
    cases h with
    | act l =>
      obtain ⟨v', hstep, hv'⟩ := refines_step hsb hrel hv hlives
      rw [← hv.store, ← hv'.store]
      exact hstep.operates
    | restart cut => exact absurd trivial hno
  restarts := by
    rintro s h s' ⟨v, hv⟩ hlives hrestart
    cases h with
    | act l => exact hrestart.elim
    | restart cut =>
      obtain ⟨server, checkClientAuth, recvBuffers, fiAvInsert, hinit, hstorage, rfl⟩ := hlives
      obtain ⟨-, hshown, hkept⟩ := Server.restarts_of_initial hsb hrel hv.backed hinit hstorage
      exact fun k => ⟨congrFun hshown k, (hkept k.1 k.2).imp_right And.right⟩

/-- What makes the store show another byte is a request that writes it. -/
theorem serves_of_puts {object : ObjectId} {x : Nat} {b : UInt8} (hv : Refines B A s v)
    (hlives : s.Lives B A check h s') (hputs : WriteBack.Puts Happening.IsRestart
      (fun s => (s.server.server.store B).toStore) (object, x) b s h s') :
    ∃ a e reply, h = .act (.serve a e reply) ∧ (s.server.server.store B).Writes e object x ∧
      (s'.server.server.store B).shown (object, x) = b := by
  obtain ⟨hno, hshown, hother⟩ := hputs
  cases h with
  | restart cut => exact absurd trivial hno
  | act l =>
    obtain ⟨v', hstep, hv'⟩ := refines_step hsb hrel hv hlives
    have hsame := hstep.sameOutside object x
    rw [hv.store, hv'.store] at hsame
    by_cases hw : ∃ a e reply, l = .serve a e reply ∧
        (s.server.server.store B).Writes e object x
    · obtain ⟨a, e, reply, rfl, hw⟩ := hw
      exact ⟨a, e, reply, rfl, hw, hshown⟩
    · exact absurd ((hsame hw).symm.trans hshown) hother

/-- **A flush that has returned is durable.** In every run of a server and its clients, in which
the server gets requests that it handles and dies and is restarted at any time: when the flush of
a client returns, it returns 0, and the server had made the flush; from then on, through any
number of restarts, what the server shows of the flushed range and what the storage has of it
is what the server showed when it made the flush, or what a later request put there. -/
theorem durable_of_answer (hstart : s₀.Started B A check storage)
    (ht : Trace (System.Lives B A check) s₀ hs s) {a : Address} {p : Session}
    {objectId : LibfabricObjectId} {offset size : UInt64} (hp : s.clients a = some p)
    (hphase : p.phase = .waiting (.objFlush objectId offset size)) {result : Result}
    {s₁ s₂ : System μ σ} (hanswer : System.RunsOrderly B A s (.answer a result) s₁)
    {hs' : List Happening} (ht' : Trace (System.Lives B A check) s₁ hs' s₂) {x : Nat}
    (hx : ObjectStore.InSpan offset.toNat size.toNat x) :
    result.status = 0 ∧ ∃ pre post m m',
      hs = pre ++ .act (.serve a (.flush (objectOf objectId) offset.toNat size.toNat) (.ack 0)) ::
        post ∧ Trace (System.Lives B A check) s₀ pre m ∧
      m.Lives B A check
        (.act (.serve a (.flush (objectOf objectId) offset.toNat size.toNat) (.ack 0))) m' ∧
      ∀ b, b = (s₂.server.server.store B).shown (objectOf objectId, x) ∨
          b = (s₂.server.server.store B).kept (objectOf objectId, x) →
        b = (m.server.server.store B).shown (objectOf objectId, x) ∨
          Trace.Takes (System.Lives B A check) m' (post ++ .act (.answer a result) :: hs') s₂
            fun t l t' => ∃ a' e reply, l = .act (.serve a' e reply) ∧
              (t.server.server.store B).Writes e (objectOf objectId) x ∧
              (t'.server.server.store B).shown (objectOf objectId, x) = b := by
  obtain ⟨v, hv⟩ : ∃ v, Flushes B A check s₀ hs s v := by
    clear hp hanswer
    induction ht with
    | start =>
      obtain ⟨v, hv, hstages⟩ := refines_of_started hstart
      exact ⟨v, hv, by simp [hstages], by simp [hstages]⟩
    | snoc hbefore hlives ih =>
      obtain ⟨v, hv⟩ := ih
      exact flushes_step hsb hrel hv hbefore hlives
  have hk : WriteBack.Keeps (System.Lives B A check) Happening.IsRestart _ _ :=
    system_keeps hsb hrel
  obtain ⟨reply, hstage, rfl⟩ := hv.refines.answered hanswer.1 hp hphase
  obtain ⟨pre, l, post, m, m', rfl, hpre, hlives, hpost, rfl⟩ :=
    hv.answered a objectId offset size reply hstage
  obtain ⟨w, hw⟩ : ∃ w, Refines B A m w := by
    obtain ⟨w, hw, -⟩ := refines_of_started hstart
    exact hpre.invariant ⟨w, hw⟩ hk.invariant
  obtain ⟨-, hserves, -⟩ := serves_of_runs hsb hrel hw.backed hlives
  obtain rfl := hserves.1
  have hshown : (m'.server.server.store B).shown (objectOf objectId, x) =
    (m.server.server.store B).shown (objectOf objectId, x) := congrFun hserves.2.1 _
  have hreturns : System.Lives B A check s
    (.act (.answer a ((Call.objFlush objectId offset size).result (.ack 0)))) s₁ := hanswer
  have hlater := hpost.trans ((Trace.single hreturns).trans ht')
  have hm' := hk.invariant ⟨w, hw⟩ hlives
  refine ⟨rfl, pre, post, m, m', rfl, hpre, hlives, fun b hb => ?_⟩
  rcases WriteBack.known_of_saved hk hm' hlater (hserves.saved hx) hb with hsame | htakes
  · exact Or.inl (hsame.trans hshown)
  · refine Or.inr (htakes.mono fun {pre t l t'} hbefore hstep hputs => ?_)
    obtain ⟨u, hu⟩ := hbefore.invariant hm' hk.invariant
    exact serves_of_puts hsb hrel hu hstep hputs

end Steps

-- ---------------------------------------------------------------------------
-- A write and a flush
-- ---------------------------------------------------------------------------

/-- A client writes and flushes; the answer to the flush is on its way. -/
def flushMoves : List Move :=
  [.tcpConnect 7 9, .start firstAddress 7 9, .receive 0 0, .joined 0,
    .call firstAddress (.objWrite ⟨1, 1⟩ (fun _ => 7) 2 2 noIov), .receive 0 1, .answer 0,
    .call firstAddress (.objFlush ⟨1, 1⟩ 0 0), .receive 0 2]

/-- The requests of the sample are small, and the flush finds no write in flight. -/
def flushRequests (s : System Malloc (ObjectId → Bytes)) (l : Act) : Bool :=
  l.made.all fun r => match r.1 with
    | .eagerWrite w => alignedEnd 8 w.offset w.size < 2 ^ 64
    | .flush _ offset size => (offset + size < 2 ^ 64 : Bool) && s.server.server.pending.isEmpty
    | _ => false

theorem runsOrderly_of_flushRequests {s s' : System Malloc (ObjectId → Bytes)} {l : Act}
    (h : System.Runs localBackends s l s' ∧ flushRequests s l = true) :
    System.RunsOrderly localBackends 8 s l s' := by
  refine ⟨h.1, ?_⟩
  rintro ⟨e, reply⟩ hr
  have hsmall := List.all_eq_true.mp h.2 _ hr
  cases e with
  | eagerWrite w => exact of_decide_eq_true (p := alignedEnd 8 w.offset w.size < 2 ^ 64) hsmall
  | flush id offset size =>
    obtain ⟨hend, hempty⟩ := Bool.and_eq_true_iff.mp hsmall
    refine ⟨of_decide_eq_true hend, fun p hp => ?_⟩
    rw [List.isEmpty_iff.mp hempty] at hp
    cases hp
  | _ => cases hsmall

/-- The flush of the sample. -/
def isSampleFlush : Call → Bool
  | .objFlush objectId offset size => objectId = ⟨1, 1⟩ ∧ offset = 0 ∧ size = 0
  | _ => false

theorem flush_of_isSampleFlush {k : Call} (h : isSampleFlush k = true) :
    k = .objFlush ⟨1, 1⟩ 0 0 := by
  unfold isSampleFlush at h
  split at h
  · obtain ⟨rfl, rfl, rfl⟩ := of_decide_eq_true h
    rfl
  · cases h

/-- The flush returns, and the server is started again on its storage. -/
theorem durable_of_restart : ∃ hs s₁ s₂ result,
    Trace (System.Lives localBackends 8 false) sampleSystem hs s₁ ∧
      s₂.Started localBackends 8 false s₁.server.server.container.storage ∧
      result.status = 0 ∧ ∃ m m', System.Lives localBackends 8 false m
        (.act (.serve firstAddress (.flush ⟨1, 1⟩ 0 0) (.ack 0))) m' ∧
      ((s₂.server.server.store localBackends).shown (⟨1, 1⟩, 3) =
          (m.server.server.store localBackends).shown (⟨1, 1⟩, 3) ∨
        ∃ post, Trace.Takes (System.Lives localBackends 8 false) m'
          (post ++ [.act (.answer firstAddress result), .restart none]) s₂ fun t l _ =>
            ∃ a e reply, l = .act (.serve a e reply) ∧
              (t.server.server.store localBackends).Writes e ⟨1, 1⟩ 3) := by
  obtain ⟨⟨ls, s⟩, hrun, hflush⟩ := Option.bind_eq_some_iff.mp
    (show ((sampleSystem.schedule localBackends flushRequests flushMoves).bind fun r =>
      (r.2.perform localBackends (.answer 0)).map fun t =>
        (decide (r.2.server.nextEndpointId.toNat < 2 ^ 32), t.1.statusAt firstAddress,
          (r.2.clients firstAddress).map (Session.waitsFor isSampleFlush))) =
            some (true, some 0, some true) by decide +kernel)
  obtain ⟨⟨l, s₁⟩, hstep, hsample⟩ := Option.map_eq_some_iff.mp hflush
  obtain ⟨hlt, hsample⟩ := Prod.mk.inj hsample
  obtain ⟨hstatus, hwaits⟩ := Prod.mk.inj hsample
  obtain ⟨p, hp, hwaits⟩ := Option.map_eq_some_iff.mp hwaits
  obtain ⟨k, hphase, hkind⟩ := Session.phase_of_waitsFor hwaits
  obtain rfl := flush_of_isSampleFlush hkind
  obtain ⟨result, rfl⟩ := Act.answer_of_statusAt hstatus
  have htrace : Trace (System.Lives localBackends 8 false) sampleSystem (ls.map .act) s :=
    ((System.trace_of_schedule hrun).mono runsOrderly_of_flushRequests).map Happening.act
      fun h => h
  have hanswer : System.RunsOrderly localBackends 8 s (.answer firstAddress result) s₁ :=
    ⟨⟨of_decide_eq_true hlt, System.step_of_perform hstep⟩, fun r hr => by cases hr⟩
  have hstarted : System.Started localBackends 8 false s₁.server.server.container.storage
      (.new (.new (.new 8 (Memory.fresh 3) s₁.server.server.container.storage) false) true
        (fun _ _ => 0) fun _ => true) :=
    ⟨_, true, _, _, ⟨_, _, Memory.valid_fresh 3, rfl, rfl⟩, rfl, rfl⟩
  have hrestart : s₁.Lives localBackends 8 false (.restart none) _ := hstarted
  obtain ⟨hzero, pre, post, m, m', -, -, hflushed, hback⟩ := durable_of_answer rfl
    byteStore_reliable ⟨_, true, _, _, Server.initial_localServer 8 9, rfl, rfl⟩ htrace hp hphase
    hanswer (.single hrestart) (x := 3) (Or.inl rfl)
  have hreturned : System.Lives localBackends 8 false s (.act (.answer firstAddress result)) s₁ :=
    hanswer
  refine ⟨_, s₁, _, result, htrace.snoc hreturned, hstarted, hzero, m, m', hflushed, ?_⟩
  rcases hback _ (Or.inl rfl) with hsame | htakes
  · exact Or.inl hsame
  · refine Or.inr ⟨post, htakes.mono fun {pre t l t'} _ _ hput => ?_⟩
    obtain ⟨a, e, reply, hl, hwrites, -⟩ := hput
    exact ⟨a, e, reply, hl, hwrites⟩

end IoCatcher.Client
