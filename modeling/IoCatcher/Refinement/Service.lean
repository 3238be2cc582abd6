import IoCatcher.Client.Calls
import IoCatcher.Refinement.Server

/-!
# IO Catcher — the service

What the server and its clients are together, without messages, endpoints, transfers and
buffers: an object store that any number of clients use, each with one call at a time.
`ObjectService.Step` says what a call may do. It takes effect on the store at one moment between
its start and its return; a write that the server fetches has two, one where it is opened and
one where it lands. What the call returns is what the store replied.

* `refines_step`     — the system simulates the service, as long as the server only gets
  requests that it handles (`Orderly`);
* `service_of_trace` — so every run is a run of the service.
-/

namespace IoCatcher.Client

open Wire Network

-- ---------------------------------------------------------------------------
-- The service
-- ---------------------------------------------------------------------------

/-- The objects, the clients with the process each of them belongs to, and how far each is. -/
structure ObjectService where
  store   : ObjectStore
  clients : Address → Option UInt64
  stages  : Address → Stage

namespace ObjectService

/-- One client moves, and the store with it. -/
def moves (v : ObjectService) (a : Address) (stage : Stage) (store : ObjectStore) :
    ObjectService :=
  { v with store := store, stages := setStage v.stages a stage }

/-- What may happen. -/
inductive Step (v : ObjectService) : Act → ObjectService → Prop where
  | internal {clients : Address → Option UInt64}
      (hclients : ∀ a id, v.clients a = some id → clients a = some id) :
      Step v .internal { v with clients := clients }
  | call {a : Address} {id : UInt64} {k : Call} (hclient : v.clients a = some id)
      (hstage : v.stages a = .idle) : Step v (.call a k) (v.moves a (.called k) v.store)
  | serve {a : Address} {id : UInt64} {k : Call} {e : Event} {reply : Reply}
      {store : ObjectStore} (hclient : v.clients a = some id) (hstage : v.stages a = .called k)
      (hasks : k.Asks id e) (hserves : v.store.Serves e reply store) (hreply : reply ≠ .nothing) :
      Step v (.serve a e reply) (v.moves a (.answered k reply) store)
  /-- A write is opened. -/
  | fetch {a : Address} {id : UInt64} {k : Call} {w : WriteRequest} {number : Nat}
      {store : ObjectStore} (hclient : v.clients a = some id) (hstage : v.stages a = .called k)
      (hasks : k.Asks id (.rdmaWrite w)) (hserves : v.store.Serves (.rdmaWrite w) .nothing store)
      (hopened : store.opened = v.store.opened ++ [(number, w)]) :
      Step v (.serve a (.rdmaWrite w) .nothing) (v.moves a (.fetching k number) store)
  /-- The write that the call opened lands. -/
  | fetched {a : Address} {k : Call} {number : Nat} {store : ObjectStore}
      (hstage : v.stages a = .fetching k number)
      (hserves : v.store.Serves (.rdmaDone number) (.ack 0) store) :
      Step v (.serve a (.rdmaDone number) (.ack 0)) (v.moves a (.answered k (.ack 0)) store)
  | answer {a : Address} {k : Call} {reply : Reply} (hstage : v.stages a = .answered k reply) :
      Step v (.answer a (k.result reply)) (v.moves a .idle v.store)
  | disconnect {id : UInt64} {store : ObjectStore}
      (hserves : v.store.Serves (.clientDisconnect id.toNat) .nothing store) :
      Step v (.disconnect id) { v with store := store }

/-- The service with these objects, before any client. -/
def ofStorage (kept : ObjectId × Nat → UInt8) : ObjectService :=
  ⟨.ofStorage kept, fun _ => none, fun _ => .idle⟩

section

variable {v v' : ObjectService} {l : Act}

/-- The service changes nothing but what the request writes. -/
theorem Step.sameOutside (h : v.Step l v') :
    ObjectStore.SameOutside (fun object x => ∃ a e reply, l = .serve a e reply ∧
      v.store.Writes e object x) v.store v'.store := by
  intro object x hx
  cases h with
  | internal | call | answer => rfl
  | serve _ _ _ hserves =>
    exact hserves.sameOutside object x fun hw => hx ⟨_, _, _, rfl, hw⟩
  | fetch _ _ _ hserves =>
    exact hserves.sameOutside object x fun hw => hx ⟨_, _, _, rfl, hw⟩
  | fetched _ hserves => exact hserves.sameOutside object x fun hw => hx ⟨_, _, _, rfl, hw⟩
  | disconnect hserves => exact hserves.sameOutside object x fun hw => hw

/-- The service keeps nothing but what it shows. -/
theorem Step.operates (h : v.Step l v') :
    WriteBack.Operates v.store.toStore v'.store.toStore := by
  cases h with
  | internal | call | answer => exact fun _ => Or.inl rfl
  | serve _ _ _ hserves => exact hserves.operates
  | fetch _ _ _ hserves => exact hserves.operates
  | fetched _ hserves => exact hserves.operates
  | disconnect hserves => exact hserves.operates

end

end ObjectService

-- ---------------------------------------------------------------------------
-- The simulation
-- ---------------------------------------------------------------------------

variable {μ σ : Type} {B : Backends μ σ} {A : Nat}

/-- A step in which the server only makes requests that it handles. -/
def System.RunsOrderly (B : Backends μ σ) (A : Nat) (s : System μ σ) (l : Act)
    (s' : System μ σ) : Prop :=
  System.Runs B s l s' ∧ ∀ r ∈ l.made, Server.Orderly B A s.server.server r.1

/-- The system is the service: each client is where the service has it, and the store is the
one of the server. No call is lost, and each read got as much as it asked for. -/
structure Refines (B : Backends μ σ) (A : Nat) (s : System μ σ) (v : ObjectService) : Prop where
  sound   : s.Sound v.stages
  backed  : Server.Backed B A s.server.server
  store   : v.store = s.server.server.store B
  clients : ∀ a, v.clients a = s.owner a
  found   : ∀ a k, v.stages a ≠ .lost k
  whole   : ∀ a k r, v.stages a = .answered k (.eager r) → r.data.length = k.readSize

section

variable {s s' : System μ σ} {v : ObjectService} {a : Address}

/-- A client that nothing happens to stays where it is. -/
theorem stage_of_none {stages stages' : Address → Stage} {l : Act}
    (hmoves : ∀ a, (s.clients a = none → l.at a = none ∧ stages' a = stages a) ∧
      ∀ p, s.clients a = some p → Stage.Moves (Starts B s.server.server) p.identity.tcpClientId
        (stages a) (l.at a) (stages' a))
    (hl : l.at a = none) : stages' a = stages a := by
  cases hp : s.clients a with
  | none => exact ((hmoves a).1 hp).2
  | some p =>
    have hmove := (hmoves a).2 p hp
    rw [hl] at hmove
    exact hmove

/-- The one client that moves in a step. -/
theorem stages_of_moves {stages stages' : Address → Stage} {l : Act}
    (hmoves : ∀ a, (s.clients a = none → l.at a = none ∧ stages' a = stages a) ∧
      ∀ p, s.clients a = some p → Stage.Moves (Starts B s.server.server) p.identity.tcpClientId
        (stages a) (l.at a) (stages' a))
    (hl : ∀ b, b ≠ a → l.at b = none) : stages' = setStage stages a (stages' a) := by
  funext b
  by_cases hb : b = a
  · rw [hb]
    exact (if_pos rfl).symm
  · exact (stage_of_none hmoves (hl b hb)).trans (if_neg hb).symm

/-- The client that something happens to is there. -/
theorem moves_at {stages stages' : Address → Stage} {l : Act} {d : Doing}
    (hmoves : ∀ a, (s.clients a = none → l.at a = none ∧ stages' a = stages a) ∧
      ∀ p, s.clients a = some p → Stage.Moves (Starts B s.server.server) p.identity.tcpClientId
        (stages a) (l.at a) (stages' a))
    (hl : l.at a = some d) : ∃ id, s.owner a = some id ∧
      Stage.Step (Starts B s.server.server) id (stages a) d (stages' a) := by
  cases hp : s.clients a with
  | none =>
    have hno := ((hmoves a).1 hp).1
    rw [hl] at hno
    cases hno
  | some p =>
    have hmove := (hmoves a).2 p hp
    rw [hl] at hmove
    exact ⟨_, by rw [System.owner, hp, Option.map_some], hmove⟩

/-- A call that returns had been answered, and returns the reply. -/
theorem Refines.answered (h : Refines B A s v) {result : Result}
    (hrun : System.Runs B s (.answer a result) s') {p : Session} {k : Call}
    (hp : s.clients a = some p) (hphase : p.phase = .waiting k) :
    ∃ reply, v.stages a = .answered k reply ∧ result = k.result reply := by
  obtain ⟨stages', -, hmoves⟩ := sound_step h.sound hrun
  obtain ⟨id, -, hstep⟩ := moves_at hmoves (d := .answer result) (if_pos rfl)
  generalize hstage : v.stages a = stage at hstep
  generalize stages' a = stage' at hstep
  cases hstep with
  | answer =>
    rename_i k' reply
    have hflight := h.sound.flight a p hp
    rw [hstage] at hflight
    generalize s.load a = load at hflight
    obtain rfl : k' = k := by
      cases hflight with
      | pushing _ hsame => exact Phase.waiting.inj (hsame.symm.trans hphase)
      | answered _ hsame => exact Phase.waiting.inj (hsame.symm.trans hphase)
    exact ⟨reply, rfl, rfl⟩

/-- The relation after a step of one client. -/
theorem Refines.of_one (h : Refines B A s v) {stages' : Address → Stage} {stage : Stage}
    {store : ObjectStore} (hsound : s'.Sound stages')
    (hstages : stages' = setStage v.stages a stage)
    (hbacked : Server.Backed B A s'.server.server) (hstore : store = s'.server.server.store B)
    (howner : ∀ b, s'.owner b = s.owner b) (hfound : ∀ k, stage ≠ .lost k)
    (hwhole : ∀ k r, stage = .answered k (.eager r) → r.data.length = k.readSize) :
    Refines B A s' (v.moves a stage store) := by
  subst hstages
  refine ⟨hsound, hbacked, hstore, fun b => (h.clients b).trans (howner b).symm,
    fun b k hb => ?_, fun b k r hb => ?_⟩
  · rcases setStage_eq hb with ⟨-, hnew⟩ | hold
    · exact hfound k hnew
    · exact h.found b k hold
  · rcases setStage_eq hb with ⟨-, hnew⟩ | hold
    · exact hwhole k r hnew
    · exact h.whole b k r hold

end

-- ---------------------------------------------------------------------------
-- Requests of clients
-- ---------------------------------------------------------------------------

section

variable {k : Call} {id : UInt64} {e : Event} {reply : Reply} {s s' : Server μ σ}

/-- The data of a read is as long as was asked for, and no longer than a message takes. -/
theorem readSize_of_serves {store store' : ObjectStore} {r : EagerResponse} (hread : k.IsRead)
    (hasks : k.Asks id e) (hserves : store.Serves e (.eager r) store') :
    r.data.length = k.readSize ∧ r.data.length ≤ eagerMaxRead := by
  cases k with
  | objRead objectId size offset iov =>
    obtain ⟨uninitialised, rfl⟩ := hasks
    obtain ⟨-, data, hreply, hlen, -⟩ := hserves
    unfold Server.readAnswer at hreply
    split_ifs at hreply with hsmall
    obtain rfl := Reply.eager.inj hreply
    exact ⟨hlen, hlen.trans_le hsmall⟩
  | _ => exact hread.elim

/-- A write that is not answered is opened, with the number of the write. -/
theorem opened_of_write {w : WriteRequest} (hpos : 0 < w.size)
    (hserves : (s.store B).Serves (.rdmaWrite w) reply (s'.store B))
    (hexec : s.exec B (.rdmaWrite w) = .ok (reply, s')) :
    (s'.store B).opened = (s.store B).opened ++ [(s.started.length, w)] ∧
      (s'.findPending s.started.length).isSome := by
  obtain ⟨hreply, -, -, hopened⟩ := hserves
  obtain ⟨number, -, hopened⟩ | ⟨hzero, -⟩ := hopened
  · obtain ⟨hne, -⟩ | ⟨-, -, hpending⟩ :=
      Server.pending_of_requested (e := .rdmaWrite w) trivial hexec
    · exact absurd hreply hne
    · rcases hpending with hpending | ⟨p, hp, hpending⟩
      · have hlen := congrArg List.length hopened
        simp [Server.store, hpending] at hlen
      · have hboth : (s'.store B).opened = (s.store B).opened ++ [(p.number, p.write)] := by
          simp [Server.store, hpending]
        have hlast := List.append_cancel_left (hboth.symm.trans hopened)
        obtain ⟨-, hw⟩ := Prod.mk.inj (List.singleton_inj.mp hlast)
        refine ⟨by rw [hboth, hp, hw], ?_⟩
        unfold Server.findPending
        rw [List.find?_isSome]
        exact ⟨p, by rw [hpending]; simp, decide_eq_true hp⟩
  · omega

/-- The write of a call that the server fetches has bytes to fetch. -/
theorem write_of_silent (hasks : k.Asks id e) (hexec : s.exec B e = .ok (.nothing, s')) :
    ∃ w, e = .rdmaWrite w ∧ 0 < w.size := by
  cases k with
  | objRead objectId size offset iov =>
    -- a read is never silent
    obtain ⟨uninitialised, rfl⟩ := hasks
    simp only [Server.exec, Server.read] at hexec
    split at hexec
    · cases hexec
    · split_ifs at hexec
      · split at hexec <;> cases hexec
      · cases hexec
  | objWrite objectId buffer size offset iov =>
    obtain ⟨w, ⟨-, -, hsize, -⟩, rfl⟩ := hasks
    by_cases hsmall : size.toNat ≤ eagerMaxWrite
    · rw [if_pos hsmall] at hexec
      obtain ⟨status, hno⟩ := Event.Acked.reply (e := .eagerWrite w) trivial hexec
      cases hno
    · rw [if_neg hsmall]
      exact ⟨w, rfl, by omega⟩
  | _ =>
    obtain rfl := hasks
    obtain ⟨status, hno⟩ := Event.Acked.reply (by trivial) hexec
    cases hno

/-- **Every request of a client is answered or fetched**: the server finds something to
transfer. -/
theorem not_lost (hasks : k.Asks id e) (ho : Server.Orderly B A s e)
    (hexec : s.exec B e = .ok (reply, s')) (hserves : (s.store B).Serves e reply (s'.store B))
    (hlost : reply = .rdma [] ∨ reply = .nothing ∧ s'.findPending s.started.length = none) :
    False := by
  rcases hlost with rfl | ⟨rfl, hnone⟩
  · cases k with
    | objRead objectId size offset iov =>
      obtain ⟨uninitialised, rfl⟩ := hasks
      obtain ⟨-, data, hreply, hlen, -⟩ := hserves
      unfold Server.readAnswer at hreply
      split_ifs at hreply
      obtain rfl := Reply.rdma.inj hreply
      exact absurd hlen (Nat.ne_of_lt ho.2.1)
    | objWrite objectId buffer size offset iov =>
      obtain ⟨w, -, rfl⟩ := hasks
      split_ifs at hserves
      · cases hserves.1
      · cases hserves.1
    | _ =>
      obtain rfl := hasks
      obtain ⟨status, hno⟩ := Event.Acked.reply (by trivial) hexec
      cases hno
  · obtain ⟨w, rfl, hpos⟩ := write_of_silent hasks hexec
    have hsome := (opened_of_write hpos hserves hexec).2
    rw [hnone] at hsome
    cases hsome

end

-- ---------------------------------------------------------------------------
-- Steps
-- ---------------------------------------------------------------------------

section Steps

variable {sb : StorageBackend σ} (hsb : B.storageBackend = some sb) (hrel : sb.Reliable)
  {s s' : System μ σ} {v : ObjectService} {a : Address}

include hsb hrel

/-- The store serves the request that is made for a client. -/
theorem serves_of_runs (h : Server.Backed B A s.server.server) {e : Event} {reply : Reply}
    (hrun : System.RunsOrderly B A s (.serve a e reply) s') :
    s.server.server.exec B e = .ok (reply, s'.server.server) ∧
      (s.server.server.store B).Serves e reply (s'.server.server.store B) ∧
      Server.Backed B A s'.server.server := by
  have hexec : s.server.server.exec B e = .ok (reply, s'.server.server) :=
    (does_step hrun.1).of_singleton
  exact ⟨hexec, Server.serves_of_exec hsb hrel h (hrun.2 _ List.mem_cons_self) hexec⟩

/-- A request of a client is made. -/
theorem refines_serve (h : Refines B A s v) {e : Event} {reply : Reply}
    (hrun : System.RunsOrderly B A s (.serve a e reply) s') :
    ∃ v', v.Step (.serve a e reply) v' ∧ Refines B A s' v' := by
  obtain ⟨hrun, ho⟩ := hrun
  obtain ⟨stages', hsound', hmoves⟩ := sound_step h.sound hrun
  obtain ⟨hexec, hserves, hbacked⟩ := serves_of_runs hsb hrel h.backed ⟨hrun, ho⟩
  have howner := owner_of_act hrun fun hno => by cases hno
  have hstages := stages_of_moves hmoves fun b hb => if_neg (Ne.symm hb)
  obtain ⟨id, hid, hstep⟩ := moves_at hmoves (d := .serve e reply) (if_pos rfl)
  have hclient : v.clients a = some id := (h.clients a).trans hid
  rw [← h.store] at hserves
  generalize hfrom : v.stages a = stage at hstep
  generalize hto : stages' a = stage' at hstep hstages
  cases hstep with
  | serve hasks hreply =>
    refine ⟨_, .serve hclient hfrom hasks hserves hreply, h.of_one hsound' hstages hbacked rfl
      howner (fun _ => by simp) fun k r heq => ?_⟩
    obtain ⟨rfl, rfl⟩ := Stage.answered.inj heq
    obtain ⟨status, hno⟩ | ⟨-, hread⟩ := hasks.reply hexec
    · cases hno
    · exact (readSize_of_serves (hread r rfl) hasks hserves).1
  | fetch hasks hstarts =>
    obtain ⟨w, rfl, hpos⟩ := write_of_silent hasks hexec
    obtain ⟨-, -, -, rfl, -⟩ := hstarts
    have hopened := (opened_of_write hpos (h.store ▸ hserves) hexec).1
    rw [← h.store] at hopened
    exact ⟨_, .fetch hclient hfrom hasks hserves hopened,
      h.of_one hsound' hstages hbacked rfl howner (fun _ => by simp) fun _ _ => by simp⟩
  | fetched =>
    exact ⟨_, .fetched hfrom hserves,
      h.of_one hsound' hstages hbacked rfl howner (fun _ => by simp) fun _ _ => by simp⟩
  | lost hasks hstarts =>
    obtain ⟨t, hexec', hlost⟩ := hstarts
    obtain ⟨-, rfl⟩ := Prod.mk.inj (Except.ok.inj (hexec.symm.trans hexec'))
    exact (not_lost hasks (ho (e, reply) List.mem_cons_self) hexec (h.store ▸ hserves) hlost).elim

/-- **One step of the system is one step of the service.** -/
theorem refines_step {l : Act} (h : Refines B A s v) (hrun : System.RunsOrderly B A s l s') :
    ∃ v', v.Step l v' ∧ Refines B A s' v' := by
  cases l with
  | serve a e reply => exact refines_serve hsb hrel h hrun
  | internal =>
    obtain ⟨hrun, -⟩ := hrun
    obtain ⟨stages', hsound', hmoves⟩ := sound_step h.sound hrun
    have hserver : s'.server.server = s.server.server := (does_step hrun).of_nil
    obtain rfl : stages' = v.stages := funext fun a => stage_of_none hmoves rfl
    refine ⟨{ v with clients := s'.owner }, .internal fun a id hid => ?_, hsound',
      hserver ▸ h.backed, hserver ▸ h.store, fun _ => rfl, h.found, h.whole⟩
    rw [h.clients] at hid
    rcases owner_step hrun a with hsame | ⟨hnone, -⟩
    · exact hsame.trans hid
    · rw [hid] at hnone
      cases hnone
  | disconnect id =>
    obtain ⟨hrun, ho⟩ := hrun
    obtain ⟨stages', hsound', hmoves⟩ := sound_step h.sound hrun
    have hexec : s.server.server.exec B (.clientDisconnect id.toNat) =
      .ok (.nothing, s'.server.server) := (does_step hrun).of_singleton
    obtain ⟨hserves, hbacked⟩ :=
      Server.serves_of_exec hsb hrel h.backed (ho _ List.mem_cons_self) hexec
    rw [← h.store] at hserves
    obtain rfl : stages' = v.stages := funext fun a => stage_of_none hmoves rfl
    refine ⟨_, .disconnect hserves, hsound', hbacked, rfl, fun a => ?_, h.found, h.whole⟩
    exact (h.clients a).trans (owner_of_act hrun (fun hno => by cases hno) a).symm
  | call a k =>
    obtain ⟨hrun, -⟩ := hrun
    obtain ⟨stages', hsound', hmoves⟩ := sound_step h.sound hrun
    have hserver : s'.server.server = s.server.server := (does_step hrun).of_nil
    have howner := owner_of_act hrun fun hno => by cases hno
    have hstages := stages_of_moves hmoves fun b hb => if_neg (Ne.symm hb)
    obtain ⟨id, hid, hstep⟩ := moves_at hmoves (d := .call k) (if_pos rfl)
    generalize hfrom : v.stages a = stage at hstep
    generalize hto : stages' a = stage' at hstep hstages
    cases hstep with
    | call =>
      exact ⟨_, .call ((h.clients a).trans hid) hfrom, h.of_one hsound' hstages
        (hserver ▸ h.backed) (hserver ▸ h.store) howner (fun _ => by simp) fun _ _ => by simp⟩
  | answer a result =>
    obtain ⟨hrun, -⟩ := hrun
    obtain ⟨stages', hsound', hmoves⟩ := sound_step h.sound hrun
    have hserver : s'.server.server = s.server.server := (does_step hrun).of_nil
    have howner := owner_of_act hrun fun hno => by cases hno
    have hstages := stages_of_moves hmoves fun b hb => if_neg (Ne.symm hb)
    obtain ⟨id, hid, hstep⟩ := moves_at hmoves (d := .answer result) (if_pos rfl)
    generalize hfrom : v.stages a = stage at hstep
    generalize hto : stages' a = stage' at hstep hstages
    cases hstep with
    | answer =>
      exact ⟨_, .answer hfrom, h.of_one hsound' hstages
        (hserver ▸ h.backed) (hserver ▸ h.store) howner (fun _ => by simp) fun _ _ => by simp⟩
  | abort a fault =>
    obtain ⟨hrun, -⟩ := hrun
    obtain ⟨stages', -, hmoves⟩ := sound_step h.sound hrun
    obtain ⟨id, hid, hstep⟩ := moves_at hmoves (d := .abort fault) (if_pos rfl)
    generalize hfrom : v.stages a = stage at hstep
    generalize hto : stages' a = stage' at hstep
    cases hstep with
    | abort hsize => exact absurd (h.whole a _ _ hfrom) hsize

theorem simulation : Simulation (System.RunsOrderly B A) ObjectService.Step (Refines B A) where
  step h hrun := refines_step hsb hrel h hrun

omit hsb hrel in
theorem refines_start {check : Bool} {server : Server μ σ}
    (hinit : Server.Initial B A check server) (checkClientAuth : Bool)
    (recvBuffers : Nat → ByteBuffer) (fiAvInsert : Address → Bool) :
    Refines B A (System.new server checkClientAuth recvBuffers fiAvInsert)
      (.ofStorage fun k => server.container.disk B k.1 k.2) := by
  have hbacked := hinit.backed
  obtain ⟨m, st, -, -, rfl⟩ := hinit
  exact ⟨(served_start (B := B) rfl checkClientAuth recvBuffers fiAvInsert).sound, hbacked, rfl,
    fun _ => rfl, fun _ _ => by simp [ObjectService.ofStorage],
    fun _ _ _ => by simp [ObjectService.ofStorage]⟩

end Steps

-- ---------------------------------------------------------------------------
-- Two clients
-- ---------------------------------------------------------------------------

/-- The requests of the sample are small, and the read finds its bytes in one segment. -/
def smallRequests (s : System Malloc (ObjectId → Bytes)) (l : Act) : Bool :=
  l.made.all fun r => match r.1 with
    | .eagerWrite w => alignedEnd 8 w.offset w.size < 2 ^ 64
    | .read id offset size _ =>
      (alignedEnd 8 offset size < 2 ^ 64 ∧ 0 < size ∧ size ≤ eagerMaxRead : Bool) &&
        (s.server.server.container.segments id).entries.any fun t =>
          t.2.offset ≤ alignedBase 8 offset ∧ t.2.offset < alignedEnd 8 offset size ∧
            alignedEnd 8 offset size ≤ t.2.stop ∧ offset + size ≤ t.2.stop
    | _ => false

theorem orderly_of_smallRequests {s : System Malloc (ObjectId → Bytes)} {l : Act}
    (h : smallRequests s l = true) :
    ∀ r ∈ l.made, Server.Orderly localBackends 8 s.server.server r.1 := by
  intro r hr
  have hall := List.all_eq_true.mp h r hr
  obtain ⟨e, reply⟩ := r
  cases e with
  | eagerWrite w => exact of_decide_eq_true (p := alignedEnd 8 w.offset w.size < 2 ^ 64) hall
  | read id offset size uninitialised =>
    obtain ⟨hsmall, hone⟩ := Bool.and_eq_true_iff.mp hall
    obtain ⟨hend, hpos, hsize⟩ := of_decide_eq_true hsmall
    obtain ⟨⟨k, t⟩, ht, hin⟩ := List.any_eq_true.mp hone
    exact ⟨hend, hpos, (if_pos hsize).mpr (Or.inl ⟨k, t, ht, of_decide_eq_true hin⟩)⟩
  | _ => cases hall

end IoCatcher.Client
