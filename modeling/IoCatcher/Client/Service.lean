import IoCatcher.Client.InFlight

/-!
# IO Catcher — every call is answered

Each step of the system takes one client from one place to the next one and leaves the others
where they are (`sound_step`). So in every run each call is served once, with the request it
asks for, and returns the reply to it.
-/

namespace IoCatcher.Client

open Wire Network

variable {μ σ : Type} {B : Backends μ σ}

-- ---------------------------------------------------------------------------
-- The server
-- ---------------------------------------------------------------------------

section

variable {c c' : Connection μ σ}

/-- The endpoints of a connection, and the clients it knows, are still there. -/
structure Extends (c c' : Connection μ σ) : Prop where
  remote : ∀ key target, c.remoteLiAddr key = some target → c'.remoteLiAddr key = some target
  sizes  : c'.recvBuffersSize = c.recvBuffersSize ∧ c'.msgBufferSize = c.msgBufferSize

/-- The endpoints are the same. -/
theorem Extends.of_same (hremote : c'.remoteLiAddr = c.remoteLiAddr)
    (hreceived : c'.recvBuffersSize = c.recvBuffersSize)
    (hsent : c'.msgBufferSize = c.msgBufferSize) : Extends c c' :=
  ⟨fun key target hkey => by rw [hremote]; exact hkey, hreceived, hsent⟩

/-- The ids that are in use when no handshake was received. -/
theorem Ready.of_same (h : Ready c) (htracked : c'.Tracked)
    (hremote : c'.remoteLiAddr = c.remoteLiAddr) (hnext : c'.nextEndpointId = c.nextEndpointId)
    (hreceived : c'.recvBuffersSize = c.recvBuffersSize)
    (hsent : c'.msgBufferSize = c.msgBufferSize) : Ready c' ∧ Extends c c' :=
  ⟨⟨htracked, fun key target hkey => hnext ▸ h.numbered key target (hremote ▸ hkey),
    hreceived.trans h.received, hsent.trans h.sent⟩, .of_same hremote hreceived hsent⟩

theorem remoteLiAddr_connected (c : Connection μ σ) (id : Nat) (message : List UInt8)
    (header : LibfabricMessageHeader) (addr : Address) (key : Int) :
    ((c.deliver id message).connected id header addr).remoteLiAddr key =
      if key = SizeT.toInt32 c.nextEndpointId.toNat then some ⟨addr, header.tcpClientId⟩
      else c.remoteLiAddr key := rfl

/-- A handshake takes an id that was not in use. -/
theorem Ready.connected (h : Ready c) (hlt : c.nextEndpointId.toNat < 2 ^ 32) {id : Nat}
    {message : List UInt8} {header : LibfabricMessageHeader} {addr : Address}
    (htracked : ((c.deliver id message).connected id header addr).Tracked) :
    Ready ((c.deliver id message).connected id header addr) ∧
      Extends c ((c.deliver id message).connected id header addr) := by
  have hnext : ((c.deliver id message).connected id header addr).nextEndpointId.toNat =
      c.nextEndpointId.toNat + 1 := by
    show (c.nextEndpointId + 1).toNat = _
    rw [UInt64.toNat_add, UInt64.toNat_one]
    omega
  refine ⟨⟨htracked, fun key target hkey => ?_, h.received, h.sent⟩,
    fun key target hkey => ?_, rfl, rfl⟩
  · rw [hnext]
    rw [remoteLiAddr_connected] at hkey
    by_cases hnew : key = SizeT.toInt32 c.nextEndpointId.toNat
    · exact ⟨_, Nat.lt_succ_self _, hnew⟩
    · rw [if_neg hnew] at hkey
      obtain ⟨n, hn, heq⟩ := h.numbered key target hkey
      exact ⟨n, Nat.lt_succ_of_lt hn, heq⟩
  · have hne : key ≠ SizeT.toInt32 c.nextEndpointId.toNat := by
      intro heq
      rw [heq, h.fresh hlt] at hkey
      cases hkey
    rw [remoteLiAddr_connected, if_neg hne]
    exact hkey

theorem ready_step {e : NetEvent} (h : Ready c) (hlt : c.nextEndpointId.toNat < 2 ^ 32)
    (hstep : c.Step B e c') : Ready c' ∧ Extends c c' := by
  have htracked := tracked_step h.tracked hstep
  cases e with
  | recv id message outside =>
    obtain ⟨-, r, -, hreceived⟩ := step_recv hstep
    cases hreceived with
    | handshake _ addr hc' =>
      subst hc'
      exact h.connected hlt htracked
    | badAuth _ _ hc' =>
      subst hc'
      exact h.of_same htracked rfl rfl rfl rfl
    | refused _ _ target _ hc' =>
      subst hc'
      exact h.of_same htracked rfl rfl rfl rfl
    | accepted _ _ hhandled =>
      obtain ⟨ts, -, hserves⟩ | ⟨size, hserves⟩ := hhandled
      · exact h.of_same htracked hserves.endpoints hserves.nextId hserves.fixed.recvBuffersSize
          hserves.fixed.msgBufferSize
      · exact h.of_same htracked hserves.endpoints hserves.nextId hserves.fixed.recvBuffersSize
          hserves.fixed.msgBufferSize
  | done n fetched =>
    obtain ⟨t, -, hserves⟩ := step_done hstep
    exact h.of_same htracked hserves.endpoints hserves.nextId hserves.fixed.recvBuffersSize
      hserves.fixed.msgBufferSize
  | clientConnect id key =>
    have hc' := step_clientConnect hstep
    subst hc'
    exact h.of_same htracked rfl rfl rfl rfl
  | clientDisconnect id =>
    have hc' := step_clientDisconnect hstep
    subst hc'
    exact h.of_same htracked rfl rfl rfl rfl

/-- The credentials that are known, unless the client disconnects. -/
theorem clients_step {e : NetEvent} (hstep : c.Step B e c') {id key : UInt64}
    (hkey : c.clients id = some key) (he : e ≠ .clientDisconnect id) :
    c'.clients id = some key := by
  cases e with
  | recv n message outside =>
    obtain ⟨-, r, -, hreceived⟩ := step_recv hstep
    cases hreceived with
    | handshake _ addr hc' =>
      subst hc'
      exact hkey
    | badAuth _ _ hc' =>
      subst hc'
      exact hkey
    | refused _ _ target _ hc' =>
      subst hc'
      exact hkey
    | accepted _ _ hhandled =>
      obtain ⟨ts, -, hserves⟩ | ⟨size, hserves⟩ := hhandled
      · rw [hserves.fixed.clients]
        exact hkey
      · rw [hserves.fixed.clients]
        exact hkey
  | done n fetched =>
    obtain ⟨t, -, hserves⟩ := step_done hstep
    rw [hserves.fixed.clients]
    exact hkey
  | clientConnect id' key' =>
    have hc' := step_clientConnect hstep
    unfold Connection.Step Connection.exec at hstep
    dsimp only at hstep
    split_ifs at hstep with hnone
    have hne : id ≠ id' := by
      rintro rfl
      rw [hnone] at hkey
      cases hkey
    rw [hc']
    simp only [if_neg hne]
    exact hkey
  | clientDisconnect id' =>
    have hne : id ≠ id' := by
      rintro rfl
      exact he rfl
    rw [step_clientDisconnect hstep]
    simp only [if_neg hne]
    exact hkey

end

-- ---------------------------------------------------------------------------
-- What the server sends
-- ---------------------------------------------------------------------------

section

variable {c d d' : Connection μ σ} {header : LibfabricMessageHeader} {a : Address}
  {tcpClientId : UInt64} {ts : List Transfer} {rs : List (Address × List UInt8)}

/-- The connection has not sent or started anything yet. -/
structure Quiet (c d : Connection μ σ) : Prop where
  issued    : d.issued = c.issued
  transfers : d.transfers = c.transfers
  remote    : d.remoteLiAddr = c.remoteLiAddr
  sent      : d.msgBufferSize = c.msgBufferSize

theorem Moved.reposted (h : Moved c a ts rs d) (id : Nat) : Moved c a ts rs (d.reposted id) :=
  ⟨h.transfers, h.responses, h.started, h.sent⟩

/-- Nothing was sent or started. -/
theorem Quiet.moved (h : Quiet c d) : Moved c a [] [] d where
  transfers := by rw [h.transfers, List.append_nil]
  responses := newResponses_eq (c := c) (l := []) (by rw [h.issued, List.append_nil])
  started _ ht := absurd ht List.not_mem_nil
  sent _ hr := absurd hr List.not_mem_nil

/-- A response was sent. -/
theorem Quiet.sends (h : Quiet c d) (hsize : c.msgBufferSize < 2 ^ 64)
    (hremote : c.endpointOf header = some ⟨a, tcpClientId⟩) {msgType : LibfabricMessageType}
    {response : LibfabricResponse} (hsends : Sends header msgType response d d') :
    ∃ bytes, encodeMessage (fillProtocolHeader msgType) (.response response) = some bytes ∧
      bytes.length ≤ c.msgBufferSize ∧ Moved c a [] [(a, bytes)] d' := by
  obtain ⟨target, hfind, hfits, rfl⟩ := hsends
  have hfind' : c.endpointOf header = some target := by
    unfold Connection.endpointOf at hfind ⊢
    rw [← h.remote]
    exact hfind
  obtain rfl := Option.some.inj (hremote.symm.trans hfind')
  have hbody : (MessageBody.response response).InMemory := trivial
  obtain ⟨bytes, hbytes, hlen, hresponse⟩ := responseOf_fits (some header) ⟨a, tcpClientId⟩
    (h.sent.symm ▸ hsize) hbody hfits
  rw [h.sent] at hlen hresponse
  refine ⟨bytes, hbytes, hlen, ?_, ?_, fun _ ht => absurd ht List.not_mem_nil, ?_⟩
  · rw [List.append_nil]
    exact h.transfers
  · rw [newResponses_eq (show (d.sent _ _ _ _).issued = c.issued ++ _ by
      rw [Connection.sent, h.issued]), List.filterMap_cons_some hresponse, List.filterMap_nil]
  · intro r hr
    rw [List.mem_singleton.mp hr]

/-- A transfer was started. -/
theorem Quiet.posts (h : Quiet c d) (hremote : c.endpointOf header = some ⟨a, tcpClientId⟩)
    {work : TransferWork} (hposts : Posts header work d d') :
    Moved c a [⟨header, work⟩] [] d' := by
  obtain ⟨target, operations, -, rfl⟩ := hposts
  refine ⟨?_, ?_, fun t ht => ?_, fun _ hr => absurd hr List.not_mem_nil⟩
  · rw [← h.transfers]
    rfl
  · rw [newResponses_eq (show (d.transferring _ _ _ _).issued = c.issued ++ _ by
      rw [Connection.transferring, h.issued])]
    rfl
  · rw [List.mem_singleton.mp ht]
    have hsame : (d.transferring header target operations work).endpointOf header =
        c.endpointOf header := by
      unfold Connection.endpointOf
      rw [← h.remote]
      rfl
    unfold clientOf
    rw [hsame, hremote]
    rfl

end

-- ---------------------------------------------------------------------------
-- One client moves
-- ---------------------------------------------------------------------------

/-- What happens to a client, or nothing. -/
def Stage.Moves (starts : Event → Reply → Option Nat → Prop) (tcpClientId : UInt64)
    (stage : Stage) : Option Doing → Stage → Prop
  | none, stage' => stage' = stage
  | some d, stage' => Stage.Step starts tcpClientId stage d stage'

/-- The stages when one client moves. -/
def setStage (stages : Address → Stage) (a : Address) (stage : Stage) : Address → Stage :=
  fun b => if b = a then stage else stages b

/-- The client that moved is at its new stage; the others are where they were. -/
theorem setStage_eq {stages : Address → Stage} {a b : Address} {stage stage' : Stage}
    (h : setStage stages a stage b = stage') : b = a ∧ stage = stage' ∨ stages b = stage' := by
  by_cases hb : b = a
  · exact Or.inl ⟨hb, (if_pos hb).symm.trans h⟩
  · exact Or.inr ((if_neg hb).symm.trans h)

section

variable {s s' : System μ σ} {stages : Address → Stage} {a : Address} {p : Session}

/-- The other clients are where they were. -/
theorem System.Sound.update (h : s.Sound stages) (s' : System μ σ) (hready : Ready s'.server)
    (hextends : Extends s.server s'.server)
    (hothers : ∀ b, b ≠ a → s'.clients b = s.clients b ∧ s'.load b = s.load b)
    (hknown : ∀ b p, s'.clients b = some p → p.alive = true →
      s'.server.clients p.identity.tcpClientId = some p.identity.tcpClientKey)
    (hclient : s'.clients a = some p) {stage : Stage}
    (hflight : Flight s'.server.remoteLiAddr a p stage (s'.load a)) :
    s'.Sound (setStage stages a stage) where
  ready := hready
  absent b hb := by
    have hne : b ≠ a := by
      rintro rfl
      rw [hclient] at hb
      cases hb
    rw [(hothers b hne).1] at hb
    rw [(hothers b hne).2]
    simp only [setStage, if_neg hne]
    exact h.absent b hb
  flight b q hb := by
    by_cases hne : b = a
    · subst hne
      obtain rfl := Option.some.inj (hclient.symm.trans hb)
      simp only [setStage, if_true]
      exact hflight
    · rw [(hothers b hne).1] at hb
      rw [(hothers b hne).2]
      simp only [setStage, if_neg hne]
      exact (h.flight b q hb).mono hextends.remote
  known := hknown

/-- A client is there when something is in flight for it. -/
theorem System.Sound.present (h : s.Sound stages) (hload : s.load a ≠ ⟨[], [], []⟩) :
    ∃ p, s.clients a = some p := by
  cases hp : s.clients a with
  | none => exact absurd (h.absent a hp).2 hload
  | some p => exact ⟨p, rfl⟩

/-- The transfers of a client after a step of the server. -/
theorem Moved.transfers_of {c c' : Connection μ σ} {ts : List Transfer}
    {rs : List (Address × List UInt8)} (h : Moved c a ts rs c')
    (hrouted : ∀ t ∈ c.transfers, (c.endpointOf t.request).isSome) (hextends : Extends c c')
    (b : Address) : Mailbox.of (clientOf c') b c'.transfers =
      Mailbox.of (clientOf c) b c.transfers ++ if b = a then ts else [] := by
  rw [h.transfers, Mailbox.of_append, Mailbox.of_all h.started]
  congr 1
  refine Mailbox.of_congr fun t ht => ?_
  obtain ⟨target, htarget⟩ := Option.isSome_iff_exists.mp (hrouted t ht)
  have hsame : c'.endpointOf t.request = some target := hextends.remote _ _ htarget
  unfold clientOf
  rw [htarget, hsame]

/-- The messages for a client after a step of the server. -/
theorem Moved.responses_of {c c' : Connection μ σ} {ts : List Transfer}
    {rs : List (Address × List UInt8)} (h : Moved c a ts rs c')
    (l : List (Address × List UInt8)) (b : Address) :
    Mailbox.of addressOf b (l ++ newResponses c c') =
      Mailbox.of addressOf b l ++ if b = a then rs else [] := by
  rw [h.responses, Mailbox.of_append, Mailbox.of_all (l := rs) (b := a) fun r hr => by
    rw [addressOf, h.sent r hr]]

/-- The only message of a client is taken. -/
theorem of_only {l : List (Address × List UInt8)} {n : Nat} {bytes : List UInt8}
    {r : Address × List UInt8} (hin : l[n]? = some (a, bytes))
    (hone : Mailbox.of addressOf a l = [r]) : Mailbox.of addressOf a (l.eraseIdx n) = [] := by
  have hkey : addressOf (a, bytes) = some a := rfl
  exact (Mailbox.of_eraseIdx_only hin hkey hone).2

/-- What is in flight after the server received the request of a client. -/
theorem System.Sound.load_receive (h : s.Sound stages) {n : Nat} {bytes : List UInt8}
    {r : Address × List UInt8} (hin : s.requests[n]? = some (a, bytes))
    (hone : (s.load a).requests = [r]) {c : Connection μ σ} {ts : List Transfer}
    {rs : List (Address × List UInt8)} (hextends : Extends s.server c)
    (hmoved : Moved s.server a ts rs c) (b : Address) :
    System.load { s.served c with requests := s.requests.eraseIdx n } b =
      if b = a then ⟨[], (s.load a).transfers ++ ts, (s.load a).responses ++ rs⟩
      else s.load b := by
  have htransfers := hmoved.transfers_of h.ready.tracked.routed hextends b
  have hresponses := hmoved.responses_of s.responses b
  by_cases hb : b = a
  · subst hb
    rw [if_pos rfl] at htransfers hresponses ⊢
    have hrequests := (of_only hin hone)
    unfold System.load
    dsimp only [System.served]
    rw [hrequests, htransfers, hresponses]
  · rw [if_neg hb, List.append_nil] at htransfers hresponses
    rw [if_neg hb]
    have hne : addressOf (a, bytes) ≠ some b := fun heq => hb (Option.some.inj heq).symm
    have hrequests := Mailbox.of_eraseIdx_ne hin hne
    unfold System.load
    dsimp only [System.served]
    rw [hrequests, htransfers, hresponses]

/-- What is in flight after the transfer of a client is over. -/
theorem System.Sound.load_finish (h : s.Sound stages) {n : Nat} {t u : Transfer}
    (hin : s.server.transfers[n]? = some t) (hclient : clientOf s.server t = some a)
    (hone : (s.load a).transfers = [u]) {c : Connection μ σ}
    {rs : List (Address × List UInt8)} (hextends : Extends s.server c)
    (hmoved : Moved { s.server with transfers := s.server.transfers.eraseIdx n } a [] rs c)
    (b : Address) : (s.served c).load b =
      if b = a then ⟨(s.load a).requests, [], (s.load a).responses ++ rs⟩ else s.load b := by
  have hextends' : Extends { s.server with transfers := s.server.transfers.eraseIdx n } c :=
    ⟨hextends.remote, hextends.sizes⟩
  have htransfers := hmoved.transfers_of
    (fun t ht => h.ready.tracked.routed t (List.mem_of_mem_eraseIdx ht)) hextends' b
  have hresponses : Mailbox.of addressOf b (s.responses ++ newResponses s.server c) = _ :=
    hmoved.responses_of s.responses b
  have hkey : ∀ t, clientOf { s.server with transfers := s.server.transfers.eraseIdx n } t =
      clientOf s.server t := fun t => rfl
  by_cases hb : b = a
  · subst hb
    have herased : Mailbox.of (clientOf s.server) b (s.server.transfers.eraseIdx n) = [] :=
      (Mailbox.of_eraseIdx_only hin hclient hone).2
    rw [if_pos rfl] at htransfers hresponses ⊢
    rw [List.append_nil] at htransfers
    unfold System.load
    dsimp only [System.served]
    rw [htransfers, hresponses]
    exact congrArg (fun l => Load.mk _ l _) herased
  · have hne : clientOf s.server t ≠ some b := by
      rw [hclient]
      exact fun heq => hb (Option.some.inj heq).symm
    have herased : Mailbox.of (clientOf s.server) b (s.server.transfers.eraseIdx n) =
      Mailbox.of (clientOf s.server) b s.server.transfers := Mailbox.of_eraseIdx_ne hin hne
    rw [if_neg hb, List.append_nil] at htransfers hresponses
    rw [if_neg hb]
    unfold System.load
    dsimp only [System.served]
    rw [htransfers, hresponses]
    exact congrArg (fun l => Load.mk _ l _) herased

/-- What is in flight after a client sent a request. -/
theorem System.load_sends (bytes : List UInt8) (b : Address) :
    ((s.setClient a p).sends a bytes).load b =
      if b = a then { s.load a with requests := (s.load a).requests ++ [(a, bytes)] }
      else s.load b := by
  have hrequests : Mailbox.of addressOf b (s.requests ++ [(a, bytes)]) =
      Mailbox.of addressOf b s.requests ++ if b = a then [(a, bytes)] else [] := by
    rw [Mailbox.of_append, Mailbox.of_all (l := [(a, bytes)]) (b := a) fun r hr => by
      rw [List.mem_singleton.mp hr, addressOf]]
  unfold System.load
  dsimp only [System.sends, System.setClient]
  rw [hrequests]
  split_ifs with hb
  · rw [hb]
  · rw [List.append_nil]

/-- What is in flight after a client took the message for it. -/
theorem System.load_takes {n : Nat} {bytes : List UInt8} {r : Address × List UInt8}
    (hin : s.responses[n]? = some (a, bytes)) (hone : (s.load a).responses = [r]) (b : Address) :
    ((s.setClient a p).takes n).load b =
      if b = a then { s.load a with responses := [] } else s.load b := by
  by_cases hb : b = a
  · subst hb
    rw [if_pos rfl]
    unfold System.load
    dsimp only [System.takes, System.setClient]
    rw [(of_only hin hone)]
  · rw [if_neg hb]
    have hne : addressOf (a, bytes) ≠ some b := fun heq => hb (Option.some.inj heq).symm
    unfold System.load
    dsimp only [System.takes, System.setClient]
    rw [Mailbox.of_eraseIdx_ne hin hne]

/-- The step takes every client from its stage to the next one. -/
def System.Progress (B : Backends μ σ) (s : System μ σ) (stages : Address → Stage) (l : Act)
    (s' : System μ σ) : Prop :=
  ∃ stages', s'.Sound stages' ∧ ∀ a,
    (s.clients a = none → l.at a = none ∧ stages' a = stages a) ∧
    ∀ p, s.clients a = some p →
      Stage.Moves (Starts B s.server.server) p.identity.tcpClientId (stages a) (l.at a) (stages' a)

/-- The step is about one client. -/
theorem System.Progress.of_one (stage : Stage) (hsound : s'.Sound (setStage stages a stage))
    {l : Act} (hp : s.clients a = some p)
    (hmoves : Stage.Moves (Starts B s.server.server) p.identity.tcpClientId (stages a) (l.at a)
      stage) (hl : ∀ b, b ≠ a → l.at b = none) : s.Progress B stages l s' := by
  refine ⟨_, hsound, fun b => ?_⟩
  by_cases hb : b = a
  · subst hb
    refine ⟨fun hnone => ?_, fun q hq => ?_⟩
    · rw [hp] at hnone
      cases hnone
    · obtain rfl := Option.some.inj (hp.symm.trans hq)
      simp only [setStage, if_true]
      exact hmoves
  · have hsame : setStage stages a stage b = stages b := if_neg hb
    refine ⟨fun _ => ⟨hl b hb, hsame⟩, fun q _ => ?_⟩
    rw [hl b hb, hsame]
    rfl

theorem Act.at_ofServed (x : Option (Event × Reply)) :
    (Act.ofServed a x).at a = x.map fun r => .serve r.1 r.2 := by
  cases x <;> simp [Act.ofServed, Act.at]

theorem Act.at_ofServed_ne (x : Option (Event × Reply)) {b : Address} (hb : b ≠ a) :
    (Act.ofServed a x).at b = none := by
  cases x <;> simp [Act.ofServed, Act.at, Ne.symm hb]

end

-- ---------------------------------------------------------------------------
-- The server receives a message
-- ---------------------------------------------------------------------------

/-- A reply that is no status is for a read or a write. -/
theorem Call.Asks.reply {k : Call} {tcpClientId : UInt64} {e : Event} {s s' : Server μ σ}
    {reply : Reply} (h : k.Asks tcpClientId e) (hexec : s.exec B e = .ok (reply, s')) :
    (∃ status, reply = .ack status) ∨
      k.request.expectedMessageType = .objReadWriteAck ∧ ∀ r, reply = .eager r → k.IsRead := by
  cases k with
  | objRead => exact Or.inr ⟨rfl, fun _ _ => trivial⟩
  | objWrite objectId buffer size offset iov =>
    obtain ⟨w, -, rfl⟩ := h
    by_cases hsmall : size.toNat ≤ eagerMaxWrite
    · rw [if_pos hsmall] at hexec
      exact Or.inl (Event.Acked.reply (e := .eagerWrite w) trivial hexec)
    · rw [if_neg hsmall] at hexec
      refine Or.inr ⟨rfl, fun r hr => ?_⟩
      subst hr
      simp only [Server.exec, Server.rdmaWrite] at hexec
      split at hexec <;> cases hexec
  | objFlush objectId offset size =>
    obtain rfl := h
    exact Or.inl (Event.Acked.reply (by trivial) hexec)
  | objRangeRegister objectId offset size write =>
    obtain rfl := h
    exact Or.inl (Event.Acked.reply (by trivial) hexec)
  | objRangeUnregister id objectId offset size write =>
    obtain rfl := h
    exact Or.inl (Event.Acked.reply (by trivial) hexec)
  | objCreate objectId =>
    obtain rfl := h
    exact Or.inl (Event.Acked.reply (by trivial) hexec)
  | objCow sourceObjectId destObjectId allowExist offset size =>
    obtain rfl := h
    exact Or.inl (Event.Acked.reply (by trivial) hexec)

/-- A call asks for a request that hooks make. -/
theorem Call.requested (k : Call) {tcpClientId : UInt64} {e : Event} (h : k.Asks tcpClientId e) :
    e.Requested := by
  cases k with
  | objRead =>
    obtain ⟨uninitialised, rfl⟩ := h
    trivial
  | objWrite objectId buffer size offset iov =>
    obtain ⟨w, -, rfl⟩ := h
    split_ifs <;> trivial
  | _ =>
    obtain rfl := h
    trivial

/-- The endpoint of a request is the one of its client. -/
theorem Session.Joined.endpointOf {c : Connection μ σ} {p : Session} {a : Address}
    (h : p.Joined a c.remoteLiAddr) (k : Call) :
    c.endpointOf (p.header k) = some ⟨a, p.identity.tcpClientId⟩ := by
  unfold Session.Joined at h
  unfold Connection.endpointOf Session.header Identity.fillProtocolHeader
  exact h

/-- **Where a request goes**: the client gets its answer, or has a transfer, or neither. -/
theorem flight_of_serviced {c d c' : Connection μ σ} {a : Address} {p : Session} {k : Call}
    {e : Event} {id : Nat} (hready : Ready c) (hquiet : ∀ s, Quiet c (d.withServer s))
    (hjoined : p.Joined a c.remoteLiAddr) (hphase : p.phase = .waiting k)
    (hasks : k.Asks p.identity.tcpClientId e)
    (hserviced : Serviced B (p.header k) k.request.expectedMessageType id e d c') :
    ∃ reply ts rs stage, replied B d.server e = some (e, reply) ∧ Moved c a ts rs c' ∧
      Stage.Step (Starts B d.server) p.identity.tcpClientId (.called k) (.serve e reply) stage ∧
      Flight c.remoteLiAddr a p stage ⟨[], ts, rs⟩ := by
  obtain ⟨reply, s, d', hexec, hconcludes, rfl⟩ := hserviced
  have hreplied : replied B d.server e = some (e, reply) := by
    unfold replied
    rw [hexec]
  have hsize : c.msgBufferSize < 2 ^ 64 := by
    rw [hready.sent]
    decide
  have hanswer : ∀ {r : Reply}, reply = r → reply ≠ .nothing →
      (∀ m, reply = .eager m → k.IsRead) → Sends (p.header k) k.request.expectedMessageType
        (Reply.response r) (d.withServer s) d' →
      ∃ reply ts rs stage, replied B d.server e = some (e, reply) ∧
        Moved c a ts rs (d'.reposted id) ∧
        Stage.Step (Starts B d.server) p.identity.tcpClientId (.called k) (.serve e reply)
          stage ∧
        Flight c.remoteLiAddr a p stage ⟨[], ts, rs⟩ := by
    rintro _ rfl hne hread hsends
    obtain ⟨bytes, hbytes, hlen, hmoved⟩ := (hquiet s).sends hsize (hjoined.endpointOf k) hsends
    exact ⟨reply, _, _, _, hreplied, hmoved.reposted id, .serve hasks hne,
      .answered hjoined hphase hread hbytes (hready.sent ▸ hlen)⟩
  have hkind := hasks.reply hexec
  cases reply with
  | ack status => exact hanswer rfl (by simp) (by simp) hconcludes
  | eager response =>
    obtain ⟨status, hno⟩ | ⟨-, hread⟩ := hkind
    · cases hno
    · exact hanswer rfl (by simp) hread hconcludes
  | rdma payload =>
    obtain ⟨status, hno⟩ | ⟨hexpected, -⟩ := hkind
    · cases hno
    · rcases hconcludes with hposts | ⟨rfl, rfl⟩
      · exact ⟨_, _, _, _, hreplied, ((hquiet s).posts (hjoined.endpointOf k) hposts).reposted id,
          .serve hasks (by simp), .pushing hjoined hphase hexpected⟩
      · exact ⟨_, _, _, _, hreplied, (hquiet s).moved.reposted id,
          .lost hasks ⟨s, hexec, Or.inl rfl⟩, .lost hphase⟩
  | nothing =>
    obtain ⟨status, hno⟩ | ⟨hexpected, -⟩ := hkind
    · cases hno
    · obtain ⟨number, hnumber, hconcludes⟩ := hconcludes
      obtain rfl : number = d.server.started.length := by
        obtain ⟨hne, -⟩ | ⟨-, hstarted, -⟩ :=
          Server.pending_of_requested (k.requested hasks) hexec
        · exact absurd rfl hne
        · have hnumber : number + 1 = s.started.length := hnumber
          omega
      rcases hconcludes with ⟨hsome, hposts⟩ | ⟨hnone, rfl⟩
      · exact ⟨_, _, _, _, hreplied, ((hquiet s).posts (hjoined.endpointOf k) hposts).reposted id,
          .fetch hasks ⟨s, hexec, rfl, rfl, hsome⟩, .fetching hjoined hphase hexpected⟩
      · exact ⟨_, _, _, _, hreplied, (hquiet s).moved.reposted id,
          .lost hasks ⟨s, hexec, Or.inr ⟨rfl, hnone⟩⟩, .lost hphase⟩

/-- A request without the credentials of a client is refused. -/
theorem moved_of_refused {c c' : Connection μ σ} {a : Address} {tcpClientId : UInt64} {id : Nat}
    {header : LibfabricMessageHeader} {bs : List UInt8} {outside : Outside} (hready : Ready c)
    (hremote : c.endpointOf header = some ⟨a, tcpClientId⟩) (htype : ¬ IsControl header.msgType)
    (hcred : ¬ c.Accepts header) (hstep : c.Step B (.recv id (header.encode ++ bs) outside) c') :
    (c.deliver id (header.encode ++ bs)).eventOf id outside = none ∧
      ∃ bytes, Moved c a [] [(a, bytes)] c' := by
  have hroom := length_of_step hstep
  have hn := hready.size_lt
  have hholds : ((c.deliver id (header.encode ++ bs)).recvBuffers id).Holds 0
      (header.encode ++ bs) := by
    simp only [Connection.deliver, if_true]
    exact ByteBuffer.holds_put _ 0 _
  obtain ⟨d, -, hheader, -⟩ :=
    headerOf_encoded (c := c.deliver id (header.encode ++ bs)) hn hroom hholds
  constructor
  · unfold Connection.eventOf
    rw [hheader]
    exact if_pos (Or.inr hcred)
  obtain ⟨-, r, hr, hreceived⟩ := step_recv hstep
  obtain rfl := Except.ok.inj (hheader.symm.trans hr)
  cases hreceived with
  | handshake hno => exact absurd (Or.inl hno) htype
  | badAuth hno => exact absurd (Or.inr (Or.inl hno)) htype
  | accepted _ hyes => exact absurd hyes hcred
  | refused _ _ target hfind hc' =>
    subst hc'
    obtain rfl := Option.some.inj (hremote.symm.trans hfind)
    -- a status always has an encoding that fits
    have hbody : (MessageBody.response (.ofStatus (-1))).InMemory := trivial
    obtain ⟨bytes, hbytes⟩ : ∃ bytes, packedBytes (fillProtocolHeader .badAuth)
        (.response (.ofStatus (-1))) c.msgBufferSize = .ok bytes := by
      rw [hready.sent]
      exact ⟨_, (packedBytes_iff hbody (by decide)).mpr ⟨rfl, by decide⟩⟩
    refine ⟨bytes, (List.append_nil _).symm, ?_, fun _ ht => absurd ht List.not_mem_nil,
      fun r hr => by rw [List.mem_singleton.mp hr]⟩
    rw [newResponses_eq (c := c) (l := [⟨none, ⟨a, tcpClientId⟩,
      .message .badAuth (.response (.ofStatus (-1)))⟩]) rfl,
      List.filterMap_cons_some (b := (a, bytes)), List.filterMap_nil]
    unfold responseOf
    dsimp only
    rw [hbytes]

/-- The answer to a handshake. -/
theorem moved_of_connected {c : Connection μ σ} (hready : Ready c) (a : Address) (id : Nat)
    (message : List UInt8) (header : LibfabricMessageHeader) :
    ∃ bytes, encodeMessage (fillProtocolHeader .assignId) (.firstHandshake ⟨2, c.nextEndpointId⟩) =
        some bytes ∧ bytes.length ≤ postReceiveRead ∧
      Moved c a [] [(a, bytes)] ((c.deliver id message).connected id header a) := by
  obtain ⟨bytes, hbytes, hlen⟩ : ∃ bytes, encodeMessage (fillProtocolHeader .assignId)
      (.firstHandshake ⟨2, c.nextEndpointId⟩) = some bytes ∧ bytes.length ≤ postReceiveRead := by
    refine ⟨_, rfl, ?_⟩
    have hmax : postReceiveRead = 32864 := rfl
    simp [LibfabricMessageHeader.encode, Scalar.uint64, Scalar.int32, hmax]
  have hbody : (MessageBody.firstHandshake ⟨2, c.nextEndpointId⟩).InMemory := trivial
  have hsize : c.msgBufferSize < 2 ^ 64 := by
    rw [hready.sent]
    decide
  refine ⟨bytes, hbytes, hlen, (List.append_nil _).symm, ?_,
    fun _ ht => absurd ht List.not_mem_nil, fun r hr => by rw [List.mem_singleton.mp hr]⟩
  rw [newResponses_eq (c := c) (l := [⟨none, ⟨a, header.tcpClientId⟩,
    .message .assignId (.firstHandshake ⟨2, c.nextEndpointId⟩)⟩]) rfl,
    List.filterMap_cons_some (b := (a, bytes)), List.filterMap_nil]
  unfold responseOf
  dsimp only
  rw [(packedBytes_iff hbody hsize).mpr ⟨hbytes, hready.sent ▸ hlen⟩]

-- ---------------------------------------------------------------------------
-- Steps of the server
-- ---------------------------------------------------------------------------

section

variable {s s' : System μ σ} {stages : Address → Stage} {a : Address}

/-- A message in flight is in the load of its client. -/
theorem System.mem_requests {n : Nat} {bytes : List UInt8}
    (hin : s.requests[n]? = some (a, bytes)) : (a, bytes) ∈ (s.load a).requests :=
  Mailbox.mem_of.mpr ⟨List.mem_of_getElem? hin, rfl⟩

theorem System.clientOf_target {t : Transfer} {target : Endpoint}
    (htarget : s.server.endpointOf t.request = some target) :
    clientOf s.server t = some target.addr := by
  unfold clientOf
  rw [htarget]
  rfl

theorem System.mem_responses {n : Nat} {bytes : List UInt8}
    (hin : s.responses[n]? = some (a, bytes)) : (a, bytes) ∈ (s.load a).responses :=
  Mailbox.mem_of.mpr ⟨List.mem_of_getElem? hin, rfl⟩

/-- **The server receives a message of a client**: what it sends and starts says where the
client is then. -/
theorem System.Sound.received (h : s.Sound stages) (hlt : s.server.nextEndpointId.toNat < 2 ^ 32)
    {n id : Nat} {bytes : List UInt8} {outside : Outside} {c : Connection μ σ}
    (hin : s.requests[n]? = some (a, bytes)) (hfetch : s.Fetches a outside.clientMemory)
    (hstep : s.server.Step B (.recv id bytes outside) c) :
    ∃ p ts rs stage, s.clients a = some p ∧ s.load a = ⟨[(a, bytes)], [], []⟩ ∧
      Moved s.server a ts rs c ∧ Flight c.remoteLiAddr a p stage ⟨[], ts, rs⟩ ∧
      Stage.Moves (Starts B s.server.server) p.identity.tcpClientId (stages a)
        ((servedBy B (s.server.deliver id bytes) id outside).map fun r => .serve r.1 r.2)
        stage := by
  obtain ⟨hready, hextends⟩ := ready_step h.ready hlt hstep
  have hn := h.ready.size_lt
  have hmem := System.mem_requests hin
  obtain ⟨p, hp⟩ := h.present (a := a) fun heq => by
    rw [heq] at hmem
    cases hmem
  have hflight := h.flight a p hp
  generalize hstage : stages a = stage at hflight
  generalize hload : s.load a = load at hflight hmem
  cases hflight with
  | joining hphase hbytes =>
    obtain ⟨bs, hbs, rfl, -⟩ := length_encodeMessage hbytes
    obtain ⟨-, rfl⟩ := Prod.mk.inj (List.mem_singleton.mp hmem)
    obtain ⟨hevent, hc⟩ := connected_of_handshake rfl hbs hn hstep
    obtain ⟨answer, hanswer, hroom, hmoved⟩ :=
      moved_of_connected h.ready a id _ (p.identity.fillProtocolHeader .connectInit)
    rw [← hc] at hmoved
    have hremote : c.remoteLiAddr (SizeT.toInt32 s.server.nextEndpointId.toNat) =
        some ⟨a, p.identity.tcpClientId⟩ := by
      rw [hc, remoteLiAddr_connected, if_pos rfl]
      rfl
    refine ⟨p, _, _, _, hp, rfl, hmoved, .assigned hphase hremote hanswer hroom, ?_⟩
    unfold servedBy
    rw [hevent]
    rfl
  | called hjoined hphase hbytes =>
    obtain ⟨bs, hbs, rfl, -⟩ := length_encodeMessage hbytes
    obtain ⟨-, rfl⟩ := Prod.mk.inj (List.mem_singleton.mp hmem)
    rename_i k
    by_cases hcred : s.server.Accepts (p.header k)
    · obtain ⟨e, hasks, hevent, hserviced⟩ := serviced_of_call k rfl hbs hn hcred
        (hfetch p k hp hphase) hstep
      have hquiet : ∀ t, Quiet s.server
          ((s.server.deliver id ((p.header k).encode ++ bs)).withServer t) :=
        fun t => ⟨rfl, rfl, rfl, rfl⟩
      obtain ⟨reply, ts, rs, stage, hreplied, hmoved, hmoves, hplace⟩ :=
        flight_of_serviced h.ready hquiet hjoined hphase hasks hserviced
      refine ⟨p, ts, rs, stage, hp, rfl, hmoved, hplace.mono hextends.remote, ?_⟩
      unfold servedBy
      rw [hevent]
      show Stage.Moves _ _ _ ((replied B _ e).map _) _
      rw [hreplied]
      exact hmoves
    · -- a client that is alive is known
      have hdead : p.alive = false := by
        by_contra halive
        exact hcred fun _ => h.known a p hp (by simpa using halive)
      obtain ⟨hevent, answer, hmoved⟩ := moved_of_refused h.ready (hjoined.endpointOf k)
        k.not_control hcred hstep
      refine ⟨p, _, _, _, hp, rfl, hmoved, .refused hphase hdead, ?_⟩
      unfold servedBy
      rw [hevent]
      rfl
  | _ => cases hmem

/-- The step of the server that receives a message. -/
theorem System.Sound.receive (h : s.Sound stages) (hlt : s.server.nextEndpointId.toNat < 2 ^ 32)
    {n id : Nat} {bytes : List UInt8} {outside : Outside} {c : Connection μ σ}
    (hin : s.requests[n]? = some (a, bytes)) (hfetch : s.Fetches a outside.clientMemory)
    (hstep : s.server.Step B (.recv id bytes outside) c) :
    s.Progress B stages (.ofServed a (servedBy B (s.server.deliver id bytes) id outside))
      { s.served c with requests := s.requests.eraseIdx n } := by
  obtain ⟨hready, hextends⟩ := ready_step h.ready hlt hstep
  obtain ⟨p, ts, rs, stage, hp, hload, hmoved, hplace, hmoves⟩ :=
    h.received hlt hin hfetch hstep
  have hone : (s.load a).requests = [(a, bytes)] := by rw [hload]
  have hloads := h.load_receive hin hone hextends hmoved
  refine .of_one stage ?_ hp ?_ fun b hb => Act.at_ofServed_ne _ hb
  · refine h.update { s.served c with requests := s.requests.eraseIdx n } hready hextends
      (fun b hb => ⟨rfl, ?_⟩) (fun b q hb hq => ?_) hp ?_
    · rw [hloads, if_neg hb]
    · exact clients_step hstep (h.known b q hb hq) (by simp)
    · rw [hloads, if_pos rfl, hload]
      exact hplace
  · rw [Act.at_ofServed]
    exact hmoves

/-- **The transfer of a client is over**: the response is all that is in flight then. -/
theorem System.Sound.finished (h : s.Sound stages) (hlt : s.server.nextEndpointId.toNat < 2 ^ 32)
    {n : Nat} {t : Transfer} {target : Endpoint} {fetched : Bytes} {c : Connection μ σ}
    (hin : s.server.transfers[n]? = some t)
    (htarget : s.server.endpointOf t.request = some target)
    (hstep : s.server.Step B (.done n fetched) c) :
    ∃ p bytes stage, s.clients target.addr = some p ∧ s.load target.addr = ⟨[], [t], []⟩ ∧
      Moved { s.server with transfers := s.server.transfers.eraseIdx n } target.addr []
        [(target.addr, bytes)] c ∧
      Flight c.remoteLiAddr target.addr p stage ⟨[], [], [(target.addr, bytes)]⟩ ∧
      Stage.Moves (Starts B s.server.server) p.identity.tcpClientId (stages target.addr)
        ((servedAfter B s.server t).map fun r => .serve r.1 r.2) stage := by
  obtain ⟨hready, hextends⟩ := ready_step h.ready hlt hstep
  obtain ⟨t', ht', hfinishes⟩ := finishes_of_step hstep
  obtain rfl := Option.some.inj (hin.symm.trans ht')
  have hclient := System.clientOf_target htarget
  have hmem : t ∈ (s.load target.addr).transfers :=
    Mailbox.mem_of.mpr ⟨List.mem_of_getElem? hin, hclient⟩
  obtain ⟨p, hp⟩ := h.present (a := target.addr) fun heq => by
    rw [heq] at hmem
    cases hmem
  have hflight := h.flight target.addr p hp
  have hsize : s.server.msgBufferSize < 2 ^ 64 := by
    rw [h.ready.sent]
    decide
  have hquiet : ∀ r, Quiet { s.server with transfers := s.server.transfers.eraseIdx n }
      (Connection.withServer { s.server with transfers := s.server.transfers.eraseIdx n } r) :=
    fun r => ⟨rfl, rfl, rfl, rfl⟩
  generalize hstage : stages target.addr = stage at hflight
  generalize hload : s.load target.addr = load at hflight hmem
  cases hflight with
  | fetching hjoined hphase hexpected =>
    rename_i k number
    obtain rfl := List.mem_singleton.mp hmem
    obtain ⟨reply, r, hexec, hsends⟩ := hfinishes
    have hnumber : number ∈ s.server.server.pending.map (·.number) := by
      rw [← h.ready.tracked.fetched, List.mem_filterMap]
      exact ⟨_, List.mem_of_getElem? hin, rfl⟩
    obtain ⟨r', hexec', -, -⟩ := Server.rdmaDone_of_pending (B := B) hnumber
    obtain ⟨rfl, rfl⟩ := Prod.mk.inj (Except.ok.inj (hexec.symm.trans hexec'))
    obtain ⟨bytes, hbytes, hlen, hmoved⟩ := (hquiet r).sends hsize (hjoined.endpointOf k) hsends
    have hanswer : encodeMessage (fillProtocolHeader k.request.expectedMessageType)
        (.response (Reply.response (.ack 0))) = some bytes := by
      rw [hexpected]
      exact hbytes
    refine ⟨p, bytes, .answered k (.ack 0), hp, rfl, hmoved,
      .answered (hextends.remote _ _ hjoined) hphase (by simp) hanswer (h.ready.sent ▸ hlen), ?_⟩
    have hafter : servedAfter B s.server ⟨p.header k, .write number⟩ =
        some (.rdmaDone number, .ack 0) := by
      show replied B s.server.server (.rdmaDone number) = some (.rdmaDone number, .ack 0)
      unfold replied
      rw [hexec']
    rw [hafter]
    exact .fetched
  | pushing hjoined hphase hexpected =>
    rename_i k payload
    obtain rfl := List.mem_singleton.mp hmem
    obtain ⟨bytes, hbytes, hlen, hmoved⟩ := (hquiet _).sends hsize (hjoined.endpointOf k) hfinishes
    have hanswer : encodeMessage (fillProtocolHeader k.request.expectedMessageType)
        (.response (Reply.response (.rdma payload))) = some bytes := by
      rw [hexpected]
      exact hbytes
    exact ⟨p, bytes, .answered k (.rdma payload), hp, rfl, hmoved,
      .answered (hextends.remote _ _ hjoined) hphase (by simp) hanswer (h.ready.sent ▸ hlen), rfl⟩
  | _ => cases hmem

/-- The step of the server that ends a transfer. -/
theorem System.Sound.finish (h : s.Sound stages) (hlt : s.server.nextEndpointId.toNat < 2 ^ 32)
    {n : Nat} {t : Transfer} {target : Endpoint} {fetched : Bytes} {c : Connection μ σ}
    (hin : s.server.transfers[n]? = some t)
    (htarget : s.server.endpointOf t.request = some target)
    (hstep : s.server.Step B (.done n fetched) c) :
    s.Progress B stages (.ofServed target.addr (servedAfter B s.server t)) (s.served c) := by
  obtain ⟨hready, hextends⟩ := ready_step h.ready hlt hstep
  obtain ⟨p, bytes, stage, hp, hload, hmoved, hplace, hmoves⟩ :=
    h.finished hlt hin htarget hstep
  have hone : (s.load target.addr).transfers = [t] := by rw [hload]
  have hloads := h.load_finish hin (System.clientOf_target htarget) hone hextends hmoved
  refine .of_one stage ?_ hp ?_ fun b hb => Act.at_ofServed_ne _ hb
  · refine h.update (s.served c) hready hextends (fun b hb => ⟨rfl, ?_⟩) (fun b q hb hq => ?_)
      hp ?_
    · rw [hloads, if_neg hb]
    · exact clients_step hstep (h.known b q hb hq) (by simp)
    · rw [hloads, if_pos rfl, hload]
      exact hplace
  · rw [Act.at_ofServed]
    exact hmoves

end

end IoCatcher.Client
