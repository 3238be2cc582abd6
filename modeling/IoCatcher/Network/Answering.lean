import IoCatcher.Network.Twins

/-!
# IO Catcher — what a hook does with a request

`Effects` says what a hook may change. This module says what it does: which request it
makes of the server (`Hook.event`), and what it does with the reply (`Concludes`): it sends
one message of its own type, or starts one transfer, or, when there is nothing to transfer,
gives the receive buffer back and sends nothing.

* `serviced_hook`, `ends_pingPong` — the hooks, on every message they decode;
* `ends_onTransferDone` — the callback of a transfer sends the one message;
* `hook_of_step`, `finishes_of_step` — what this says of a step.
-/

namespace IoCatcher.Network

open Wire

variable {μ σ : Type} {B : Backends μ σ} {c c' : Connection μ σ}

-- ---------------------------------------------------------------------------
-- Statement
-- ---------------------------------------------------------------------------

/-- The type of the messages a hook answers with. -/
def Hook.ackType : Hook → LibfabricMessageType
  | .pingPong => .pong
  | .flush => .objFlushAck
  | .rangeRegister => .objRangeRegisterAck
  | .rangeUnregister => .objRangeUnregisterAck
  | .objectCreate => .objCreateAck
  | .objectRead => .objReadWriteAck
  | .objectWrite => .objReadWriteAck
  | .objectCow => .objCowAck

/-- The data of an eager write: what its pointer designates in the receive buffer. -/
def Connection.eagerData (c : Connection μ σ) (id : Nat) (outside : Outside) (index : Nat) :
    Bytes := messageData (c.recvBuffers id) c.recvBuffersSize outside.behind index

/-- The request a hook makes of the server, from the struct it decoded. -/
def Hook.event (hook : Hook) (c : Connection μ σ) (request : LibfabricClientRequest)
    (outside : Outside) (body : MessageBody) : Option Event :=
  match hook, body with
  | .flush, .flush m => some (.flush (objectOf m.objectId) m.offset.toNat m.size.toNat)
  | .objectCreate, .create m => some (.create (objectOf m.objectId))
  | .objectCow, .cow m => some (.cow (objectOf m.sourceObjectId) (objectOf m.destObjectId)
      m.allowExist m.rangeOffset.toNat m.rangeSize.toNat)
  | .rangeRegister, .registerRange m => some (.rangeRegister request.header.tcpClientId.toNat
      (objectOf m.objectId) m.offset.toNat m.size.toNat m.write)
  | .rangeUnregister, .unregisterRange m => some (.rangeUnregister
      request.header.tcpClientId.toNat (objectOf m.objectId) m.id.toInt m.offset.toNat
      m.size.toNat m.write)
  | .objectRead, .readWrite m => some (.read (objectOf m.objectId) m.offset.toNat m.size.toNat
      outside.uninitialised)
  | .objectWrite, .readWrite m =>
    match m.msgHasData, m.optionalData with
    | true, .message index => some (.eagerWrite ⟨objectOf m.objectId, m.offset.toNat,
        m.size.toNat, c.eagerData request.msgBufferId outside index⟩)
    | true, _ => none
    | false, _ => some (.rdmaWrite ⟨objectOf m.objectId, m.offset.toNat, m.size.toNat,
        outside.clientMemory⟩)
  | _, _ => none

/-- The request that the message in a receive buffer makes of the server: the one of its hook,
when it is accepted. -/
def Connection.eventOf (c : Connection μ σ) (id : Nat) (outside : Outside) : Option Event :=
  match c.headerOf id with
  | .error _ => none
  | .ok (header, d) =>
    if IsControl header.msgType ∨ ¬ c.Accepts header then none
    else
      (findHook header.msgType).bind fun hook =>
        (decoded hook.blank.applySerializerDef d).bind
          (hook.event c ⟨header.lfClientId, id, header, d⟩ outside)

/-- The request that the end of a transfer makes of the server. -/
def Transfer.event (t : Transfer) : Option Event :=
  match t.work with
  | .write number => some (.rdmaDone number)
  | _ => none

/-- The message can be packed and fits the receive buffers. -/
def Connection.Fits (c : Connection μ σ) (msgType : LibfabricMessageType) (body : MessageBody) :
    Prop :=
  ∃ packed, packMessage (fillProtocolHeader msgType) body (fun _ => 0) c.msgBufferSize =
    .ok packed ∧ packed.2.cursor ≤ c.recvBuffersSize

/-- The connection after it sent a message for a request. -/
def Connection.sent (c : Connection μ σ) (request : Option LibfabricMessageHeader)
    (target : Endpoint) (msgType : LibfabricMessageType) (body : MessageBody) : Connection μ σ :=
  { c with issued := c.issued ++ [⟨request, target, .message msgType body⟩] }

/-- The connection after it posted the operations of a request. -/
def Connection.transferring (c : Connection μ σ) (header : LibfabricMessageHeader)
    (target : Endpoint) (operations : Nat) (work : TransferWork) : Connection μ σ :=
  { c with
    issued := c.issued ++ [⟨some header, target, .rdma operations⟩]
    transfers := c.transfers ++ [⟨header, work⟩] }

/-- The connection after it gave a receive buffer back. -/
def Connection.reposted (c : Connection μ σ) (id : Nat) : Connection μ σ :=
  { c with posted := c.posted ++ [id] }

/-- The connection after a step of the server. -/
def Connection.withServer (c : Connection μ σ) (s : Server μ σ) : Connection μ σ :=
  { c with server := s }

/-- One message was sent for the request. -/
def Sends (header : LibfabricMessageHeader) (msgType : LibfabricMessageType)
    (response : LibfabricResponse) (c c' : Connection μ σ) : Prop :=
  ∃ target, c.endpointOf header = some target ∧ c.Fits msgType (.response response) ∧
    c' = c.sent (some header) target msgType (.response response)

/-- One transfer was started for the request. -/
def Posts (header : LibfabricMessageHeader) (work : TransferWork) (c c' : Connection μ σ) : Prop :=
  ∃ target operations, c.endpointOf header = some target ∧
    c' = c.transferring header target operations work

/-- The response that a client gets for a reply, at once or when the transfer is over. -/
def Reply.response : Reply → LibfabricResponse
  | .ack status => .ofStatus (Int32.ofInt status)
  | .eager response => .ofFragments 0 [⟨.block response.data, UInt64.ofNat response.data.length⟩]
  | .rdma _ | .nothing => .ofStatus 0

/-- What a hook does with the reply of the server, before it gives the receive buffer
back. -/
def Concludes (header : LibfabricMessageHeader) (msgType : LibfabricMessageType)
    (c c' : Connection μ σ) : Reply → Prop
  | .ack status => Sends header msgType (.ofStatus (Int32.ofInt status)) c c'
  | .eager response => Sends header msgType
      (.ofFragments 0 [⟨.block response.data, UInt64.ofNat response.data.length⟩]) c c'
  -- a read without segment pushes nothing
  | .rdma payload => Posts header .read c c' ∨ payload = [] ∧ c' = c
  -- the write is the last one that was started
  | .nothing => ∃ number, number + 1 = c.server.started.length ∧
      ((c.server.findPending number).isSome ∧ Posts header (.write number) c c' ∨
        c.server.findPending number = none ∧ c' = c)

-- ---------------------------------------------------------------------------
-- Operations
-- ---------------------------------------------------------------------------

section

variable {request : LibfabricClientRequest} {α : Type} {fault : ConnectionFault → Prop}

theorem ends_pop {m : SerializerM α} {post : α → Connection μ σ → Prop}
    (h : ∀ a, decoded m request.deserializer = some a → post a c) :
    Ends (request.pop m) c post fun _ => True := by
  simp only [LibfabricClientRequest.pop, Ends.bind_iff]
  unfold decoded at h
  cases hm : m request.deserializer with
  | error f => trivial
  | ok r =>
    rw [hm] at h
    exact h r.1 rfl

theorem ends_execServer {e : Event} {post : Reply → Connection μ σ → Prop}
    (h : ∀ reply s, c.server.exec B e = .ok (reply, s) → post reply (c.withServer s)) :
    Ends (execServer B e) c post fun _ => True := by
  simp only [execServer, Ends.bind_iff, Ends.get_iff]
  cases hexec : c.server.exec B e with
  | error f => trivial
  | ok r => exact h r.1 r.2 hexec

theorem ends_sendMessage {r : Option LibfabricMessageHeader} {msgType : LibfabricMessageType}
    {destinationEpId : Int} {body : MessageBody} {post : Unit → Connection μ σ → Prop}
    (h : ∀ target, c.remoteLiAddr destinationEpId = some target → c.Fits msgType body →
      post () (c.sent r target msgType body)) :
    Ends (sendMessage r msgType destinationEpId body) c post fun _ => True := by
  simp only [sendMessage, Ends.bind_iff, Ends.get_iff, assertThat, Ends.ite_iff, findEndpoint,
    Ends.pure_iff, Ends.throw_iff]
  cases hpack : packMessage (fillProtocolHeader msgType) body (fun _ => 0) c.msgBufferSize with
  | error f => trivial
  | ok packed =>
    simp only [liftSerializer, Ends.pure_iff]
    split_ifs with hfits
    cases hfind : c.remoteLiAddr destinationEpId with
    | none => trivial
    | some target => exact h target hfind ⟨packed, hpack, hfits⟩

theorem ends_repostReceive {id : Nat} {post : Unit → Connection μ σ → Prop}
    (h : post () (c.reposted id)) : Ends (repostReceive id) c post fun _ => True := by
  simp only [repostReceive, Ends.bind_iff, Ends.get_iff, Ends.ite_iff, Ends.modify_iff,
    Ends.throw_iff]
  split_ifs
  exact h

theorem ends_rdmaPost (hid : request.lfClientId = request.header.lfClientId) {operations : Nat}
    {work : TransferWork} {post : Unit → Connection μ σ → Prop}
    (h : ∀ c', Posts request.header work c c' → post () c') :
    Ends (rdmaPost request operations work) c post fun _ => True := by
  simp only [rdmaPost, findEndpoint, issue, Ends.bind_iff, Ends.get_iff, Ends.modify_iff, hid]
  cases hfind : c.remoteLiAddr (SizeT.toInt32 request.header.lfClientId.toNat) with
  | none => trivial
  | some target => exact h _ ⟨target, operations, hfind, rfl⟩

/-- A response for the request, before the receive buffer is given back. -/
theorem ends_respond (hid : request.lfClientId = request.header.lfClientId)
    {msgType : LibfabricMessageType} {response : LibfabricResponse}
    {post : Unit → Connection μ σ → Prop}
    (h : ∀ c', Sends request.header msgType response c c' →
      post () (c'.reposted request.msgBufferId)) :
    Ends (do
      sendMessage (some request.header) msgType (SizeT.toInt32 request.lfClientId.toNat)
        (.response response)
      request.terminate) c post fun _ => True := by
  rw [Ends.bind_iff, hid]
  refine ends_sendMessage fun target hfind hfits => ?_
  exact ends_repostReceive (h _ ⟨target, hfind, hfits, rfl⟩)

end

-- ---------------------------------------------------------------------------
-- Hooks
-- ---------------------------------------------------------------------------

/-- The requests that are answered with a status. -/
def Event.Acked : Event → Prop
  | .eagerWrite _ | .flush .. | .create _ | .cow .. | .rangeRegister .. | .rangeUnregister .. =>
    True
  | _ => False

theorem Event.Acked.reply {e : Event} (h : Event.Acked e) {s s' : Server μ σ} {reply : Reply}
    (hexec : s.exec B e = .ok (reply, s')) : ∃ status, reply = .ack status := by
  cases e with
  | eagerWrite w =>
    simp only [Server.exec, Server.eagerWrite] at hexec
    split at hexec
    · exact ⟨0, (Prod.mk.inj (Except.ok.inj hexec)).1.symm⟩
    · split at hexec
      · cases hexec
      · exact ⟨0, (Prod.mk.inj (Except.ok.inj hexec)).1.symm⟩
  | cow src dst allowExist offset size =>
    simp only [Server.exec, Server.cow] at hexec
    split at hexec
    · split at hexec
      · cases hexec
      · exact ⟨_, (Prod.mk.inj (Except.ok.inj hexec)).1.symm⟩
    · exact ⟨_, (Prod.mk.inj (Except.ok.inj hexec)).1.symm⟩
  | rangeRegister t id offset size write =>
    simp only [Server.exec, Server.rangeRegister] at hexec
    split_ifs at hexec <;> exact ⟨_, (Prod.mk.inj (Except.ok.inj hexec)).1.symm⟩
  | rangeUnregister t id rangeId offset size write =>
    simp only [Server.exec, Server.rangeUnregister] at hexec
    split_ifs at hexec <;> exact ⟨_, (Prod.mk.inj (Except.ok.inj hexec)).1.symm⟩
  | flush | create => exact ⟨_, (Prod.mk.inj (Except.ok.inj hexec)).1.symm⟩
  | _ => exact h.elim

/-- The request `e` was made of the server, and the hook concluded with its reply. -/
def Serviced (B : Backends μ σ) (header : LibfabricMessageHeader) (msgType : LibfabricMessageType)
    (id : Nat) (e : Event) (c c' : Connection μ σ) : Prop :=
  ∃ reply s d, c.server.exec B e = .ok (reply, s) ∧
    Concludes header msgType (c.withServer s) d reply ∧ c' = d.reposted id

variable {request : LibfabricClientRequest}
  (hid : request.lfClientId = request.header.lfClientId)
include hid

theorem ends_execAndAnswer (msgType : LibfabricMessageType) {e : Event} (hacked : Event.Acked e) :
    Ends (execAndAnswer B request msgType e) c
      (fun _ c' => Serviced B request.header msgType request.msgBufferId e c c')
      fun _ => True := by
  unfold execAndAnswer
  rw [Ends.bind_iff]
  refine ends_execServer fun reply s hexec => ?_
  obtain ⟨status, rfl⟩ := hacked.reply hexec
  exact ends_respond hid fun d hsends => ⟨_, s, d, hexec, hsends, rfl⟩

theorem ends_objectRead (outside : Outside) :
    Ends (onObjectRead B request outside) c (fun _ c' => ∃ m,
      decoded blankReadWrite.applySerializerDef request.deserializer = some m ∧
      Serviced B request.header .objReadWriteAck request.msgBufferId
        (.read (objectOf m.objectId) m.offset.toNat m.size.toNat outside.uninitialised) c c')
      fun _ => True := by
  unfold onObjectRead
  rw [Ends.bind_iff]
  refine ends_pop fun m hm => ?_
  rw [Ends.bind_iff, Ends.get_iff, Ends.bind_iff]
  refine ends_execServer fun reply s hexec => ?_
  have hexec' : c.server.read B (objectOf m.objectId) m.offset.toNat m.size.toNat
    outside.uninitialised = .ok (reply, s) := hexec
  cases reply with
  | nothing =>
    -- a read is never silent
    exfalso
    unfold Server.read at hexec'
    split at hexec'
    · cases hexec'
    · split_ifs at hexec'
      · split at hexec' <;> cases hexec'
      · cases hexec'
  | ack status => exact ends_respond hid fun d hsends => ⟨m, hm, _, s, d, hexec, hsends, rfl⟩
  | eager response => exact ends_respond hid fun d hsends => ⟨m, hm, _, s, d, hexec, hsends, rfl⟩
  | rdma payload =>
    dsimp only
    rw [Ends.ite_iff]
    split_ifs with hgroups
    · refine ends_repostReceive ⟨m, hm, _, s, _, hexec, Or.inr ⟨?_, rfl⟩, rfl⟩
      -- without group there is no vector, and so no byte
      unfold Server.read at hexec'
      split at hexec'
      · cases hexec'
      · rename_i segments d hget
        rw [hget] at hgroups
        split_ifs at hexec'
        · split at hexec' <;> cases hexec'
        · obtain rfl := (Reply.rdma.inj (Prod.mk.inj (Except.ok.inj hexec')).1)
          have hnil : buildIovec segments m.offset.toNat m.size.toNat = [] := by
            have hlen := congrArg List.length hgroups
            simp [rdmaGroups, maxRdmaSegs] at hlen
            exact List.length_eq_zero_iff.mp (by omega)
          rw [hnil]
          rfl
    · rw [Ends.bind_iff]
      refine ends_rdmaPost hid fun d hposts => ?_
      exact ends_repostReceive ⟨m, hm, _, s, d, hexec, Or.inl hposts, rfl⟩

omit hid in
/-- A write to be fetched leaves one more started write, and its groups pending if there
are any. -/
theorem rdmaWrite_started {s s' : Server μ σ} {w : WriteRequest} {reply : Reply}
    (h : s.rdmaWrite B w = (reply, s')) : s'.started.length = s.started.length + 1 := by
  unfold Server.rdmaWrite at h
  split at h <;> · obtain rfl := (Prod.mk.inj h).2; simp

theorem ends_objectWrite (outside : Outside) :
    Ends (onObjectWrite B request outside) c (fun _ c' => ∃ m e,
      decoded blankReadWrite.applySerializerDef request.deserializer = some m ∧
      Hook.objectWrite.event c request outside (.readWrite m) = some e ∧
      Serviced B request.header .objReadWriteAck request.msgBufferId e c c') fun _ => True := by
  unfold onObjectWrite
  rw [Ends.bind_iff]
  refine ends_pop fun m hm => ?_
  rw [Ends.bind_iff, Ends.get_iff]
  cases hdata : m.msgHasData with
  | true =>
    cases hpointer : m.optionalData with
    | message index =>
      refine (ends_execAndAnswer hid .objReadWriteAck (e := .eagerWrite _) trivial).mono
        (fun _ c' h => ⟨m, _, hm, ?_, h⟩) fun _ h => h
      simp only [Hook.event, hdata, hpointer]
      rfl
    | null => trivial
    | block bytes => trivial
  | false =>
    have hevent : Hook.objectWrite.event c request outside (.readWrite m) = some
        (.rdmaWrite ⟨objectOf m.objectId, m.offset.toNat, m.size.toNat, outside.clientMemory⟩) := by
      simp only [Hook.event, hdata]
    dsimp only
    rw [Ends.bind_iff]
    refine ends_execServer fun reply s hexec => ?_
    rw [Ends.bind_iff, Ends.get_iff]
    have hexec' := Except.ok.inj hexec
    have hstarted := rdmaWrite_started hexec'
    cases reply with
    | ack status =>
      exact ends_respond hid fun d hsends => ⟨m, _, hm, hevent, _, s, d, hexec, hsends, rfl⟩
    | nothing =>
      dsimp only
      cases hfind : (c.withServer s).server.findPending c.server.started.length with
      | none =>
        exact ends_repostReceive ⟨m, _, hm, hevent, _, s, _, hexec,
          ⟨_, hstarted.symm, Or.inr ⟨hfind, rfl⟩⟩, rfl⟩
      | some p =>
        rw [Ends.bind_iff]
        refine ends_rdmaPost hid fun d hposts => ?_
        exact ends_repostReceive ⟨m, _, hm, hevent, _, s, d, hexec,
          ⟨_, hstarted.symm, Or.inl ⟨by rw [hfind]; rfl, hposts⟩⟩, rfl⟩
    | eager response =>
      exfalso
      unfold Server.rdmaWrite at hexec'
      split at hexec' <;> cases hexec'
    | rdma payload =>
      exfalso
      unfold Server.rdmaWrite at hexec'
      split at hexec' <;> cases hexec'

/-- **Every hook but the one of pings** makes one request of the server and concludes with
its reply. -/
theorem serviced_hook {hook : Hook} (hhook : hook ≠ .pingPong) (outside : Outside) :
    Ends (hook.onMessage B request outside) c (fun _ c' => ∃ body e,
      decoded hook.blank.applySerializerDef request.deserializer = some body ∧
      hook.event c request outside body = some e ∧
      Serviced B request.header hook.ackType request.msgBufferId e c c') fun _ => True := by
  -- a struct is decoded to the body it is
  have hbody : ∀ {α : Type} {m : SerializerM α} {a : α} (f : α → MessageBody),
      decoded m request.deserializer = some a →
      decoded (m >>= fun a => pure (f a)) request.deserializer = some (f a) := by
    intro α m a f ha
    rw [decoded_map, ha]
    rfl
  cases hook with
  | pingPong => exact absurd rfl hhook
  | objectRead =>
    exact (ends_objectRead hid outside).mono
      (fun _ c' ⟨m, hm, h⟩ => ⟨.readWrite m, _, hbody .readWrite hm, rfl, h⟩) fun _ h => h
  | objectWrite =>
    exact (ends_objectWrite hid outside).mono
      (fun _ c' ⟨m, e, hm, he, h⟩ => ⟨.readWrite m, e, hbody .readWrite hm, he, h⟩) fun _ h => h
  | flush =>
    unfold Hook.onMessage onFlush
    rw [Ends.bind_iff]
    exact ends_pop fun m hm => (ends_execAndAnswer hid .objFlushAck (by trivial)).mono
      (fun _ c' h => ⟨.flush m, _, hbody .flush hm, rfl, h⟩) fun _ h => h
  | rangeRegister =>
    unfold Hook.onMessage onRangeRegister
    rw [Ends.bind_iff]
    exact ends_pop fun m hm => (ends_execAndAnswer hid .objRangeRegisterAck (by trivial)).mono
      (fun _ c' h => ⟨.registerRange m, _, hbody .registerRange hm, rfl, h⟩) fun _ h => h
  | rangeUnregister =>
    unfold Hook.onMessage onRangeUnregister
    rw [Ends.bind_iff]
    exact ends_pop fun m hm => (ends_execAndAnswer hid .objRangeUnregisterAck (by trivial)).mono
      (fun _ c' h => ⟨.unregisterRange m, _, hbody .unregisterRange hm, rfl, h⟩) fun _ h => h
  | objectCreate =>
    unfold Hook.onMessage onObjectCreate
    rw [Ends.bind_iff]
    exact ends_pop fun m hm => (ends_execAndAnswer hid .objCreateAck (by trivial)).mono
      (fun _ c' h => ⟨.create m, _, hbody .create hm, rfl, h⟩) fun _ h => h
  | objectCow =>
    unfold Hook.onMessage onObjectCow
    rw [Ends.bind_iff]
    exact ends_pop fun m hm => (ends_execAndAnswer hid .objCowAck (by trivial)).mono
      (fun _ c' h => ⟨.cow m, _, hbody .cow hm, rfl, h⟩) fun _ h => h

/-- A ping is answered, or a transfer is started that keeps the receive buffer. -/
theorem ends_pingPong (outside : Outside) :
    Ends (onPingPong request outside) c (fun _ c' =>
      (∃ d, Sends request.header .pong (.ofStatus 0) c d ∧ c' = d.reposted request.msgBufferId) ∨
        ∃ size, Posts request.header (.ping request.msgBufferId size) c c') fun _ => True := by
  have hrest : ∀ size : UInt64, Ends (if 0 < size then
        rdmaPost request 1 (.ping request.msgBufferId size.toNat)
      else answer request .pong 0) c (fun _ c' =>
      (∃ d, Sends request.header .pong (.ofStatus 0) c d ∧ c' = d.reposted request.msgBufferId) ∨
        ∃ size, Posts request.header (.ping request.msgBufferId size) c c') fun _ => True := by
    intro size
    rw [Ends.ite_iff]
    split_ifs
    · exact ends_rdmaPost hid fun d hposts => Or.inr ⟨_, hposts⟩
    · exact ends_respond hid fun d hsends => Or.inl ⟨d, hsends, rfl⟩
  unfold onPingPong
  rw [Ends.bind_iff]
  refine ends_pop fun ping _ => ?_
  rw [Ends.bind_iff, Ends.get_iff]
  cases ping.eagerData with
  | message index =>
    dsimp only [assertThat]
    rw [Ends.bind_iff, Ends.ite_iff]
    by_cases hdata : ∀ i < ping.eagerSize.toNat, messageData (c.recvBuffers request.msgBufferId)
        c.recvBuffersSize outside.behind index i = 43
    · rw [if_pos hdata, Ends.pure_iff]
      exact hrest _
    · rw [if_neg hdata]
      trivial
  | null => exact hrest _
  | block bytes => exact hrest _

omit hid

-- ---------------------------------------------------------------------------
-- Callbacks
-- ---------------------------------------------------------------------------

/-- The callback of a transfer. -/
def Finishes (B : Backends μ σ) (t : Transfer) (c c' : Connection μ σ) : Prop :=
  match t.work with
  | .write number => ∃ reply s, c.server.exec B (.rdmaDone number) = .ok (reply, s) ∧
      Sends t.request .objReadWriteAck (.ofStatus 0) (c.withServer s) c'
  | .read => Sends t.request .objReadWriteAck (.ofStatus 0) c c'
  | .ping id _ => ∃ d, Sends t.request .pong (.ofStatus 0) c d ∧ c' = d.reposted id

theorem ends_onTransferDone (t : Transfer) (fetched : Bytes) :
    Ends (onTransferDone B t fetched) c (fun _ c' => Finishes B t c c') fun _ => True := by
  obtain ⟨header, work⟩ := t
  cases work with
  | ping id size =>
    simp only [onTransferDone, Ends.bind_iff, assertThat, Ends.ite_iff, Ends.pure_iff,
      Ends.throw_iff]
    split_ifs
    refine ends_sendMessage fun target hfind hfits => ends_repostReceive ?_
    exact ⟨_, ⟨target, hfind, hfits, rfl⟩, rfl⟩
  | write number =>
    unfold onTransferDone
    rw [Ends.bind_iff]
    refine ends_execServer fun reply s hexec => ends_sendMessage fun target hfind hfits => ?_
    exact ⟨reply, s, hexec, target, hfind, hfits, rfl⟩
  | read => exact ends_sendMessage fun target hfind hfits => ⟨target, hfind, hfits, rfl⟩

-- ---------------------------------------------------------------------------
-- Steps
-- ---------------------------------------------------------------------------

theorem onRecv_of_step {id : Nat} {message : List UInt8} {outside : Outside}
    (h : c.Step B (.recv id message outside) c') :
    onRecv B id outside (c.deliver id message) = .ok ((), c') := by
  unfold Connection.Step Connection.exec at h
  dsimp only at h
  split_ifs at h
  cases hrun : onRecv B id outside (c.deliver id message) with
  | error f =>
    rw [hrun] at h
    cases h
  | ok x =>
    rw [hrun] at h
    obtain rfl := Except.ok.inj h
    rfl

/-- The hook that handles an accepted message. -/
theorem hook_of_step {id : Nat} {message : List UInt8} {outside : Outside}
    {r : LibfabricMessageHeader × SerializerBase} (h : c.Step B (.recv id message outside) c')
    (hheader : (c.deliver id message).headerOf id = .ok r) (htype : ¬ IsControl r.1.msgType)
    (hcred : (c.deliver id message).Accepts r.1) :
    ∃ hook, findHook r.1.msgType = some hook ∧
      hook.onMessage B ⟨r.1.lfClientId, id, r.1, r.2⟩ outside (c.deliver id message) =
        .ok ((), c') := by
  have hself : ∀ m : ConnectionM μ σ Unit, Ends m (c.deliver id message)
      (fun _ d => m (c.deliver id message) = .ok ((), d)) fun _ => True := by
    intro m
    unfold Ends
    split
    · assumption
    · trivial
  have hends : Ends (onRecv B id outside) (c.deliver id message) (fun _ d => ∃ hook,
      findHook r.1.msgType = some hook ∧
      hook.onMessage B ⟨r.1.lfClientId, id, r.1, r.2⟩ outside (c.deliver id message) =
        .ok ((), d)) fun _ => True := by
    unfold Connection.headerOf at hheader
    simp only [onRecv, Ends.bind_iff, Ends.get_iff, assertThat, Ends.ite_iff, Ends.pure_iff,
      Ends.throw_iff, hheader, liftSerializer]
    split_ifs
    unfold dispatch
    rw [if_neg fun h => htype (Or.inl h), if_neg fun h => htype (Or.inr (Or.inl h)),
      if_neg fun h => htype (Or.inr (Or.inr h)), Ends.bind_iff, ends_checkAuth, if_pos hcred,
      if_neg (by decide)]
    cases findHook r.1.msgType with
    | none => trivial
    | some hook => exact (hself _).mono (fun _ d hd => ⟨hook, rfl, hd⟩) fun _ h => h
  exact (Ends.of_ok (onRecv_of_step h)).mp hends

/-- The handshake that a message asks for. -/
theorem connected_of_step {id : Nat} {message : List UInt8} {outside : Outside}
    {r : LibfabricMessageHeader × SerializerBase} (h : c.Step B (.recv id message outside) c')
    (hheader : (c.deliver id message).headerOf id = .ok r)
    (htype : r.1.msgType = LibfabricMessageType.connectInit.code) :
    ∃ first, decoded (LibfabricFirstClientMessage.applySerializerDef ⟨fun _ => 0⟩) r.2 =
        some first ∧ c' = (c.deliver id message).connected id r.1 first.addr := by
  have hends : Ends (onRecv B id outside) (c.deliver id message) (fun _ d => ∃ first,
      decoded (LibfabricFirstClientMessage.applySerializerDef ⟨fun _ => 0⟩) r.2 = some first ∧
        d = (c.deliver id message).connected id r.1 first.addr) fun _ => True := by
    unfold Connection.headerOf at hheader
    simp only [onRecv, Ends.bind_iff, Ends.get_iff, assertThat, Ends.ite_iff, Ends.pure_iff,
      Ends.throw_iff, hheader, liftSerializer]
    split_ifs
    unfold dispatch onConnInit
    rw [if_pos htype, Ends.bind_iff]
    refine ends_pop fun first hfirst => ?_
    simp only [Ends.bind_iff, Ends.get_iff, Ends.ite_iff, Ends.throw_iff, Ends.modify_iff]
    split_ifs
    refine ends_sendMessage fun target hfind _ => ends_repostReceive ⟨first, hfirst, ?_⟩
    -- the answer goes to the endpoint just stored
    obtain rfl : ⟨first.addr, r.1.tcpClientId⟩ = target := by simpa using hfind
    rfl
  exact (Ends.of_ok (onRecv_of_step h)).mp hends

/-- The callback of a transfer that is over. -/
theorem finishes_of_step {n : Nat} {fetched : Bytes} (h : c.Step B (.done n fetched) c') :
    ∃ t, c.transfers[n]? = some t ∧
      Finishes B t { c with transfers := c.transfers.eraseIdx n } c' := by
  unfold Connection.Step Connection.exec at h
  dsimp only at h
  cases ht : c.transfers[n]? with
  | none =>
    rw [ht] at h
    cases h
  | some t =>
    rw [ht] at h
    dsimp only at h
    cases hrun : onTransferDone B t fetched { c with transfers := c.transfers.eraseIdx n } with
    | error f =>
      rw [hrun] at h
      cases h
    | ok x =>
      rw [hrun] at h
      obtain rfl := Except.ok.inj h
      exact ⟨t, rfl, (Ends.of_ok hrun).mp (ends_onTransferDone t fetched)⟩

-- ---------------------------------------------------------------------------
-- The server behind the connection
-- ---------------------------------------------------------------------------

theorem Concludes.server {header : LibfabricMessageHeader} {msgType : LibfabricMessageType}
    {reply : Reply} (h : Concludes header msgType c c' reply) : c'.server = c.server := by
  have hsends : ∀ {response}, Sends header msgType response c c' → c'.server = c.server := by
    rintro response ⟨target, -, -, rfl⟩
    rfl
  have hposts : ∀ {work}, Posts header work c c' → c'.server = c.server := by
    rintro work ⟨target, operations, -, rfl⟩
    rfl
  cases reply with
  | ack status => exact hsends h
  | eager response => exact hsends h
  | rdma payload =>
    rcases h with h | ⟨-, rfl⟩
    · exact hposts h
    · rfl
  | nothing =>
    obtain ⟨number, -, ⟨-, h⟩ | ⟨-, rfl⟩⟩ := h
    · exact hposts h
    · rfl

/-- The server made the request that was asked of it, or is as it was. -/
def Server.Makes (B : Backends μ σ) (s : Server μ σ) (e : Option Event) (s' : Server μ σ) : Prop :=
  match e with
  | some e => ∃ reply, s.exec B e = .ok (reply, s')
  | none => s' = s

/-- **A message makes the request of its hook, and no other.** -/
theorem makes_of_recv {id : Nat} {message : List UInt8} {outside : Outside}
    (h : c.Step B (.recv id message outside) c') :
    Server.Makes B c.server ((c.deliver id message).eventOf id outside) c'.server := by
  obtain ⟨-, r, hheader, hreceived⟩ := step_recv h
  obtain ⟨header, d⟩ := r
  have hevent : (c.deliver id message).eventOf id outside =
      if IsControl header.msgType ∨ ¬ (c.deliver id message).Accepts header then none
      else (findHook header.msgType).bind fun hook =>
        (decoded hook.blank.applySerializerDef d).bind
          (hook.event (c.deliver id message) ⟨header.lfClientId, id, header, d⟩ outside) := by
    unfold Connection.eventOf
    rw [hheader]
  cases hreceived with
  | handshake htype addr hc' =>
    have hcontrol : IsControl header.msgType := Or.inl htype
    rw [hevent, if_pos (Or.inl hcontrol), hc']
    rfl
  | badAuth htype _ hc' =>
    have hcontrol : IsControl header.msgType := Or.inr (Or.inl htype)
    rw [hevent, if_pos (Or.inl hcontrol), hc']
    rfl
  | refused _ hcred target _ hc' =>
    rw [hevent, if_pos (Or.inr hcred), hc']
    rfl
  | accepted htype hcred =>
    obtain ⟨hook, hhook, hrun⟩ := hook_of_step h hheader htype hcred
    have hhook : findHook header.msgType = some hook := hhook
    rw [hevent, if_neg (by rintro (hno | hno); exacts [htype hno, hno hcred]), hhook]
    dsimp only [Option.bind_some]
    by_cases hping : hook = .pingPong
    · subst hping
      have hnone : (decoded Hook.pingPong.blank.applySerializerDef d).bind (Hook.pingPong.event
          (c.deliver id message) ⟨header.lfClientId, id, header, d⟩ outside) = none := by
        cases decoded Hook.pingPong.blank.applySerializerDef d <;> rfl
      rw [hnone]
      obtain ⟨d', ⟨target, -, -, rfl⟩, rfl⟩ | ⟨size, target, operations, -, rfl⟩ :=
        (Ends.of_ok hrun).mp (ends_pingPong rfl outside)
      · rfl
      · rfl
    · obtain ⟨body, e, hbody, he, reply, s, d', hexec, hconcludes, rfl⟩ :=
        (Ends.of_ok hrun).mp (serviced_hook rfl hping outside)
      have hbody : decoded hook.blank.applySerializerDef d = some body := hbody
      rw [hbody]
      dsimp only [Option.bind_some]
      rw [he]
      refine ⟨reply, ?_⟩
      rw [show (d'.reposted id).server = s from hconcludes.server]
      exact hexec

/-- The end of a transfer makes the request that its write waits for, or none. -/
theorem makes_of_done {n : Nat} {t : Transfer} {fetched : Bytes} (ht : c.transfers[n]? = some t)
    (h : c.Step B (.done n fetched) c') :
    Server.Makes B c.server t.event c'.server := by
  obtain ⟨t', ht', hfinishes⟩ := finishes_of_step h
  obtain rfl := Option.some.inj (ht.symm.trans ht')
  obtain ⟨header, work⟩ := t
  cases work with
  | ping id size =>
    obtain ⟨d, ⟨target, -, -, rfl⟩, rfl⟩ := hfinishes
    rfl
  | read =>
    obtain ⟨target, -, -, rfl⟩ := hfinishes
    rfl
  | write number =>
    obtain ⟨reply, s, hexec, target, -, -, rfl⟩ := hfinishes
    exact ⟨reply, hexec⟩

end IoCatcher.Network
