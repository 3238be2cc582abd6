import IoCatcher.Network.Answering

/-!
# IO Catcher — when the handlers return

`Answering` says what a handler did when it returned. This module says when it does: the
server handles the request that the message makes, the answer fits a message, and the endpoint
of the client is known.

* `returns_hook`     — the hooks of the requests that clients make;
* `step_of_accepted` — a message for such a hook;
* `step_of_connInit` — a handshake;
* `step_of_done`     — the end of a transfer.
-/

namespace IoCatcher.Network

open Wire

variable {μ σ : Type} {B : Backends μ σ} {c c' : Connection μ σ}

-- ---------------------------------------------------------------------------
-- Operations
-- ---------------------------------------------------------------------------

section

variable {request : LibfabricClientRequest} {α : Type} {post : Unit → Connection μ σ → Prop}

theorem returns_pop {m : SerializerM α} {a : α} {post : α → Connection μ σ → Prop}
    (hm : decoded m request.deserializer = some a) (h : post a c) :
    Ends (request.pop m) c post fun _ => False := by
  simp only [LibfabricClientRequest.pop, Ends.bind_iff]
  unfold decoded at hm
  cases hr : m request.deserializer with
  | error f =>
    rw [hr] at hm
    cases hm
  | ok r =>
    rw [hr] at hm
    obtain rfl := Option.some.inj hm
    exact h

theorem returns_execServer {e : Event} {reply : Reply} {s : Server μ σ}
    {post : Reply → Connection μ σ → Prop} (hexec : c.server.exec B e = .ok (reply, s))
    (h : post reply (c.withServer s)) : Ends (execServer B e) c post fun _ => False := by
  simp only [execServer, Ends.bind_iff, Ends.get_iff]
  rw [hexec]
  exact h

theorem returns_sendMessage {r : Option LibfabricMessageHeader} {msgType : LibfabricMessageType}
    {destinationEpId : Int} {body : MessageBody} {target : Endpoint}
    (hfind : c.remoteLiAddr destinationEpId = some target) (hfits : c.Fits msgType body)
    (h : post () (c.sent r target msgType body)) :
    Ends (sendMessage r msgType destinationEpId body) c post fun _ => False := by
  obtain ⟨packed, hpack, hroom⟩ := hfits
  simp only [sendMessage, Ends.bind_iff, Ends.get_iff, assertThat, Ends.ite_iff, findEndpoint,
    Ends.pure_iff, Ends.throw_iff, hpack, liftSerializer, if_pos hroom, hfind]
  exact h

theorem returns_repostReceive {id : Nat} (hid : id < c.recvBuffersCount)
    (h : post () (c.reposted id)) : Ends (repostReceive id) c post fun _ => False := by
  simp only [repostReceive, Ends.bind_iff, Ends.get_iff, Ends.ite_iff, Ends.modify_iff]
  rw [if_pos hid]
  exact h

theorem returns_rdmaPost (hid : request.lfClientId = request.header.lfClientId)
    {operations : Nat} {work : TransferWork} {target : Endpoint}
    (hfind : c.endpointOf request.header = some target)
    (h : post () (c.transferring request.header target operations work)) :
    Ends (rdmaPost request operations work) c post fun _ => False := by
  unfold Connection.endpointOf at hfind
  simp only [rdmaPost, findEndpoint, issue, Ends.bind_iff, Ends.get_iff, Ends.modify_iff, hid,
    hfind, Ends.pure_iff]
  exact h

theorem returns_respond (hid : request.lfClientId = request.header.lfClientId)
    {msgType : LibfabricMessageType} {response : LibfabricResponse} {target : Endpoint}
    (hfind : c.endpointOf request.header = some target)
    (hfits : c.Fits msgType (.response response))
    (hbuffer : request.msgBufferId < c.recvBuffersCount) :
    Ends (do
      sendMessage (some request.header) msgType (SizeT.toInt32 request.lfClientId.toNat)
        (.response response)
      request.terminate : ConnectionM μ σ Unit) c (fun _ _ => True) fun _ => False := by
  rw [Ends.bind_iff, hid]
  exact returns_sendMessage hfind hfits (returns_repostReceive hbuffer trivial)

end

-- ---------------------------------------------------------------------------
-- Hooks
-- ---------------------------------------------------------------------------

/-- The struct that is decoded to a body. -/
theorem decoded_of_body {α : Type} {m : SerializerM α} {f : α → MessageBody} {s : SerializerBase}
    {body : MessageBody} (h : decoded (m >>= fun a => pure (f a)) s = some body) :
    ∃ a, decoded m s = some a ∧ body = f a := by
  rw [decoded_map] at h
  obtain ⟨a, ha, rfl⟩ := Option.map_eq_some_iff.mp h
  exact ⟨a, ha, rfl⟩

/-- The server handles the request, and the answer can be sent. -/
structure Servable (B : Backends μ σ) (c : Connection μ σ) (request : LibfabricClientRequest)
    (msgType : LibfabricMessageType) (e : Event) (reply : Reply) (s : Server μ σ)
    (target : Endpoint) : Prop where
  exec   : c.server.exec B e = .ok (reply, s)
  found  : c.endpointOf request.header = some target
  fits   : c.Fits msgType (.response (Reply.response reply))
  buffer : request.msgBufferId < c.recvBuffersCount

section

variable {request : LibfabricClientRequest} {e : Event} {reply : Reply} {s : Server μ σ}
  {target : Endpoint} (hid : request.lfClientId = request.header.lfClientId)
include hid

theorem returns_execAndAnswer {msgType : LibfabricMessageType} (hacked : Event.Acked e)
    (h : Servable B c request msgType e reply s target) :
    Ends (execAndAnswer B request msgType e) c (fun _ _ => True) fun _ => False := by
  obtain ⟨status, rfl⟩ := hacked.reply h.exec
  unfold execAndAnswer
  rw [Ends.bind_iff]
  exact returns_execServer h.exec (returns_respond hid h.found h.fits h.buffer)

theorem returns_objectRead {outside : Outside} {m : LibfabricObjReadWriteInfos}
    (hm : decoded blankReadWrite.applySerializerDef request.deserializer = some m)
    (h : Servable B c request .objReadWriteAck
      (.read (objectOf m.objectId) m.offset.toNat m.size.toNat outside.uninitialised) reply s
      target) :
    Ends (onObjectRead B request outside) c (fun _ _ => True) fun _ => False := by
  unfold onObjectRead
  rw [Ends.bind_iff]
  refine returns_pop hm ?_
  rw [Ends.bind_iff, Ends.get_iff, Ends.bind_iff]
  refine returns_execServer h.exec ?_
  have hterminate : Ends (request.terminate : ConnectionM μ σ Unit) (c.withServer s)
      (fun _ _ => True) fun _ => False := returns_repostReceive h.buffer trivial
  cases reply with
  | nothing => exact hterminate
  | ack status => exact returns_respond hid h.found h.fits h.buffer
  | eager response => exact returns_respond hid h.found h.fits h.buffer
  | rdma payload =>
    dsimp only
    rw [Ends.ite_iff]
    split_ifs
    · exact hterminate
    · rw [Ends.bind_iff]
      exact returns_rdmaPost hid h.found (returns_repostReceive h.buffer trivial)

theorem returns_objectWrite {outside : Outside} {m : LibfabricObjReadWriteInfos}
    (hm : decoded blankReadWrite.applySerializerDef request.deserializer = some m)
    (he : Hook.objectWrite.event c request outside (.readWrite m) = some e)
    (h : Servable B c request .objReadWriteAck e reply s target) :
    Ends (onObjectWrite B request outside) c (fun _ _ => True) fun _ => False := by
  unfold onObjectWrite
  rw [Ends.bind_iff]
  refine returns_pop hm ?_
  rw [Ends.bind_iff, Ends.get_iff]
  simp only [Hook.event] at he
  cases hdata : m.msgHasData with
  | true =>
    rw [hdata] at he
    cases hpointer : m.optionalData with
    | message index =>
      rw [hpointer] at he
      obtain rfl := Option.some.inj he
      exact returns_execAndAnswer hid trivial h
    | null =>
      rw [hpointer] at he
      cases he
    | block bytes =>
      rw [hpointer] at he
      cases he
  | false =>
    rw [hdata] at he
    obtain rfl := Option.some.inj he
    dsimp only
    rw [Ends.bind_iff]
    refine returns_execServer h.exec ?_
    rw [Ends.bind_iff, Ends.get_iff]
    cases reply with
    | ack status => exact returns_respond hid h.found h.fits h.buffer
    | nothing | eager response | rdma payload =>
      -- the write is fetched, or there is nothing to fetch
      dsimp only
      cases (c.withServer s).server.findPending c.server.started.length with
      | none => exact returns_repostReceive h.buffer trivial
      | some p =>
        dsimp only
        rw [Ends.bind_iff]
        exact returns_rdmaPost hid h.found (returns_repostReceive h.buffer trivial)

/-- **A hook returns** when the server handles its request and the answer can be sent. -/
theorem returns_hook {hook : Hook} {outside : Outside} {body : MessageBody}
    (hbody : decoded hook.blank.applySerializerDef request.deserializer = some body)
    (he : hook.event c request outside body = some e)
    (h : Servable B c request hook.ackType e reply s target) :
    Ends (hook.onMessage B request outside) c (fun _ _ => True) fun _ => False := by
  cases hook with
  | pingPong => cases body <;> cases he
  | objectRead =>
    obtain ⟨m, hm, rfl⟩ := decoded_of_body hbody
    obtain rfl := Option.some.inj he
    exact returns_objectRead hid hm h
  | objectWrite =>
    obtain ⟨m, hm, rfl⟩ := decoded_of_body hbody
    exact returns_objectWrite hid hm he h
  | flush =>
    obtain ⟨m, hm, rfl⟩ := decoded_of_body hbody
    obtain rfl := Option.some.inj he
    unfold Hook.onMessage onFlush
    rw [Ends.bind_iff]
    exact returns_pop hm (returns_execAndAnswer hid (by trivial) h)
  | rangeRegister =>
    obtain ⟨m, hm, rfl⟩ := decoded_of_body hbody
    obtain rfl := Option.some.inj he
    unfold Hook.onMessage onRangeRegister
    rw [Ends.bind_iff]
    exact returns_pop hm (returns_execAndAnswer hid (by trivial) h)
  | rangeUnregister =>
    obtain ⟨m, hm, rfl⟩ := decoded_of_body hbody
    obtain rfl := Option.some.inj he
    unfold Hook.onMessage onRangeUnregister
    rw [Ends.bind_iff]
    exact returns_pop hm (returns_execAndAnswer hid (by trivial) h)
  | objectCreate =>
    obtain ⟨m, hm, rfl⟩ := decoded_of_body hbody
    obtain rfl := Option.some.inj he
    unfold Hook.onMessage onObjectCreate
    rw [Ends.bind_iff]
    exact returns_pop hm (returns_execAndAnswer hid (by trivial) h)
  | objectCow =>
    obtain ⟨m, hm, rfl⟩ := decoded_of_body hbody
    obtain rfl := Option.some.inj he
    unfold Hook.onMessage onObjectCow
    rw [Ends.bind_iff]
    exact returns_pop hm (returns_execAndAnswer hid (by trivial) h)

end

-- ---------------------------------------------------------------------------
-- Steps
-- ---------------------------------------------------------------------------

/-- A message is received when its handler returns. -/
theorem step_of_onRecv {id : Nat} {message : List UInt8} {outside : Outside}
    (hposted : id ∈ c.posted) (hroom : message.length ≤ c.recvBuffersSize)
    (h : Ends (onRecv B id outside) (c.deliver id message) (fun _ _ => True) fun _ => False) :
    ∃ c', c.Step B (.recv id message outside) c' := by
  obtain ⟨⟨⟩, c', hrun, -⟩ := h.returns
  refine ⟨c', ?_⟩
  unfold Connection.Step Connection.exec
  dsimp only
  rw [if_pos ⟨hposted, hroom⟩, hrun]
  rfl

/-- A message that is accepted and whose hook returns is received. -/
theorem step_of_accepted {id : Nat} {message : List UInt8} {outside : Outside}
    {header : LibfabricMessageHeader} {d : SerializerBase} {hook : Hook} {body : MessageBody}
    {e : Event} {reply : Reply} {s : Server μ σ} {target : Endpoint}
    (hposted : id ∈ c.posted) (hroom : message.length ≤ c.recvBuffersSize)
    (hheader : (c.deliver id message).headerOf id = .ok (header, d))
    (htype : ¬ IsControl header.msgType) (hcred : (c.deliver id message).Accepts header)
    (hhook : findHook header.msgType = some hook)
    (hbody : decoded hook.blank.applySerializerDef d = some body)
    (he : hook.event (c.deliver id message) ⟨header.lfClientId, id, header, d⟩ outside body =
      some e)
    (h : Servable B (c.deliver id message) ⟨header.lfClientId, id, header, d⟩ hook.ackType e
      reply s target) :
    ∃ c', c.Step B (.recv id message outside) c' := by
  refine step_of_onRecv hposted hroom ?_
  unfold Connection.headerOf at hheader
  simp only [onRecv, Ends.bind_iff, Ends.get_iff, assertThat, Ends.ite_iff, Ends.pure_iff,
    Ends.throw_iff, hheader, liftSerializer, if_pos h.buffer]
  unfold dispatch
  rw [if_neg fun h => htype (Or.inl h), if_neg fun h => htype (Or.inr (Or.inl h)),
    if_neg fun h => htype (Or.inr (Or.inr h)), Ends.bind_iff, ends_checkAuth, if_pos hcred,
    if_neg (by decide), hhook]
  exact returns_hook rfl hbody he h

/-- A handshake is received. -/
theorem step_of_connInit {id : Nat} {message : List UInt8} {outside : Outside}
    {header : LibfabricMessageHeader} {d : SerializerBase} {first : LibfabricFirstClientMessage}
    (hposted : id ∈ c.posted) (hroom : message.length ≤ c.recvBuffersSize)
    (hheader : (c.deliver id message).headerOf id = .ok (header, d))
    (htype : header.msgType = LibfabricMessageType.connectInit.code)
    (hfirst : decoded (LibfabricFirstClientMessage.applySerializerDef ⟨fun _ => 0⟩) d = some first)
    (haddr : c.fiAvInsert first.addr = true)
    (hfits : c.Fits .assignId (.firstHandshake ⟨2, c.nextEndpointId⟩))
    (hbuffer : id < c.recvBuffersCount) : ∃ c', c.Step B (.recv id message outside) c' := by
  refine step_of_onRecv hposted hroom ?_
  have hbuffer' : id < (c.deliver id message).recvBuffersCount := hbuffer
  have haddr' : ¬ (c.deliver id message).fiAvInsert first.addr = false := by
    rw [show (c.deliver id message).fiAvInsert first.addr = true from haddr]
    simp
  unfold Connection.headerOf at hheader
  simp only [onRecv, Ends.bind_iff, Ends.get_iff, assertThat, Ends.ite_iff, Ends.pure_iff,
    Ends.throw_iff, hheader, liftSerializer, if_pos hbuffer']
  unfold dispatch onConnInit
  rw [if_pos htype, Ends.bind_iff]
  refine returns_pop hfirst ?_
  simp only [Ends.bind_iff, Ends.get_iff, Ends.ite_iff, Ends.throw_iff, Ends.modify_iff]
  rw [if_neg haddr']
  -- the answer goes to the endpoint just stored
  generalize SizeT.toInt32 (c.deliver id message).nextEndpointId.toNat = key
  exact returns_sendMessage (if_pos rfl) hfits (returns_repostReceive hbuffer trivial)

/-- A transfer of a read or a write ends. -/
theorem step_of_done {n : Nat} {t : Transfer} {target : Endpoint} (fetched : Bytes)
    (hin : c.transfers[n]? = some t) (hfind : c.endpointOf t.request = some target)
    (hfits : c.Fits .objReadWriteAck (.response (.ofStatus 0))) (hping : t.held = none)
    (hdone : ∀ number, t.work = .write number → ∃ reply s,
      c.server.exec B (.rdmaDone number) = .ok (reply, s)) :
    ∃ c', c.Step B (.done n fetched) c' := by
  have hreturns : Ends (onTransferDone B t fetched)
      { c with transfers := c.transfers.eraseIdx n } (fun _ _ => True) fun _ => False := by
    obtain ⟨header, work⟩ := t
    cases work with
    | ping id size => cases hping
    | write number =>
      obtain ⟨reply, s, hexec⟩ := hdone number rfl
      unfold onTransferDone
      rw [Ends.bind_iff]
      exact returns_execServer hexec (returns_sendMessage hfind hfits trivial)
    | read => exact returns_sendMessage hfind hfits trivial
  obtain ⟨⟨⟩, c', hrun, -⟩ := hreturns.returns
  refine ⟨c', ?_⟩
  unfold Connection.Step Connection.exec
  dsimp only
  rw [hin]
  dsimp only
  rw [hrun]
  rfl

end IoCatcher.Network
