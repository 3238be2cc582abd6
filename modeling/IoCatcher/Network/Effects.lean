import IoCatcher.Lib.Run
import IoCatcher.Network.Connection

/-!
# IO Catcher — what handling a message can change

Everything a hook does to the connection goes through a few operations: it runs
the server, sends to the endpoint its client named, starts transfers, and gives
its receive buffer back. `Serves` says so for one request; the results about
the connection use it and never look inside the hooks.
-/

namespace IoCatcher.Network

open Wire

variable {μ σ : Type} {B : Backends μ σ}

-- ---------------------------------------------------------------------------
-- Serving a request
-- ---------------------------------------------------------------------------

/-- The configuration, the registry and the buffer contents are the same. -/
structure Fixed (c c' : Connection μ σ) : Prop where
  recvBuffersSize  : c'.recvBuffersSize = c.recvBuffersSize
  recvBuffersCount : c'.recvBuffersCount = c.recvBuffersCount
  recvBuffers      : c'.recvBuffers = c.recvBuffers
  msgBufferSize    : c'.msgBufferSize = c.msgBufferSize
  checkClientAuth  : c'.checkClientAuth = c.checkClientAuth
  hookOnBadAuth    : c'.hookOnBadAuth = c.hookOnBadAuth
  fiAvInsert       : c'.fiAvInsert = c.fiAvInsert
  clients          : c'.clients = c.clients

theorem Fixed.refl (c : Connection μ σ) : Fixed c c := ⟨rfl, rfl, rfl, rfl, rfl, rfl, rfl, rfl⟩

theorem Fixed.trans {c c' c'' : Connection μ σ} (h : Fixed c c') (h' : Fixed c' c'') :
    Fixed c c'' :=
  ⟨h'.1.trans h.1, h'.2.trans h.2, h'.3.trans h.3, h'.4.trans h.4, h'.5.trans h.5,
    h'.6.trans h.6, h'.7.trans h.7, h'.8.trans h.8⟩

/-- The endpoint the header of a request names. -/
def Connection.endpointOf (c : Connection μ σ) (header : LibfabricMessageHeader) :
    Option Endpoint :=
  c.remoteLiAddr (SizeT.toInt32 header.lfClientId.toNat)

/-- The connection served the request: it gave the receive buffers `ps` back,
started the transfers `ts`, and everything it sent is for this request and went
to the endpoint its header names, which is there when a transfer was started. -/
structure Serves (header : LibfabricMessageHeader) (ps : List Nat) (ts : List Transfer)
    (c c' : Connection μ σ) : Prop where
  fixed     : Fixed c c'
  endpoints : c'.remoteLiAddr = c.remoteLiAddr
  nextId    : c'.nextEndpointId = c.nextEndpointId
  posted    : c'.posted = c.posted ++ ps
  transfers : c'.transfers = c.transfers ++ ts
  found     : ts ≠ [] → (c.endpointOf header).isSome
  issued    : ∃ l, c'.issued = c.issued ++ l ∧
    ∀ e ∈ l, e.request = some header ∧ c.endpointOf header = some e.target

namespace Serves

variable {header : LibfabricMessageHeader} {ps ps' : List Nat} {ts ts' : List Transfer}
  {c c' c'' : Connection μ σ}

theorem refl (c : Connection μ σ) : Serves header [] [] c c :=
  ⟨.refl c, rfl, rfl, (List.append_nil _).symm, (List.append_nil _).symm, fun h => absurd rfl h, [],
    (List.append_nil _).symm, fun _ he => absurd he List.not_mem_nil⟩

theorem trans (h : Serves header ps ts c c') (h' : Serves header ps' ts' c' c'') :
    Serves header (ps ++ ps') (ts ++ ts') c c'' := by
  obtain ⟨l, hl, hmem⟩ := h.issued
  obtain ⟨l', hl', hmem'⟩ := h'.issued
  have hsame : c'.endpointOf header = c.endpointOf header := by
    unfold Connection.endpointOf
    rw [h.endpoints]
  refine ⟨h.fixed.trans h'.fixed, h'.endpoints.trans h.endpoints, h'.nextId.trans h.nextId, ?_, ?_,
    fun hne => ?_, l ++ l', ?_, ?_⟩
  · rw [h'.posted, h.posted, List.append_assoc]
  · rw [h'.transfers, h.transfers, List.append_assoc]
  · by_cases hts : ts = []
    · rw [hts] at hne
      exact hsame ▸ h'.found hne
    · exact h.found hts
  · rw [hl', hl, List.append_assoc]
  · intro e he
    obtain he | he := List.mem_append.mp he
    · exact hmem e he
    · exact ⟨(hmem' e he).1, hsame ▸ (hmem' e he).2⟩

/-- Only the server changed. -/
theorem ofServer (server : Server μ σ) (c : Connection μ σ) :
    Serves header [] [] c { c with server := server } :=
  ⟨⟨rfl, rfl, rfl, rfl, rfl, rfl, rfl, rfl⟩, rfl, rfl, (List.append_nil _).symm,
    (List.append_nil _).symm, fun h => absurd rfl h, [], (List.append_nil _).symm,
    fun _ he => absurd he List.not_mem_nil⟩

end Serves

/-- The receive buffer a transfer keeps. -/
def Transfer.held (t : Transfer) : Option Nat :=
  match t.work with
  | .ping msgBufferId _ => some msgBufferId
  | _ => none

/-- A request was handled: its receive buffer is given back, or kept by one
transfer. -/
def Handled (header : LibfabricMessageHeader) (id : Nat) (c c' : Connection μ σ) : Prop :=
  (∃ ts, (∀ t ∈ ts, t.request = header ∧ t.held = none) ∧ Serves header [id] ts c c') ∨
    ∃ size, Serves header [] [⟨header, .ping id size⟩] c c'

-- ---------------------------------------------------------------------------
-- Operations
-- ---------------------------------------------------------------------------

section

variable {header : LibfabricMessageHeader} {α β : Type} {m : ConnectionM μ σ α}
  {k : α → ConnectionM μ σ β} {ps ps' : List Nat} {ts ts' : List Transfer} {id : Nat}

theorem Moves.serves (h : Moves m (Serves header ps ts))
    (hk : ∀ a, Moves (k a) (Serves header ps' ts')) :
    Moves (m >>= k) (Serves header (ps ++ ps') (ts ++ ts')) :=
  h.bind hk fun _ _ _ h h' => h.trans h'

theorem Moves.handled (h : Moves m (Serves header [] []))
    (hk : ∀ a, Moves (k a) (Handled header id)) :
    Moves (m >>= k) (Handled header id) := by
  refine h.bind hk ?_
  rintro c c' c'' h (⟨ts, hts, h'⟩ | ⟨size, h'⟩)
  · exact Or.inl ⟨ts, hts, h.trans h'⟩
  · exact Or.inr ⟨size, h.trans h'⟩

end

section

variable {header : LibfabricMessageHeader}

theorem moves_get : Moves (get : ConnectionM μ σ (Connection μ σ)) (Serves header [] []) :=
  .get .refl

/-- A computation that changes nothing. -/
theorem moves_liftSerializer {α : Type} (r : Except SerializerFault α) :
    Moves (liftSerializer r : ConnectionM μ σ α) (Serves header [] []) := by
  unfold liftSerializer
  cases r with
  | ok a => exact .pure .refl
  | error f => exact .throw

theorem moves_pop {α : Type} (request : LibfabricClientRequest) (m : SerializerM α) :
    Moves (request.pop m : ConnectionM μ σ α) (Serves header [] []) :=
  (moves_liftSerializer _).bind (fun _ => .pure .refl) fun _ _ _ h h' => h.trans h'

theorem moves_assertThat (p : Prop) [Decidable p] :
    Moves (assertThat p : ConnectionM μ σ Unit) (Serves header [] []) :=
  .ite (fun _ => .pure .refl) fun _ => .throw

theorem moves_execServer (e : Event) :
    Moves (execServer B e : ConnectionM μ σ Reply) (Serves header [] []) := by
  intro c
  simp only [execServer, Ends.bind_iff, Ends.get_iff]
  cases c.server.exec B e with
  | error f => trivial
  | ok r => exact Serves.ofServer r.2 c

/-- A message goes to the endpoint it is sent to. -/
theorem moves_sendMessage (request : Option LibfabricMessageHeader)
    (msgType : LibfabricMessageType) (destinationEpId : Int) (body : MessageBody) :
    Moves (sendMessage request msgType destinationEpId body : ConnectionM μ σ Unit) fun c c' =>
      ∃ target, c.remoteLiAddr destinationEpId = some target ∧
        c' = { c with issued := c.issued ++ [⟨request, target, .message msgType body⟩] } := by
  intro c
  simp only [sendMessage, Ends.bind_iff, Ends.get_iff, assertThat, Ends.ite_iff, findEndpoint,
    Ends.pure_iff, Ends.throw_iff]
  cases packMessage (fillProtocolHeader msgType) body (fun _ => 0) c.msgBufferSize with
  | error f => trivial
  | ok packed =>
    simp only [liftSerializer, Ends.pure_iff]
    split_ifs
    cases hfind : c.remoteLiAddr destinationEpId with
    | none => trivial
    | some target => exact ⟨target, rfl, rfl⟩

/-- A message for the request goes to the endpoint its header names. -/
theorem moves_sendResponse (msgType : LibfabricMessageType) (body : MessageBody) :
    Moves (sendMessage (some header) msgType (SizeT.toInt32 header.lfClientId.toNat) body :
      ConnectionM μ σ Unit) (Serves header [] []) := by
  refine (moves_sendMessage _ _ _ _).mono ?_
  rintro c c' ⟨target, hfind, rfl⟩
  refine ⟨⟨rfl, rfl, rfl, rfl, rfl, rfl, rfl, rfl⟩, rfl, rfl, (List.append_nil _).symm,
    (List.append_nil _).symm, fun h => absurd rfl h, [_], rfl, fun e he => ?_⟩
  rw [List.mem_singleton.mp he]
  exact ⟨rfl, hfind⟩

theorem moves_repostReceive (id : Nat) :
    Moves (repostReceive id : ConnectionM μ σ Unit) fun c c' =>
      c' = { c with posted := c.posted ++ [id] } := by
  intro c
  simp only [repostReceive, Ends.bind_iff, Ends.get_iff, Ends.ite_iff, Ends.modify_iff,
    Ends.throw_iff]
  split_ifs

theorem moves_terminate (id : Nat) :
    Moves (repostReceive id : ConnectionM μ σ Unit) (Serves header [id] []) := by
  refine (moves_repostReceive id).mono ?_
  rintro c c' rfl
  exact ⟨⟨rfl, rfl, rfl, rfl, rfl, rfl, rfl, rfl⟩, rfl, rfl, rfl, (List.append_nil _).symm,
    fun h => absurd rfl h, [], (List.append_nil _).symm, fun _ he => absurd he List.not_mem_nil⟩

theorem moves_rdmaPost {request : LibfabricClientRequest}
    (hid : request.lfClientId = request.header.lfClientId) (operations : Nat)
    (work : TransferWork) :
    Moves (rdmaPost request operations work : ConnectionM μ σ Unit)
      (Serves request.header [] [⟨request.header, work⟩]) := by
  intro c
  simp only [rdmaPost, findEndpoint, issue, Ends.bind_iff, Ends.get_iff, Ends.modify_iff, hid]
  cases hfind : c.remoteLiAddr (SizeT.toInt32 request.header.lfClientId.toNat) with
  | none => trivial
  | some target =>
    refine ⟨⟨rfl, rfl, rfl, rfl, rfl, rfl, rfl, rfl⟩, rfl, rfl, (List.append_nil _).symm, rfl,
      fun _ => by unfold Connection.endpointOf; rw [hfind]; rfl, [_], rfl, fun e he => ?_⟩
    rw [List.mem_singleton.mp he]
    exact ⟨rfl, hfind⟩

end

-- ---------------------------------------------------------------------------
-- Hooks
-- ---------------------------------------------------------------------------

variable {request : LibfabricClientRequest}

theorem handled_of_serves {m : ConnectionM μ σ Unit}
    (h : Moves m (Serves request.header [request.msgBufferId] [])) :
    Moves m (Handled request.header request.msgBufferId) :=
  h.mono fun _ _ h => Or.inl ⟨[], fun _ ht => absurd ht List.not_mem_nil, h⟩

variable (hid : request.lfClientId = request.header.lfClientId)
include hid

theorem moves_answer (msgType : LibfabricMessageType) (status : Int) :
    Moves (answer request msgType status : ConnectionM μ σ Unit)
      (Serves request.header [request.msgBufferId] []) := by
  unfold answer sendResponse
  rw [hid]
  exact Moves.serves (moves_sendResponse _ _) fun _ => moves_terminate _

theorem moves_execAndAnswer (msgType : LibfabricMessageType) (e : Event) :
    Moves (execAndAnswer B request msgType e) (Handled request.header request.msgBufferId) := by
  refine Moves.handled (moves_execServer e) fun reply => ?_
  cases reply with
  | ack status => exact handled_of_serves (moves_answer hid msgType status)
  | _ => exact handled_of_serves (moves_terminate _)

theorem handled_pingPong (outside : Outside) :
    Moves (onPingPong request outside : ConnectionM μ σ Unit)
      (Handled request.header request.msgBufferId) := by
  refine Moves.handled (moves_pop _ _) fun ping => Moves.handled moves_get fun c => ?_
  have hrest : Moves (if 0 < ping.rdmaSize then
        rdmaPost request 1 (.ping request.msgBufferId ping.rdmaSize.toNat)
      else answer request .pong 0 : ConnectionM μ σ Unit)
      (Handled request.header request.msgBufferId) := by
    refine .ite (fun _ => ?_) fun _ => handled_of_serves (moves_answer hid _ _)
    exact (moves_rdmaPost hid _ _).mono fun _ _ h => Or.inr ⟨_, h⟩
  cases ping.eagerData with
  | message index => exact Moves.handled (moves_assertThat _) fun _ => hrest
  | null => exact hrest
  | block bytes => exact hrest

theorem handled_objectRead (outside : Outside) :
    Moves (onObjectRead B request outside) (Handled request.header request.msgBufferId) := by
  refine Moves.handled (moves_pop _ _) fun m => Moves.handled moves_get fun c =>
    Moves.handled (moves_execServer _) fun reply => ?_
  have hend : Moves (request.terminate : ConnectionM μ σ Unit)
      (Serves request.header [request.msgBufferId] []) := moves_terminate _
  cases reply with
  | nothing => exact handled_of_serves hend
  | ack status =>
    unfold sendResponse
    rw [hid]
    exact handled_of_serves (Moves.serves (moves_sendResponse _ _) fun _ => hend)
  | eager response =>
    unfold sendFragments
    rw [hid]
    exact handled_of_serves (Moves.serves (moves_sendResponse _ _) fun _ => hend)
  | rdma payload =>
    refine .ite (fun _ => handled_of_serves hend) fun _ => ?_
    refine (Moves.serves (moves_rdmaPost hid _ .read) fun _ => hend).mono fun _ _ h => ?_
    exact Or.inl ⟨_, fun t ht => by rw [List.mem_singleton.mp ht]; exact ⟨rfl, rfl⟩, h⟩

theorem handled_objectWrite (outside : Outside) :
    Moves (onObjectWrite B request outside) (Handled request.header request.msgBufferId) := by
  refine Moves.handled (moves_pop _ _) fun m => Moves.handled moves_get fun c => ?_
  have hend : Moves (request.terminate : ConnectionM μ σ Unit)
      (Serves request.header [request.msgBufferId] []) := moves_terminate _
  cases m.msgHasData with
  | true =>
    cases m.optionalData with
    | message index => exact moves_execAndAnswer hid _ _
    | null => exact .throw
    | block bytes => exact .throw
  | false =>
    refine Moves.handled (moves_execServer _) fun reply => Moves.handled moves_get fun c' => ?_
    cases reply with
    | ack status =>
      unfold sendResponse
      rw [hid]
      exact handled_of_serves (Moves.serves (moves_sendResponse _ _) fun _ => hend)
    | _ =>
      -- what is posted is one transfer, or nothing
      dsimp only
      cases c'.server.findPending c.server.started.length with
      | none => exact handled_of_serves hend
      | some p =>
        refine (Moves.serves (moves_rdmaPost hid _ _) fun _ => hend).mono fun _ _ h => ?_
        exact Or.inl ⟨_, fun t ht => by rw [List.mem_singleton.mp ht]; exact ⟨rfl, rfl⟩, h⟩

/-- **Every hook** gives the receive buffer back or keeps it in one transfer,
and answers only the endpoint the header names. -/
theorem handled_hook (hook : Hook) (outside : Outside) :
    Moves (hook.onMessage B request outside) (Handled request.header request.msgBufferId) := by
  cases hook with
  | pingPong => exact handled_pingPong hid outside
  | objectRead => exact handled_objectRead hid outside
  | objectWrite => exact handled_objectWrite hid outside
  | flush => exact Moves.handled (moves_pop _ _) fun _ => moves_execAndAnswer hid _ _
  | rangeRegister => exact Moves.handled (moves_pop _ _) fun _ => moves_execAndAnswer hid _ _
  | rangeUnregister => exact Moves.handled (moves_pop _ _) fun _ => moves_execAndAnswer hid _ _
  | objectCreate => exact Moves.handled (moves_pop _ _) fun _ => moves_execAndAnswer hid _ _
  | objectCow => exact Moves.handled (moves_pop _ _) fun _ => moves_execAndAnswer hid _ _

omit hid

-- ---------------------------------------------------------------------------
-- Messages
-- ---------------------------------------------------------------------------

/-- The header of the message in a receive buffer, and the decoder behind it. -/
def Connection.headerOf (c : Connection μ σ) (id : Nat) :
    Except SerializerFault (LibfabricMessageHeader × SerializerBase) :=
  runSerializer (LibfabricMessageHeader.applySerializerDef ⟨0, 0, 0, 0⟩) (c.recvBuffers id)
    c.recvBuffersSize .unpack

/-- The message the event delivers, if any, has a header that meets `P`, or none
that can be decoded. -/
def Connection.Announces (c : Connection μ σ) (P : LibfabricMessageHeader → Prop) :
    NetEvent → Prop
  | .recv id message _ => ∀ r, (c.deliver id message).headerOf id = .ok r → P r.1
  | _ => True

instance (c : Connection μ σ) (P : LibfabricMessageHeader → Prop) [DecidablePred P]
    (e : NetEvent) : Decidable (c.Announces P e) :=
  match e with
  | .recv id message _ =>
    match h : (c.deliver id message).headerOf id with
    | .error _ => isTrue fun r hr => by rw [h] at hr; cases hr
    | .ok r =>
      decidable_of_iff (P r.1)
        ⟨fun hok r' hr' => by rw [h] at hr'; cases hr'; exact hok, fun hall => hall r h⟩
  | .done _ _ | .clientConnect _ _ | .clientDisconnect _ => isTrue trivial

/-- The connection takes requests with these credentials. -/
def Connection.Accepts (c : Connection μ σ) (header : LibfabricMessageHeader) : Prop :=
  c.checkClientAuth = true → c.clients header.tcpClientId = some header.tcpClientKey

instance (c : Connection μ σ) (header : LibfabricMessageHeader) : Decidable (c.Accepts header) :=
  inferInstanceAs (Decidable (_ → _))

/-- The types `onRecv` treats itself, before any check. -/
def IsControl (msgType : UInt64) : Prop :=
  msgType = LibfabricMessageType.connectInit.code ∨ msgType = LibfabricMessageType.badAuth.code ∨
    msgType = LibfabricMessageType.fatalError.code

instance (msgType : UInt64) : Decidable (IsControl msgType) :=
  inferInstanceAs (Decidable (_ ∨ _))

/-- The connection after a handshake. -/
def Connection.connected (c : Connection μ σ) (id : Nat) (header : LibfabricMessageHeader)
    (addr : Fin maxAddrLen → UInt8) : Connection μ σ :=
  { c with
    nextEndpointId := c.nextEndpointId + 1
    remoteLiAddr := fun k =>
      if k = SizeT.toInt32 c.nextEndpointId.toNat then some ⟨addr, header.tcpClientId⟩
      else c.remoteLiAddr k
    issued := c.issued ++ [⟨none, ⟨addr, header.tcpClientId⟩,
      .message .assignId (.firstHandshake ⟨2, c.nextEndpointId⟩)⟩]
    posted := c.posted ++ [id] }

/-- The connection after it refused a message: the sender is told so. -/
def Connection.refused (c : Connection μ σ) (target : Endpoint) : Connection μ σ :=
  { c with
    issued := c.issued ++ [⟨none, target, .message .badAuth (.response (.ofStatus (-1)))⟩] }

/-- **What a message can do.** A handshake adds an endpoint; a refusal from the
peer is only taken when a handler is set; a request without valid credentials
is answered and nothing else, its receive buffer included; a request with valid
credentials is handled by its hook. -/
inductive Received (c : Connection μ σ) (id : Nat) (header : LibfabricMessageHeader)
    (c' : Connection μ σ) : Prop where
  | handshake (htype : header.msgType = LibfabricMessageType.connectInit.code)
      (addr : Fin maxAddrLen → UInt8) (h : c' = c.connected id header addr)
  | badAuth (htype : header.msgType = LibfabricMessageType.badAuth.code)
      (hhook : c.hookOnBadAuth = true) (h : c' = { c with posted := c.posted ++ [id] })
  | refused (htype : ¬ IsControl header.msgType) (hcred : ¬ c.Accepts header) (target : Endpoint)
      (hfind : c.endpointOf header = some target) (h : c' = c.refused target)
  | accepted (htype : ¬ IsControl header.msgType) (hcred : c.Accepts header)
      (h : Handled header id c c')

theorem received_onConnInit
    (htype : request.header.msgType = LibfabricMessageType.connectInit.code) :
    Moves (onConnInit request : ConnectionM μ σ Unit) fun c c' =>
      Received c request.msgBufferId request.header c' := by
  intro c
  simp only [onConnInit, LibfabricClientRequest.pop, Ends.bind_iff]
  cases LibfabricFirstClientMessage.applySerializerDef ⟨fun _ => 0⟩ request.deserializer with
  | error f => trivial
  | ok r =>
    simp only [liftSerializer, Ends.pure_iff, Ends.get_iff, Ends.ite_iff, Ends.throw_iff,
      Ends.bind_iff, Ends.modify_iff]
    split_ifs
    -- the endpoint the answer goes to is the one just stored
    refine (moves_sendMessage _ _ _ _ _).mono ?_ fun _ h => h
    rintro _ c₁ ⟨target, hfind, rfl⟩
    have hnew : (some ⟨r.1.addr, request.header.tcpClientId⟩ : Option Endpoint) = some target := by
      simpa using hfind
    obtain rfl := Option.some.inj hnew
    refine (moves_repostReceive _ _).mono ?_ fun _ h => h
    rintro _ c₂ rfl
    exact .handshake htype r.1.addr rfl

/-- The check lets a request pass, or answers it. -/
theorem ends_checkAuth {c : Connection μ σ} {header : LibfabricMessageHeader} {lfClientId : UInt64}
    {post : Bool → Connection μ σ → Prop} {fault : ConnectionFault → Prop} :
    Ends (checkAuth header lfClientId) c post fault ↔
      if c.Accepts header then post true c
      else Ends (sendResponse none .badAuth lfClientId (-1)) c (fun _ c' => post false c')
        fault := by
  simp only [checkAuth, checkIdentification, Ends.bind_iff, Ends.get_iff, Ends.ite_iff,
    Ends.pure_iff, decide_eq_true_eq, Connection.Accepts]
  by_cases hon : c.checkClientAuth = true
  · simp [hon]
  · simp [hon]

theorem received_checked (outside : Outside)
    (hid : request.lfClientId = request.header.lfClientId)
    (htype : ¬ IsControl request.header.msgType) :
    Moves (do
      let ok ← checkAuth request.header request.header.lfClientId
      if ok = false then pure ()
      else
        match findHook request.header.msgType with
        | some hook => hook.onMessage B request outside
        | none => throw (.invalidMessageType request.header.msgType)) fun c c' =>
      Received c request.msgBufferId request.header c' := by
  intro c
  have hhook : c.Accepts request.header → Ends (match findHook request.header.msgType with
      | some hook => hook.onMessage B request outside
      | none => throw (.invalidMessageType request.header.msgType)) c
      (fun _ c' => Received c request.msgBufferId request.header c') fun _ => True := by
    intro hcred
    cases findHook request.header.msgType with
    | none => trivial
    | some hook =>
      exact (handled_hook hid hook outside c).mono (fun _ _ h => .accepted htype hcred h)
        fun _ h => h
  rw [Ends.bind_iff, ends_checkAuth]
  by_cases hcred : c.Accepts request.header
  · rw [if_pos hcred, if_neg (by decide)]
    exact hhook hcred
  rw [if_neg hcred]
  simp only [if_true]
  refine (moves_sendMessage _ _ _ _ _).mono ?_ fun _ h => h
  rintro _ c' ⟨target, hfind, rfl⟩
  exact .refused htype hcred target hfind rfl

theorem received_dispatch (outside : Outside)
    (hid : request.lfClientId = request.header.lfClientId) :
    Moves (dispatch B request outside) fun c c' =>
      Received c request.msgBufferId request.header c' := by
  refine .ite (fun hinit => received_onConnInit hinit) fun hinit => ?_
  refine .ite (fun hbad => ?_) fun hbad => .ite (fun hfatal => ?_) fun hfatal => ?_
  · intro c
    simp only [Ends.bind_iff, Ends.get_iff, Ends.ite_iff, Ends.throw_iff]
    split_ifs with hhook
    refine (moves_repostReceive request.msgBufferId c).mono ?_ fun _ h => h
    rintro _ c' rfl
    exact .badAuth hbad hhook rfl
  · intro c
    rw [Ends.bind_iff]
    have hpop : Moves (request.pop (LibfabricErrorMessage.applySerializerDef ⟨[]⟩))
        (Serves (μ := μ) (σ := σ) request.header [] []) := moves_pop request _
    exact (hpop c).mono (fun _ _ _ => trivial) fun _ h => h
  · refine received_checked outside hid ?_
    rintro (h | h | h)
    · exact hinit h
    · exact hbad h
    · exact hfatal h

-- ---------------------------------------------------------------------------
-- Steps
-- ---------------------------------------------------------------------------

variable {c c' : Connection μ σ}

theorem received_onRecv {id : Nat} {outside : Outside} {a : Unit}
    (h : onRecv B id outside c = .ok (a, c')) :
    ∃ r, c.headerOf id = .ok r ∧ Received c id r.1 c' := by
  have hends : Ends (onRecv B id outside) c
      (fun _ c' => ∃ r, c.headerOf id = .ok r ∧ Received c id r.1 c') fun _ => True := by
    simp only [onRecv, Ends.bind_iff, Ends.get_iff, assertThat, Ends.ite_iff, Ends.pure_iff,
      Ends.throw_iff]
    split_ifs
    cases hheader : c.headerOf id with
    | error f =>
      unfold Connection.headerOf at hheader
      rw [hheader]
      trivial
    | ok r =>
      have hrun : Moves (dispatch B ⟨r.1.lfClientId, id, r.1, r.2⟩ outside) fun c c' =>
        Received c id r.1 c' := received_dispatch outside rfl
      unfold Connection.headerOf at hheader
      rw [hheader]
      exact (hrun c).mono (fun _ c' h => ⟨r, rfl, h⟩) fun _ h => h
  exact (Ends.of_ok h).mp hends

/-- A message was received: it was in a posted buffer, its header was decoded,
and it did what a message can do. -/
theorem step_recv {id : Nat} {message : List UInt8} {outside : Outside}
    (h : c.Step B (.recv id message outside) c') :
    id ∈ c.posted ∧ ∃ r, (c.deliver id message).headerOf id = .ok r ∧
      Received (c.deliver id message) id r.1 c' := by
  unfold Connection.Step Connection.exec at h
  dsimp only at h
  split_ifs at h with hposted
  cases hrun : onRecv B id outside (c.deliver id message) with
  | error f =>
    rw [hrun] at h
    cases h
  | ok r =>
    rw [hrun] at h
    obtain rfl := Except.ok.inj h
    exact ⟨hposted.1, received_onRecv hrun⟩

theorem serves_onTransferDone (t : Transfer) (fetched : Bytes) :
    Moves (onTransferDone B t fetched) (Serves t.request t.held.toList []) := by
  obtain ⟨request, work⟩ := t
  cases work with
  | ping msgBufferId rdmaSize =>
    exact Moves.serves (moves_assertThat _) fun _ =>
      Moves.serves (moves_sendResponse _ _) fun _ => moves_terminate _
  | write number => exact Moves.serves (moves_execServer _) fun _ => moves_sendResponse _ _
  | read => exact moves_sendResponse _ _

/-- The transfer of a request is over: it is no longer in flight, its receive
buffer is given back, and the answer went to the endpoint its header names. -/
theorem step_done {n : Nat} {fetched : Bytes} (h : c.Step B (.done n fetched) c') :
    ∃ t, c.transfers[n]? = some t ∧
      Serves t.request t.held.toList [] { c with transfers := c.transfers.eraseIdx n } c' := by
  unfold Connection.Step Connection.exec at h
  dsimp only at h
  cases ht : c.transfers[n]? with
  | none =>
    rw [ht] at h
    cases h
  | some t =>
    rw [ht] at h
    dsimp only at h
    cases hrun : onTransferDone B t fetched { c with transfers := c.transfers.eraseIdx n } with
    | error f =>
      rw [hrun] at h
      cases h
    | ok r =>
      rw [hrun] at h
      obtain rfl := Except.ok.inj h
      exact ⟨t, rfl, (serves_onTransferDone t fetched).of_ok hrun⟩

theorem step_clientConnect {id key : UInt64} (h : c.Step B (.clientConnect id key) c') :
    c' = { c with clients := fun k => if k = id then some key else c.clients k } := by
  unfold Connection.Step Connection.exec at h
  dsimp only at h
  split_ifs at h
  exact (Except.ok.inj h).symm

theorem step_clientDisconnect {id : UInt64} (h : c.Step B (.clientDisconnect id) c') :
    c' = { c with
      clients := fun k => if k = id then none else c.clients k
      server := (c.server.clientDisconnect id.toNat).2 } := by
  unfold Connection.Step Connection.exec at h
  dsimp only at h
  split_ifs at h
  exact (Except.ok.inj h).symm

/-- The receive buffers keep their size. -/
theorem recvBuffersSize_step {e : NetEvent} (h : c.Step B e c') :
    c'.recvBuffersSize = c.recvBuffersSize := by
  cases e with
  | recv id message outside =>
    obtain ⟨-, r, -, hreceived⟩ := step_recv h
    cases hreceived with
    | handshake _ addr hc' =>
      rw [hc']
      rfl
    | badAuth _ _ hc' =>
      rw [hc']
      rfl
    | refused _ _ target _ hc' =>
      rw [hc']
      rfl
    | accepted _ _ hhandled =>
      obtain ⟨ts, -, hserves⟩ | ⟨size, hserves⟩ := hhandled
      · exact hserves.fixed.recvBuffersSize
      · exact hserves.fixed.recvBuffersSize
  | done n fetched =>
    obtain ⟨t, -, hserves⟩ := step_done h
    exact hserves.fixed.recvBuffersSize
  | clientConnect id key => rw [step_clientConnect h]
  | clientDisconnect id => rw [step_clientDisconnect h]

-- ---------------------------------------------------------------------------
-- Steps of the server
-- ---------------------------------------------------------------------------

/-- The server made some steps. -/
def Advances (B : Backends μ σ) (c c' : Connection μ σ) : Prop :=
  Run (Server.Step B) (fun _ _ => True) c.server c'.server

theorem Advances.refl (B : Backends μ σ) (c : Connection μ σ) : Advances B c c := .start

theorem Advances.of_eq (h : c'.server = c.server) : Advances B c c' := by
  unfold Advances
  rw [h]
  exact .start

section

variable {α β : Type} {m : ConnectionM μ σ α} {k : α → ConnectionM μ σ β}

theorem Moves.advances (h : Moves m (Advances B)) (hk : ∀ a, Moves (k a) (Advances B)) :
    Moves (m >>= k) (Advances B) :=
  h.bind hk fun _ _ _ h h' => h.trans h'

theorem advances_get : Moves (get : ConnectionM μ σ (Connection μ σ)) (Advances B) :=
  .get (.refl B)

theorem advances_pop (request : LibfabricClientRequest) (m : SerializerM α) :
    Moves (request.pop m : ConnectionM μ σ α) (Advances B) := by
  refine Moves.advances ?_ fun _ => .pure (.refl B)
  cases m request.deserializer with
  | ok a => exact .pure (.refl B)
  | error f => exact .throw

theorem advances_assertThat (p : Prop) [Decidable p] :
    Moves (assertThat p : ConnectionM μ σ Unit) (Advances B) :=
  .ite (fun _ => .pure (.refl B)) fun _ => .throw

theorem advances_sendMessage (request : Option LibfabricMessageHeader)
    (msgType : LibfabricMessageType) (destinationEpId : Int) (body : MessageBody) :
    Moves (sendMessage request msgType destinationEpId body : ConnectionM μ σ Unit)
      (Advances B) := by
  refine (moves_sendMessage _ _ _ _).mono ?_
  rintro c c' ⟨target, -, rfl⟩
  exact .of_eq rfl

theorem advances_repostReceive (id : Nat) :
    Moves (repostReceive id : ConnectionM μ σ Unit) (Advances B) := by
  refine (moves_repostReceive id).mono ?_
  rintro c c' rfl
  exact .of_eq rfl

theorem advances_rdmaPost (request : LibfabricClientRequest) (operations : Nat)
    (work : TransferWork) :
    Moves (rdmaPost request operations work : ConnectionM μ σ Unit) (Advances B) := by
  refine Moves.advances (fun c => ?_) fun target =>
    Moves.advances (.modify fun _ => .of_eq rfl) fun _ => .modify fun _ => .of_eq rfl
  simp only [findEndpoint, Ends.bind_iff, Ends.get_iff]
  cases c.remoteLiAddr (SizeT.toInt32 request.lfClientId.toNat) with
  | none => trivial
  | some endpoint => exact .refl B c

theorem advances_execServer (e : Event) :
    Moves (execServer B e : ConnectionM μ σ Reply) (Advances B) := by
  intro c
  simp only [execServer, Ends.bind_iff, Ends.get_iff]
  cases hexec : c.server.exec B e with
  | error f => trivial
  | ok r => exact .next .start trivial ⟨r.1, hexec⟩

theorem advances_execAndAnswer (request : LibfabricClientRequest) (msgType : LibfabricMessageType)
    (e : Event) : Moves (execAndAnswer B request msgType e) (Advances B) := by
  refine Moves.advances (advances_execServer e) fun reply => ?_
  cases reply with
  | ack status =>
    exact Moves.advances (advances_sendMessage _ _ _ _) fun _ => advances_repostReceive _
  | _ => exact advances_repostReceive _

theorem advances_hook (hook : Hook) (request : LibfabricClientRequest) (outside : Outside) :
    Moves (hook.onMessage B request outside) (Advances B) := by
  have hend : Moves (request.terminate : ConnectionM μ σ Unit) (Advances B) :=
    advances_repostReceive _
  have hpost : ∀ (operations : Nat) (work : TransferWork), Moves (do
      rdmaPost request operations work
      request.terminate : ConnectionM μ σ Unit) (Advances B) := fun operations work =>
    Moves.advances (advances_rdmaPost request operations work) fun _ => hend
  have hsend : ∀ (msgType : LibfabricMessageType) (epId : Int) (body : MessageBody), Moves (do
      sendMessage (some request.header) msgType epId body
      request.terminate : ConnectionM μ σ Unit) (Advances B) := fun msgType epId body =>
    Moves.advances (advances_sendMessage _ _ _ _) fun _ => hend
  cases hook with
  | pingPong =>
    refine Moves.advances (advances_pop _ _) fun ping => Moves.advances advances_get fun c => ?_
    have hrest : Moves (if 0 < ping.rdmaSize then
        rdmaPost request 1 (.ping request.msgBufferId ping.rdmaSize.toNat)
      else answer request .pong 0 : ConnectionM μ σ Unit) (Advances B) :=
      .ite (fun _ => advances_rdmaPost _ _ _) fun _ => hsend _ _ _
    cases ping.eagerData with
    | message index => exact Moves.advances (advances_assertThat _) fun _ => hrest
    | null => exact hrest
    | block bytes => exact hrest
  | objectRead =>
    refine Moves.advances (advances_pop _ _) fun m => Moves.advances advances_get fun c =>
      Moves.advances (advances_execServer _) fun reply => ?_
    cases reply with
    | nothing => exact hend
    | ack status => exact hsend _ _ _
    | eager response => exact hsend _ _ _
    | rdma payload => exact .ite (fun _ => hend) fun _ => hpost _ _
  | objectWrite =>
    refine Moves.advances (advances_pop _ _) fun m => Moves.advances advances_get fun c => ?_
    cases m.msgHasData with
    | true =>
      cases m.optionalData with
      | message index => exact advances_execAndAnswer _ _ _
      | null => exact .throw
      | block bytes => exact .throw
    | false =>
      refine Moves.advances (advances_execServer _) fun reply => Moves.advances advances_get
        fun c' => ?_
      cases reply with
      | ack status => exact hsend _ _ _
      | _ =>
        dsimp only
        cases c'.server.findPending c.server.started.length with
        | none => exact hend
        | some p => exact hpost _ _
  | flush => exact Moves.advances (advances_pop _ _) fun _ => advances_execAndAnswer _ _ _
  | rangeRegister => exact Moves.advances (advances_pop _ _) fun _ => advances_execAndAnswer _ _ _
  | rangeUnregister => exact Moves.advances (advances_pop _ _) fun _ => advances_execAndAnswer _ _ _
  | objectCreate => exact Moves.advances (advances_pop _ _) fun _ => advances_execAndAnswer _ _ _
  | objectCow => exact Moves.advances (advances_pop _ _) fun _ => advances_execAndAnswer _ _ _

theorem advances_checkAuth (header : LibfabricMessageHeader) (lfClientId : UInt64) :
    Moves (checkAuth header lfClientId : ConnectionM μ σ Bool) (Advances B) := by
  refine Moves.advances advances_get fun c => .ite (fun _ => .pure (.refl B)) fun _ => ?_
  refine .ite (fun _ => .pure (.refl B)) fun _ => ?_
  exact Moves.advances (advances_sendMessage _ _ _ _) fun _ => .pure (.refl B)

theorem advances_dispatch (request : LibfabricClientRequest) (outside : Outside) :
    Moves (dispatch B request outside) (Advances B) := by
  refine .ite (fun _ => ?_) fun _ => .ite (fun _ => ?_) fun _ => .ite (fun _ => ?_) fun _ => ?_
  · refine Moves.advances (advances_pop _ _) fun first => Moves.advances advances_get fun c => ?_
    refine .ite (fun _ => .throw) fun _ => Moves.advances (.modify fun _ => .of_eq rfl) fun _ => ?_
    exact Moves.advances (advances_sendMessage _ _ _ _) fun _ => advances_repostReceive _
  · exact Moves.advances advances_get fun c =>
      .ite (fun _ => advances_repostReceive _) fun _ => .throw
  · exact Moves.advances (advances_pop _ _) fun _ => .throw
  · refine Moves.advances (advances_checkAuth _ _) fun ok => .ite (fun _ => .pure (.refl B))
      fun _ => ?_
    cases findHook request.header.msgType with
    | none => exact .throw
    | some hook => exact advances_hook hook request outside

theorem advances_onRecv (id : Nat) (outside : Outside) :
    Moves (onRecv B id outside) (Advances B) := by
  refine Moves.advances advances_get fun c => Moves.advances (advances_assertThat _) fun _ => ?_
  cases runSerializer (LibfabricMessageHeader.applySerializerDef ⟨0, 0, 0, 0⟩)
      (c.recvBuffers id) c.recvBuffersSize .unpack with
  | error f => exact .throw
  | ok r => exact advances_dispatch _ outside

theorem advances_onTransferDone (t : Transfer) (fetched : Bytes) :
    Moves (onTransferDone B t fetched) (Advances B) := by
  obtain ⟨request, work⟩ := t
  cases work with
  | ping msgBufferId rdmaSize =>
    exact Moves.advances (advances_assertThat _) fun _ =>
      Moves.advances (advances_sendMessage _ _ _ _) fun _ => advances_repostReceive _
  | write number =>
    exact Moves.advances (advances_execServer _) fun _ => advances_sendMessage _ _ _ _
  | read => exact advances_sendMessage _ _ _ _

end

/-- **A step of the connection is some steps of the server.** -/
theorem advances_step {e : NetEvent} (h : c.Step B e c') : Advances B c c' := by
  cases e with
  | recv id message outside =>
    unfold Connection.Step Connection.exec at h
    dsimp only at h
    split_ifs at h
    cases hrun : onRecv B id outside (c.deliver id message) with
    | error f =>
      rw [hrun] at h
      cases h
    | ok r =>
      rw [hrun] at h
      obtain rfl := Except.ok.inj h
      -- the delivery leaves the server alone
      have hadvances : Advances B (c.deliver id message) r.2 :=
        (advances_onRecv id outside).of_ok hrun
      exact hadvances
  | done n fetched =>
    unfold Connection.Step Connection.exec at h
    dsimp only at h
    cases ht : c.transfers[n]? with
    | none =>
      rw [ht] at h
      cases h
    | some t =>
      rw [ht] at h
      dsimp only at h
      cases hrun : onTransferDone B t fetched { c with transfers := c.transfers.eraseIdx n } with
      | error f =>
        rw [hrun] at h
        cases h
      | ok r =>
        rw [hrun] at h
        obtain rfl := Except.ok.inj h
        have hadvances : Advances B { c with transfers := c.transfers.eraseIdx n } r.2 :=
          (advances_onTransferDone t fetched).of_ok hrun
        exact hadvances
  | clientConnect id key =>
    rw [step_clientConnect h]
    exact .of_eq rfl
  | clientDisconnect id =>
    rw [step_clientDisconnect h]
    have hstep : c.server.Step B (.clientDisconnect id.toNat)
        (c.server.clientDisconnect id.toNat).2 := ⟨_, rfl⟩
    exact .next .start trivial hstep

theorem advances_run {c₀ : Connection μ σ} {guard : Connection μ σ → NetEvent → Prop}
    (h : Run (Connection.Step B) guard c₀ c) : Advances B c₀ c :=
  h.invariant (.refl B c₀) fun hrun _ hstep => hrun.trans (advances_step hstep)

/-- An execution whose end passes a test shows that the connection gets there. -/
theorem Connection.run_of_trace (B : Backends μ σ) (guard : Connection μ σ → NetEvent → Prop)
    [∀ c e, Decidable (guard c e)] (es : List NetEvent) (c₀ : Connection μ σ)
    {p : Connection μ σ → Prop} [DecidablePred p]
    (h : (Run.trace (Connection.exec B) guard es c₀).any (fun c => decide (p c)) = true) :
    ∃ c, Run (Connection.Step B) guard c₀ c ∧ p c :=
  Run.exists_of_trace h

end IoCatcher.Network
