import IoCatcher.Model.Requests
import IoCatcher.Network.Effects
import IoCatcher.Wire.Decoding

/-!
# IO Catcher — two connections that hold different leftovers

A hook reads its receive buffer when it decodes its struct and when it uses the
data of the message, and nowhere else. So two connections that agree on what is
decoded and on that data do the same: the results here follow two runs side by
side, operation by operation.

The history of the writes keeps the data of a message as a function of all
indices. It is the only other place where the two runs may differ, and no
operation reads anything of it but its length.
-/

namespace IoCatcher

open Container

variable {μ σ : Type} {B : Backends μ σ}

-- ---------------------------------------------------------------------------
-- Servers
-- ---------------------------------------------------------------------------

/-- The servers are the same, up to the data recorded in the history. -/
inductive Server.Alike (s : Server μ σ) : Server μ σ → Prop where
  | mk (l : List WriteRequest) (h : l.length = s.started.length) :
      Server.Alike s { s with started := l }

namespace Server

variable {s s' : Server μ σ}

theorem Alike.refl (s : Server μ σ) : s.Alike s := .mk s.started rfl

theorem Alike.container (h : s.Alike s') : s'.container = s.container := by
  cases h
  rfl

theorem Alike.length_started (h : s.Alike s') : s'.started.length = s.started.length := by
  cases h with
  | mk l hl => exact hl

theorem Alike.findPending (h : s.Alike s') (number : Nat) :
    s'.findPending number = s.findPending number := by
  cases h
  rfl

/-- The servers after a step that adds a request to both histories. -/
theorem Alike.start (h : s.Alike s') (c : Container μ σ) (pending : List PendingWrite)
    (acked : List Nat) (w w' : WriteRequest) :
    ({ s with container := c, pending := pending, started := s.started ++ [w], acked := acked } :
        Server μ σ).Alike
      { s' with container := c, pending := pending, started := s'.started ++ [w'],
                acked := acked } := by
  cases h with
  | mk l hl => exact .mk (l ++ [w']) (by simp [hl])

/-- The same change of the container on both sides. -/
theorem Alike.withContainer (h : s.Alike s') (c : Container μ σ) :
    ({ s with container := c } : Server μ σ).Alike { s' with container := c } := by
  cases h with
  | mk l hl => exact .mk l hl

/-- One step of two servers alike. -/
theorem twins_exec (h : s.Alike s') (e : Event) :
    Twins Server.Alike (fun s => s.exec B e) s (fun s => s.exec B e) s' := by
  obtain ⟨l, hl⟩ := h
  have h : s.Alike { s with started := l } := .mk l hl
  unfold Twins
  cases e with
  | eagerWrite w =>
    simp only [exec, eagerWrite]
    obtain ⟨r, c⟩ := (s.container.getObject w.object).getBuffers B w.object w.offset w.size
      .write true true
    cases r with
    | none => exact ⟨rfl, hl ▸ h.start _ _ _ w w⟩
    | some segments =>
      dsimp only
      cases objEagerExtractFromMessage B.memoryBackend w.data w.offset w.size segments 0
        c.memory with
      | error f => trivial
      | ok m => exact ⟨rfl, hl ▸ h.start _ _ _ w w⟩
  | rdmaWrite w =>
    simp only [exec, rdmaWrite]
    obtain ⟨r, c⟩ := (s.container.getObject w.object).getBuffers B w.object w.offset w.size
      .write true true
    cases r with
    | none => exact ⟨rfl, hl ▸ h.start _ _ _ w w⟩
    | some segments => exact ⟨rfl, hl ▸ h.start _ _ _ w w⟩
  | read id offset size uninitialised =>
    simp only [exec, read]
    obtain ⟨r, c⟩ := (s.container.getObject id).getBuffers B id offset size .read true false
    cases r with
    | none => exact ⟨rfl, h.withContainer _⟩
    | some segments =>
      dsimp only
      split_ifs
      · cases objEagerPushToClient c.memory uninitialised offset size segments with
        | error f => trivial
        | ok response => exact ⟨rfl, h.withContainer _⟩
      · exact ⟨rfl, h.withContainer _⟩
  | cow sourceId destId allowExist rangeOffset rangeSize =>
    simp only [exec, cow]
    by_cases hsize : rangeSize = 0
    · rw [if_pos hsize, if_pos hsize]
      cases s.container.makeObjectFullCow B sourceId destId allowExist with
      | error f => trivial
      | ok r => exact ⟨rfl, h.withContainer _⟩
    · rw [if_neg hsize, if_neg hsize]
      exact ⟨rfl, h.withContainer _⟩
  | rdmaDone number =>
    simp only [exec, rdmaDone, h.findPending]
    cases s.findPending number with
    | none => exact ⟨rfl, h⟩
    | some p => exact ⟨rfl, .mk l hl⟩
  | rdmaFail number landed =>
    simp only [exec, rdmaFail, h.findPending]
    cases s.findPending number with
    | none => exact ⟨rfl, h⟩
    | some p => exact ⟨rfl, .mk l hl⟩
  | flush id offset size => exact ⟨rfl, h.withContainer _⟩
  | create id => exact ⟨rfl, h.withContainer _⟩
  | rangeRegister tcpClientId id offset size write =>
    simp only [exec, rangeRegister]
    split_ifs <;> exact ⟨rfl, h.withContainer _⟩
  | rangeUnregister tcpClientId id rangeId offset size write =>
    simp only [exec, rangeUnregister]
    split_ifs <;> exact ⟨rfl, h.withContainer _⟩
  | clientDisconnect tcpClientId => exact ⟨rfl, h.withContainer _⟩

/-- An eager write of two messages with the same `size` bytes of data. -/
theorem twins_eagerWrite (h : s.Alike s') (hwf : Wf B 1 s.container) {w : WriteRequest}
    {data : Bytes} (hdata : ∀ i < w.size, w.data i = data i) :
    Twins Server.Alike (fun s => s.exec B (.eagerWrite w)) s
      (fun s => s.exec B (.eagerWrite { w with data := data })) s' := by
  obtain ⟨l, hl⟩ := h
  have h : s.Alike { s with started := l } := .mk l hl
  unfold Twins
  simp only [exec, eagerWrite]
  obtain ⟨r, hget⟩ : ∃ r, (s.container.getObject w.object).getBuffers B w.object w.offset w.size
    .write true true = r := ⟨_, rfl⟩
  obtain ⟨hgrow, -, hsome⟩ := getBuffers_getObject hwf (rangeOk_one _ _ _) hget
  rw [hget]
  obtain ⟨r, c⟩ := r
  cases r with
  | none => exact ⟨rfl, hl ▸ h.start _ _ _ w { w with data := data }⟩
  | some segments =>
    obtain ⟨run, rfl, hcov, -, -⟩ := hsome segments rfl
    dsimp only at hgrow hcov ⊢
    -- both copies store the run, with the bytes of the request only
    obtain ⟨start, last, hstart, -, htiles⟩ := hcov.tiles
    have hle := alignRange_fst_le (s.container.object w.object).alignement w.offset w.size
    have hcur : min (start - w.offset) w.size = 0 := by omega
    have hbound : ∀ v ∈ run, v.2.stop < 2 ^ 64 := fun v hv => hgrow.layout.bound (hcov.held v hv)
    have heq := fun data => objEagerExtractFromMessage_eq B.memoryBackend data w.offset w.size
      (m := c.memory) htiles hbound
    rw [hcur] at heq
    rw [heq w.data, heq data, storeRun_congr hdata]
    split_ifs
    · exact ⟨rfl, hl ▸ h.start _ _ _ w { w with data := data }⟩
    · trivial

end Server

namespace Network

open Wire

-- ---------------------------------------------------------------------------
-- Connections
-- ---------------------------------------------------------------------------

/-- The connections are the same, up to the contents of the receive buffers and
the data recorded in the history. -/
inductive Connection.Alike (c : Connection μ σ) : Connection μ σ → Prop where
  | mk (s : Server μ σ) (h : c.server.Alike s) (recvBuffers : Nat → ByteBuffer) :
      Connection.Alike c { c with server := s, recvBuffers := recvBuffers }

variable {c c' : Connection μ σ} {request : LibfabricClientRequest} {d : SerializerBase}

theorem Connection.Alike.of_eq (hserver : c.server.Alike c'.server)
    (h : c' = { c with server := c'.server, recvBuffers := c'.recvBuffers }) : c.Alike c' := by
  rw [h]
  exact .mk _ hserver _

theorem Connection.Alike.server (h : c.Alike c') : c.server.Alike c'.server := by
  cases h with
  | mk s hs => exact hs

theorem twins_assertThat (h : c.Alike c') {p p' : Prop} [Decidable p] [Decidable p']
    (hp : p ↔ p') : Twins Connection.Alike (assertThat p) c (assertThat p') c' := by
  unfold assertThat
  by_cases hc : p
  · rw [if_pos hc, if_pos (hp.mp hc)]
    exact .pure _ h
  · rw [if_neg hc, if_neg fun hc' => hc (hp.mpr hc')]
    exact .throw _ _

theorem twins_findEndpoint (h : c.Alike c') (destinationEpId : Int) :
    Twins Connection.Alike (findEndpoint destinationEpId) c (findEndpoint destinationEpId) c' := by
  obtain ⟨s, hs, f⟩ := h
  refine .get_bind ?_
  dsimp only
  cases c.remoteLiAddr destinationEpId with
  | none => exact .throw _ _
  | some endpoint => exact .pure _ (.mk s hs f)

theorem twins_issue (h : c.Alike c') (r : Option LibfabricMessageHeader) (target : Endpoint)
    (content : Content) :
    Twins Connection.Alike (issue r target content) c (issue r target content) c' := by
  obtain ⟨s, hs, f⟩ := h
  exact .modify (.of_eq hs rfl)

theorem twins_liftSerializer (h : c.Alike c') {α : Type} (r : Except SerializerFault α) :
    Twins Connection.Alike (liftSerializer r) c (liftSerializer r) c' := by
  cases r with
  | error f => exact .throw _ _
  | ok a => exact .pure a h

theorem twins_sendMessage (h : c.Alike c') (r : Option LibfabricMessageHeader)
    (msgType : LibfabricMessageType) (destinationEpId : Int) (body : MessageBody) :
    Twins Connection.Alike (sendMessage r msgType destinationEpId body) c
      (sendMessage r msgType destinationEpId body) c' := by
  refine .get_bind ?_
  have hsize : c'.msgBufferSize = c.msgBufferSize := by
    cases h
    rfl
  have hrecv : c'.recvBuffersSize = c.recvBuffersSize := by
    cases h
    rfl
  rw [hsize, hrecv]
  refine .bind (twins_liftSerializer h _) fun packed c₁ c₁' h₁ => ?_
  refine .bind (twins_assertThat h₁ Iff.rfl) fun _ c₂ c₂' h₂ => ?_
  exact .bind (twins_findEndpoint h₂ _) fun target c₃ c₃' h₃ => twins_issue h₃ _ _ _

theorem twins_repostReceive (h : c.Alike c') (id : Nat) :
    Twins Connection.Alike (repostReceive id) c (repostReceive id) c' := by
  obtain ⟨s, hs, f⟩ := h
  refine .get_bind (.ite (fun _ => ?_) fun _ => .throw _ _)
  exact .modify (.of_eq hs rfl)

theorem twins_rdmaPost (h : c.Alike c') (operations : Nat) (work : TransferWork) :
    Twins Connection.Alike (rdmaPost request operations work) c
      (rdmaPost { request with deserializer := d } operations work) c' := by
  refine .bind (twins_findEndpoint h _) fun target c₁ c₁' h₁ => ?_
  refine .bind (twins_issue h₁ _ _ _) fun _ c₂ c₂' h₂ => ?_
  obtain ⟨s, hs, f⟩ := h₂
  exact .modify (.of_eq hs rfl)

theorem twins_answer (h : c.Alike c') (msgType : LibfabricMessageType) (status : Int) :
    Twins Connection.Alike (answer request msgType status) c
      (answer { request with deserializer := d } msgType status) c' :=
  .bind (twins_sendMessage h _ _ _ _) fun _ _ _ h₁ => twins_repostReceive h₁ _

/-- A step of the server, from two servers whose steps end alike. -/
theorem twins_execServer_of (h : c.Alike c') {e e' : Event}
    (hexec : Twins Server.Alike (fun s => s.exec B e) c.server (fun s => s.exec B e') c'.server) :
    Twins Connection.Alike (execServer B e) c (execServer B e') c' := by
  obtain ⟨s, hs, f⟩ := h
  refine .get_bind ?_
  unfold Twins at hexec
  dsimp only at hexec ⊢
  cases hr : c.server.exec B e with
  | error g =>
    cases hr' : s.exec B e' with
    | error g' => exact .throw _ _
    | ok r' =>
      rw [hr, hr'] at hexec
      exact hexec.elim
  | ok r =>
    cases hr' : s.exec B e' with
    | error g' =>
      rw [hr, hr'] at hexec
      exact hexec.elim
    | ok r' =>
      rw [hr, hr'] at hexec
      obtain ⟨reply, t⟩ := r
      obtain ⟨reply', t'⟩ := r'
      obtain ⟨rfl, ht⟩ := hexec
      exact .bind (.modify (.of_eq ht rfl)) fun _ _ _ h₁ => .pure _ h₁

theorem twins_execServer (h : c.Alike c') (e : Event) :
    Twins Connection.Alike (execServer B e) c (execServer B e) c' :=
  twins_execServer_of h (Server.twins_exec h.server e)

/-- The answer of a request the server has run. -/
theorem twins_replied (h : c.Alike c') (msgType : LibfabricMessageType) (reply : Reply) :
    Twins Connection.Alike
      (match reply with
        | .ack status => answer request msgType status
        | _ => request.terminate) c
      (match reply with
        | .ack status => answer { request with deserializer := d } msgType status
        | _ => ({ request with deserializer := d } : LibfabricClientRequest).terminate) c' := by
  cases reply with
  | ack status => exact twins_answer h msgType status
  | _ => exact twins_repostReceive h _

theorem twins_execAndAnswer (h : c.Alike c') (msgType : LibfabricMessageType) (e : Event) :
    Twins Connection.Alike (execAndAnswer B request msgType e) c
      (execAndAnswer B { request with deserializer := d } msgType e) c' :=
  .bind (twins_execServer h e) fun reply _ _ h₁ => twins_replied h₁ msgType reply

-- ---------------------------------------------------------------------------
-- Hooks
-- ---------------------------------------------------------------------------

/-- Two decodings with one result, each followed by the rest of its hook. -/
theorem twins_pop_bind {α β : Type} {m : SerializerM α} {k k' : α → ConnectionM μ σ β}
    (hpop : decoded m request.deserializer = decoded m d)
    (hk : ∀ a, decoded m request.deserializer = some a →
      Twins Connection.Alike (k a) c (k' a) c') :
    Twins Connection.Alike (request.pop m >>= k) c
      (({ request with deserializer := d } : LibfabricClientRequest).pop m >>= k') c' := by
  unfold decoded at hpop hk
  have hok : ∀ {r : LibfabricClientRequest} {x : α × SerializerBase}, m r.deserializer = .ok x →
      ∀ (k : α → ConnectionM μ σ β) (c : Connection μ σ), (r.pop m >>= k) c = k x.1 c := by
    intro r x hr k c
    unfold LibfabricClientRequest.pop
    rw [hr]
    rfl
  have herror : ∀ {r : LibfabricClientRequest} {f : SerializerFault}, m r.deserializer = .error f →
      ∀ (k : α → ConnectionM μ σ β) (c : Connection μ σ),
        (r.pop m >>= k) c = .error (.serializer f) := by
    intro r f hr k c
    unfold LibfabricClientRequest.pop
    rw [hr]
    rfl
  cases hm : m request.deserializer with
  | error f =>
    cases hd : m d with
    | error f' => exact .of_error (herror hm k c) (herror hd k' c')
    | ok x' =>
      rw [hm, hd] at hpop
      cases hpop
  | ok x =>
    cases hd : m d with
    | error f' =>
      rw [hm, hd] at hpop
      cases hpop
    | ok x' =>
      rw [hm, hd] at hpop
      have heq : x.1 = x'.1 := Option.some.inj hpop
      have htwins := hk x.1 (by rw [hm]; rfl)
      unfold Twins at htwins ⊢
      rw [hok hm k c, hok hd k' c', ← heq]
      exact htwins

/-- The struct a hook decodes its message into. -/
def Hook.blank : Hook → MessageBody
  | .pingPong => .ping ⟨0, 0, ⟨0, 0⟩, .null⟩
  | .flush => .flush ⟨⟨0, 0⟩, 0, 0⟩
  | .rangeRegister => .registerRange ⟨⟨0, 0⟩, 0, 0, false⟩
  | .rangeUnregister => .unregisterRange ⟨⟨0, 0⟩, 0, 0, 0, false⟩
  | .objectCreate => .create ⟨⟨0, 0⟩⟩
  | .objectRead => .readWrite blankReadWrite
  | .objectWrite => .readWrite blankReadWrite
  | .objectCow => .cow ⟨⟨0, 0⟩, ⟨0, 0⟩, false, 0, 0⟩

/-- The data in the message that a hook uses, as an index and a length. A read
request may announce data too, but its hook does not look at it. -/
def Hook.payload : Hook → MessageBody → Option (Nat × Nat)
  | .pingPong, .ping m =>
    match m.eagerData with
    | .message index => some (index, m.eagerSize.toNat)
    | _ => none
  | .objectWrite, .readWrite m =>
    match m.msgHasData, m.optionalData with
    | true, .message index => some (index, m.size.toNat)
    | _, _ => none
  | _, _ => none

/-- The bytes of such data that are in the receive buffer. -/
def clip (buffer : ByteBuffer) (size : Nat) : Option (Nat × Nat) → List UInt8
  | none => []
  | some (index, length) => buffer.slice index (min length (size - index))

/-- What a hook decodes: its struct and the data it uses; none when the decoder
stops. -/
def Hook.decodes (hook : Hook) (s : SerializerBase) : Option (MessageBody × List UInt8) :=
  (decoded hook.blank.applySerializerDef s).map fun body =>
    (body, clip s.buffer s.size (hook.payload body))

theorem Hook.decoded_eq {hook : Hook} {s s' : SerializerBase}
    (h : hook.decodes s = hook.decodes s') :
    decoded hook.blank.applySerializerDef s = decoded hook.blank.applySerializerDef s' := by
  have hfst := congrArg (Option.map Prod.fst) h
  simpa [Hook.decodes, Function.comp_def] using hfst

theorem messageData_eq {buffer buffer' : ByteBuffer} {size index length : Nat} {behind : Bytes}
    (h : clip buffer size (some (index, length)) = clip buffer' size (some (index, length)))
    {i : Nat} (hi : i < length) :
    messageData buffer size behind index i = messageData buffer' size behind index i := by
  unfold messageData
  split_ifs with hin
  · have hget := congrArg (fun l => l[i]?) h
    have hlt : i < min length (size - index) := by omega
    simpa [clip, ByteBuffer.slice, hlt] using hget
  · rfl

/-- The two deserializers of a message: each is on the receive buffer of its
connection. -/
structure OnBuffers (request : LibfabricClientRequest) (d : SerializerBase)
    (c c' : Connection μ σ) : Prop where
  buffer  : request.deserializer.buffer = c.recvBuffers request.msgBufferId
  size    : request.deserializer.size = c.recvBuffersSize
  buffer' : d.buffer = c'.recvBuffers request.msgBufferId
  size'   : d.size = c'.recvBuffersSize

theorem Connection.Alike.recvBuffersSize (h : c.Alike c') :
    c'.recvBuffersSize = c.recvBuffersSize := by
  cases h
  rfl

/-- The data a hook uses is the same in both messages. -/
theorem OnBuffers.messageData_eq (hon : OnBuffers request d c c') (h : c.Alike c') {hook : Hook}
    {body : MessageBody} (hdec : hook.decodes request.deserializer = hook.decodes d)
    (hbody : decoded hook.blank.applySerializerDef request.deserializer = some body)
    {index length : Nat} (hpayload : hook.payload body = some (index, length)) (behind : Bytes)
    {i : Nat} (hi : i < length) :
    messageData (c.recvBuffers request.msgBufferId) c.recvBuffersSize behind index i =
      messageData (c'.recvBuffers request.msgBufferId) c'.recvBuffersSize behind index i := by
  have hbody' := (Hook.decoded_eq hdec).symm.trans hbody
  unfold Hook.decodes at hdec
  rw [hbody, hbody', Option.map_some, Option.map_some, hpayload] at hdec
  have hclip := congrArg Prod.snd (Option.some.inj hdec)
  dsimp only at hclip
  rw [hon.buffer, hon.size, hon.buffer', hon.size', h.recvBuffersSize] at hclip
  rw [h.recvBuffersSize]
  exact Network.messageData_eq hclip hi

theorem twins_pingPong (h : c.Alike c') (hon : OnBuffers request d c c')
    (hdec : Hook.pingPong.decodes request.deserializer = Hook.pingPong.decodes d)
    (outside : Outside) :
    Twins Connection.Alike (onPingPong request outside) c
      (onPingPong { request with deserializer := d } outside) c' := by
  have hdecoded := Hook.decoded_eq hdec
  refine twins_pop_bind (decoded_eq_of_map (fun _ _ => MessageBody.ping.inj) hdecoded) ?_
  intro ping hping
  have hbody : decoded Hook.pingPong.blank.applySerializerDef request.deserializer =
      some (.ping ping) := by
    show decoded (_ >>= fun a => pure (MessageBody.ping a)) _ = _
    rw [decoded_map, hping, Option.map_some]
  have hrest : ∀ {c₁ c₁' : Connection μ σ}, c₁.Alike c₁' → Twins Connection.Alike
      (if 0 < ping.rdmaSize then
        rdmaPost request 1 (.ping request.msgBufferId ping.rdmaSize.toNat)
      else answer request .pong 0) c₁
      (if 0 < ping.rdmaSize then
        rdmaPost { request with deserializer := d } 1
          (.ping request.msgBufferId ping.rdmaSize.toNat)
      else answer { request with deserializer := d } .pong 0) c₁' := fun h₁ =>
    .ite (fun _ => twins_rdmaPost h₁ _ _) fun _ => twins_answer h₁ _ _
  refine .get_bind ?_
  cases hptr : ping.eagerData with
  | null => exact hrest h
  | block bytes => exact hrest h
  | message index =>
    have hpayload : Hook.pingPong.payload (.ping ping) = some (index, ping.eagerSize.toNat) := by
      simp only [Hook.payload, hptr]
    have hdata := fun i hi => hon.messageData_eq h hdec hbody hpayload outside.behind (i := i) hi
    refine .bind (twins_assertThat h ?_) fun _ _ _ h₁ => hrest h₁
    exact ⟨fun hall i hi => hdata i hi ▸ hall i hi, fun hall i hi => (hdata i hi).trans (hall i hi)⟩

theorem twins_objectRead (h : c.Alike c')
    (hdec : Hook.objectRead.decodes request.deserializer = Hook.objectRead.decodes d)
    (outside : Outside) :
    Twins Connection.Alike (onObjectRead B request outside) c
      (onObjectRead B { request with deserializer := d } outside) c' := by
  have hdecoded := Hook.decoded_eq hdec
  refine twins_pop_bind (decoded_eq_of_map (fun _ _ => MessageBody.readWrite.inj) hdecoded) ?_
  intro m _
  refine .get_bind ?_
  dsimp only
  rw [h.server.container]
  refine .bind (twins_execServer h _) fun reply c₁ c₁' h₁ => ?_
  have hend : ∀ {c₂ c₂' : Connection μ σ}, c₂.Alike c₂' → Twins Connection.Alike
      request.terminate c₂
      ({ request with deserializer := d } : LibfabricClientRequest).terminate c₂' := fun h₂ =>
    twins_repostReceive h₂ _
  cases reply with
  | nothing => exact hend h₁
  | ack status => exact .bind (twins_sendMessage h₁ _ _ _ _) fun _ _ _ h₂ => hend h₂
  | eager response => exact .bind (twins_sendMessage h₁ _ _ _ _) fun _ _ _ h₂ => hend h₂
  | rdma payload =>
    exact .ite (fun _ => hend h₁) fun _ => .bind (twins_rdmaPost h₁ _ _) fun _ _ _ h₂ => hend h₂

theorem twins_objectWrite (h : c.Alike c') (hwf : Wf B 1 c.server.container)
    (hon : OnBuffers request d c c')
    (hdec : Hook.objectWrite.decodes request.deserializer = Hook.objectWrite.decodes d)
    (outside : Outside) :
    Twins Connection.Alike (onObjectWrite B request outside) c
      (onObjectWrite B { request with deserializer := d } outside) c' := by
  have hdecoded := Hook.decoded_eq hdec
  refine twins_pop_bind (decoded_eq_of_map (fun _ _ => MessageBody.readWrite.inj) hdecoded) ?_
  intro m hm
  have hbody : decoded Hook.objectWrite.blank.applySerializerDef request.deserializer =
      some (.readWrite m) := by
    show decoded (_ >>= fun a => pure (MessageBody.readWrite a)) _ = _
    rw [decoded_map, hm, Option.map_some]
  refine .get_bind ?_
  dsimp only
  cases hhas : m.msgHasData with
  | true =>
    cases hptr : m.optionalData with
    | null => exact .throw _ _
    | block bytes => exact .throw _ _
    | message index =>
      have hpayload : Hook.objectWrite.payload (.readWrite m) = some (index, m.size.toNat) := by
        simp only [Hook.payload, hhas, hptr]
      have hexec := Server.twins_eagerWrite h.server hwf
        (w := ⟨objectOf m.objectId, m.offset.toNat, m.size.toNat, messageData
          (c.recvBuffers request.msgBufferId) c.recvBuffersSize outside.behind index⟩)
        fun i hi => hon.messageData_eq h hdec hbody hpayload outside.behind hi
      exact .bind (twins_execServer_of h hexec) fun reply _ _ h₁ => twins_replied h₁ _ reply
  | false =>
    refine .bind (twins_execServer h _) fun reply c₁ c₁' h₁ => .get_bind ?_
    have hend : ∀ {c₂ c₂' : Connection μ σ}, c₂.Alike c₂' → Twins Connection.Alike
        request.terminate c₂
        ({ request with deserializer := d } : LibfabricClientRequest).terminate c₂' := fun h₂ =>
      twins_repostReceive h₂ _
    rw [h.server.length_started, h₁.server.findPending]
    cases reply with
    | ack status => exact .bind (twins_sendMessage h₁ _ _ _ _) fun _ _ _ h₂ => hend h₂
    | _ =>
      dsimp only
      cases c₁.server.findPending c.server.started.length with
      | none => exact hend h₁
      | some p => exact .bind (twins_rdmaPost h₁ _ _) fun _ _ _ h₂ => hend h₂

/-- **Every hook** does the same on two messages it decodes alike. -/
theorem twins_hook (h : c.Alike c') (hwf : Wf B 1 c.server.container)
    (hon : OnBuffers request d c c') {hook : Hook}
    (hdec : hook.decodes request.deserializer = hook.decodes d) (outside : Outside) :
    Twins Connection.Alike (hook.onMessage B request outside) c
      (hook.onMessage B { request with deserializer := d } outside) c' := by
  have hdecoded := Hook.decoded_eq hdec
  cases hook with
  | pingPong => exact twins_pingPong h hon hdec outside
  | objectRead => exact twins_objectRead h hdec outside
  | objectWrite => exact twins_objectWrite h hwf hon hdec outside
  | flush =>
    exact twins_pop_bind (decoded_eq_of_map (fun _ _ => MessageBody.flush.inj) hdecoded)
      fun _ _ => twins_execAndAnswer h _ _
  | rangeRegister =>
    exact twins_pop_bind (decoded_eq_of_map (fun _ _ => MessageBody.registerRange.inj) hdecoded)
      fun _ _ => twins_execAndAnswer h _ _
  | rangeUnregister =>
    exact twins_pop_bind (decoded_eq_of_map (fun _ _ => MessageBody.unregisterRange.inj) hdecoded)
      fun _ _ => twins_execAndAnswer h _ _
  | objectCreate =>
    exact twins_pop_bind (decoded_eq_of_map (fun _ _ => MessageBody.create.inj) hdecoded)
      fun _ _ => twins_execAndAnswer h _ _
  | objectCow =>
    exact twins_pop_bind (decoded_eq_of_map (fun _ _ => MessageBody.cow.inj) hdecoded)
      fun _ _ => twins_execAndAnswer h _ _

end Network

end IoCatcher
