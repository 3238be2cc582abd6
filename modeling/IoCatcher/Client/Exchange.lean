import IoCatcher.Client.Actions
import IoCatcher.Network.Returning
import IoCatcher.Safety.Leftover

/-!
# IO Catcher — one exchange between a client and the server

The bytes between a call and the server: the request of a call fits every buffer on its way,
the hook it is for decodes it and asks the server what the call says, and the message the
server answers with makes the call return the reply.

* `Call.encode_body`    — every request has an encoding that fits the buffers;
* `serviced_of_call`    — the server receives the request of a call;
* `onMessage_of_status`, `onMessage_of_data` — the client receives the answer.
-/

namespace IoCatcher.Client

open Wire Network

variable {μ σ : Type} {B : Backends μ σ} {c c' : Connection μ σ}

-- ---------------------------------------------------------------------------
-- Requests
-- ---------------------------------------------------------------------------

theorem length_encode_objectId (m : LibfabricObjectId) : m.encode.length = 16 := by
  simp [LibfabricObjectId.encode, Scalar.int64]

theorem length_encode_iov (m : Iov) : m.encode.length = 16 := by
  simp [Iov.encode, Scalar.uint64]

theorem Call.sendable (k : Call) : k.request.body.Sendable := by
  cases k <;> trivial

theorem Call.kind_blank (k : Call) : k.hook.blank.kind = k.request.body.kind := by
  cases k <;> rfl

theorem Call.findHook_eq (k : Call) : findHook k.request.msgType.code = some k.hook := by
  cases k <;> rfl

theorem Call.not_control (k : Call) : ¬ IsControl k.request.msgType.code := by
  cases k with
  | objRead => exact (by decide : ¬ IsControl LibfabricMessageType.objRead.code)
  | objWrite => exact (by decide : ¬ IsControl LibfabricMessageType.objWrite.code)
  | objFlush => exact (by decide : ¬ IsControl LibfabricMessageType.objFlush.code)
  | objRangeRegister => exact (by decide : ¬ IsControl LibfabricMessageType.objRangeRegister.code)
  | objRangeUnregister =>
    exact (by decide : ¬ IsControl LibfabricMessageType.objRangeUnregister.code)
  | objCreate => exact (by decide : ¬ IsControl LibfabricMessageType.objCreate.code)
  | objCow => exact (by decide : ¬ IsControl LibfabricMessageType.objCow.code)

theorem Call.ackType_hook (k : Call) : k.hook.ackType = k.request.expectedMessageType := by
  cases k <;> rfl

theorem Call.hook_ne_pingPong (k : Call) : k.hook ≠ .pingPong := by
  cases k <;> simp [hook]

/-- The data of a small write is a block of its size. -/
theorem load_map_range (buffer : Bytes) (n : Nat) :
    (Pointer.block ((List.range n).map buffer)).load n = some ((List.range n).map buffer) := by
  simp [Pointer.load]

/-- **Every request fits**: it has an encoding, of at most `IOC_POST_RECEIVE_WRITE` bytes. -/
theorem Call.encode_body (k : Call) :
    ∃ bs, k.request.body.encode = some bs ∧ 32 + bs.length ≤ postReceiveWrite := by
  have hmax : postReceiveWrite = 32864 := rfl
  have hwrite : eagerMaxWrite = 32768 := rfl
  cases k with
  | objWrite objectId buffer size offset iov =>
    simp only [request, Client.objWrite, MessageBody.encode, decide_eq_true_eq]
    split_ifs with hsize
    all_goals
      simp only [load_map_range, joined_some, Option.some.injEq, exists_eq_left',
        List.length_append, length_encode_objectId, length_encode_iov, Scalar.length_encode,
        Scalar.uint64, Scalar.bool, List.length_map, List.length_range, List.length_nil]
      omega
  | objRead objectId size offset iov =>
    simp only [request, Client.objRead, MessageBody.encode, Bool.false_eq_true, if_false,
      joined_some, Option.some.injEq, exists_eq_left', List.length_append,
      length_encode_objectId, length_encode_iov, Scalar.length_encode, Scalar.uint64, Scalar.bool,
      List.length_nil]
    omega
  | _ =>
    simp only [request, Client.objFlush, Client.objRangeRegister, Client.objRangeUnregister,
      Client.objCreate, Client.objCow, MessageBody.encode, Option.some.injEq, exists_eq_left',
      List.length_append, length_encode_objectId, Scalar.length_encode, Scalar.uint64,
      Scalar.bool, Scalar.int32]
    omega

-- ---------------------------------------------------------------------------
-- The server receives a request
-- ---------------------------------------------------------------------------

/-- A message that is received fits its buffer. -/
theorem length_of_step {id : Nat} {message : List UInt8} {outside : Outside}
    (h : c.Step B (.recv id message outside) c') : message.length ≤ c.recvBuffersSize := by
  unfold Connection.Step Connection.exec at h
  dsimp only at h
  split_ifs at h with hposted
  exact hposted.2

/-- The header of a message is decoded, and its decoder stands behind it. -/
theorem headerOf_encoded {id : Nat} {header : LibfabricMessageHeader} {bs : List UInt8}
    (hn : c.recvBuffersSize < 2 ^ 64) (hroom : (header.encode ++ bs).length ≤ c.recvBuffersSize)
    (hholds : (c.recvBuffers id).Holds 0 (header.encode ++ bs)) :
    ∃ s, Walk (c.recvBuffers id) c.recvBuffersSize 32 s ∧ c.headerOf id = .ok (header, s) ∧
      (c.recvBuffers id).Holds 32 bs := by
  rw [List.length_append, length_encode_header] at hroom
  obtain ⟨hheader, hbody⟩ := ByteBuffer.holds_append.mp hholds
  rw [length_encode_header, Nat.zero_add] at hbody
  obtain ⟨s, hs, heq⟩ := headerOf_eq c id hn (by omega)
  obtain ⟨a, s', hrun, rfl, -⟩ := (unpacks_encode_header header ⟨0, 0, 0, 0⟩
    (.new (c.recvBuffers id) c.recvBuffersSize .unpack) rfl hn
    (by rw [length_encode_header]; simp only [SerializerBase.new]; omega) hheader).returns
  refine ⟨s, hs, ?_, hbody⟩
  have hrun' : c.headerOf id = .ok (a, s') := by
    unfold Connection.headerOf runSerializer
    rw [if_neg (by omega)]
    exact hrun
  rw [heq] at hrun'
  obtain ⟨hsame, -⟩ := Prod.mk.inj (Except.ok.inj hrun')
  rw [heq, hsame]

/-- The body behind a header is decoded. -/
theorem decoded_encoded {body : MessageBody} (old : MessageBody) (hbody : body.Sendable)
    (hkind : old.kind = body.kind) {bs : List UInt8} (hbs : body.encode = some bs)
    {buffer : ByteBuffer} {n : Nat} {s : SerializerBase} (hn : n < 2 ^ 64)
    (hs : Walk buffer n 32 s) (hroom : 32 + bs.length ≤ n) (hholds : buffer.Holds 32 bs) :
    ∃ d, decoded old.applySerializerDef s = some d ∧ body.DecodedAs buffer d := by
  obtain ⟨rfl, rfl, hcursor, -, haction, -, -⟩ := hs
  obtain ⟨d, s', hrun, hd, -⟩ := (unpacks_encode_body hbody hkind hbs s haction hn
    (by omega) (by rw [hcursor]; exact hholds)).returns
  refine ⟨d, ?_, hd⟩
  unfold decoded
  rw [hrun]
  rfl

/-- The data of a request is in the message. -/
theorem eagerData_eq {d : LibfabricObjReadWriteInfos} {s : SerializerBase} {id : Nat}
    (hn : c.recvBuffersSize < 2 ^ 64) (hs : Walk (c.recvBuffers id) c.recvBuffersSize 32 s)
    (hd : decoded blankReadWrite.applySerializerDef s = some d) (hdata : d.msgHasData = true)
    (hsize : d.size.toNat ≤ eagerMaxWrite) (outside : Outside) :
    ∃ index, d.optionalData = .message index ∧ ∀ i < d.size.toNat,
      c.eagerData id outside index i = c.recvBuffers id (index + i) := by
  have hmax : eagerMaxWrite = 32768 := rfl
  have hdec := decodes_readWrite hn blankReadWrite s hs
  rw [hd] at hdec
  split_ifs at hdec with h81 hflag hroom
  · obtain rfl := Option.some.inj hdec
    have hlen : (uint64At (c.recvBuffers id) 72).toNat = u64At (c.recvBuffers id) 72 :=
      toNat_decode_uint64 (c.recvBuffers id) 72
    simp only [readWriteFields] at hsize ⊢
    rw [hlen] at hsize ⊢
    rw [SizeT.add_eq (by omega)] at hroom
    refine ⟨81, rfl, fun i hi => ?_⟩
    unfold Connection.eagerData messageData
    rw [if_pos (by omega)]
  · -- without the flag there is no data
    obtain rfl := Option.some.inj hdec
    simp only [readWriteFields, ne_eq, decide_not, Bool.not_eq_eq_eq_not, Bool.not_true,
      decide_eq_false_iff_not] at hdata
    exact absurd hdata hflag

/-- **What a hook asks the server for** is what the call says. -/
theorem Call.asked_of_decoded (k : Call) (header : LibfabricMessageHeader) {id : Nat}
    {s : SerializerBase} {d : MessageBody} {outside : Outside} (hn : c.recvBuffersSize < 2 ^ 64)
    (hs : Walk (c.recvBuffers id) c.recvBuffersSize 32 s)
    (hd : decoded k.hook.blank.applySerializerDef s = some d)
    (hdec : k.request.body.DecodedAs (c.recvBuffers id) d)
    (hfetch : k.Fetches outside.clientMemory) :
    ∃ e, k.hook.event c ⟨header.lfClientId, id, header, s⟩ outside d = some e ∧
      k.Asks header.tcpClientId e := by
  cases k with
  | objFlush | objRangeRegister | objRangeUnregister | objCreate | objCow =>
    obtain rfl : d = _ := hdec
    exact ⟨_, rfl, rfl⟩
  | objRead objectId size offset iov =>
    cases d with
    | readWrite d =>
      obtain ⟨hobject, -, hoffset, hsize, -⟩ := hdec
      refine ⟨_, rfl, ?_⟩
      rw [hobject, hoffset, hsize]
      exact ⟨_, rfl⟩
    | _ => cases hdec
  | objWrite objectId buffer size offset iov =>
    cases d with
    | readWrite d =>
      obtain ⟨hobject, -, hoffset, hsize, hflag, hdata⟩ := hdec
      simp only at hobject hoffset hsize hflag hdata
      simp only [hook, Hook.event]
      by_cases hsmall : size.toNat ≤ eagerMaxWrite
      · have htrue : d.msgHasData = true := hflag.trans (decide_eq_true hsmall)
        obtain ⟨d₁, hd', hsame⟩ := decoded_of_body hd
        obtain rfl := MessageBody.readWrite.inj hsame
        obtain ⟨index, hindex, hbytes⟩ := eagerData_eq hn hs hd' htrue
          (by rw [hsize]; exact hsmall) outside
        obtain ⟨bs, hload, i, hi, hholds⟩ := hdata (decide_eq_true hsmall)
        rw [if_pos hsmall, load_map_range] at hload
        obtain rfl := Option.some.inj hload
        obtain rfl := Pointer.message.inj (hindex.symm.trans hi)
        rw [htrue, hindex]
        refine ⟨_, rfl, ⟨objectOf d.objectId, d.offset.toNat, d.size.toNat,
          c.eagerData id outside index⟩, ⟨congrArg objectOf hobject,
          congrArg UInt64.toNat hoffset, congrArg UInt64.toNat hsize, fun j hj => ?_⟩, ?_⟩
        · show c.eagerData id outside index j = buffer j
          rw [hbytes j (by rw [hsize]; exact hj)]
          have hget := congrArg (fun l => l[j]?) hholds
          simpa [ByteBuffer.slice, hj] using hget
        · rw [if_pos hsmall]
      · have hfalse : d.msgHasData = false := hflag.trans (decide_eq_false hsmall)
        rw [hfalse]
        refine ⟨_, rfl, ⟨objectOf d.objectId, d.offset.toNat, d.size.toNat,
          outside.clientMemory⟩, ⟨congrArg objectOf hobject, congrArg UInt64.toNat hoffset,
          congrArg UInt64.toNat hsize, fun j hj => hfetch j hj⟩, ?_⟩
        rw [if_neg hsmall]
    | _ => cases hdec

/-- **The server receives the request of a call**: it makes the request that the call asks for,
and concludes with the reply. -/
theorem serviced_of_call (k : Call) {header : LibfabricMessageHeader} {id : Nat}
    {bs : List UInt8} {outside : Outside} (htype : header.msgType = k.request.msgType.code)
    (hbs : k.request.body.encode = some bs) (hn : c.recvBuffersSize < 2 ^ 64)
    (hcred : c.Accepts header) (hfetch : k.Fetches outside.clientMemory)
    (hstep : c.Step B (.recv id (header.encode ++ bs) outside) c') :
    ∃ e, k.Asks header.tcpClientId e ∧
      (c.deliver id (header.encode ++ bs)).eventOf id outside = some e ∧
      Serviced B header k.request.expectedMessageType id e (c.deliver id (header.encode ++ bs))
        c' := by
  have hroom := length_of_step hstep
  have hholds : ((c.deliver id (header.encode ++ bs)).recvBuffers id).Holds 0
      (header.encode ++ bs) := by
    simp only [Connection.deliver, if_true]
    exact ByteBuffer.holds_put _ 0 _
  obtain ⟨s, hs, hheader, hbody⟩ :=
    headerOf_encoded (c := c.deliver id (header.encode ++ bs)) hn hroom hholds
  obtain ⟨d, hd, hdec⟩ := decoded_encoded _ k.sendable k.kind_blank hbs hn hs
    (by rw [List.length_append, length_encode_header] at hroom; exact hroom) hbody
  obtain ⟨hook, hhook, hrun⟩ := hook_of_step hstep hheader
    (show ¬ IsControl header.msgType from htype ▸ k.not_control) hcred
  obtain rfl : k.hook = hook := by
    rw [show findHook header.msgType = some k.hook from htype ▸ k.findHook_eq] at hhook
    exact Option.some.inj hhook
  have hid : (⟨header.lfClientId, id, header, s⟩ : LibfabricClientRequest).lfClientId =
    header.lfClientId := rfl
  obtain ⟨body, e, hbody', he, hserviced⟩ := (Ends.of_ok hrun).mp
    (serviced_hook hid k.hook_ne_pingPong outside)
  obtain rfl := Option.some.inj (hd.symm.trans hbody')
  have hn' : (c.deliver id (header.encode ++ bs)).recvBuffersSize < 2 ^ 64 := hn
  obtain ⟨e', he', hasks⟩ := k.asked_of_decoded header hn' hs hd hdec hfetch
  obtain rfl := Option.some.inj (he.symm.trans he')
  refine ⟨e, hasks, ?_, k.ackType_hook ▸ hserviced⟩
  have hplain : ¬ (IsControl header.msgType ∨
      ¬ (c.deliver id (header.encode ++ bs)).Accepts header) := by
    rintro (hcontrol | hno)
    · exact k.not_control (htype ▸ hcontrol)
    · exact hno hcred
  unfold Connection.eventOf
  rw [hheader]
  dsimp only
  rw [if_neg hplain, hhook]
  show (decoded k.hook.blank.applySerializerDef s).bind _ = _
  rw [hd]
  exact he

/-- **The server receives a handshake**: the endpoint is the one that was asked for. -/
theorem connected_of_handshake {header : LibfabricMessageHeader} {id : Nat}
    {a : Fin maxAddrLen → UInt8} {bs : List UInt8} {outside : Outside}
    (htype : header.msgType = LibfabricMessageType.connectInit.code)
    (hbs : (MessageBody.firstClientMessage ⟨a⟩).encode = some bs) (hn : c.recvBuffersSize < 2 ^ 64)
    (hstep : c.Step B (.recv id (header.encode ++ bs) outside) c') :
    (c.deliver id (header.encode ++ bs)).eventOf id outside = none ∧
      c' = (c.deliver id (header.encode ++ bs)).connected id header a := by
  have hroom := length_of_step hstep
  have hholds : ((c.deliver id (header.encode ++ bs)).recvBuffers id).Holds 0
      (header.encode ++ bs) := by
    simp only [Connection.deliver, if_true]
    exact ByteBuffer.holds_put _ 0 _
  obtain ⟨s, hs, hheader, hbody⟩ :=
    headerOf_encoded (c := c.deliver id (header.encode ++ bs)) hn hroom hholds
  obtain ⟨first, hfirst, hc'⟩ := connected_of_step hstep hheader htype
  have hbody' : (MessageBody.firstClientMessage ⟨a⟩).Sendable := trivial
  obtain ⟨d, hd, hdec⟩ := decoded_encoded (.firstClientMessage ⟨fun _ => 0⟩) hbody' rfl hbs hn hs
    (by rw [List.length_append, length_encode_header] at hroom; exact hroom) hbody
  obtain rfl : d = .firstClientMessage ⟨a⟩ := hdec
  -- a body is decoded as its struct is
  have hsame : decoded ((LibfabricFirstClientMessage.applySerializerDef ⟨fun _ => 0⟩) >>=
      fun m => pure (MessageBody.firstClientMessage m)) s = some (.firstClientMessage ⟨a⟩) := hd
  rw [decoded_map, hfirst] at hsame
  obtain rfl : first = ⟨a⟩ := MessageBody.firstClientMessage.inj (Option.some.inj hsame)
  refine ⟨?_, hc'⟩
  unfold Connection.eventOf
  rw [hheader]
  exact if_pos (Or.inl (Or.inl htype))

/-- A request is received when the server handles what the call asks for, and can answer. -/
theorem step_of_call (k : Call) {header : LibfabricMessageHeader} {id : Nat} {bs : List UInt8}
    {outside : Outside} (htype : header.msgType = k.request.msgType.code)
    (hbs : k.request.body.encode = some bs) (hn : c.recvBuffersSize < 2 ^ 64)
    (hcred : c.Accepts header) (hfetch : k.Fetches outside.clientMemory)
    (hposted : id ∈ c.posted) (hbuffer : id < c.recvBuffersCount)
    (hroom : 32 + bs.length ≤ c.recvBuffersSize) {target : Endpoint}
    (hfind : c.endpointOf header = some target)
    (hserve : ∀ e, k.Asks header.tcpClientId e → ∃ reply s, c.server.exec B e = .ok (reply, s) ∧
      c.Fits k.request.expectedMessageType (.response (Reply.response reply))) :
    ∃ c', c.Step B (.recv id (header.encode ++ bs) outside) c' := by
  have hlen : (header.encode ++ bs).length ≤ c.recvBuffersSize := by
    rw [List.length_append, length_encode_header]
    exact hroom
  have hholds : ((c.deliver id (header.encode ++ bs)).recvBuffers id).Holds 0
      (header.encode ++ bs) := by
    simp only [Connection.deliver, if_true]
    exact ByteBuffer.holds_put _ 0 _
  have hn' : (c.deliver id (header.encode ++ bs)).recvBuffersSize < 2 ^ 64 := hn
  obtain ⟨s, hs, hheader, hbody⟩ :=
    headerOf_encoded (c := c.deliver id (header.encode ++ bs)) hn hlen hholds
  obtain ⟨d, hd, hdec⟩ := decoded_encoded _ k.sendable k.kind_blank hbs hn hs hroom hbody
  obtain ⟨e, he, hasks⟩ := k.asked_of_decoded header hn' hs hd hdec hfetch
  obtain ⟨reply, s', hexec, hfits⟩ := hserve e hasks
  rw [← k.ackType_hook] at hfits
  exact step_of_accepted hposted hlen hheader (htype ▸ k.not_control) hcred
    (htype ▸ k.findHook_eq) hd he ⟨hexec, hfind, hfits, hbuffer⟩

/-- A handshake is received when the address is accepted. -/
theorem step_of_handshake {header : LibfabricMessageHeader} {id : Nat}
    {a : Fin maxAddrLen → UInt8} {bs : List UInt8} (outside : Outside)
    (htype : header.msgType = LibfabricMessageType.connectInit.code)
    (hbs : (MessageBody.firstClientMessage ⟨a⟩).encode = some bs)
    (hn : c.recvBuffersSize < 2 ^ 64) (hposted : id ∈ c.posted) (hbuffer : id < c.recvBuffersCount)
    (hroom : 32 + bs.length ≤ c.recvBuffersSize) (haddr : c.fiAvInsert a = true)
    (hfits : c.Fits .assignId (.firstHandshake ⟨2, c.nextEndpointId⟩)) :
    ∃ c', c.Step B (.recv id (header.encode ++ bs) outside) c' := by
  have hlen : (header.encode ++ bs).length ≤ c.recvBuffersSize := by
    rw [List.length_append, length_encode_header]
    exact hroom
  have hholds : ((c.deliver id (header.encode ++ bs)).recvBuffers id).Holds 0
      (header.encode ++ bs) := by
    simp only [Connection.deliver, if_true]
    exact ByteBuffer.holds_put _ 0 _
  obtain ⟨s, hs, hheader, hbody⟩ :=
    headerOf_encoded (c := c.deliver id (header.encode ++ bs)) hn hlen hholds
  have hbody' : (MessageBody.firstClientMessage ⟨a⟩).Sendable := trivial
  obtain ⟨d, hd, hdec⟩ := decoded_encoded (.firstClientMessage ⟨fun _ => 0⟩) hbody' rfl hbs hn hs
    hroom hbody
  obtain rfl : d = .firstClientMessage ⟨a⟩ := hdec
  obtain ⟨first, hfirst, hsame⟩ := decoded_of_body hd
  obtain rfl := MessageBody.firstClientMessage.inj hsame
  exact step_of_connInit hposted hlen hheader htype hfirst haddr hfits hbuffer

-- ---------------------------------------------------------------------------
-- The client receives a message
-- ---------------------------------------------------------------------------

section

variable {buffer : ByteBuffer} {size : Nat} {bs : List UInt8}

/-- A message of the expected type is polled, and its struct decoded. -/
theorem pollMessage_encoded {header : LibfabricMessageHeader} {body : MessageBody}
    (old : MessageBody) (hbody : body.Sendable) (hkind : old.kind = body.kind)
    (hbs : encodeMessage header body = some bs) {expected : LibfabricMessageType}
    (htype : header.msgType = expected.code) (hcontrol : ¬ IsControl expected.code ∨
      expected = .assignId) (hn : size < 2 ^ 64) (hroom : bs.length ≤ size)
    (hholds : buffer.Holds 0 bs) :
    ∃ s d s', pollMessage expected buffer size = .ok (header, s) ∧
      old.applySerializerDef s = .ok (d, s') ∧ body.DecodedAs buffer d := by
  obtain ⟨bs', hbs', rfl, hlen⟩ := length_encodeMessage hbs
  obtain ⟨hheader, hrest⟩ := ByteBuffer.holds_append.mp hholds
  rw [length_encode_header, Nat.zero_add] at hrest
  obtain ⟨a, s, hrun, rfl, hbuffer, hcursor, hfull, haction⟩ :=
    (unpacks_encode_header header ⟨0, 0, 0, 0⟩ (.new buffer size .unpack) rfl hn
      (by rw [length_encode_header]; simp only [SerializerBase.new]; omega) hheader).returns
  rw [length_encode_header] at hcursor
  have hcursor : s.cursor = 32 := hcursor
  have hbuffer : s.buffer = buffer := hbuffer
  have hfull : s.size = size := hfull
  obtain ⟨d, s', hd, hdec, -⟩ := (unpacks_encode_body hbody hkind hbs' s haction (hfull ▸ hn)
    (by omega) (by rw [hcursor, hbuffer]; exact hrest)).returns
  refine ⟨s, d, s', ?_, hd, hbuffer ▸ hdec⟩
  have hplain : a.msgType ≠ LibfabricMessageType.badAuth.code ∧
      a.msgType ≠ LibfabricMessageType.fatalError.code := by
    rw [htype]
    rcases hcontrol with hno | rfl
    · exact ⟨fun h => hno (Or.inr (Or.inl h)), fun h => hno (Or.inr (Or.inr h))⟩
    · exact ⟨by decide, by decide⟩
  unfold pollMessage onRecvMessage runSerializer
  rw [if_neg (by omega), hrun]
  dsimp only
  rw [if_neg hplain.1, if_neg hplain.2]
  dsimp only
  rw [if_pos htype]

/-- The struct in a body. -/
theorem response_of_body {response : LibfabricResponse} {s s' : SerializerBase} {d : MessageBody}
    (h : (MessageBody.response response).applySerializerDef s = .ok (d, s')) :
    ∃ m, response.applySerializerDef s = .ok (m, s') ∧ d = .response m := by
  simp only [MessageBody.applySerializerDef] at h
  have hbind : (response.applySerializerDef >>= fun m => pure (MessageBody.response m)) s =
    (response.applySerializerDef s >>= fun r => .ok (.response r.1, r.2)) := rfl
  rw [hbind] at h
  cases hm : response.applySerializerDef s with
  | error f =>
    rw [hm] at h
    cases h
  | ok r =>
    rw [hm] at h
    obtain ⟨h₁, h₂⟩ := Prod.mk.inj (Except.ok.inj h)
    exact ⟨r.1, by rw [← h₂], h₁.symm⟩

theorem Call.not_control_ack (k : Call) : ¬ IsControl k.request.expectedMessageType.code := by
  rw [← k.ackType_hook]
  cases k.hook <;> decide

/-- A call that gets a response finishes with it. -/
theorem Call.onMessage_of_response (k : Call) {response : LibfabricResponse}
    (hbuilt : response.Built) (hbs : encodeMessage (fillProtocolHeader
      k.request.expectedMessageType) (.response response) = some bs) (hn : size < 2 ^ 64)
    (hroom : bs.length ≤ size) (hholds : buffer.Holds 0 bs) (old : LibfabricResponse) :
    ∃ m, response.DecodedAs buffer m ∧ k.onMessage old buffer size = k.finish m buffer := by
  have hbody : (MessageBody.response response).Sendable := hbuilt
  obtain ⟨s, d, s', hpoll, hd, hdec⟩ := pollMessage_encoded (.response old) hbody rfl hbs rfl
    (Or.inl k.not_control_ack) hn hroom hholds
  obtain ⟨m, hm, rfl⟩ := response_of_body hd
  refine ⟨m, hdec, ?_⟩
  unfold onMessage
  rw [hpoll]
  dsimp only
  rw [hm]

/-- **The client receives a status.** -/
theorem Call.onMessage_of_status (k : Call) {status : Int32} (hbs : encodeMessage
      (fillProtocolHeader k.request.expectedMessageType) (.response (.ofStatus status)) = some bs)
    (hn : size < 2 ^ 64) (hroom : bs.length ≤ size) (hholds : buffer.Holds 0 bs)
    (old : LibfabricResponse) : k.onMessage old buffer size = .ok ⟨status, none⟩ := by
  obtain ⟨m, ⟨-, hstatus, hflag, -⟩, hrun⟩ :=
    k.onMessage_of_response (.status status) hbs hn hroom hholds old
  have hflag : m.msgHasData = false := hflag
  have hstatus : m.status = status := hstatus
  rw [hrun]
  cases k with
  | objRead =>
    simp only [finish, hflag, hstatus]
    rfl
  | _ => simp only [finish, hstatus]

/-- **The client receives the data of a read**, and copies it when it is as long as was asked
for. -/
theorem onMessage_of_data {objectId : LibfabricObjectId} {readSize offset : UInt64} {iov : Iov}
    {data : List UInt8} (hbs : encodeMessage (fillProtocolHeader .objReadWriteAck)
      (.response (.ofFragments 0 [⟨.block data, UInt64.ofNat data.length⟩])) = some bs)
    (hn : size < 2 ^ 64) (hroom : bs.length ≤ size) (hholds : buffer.Holds 0 bs)
    (old : LibfabricResponse) :
    (Call.objRead objectId readSize offset iov).onMessage old buffer size =
      if UInt64.ofNat data.length = readSize then .ok ⟨0, some (data.take readSize.toNat)⟩
      else .error (.invalidSize (UInt64.ofNat data.length) readSize) := by
  obtain ⟨m, ⟨hsize, hstatus, hflag, hdata⟩, hrun⟩ :=
    (Call.objRead objectId readSize offset iov).onMessage_of_response
      (.fragments 0 _ (by simp)) hbs hn hroom hholds old
  have hflag : m.msgHasData = true := hflag
  have hstatus : m.status = 0 := hstatus
  have hsize : m.msgDataSize = UInt64.ofNat data.length := by
    rw [hsize]
    simp [LibfabricResponse.ofFragments]
  obtain ⟨bytes, hload, i, hi, hbytes⟩ := hdata rfl
  rw [hrun]
  simp only [Call.finish, hflag, hstatus, hsize, hi, if_true]
  split_ifs with heq
  · -- what is loaded is the announced part of the data
    have hlen : bytes = data.take readSize.toNat := by
      have hle : (UInt64.ofNat data.length).toNat ≤ data.length := by
        rw [UInt64.toNat_ofNat']
        exact Nat.mod_le _ _
      simp only [LibfabricResponse.data, LibfabricResponse.ofFragments, loadFragments,
        Pointer.load, if_pos hle, List.append_nil, Option.some.injEq] at hload
      rw [← hload, heq]
    have hcount : bytes.length = readSize.toNat := by
      have hle : readSize.toNat ≤ data.length := by
        rw [← heq, UInt64.toNat_ofNat']
        exact Nat.mod_le _ _
      rw [hlen, List.length_take, Nat.min_eq_left hle]
    unfold ByteBuffer.Holds at hbytes
    rw [hcount, hlen] at hbytes
    rw [hbytes]
  · rfl

/-- The calls that get data. -/
def Call.IsRead : Call → Prop
  | .objRead .. => True
  | _ => False

/-- **The client receives the answer to a reply** and returns it, unless the data of a read is
not as long as was asked for. -/
theorem Call.onMessage_of_reply (k : Call) {reply : Reply}
    (hread : ∀ r, reply = .eager r → k.IsRead) (hbs : encodeMessage (fillProtocolHeader
      k.request.expectedMessageType) (.response (Reply.response reply)) = some bs)
    (hn : size < 2 ^ 64) (hroom : bs.length ≤ size) (hholds : buffer.Holds 0 bs)
    (old : LibfabricResponse) :
    k.onMessage old buffer size = .ok (k.result reply) ∨
      ∃ r f, reply = .eager r ∧ r.data.length ≠ k.readSize ∧
        k.onMessage old buffer size = .error f := by
  cases reply with
  | ack status => exact Or.inl (k.onMessage_of_status hbs hn hroom hholds old)
  | rdma payload => exact Or.inl (k.onMessage_of_status hbs hn hroom hholds old)
  | nothing => exact Or.inl (k.onMessage_of_status hbs hn hroom hholds old)
  | eager r =>
    have hk := hread r rfl
    cases k with
    | objRead objectId readSize offset iov =>
      have hrun : (Call.objRead objectId readSize offset iov).onMessage old buffer size = _ :=
        onMessage_of_data hbs hn hroom hholds old
      by_cases hlen : UInt64.ofNat r.data.length = readSize
      · rw [if_pos hlen] at hrun
        exact Or.inl hrun
      · rw [if_neg hlen] at hrun
        refine Or.inr ⟨r, _, rfl, fun heq => hlen ?_, hrun⟩
        rw [show r.data.length = readSize.toNat from heq]
        exact UInt64.ofNat_toNat
    | _ => exact hk.elim

/-- **The client gets its id.** -/
theorem onAssignId_of_encoded {id : UInt64} (hbs : encodeMessage (fillProtocolHeader .assignId)
      (.firstHandshake ⟨2, id⟩) = some bs) (hn : size < 2 ^ 64) (hroom : bs.length ≤ size)
    (hholds : buffer.Holds 0 bs) (old : LibfabricFirstHandshake) :
    onAssignId old buffer size = .ok id := by
  have hbody : (MessageBody.firstHandshake ⟨2, id⟩).Sendable := trivial
  have htype : (fillProtocolHeader .assignId).msgType = LibfabricMessageType.assignId.code := rfl
  obtain ⟨s, d, s', hpoll, hd, hdec⟩ := pollMessage_encoded (.firstHandshake old) hbody rfl hbs
    htype (Or.inr rfl) hn hroom hholds
  obtain rfl : d = .firstHandshake ⟨2, id⟩ := hdec
  simp only [MessageBody.applySerializerDef] at hd
  have hbind : ((old.applySerializerDef >>= fun m => pure (MessageBody.firstHandshake m)) s :
      Except SerializerFault (MessageBody × SerializerBase)) =
    (old.applySerializerDef s >>= fun r => .ok (.firstHandshake r.1, r.2)) := rfl
  rw [hbind] at hd
  unfold onAssignId
  rw [hpoll]
  dsimp only
  cases hm : old.applySerializerDef s with
  | error f =>
    rw [hm] at hd
    cases hd
  | ok r =>
    rw [hm] at hd
    obtain ⟨hfirst, -⟩ := Prod.mk.inj (Except.ok.inj hd)
    obtain ⟨m, t⟩ := r
    obtain rfl : m = ⟨2, id⟩ := MessageBody.firstHandshake.inj hfirst
    exact if_pos rfl

end

end IoCatcher.Client
