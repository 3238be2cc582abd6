import IoCatcher.Client.Buffers
import IoCatcher.Refinement.Service

/-!
# IO Catcher — every call comes to an end

`Service` says that what a call returns is right; this module says that it returns. Messages
and transfers arrive in any order. Each arrival leaves less to do (`System.work`), and as long
as a client waits for a request that the server handles, something can arrive.

* `work_arrives`        — a bound for the number of arrivals;
* `arrives_or_waits`    — nothing is stuck;
* `settled_of_arrivals` — whatever arrives first, at the end every call has returned.
-/

namespace IoCatcher.Client

open Wire Network

variable {μ σ : Type} {B : Backends μ σ} {A : Nat}

-- ---------------------------------------------------------------------------
-- Arrivals
-- ---------------------------------------------------------------------------

/-- What is left to do for what is in flight: a request may lead to a transfer, and that to a
response. -/
def System.work (s : System μ σ) : Nat :=
  3 * s.requests.length + 2 * s.server.transfers.length + s.responses.length

/-- Something arrives: there is one request, transfer or response less in flight. -/
def System.Arrives (B : Backends μ σ) (A : Nat) (s : System μ σ) (l : Act) (s' : System μ σ) :
    Prop :=
  s.RunsOrderly B A l s' ∧ (s'.requests.length < s.requests.length ∨
    s'.server.transfers.length < s.server.transfers.length ∨
    s'.responses.length < s.responses.length)

/-- There are receive buffers and ids of endpoints for all requests. -/
structure System.Roomy (s : System μ σ) : Prop where
  buffers : s.requests.length < s.server.posted.length
  ids     : s.server.nextEndpointId.toNat + s.requests.length < 2 ^ 32

/-- There is a receive buffer for the next request. -/
theorem System.Roomy.posted {s : System μ σ} (h : s.Roomy) : ∃ id, id ∈ s.server.posted :=
  List.exists_mem_of_length_pos (Nat.zero_lt_of_lt h.buffers)

/-- Every client that is alive has returned from its call, or waits for a request that the
server does not handle. -/
def System.Settled (B : Backends μ σ) (A : Nat) (s : System μ σ) : Prop :=
  ∀ a p, s.clients a = some p → p.alive = true → p.phase = .idle ∨
    ∃ k e, p.phase = .waiting k ∧ (s.load a).requests ≠ [] ∧
      k.Asks p.identity.tcpClientId e ∧ ¬ Server.Orderly B A s.server.server e

section

variable {s s' : System μ σ} {stages : Address → Stage} {l : Act}

theorem length_eraseIdx_of {α : Type} {l : List α} {n : Nat} {x : α} (h : l[n]? = some x) :
    (l.eraseIdx n).length + 1 = l.length := by
  obtain ⟨hn, -⟩ := List.getElem?_eq_some_iff.mp h
  rw [List.length_eraseIdx_of_lt hn]
  omega

/-- **An arrival leaves less to do**, and the room for what is in flight. -/
theorem work_arrives (h : s.Sound stages) (harrives : s.Arrives B A l s') :
    s'.work < s.work ∧ (s.Roomy → s'.Roomy) := by
  obtain ⟨⟨⟨hlt, hstep⟩, -⟩, hless⟩ := harrives
  -- a step that only adds to what is in flight is no arrival
  have hmore : s.requests.length ≤ s'.requests.length →
      s'.server.transfers = s.server.transfers → s'.responses = s.responses → False := by
    intro hrequests htransfers hresponses
    rw [htransfers, hresponses] at hless
    omega
  have hclient : ∀ {n : Nat} {r : Address × List UInt8} {t : System μ σ},
      s.responses[n]? = some r → t.server = s.server → t.requests = s.requests →
      t.responses = s.responses.eraseIdx n →
      t.work < s.work ∧ (s.Roomy → t.Roomy) := by
    intro n r t hin hserver hrequests hresponses
    have hlen := length_eraseIdx_of hin
    refine ⟨?_, fun hr => ⟨?_, ?_⟩⟩
    · unfold System.work
      rw [hserver, hrequests, hresponses]
      omega
    · rw [hserver, hrequests]
      exact hr.buffers
    · rw [hserver, hrequests]
      exact hr.ids
  cases hstep with
  | tcpConnect hstep =>
    exact (hmore (Nat.le_refl _) (by rw [step_clientConnect hstep]) rfl).elim
  | tcpDisconnect _ hstep =>
    exact (hmore (Nat.le_refl _) (by rw [step_clientDisconnect hstep]) rfl).elim
  | start | call => exact (hmore (by simp [System.sends, System.setClient]) rfl rfl).elim
  | die => exact (hmore (Nat.le_refl _) rfl rfl).elim
  | joined hin | joinAbort hin | answer hin | abort hin => exact hclient hin rfl rfl rfl
  | receive hin hfetch hstep =>
    rename_i a n id bytes outside c
    obtain ⟨p, ts, rs, stage, -, -, hmoved, hplace, -⟩ := h.received hlt hin hfetch hstep
    have hlen := length_eraseIdx_of hin
    have hone : ts.length + rs.length ≤ 1 := by
      have hcount := hplace.count_le
      simp only [Load.count, List.length_nil] at hcount
      omega
    have htakes := takes_of_recv hstep
    refine ⟨?_, fun hr => ⟨?_, ?_⟩⟩
    · unfold System.work
      simp only [System.served, hmoved.transfers, hmoved.responses, List.length_append]
      omega
    · have hposted := length_posted_of_recv hstep
      have hbuffers := hr.buffers
      simp only [System.served]
      omega
    · have hids := htakes.ids
      have hids' := hr.ids
      simp only [System.served]
      omega
  | finish hin htarget hstep =>
    obtain ⟨p, bytes, stage, -, -, hmoved, -, -⟩ := h.finished hlt hin htarget hstep
    have hlen := length_eraseIdx_of hin
    obtain ⟨htakes, hposted, hnext⟩ := takes_of_done hstep
    have hresponses : newResponses s.server _ = _ := hmoved.responses
    refine ⟨?_, fun hr => ⟨?_, ?_⟩⟩
    · unfold System.work
      simp only [System.served, hmoved.transfers, hresponses, List.length_append,
        List.length_nil, List.length_singleton]
      omega
    · exact Nat.lt_of_lt_of_le hr.buffers hposted
    · simp only [System.served, hnext]
      exact hr.ids

end

-- ---------------------------------------------------------------------------
-- Answers
-- ---------------------------------------------------------------------------

/-- A message with an encoding that fits the buffers can be sent. -/
theorem Ready.fits {c : Connection μ σ} (h : Ready c) {msgType : LibfabricMessageType}
    {body : MessageBody} (hbody : body.InMemory) {bs : List UInt8} (hbs : body.encode = some bs)
    (hlen : 32 + bs.length ≤ postReceiveRead) : c.Fits msgType body := by
  have hmessage : encodeMessage (fillProtocolHeader msgType) body =
      some ((fillProtocolHeader msgType).encode ++ bs) := by
    unfold encodeMessage
    rw [hbs]
    rfl
  have hsize : c.msgBufferSize < 2 ^ 64 := by
    rw [h.sent]
    decide
  have hpack := packMessage_of_encode hbody hmessage (fun _ => 0) hsize
  rw [List.length_append, length_encode_header, h.sent, if_pos hlen] at hpack
  obtain ⟨s, hs, -, hcursor⟩ := hpack
  have hmax : postReceiveRead = 32864 := rfl
  refine ⟨_, h.sent ▸ hs, ?_⟩
  rw [hcursor, h.received]
  omega

/-- **Every answer fits**: the data of a read that is sent at once is small. -/
theorem Ready.fits_response {c : Connection μ σ} (h : Ready c) {msgType : LibfabricMessageType}
    {reply : Reply} (hsmall : ∀ r, reply = .eager r → r.data.length ≤ eagerMaxRead) :
    c.Fits msgType (.response (Reply.response reply)) := by
  have hbody : (MessageBody.response (Reply.response reply)).InMemory := trivial
  have hmax : postReceiveRead = 32864 := rfl
  have hread : eagerMaxRead = 32768 := rfl
  have hstatus : ∀ status : Int32, ∃ bs,
      (MessageBody.response (.ofStatus status)).encode = some bs ∧
        32 + bs.length ≤ postReceiveRead := by
    intro status
    refine ⟨_, rfl, ?_⟩
    simp only [LibfabricResponse.ofStatus, List.append_nil, List.length_append,
      Scalar.length_encode, Scalar.uint64, Scalar.int32, Scalar.bool]
    omega
  cases reply with
  | ack status =>
    obtain ⟨bs, hbs, hlen⟩ := hstatus (Int32.ofInt status)
    exact h.fits hbody hbs hlen
  | rdma payload =>
    obtain ⟨bs, hbs, hlen⟩ := hstatus 0
    exact h.fits hbody hbs hlen
  | nothing =>
    obtain ⟨bs, hbs, hlen⟩ := hstatus 0
    exact h.fits hbody hbs hlen
  | eager r =>
    have hdata := hsmall r rfl
    have hcount : (UInt64.ofNat r.data.length).toNat = r.data.length := by
      rw [UInt64.toNat_ofNat']
      exact Nat.mod_eq_of_lt (by omega)
    have hload : (Pointer.block r.data).load (UInt64.ofNat r.data.length).toNat = some r.data := by
      rw [hcount]
      simp [Pointer.load]
    have hbs : (MessageBody.response (Reply.response (.eager r))).encode =
        some (Scalar.uint64.encode (Reply.response (.eager r)).msgDataSize ++
          Scalar.int32.encode 0 ++ Scalar.bool.encode true ++ (r.data ++ [])) := by
      simp only [MessageBody.encode, Reply.response, LibfabricResponse.ofFragments,
        LibfabricResponse.encodeData, encodeFragments, hload, reduceCtorEq, if_false, if_true,
        joined_some]
    refine h.fits hbody hbs ?_
    simp only [List.length_append, Scalar.length_encode, Scalar.uint64, Scalar.int32,
      Scalar.bool, List.length_nil]
    omega

-- ---------------------------------------------------------------------------
-- What can arrive
-- ---------------------------------------------------------------------------

section

variable {s : System μ σ} {stages : Address → Stage} {a : Address} {p : Session}

/-- The request that the server made in a step. -/
theorem of_made {x : Option Event} {server : Server μ σ} {r : Event × Reply}
    (hr : r ∈ (Act.ofServed a (x.bind (replied B server))).made) : x = some r.1 := by
  cases x with
  | none => cases hr
  | some e =>
    simp only [Option.bind_some, replied] at hr
    split at hr
    · obtain rfl := List.mem_singleton.mp hr
      rfl
    · cases hr

/-- A request in flight arrives when the server can receive it. -/
theorem arrives_request (hroomy : s.Roomy) {bytes : List UInt8} {id : Nat}
    (hmem : (a, bytes) ∈ (s.load a).requests) {c : Connection μ σ}
    (hstep : s.server.Step B (.recv id bytes (s.outside a)) c)
    (ho : ∀ e, (s.server.deliver id bytes).eventOf id (s.outside a) = some e →
      Server.Orderly B A s.server.server e) : ∃ l s', s.Arrives B A l s' := by
  obtain ⟨hin, -⟩ := Mailbox.mem_of.mp hmem
  obtain ⟨n, hn⟩ := List.mem_iff_getElem?.mp hin
  have hids := hroomy.ids
  refine ⟨_, _, ⟨⟨by omega, .receive hn (s.fetches_outside a) hstep⟩, fun r hr => ?_⟩,
    Or.inl ?_⟩
  · exact ho r.1 (of_made hr)
  · have hlen := length_eraseIdx_of hn
    dsimp only
    omega

/-- A transfer of a client ends. -/
theorem arrives_transfer (h : s.Sound stages) (hroomy : s.Roomy) {t : Transfer} {target : Endpoint}
    (hmem : t ∈ (s.load a).transfers) (hfind : s.server.endpointOf t.request = some target)
    (hping : t.held = none) : ∃ l s', s.Arrives B A l s' := by
  obtain ⟨hin, -⟩ := Mailbox.mem_of.mp hmem
  have hdone : ∀ number, t.work = .write number → ∃ reply s',
      s.server.server.exec B (.rdmaDone number) = .ok (reply, s') := by
    intro number hwork
    have hnumber : number ∈ s.server.server.pending.map (·.number) := by
      rw [← h.ready.tracked.fetched, List.mem_filterMap]
      exact ⟨t, hin, by rw [Transfer.number, hwork]⟩
    obtain ⟨s', hexec, -⟩ := Server.rdmaDone_of_pending (B := B) hnumber
    exact ⟨_, s', hexec⟩
  obtain ⟨n, hn⟩ := List.mem_iff_getElem?.mp hin
  have hfits : s.server.Fits .objReadWriteAck (.response (Reply.response .nothing)) :=
    h.ready.fits_response (by simp)
  obtain ⟨c, hstep⟩ := step_of_done (fun _ => 0) hn hfind hfits hping hdone
  have hids := hroomy.ids
  refine ⟨_, _, ⟨⟨by omega, .finish hn hfind hstep⟩, fun r hr => ?_⟩, Or.inr (Or.inl ?_)⟩
  · have hevent := of_made hr
    unfold Transfer.event at hevent
    split at hevent
    · rw [← Option.some.inj hevent]
      trivial
    · cases hevent
  · obtain ⟨_, _, _, _, _, hmoved, _, _⟩ := h.finished (by omega) hn hfind hstep
    have hlen := length_eraseIdx_of hn
    simp only [System.served, hmoved.transfers, List.append_nil]
    omega

/-- A response in flight arrives at its client. -/
theorem arrives_response (hroomy : s.Roomy) {bytes : List UInt8}
    (hmem : (a, bytes) ∈ (s.load a).responses) {l : Act} {q : Session} (hmade : l.made = [])
    (hstep : ∀ n, s.responses[n]? = some (a, bytes) →
      s.Step B l ((s.setClient a q).takes n)) : ∃ l s', s.Arrives B A l s' := by
  obtain ⟨hin, -⟩ := Mailbox.mem_of.mp hmem
  obtain ⟨n, hn⟩ := List.mem_iff_getElem?.mp hin
  have hids := hroomy.ids
  refine ⟨l, _, ⟨⟨by omega, hstep n hn⟩, fun r hr => ?_⟩, Or.inr (Or.inr ?_)⟩
  · rw [hmade] at hr
    cases hr
  · have hlen := length_eraseIdx_of hn
    simp only [System.takes, System.setClient]
    omega

end

-- ---------------------------------------------------------------------------
-- Nothing is stuck
-- ---------------------------------------------------------------------------

section Steps

variable {sb : StorageBackend σ} (hsb : B.storageBackend = some sb) (hrel : sb.Reliable)
  {s s' : System μ σ} {v : ObjectService} {a : Address} {p : Session}

include hsb hrel

/-- The request of a call arrives if the server handles it. -/
theorem arrives_call (h : Refines B A s v) (hwired : Wired s.server) (hroomy : s.Roomy)
    (hp : s.clients a = some p) (halive : p.alive = true) {k : Call} {bytes : List UInt8}
    (hjoined : p.Joined a s.server.remoteLiAddr) (hphase : p.phase = .waiting k)
    (hbytes : encodeMessage (p.header k) k.request.body = some bytes)
    (hmem : (a, bytes) ∈ (s.load a).requests)
    (ho : ∀ e, k.Asks p.identity.tcpClientId e → Server.Orderly B A s.server.server e) :
    ∃ l s', s.Arrives B A l s' := by
  have hready := h.sound.ready
  have hn := hready.size_lt
  have hcred : s.server.Accepts (p.header k) := fun _ => h.sound.known a p hp halive
  have hfetch : k.Fetches (s.outside a).clientMemory := s.fetches_outside a p k hp hphase
  obtain ⟨bs, hbs, rfl, -⟩ := length_encodeMessage hbytes
  obtain ⟨bs', hbs', hlen⟩ := k.encode_body
  obtain rfl := Option.some.inj (hbs.symm.trans hbs')
  have hroom : 32 + bs.length ≤ s.server.recvBuffersSize := by
    have hmax : postReceiveWrite = 32864 := rfl
    rw [hready.received]
    omega
  obtain ⟨id, hid⟩ := hroomy.posted
  have hserve : ∀ e, k.Asks (p.header k).tcpClientId e → ∃ reply s',
      s.server.server.exec B e = .ok (reply, s') ∧
      s.server.Fits k.request.expectedMessageType (.response (Reply.response reply)) := by
    intro e hasks
    obtain ⟨reply, s', hexec⟩ := Server.exec_returns hsb hrel h.backed (ho e hasks)
    refine ⟨reply, s', hexec, hready.fits_response ?_⟩
    rintro r rfl
    obtain ⟨status, hno⟩ | ⟨-, hread⟩ := hasks.reply hexec
    · cases hno
    · exact (readSize_of_serves (hread r rfl) hasks
        (Server.serves_of_exec hsb hrel h.backed (ho e hasks) hexec).1).2
  obtain ⟨c, hstep⟩ := step_of_call k rfl hbs hn hcred hfetch hid
    (hwired.buffers id (List.mem_append_left _ hid)) hroom (hjoined.endpointOf k) hserve
  refine arrives_request hroomy hmem hstep fun e he => ?_
  obtain ⟨e', hasks, hevent, -⟩ := serviced_of_call k rfl hbs hn hcred hfetch hstep
  obtain rfl := Option.some.inj (he.symm.trans hevent)
  exact ho e hasks

/-- **Nothing is stuck**: something arrives for a client in a call, or the server does not
handle its request. -/
theorem arrives_or_waits (h : Refines B A s v) (hwired : Wired s.server) (hroomy : s.Roomy)
    (hp : s.clients a = some p) (halive : p.alive = true) :
    p.phase = .idle ∨ (∃ l s', s.Arrives B A l s') ∨
      ∃ k e, p.phase = .waiting k ∧ (s.load a).requests ≠ [] ∧
        k.Asks p.identity.tcpClientId e ∧ ¬ Server.Orderly B A s.server.server e := by
  have hready := h.sound.ready
  have hn := hready.size_lt
  have hholds : ∀ bytes : List UInt8, (ByteBuffer.put (fun _ => 0) 0 bytes).Holds 0 bytes :=
    ByteBuffer.holds_put _ 0
  have hflight := h.sound.flight a p hp
  generalize hstage : v.stages a = stage at hflight
  generalize hload : s.load a = load at hflight
  cases hflight with
  | idle _ hphase => exact Or.inl hphase
  | lost hphase => exact absurd hstage (h.found a _)
  | refused _ hdead | aborted hdead =>
    rw [hdead] at halive
    cases halive
  | joining hphase hbytes =>
    refine Or.inr (Or.inl ?_)
    obtain ⟨bs, hbs, rfl, -⟩ := length_encodeMessage hbytes
    obtain ⟨id, hid⟩ := hroomy.posted
    have hlen : bs.length = maxAddrLen := by
      obtain rfl := Option.some.inj hbs
      exact List.length_ofFn
    have hfits : s.server.Fits .assignId (.firstHandshake ⟨2, s.server.nextEndpointId⟩) := by
      have hmax : postReceiveRead = 32864 := rfl
      have hbody : (MessageBody.firstHandshake ⟨2, s.server.nextEndpointId⟩).InMemory := trivial
      refine hready.fits hbody rfl ?_
      simp only [List.length_append, Scalar.length_encode, Scalar.uint64, Scalar.int32]
      omega
    have htype : (p.identity.fillProtocolHeader .connectInit).msgType =
      LibfabricMessageType.connectInit.code := rfl
    obtain ⟨c, hstep⟩ := step_of_handshake (B := B) (s.outside a) htype hbs hn hid
      (hwired.buffers id (List.mem_append_left _ hid))
      (by rw [hready.received, hlen]; decide) (hwired.accepts a) hfits
    refine arrives_request hroomy (by rw [hload]; exact List.mem_cons_self) hstep fun e he => ?_
    rw [(connected_of_handshake rfl hbs hn hstep).1] at he
    cases he
  | assigned hphase hremote hbytes hroom =>
    refine Or.inr (Or.inl (arrives_response hroomy (by rw [hload]; exact List.mem_cons_self) rfl
      fun n hn => .joined hn hp halive hphase (hholds _) (onAssignId_of_encoded hbytes
        (by decide) hroom (hholds _) ⟨0, 0⟩)))
  | fetching hjoined hphase =>
    rename_i k number _
    exact Or.inr (Or.inl (arrives_transfer (t := ⟨p.header k, .write number⟩) h.sound hroomy
      (by rw [hload]; exact List.mem_cons_self) (hjoined.endpointOf k) rfl))
  | pushing hjoined hphase =>
    rename_i k payload _
    exact Or.inr (Or.inl (arrives_transfer (t := ⟨p.header k, .read⟩) h.sound hroomy
      (by rw [hload]; exact List.mem_cons_self) (hjoined.endpointOf k) rfl))
  | answered hjoined hphase hread hbytes hroom =>
    refine Or.inr (Or.inl ?_)
    rename_i k reply bytes
    obtain hrun | ⟨r, f, rfl, hsize, -⟩ :=
      k.onMessage_of_reply hread hbytes (by decide) hroom (hholds _) (.ofStatus 0)
    · exact arrives_response hroomy (by rw [hload]; exact List.mem_cons_self) rfl
        fun n hn => .answer hn hp halive hphase (hholds _) hrun
    · exact absurd (h.whole a k r hstage) hsize
  | called hjoined hphase hbytes =>
    rename_i k bytes
    have hmem : (a, bytes) ∈ (s.load a).requests := by
      rw [hload]
      exact List.mem_cons_self
    by_cases hall : ∀ e, k.Asks p.identity.tcpClientId e → Server.Orderly B A s.server.server e
    · exact Or.inr (Or.inl (arrives_call hsb hrel h hwired hroomy hp halive hjoined hphase
        hbytes hmem hall))
    · obtain ⟨e, hno⟩ := not_forall.mp hall
      obtain ⟨hasks, hno⟩ := Classical.not_imp.mp hno
      exact Or.inr (Or.inr ⟨k, e, hphase, List.cons_ne_nil _ _, hasks, hno⟩)

/-- **Every call comes to an end.** After any run of a server and its clients, whatever is in
flight may arrive in any order: there are only so many arrivals, and when nothing arrives any
more, every client that is alive has returned from its call, or waits for a request that the
server does not handle. -/
theorem settled_of_arrivals {check : Bool} {server : Server μ σ}
    (hinit : Server.Initial B A check server) (checkClientAuth : Bool)
    (recvBuffers : Nat → ByteBuffer) {fiAvInsert : Address → Bool}
    (haccepts : ∀ a, fiAvInsert a = true) {ls ls' : List Act}
    (ht : Trace (System.RunsOrderly B A)
      (System.new server checkClientAuth recvBuffers fiAvInsert) ls s)
    (hroomy : s.Roomy) (ht' : Trace (System.Arrives B A) s ls' s') :
    ls'.length ≤ s.work ∧ ((∃ l t, s'.Arrives B A l t) ∨ s'.Settled B A) := by
  have hstart : (∃ v, Refines B A s v) ∧ Wired s.server := by
    obtain ⟨v, -, hv⟩ := (simulation hsb hrel).trace
      (refines_start hinit checkClientAuth recvBuffers fiAvInsert) ht
    exact ⟨⟨v, hv⟩, ht.invariant (wired_start server checkClientAuth recvBuffers haccepts)
      fun h hrun => wired_step h hrun.1⟩
  -- an arrival is a step, and leaves less to do
  have hstep : ∀ {s l s'}, ((∃ v, Refines B A s v) ∧ Wired s.server ∧ s.Roomy) →
      s.Arrives B A l s' →
      ((∃ v, Refines B A s' v) ∧ Wired s'.server ∧ s'.Roomy) ∧ s'.work < s.work := by
    rintro s l s' ⟨⟨v, hv⟩, hwired, hroomy⟩ harrives
    obtain ⟨v', -, hv'⟩ := refines_step hsb hrel hv harrives.1
    obtain ⟨hwork, hkept⟩ := work_arrives hv.sound harrives
    exact ⟨⟨⟨v', hv'⟩, wired_step hwired harrives.1.1, hkept hroomy⟩, hwork⟩
  obtain ⟨⟨⟨v, hv⟩, hwired, hroomy'⟩, hle⟩ :=
    ht'.length_le ⟨hstart.1, hstart.2, hroomy⟩ hstep
  refine ⟨by omega, ?_⟩
  by_cases harrives : ∃ l t, s'.Arrives B A l t
  · exact Or.inl harrives
  · refine Or.inr fun a p hp halive => ?_
    rcases arrives_or_waits hsb hrel hv hwired hroomy' hp halive with hidle | hmore | hwaits
    · exact Or.inl hidle
    · exact absurd hmore harrives
    · exact Or.inr hwaits

end Steps

/-- The two calls of the sample, when neither has arrived. -/
theorem settled_of_twoCalls : ∃ s : System Malloc (ObjectId → Bytes), s.work = 6 ∧
    ((∃ l t, s.Arrives localBackends 8 l t) ∨ s.Settled localBackends 8) := by
  obtain ⟨⟨ls, s⟩, hrun, hsample⟩ := Option.map_eq_some_iff.mp
    (show (sampleSystem.schedule localBackends smallRequests (sampleMoves.take 9)).map
      (fun r => (r.2.work, r.2.requests.length, r.2.server.posted.length,
        r.2.server.nextEndpointId.toNat)) = some (6, 2, 128, 2) by decide +kernel)
  obtain ⟨hwork, hrequests, hposted, hnext⟩ := by simpa only [Prod.mk.injEq] using hsample
  have hroomy : s.Roomy := ⟨by omega, by omega⟩
  exact ⟨s, hwork, (settled_of_arrivals rfl byteStore_reliable (Server.initial_localServer 8 9)
    true (fun _ _ => 0) (fun _ => rfl) ((System.trace_of_schedule hrun).mono fun h =>
      ⟨h.1, orderly_of_smallRequests h.2⟩) hroomy .start).2⟩

end IoCatcher.Client
