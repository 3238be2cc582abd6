import IoCatcher.Client.Calls

/-!
# IO Catcher — the receive buffers of the server

The server has 128 receive buffers for all its clients. A message takes one, and the handler
gives it back, except when it refuses the message for its credentials. The clients of
`Actions.cpp` have the credentials as long as they live, so only a client that died in a call
costs a buffer, and only one.

* `takes_of_recv`, `takes_of_done` — what a step does to the buffers and to the ids;
* `buffers_of_trace`               — the buffers that are lost.
-/

namespace IoCatcher.Client

open Wire Network

variable {μ σ : Type} {B : Backends μ σ}

-- ---------------------------------------------------------------------------
-- The connection
-- ---------------------------------------------------------------------------

section

variable {c c' : Connection μ σ}

/-- libfabric accepts every address, and the receive buffers in use are those of the
connection. -/
structure Wired (c : Connection μ σ) : Prop where
  accepts : ∀ a, c.fiAvInsert a = true
  buffers : ∀ id ∈ c.posted ++ c.held, id < c.recvBuffersCount

/-- What a step does to the receive buffers and the ids: none is added, and one id is taken at
most. -/
structure Takes (c c' : Connection μ σ) : Prop where
  accepts : c'.fiAvInsert = c.fiAvInsert
  count   : c'.recvBuffersCount = c.recvBuffersCount
  buffers : ∀ id ∈ c'.posted ++ c'.held, id ∈ c.posted ++ c.held
  ids     : c'.nextEndpointId.toNat ≤ c.nextEndpointId.toNat + 1

theorem Takes.wired (h : Takes c c') (hwired : Wired c) : Wired c' :=
  ⟨fun a => h.accepts ▸ hwired.accepts a,
    fun id hid => h.count ▸ hwired.buffers id (h.buffers id hid)⟩

/-- The receive buffer of a message is posted again (`ps`), kept by a transfer (`hs`) or
lost. -/
theorem posted_of_recv {id : Nat} {message : List UInt8} {outside : Outside}
    (hstep : c.Step B (.recv id message outside) c') :
    id ∈ c.posted ∧ ∃ ps hs, c'.posted = c.posted.erase id ++ ps ∧ c'.held = c.held ++ hs ∧
      (ps ++ hs = [] ∨ ps ++ hs = [id]) := by
  obtain ⟨hid, r, -, hreceived⟩ := step_recv hstep
  refine ⟨hid, ?_⟩
  cases hreceived with
  | handshake _ addr hc' =>
    subst hc'
    exact ⟨[id], [], rfl, (List.append_nil _).symm, Or.inr rfl⟩
  | badAuth _ _ hc' =>
    subst hc'
    exact ⟨[id], [], rfl, (List.append_nil _).symm, Or.inr rfl⟩
  | refused _ _ target _ hc' =>
    subst hc'
    exact ⟨[], [], (List.append_nil _).symm, (List.append_nil _).symm, Or.inl rfl⟩
  | accepted _ _ hhandled =>
    obtain ⟨ts, hts, hserves⟩ | ⟨size, hserves⟩ := hhandled
    · have hnone : ts.filterMap Transfer.held = [] :=
        List.filterMap_eq_nil_iff.mpr fun t ht => (hts t ht).2
      refine ⟨[id], [], hserves.posted, ?_, Or.inr rfl⟩
      unfold Connection.held
      rw [hserves.transfers, List.filterMap_append, hnone]
      rfl
    · refine ⟨[], [id], hserves.posted, ?_, Or.inr rfl⟩
      unfold Connection.held
      rw [hserves.transfers, List.filterMap_append]
      rfl

/-- A message takes one receive buffer at most. -/
theorem length_posted_of_recv {id : Nat} {message : List UInt8} {outside : Outside}
    (hstep : c.Step B (.recv id message outside) c') :
    c'.posted.length = c.posted.length ∨ c'.posted.length + 1 = c.posted.length := by
  obtain ⟨hid, ps, hs, hposted, -, hps⟩ := posted_of_recv hstep
  have hpos := List.length_pos_of_mem hid
  have hlen : ps.length + hs.length ≤ 1 := by
    rw [← List.length_append]
    rcases hps with hps | hps <;> simp [hps]
  rw [hposted, List.length_append, List.length_erase_of_mem hid]
  omega

theorem takes_of_recv {id : Nat} {message : List UInt8} {outside : Outside}
    (hstep : c.Step B (.recv id message outside) c') : Takes c c' := by
  obtain ⟨hid, ps, hs, hposted, hheld, hps⟩ := posted_of_recv hstep
  have hbuffers : ∀ x ∈ c'.posted ++ c'.held, x ∈ c.posted ++ c.held := by
    intro x hx
    have hself : x ∈ ps ++ hs → x = id := by
      intro hx
      rcases hps with hps | hps
      · rw [hps] at hx
        cases hx
      · rw [hps] at hx
        exact List.mem_singleton.mp hx
    rw [hposted, hheld] at hx
    simp only [List.mem_append] at hx hself
    rw [List.mem_append]
    rcases hx with (hx | hx) | (hx | hx)
    · exact Or.inl (List.mem_of_mem_erase hx)
    · rw [hself (Or.inl hx)]
      exact Or.inl hid
    · exact Or.inr hx
    · rw [hself (Or.inr hx)]
      exact Or.inl hid
  obtain ⟨-, r, -, hreceived⟩ := step_recv hstep
  cases hreceived with
  | handshake _ addr hc' =>
    subst hc'
    refine ⟨rfl, rfl, hbuffers, ?_⟩
    show (c.nextEndpointId + 1).toNat ≤ _
    rw [UInt64.toNat_add]
    exact Nat.mod_le _ _
  | badAuth _ _ hc' =>
    subst hc'
    exact ⟨rfl, rfl, hbuffers, Nat.le_succ _⟩
  | refused _ _ target _ hc' =>
    subst hc'
    exact ⟨rfl, rfl, hbuffers, Nat.le_succ _⟩
  | accepted _ _ hhandled =>
    have hserves : ∀ {ps : List Nat} {ts : List Transfer},
        Serves r.1 ps ts (c.deliver id message) c' → Takes c c' := by
      intro ps ts hserves
      refine ⟨hserves.fixed.fiAvInsert, hserves.fixed.recvBuffersCount, hbuffers, ?_⟩
      rw [hserves.nextId]
      exact Nat.le_succ _
    obtain ⟨ts, -, hgiven⟩ | ⟨size, hkept⟩ := hhandled
    · exact hserves hgiven
    · exact hserves hkept

theorem takes_of_done {n : Nat} {fetched : Bytes} (hstep : c.Step B (.done n fetched) c') :
    Takes c c' ∧ c.posted.length ≤ c'.posted.length ∧ c'.nextEndpointId = c.nextEndpointId := by
  obtain ⟨t, ht, hserves⟩ := step_done hstep
  have hheld : c'.held = (c.transfers.eraseIdx n).filterMap Transfer.held := by
    unfold Connection.held
    rw [hserves.transfers, List.append_nil]
  have hposted : c'.posted = c.posted ++ t.held.toList := hserves.posted
  have hlen : c.posted.length ≤ c'.posted.length := by
    rw [hposted, List.length_append]
    omega
  have hnext : c'.nextEndpointId = c.nextEndpointId := hserves.nextId
  refine ⟨⟨hserves.fixed.fiAvInsert, hserves.fixed.recvBuffersCount, fun id hid => ?_,
    by rw [hnext]; omega⟩, hlen, hnext⟩
  rw [hposted, hheld, List.mem_append, List.mem_append] at hid
  rw [List.mem_append]
  rcases hid with (hid | hid) | hid
  · exact Or.inl hid
  · refine Or.inr (List.mem_filterMap.mpr ⟨t, List.mem_of_getElem? ht, ?_⟩)
    exact Option.mem_toList.mp hid
  · obtain ⟨u, hu, hud⟩ := List.mem_filterMap.mp hid
    exact Or.inr (List.mem_filterMap.mpr ⟨u, List.mem_of_mem_eraseIdx hu, hud⟩)

end

-- ---------------------------------------------------------------------------
-- The system
-- ---------------------------------------------------------------------------

section

variable {s s' : System μ σ} {stages : Address → Stage} {l : Act}

/-- The server keeps its receive buffers apart in every step. -/
theorem wired_step (h : Wired s.server) (hrun : System.Runs B s l s') : Wired s'.server := by
  obtain ⟨-, hstep⟩ := hrun
  cases hstep with
  | tcpConnect hstep =>
    rw [step_clientConnect hstep]
    exact ⟨h.accepts, h.buffers⟩
  | tcpDisconnect _ hstep =>
    rw [step_clientDisconnect hstep]
    exact ⟨h.accepts, h.buffers⟩
  | receive _ _ hstep => exact (takes_of_recv hstep).wired h
  | finish _ _ hstep => exact (takes_of_done hstep).1.wired h
  | _ => exact h

theorem wired_start (server : Server μ σ) (checkClientAuth : Bool)
    (recvBuffers : Nat → ByteBuffer) {fiAvInsert : Address → Bool}
    (haccepts : ∀ a, fiAvInsert a = true) :
    Wired (System.new server checkClientAuth recvBuffers fiAvInsert).server := by
  refine ⟨haccepts, fun id hid => ?_⟩
  rcases List.mem_append.mp hid with hid | hid
  · exact List.mem_range.mp hid
  · cases hid

/-- A message with the credentials of a client, for a hook that keeps no receive buffer, gives
its buffer back. -/
theorem posted_of_accepted {c c' : Connection μ σ} {id : Nat} {header : LibfabricMessageHeader}
    {bs : List UInt8} {outside : Outside} {ts : List Transfer} (hn : c.recvBuffersSize < 2 ^ 64)
    (hstep : c.Step B (.recv id (header.encode ++ bs) outside) c')
    (hcred : IsControl header.msgType ∨ c.Accepts header)
    (hts : c'.transfers = c.transfers ++ ts) (hping : ∀ t ∈ ts, t.held = none) :
    c'.posted.length = c.posted.length := by
  have hholds : ((c.deliver id (header.encode ++ bs)).recvBuffers id).Holds 0
      (header.encode ++ bs) := by
    simp only [Connection.deliver, if_true]
    exact ByteBuffer.holds_put _ 0 _
  have hroom := length_of_step hstep
  obtain ⟨d, -, hheader, -⟩ :=
    headerOf_encoded (c := c.deliver id (header.encode ++ bs)) hn hroom hholds
  obtain ⟨hid, r, hr, hreceived⟩ := step_recv hstep
  obtain rfl := Except.ok.inj (hheader.symm.trans hr)
  have hback : ∀ l, c'.posted = l ++ [id] → l = c.posted.erase id →
      c'.posted.length = c.posted.length := by
    rintro l hl rfl
    have hpos := List.length_pos_of_mem hid
    rw [hl, List.length_append, List.length_erase_of_mem hid, List.length_singleton]
    omega
  cases hreceived with
  | handshake _ addr hc' => exact hback _ (congrArg Connection.posted hc') rfl
  | badAuth _ _ hc' => exact hback _ (congrArg Connection.posted hc') rfl
  | refused htype hno =>
    rcases hcred with hcontrol | hyes
    · exact absurd hcontrol htype
    · exact absurd hyes hno
  | accepted _ _ hhandled =>
    obtain ⟨us, -, hserves⟩ | ⟨size, hserves⟩ := hhandled
    · exact hback _ hserves.posted rfl
    · -- a ping would keep it
      have hsame := List.append_cancel_left (hts.symm.trans hserves.transfers)
      have hno := hping ⟨header, .ping id size⟩ (by rw [hsame]; exact List.mem_cons_self)
      cases hno

/-- The transfers of a client keep no receive buffer. -/
theorem Flight.held {remote : Int → Option Endpoint} {a : Address} {p : Session} {stage : Stage}
    {load : Load} (h : Flight remote a p stage load) : ∀ t ∈ load.transfers, t.held = none := by
  intro t ht
  cases h with
  | fetching | pushing =>
    rw [List.mem_singleton.mp ht]
    rfl
  | _ => cases ht

/-- A client died in a call, and its request is not in flight any more. -/
def System.DeadInCall (s : System μ σ) (a : Address) : Prop :=
  ∃ p k, s.clients a = some p ∧ p.alive = false ∧ p.phase = .waiting k ∧ (s.load a).requests = []

/-- **A receive buffer is only lost** with a client that died in its call. -/
theorem posted_of_receive (h : s.Sound stages) (hlt : s.server.nextEndpointId.toNat < 2 ^ 32)
    {a : Address} {n id : Nat} {bytes : List UInt8} {outside : Outside} {c : Connection μ σ}
    (hin : s.requests[n]? = some (a, bytes)) (hfetch : s.Fetches a outside.clientMemory)
    (hstep : s.server.Step B (.recv id bytes outside) c) :
    c.posted.length = s.server.posted.length ∨
      ∃ p k, s.clients a = some p ∧ p.alive = false ∧ p.phase = .waiting k := by
  obtain ⟨p, ts, rs, stage, hp, hload, hmoved, hplace, -⟩ := h.received hlt hin hfetch hstep
  have hn := h.ready.size_lt
  have hflight := h.flight a p hp
  rw [hload] at hflight
  generalize stages a = stage' at hflight
  cases hflight with
  | joining hphase hbytes =>
    obtain ⟨bs, hbs, rfl, -⟩ := length_encodeMessage hbytes
    exact Or.inl (posted_of_accepted hn hstep (Or.inl (Or.inl rfl)) hmoved.transfers hplace.held)
  | called hjoined hphase hbytes =>
    rename_i k
    obtain ⟨bs, hbs, rfl, -⟩ := length_encodeMessage hbytes
    cases halive : p.alive with
    | false => exact Or.inr ⟨p, k, hp, halive, hphase⟩
    | true => exact Or.inl (posted_of_accepted hn hstep (Or.inr fun _ => h.known a p hp halive)
        hmoved.transfers hplace.held)

/-- A client that is dead stays so, and sends nothing. -/
theorem dead_step (hrun : System.Runs B s l s') {a : Address} (hdead : s.DeadInCall a) :
    s'.DeadInCall a := by
  obtain ⟨p, k, hp, halive, hphase, hload⟩ := hdead
  have hne : ∀ {b : Address} {q : Session}, s.clients b = some q → q.alive = true → b ≠ a := by
    rintro b q hq hyes rfl
    obtain rfl := Option.some.inj (hp.symm.trans hq)
    rw [halive] at hyes
    cases hyes
  have hsends : ∀ {b : Address} {bytes : List UInt8}, b ≠ a →
      Mailbox.of addressOf a (s.requests ++ [(b, bytes)]) = [] := by
    intro b bytes hb
    have hload : Mailbox.of addressOf a s.requests = [] := hload
    rw [Mailbox.of_append, hload, Mailbox.of_all (l := [(b, bytes)]) (b := b) fun r hr => by
      rw [List.mem_singleton.mp hr, addressOf], if_neg (Ne.symm hb)]
    rfl
  obtain ⟨-, hstep⟩ := hrun
  cases hstep with
  | tcpConnect | tcpDisconnect | finish => exact ⟨p, k, hp, halive, hphase, hload⟩
  | start hfresh =>
    rename_i b id key bytes hcred hbytes
    have hb : b ≠ a := by
      rintro rfl
      rw [hfresh] at hp
      cases hp
    exact ⟨p, k, (if_neg (Ne.symm hb)).trans hp, halive, hphase, hsends hb⟩
  | call hq hyes => exact ⟨p, k, (if_neg (Ne.symm (hne hq hyes))).trans hp, halive, hphase,
      hsends (hne hq hyes)⟩
  | joined hin hq hyes | joinAbort hin hq hyes | answer hin hq hyes | abort hin hq hyes =>
    exact ⟨p, k, (if_neg (Ne.symm (hne hq hyes))).trans hp, halive, hphase, hload⟩
  | die hq =>
    rename_i b q
    by_cases hb : a = b
    · subst hb
      obtain rfl := Option.some.inj (hp.symm.trans hq)
      exact ⟨{ p with alive := false }, k, if_pos rfl, rfl, hphase, hload⟩
    · exact ⟨p, k, (if_neg hb).trans hp, halive, hphase, hload⟩
  | receive hin =>
    refine ⟨p, k, hp, halive, hphase, ?_⟩
    have hload : Mailbox.of addressOf a s.requests = [] := hload
    refine List.eq_nil_iff_forall_not_mem.mpr fun r hr => ?_
    obtain ⟨hmem, hkey⟩ := Mailbox.mem_of.mp hr
    have hr' := Mailbox.mem_of.mpr ⟨List.mem_of_mem_eraseIdx hmem, hkey⟩
    rw [hload] at hr'
    cases hr'

/-- The clients that cost the server a receive buffer. -/
structure System.Lost (s : System μ σ) (lost : List Address) : Prop where
  once  : lost.Nodup
  count : s.server.posted.length + lost.length = 128
  dead  : ∀ a ∈ lost, s.DeadInCall a

theorem lost_step (h : s.Sound stages) {lost : List Address} (hlost : s.Lost lost)
    (hrun : System.Runs B s l s') : ∃ lost', s'.Lost lost' := by
  have hdead : ∀ a ∈ lost, s'.DeadInCall a := fun a ha => dead_step hrun (hlost.dead a ha)
  have hsame : s'.server.posted.length = s.server.posted.length → ∃ lost', s'.Lost lost' :=
    fun heq => ⟨lost, hlost.once, heq ▸ hlost.count, hdead⟩
  have hrun' := hrun
  obtain ⟨hlt, hstep⟩ := hrun
  cases hstep with
  | tcpConnect hstep =>
    exact hsame (by rw [step_clientConnect hstep])
  | tcpDisconnect _ hstep =>
    exact hsame (by rw [step_clientDisconnect hstep])
  | start | joined | joinAbort | call | answer | abort | die => exact hsame rfl
  | finish hin htarget hstep =>
    obtain ⟨p, bytes, stage, hp, hload, -⟩ := h.finished hlt hin htarget hstep
    obtain ⟨t, ht, hserves⟩ := step_done hstep
    obtain rfl := Option.some.inj (hin.symm.trans ht)
    have hheld := (h.flight _ p hp).held
    rw [hload] at hheld
    refine hsame ?_
    simp only [System.served, hserves.posted, hheld _ List.mem_cons_self, Option.toList_none,
      List.append_nil]
  | receive hin hfetch hstep =>
    rename_i a n id bytes outside c
    rcases length_posted_of_recv hstep with heq | hless
    · exact hsame heq
    · rcases posted_of_receive h hlt hin hfetch hstep with heq | ⟨p, k, hp, halive, hphase⟩
      · omega
      · obtain ⟨-, -, -, -, -, hload, -⟩ := h.received hlt hin hfetch hstep
        have hone : (s.load a).requests = [(a, bytes)] := by rw [hload]
        -- a client that was lost before has no request in flight
        have hnew : a ∉ lost := by
          intro ha
          obtain ⟨-, -, -, -, -, hnone⟩ := hlost.dead a ha
          rw [hone] at hnone
          cases hnone
        refine ⟨a :: lost, List.nodup_cons.mpr ⟨hnew, hlost.once⟩, ?_, fun b hb => ?_⟩
        · have hcount := hlost.count
          simp only [System.served, List.length_cons]
          omega
        · rcases List.mem_cons.mp hb with rfl | hb
          · exact ⟨p, k, hp, halive, hphase, of_only hin hone⟩
          · exact hdead b hb

end

/-- **What the server loses.** In every run of a server and its clients, the receive buffers of
the server are posted, except one for each of some clients that died in a call. -/
theorem buffers_of_trace {server : Server μ σ} (hserver : server.pending = [])
    (checkClientAuth : Bool) (recvBuffers : Nat → ByteBuffer) (fiAvInsert : Address → Bool)
    {ls : List Act} {s : System μ σ} (ht : Trace (System.Runs B)
      (System.new server checkClientAuth recvBuffers fiAvInsert) ls s) :
    ∃ lost : List Address, lost.Nodup ∧ s.server.posted.length + lost.length = 128 ∧
      ∀ a ∈ lost, ∃ p k, s.clients a = some p ∧ p.alive = false ∧ p.phase = .waiting k := by
  have hinv : (∃ stages, s.Sound stages) ∧ ∃ lost, s.Lost lost := by
    induction ht with
    | start =>
      exact ⟨⟨_, (served_start (B := B) hserver _ _ _).sound⟩, [], List.nodup_nil, rfl,
        fun a ha => absurd ha List.not_mem_nil⟩
    | snoc _ hrun ih =>
      obtain ⟨⟨stages, hsound⟩, lost, hlost⟩ := ih
      obtain ⟨stages', hsound', -⟩ := sound_step hsound hrun
      exact ⟨⟨stages', hsound'⟩, lost_step hsound hlost hrun⟩
  obtain ⟨-, lost, hlost⟩ := hinv
  refine ⟨lost, hlost.once, hlost.count, fun a ha => ?_⟩
  obtain ⟨p, k, hp, halive, hphase, -⟩ := hlost.dead a ha
  exact ⟨p, k, hp, halive, hphase⟩

/-- The sample loses no receive buffer: no client dies. -/
theorem buffers_of_twoCalls : ∃ ls s,
    sampleSystem.schedule localBackends (fun _ _ => true) sampleMoves = some (ls, s) ∧
      ∃ lost : List Address, s.server.posted.length + lost.length = 128 ∧ lost = [] := by
  obtain ⟨⟨ls, s⟩, hrun, hposted⟩ := Option.map_eq_some_iff.mp
    (show (sampleSystem.schedule localBackends (fun _ _ => true) sampleMoves).map
      (fun r => r.2.server.posted.length) = some 128 by decide +kernel)
  obtain ⟨lost, -, hcount, -⟩ := buffers_of_trace rfl true (fun _ _ => 0) (fun _ => true)
    ((System.trace_of_schedule hrun).mono And.left)
  have hposted : s.server.posted.length = 128 := hposted
  exact ⟨ls, s, hrun, lost, hcount, List.length_eq_zero_iff.mp (by omega)⟩

end IoCatcher.Client
