import IoCatcher.Client.Schedule
import IoCatcher.Client.Service

/-!
# IO Catcher — every call is answered

The other steps of the system, and what follows for its runs. A client sees one call after the
other: the server makes the request the call asks for, once, and the call returns the reply
(`answered_of_trace`), whatever the other clients do, whichever clients die and in whatever
order messages and transfers arrive. A call that waits has one thing in flight, its request,
its transfer or its response; only one for which the server found nothing to transfer has none.
-/

namespace IoCatcher.Client

open Wire Network

variable {μ σ : Type} {B : Backends μ σ}

-- ---------------------------------------------------------------------------
-- Places
-- ---------------------------------------------------------------------------

section

variable {remote : Int → Option Endpoint} {a : Address} {p : Session} {stage : Stage} {load : Load}

/-- Between two calls nothing is in flight. -/
theorem Flight.of_idle (h : Flight remote a p stage load) (halive : p.alive = true)
    (hphase : p.phase = .idle) : stage = .idle ∧ load = ⟨[], [], []⟩ ∧ p.Joined a remote := by
  cases h with
  | idle hjoined => exact ⟨rfl, rfl, hjoined⟩
  | aborted hdead =>
    rw [hdead] at halive
    cases halive
  | joining hother | assigned hother | called _ hother | fetching _ hother | pushing _ hother
  | answered _ hother | lost hother | refused hother =>
    rw [hphase] at hother
    cases hother

/-- A message for a connection that joins is the answer to its handshake. -/
theorem Flight.of_joining (h : Flight remote a p stage load) (halive : p.alive = true)
    (hphase : p.phase = .joining) {r : Address × List UInt8} (hr : r ∈ load.responses) :
    stage = .idle ∧ load = ⟨[], [], [r]⟩ ∧ ∃ id : UInt64,
      remote (SizeT.toInt32 id.toNat) = some ⟨a, p.identity.tcpClientId⟩ ∧
      encodeMessage (fillProtocolHeader .assignId) (.firstHandshake ⟨2, id⟩) = some r.2 ∧
      r.2.length ≤ postReceiveRead := by
  cases h with
  | assigned _ hremote hbytes hroom =>
    rw [List.mem_singleton.mp hr]
    exact ⟨rfl, rfl, _, hremote, hbytes, hroom⟩
  | joining => cases hr
  | aborted hdead =>
    rw [hdead] at halive
    cases halive
  | idle _ hother | called _ hother | fetching _ hother | pushing _ hother | answered _ hother
  | lost hother | refused hother =>
    rw [hphase] at hother
    cases hother

/-- A message for a call is the answer to its request. -/
theorem Flight.of_waiting (h : Flight remote a p stage load) (halive : p.alive = true) {k : Call}
    (hphase : p.phase = .waiting k) {r : Address × List UInt8} (hr : r ∈ load.responses) :
    load = ⟨[], [], [r]⟩ ∧ p.Joined a remote ∧ ∃ reply, stage = .answered k reply ∧
      (∀ m, reply = .eager m → k.IsRead) ∧
      encodeMessage (fillProtocolHeader k.request.expectedMessageType)
        (.response (Reply.response reply)) = some r.2 ∧ r.2.length ≤ postReceiveRead := by
  cases h with
  | answered hjoined hsame hread hbytes hroom =>
    obtain rfl := Phase.waiting.inj (hphase.symm.trans hsame)
    rw [List.mem_singleton.mp hr]
    exact ⟨rfl, hjoined, _, rfl, hread, hbytes, hroom⟩
  | refused _ hdead =>
    rw [hdead] at halive
    cases halive
  | assigned hother =>
    rw [hphase] at hother
    cases hother
  | _ => cases hr

end

-- ---------------------------------------------------------------------------
-- Steps of a client
-- ---------------------------------------------------------------------------

section

variable {s s' : System μ σ} {stages : Address → Stage} {a : Address} {p : Session}

/-- A step of a client leaves the server and the other clients alone. -/
theorem System.Sound.client (h : s.Sound stages) (s' : System μ σ) {q : Session} {stage : Stage}
    (hserver : s'.server = s.server) (hclients : s'.clients = (s.setClient a q).clients)
    (hknown : q.alive = true →
      s.server.clients q.identity.tcpClientId = some q.identity.tcpClientKey)
    (hloads : ∀ b, b ≠ a → s'.load b = s.load b)
    (hflight : Flight s.server.remoteLiAddr a q stage (s'.load a)) :
    s'.Sound (setStage stages a stage) := by
  have hclient : ∀ b, s'.clients b = if b = a then some q else s.clients b := by
    intro b
    rw [hclients]
    rfl
  refine h.update s' (hserver ▸ h.ready) (.of_same (congrArg _ hserver) (congrArg _ hserver)
    (congrArg _ hserver)) (fun b hb => ⟨?_, hloads b hb⟩) (fun b r hb hr => ?_)
    ((hclient a).trans (if_pos rfl)) (hserver ▸ hflight)
  · rw [hclient, if_neg hb]
  · rw [hclient] at hb
    rw [hserver]
    by_cases hba : b = a
    · rw [if_pos hba] at hb
      obtain rfl := Option.some.inj hb
      exact hknown hr
    · rw [if_neg hba] at hb
      exact h.known b r hb hr

/-- A call starts. -/
theorem System.Sound.call (h : s.Sound stages) {k : Call} {bytes : List UInt8}
    (hp : s.clients a = some p) (halive : p.alive = true) (hphase : p.phase = .idle)
    (hbytes : packedBytes (p.identity.fillProtocolHeader k.request.msgType) k.request.body
      postReceiveWrite = .ok bytes) :
    s.Progress B stages (.call a k)
      ((s.setClient a { p with phase := .waiting k }).sends a bytes) := by
  obtain ⟨hstage, hload, hjoined⟩ := (h.flight a p hp).of_idle halive hphase
  have hencoded := ((packedBytes_iff k.sendable.inMemory (by decide)).mp hbytes).1
  refine .of_one (.called k) ?_ hp ?_ fun b hb => if_neg (Ne.symm hb)
  · refine h.client _ rfl rfl (fun _ => h.known a p hp halive) (fun b hb => ?_) ?_
    · rw [System.load_sends, if_neg hb]
    · rw [System.load_sends, if_pos rfl, hload]
      exact .called hjoined rfl hencoded
  · rw [hstage, Act.at, if_pos rfl]
    exact .call k

/-- A call takes the answer. -/
theorem System.Sound.answer (h : s.Sound stages) {k : Call} {n : Nat} {bytes : List UInt8}
    {buffer : ByteBuffer} {response : LibfabricResponse} {result : Result}
    (hin : s.responses[n]? = some (a, bytes)) (hp : s.clients a = some p)
    (halive : p.alive = true) (hphase : p.phase = .waiting k) (hbuffer : buffer.Holds 0 bytes)
    (hrun : k.onMessage response buffer postReceiveRead = .ok result) :
    s.Progress B stages (.answer a result) ((s.setClient a { p with phase := .idle }).takes n) := by
  obtain ⟨hload, hjoined, reply, hstage, hread, hbytes, hroom⟩ :=
    (h.flight a p hp).of_waiting halive hphase (System.mem_responses hin)
  have hresult : result = k.result reply := by
    rcases k.onMessage_of_reply hread hbytes (by decide) hroom hbuffer response with
      hok | ⟨m, f, -, -, hfault⟩
    · exact Except.ok.inj (hrun.symm.trans hok)
    · rw [hrun] at hfault
      cases hfault
  have hone : (s.load a).responses = [(a, bytes)] := by rw [hload]
  refine .of_one .idle ?_ hp ?_ fun b hb => if_neg (Ne.symm hb)
  · refine h.client _ rfl rfl (fun _ => h.known a p hp halive) (fun b hb => ?_) ?_
    · rw [System.load_takes hin hone, if_neg hb]
    · rw [System.load_takes hin hone, if_pos rfl, hload]
      exact .idle hjoined rfl
  · rw [hstage, Act.at, if_pos rfl, hresult]
    exact .answer

/-- A call stops the process. -/
theorem System.Sound.abort (h : s.Sound stages) {k : Call} {n : Nat} {bytes : List UInt8}
    {buffer : ByteBuffer} {response : LibfabricResponse} {f : ClientFault}
    (hin : s.responses[n]? = some (a, bytes)) (hp : s.clients a = some p)
    (halive : p.alive = true) (hphase : p.phase = .waiting k) (hbuffer : buffer.Holds 0 bytes)
    (hrun : k.onMessage response buffer postReceiveRead = .error f) :
    s.Progress B stages (.abort a f) ((s.setClient a { p with alive := false }).takes n) := by
  obtain ⟨hload, hjoined, reply, hstage, hread, hbytes, hroom⟩ :=
    (h.flight a p hp).of_waiting halive hphase (System.mem_responses hin)
  obtain ⟨m, rfl, hsize⟩ : ∃ m, reply = .eager m ∧ m.data.length ≠ k.readSize := by
    rcases k.onMessage_of_reply hread hbytes (by decide) hroom hbuffer response with
      hok | ⟨m, f', hm, hsize, -⟩
    · rw [hrun] at hok
      cases hok
    · exact ⟨m, hm, hsize⟩
  have hone : (s.load a).responses = [(a, bytes)] := by rw [hload]
  refine .of_one .aborted ?_ hp ?_ fun b hb => if_neg (Ne.symm hb)
  · refine h.client _ rfl rfl (fun halive => by cases halive) (fun b hb => ?_) ?_
    · rw [System.load_takes hin hone, if_neg hb]
    · rw [System.load_takes hin hone, if_pos rfl, hload]
      exact .aborted rfl
  · rw [hstage, Act.at, if_pos rfl]
    exact .abort hsize f

/-- A connection gets its id. -/
theorem System.Sound.joined (h : s.Sound stages) {n : Nat} {bytes : List UInt8}
    {buffer : ByteBuffer} {firstHandshake : LibfabricFirstHandshake}
    {r : Except ClientFault UInt64} (hin : s.responses[n]? = some (a, bytes))
    (hp : s.clients a = some p) (halive : p.alive = true) (hphase : p.phase = .joining)
    (hbuffer : buffer.Holds 0 bytes) (hrun : onAssignId firstHandshake buffer postReceiveRead = r) :
    ∃ id, r = .ok id ∧ s.Progress B stages .internal
      ((s.setClient a ⟨{ p.identity with clientId := id }, .idle, true⟩).takes n) := by
  obtain ⟨hstage, hload, id, hremote, hbytes, hroom⟩ :=
    (h.flight a p hp).of_joining halive hphase (System.mem_responses hin)
  have hok := onAssignId_of_encoded hbytes (by decide) hroom hbuffer firstHandshake
  have hone : (s.load a).responses = [(a, bytes)] := by rw [hload]
  refine ⟨id, hrun.symm.trans hok, .of_one .idle ?_ hp hstage.symm fun b hb => rfl⟩
  refine h.client _ rfl rfl (fun _ => h.known a p hp halive) (fun b hb => ?_) ?_
  · rw [System.load_takes hin hone, if_neg hb]
  · rw [System.load_takes hin hone, if_pos rfl, hload]
    exact .idle hremote rfl

/-- A new connection sends its handshake. -/
theorem System.Sound.start (h : s.Sound stages) {id key : UInt64} {bytes : List UInt8}
    (hfresh : s.clients a = none) (hcred : s.server.clients id = some key)
    (hbytes : packedBytes ((Identity.new id key).fillProtocolHeader .connectInit)
      (.firstClientMessage ⟨a⟩) postReceiveWrite = .ok bytes) :
    s.Progress B stages .internal
      ((s.setClient a ⟨.new id key, .joining, true⟩).sends a bytes) := by
  obtain ⟨hstage, hload⟩ := h.absent a hfresh
  have hbody : (MessageBody.firstClientMessage ⟨a⟩).InMemory := trivial
  have hencoded := ((packedBytes_iff hbody (by decide)).mp hbytes).1
  refine ⟨setStage stages a .idle, ?_, fun b => ⟨fun _ => ⟨rfl, ?_⟩, fun q hq => ?_⟩⟩
  · refine h.client _ rfl rfl (fun _ => hcred) (fun b hb => ?_) ?_
    · rw [System.load_sends, if_neg hb]
    · rw [System.load_sends, if_pos rfl, hload]
      exact .joining rfl hencoded
  · by_cases hb : b = a
    · rw [hb, hstage]
      exact if_pos rfl
    · exact if_neg hb
  · have hb : b ≠ a := by
      rintro rfl
      rw [hfresh] at hq
      cases hq
    simp only [setStage, if_neg hb]
    rfl

/-- A process dies. -/
theorem System.Sound.die (h : s.Sound stages) (hp : s.clients a = some p) :
    s.Progress B stages .internal (s.setClient a { p with alive := false }) := by
  refine .of_one (stages a) ?_ hp rfl fun b _ => rfl
  exact h.client _ rfl rfl (fun halive => by cases halive) (fun b _ => rfl) (h.flight a p hp).die

/-- A step of the server that the clients do not notice. -/
theorem System.Sound.unnoticed (h : s.Sound stages) (hlt : s.server.nextEndpointId.toNat < 2 ^ 32)
    {e : NetEvent} {c : Connection μ σ} {l : Act} (hstep : s.server.Step B e c)
    (htransfers : c.transfers = s.server.transfers)
    (hremote : c.remoteLiAddr = s.server.remoteLiAddr)
    (hkept : ∀ b q, s.clients b = some q → q.alive = true →
      e ≠ .clientDisconnect q.identity.tcpClientId)
    (hl : ∀ b, l.at b = none) : s.Progress B stages l { s with server := c } := by
  obtain ⟨hready, -⟩ := ready_step h.ready hlt hstep
  have hload : ∀ b, System.load { s with server := c } b = s.load b := by
    intro b
    unfold System.load clientOf Connection.endpointOf
    rw [htransfers, hremote]
  refine ⟨stages, ⟨hready, fun b hb => ?_, fun b q hb => ?_, fun b q hb hq =>
    clients_step hstep (h.known b q hb hq) (hkept b q hb hq)⟩,
    fun b => ⟨fun _ => ⟨hl b, rfl⟩, fun q _ => ?_⟩⟩
  · rw [hload]
    exact h.absent b hb
  · rw [hload, hremote]
    exact h.flight b q hb
  · rw [hl]
    rfl

/-- **One step** takes every client from its stage to the next one. -/
theorem sound_step (h : s.Sound stages) {l : Act} (hrun : System.Runs B s l s') :
    s.Progress B stages l s' := by
  obtain ⟨hlt, hstep⟩ := hrun
  cases hstep with
  | tcpConnect hstep =>
    have hc := step_clientConnect hstep
    exact h.unnoticed hlt hstep (by rw [hc]) (by rw [hc]) (by simp) fun b => rfl
  | tcpDisconnect hdead hstep =>
    have hc := step_clientDisconnect hstep
    refine h.unnoticed hlt hstep (by rw [hc]) (by rw [hc]) (fun b q hb hq heq => ?_) fun b => rfl
    rw [hdead b q hb (NetEvent.clientDisconnect.inj heq).symm] at hq
    cases hq
  | start hfresh hcred hbytes => exact h.start hfresh hcred hbytes
  | joined hin hp halive hphase hbuffer hrun =>
    obtain ⟨id, hid, hprogress⟩ := h.joined hin hp halive hphase hbuffer hrun
    obtain rfl := Except.ok.inj hid
    exact hprogress
  | joinAbort hin hp halive hphase hbuffer hrun =>
    obtain ⟨id, hid, -⟩ := h.joined (B := B) hin hp halive hphase hbuffer hrun
    cases hid
  | call hp halive hphase hbytes => exact h.call hp halive hphase hbytes
  | answer hin hp halive hphase hbuffer hrun => exact h.answer hin hp halive hphase hbuffer hrun
  | abort hin hp halive hphase hbuffer hrun => exact h.abort hin hp halive hphase hbuffer hrun
  | die hp => exact h.die hp
  | receive hin hfetch hstep => exact h.receive hlt hin hfetch hstep
  | finish hin htarget hstep => exact h.finish hlt hin htarget hstep

/-- The process a connection belongs to. -/
def System.owner (s : System μ σ) (a : Address) : Option UInt64 :=
  (s.clients a).map fun p => p.identity.tcpClientId

/-- A connection keeps its process; only an internal step makes a new one. -/
theorem owner_step {l : Act} (hrun : System.Runs B s l s') (a : Address) :
    s'.owner a = s.owner a ∨ s.owner a = none ∧ l = .internal := by
  have hset : ∀ {b : Address} {p q : Session} {t : System μ σ},
      t.clients = (s.setClient b q).clients → s.clients b = some p →
      q.identity.tcpClientId = p.identity.tcpClientId → t.owner a = s.owner a := by
    intro b p q t ht hb hsame
    have hclient : t.clients a = if a = b then some q else s.clients a := by
      rw [ht]
      rfl
    unfold System.owner
    rw [hclient]
    split_ifs with hab
    · rw [hab, hb, Option.map_some, Option.map_some, hsame]
    · rfl
  obtain ⟨-, hstep⟩ := hrun
  cases hstep with
  | tcpConnect | tcpDisconnect | receive | finish => exact Or.inl rfl
  | start hfresh =>
    rename_i b id key bytes hcred hbytes
    by_cases hab : a = b
    · refine Or.inr ⟨?_, rfl⟩
      rw [System.owner, hab, hfresh, Option.map_none]
    · refine Or.inl ?_
      show ((if a = b then some _ else s.clients a).map _ : Option UInt64) = _
      rw [if_neg hab]
      rfl
  | joined _ hb | joinAbort _ hb | call hb | answer _ hb | abort _ hb | die hb =>
    exact Or.inl (hset rfl hb rfl)

/-- What a client or the server does makes no connection. -/
theorem owner_of_act {l : Act} (hrun : System.Runs B s l s') (hl : l ≠ .internal) (a : Address) :
    s'.owner a = s.owner a :=
  (owner_step hrun a).resolve_right fun hno => hl hno.2

/-- A connection stays, and belongs to the same process. -/
theorem client_step {l : Act} (hrun : System.Runs B s l s') (hp : s.clients a = some p) :
    ∃ q, s'.clients a = some q ∧ q.identity.tcpClientId = p.identity.tcpClientId := by
  have howner : s.owner a = some p.identity.tcpClientId := by
    rw [System.owner, hp, Option.map_some]
  rcases owner_step hrun a with hsame | ⟨hnone, -⟩
  · exact Option.map_eq_some_iff.mp (hsame.trans howner)
  · rw [howner] at hnone
    cases hnone

end

-- ---------------------------------------------------------------------------
-- The server behind the messages
-- ---------------------------------------------------------------------------

/-- The server makes a request and replies. -/
def Does (B : Backends μ σ) (s : Server μ σ) (l : Event × Reply) (s' : Server μ σ) : Prop :=
  s.exec B l.1 = .ok (l.2, s')

/-- What the server makes for a message or a transfer is the label of the step. -/
theorem does_of_makes {s s' : Server μ σ} {x : Option Event} (h : Server.Makes B s x s')
    (a : Address) : Trace (Does B) s (Act.ofServed a (x.bind (replied B s))).made s' := by
  cases x with
  | none =>
    obtain rfl := h
    exact .start
  | some e =>
    obtain ⟨reply, hexec⟩ := h
    have hreplied : replied B s e = some (e, reply) := by
      unfold replied
      rw [hexec]
    show Trace (Does B) s (Act.ofServed a (replied B s e)).made s'
    rw [hreplied]
    exact .single hexec

theorem does_step {s s' : System μ σ} {l : Act} (hrun : System.Runs B s l s') :
    Trace (Does B) s.server.server l.made s'.server.server := by
  obtain ⟨-, hstep⟩ := hrun
  cases hstep with
  | tcpConnect hstep =>
    rw [step_clientConnect hstep]
    exact .start
  | tcpDisconnect hdead hstep =>
    rw [step_clientDisconnect hstep]
    exact .single rfl
  | start | joined | joinAbort | call | answer | abort | die => exact .start
  | receive hin hfetch hstep => exact does_of_makes (makes_of_recv hstep) _
  | finish hin htarget hstep =>
    rename_i target fetched c
    exact does_of_makes (makes_of_done hin hstep) target.addr

-- ---------------------------------------------------------------------------
-- Runs
-- ---------------------------------------------------------------------------

/-- The number of things in flight for a client. -/
def Load.count (load : Load) : Nat :=
  load.requests.length + load.transfers.length + load.responses.length

theorem Flight.count_le {remote : Int → Option Endpoint} {a : Address} {p : Session}
    {stage : Stage} {load : Load} (h : Flight remote a p stage load) : load.count ≤ 1 := by
  cases h <;> simp [Load.count]

/-- A call with nothing in flight is lost. -/
theorem Flight.lost_of_count {remote : Int → Option Endpoint} {a : Address} {p : Session}
    {stage : Stage} {load : Load} (h : Flight remote a p stage load) (halive : p.alive = true)
    {k : Call} (hphase : p.phase = .waiting k) (hcount : load.count = 0) : stage = .lost k := by
  cases h with
  | lost hsame => rw [Phase.waiting.inj (hphase.symm.trans hsame)]
  | aborted hdead =>
    rw [hdead] at halive
    cases halive
  | idle _ hother =>
    rw [hphase] at hother
    cases hother
  | _ => simp [Load.count] at hcount

/-- What the server starts for a request in some state. -/
def StartsAt (B : Backends μ σ) (e : Event) (reply : Reply) (number : Option Nat) : Prop :=
  ∃ s : Server μ σ, Starts B s e reply number

theorem Stage.Step.mono {starts starts' : Event → Reply → Option Nat → Prop} {tcpClientId : UInt64}
    {stage stage' : Stage} {d : Doing} (h : Stage.Step starts tcpClientId stage d stage')
    (hstarts : ∀ e reply number, starts e reply number → starts' e reply number) :
    Stage.Step starts' tcpClientId stage d stage' := by
  cases h with
  | call k => exact .call k
  | serve hasks hreply => exact .serve hasks hreply
  | fetch hasks hfetch => exact .fetch hasks (hstarts _ _ _ hfetch)
  | fetched => exact .fetched
  | lost hasks hlost => exact .lost hasks (hstarts _ _ _ hlost)
  | answer => exact .answer
  | abort hsize fault => exact .abort hsize fault

/-- Every connection has come to its stage, one call after the other. -/
structure System.Served (B : Backends μ σ) (s : System μ σ) (ls : List Act)
    (stages : Address → Stage) : Prop where
  sound  : s.Sound stages
  absent : ∀ a, s.clients a = none → ls.filterMap (Act.at a) = []
  seen   : ∀ a p, s.clients a = some p → Trace (Stage.Step (StartsAt B) p.identity.tcpClientId)
    .idle (ls.filterMap (Act.at a)) (stages a)

theorem served_step {s s' : System μ σ} {ls : List Act} {stages : Address → Stage} {l : Act}
    (h : s.Served B ls stages) (hrun : System.Runs B s l s') :
    ∃ stages', s'.Served B (ls ++ [l]) stages' := by
  obtain ⟨stages', hsound, hmoves⟩ := sound_step h.sound hrun
  have hmore : ∀ a, (ls ++ [l]).filterMap (Act.at a) =
      ls.filterMap (Act.at a) ++ (l.at a).toList := by
    intro a
    rw [List.filterMap_append]
    cases hl : l.at a <;> simp [hl]
  refine ⟨stages', hsound, fun a ha => ?_, fun a q hq => ?_⟩
  · cases hp : s.clients a with
    | none => rw [hmore, h.absent a hp, ((hmoves a).1 hp).1, Option.toList_none, List.append_nil]
    | some p =>
      obtain ⟨q, hq, -⟩ := client_step hrun hp
      rw [ha] at hq
      cases hq
  · rw [hmore]
    cases hp : s.clients a with
    | none =>
      obtain ⟨hl, hsame⟩ := (hmoves a).1 hp
      rw [h.absent a hp, hl, hsame, (h.sound.absent a hp).1]
      exact .start
    | some p =>
      obtain ⟨q', hq', hsame⟩ := client_step hrun hp
      obtain rfl := Option.some.inj (hq.symm.trans hq')
      rw [hsame]
      have hmove := (hmoves a).2 p hp
      cases hl : l.at a with
      | none =>
        rw [hl] at hmove
        rw [show stages' a = stages a from hmove, Option.toList_none, List.append_nil]
        exact h.seen a p hp
      | some d =>
        rw [hl] at hmove
        exact (h.seen a p hp).snoc (Stage.Step.mono hmove fun _ _ _ hs => ⟨_, hs⟩)

theorem served_start {server : Server μ σ} (hserver : server.pending = []) (checkClientAuth : Bool)
    (recvBuffers : Nat → ByteBuffer) (fiAvInsert : Address → Bool) :
    (System.new server checkClientAuth recvBuffers fiAvInsert).Served B [] fun _ => .idle where
  sound := {
    ready := ⟨tracked_start hserver _ _ _ _ _ _, fun key target hkey => (by cases hkey), rfl, rfl⟩
    absent := fun a _ => ⟨rfl, rfl⟩
    flight := fun a p hp => by cases hp
    known := fun a p hp => by cases hp }
  absent _ _ := rfl
  seen a p hp := by cases hp

/-- **Every call is answered with the reply to the request it asks for.** In every run of a
server and its clients, in which messages arrive and transfers end in any order and clients die
at any time: what the server makes is a run of the server by itself; each client sees one call
after the other, and for each call the server makes the request it asks for once, and the call
returns the reply to it; a client never has more than one thing in flight; and a call that waits
has one, unless the server found nothing to transfer for it. -/
theorem answered_of_trace {server : Server μ σ} (hserver : server.pending = [])
    (checkClientAuth : Bool) (recvBuffers : Nat → ByteBuffer) (fiAvInsert : Address → Bool)
    {ls : List Act} {s : System μ σ} (ht : Trace (System.Runs B)
      (System.new server checkClientAuth recvBuffers fiAvInsert) ls s) :
    Trace (Does B) server (ls.flatMap Act.made) s.server.server ∧
      ∀ a p, s.clients a = some p → ∃ stage,
        Trace (Stage.Step (StartsAt B) p.identity.tcpClientId) .idle (ls.filterMap (Act.at a))
          stage ∧
        (s.load a).count ≤ 1 ∧
        ∀ k, p.alive = true → p.phase = .waiting k → (s.load a).count = 0 → stage = .lost k := by
  obtain ⟨stages, hserved, hserver⟩ : ∃ stages, s.Served B ls stages ∧
      Trace (Does B) server (ls.flatMap Act.made) s.server.server := by
    induction ht with
    | start => exact ⟨_, served_start hserver _ _ _, .start⟩
    | snoc _ hstep ih =>
      obtain ⟨stages, hserved, htrace⟩ := ih
      obtain ⟨stages', hserved'⟩ := served_step hserved hstep
      refine ⟨stages', hserved', ?_⟩
      rw [List.flatMap_append, List.flatMap_singleton]
      exact htrace.trans (does_step hstep)
  refine ⟨hserver, fun a p hp => ⟨stages a, hserved.seen a p hp, ?_, fun k halive hphase hcount =>
    ?_⟩⟩
  · exact (hserved.sound.flight a p hp).count_le
  · exact (hserved.sound.flight a p hp).lost_of_count halive hphase hcount

/-- A write and a read at the same time. -/
theorem answered_of_twoCalls : ∃ ls s,
    sampleSystem.schedule localBackends (fun _ _ => true) sampleMoves = some (ls, s) ∧
      statuses ls = [0, 0] ∧
      Trace (Does localBackends) (Server.localServer 8 9) (ls.flatMap Act.made) s.server.server ∧
      ∀ a p, s.clients a = some p → ∃ stage,
        Trace (Stage.Step (StartsAt localBackends) p.identity.tcpClientId) .idle
          (ls.filterMap (Act.at a)) stage ∧
        (s.load a).count ≤ 1 ∧
        ∀ k, p.alive = true → p.phase = .waiting k → (s.load a).count = 0 → stage = .lost k := by
  obtain ⟨⟨ls, s⟩, hrun, hstatuses⟩ := Option.map_eq_some_iff.mp
    (show (sampleSystem.schedule localBackends (fun _ _ => true) sampleMoves).map
      (fun r => statuses r.1) = some [0, 0] by decide +kernel)
  exact ⟨ls, s, hrun, hstatuses, answered_of_trace rfl true _ _
    ((System.trace_of_schedule hrun).mono And.left)⟩

end IoCatcher.Client
