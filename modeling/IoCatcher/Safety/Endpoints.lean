import IoCatcher.Safety.ReceiveBuffers

/-!
# IO Catcher — where the answers go

A request carries two identities: the credentials of a TCP client, which are
checked, and the id of a libfabric endpoint, which says where the answer goes.
`Addressed` says that they agree: whatever was sent for an accepted request went
to an endpoint that a handshake with the same TCP client id got.

Nothing ties the two fields together, so a registered client can name the
endpoint of another one (`answer_to_another_client`). Without such a request the
answers go where they belong, also those sent from a callback long after the
request (`addressed_of_run`).
-/

namespace IoCatcher.Network

open Wire

variable {μ σ : Type} {B : Backends μ σ} {c c' : Connection μ σ}

-- ---------------------------------------------------------------------------
-- The property
-- ---------------------------------------------------------------------------

/-- What was sent for an accepted request went to an endpoint of its client. -/
def Connection.Addressed (c : Connection μ σ) : Prop :=
  ∀ e ∈ c.issued, ∀ header, e.request = some header → e.target.tcpClientId = header.tcpClientId

/-- The endpoint a header names, if there is one, is of the client whose
credentials it carries. -/
def Connection.Names (c : Connection μ σ) (header : LibfabricMessageHeader) : Prop :=
  ∀ target, c.endpointOf header = some target → target.tcpClientId = header.tcpClientId

instance (c : Connection μ σ) (header : LibfabricMessageHeader) : Decidable (c.Names header) :=
  match h : c.endpointOf header with
  | none => isTrue fun target htarget => by rw [h] at htarget; cases htarget
  | some target =>
    decidable_of_iff (target.tcpClientId = header.tcpClientId)
      ⟨fun hsame t ht => by rw [h] at ht; cases ht; exact hsame, fun hall => hall target h⟩

/-- The step takes no request that names the endpoint of another client, and no
handshake whose endpoint id is in use: the ids are numbered in 64 bits but found
by their low 32. -/
def Honest (c : Connection μ σ) (e : NetEvent) : Prop :=
  c.Announces (fun header =>
    (header.msgType = LibfabricMessageType.connectInit.code →
      c.remoteLiAddr (SizeT.toInt32 c.nextEndpointId.toNat) = none) ∧
    (¬ IsControl header.msgType → c.Accepts header → c.Names header)) e

instance (c : Connection μ σ) (e : NetEvent) : Decidable (Honest c e) :=
  inferInstanceAs (Decidable (c.Announces _ e))

/-- The property, with what the callbacks to come need: the endpoint of every
transfer is there, and is of its client. -/
structure Connection.Directed (c : Connection μ σ) : Prop where
  issued    : c.Addressed
  transfers : ∀ t ∈ c.transfers, c.Names t.request ∧ (c.endpointOf t.request).isSome

-- ---------------------------------------------------------------------------
-- Steps and runs
-- ---------------------------------------------------------------------------

/-- Serving a request that names its own endpoint. -/
theorem Connection.Directed.serves {header : LibfabricMessageHeader} {ps : List Nat}
    {ts : List Transfer} (h : c.Directed) (hnames : c.Names header)
    (hts : ∀ t ∈ ts, t.request = header) (hserves : Serves header ps ts c c') : c'.Directed := by
  obtain ⟨l, hl, hmem⟩ := hserves.issued
  have hsame : ∀ header', c'.endpointOf header' = c.endpointOf header' := by
    intro header'
    unfold Connection.endpointOf
    rw [hserves.endpoints]
  constructor
  · intro e he header' hreq
    rw [hl] at he
    obtain he | he := List.mem_append.mp he
    · exact h.issued e he header' hreq
    · obtain ⟨hown, htarget⟩ := hmem e he
      obtain rfl := Option.some.inj (hown.symm.trans hreq)
      exact hnames _ htarget
  · intro t ht
    unfold Connection.Names
    rw [hsame]
    rw [hserves.transfers] at ht
    obtain ht | ht := List.mem_append.mp ht
    · exact h.transfers t ht
    · rw [hts t ht]
      exact ⟨hnames, hserves.found (List.ne_nil_of_mem ht)⟩

theorem directed_step {e : NetEvent} (h : c.Directed) (hhonest : Honest c e)
    (hstep : c.Step B e c') : c'.Directed := by
  cases e with
  | recv id message outside =>
    obtain ⟨-, r, hheader, hreceived⟩ := step_recv hstep
    obtain ⟨hfresh, hnames⟩ := hhonest r hheader
    have hdelivered : (c.deliver id message).Directed := ⟨h.issued, h.transfers⟩
    cases hreceived with
    | handshake htype addr hc' =>
      subst hc'
      constructor
      · -- the answer to the handshake is for no request
        intro e he header hreq
        obtain he | he := List.mem_append.mp he
        · exact h.issued e he header hreq
        · rw [List.mem_singleton.mp he] at hreq
          cases hreq
      · -- the new endpoint replaces none, so no transfer changes its target
        intro t ht
        have hother : SizeT.toInt32 t.request.lfClientId.toNat ≠
            SizeT.toInt32 c.nextEndpointId.toNat := by
          intro hkey
          have hsome := (h.transfers t ht).2
          unfold Connection.endpointOf at hsome
          rw [hkey, hfresh htype] at hsome
          exact absurd hsome (by decide)
        have hsame : ((c.deliver id message).connected id r.1 addr).endpointOf t.request =
            c.endpointOf t.request := by
          simp only [Connection.endpointOf, Connection.connected, Connection.deliver, hother,
            if_false]
        unfold Connection.Names
        rw [hsame]
        exact h.transfers t ht
    | badAuth _ _ hc' =>
      subst hc'
      exact ⟨h.issued, h.transfers⟩
    | refused _ _ target _ hc' =>
      subst hc'
      refine ⟨fun e he header hreq => ?_, h.transfers⟩
      obtain he | he := List.mem_append.mp he
      · exact h.issued e he header hreq
      · rw [List.mem_singleton.mp he] at hreq
        cases hreq
    | accepted htype hcred hhandled =>
      obtain ⟨ts, hts, hserves⟩ | ⟨size, hserves⟩ := hhandled
      · exact hdelivered.serves (hnames htype hcred) (fun t ht => (hts t ht).1) hserves
      · refine hdelivered.serves (hnames htype hcred) (fun t ht => ?_) hserves
        rw [List.mem_singleton.mp ht]
  | done n fetched =>
    obtain ⟨t, ht, hserves⟩ := step_done hstep
    have hmem : t ∈ c.transfers := List.mem_of_getElem? ht
    have hrest : ({ c with transfers := c.transfers.eraseIdx n } : Connection μ σ).Directed :=
      ⟨h.issued, fun u hu => h.transfers u (List.mem_of_mem_eraseIdx hu)⟩
    exact hrest.serves (h.transfers t hmem).1 (fun u hu => absurd hu List.not_mem_nil) hserves
  | clientConnect id key =>
    rw [step_clientConnect hstep]
    exact ⟨h.issued, h.transfers⟩
  | clientDisconnect id =>
    rw [step_clientDisconnect hstep]
    exact ⟨h.issued, h.transfers⟩

/-- **Answers go to the client that was authenticated** in every run in which no
accepted request names the endpoint of another client and no handshake takes
over an endpoint id: whatever is sent for a request, at once or from a callback,
goes to an endpoint of its client. -/
theorem addressed_of_run (server : Server μ σ) (size count msgBufferSize : Nat)
    (checkClientAuth : Bool) (recvBuffers : Nat → ByteBuffer)
    (fiAvInsert : (Fin maxAddrLen → UInt8) → Bool)
    (hrun : Run (Connection.Step B) Honest
      (Connection.postReceives server size count msgBufferSize checkClientAuth recvBuffers
        fiAvInsert) c) : c.Addressed := by
  have hstart : (Connection.postReceives server size count msgBufferSize checkClientAuth
      recvBuffers fiAvInsert).Directed :=
    ⟨fun _ he => absurd he List.not_mem_nil, fun _ ht => absurd ht List.not_mem_nil⟩
  exact (hrun.invariant hstart directed_step).issued

-- ---------------------------------------------------------------------------
-- A request in the name of another client
-- ---------------------------------------------------------------------------

/-- Two clients, with the keys 5 and 6, connect and get the endpoints 0 and 1. -/
def twoClients : List NetEvent :=
  [.clientConnect 1 5, .clientConnect 2 6, .recv 0 (shortMessage 0 0 1 5) noOutside,
    .recv 1 (shortMessage 0 0 2 6) noOutside]

theorem addressed_after_pings :
    ∃ c, Run (Connection.Step localBackends) Honest twoBuffers c ∧ c.issued.length = 4 ∧
      c.Addressed := by
  obtain ⟨c, hrun, hissued⟩ : ∃ c, Run (Connection.Step localBackends) Honest twoBuffers c ∧
      c.issued.length = 4 :=
    Connection.run_of_trace _ _ (twoClients ++ [.recv 0 (shortMessage 10 0 1 5) noOutside,
      .recv 1 (shortMessage 10 1 2 6) noOutside]) _ (by decide +kernel)
  exact ⟨c, hrun, hissued, addressed_of_run _ _ _ _ _ _ _ hrun⟩

/-- The second client pings with its own credentials and the endpoint of the
first one, which gets the answer. -/
theorem answer_to_another_client :
    ∃ c, Run (Connection.Step localBackends) (fun _ _ => True) twoBuffers c ∧ ¬ c.Addressed := by
  obtain ⟨c, hrun, hwrong⟩ : ∃ c,
      Run (Connection.Step localBackends) (fun _ _ => True) twoBuffers c ∧
        c.issued.any (fun e => decide (e.target.tcpClientId = 1 ∧
          e.request.any fun header => header.tcpClientId = 2)) = true :=
    Connection.run_of_trace _ _ (twoClients ++ [.recv 0 (shortMessage 10 0 2 6) noOutside]) _
      (by decide +kernel)
  refine ⟨c, hrun, fun haddressed => ?_⟩
  obtain ⟨e, he, htest⟩ := List.any_eq_true.mp hwrong
  obtain ⟨htarget, hrequest⟩ := of_decide_eq_true htest
  obtain ⟨header, hheader, hclient⟩ := (Option.any_eq_true _ _).mp hrequest
  have hsame := haddressed e he header hheader
  rw [htarget, of_decide_eq_true hclient] at hsame
  exact absurd hsame (by decide)

end IoCatcher.Network
