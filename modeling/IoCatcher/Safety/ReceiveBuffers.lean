import IoCatcher.Network.Effects
import Mathlib.Data.List.Perm.Basic

/-!
# IO Catcher — receive buffers are conserved

`postReceives` gives `count` receive buffers to libfabric. Each message takes
one, and the code that handles the message has to give it back: `Conserved` says
that the buffers libfabric has and the buffers kept by requests in progress are
together the `count` buffers, each exactly once.

Every path gives its buffer back except one: a message that is refused for its
credentials is answered, and its buffer forgotten (`conserved_of_run`,
`refusal_leaks`).
-/

namespace IoCatcher.Network

variable {μ σ : Type} {B : Backends μ σ} {c c' : Connection μ σ}

-- ---------------------------------------------------------------------------
-- The invariant
-- ---------------------------------------------------------------------------

/-- The receive buffers kept by requests in progress. -/
def Connection.held (c : Connection μ σ) : List Nat := c.transfers.filterMap Transfer.held

/-- Every receive buffer is posted or kept by a request in progress, exactly
once. -/
def Connection.Conserved (c : Connection μ σ) : Prop :=
  (c.posted ++ c.held).Perm (List.range c.recvBuffersCount)

/-- One receive buffer is out: the one of the message being handled. -/
def Connection.Out (c : Connection μ σ) (id : Nat) : Prop :=
  (id :: (c.posted ++ c.held)).Perm (List.range c.recvBuffersCount)

theorem out_deliver {id : Nat} (h : c.Conserved) (hid : id ∈ c.posted) (message : List UInt8) :
    (c.deliver id message).Out id :=
  ((List.perm_cons_erase hid).append_right c.held).symm.trans h

/-- Giving the buffer back restores the invariant. -/
theorem Connection.Out.back {id : Nat} (h : c.Out id) (hposted : c'.posted = c.posted ++ [id])
    (hheld : c'.held = c.held) (hcount : c'.recvBuffersCount = c.recvBuffersCount) :
    c'.Conserved := by
  unfold Conserved
  rw [hposted, hheld, hcount, List.append_assoc]
  exact List.perm_middle.trans h

theorem conserved_of_handled {header : Wire.LibfabricMessageHeader} {id : Nat} (h : c.Out id)
    (hhandled : Handled header id c c') : c'.Conserved := by
  obtain ⟨ts, hts, hserves⟩ | ⟨size, hserves⟩ := hhandled
  · -- the buffer is posted, and the new transfers keep none
    have hnone : ts.filterMap Transfer.held = [] :=
      List.filterMap_eq_nil_iff.mpr fun t ht => (hts t ht).2
    refine h.back hserves.posted ?_ hserves.fixed.recvBuffersCount
    unfold Connection.held
    rw [hserves.transfers, List.filterMap_append, hnone, List.append_nil]
  · -- the ping keeps it
    have hheld : c'.held = c.held ++ [id] := by
      unfold Connection.held
      rw [hserves.transfers, List.filterMap_append]
      rfl
    unfold Connection.Conserved
    rw [hserves.posted, hheld, hserves.fixed.recvBuffersCount, List.append_nil, ← List.append_assoc]
    have hend : (c.posted ++ c.held ++ [id]).Perm (id :: (c.posted ++ c.held)) :=
      List.perm_append_comm
    exact hend.trans h

-- ---------------------------------------------------------------------------
-- Steps and runs
-- ---------------------------------------------------------------------------

/-- The step does not receive a request without valid credentials while these
are checked. -/
def Credentialed (c : Connection μ σ) (e : NetEvent) : Prop :=
  c.Announces (fun header => IsControl header.msgType ∨ c.Accepts header) e

instance (c : Connection μ σ) (e : NetEvent) : Decidable (Credentialed c e) :=
  inferInstanceAs (Decidable (c.Announces _ e))

theorem conserved_step {e : NetEvent} (h : c.Conserved) (hcred : Credentialed c e)
    (hstep : c.Step B e c') : c'.Conserved := by
  cases e with
  | recv id message outside =>
    obtain ⟨hid, r, hheader, hreceived⟩ := step_recv hstep
    have hout := out_deliver h hid message
    cases hreceived with
    | handshake _ addr hc' =>
      subst hc'
      exact hout.back rfl rfl rfl
    | badAuth _ _ hc' =>
      subst hc'
      exact hout.back rfl rfl rfl
    | refused htype hrefused => exact ((hcred r hheader).elim htype hrefused).elim
    | accepted _ _ hhandled => exact conserved_of_handled hout hhandled
  | done n fetched =>
    obtain ⟨t, ht, hserves⟩ := step_done hstep
    -- the transfer leaves the list of those in flight with its buffer
    obtain ⟨hn, rfl⟩ := List.getElem?_eq_some_iff.mp ht
    have hperm := (List.getElem_cons_eraseIdx_perm hn).filterMap Transfer.held
    have hheld : c'.held = (c.transfers.eraseIdx n).filterMap Transfer.held := by
      unfold Connection.held
      rw [hserves.transfers, List.append_nil]
    have hback : (c.transfers[n].held.toList ++
        (c.transfers.eraseIdx n).filterMap Transfer.held).Perm c.held := by
      refine List.Perm.trans (List.Perm.of_eq ?_) hperm
      rw [List.filterMap_cons]
      cases c.transfers[n].held <;> rfl
    unfold Connection.Conserved
    rw [hserves.posted, hheld, hserves.fixed.recvBuffersCount, List.append_assoc]
    exact (hback.append_left c.posted).trans h
  | clientConnect id key =>
    rw [step_clientConnect hstep]
    exact h
  | clientDisconnect id =>
    rw [step_clientDisconnect hstep]
    exact h

/-- **Receive buffers are conserved** in every run that receives no request
without valid credentials: whatever the messages, the hooks they reach and the
order in which their RDMA operations complete, every receive buffer is posted or
kept by a request in progress, exactly once. -/
theorem conserved_of_run (server : Server μ σ) (size count msgBufferSize : Nat)
    (checkClientAuth : Bool) (recvBuffers : Nat → ByteBuffer)
    (fiAvInsert : (Fin Wire.maxAddrLen → UInt8) → Bool)
    (hrun : Run (Connection.Step B) Credentialed
      (Connection.postReceives server size count msgBufferSize checkClientAuth recvBuffers
        fiAvInsert) c) : c.Conserved := by
  refine hrun.invariant ?_ conserved_step
  unfold Connection.Conserved
  exact List.Perm.of_eq (List.append_nil _)

-- ---------------------------------------------------------------------------
-- The leak
-- ---------------------------------------------------------------------------

/-- Nothing outside the messages. -/
def noOutside : Outside := ⟨fun _ => 0, fun _ => ⟨⟨0, 0⟩, 0⟩, fun _ => 0⟩

/-- A server with two receive buffers that checks credentials. -/
def twoBuffers : Connection Malloc (ObjectId → Bytes) :=
  Connection.postReceives (.new (.new 0 (.fresh 0) fun _ _ => 0) false) 64 2 64 true
    (fun _ _ => 0) fun _ => true

/-- A message with these small numbers in its header, and 32 bytes of zeros
behind it: a handshake for type 0, a ping for type 10. -/
def shortMessage (msgType lfClientId tcpClientId tcpClientKey : UInt8) : List UInt8 :=
  [msgType, lfClientId, tcpClientId, tcpClientKey].flatMap (fun b => b :: List.replicate 7 0) ++
    List.replicate 32 0

/-- A handshake, then a ping of a client that is registered: both are answered
and both buffers are back. -/
theorem conserved_after_ping : ∃ c, Run (Connection.Step localBackends) Credentialed twoBuffers c ∧
    c.issued.length = 2 ∧ c.Conserved := by
  obtain ⟨c, hrun, hissued⟩ : ∃ c, Run (Connection.Step localBackends) Credentialed twoBuffers c ∧
      c.issued.length = 2 :=
    Connection.run_of_trace _ _ [.clientConnect 0 0, .recv 0 (shortMessage 0 0 0 0) noOutside,
      .recv 1 (shortMessage 10 0 0 0) noOutside] _ (by decide +kernel)
  exact ⟨c, hrun, hissued, conserved_of_run _ _ _ _ _ _ _ hrun⟩

/-- A handshake, then the same ping without registration: it is answered, and
one of the two buffers is neither posted nor in use. -/
theorem refusal_leaks : ∃ c, Run (Connection.Step localBackends) (fun _ _ => True) twoBuffers c ∧
    ¬ c.Conserved := by
  obtain ⟨c, hrun, hleft⟩ : ∃ c,
      Run (Connection.Step localBackends) (fun _ _ => True) twoBuffers c ∧
        (c.posted ++ c.held).length = 1 ∧ c.recvBuffersCount = 2 :=
    Connection.run_of_trace _ _ [.recv 0 (shortMessage 0 0 0 0) noOutside,
      .recv 1 (shortMessage 10 0 0 0) noOutside] _ (by decide +kernel)
  refine ⟨c, hrun, fun hperm => ?_⟩
  have hlen := hperm.length_eq
  rw [hleft.1, hleft.2] at hlen
  exact absurd hlen (by decide)

end IoCatcher.Network
