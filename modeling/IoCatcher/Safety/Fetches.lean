import IoCatcher.Lib.Mailbox
import IoCatcher.Network.Answering
import IoCatcher.Safety.ReceiveBuffers

/-!
# IO Catcher — the fetches in flight

A write whose data is to be fetched is known twice: by the callback libfabric will call, and by
the server, which lets the data land when it is called. `Connection.Tracked` says that the two
agree: the fetches in flight are the writes the server waits for, in the same order and each
once, and the endpoint of every transfer is still there.

So a callback always finds its write, acknowledges it and has somewhere to send the answer
(`fetched_of_run`), whatever the clients send and in whatever order the transfers complete.
-/

namespace IoCatcher

variable {μ σ : Type} {B : Backends μ σ}

-- ---------------------------------------------------------------------------
-- The server
-- ---------------------------------------------------------------------------

/-- The requests that hooks make. -/
def Event.Requested : Event → Prop
  | .rdmaDone _ | .rdmaFail _ _ | .clientDisconnect _ => False
  | _ => True

namespace Server

variable {s s' : Server μ σ}

/-- **What a request does to the writes in flight**: nothing, or it is a write and adds one,
with the number of the write. -/
theorem pending_of_requested {e : Event} {reply : Reply} (he : e.Requested)
    (h : s.exec B e = .ok (reply, s')) :
    (reply ≠ .nothing ∧ s'.pending = s.pending ∧ s.started.length ≤ s'.started.length) ∨
      (reply = .nothing ∧ s'.started.length = s.started.length + 1 ∧
        (s'.pending = s.pending ∨
          ∃ p, p.number = s.started.length ∧ s'.pending = s.pending ++ [p])) := by
  cases e with
  | rdmaDone | rdmaFail | clientDisconnect => exact he.elim
  | rdmaWrite w =>
    simp only [exec, rdmaWrite] at h
    split at h
    · obtain ⟨rfl, rfl⟩ := Prod.mk.inj (Except.ok.inj h)
      exact Or.inl ⟨by simp, rfl, by simp⟩
    · obtain ⟨rfl, rfl⟩ := Prod.mk.inj (Except.ok.inj h)
      refine Or.inr ⟨rfl, by simp, ?_⟩
      dsimp only
      split_ifs
      · exact Or.inl rfl
      · exact Or.inr ⟨_, rfl, rfl⟩
  | eagerWrite w =>
    simp only [exec, eagerWrite] at h
    split at h
    · obtain ⟨rfl, rfl⟩ := Prod.mk.inj (Except.ok.inj h)
      exact Or.inl ⟨by simp, rfl, by simp⟩
    · split at h
      · cases h
      · obtain ⟨rfl, rfl⟩ := Prod.mk.inj (Except.ok.inj h)
        exact Or.inl ⟨by simp, rfl, by simp⟩
  | read id offset size uninitialised =>
    simp only [exec, read] at h
    split at h
    · obtain ⟨rfl, rfl⟩ := Prod.mk.inj (Except.ok.inj h)
      exact Or.inl ⟨by simp, rfl, le_refl _⟩
    · split_ifs at h
      · split at h
        · cases h
        · obtain ⟨rfl, rfl⟩ := Prod.mk.inj (Except.ok.inj h)
          exact Or.inl ⟨by simp, rfl, le_refl _⟩
      · obtain ⟨rfl, rfl⟩ := Prod.mk.inj (Except.ok.inj h)
        exact Or.inl ⟨by simp, rfl, le_refl _⟩
  | cow sourceId destId allowExist rangeOffset rangeSize =>
    simp only [exec, cow] at h
    split at h
    · split at h
      · cases h
      · obtain ⟨rfl, rfl⟩ := Prod.mk.inj (Except.ok.inj h)
        exact Or.inl ⟨by simp, rfl, le_refl _⟩
    · obtain ⟨rfl, rfl⟩ := Prod.mk.inj (Except.ok.inj h)
      exact Or.inl ⟨by simp, rfl, le_refl _⟩
  | rangeRegister tcpClientId id offset size write =>
    simp only [exec, rangeRegister] at h
    split_ifs at h <;>
    · obtain ⟨rfl, rfl⟩ := Prod.mk.inj (Except.ok.inj h)
      exact Or.inl ⟨by simp, rfl, le_refl _⟩
  | rangeUnregister tcpClientId id rangeId offset size write =>
    simp only [exec, rangeUnregister] at h
    split_ifs at h <;>
    · obtain ⟨rfl, rfl⟩ := Prod.mk.inj (Except.ok.inj h)
      exact Or.inl ⟨by simp, rfl, le_refl _⟩
  | flush id offset size =>
    obtain ⟨rfl, rfl⟩ := Prod.mk.inj (Except.ok.inj h)
    exact Or.inl ⟨by simp, rfl, le_refl _⟩
  | create id =>
    obtain ⟨rfl, rfl⟩ := Prod.mk.inj (Except.ok.inj h)
    exact Or.inl ⟨by simp, rfl, le_refl _⟩

/-- A callback acknowledges the write it finds, which is no longer in flight. -/
theorem rdmaDone_of_pending {number : Nat} (h : number ∈ s.pending.map (·.number)) :
    ∃ s', s.exec B (.rdmaDone number) = .ok (.ack 0, s') ∧ s'.started = s.started ∧
      s'.pending = s.pending.filter fun q => q.number ≠ number := by
  obtain ⟨p, hp, hnumber⟩ := List.mem_map.mp h
  have hsome : (s.findPending number).isSome := by
    unfold findPending
    rw [List.find?_isSome]
    exact ⟨p, hp, decide_eq_true hnumber⟩
  obtain ⟨q, hq⟩ := Option.isSome_iff_exists.mp hsome
  simp only [exec, rdmaDone, hq]
  exact ⟨_, rfl, rfl, rfl⟩

end Server

namespace Network

open Wire

variable {c c' : Connection μ σ}

-- ---------------------------------------------------------------------------
-- The property
-- ---------------------------------------------------------------------------

/-- The number of the write a transfer fetches the data of. -/
def Transfer.number (t : Transfer) : Option Nat :=
  match t.work with
  | .write number => some number
  | _ => none

/-- The fetches in flight are the writes the server waits for, and every transfer has its
endpoint. -/
structure Connection.Tracked (c : Connection μ σ) : Prop where
  fetched : c.transfers.filterMap Transfer.number = c.server.pending.map (·.number)
  once    : (c.server.pending.map (·.number)).Nodup
  started : ∀ p ∈ c.server.pending, p.number < c.server.started.length
  routed  : ∀ t ∈ c.transfers, (c.endpointOf t.request).isSome

namespace Connection.Tracked

/-- Nothing of what the property looks at has changed. -/
theorem of_same (h : c.Tracked) (hserver : c'.server.pending = c.server.pending ∧
      c.server.started.length ≤ c'.server.started.length)
    (htransfers : c'.transfers = c.transfers)
    (hremote : ∀ key, (c.remoteLiAddr key).isSome → (c'.remoteLiAddr key).isSome) :
    c'.Tracked where
  fetched := by rw [htransfers, hserver.1]; exact h.fetched
  once := by rw [hserver.1]; exact h.once
  started p hp := Nat.lt_of_lt_of_le (h.started p (hserver.1 ▸ hp)) hserver.2
  routed t ht := hremote _ (h.routed t (htransfers ▸ ht))

/-- A transfer is started for a request, and fetches the data of the last write or of none. -/
theorem posts (h : c.Tracked) {header : LibfabricMessageHeader} {work : TransferWork}
    (hposts : Posts header work c c') (hwork : ∀ number, work ≠ .write number) : c'.Tracked := by
  obtain ⟨target, operations, hfind, rfl⟩ := hposts
  refine ⟨?_, h.once, h.started, fun t ht => ?_⟩
  · show (c.transfers ++ [(⟨header, work⟩ : Transfer)]).filterMap Transfer.number = _
    have hnone : Transfer.number ⟨header, work⟩ = none := by
      cases work with
      | write number => exact absurd rfl (hwork number)
      | _ => rfl
    rw [List.filterMap_append, List.filterMap_cons_none hnone, List.filterMap_nil, List.append_nil]
    exact h.fetched
  · obtain ht | ht := List.mem_append.mp ht
    · exact h.routed t ht
    · rw [List.mem_singleton.mp ht]
      exact Option.isSome_of_eq_some hfind

theorem sends (h : c.Tracked) {header : LibfabricMessageHeader} {msgType : LibfabricMessageType}
    {response : LibfabricResponse} (hsends : Sends header msgType response c c') :
    c'.Tracked := by
  obtain ⟨target, -, -, rfl⟩ := hsends
  exact h.of_same ⟨rfl, le_refl _⟩ rfl fun _ hk => hk

theorem reposted (h : c.Tracked) (id : Nat) : (c.reposted id).Tracked :=
  h.of_same ⟨rfl, le_refl _⟩ rfl fun _ hk => hk

end Connection.Tracked

-- ---------------------------------------------------------------------------
-- Steps
-- ---------------------------------------------------------------------------

/-- The server waits for one more write, and its fetch is started. -/
theorem Connection.Tracked.fetches {s : Server μ σ} {p : PendingWrite} (h : c.Tracked)
    (hnumber : p.number = c.server.started.length)
    (hpending : s.pending = c.server.pending ++ [p])
    (hstarted : s.started.length = c.server.started.length + 1) {header : LibfabricMessageHeader}
    (hposts : Posts header (.write p.number) (c.withServer s) c') : c'.Tracked := by
  obtain ⟨target, operations, hfind, rfl⟩ := hposts
  have hlast : ∀ q ∈ s.pending, q.number < s.started.length := by
    intro q hq
    rw [hpending] at hq
    obtain hq | hq := List.mem_append.mp hq
    · exact Nat.lt_of_lt_of_le (h.started q hq) (by omega)
    · rw [List.mem_singleton.mp hq]
      omega
  refine ⟨?_, ?_, hlast, fun t ht => ?_⟩
  · show (c.transfers ++ [(⟨header, .write p.number⟩ : Transfer)]).filterMap Transfer.number =
      s.pending.map (·.number)
    rw [List.filterMap_append, h.fetched, hpending, List.map_append]
    rfl
  · show (s.pending.map (·.number)).Nodup
    rw [hpending, List.map_append, List.nodup_append]
    refine ⟨h.once, List.nodup_singleton _, fun a ha b hb hab => ?_⟩
    obtain ⟨q, hq, rfl⟩ := List.mem_map.mp ha
    have hlt := h.started q hq
    rw [hab, List.mem_singleton.mp hb] at hlt
    exact absurd hnumber (Nat.ne_of_lt hlt)
  · obtain ht | ht := List.mem_append.mp ht
    · exact h.routed t ht
    · rw [List.mem_singleton.mp ht]
      exact Option.isSome_of_eq_some hfind

/-- A request was made and the hook concluded. -/
theorem Connection.Tracked.serviced (h : c.Tracked) {header : LibfabricMessageHeader}
    {msgType : LibfabricMessageType} {id : Nat} {e : Event} (he : e.Requested)
    (hserviced : Serviced B header msgType id e c c') : c'.Tracked := by
  obtain ⟨reply, s, d, hexec, hconcludes, rfl⟩ := hserviced
  refine Connection.Tracked.reposted ?_ id
  obtain ⟨hne, hpending, hstarted⟩ | ⟨rfl, hstarted, hpending⟩ :=
    Server.pending_of_requested he hexec
  · have hserver : (c.withServer s).Tracked := h.of_same ⟨hpending, hstarted⟩ rfl fun _ hk => hk
    cases reply with
    | ack status => exact hserver.sends hconcludes
    | eager response => exact hserver.sends hconcludes
    | rdma payload =>
      rcases hconcludes with hposts | ⟨-, rfl⟩
      · exact hserver.posts hposts fun number => by simp
      · exact hserver
    | nothing => exact absurd rfl hne
  · obtain ⟨number, hnumber, hconcludes⟩ := hconcludes
    obtain rfl : number = c.server.started.length := by
      have hnumber : number + 1 = s.started.length := hnumber
      omega
    rcases hpending with hpending | ⟨p, hp, hpending⟩
    · -- no write has this number yet, so nothing was posted
      have hnone : (c.withServer s).server.findPending c.server.started.length = none := by
        show s.pending.find? _ = none
        rw [hpending, List.find?_eq_none]
        intro q hq
        have hlt := h.started q hq
        simp only [decide_eq_true_eq]
        omega
      rcases hconcludes with ⟨hsome, -⟩ | ⟨-, rfl⟩
      · rw [hnone] at hsome
        exact absurd hsome (by simp)
      · exact h.of_same ⟨hpending, by rw [Connection.withServer, hstarted]; omega⟩ rfl
          fun _ hk => hk
    · rcases hconcludes with ⟨-, hposts⟩ | ⟨hnone, -⟩
      · exact h.fetches hp hpending hstarted (hp ▸ hposts)
      · have hmem : p ∈ s.pending := by rw [hpending]; simp
        exact absurd hp (by
          simpa using List.find?_eq_none.mp (show s.pending.find? _ = none from hnone) p hmem)

/-- A hook makes requests only. -/
theorem Hook.requested {hook : Hook} {request : LibfabricClientRequest} {outside : Outside}
    {body : MessageBody} {e : Event} (h : hook.event c request outside body = some e) :
    e.Requested := by
  unfold Hook.event at h
  split at h
  case h_7 =>
    split at h
    · obtain rfl := Option.some.inj h
      trivial
    · cases h
    · obtain rfl := Option.some.inj h
      trivial
  case h_8 => cases h
  all_goals
    obtain rfl := Option.some.inj h
    trivial

/-- The fetch of a transfer that is over, or its push, was the one the server waited for. -/
theorem Connection.Tracked.finishes {t : Transfer} {n : Nat} (h : c.Tracked)
    (ht : c.transfers[n]? = some t)
    (hfinishes : Finishes B t { c with transfers := c.transfers.eraseIdx n } c') : c'.Tracked := by
  have hrouted : ∀ u ∈ c.transfers.eraseIdx n, (c.endpointOf u.request).isSome :=
    fun u hu => h.routed u (List.mem_of_mem_eraseIdx hu)
  -- the other transfers fetch what they fetched
  have hplain : t.number = none →
      ({ c with transfers := c.transfers.eraseIdx n } : Connection μ σ).Tracked := by
    intro hnone
    refine ⟨?_, h.once, h.started, hrouted⟩
    show (c.transfers.eraseIdx n).filterMap Transfer.number = _
    rw [Mailbox.filterMap_eraseIdx_none ht hnone]
    exact h.fetched
  obtain ⟨header, work⟩ := t
  cases work with
  | ping id size =>
    obtain ⟨d, hsends, rfl⟩ := hfinishes
    exact ((hplain rfl).sends hsends).reposted id
  | read => exact (hplain rfl).sends hfinishes
  | write number =>
    obtain ⟨reply, s, hexec, hsends⟩ := hfinishes
    have hnumber : number ∈ c.server.pending.map (·.number) := by
      rw [← h.fetched, List.mem_filterMap]
      exact ⟨_, List.mem_of_getElem? ht, rfl⟩
    obtain ⟨s', hexec', hstarted, hpending⟩ := Server.rdmaDone_of_pending (B := B) hnumber
    obtain ⟨-, rfl⟩ := Prod.mk.inj (Except.ok.inj (hexec.symm.trans hexec'))
    refine Connection.Tracked.sends (c := Connection.withServer _ s) ?_ hsends
    refine ⟨?_, ?_, fun p hp => ?_, hrouted⟩
    · show (c.transfers.eraseIdx n).filterMap Transfer.number = s.pending.map (·.number)
      have hnodup : (c.transfers.filterMap Transfer.number).Nodup := by
        rw [h.fetched]
        exact h.once
      rw [Mailbox.filterMap_eraseIdx_some (f := Transfer.number) ht rfl hnodup, h.fetched,
        hpending, List.filter_map]
      rfl
    · show (s.pending.map (·.number)).Nodup
      rw [hpending]
      exact h.once.sublist (List.filter_sublist.map _)
    · show p.number < s.started.length
      rw [hstarted]
      exact h.started p (List.mem_filter.mp (hpending ▸ hp)).1

/-- The pong, or the transfer that pushes its data. -/
theorem Connection.Tracked.pinged {header : LibfabricMessageHeader} {id : Nat} (h : c.Tracked)
    (hping : (∃ d, Sends header .pong (.ofStatus 0) c d ∧ c' = d.reposted id) ∨
      ∃ size, Posts header (.ping id size) c c') : c'.Tracked := by
  obtain ⟨d, hsends, rfl⟩ | ⟨size, hposts⟩ := hping
  · exact (h.sends hsends).reposted id
  · exact h.posts hposts fun number => by simp

theorem tracked_step {e : NetEvent} (h : c.Tracked) (hstep : c.Step B e c') : c'.Tracked := by
  cases e with
  | recv id message outside =>
    obtain ⟨-, r, hheader, hreceived⟩ := step_recv hstep
    have hdelivered : (c.deliver id message).Tracked :=
      h.of_same ⟨rfl, le_refl _⟩ rfl fun _ hk => hk
    cases hreceived with
    | handshake htype addr hc' =>
      subst hc'
      refine hdelivered.of_same ⟨rfl, le_refl _⟩ rfl fun key hk => ?_
      simp only [Connection.connected]
      split_ifs
      · rfl
      · exact hk
    | badAuth _ _ hc' =>
      subst hc'
      exact hdelivered.reposted id
    | refused _ _ target _ hc' =>
      subst hc'
      exact hdelivered.of_same ⟨rfl, le_refl _⟩ rfl fun _ hk => hk
    | accepted htype hcred hhandled =>
      obtain ⟨hook, -, hrun⟩ := hook_of_step hstep hheader htype hcred
      by_cases hping : hook = .pingPong
      · subst hping
        exact hdelivered.pinged ((Ends.of_ok hrun).mp (ends_pingPong rfl outside))
      · obtain ⟨body, e, -, he, hserviced⟩ := (Ends.of_ok hrun).mp (serviced_hook rfl hping outside)
        exact hdelivered.serviced (Hook.requested he) hserviced
  | done n fetched =>
    obtain ⟨t, ht, hfinishes⟩ := finishes_of_step hstep
    exact h.finishes ht hfinishes
  | clientConnect id key =>
    rw [step_clientConnect hstep]
    exact h.of_same ⟨rfl, le_refl _⟩ rfl fun _ hk => hk
  | clientDisconnect id =>
    rw [step_clientDisconnect hstep]
    exact h.of_same ⟨rfl, le_refl _⟩ rfl fun _ hk => hk

theorem tracked_start {server : Server μ σ} (hserver : server.pending = []) (size count
      msgBufferSize : Nat) (checkClientAuth : Bool) (recvBuffers : Nat → ByteBuffer)
    (fiAvInsert : (Fin maxAddrLen → UInt8) → Bool) :
    (Connection.postReceives server size count msgBufferSize checkClientAuth recvBuffers
      fiAvInsert).Tracked := by
  refine ⟨?_, ?_, fun p hp => ?_, fun t ht => absurd ht List.not_mem_nil⟩
  · simp [Connection.postReceives, hserver]
  · simp [Connection.postReceives, hserver]
  · simp [Connection.postReceives, hserver] at hp

/-- **Every callback finds its write.** In every run of the connection, whatever messages
arrive and in whatever order the transfers complete, the fetches in flight are the writes the
server waits for, in the same order and each once; the callback of each of them makes the
server acknowledge it; and the endpoint of every transfer is still there. -/
theorem fetched_of_run {server : Server μ σ} (hserver : server.pending = []) (size count
      msgBufferSize : Nat) (checkClientAuth : Bool) (recvBuffers : Nat → ByteBuffer)
    (fiAvInsert : (Fin maxAddrLen → UInt8) → Bool)
    (hrun : Run (Connection.Step B) (fun _ _ => True)
      (Connection.postReceives server size count msgBufferSize checkClientAuth recvBuffers
        fiAvInsert) c) :
    c.transfers.filterMap Transfer.number = c.server.pending.map (·.number) ∧
      (c.server.pending.map (·.number)).Nodup ∧
      ∀ t ∈ c.transfers, (c.endpointOf t.request).isSome ∧
        ∀ number, t.work = .write number →
          ∃ s, c.server.exec B (.rdmaDone number) = .ok (.ack 0, s) := by
  have h : c.Tracked := hrun.invariant (tracked_start hserver size count msgBufferSize
    checkClientAuth recvBuffers fiAvInsert) fun h _ hstep => tracked_step h hstep
  refine ⟨h.fetched, h.once, fun t ht => ⟨h.routed t ht, fun number hwork => ?_⟩⟩
  have hnumber : number ∈ c.server.pending.map (·.number) := by
    rw [← h.fetched, List.mem_filterMap]
    exact ⟨t, ht, by rw [Transfer.number, hwork]⟩
  obtain ⟨s, hexec, -⟩ := Server.rdmaDone_of_pending hnumber
  exact ⟨s, hexec⟩

/-- The 81 bytes of a write of 4 bytes that are to be fetched. -/
def fetchedWrite : List UInt8 :=
  [101, 0, 0, 0, 0, 0, 0, 0, 0, 4].flatMap (fun b => b :: List.replicate 7 0) ++ [0]

/-- A server with three receive buffers that checks no credentials. -/
def threeBuffers : Connection Malloc (ObjectId → Bytes) :=
  Connection.postReceives (.new (.new 8 (.fresh 0) fun _ _ => 0) false) 128 3 128 false
    (fun _ _ => 0) fun _ => true

/-- Two writes of one client are fetched, and the first one is done. -/
theorem fetched_after_writes :
    ∃ c, Run (Connection.Step localBackends) (fun _ _ => True) threeBuffers c ∧
      c.transfers.filterMap Transfer.number = [1] ∧ c.server.pending.map (·.number) = [1] := by
  obtain ⟨c, hrun, htransfers⟩ :
      ∃ c, Run (Connection.Step localBackends) (fun _ _ => True) threeBuffers c ∧
        c.transfers.filterMap Transfer.number = [1] :=
    Connection.run_of_trace _ _ [.recv 0 (shortMessage 0 0 0 0) noOutside,
      .recv 1 fetchedWrite noOutside, .recv 2 fetchedWrite noOutside, .done 0 fun _ => 0] _
      (by decide +kernel)
  refine ⟨c, hrun, htransfers, ?_⟩
  rw [← (fetched_of_run rfl _ _ _ _ _ _ hrun).1]
  exact htransfers

end Network

end IoCatcher
