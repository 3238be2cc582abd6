import IoCatcher.Safety.ReceiveBuffers
import IoCatcher.Wire.RoundTrip

/-!
# IO Catcher — messages without valid credentials

What a message with wrong credentials does to a server that checks them. It
runs no hook and changes no object, registration or client, but it is not
harmless: it stops the process when its type is one `onRecv` treats before the
check, or when it names an endpoint that does not exist; and when it is answered,
its receive buffer is lost. `Connection.serve` says what the clients see of the
server afterwards, and `unauthenticated_not_harmless` that no such message leaves
it as it was.
-/

namespace IoCatcher.Network

open Wire

variable {μ σ : Type} {B : Backends μ σ} {c c' : Connection μ σ}

-- ---------------------------------------------------------------------------
-- What the clients see
-- ---------------------------------------------------------------------------

/-- What reaches the server, as its clients see it. -/
inductive Incoming where
  | message (bytes : List UInt8) (outside : Outside)
  | done (n : Nat) (fetched : Bytes)
  | connect (id key : UInt64)
  | disconnect (id : UInt64)

/-- The event it is: libfabric puts a message in the receive buffer that was
posted first, and there is none when no buffer is posted. -/
def Connection.event (c : Connection μ σ) : Incoming → Option NetEvent
  | .message bytes outside => c.posted.head?.map fun id => .recv id bytes outside
  | .done n fetched => some (.done n fetched)
  | .connect id key => some (.clientConnect id key)
  | .disconnect id => some (.clientDisconnect id)

/-- What the server sends for a sequence of inputs; none when one of them is not
received or stops the process. -/
def Connection.serve (B : Backends μ σ) : List Incoming → Connection μ σ → Option (List Issued)
  | [], _ => some []
  | input :: rest, c =>
    match c.event input with
    | none => none
    | some e =>
      match c.exec B e with
      | .error _ => none
      | .ok c' => (serve B rest c').map (c'.issued.drop c.issued.length ++ ·)

/-- A message is harmless: the server goes on, with the objects, the
registrations and the clients it had, and serves whatever comes later as if the
message had not been received. -/
def Harmless (B : Backends μ σ) (c : Connection μ σ) (e : NetEvent) : Prop :=
  ∃ c', c.exec B e = .ok c' ∧ c'.server = c.server ∧ c'.clients = c.clients ∧
    ∀ later, c'.serve B later = c.serve B later

-- ---------------------------------------------------------------------------
-- A ping that keeps its receive buffer
-- ---------------------------------------------------------------------------

/-- The header of a ping. -/
def pingHeader (lfClientId tcpClientId tcpClientKey : UInt64) : LibfabricMessageHeader :=
  ⟨LibfabricMessageType.ping.code, lfClientId, tcpClientId, tcpClientKey⟩

/-- The bytes of a header. -/
def headerBytes (header : LibfabricMessageHeader) : List UInt8 :=
  Scalar.uint64.encode header.msgType ++ (Scalar.uint64.encode header.lfClientId ++
    (Scalar.uint64.encode header.tcpClientId ++ (Scalar.uint64.encode header.tcpClientKey ++ [])))

/-- The bytes of a ping with one byte to fetch and no eager data. -/
def pingBytes : List UInt8 :=
  Scalar.uint64.encode 1 ++ (Scalar.uint64.encode 0 ++ (Scalar.uint64.encode 0 ++
    (Scalar.uint64.encode 0 ++ [])))

theorem unpacks_pure {α : Type} (v : α) : Unpacks (pure v) (fun _ a => a = v) [] :=
  fun _ haction _ _ _ => ⟨rfl, rfl, rfl, rfl, haction⟩

theorem unpacks_header (header old : LibfabricMessageHeader) :
    Unpacks old.applySerializerDef (fun _ a => a = header) (headerBytes header) :=
  Unpacks.bind (unpacks_scalar _ _ _ _) (Unpacks.bind (unpacks_scalar _ _ _ _)
    (Unpacks.bind (unpacks_scalar _ _ _ _) (Unpacks.bind (unpacks_scalar _ _ _ _)
      (unpacks_pure _))))

theorem unpacks_ping (old : LibfabricPing) (hold : old.eagerData = .null) :
    Unpacks old.applySerializerDef (fun _ a => a = ⟨1, 0, ⟨0, 0⟩, .null⟩) pingBytes := by
  have hiov : Unpacks old.rdmaIov.applySerializerDef (fun _ a => a = ⟨0, 0⟩)
      (Scalar.uint64.encode 0 ++ (Scalar.uint64.encode 0 ++ [])) :=
    Unpacks.bind (unpacks_scalar _ _ _ _) (Unpacks.bind (unpacks_scalar _ _ _ _) (unpacks_pure _))
  refine Unpacks.bind (unpacks_scalar _ _ _ _) (Unpacks.bind (unpacks_scalar _ _ _ _) ?_)
  rw [show Scalar.uint64.encode 0 ++ (Scalar.uint64.encode 0 ++ []) =
    (Scalar.uint64.encode 0 ++ (Scalar.uint64.encode 0 ++ [])) ++ ([] ++ []) from
      (List.append_nil _).symm]
  refine Unpacks.bind hiov (Unpacks.bind (v := .null) ?_ (unpacks_pure _))
  rw [if_neg (by decide), hold]
  exact unpacks_pure _

/-- The whole ping. -/
def pingMessage (lfClientId tcpClientId tcpClientKey : UInt64) : List UInt8 :=
  headerBytes (pingHeader lfClientId tcpClientId tcpClientKey) ++ pingBytes

theorem length_pingMessage (lf t k : UInt64) : (pingMessage lf t k).length = 64 := by
  simp [pingMessage, headerBytes, pingBytes, Scalar.uint64]

/-- The connection after the ping: its receive buffer is kept by the transfer. -/
def Connection.pinged (c : Connection μ σ) (id : Nat) (lf t k : UInt64) (target : Endpoint) :
    Connection μ σ :=
  { c.deliver id (pingMessage lf t k) with
    issued := c.issued ++ [⟨some (pingHeader lf t k), target, .rdma 1⟩]
    transfers := c.transfers ++ [⟨pingHeader lf t k, .ping id 1⟩] }

theorem dispatch_ping {lf t k : UInt64} {target : Endpoint} {id : Nat} (outside : Outside)
    {s s' : SerializerBase} (hclient : c.clients t = some k)
    (htarget : c.remoteLiAddr (SizeT.toInt32 lf.toNat) = some target)
    (hrun : LibfabricPing.applySerializerDef ⟨0, 0, ⟨0, 0⟩, .null⟩ s =
      .ok (⟨1, 0, ⟨0, 0⟩, .null⟩, s')) :
    Ends (dispatch B ⟨lf, id, pingHeader lf t k, s⟩ outside) c
      (fun _ c' => c' = { c with
        issued := c.issued ++ [⟨some (pingHeader lf t k), target, .rdma 1⟩]
        transfers := c.transfers ++ [⟨pingHeader lf t k, .ping id 1⟩] }) fun _ => False := by
  have hhook : findHook (pingHeader lf t k).msgType = some .pingPong := by
    simp only [pingHeader]
    decide
  have haccepts : c.Accepts (pingHeader lf t k) := fun _ => hclient
  unfold dispatch
  simp only [hhook]
  rw [if_neg (by simp only [pingHeader]; decide), if_neg (by simp only [pingHeader]; decide),
    if_neg (by simp only [pingHeader]; decide), Ends.bind_iff, ends_checkAuth, if_pos haccepts]
  simp only [Hook.onMessage, onPingPong, LibfabricClientRequest.pop, hrun, liftSerializer,
    rdmaPost, findEndpoint, htarget, issue, Ends.bind_iff, Ends.pure_iff, Ends.get_iff,
    Ends.ite_iff, Ends.modify_iff]
  rw [if_neg (by decide), if_pos (by decide)]
  rfl

theorem exec_ping {lf t k : UInt64} {target : Endpoint} {id : Nat} (outside : Outside)
    (hclient : c.clients t = some k)
    (htarget : c.remoteLiAddr (SizeT.toInt32 lf.toNat) = some target) (hposted : id ∈ c.posted)
    (hid : id < c.recvBuffersCount) (hsize : 64 ≤ c.recvBuffersSize)
    (hlt : c.recvBuffersSize < 2 ^ 64) :
    c.exec B (.recv id (pingMessage lf t k) outside) = .ok (c.pinged id lf t k target) := by
  have hlen := length_pingMessage lf t k
  have hroom : id ∈ c.posted ∧ (pingMessage lf t k).length ≤ c.recvBuffersSize :=
    ⟨hposted, hlen.trans_le hsize⟩
  -- the message is at the start of its buffer
  obtain ⟨hheader, hbody⟩ := ByteBuffer.holds_append.mp
    (ByteBuffer.holds_put (c.recvBuffers id) 0 (pingMessage lf t k))
  have hheaderLen : (headerBytes (pingHeader lf t k)).length = 32 := by
    simp [headerBytes, Scalar.uint64]
  have hbodyLen : pingBytes.length = 32 := by simp [pingBytes, Scalar.uint64]
  rw [hheaderLen] at hbody
  obtain ⟨header, s₁, hrun₁, rfl, hbuffer₁, hcursor₁, hsize₁, haction₁⟩ :=
    (unpacks_header (pingHeader lf t k) ⟨0, 0, 0, 0⟩
      (.new ((c.recvBuffers id).put 0 (pingMessage lf t k)) c.recvBuffersSize .unpack) rfl hlt
      (by rw [hheaderLen]; simp only [SerializerBase.new]; omega) hheader).returns
  have hcursor₁ : s₁.cursor = 32 := by rw [hcursor₁, hheaderLen]; rfl
  have hsize₁ : s₁.size = c.recvBuffersSize := hsize₁
  have hbuffer₁ : s₁.buffer = (c.recvBuffers id).put 0 (pingMessage lf t k) := hbuffer₁
  obtain ⟨ping, s₂, hrun₂, rfl, -⟩ := (unpacks_ping ⟨0, 0, ⟨0, 0⟩, .null⟩ rfl s₁ haction₁
    (hsize₁ ▸ hlt) (by rw [hcursor₁, hbodyLen, hsize₁]; exact hsize)
    (by rw [hcursor₁, hbuffer₁]; exact hbody)).returns
  have hheaderOf : (c.deliver id (pingMessage lf t k)).headerOf id =
      .ok (pingHeader lf t k, s₁) := by
    unfold Connection.headerOf runSerializer Connection.deliver
    rw [if_neg (by simp only; omega)]
    simpa using hrun₁
  have hends : Ends (onRecv B id outside) (c.deliver id (pingMessage lf t k))
      (fun _ c' => c' = c.pinged id lf t k target) fun _ => False := by
    have hid : id < (c.deliver id (pingMessage lf t k)).recvBuffersCount := hid
    unfold Connection.headerOf at hheaderOf
    simp only [onRecv, assertThat, Ends.bind_iff, Ends.get_iff, Ends.ite_iff, if_pos hid, hheaderOf,
      liftSerializer, Ends.pure_iff]
    exact dispatch_ping outside hclient htarget hrun₂
  obtain ⟨a, c', hrun, rfl⟩ := hends.returns
  unfold Connection.exec
  dsimp only
  rw [if_pos hroom, hrun]
  rfl

-- ---------------------------------------------------------------------------
-- As many pings as there are receive buffers
-- ---------------------------------------------------------------------------

/-- What the pings of a client need. -/
structure Connection.Pingable (c : Connection μ σ) (lf t k : UInt64) (target : Endpoint) :
    Prop where
  client : c.clients t = some k
  target : c.remoteLiAddr (SizeT.toInt32 lf.toNat) = some target
  posted : ∀ id ∈ c.posted, id < c.recvBuffersCount
  size   : 64 ≤ c.recvBuffersSize
  size_lt : c.recvBuffersSize < 2 ^ 64

theorem Connection.Pingable.pinged {lf t k : UInt64} {target : Endpoint} {id : Nat}
    (h : c.Pingable lf t k target) : (c.pinged id lf t k target).Pingable lf t k target :=
  ⟨h.client, h.target, fun j hj => h.posted j (List.mem_of_mem_erase hj), h.size, h.size_lt⟩

/-- A sequence of pings is served as long as there are receive buffers. -/
theorem serve_pings {lf t k : UInt64} {target : Endpoint} (outside : Outside) (n : Nat) :
    ∀ {c : Connection μ σ}, c.Pingable lf t k target →
      ((c.serve B (List.replicate n (.message (pingMessage lf t k) outside))).isSome ↔
        n ≤ c.posted.length) := by
  induction n with
  | zero => exact fun _ => iff_of_true rfl (Nat.zero_le _)
  | succ n ih =>
    intro c h
    unfold Connection.serve Connection.event
    simp only [List.replicate_succ]
    cases hposted : c.posted with
    | nil => exact iff_of_false (by simp) (by simp)
    | cons id rest =>
      have hmem : id ∈ c.posted := hposted ▸ List.mem_cons_self
      have hrest : (c.pinged id lf t k target).posted = rest := by
        have herase : (c.pinged id lf t k target).posted = c.posted.erase id := rfl
        rw [herase, hposted, List.erase_cons_head]
      have hpinged : (c.pinged id lf t k target).Pingable lf t k target := h.pinged
      have hnext := ih hpinged
      simp only [List.head?_cons, Option.map_some, exec_ping outside h.client h.target hmem
        (h.posted id hmem) h.size h.size_lt, Option.isSome_map]
      rw [hnext, hrest, List.length_cons, Nat.succ_le_succ_iff]

-- ---------------------------------------------------------------------------
-- The connection of the server
-- ---------------------------------------------------------------------------

/-- `IOC_POST_RECEIVE_READ`: the header, the largest struct and the eager data. -/
def postReceiveRead : Nat := 32 + 64 + eagerMaxRead

/-- The connection `Server::Server` sets up, with authentication. -/
def serverConnection (server : Server μ σ) (recvBuffers : Nat → ByteBuffer)
    (fiAvInsert : (Fin maxAddrLen → UInt8) → Bool) : Connection μ σ :=
  Connection.postReceives server (1024 * 1024) 128 postReceiveRead true recvBuffers fiAvInsert

/-- What no step changes. -/
structure Connection.Configured (c : Connection μ σ) : Prop where
  size    : c.recvBuffersSize = 1024 * 1024
  auth    : c.checkClientAuth = true
  noHook  : c.hookOnBadAuth = false
  buffers : ∀ id ∈ c.posted ++ c.held, id < c.recvBuffersCount

theorem Connection.Configured.of_fixed (h : c.Configured) (hfixed : Fixed c c')
    (hbuffers : ∀ id ∈ c'.posted ++ c'.held, id < c.recvBuffersCount) : c'.Configured :=
  ⟨hfixed.recvBuffersSize.trans h.size, hfixed.checkClientAuth.trans h.auth,
    hfixed.hookOnBadAuth.trans h.noHook, fun id hid => by
      rw [hfixed.recvBuffersCount]
      exact hbuffers id hid⟩

theorem configured_step {e : NetEvent} (h : c.Configured) (hstep : c.Step B e c') :
    c'.Configured := by
  cases e with
  | recv id message outside =>
    obtain ⟨hid, r, -, hreceived⟩ := step_recv hstep
    have hlt : id < c.recvBuffersCount := h.buffers id (List.mem_append_left _ hid)
    have hold : ∀ j ∈ c.posted.erase id ++ c.held, j < c.recvBuffersCount := by
      intro j hj
      obtain hj | hj := List.mem_append.mp hj
      · exact h.buffers j (List.mem_append_left _ (List.mem_of_mem_erase hj))
      · exact h.buffers j (List.mem_append_right _ hj)
    have hdelivered : (c.deliver id message).Configured := ⟨h.size, h.auth, h.noHook, hold⟩
    -- what is posted or kept afterwards is the buffer of the message, or was before
    have hone : ∀ {l l' : List Nat}, (∀ j ∈ l ++ l', j = id ∨ j ∈ c.posted.erase id ++ c.held) →
        ∀ j ∈ l ++ l', j < c.recvBuffersCount := by
      intro l l' hl j hj
      obtain rfl | hj := hl j hj
      · exact hlt
      · exact hold j hj
    cases hreceived with
    | handshake _ addr hc' =>
      subst hc'
      refine ⟨h.size, h.auth, h.noHook, hone fun j hj => ?_⟩
      simpa [Connection.connected, Connection.deliver, Connection.held, or_comm, or_left_comm,
        or_assoc] using hj
    | badAuth _ hhook => exact absurd (hhook.symm.trans h.noHook) (by decide)
    | refused _ _ target _ hc' =>
      subst hc'
      exact ⟨h.size, h.auth, h.noHook, hold⟩
    | accepted _ _ hhandled =>
      obtain ⟨ts, hts, hserves⟩ | ⟨size, hserves⟩ := hhandled
      · have hnone : ts.filterMap Transfer.held = [] :=
          List.filterMap_eq_nil_iff.mpr fun t ht => (hts t ht).2
        refine hdelivered.of_fixed hserves.fixed (hone fun j hj => ?_)
        rw [Connection.held, hserves.posted, hserves.transfers, List.filterMap_append, hnone] at hj
        simpa [Connection.held, Connection.deliver, or_comm, or_left_comm, or_assoc] using hj
      · refine hdelivered.of_fixed hserves.fixed (hone fun j hj => ?_)
        rw [Connection.held, hserves.posted, hserves.transfers, List.filterMap_append] at hj
        simpa [Connection.held, Connection.deliver, Transfer.held, or_comm, or_left_comm, or_assoc]
          using hj
  | done n fetched =>
    obtain ⟨t, ht, hserves⟩ := step_done hstep
    have hrest : ({ c with transfers := c.transfers.eraseIdx n } : Connection μ σ).Configured := by
      refine ⟨h.size, h.auth, h.noHook, fun j hj => ?_⟩
      obtain hj | hj := List.mem_append.mp hj
      · exact h.buffers j (List.mem_append_left _ hj)
      · obtain ⟨u, hu, hheld⟩ := List.mem_filterMap.mp hj
        exact h.buffers j (List.mem_append_right _
          (List.mem_filterMap.mpr ⟨u, List.mem_of_mem_eraseIdx hu, hheld⟩))
    refine hrest.of_fixed hserves.fixed fun j hj => ?_
    rw [Connection.held, hserves.posted, hserves.transfers, List.append_nil] at hj
    obtain hj | hj := List.mem_append.mp hj
    · obtain hj | hj := List.mem_append.mp hj
      · exact h.buffers j (List.mem_append_left _ hj)
      · exact h.buffers j (List.mem_append_right _ (List.mem_filterMap.mpr
          ⟨t, List.mem_of_getElem? ht, Option.mem_toList.mp hj⟩))
    · exact hrest.buffers j (List.mem_append_right _ hj)
  | clientConnect id key =>
    rw [step_clientConnect hstep]
    exact ⟨h.size, h.auth, h.noHook, h.buffers⟩
  | clientDisconnect id =>
    rw [step_clientDisconnect hstep]
    exact ⟨h.size, h.auth, h.noHook, h.buffers⟩

/-- A connection that has lost a receive buffer serves fewer pings. -/
theorem serve_ne_of_lost {lf t k : UInt64} {target : Endpoint} (h : c.Pingable lf t k target)
    (h' : c'.Pingable lf t k target) (hlost : c'.posted.length < c.posted.length) :
    ∃ later, c'.serve B later ≠ c.serve B later := by
  refine ⟨List.replicate c.posted.length (.message (pingMessage lf t k) noOutside), fun heq => ?_⟩
  have hserved := (serve_pings (B := B) noOutside c.posted.length h).mpr le_rfl
  rw [← heq, serve_pings noOutside c.posted.length h'] at hserved
  omega

/-- The connection with one more client. -/
def Connection.withClient (c : Connection μ σ) (id key : UInt64) : Connection μ σ :=
  { c with clients := fun k => if k = id then some key else c.clients k }

theorem Connection.clients_withClient (c : Connection μ σ) (id key : UInt64) :
    (c.withClient id key).clients id = some key :=
  if_pos rfl

theorem serve_connect {id key : UInt64} (h : c.clients id = none) (later : List Incoming) :
    c.serve B (.connect id key :: later) = (c.withClient id key).serve B later := by
  have hexec : c.exec B (.clientConnect id key) = .ok (c.withClient id key) := if_pos h
  have hissued : (c.withClient id key).issued = c.issued := rfl
  rw [Connection.serve, Connection.event]
  simp only [hexec, hissued, List.drop_length, List.nil_append]
  exact Option.map_id'

/-- **A message without valid credentials is never harmless.** In every state the
server can reach with authentication on, a message that is not a handshake and
whose credentials are not registered stops the process, or takes one of its
receive buffers for good: there are later requests of other clients that would
have been served and are not. -/
theorem unauthenticated_not_harmless (server : Server μ σ) (recvBuffers : Nat → ByteBuffer)
    (fiAvInsert : (Fin maxAddrLen → UInt8) → Bool)
    (hrun : Run (Connection.Step B) (fun _ _ => True)
      (serverConnection server recvBuffers fiAvInsert) c) {id : Nat} {message : List UInt8}
    (outside : Outside) {r : LibfabricMessageHeader × SerializerBase}
    (hheader : (c.deliver id message).headerOf id = .ok r)
    (htype : r.1.msgType ≠ LibfabricMessageType.connectInit.code)
    (hcred : c.clients r.1.tcpClientId ≠ some r.1.tcpClientKey) :
    ¬ Harmless B c (.recv id message outside) := by
  have hconfigured : c.Configured := by
    refine hrun.invariant ⟨rfl, rfl, rfl, fun id hid => ?_⟩ fun h _ => configured_step h
    exact List.mem_range.mp (by simpa [serverConnection, Connection.postReceives,
      Connection.held] using hid)
  rintro ⟨c', hexec, -, -, hserve⟩
  obtain ⟨hposted, r', hheader', hreceived⟩ := step_recv hexec
  obtain rfl : r' = r := Except.ok.inj (hheader'.symm.trans hheader)
  cases hreceived with
  | handshake hinit => exact htype hinit
  | badAuth _ hhook => exact absurd (hhook.symm.trans hconfigured.noHook) (by decide)
  | accepted _ haccepts => exact hcred (haccepts hconfigured.auth)
  | refused _ _ target hfind hc' =>
    have hlost : (c.posted.erase id).length < c.posted.length := by
      rw [List.length_erase_of_mem hposted]
      have := List.length_pos_of_mem hposted
      omega
    have hsize : 64 ≤ c.recvBuffersSize ∧ c.recvBuffersSize < 2 ^ 64 := by
      rw [hconfigured.size]
      decide
    have hbuffers : ∀ j ∈ c.posted, j < c.recvBuffersCount := fun j hj =>
      hconfigured.buffers j (List.mem_append_left _ hj)
    have hleft : ∀ j ∈ c.posted.erase id, j < c.recvBuffersCount := fun j hj =>
      hbuffers j (List.mem_of_mem_erase hj)
    by_cases hclient : ∃ t k, c.clients t = some k
    · -- a client that is registered can ping as often as there are buffers
      obtain ⟨t, k, hclient⟩ := hclient
      have hbefore : c.Pingable r'.1.lfClientId t k target :=
        ⟨hclient, hfind, hbuffers, hsize.1, hsize.2⟩
      have hafter : c'.Pingable r'.1.lfClientId t k target := by
        subst hc'
        exact ⟨hclient, hfind, hleft, hsize.1, hsize.2⟩
      obtain ⟨later, hne⟩ := serve_ne_of_lost (B := B) hbefore hafter (hc' ▸ hlost)
      exact hne (hserve later)
    · -- otherwise the first client that connects can
      have hnone : c.clients 0 = none := Option.eq_none_iff_forall_ne_some.mpr fun k hk =>
        hclient ⟨0, k, hk⟩
      have hnone' : c'.clients 0 = none := by
        subst hc'
        exact hnone
      have hbefore : (c.withClient 0 0).Pingable r'.1.lfClientId 0 0 target :=
        ⟨c.clients_withClient 0 0, hfind, hbuffers, hsize.1, hsize.2⟩
      have hafter : (c'.withClient 0 0).Pingable r'.1.lfClientId 0 0 target := by
        subst hc'
        exact ⟨Connection.clients_withClient _ 0 0, hfind, hleft, hsize.1, hsize.2⟩
      have hfewer : (c'.withClient 0 0).posted.length < (c.withClient 0 0).posted.length := by
        subst hc'
        exact hlost
      obtain ⟨later, hne⟩ := serve_ne_of_lost (B := B) hbefore hafter hfewer
      have heq := hserve (.connect 0 0 :: later)
      rw [serve_connect hnone, serve_connect hnone'] at heq
      exact hne heq

/-- The header a message would be decoded with is not a handshake, and its
credentials are not registered. -/
def Connection.Unregistered (c : Connection μ σ) (id : Nat) (message : List UInt8) : Prop :=
  ∃ r, (c.deliver id message).headerOf id = .ok r ∧
    r.1.msgType ≠ LibfabricMessageType.connectInit.code ∧
    c.clients r.1.tcpClientId ≠ some r.1.tcpClientKey

instance (c : Connection μ σ) (id : Nat) (message : List UInt8) :
    Decidable (c.Unregistered id message) :=
  match h : (c.deliver id message).headerOf id with
  | .error _ => isFalse fun ⟨r, hr, _⟩ => by rw [h] at hr; cases hr
  | .ok r =>
    decidable_of_iff (r.1.msgType ≠ LibfabricMessageType.connectInit.code ∧
      c.clients r.1.tcpClientId ≠ some r.1.tcpClientKey)
      ⟨fun hok => ⟨r, h, hok⟩, fun ⟨r', hr', hok⟩ => by rw [h] at hr'; cases hr'; exact hok⟩

/-- The server at its start, with local backends. -/
def localConnection : Connection Malloc (ObjectId → Bytes) :=
  serverConnection (.new (.new 0 (.fresh 0) fun _ _ => 0) false) (fun _ _ => 0) fun _ => true

/-- After a handshake, an unregistered ping to the endpoint of that handshake. -/
theorem unregistered_ping_not_harmless :
    ∃ c, Run (Connection.Step localBackends) (fun _ _ => True) localConnection c ∧
      c.issued.length = 1 ∧ ¬ Harmless localBackends c (.recv 1 (shortMessage 10 0 7 7) noOutside)
    := by
  obtain ⟨c, hrun, hissued, r, hheader, htype, hcred⟩ :
      ∃ c, Run (Connection.Step localBackends) (fun _ _ => True) localConnection c ∧
        c.issued.length = 1 ∧ c.Unregistered 1 (shortMessage 10 0 7 7) :=
    Connection.run_of_trace _ _ [.recv 0 (shortMessage 0 0 0 0) noOutside] _ (by decide +kernel)
  exact ⟨c, hrun, hissued,
    unauthenticated_not_harmless _ _ _ hrun noOutside hheader htype hcred⟩

/-- The message type of an error report stops the server that just started. -/
theorem fatalError_not_harmless :
    localConnection.Unregistered 0 (shortMessage 3 0 7 7) ∧
      ¬ Harmless localBackends localConnection (.recv 0 (shortMessage 3 0 7 7) noOutside) := by
  refine ⟨by decide +kernel, fun ⟨c', hexec, _⟩ => ?_⟩
  have hstops : (localConnection.exec localBackends
      (.recv 0 (shortMessage 3 0 7 7) noOutside)).isOk = false := by decide +kernel
  rw [hexec] at hstops
  cases hstops

end IoCatcher.Network
