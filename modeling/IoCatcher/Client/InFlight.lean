import IoCatcher.Client.Exchange
import IoCatcher.Client.System
import IoCatcher.Lib.Mailbox
import IoCatcher.Safety.Fetches

/-!
# IO Catcher — what is in flight for a client

At every moment a client has at most one thing in flight: its request, or the transfer the
server started for it, or the response. Which one it is, and what its bytes are, says how far
the call has come: `Flight` lists the places.

* `Flight`            — where a connection is, and what is in flight for it;
* `System.Sound`      — every connection is at one of these places;
* `Moved`             — what a step of the server sends and starts, as the clients see it.
-/

namespace IoCatcher.Client

open Wire Network

variable {μ σ : Type} {B : Backends μ σ}

-- ---------------------------------------------------------------------------
-- Messages
-- ---------------------------------------------------------------------------

/-- A message is packed to its encoding, if that fits. -/
theorem packedBytes_iff {header : LibfabricMessageHeader} {body : MessageBody}
    (hbody : body.InMemory) {size : Nat} (hsize : size < 2 ^ 64) {bytes : List UInt8} :
    packedBytes header body size = .ok bytes ↔
      encodeMessage header body = some bytes ∧ bytes.length ≤ size := by
  unfold packedBytes
  cases hbs : encodeMessage header body with
  | none =>
    obtain ⟨f, hf⟩ := packMessage_of_none hbody hbs (fun _ => 0) hsize
    rw [hf]
    simp
  | some bs =>
    have hpack := packMessage_of_encode hbody hbs (fun _ => 0) hsize
    split_ifs at hpack with hfits
    · obtain ⟨s, hs, hbuffer, hcursor⟩ := hpack
      have hslice : s.buffer.slice 0 s.cursor = bs := by
        rw [hbuffer, hcursor]
        exact ByteBuffer.holds_put _ 0 bs
      rw [hs]
      simp only [hslice, Except.ok.injEq, Option.some.injEq]
      exact ⟨fun h => ⟨h, h ▸ hfits⟩, fun h => h.1⟩
    · obtain ⟨f, hf⟩ := hpack
      rw [hf]
      simp only [reduceCtorEq, Option.some.injEq, false_iff, not_and]
      rintro rfl
      exact hfits

/-- A response the server sends is one message for its target. -/
theorem responseOf_fits {c : Connection μ σ} (request : Option LibfabricMessageHeader)
    (target : Endpoint) (hsize : c.msgBufferSize < 2 ^ 64) {msgType : LibfabricMessageType}
    {body : MessageBody} (hbody : body.InMemory) (hfits : c.Fits msgType body) :
    ∃ bytes, encodeMessage (fillProtocolHeader msgType) body = some bytes ∧
      bytes.length ≤ c.msgBufferSize ∧
      responseOf c.msgBufferSize ⟨request, target, .message msgType body⟩ =
        some (target.addr, bytes) := by
  obtain ⟨packed, hpacked, -⟩ := hfits
  obtain ⟨bytes, hbytes, hlen⟩ := (packMessage_iff _ hbody _ hsize).mp ⟨packed, hpacked⟩
  refine ⟨bytes, hbytes, hlen, ?_⟩
  unfold responseOf
  dsimp only
  rw [(packedBytes_iff hbody hsize).mpr ⟨hbytes, hlen⟩]

theorem newResponses_eq {c c' : Connection μ σ} {l : List Issued}
    (h : c'.issued = c.issued ++ l) :
    newResponses c c' = l.filterMap (responseOf c.msgBufferSize) := by
  unfold newResponses
  rw [h, List.drop_left]

-- ---------------------------------------------------------------------------
-- The server
-- ---------------------------------------------------------------------------

/-- The connection as the server has set it up, with its endpoints numbered. -/
structure Ready (c : Connection μ σ) : Prop where
  tracked  : c.Tracked
  numbered : ∀ key target, c.remoteLiAddr key = some target →
    ∃ n < c.nextEndpointId.toNat, key = SizeT.toInt32 n
  received : c.recvBuffersSize = 1024 * 1024
  sent     : c.msgBufferSize = postReceiveRead

theorem Ready.size_lt {c : Connection μ σ} (h : Ready c) : c.recvBuffersSize < 2 ^ 64 := by
  rw [h.received]
  decide

theorem toInt32_inj {n m : Nat} (hn : n < 2 ^ 32) (hm : m < 2 ^ 32)
    (h : SizeT.toInt32 n = SizeT.toInt32 m) : n = m := by
  unfold SizeT.toInt32 at h
  omega

/-- The id of the next endpoint is not in use. -/
theorem Ready.fresh {c : Connection μ σ} (h : Ready c) (hlt : c.nextEndpointId.toNat < 2 ^ 32) :
    c.remoteLiAddr (SizeT.toInt32 c.nextEndpointId.toNat) = none := by
  cases hkey : c.remoteLiAddr (SizeT.toInt32 c.nextEndpointId.toNat) with
  | none => rfl
  | some target =>
    obtain ⟨n, hn, heq⟩ := h.numbered _ _ hkey
    exact absurd (toInt32_inj hlt (Nat.lt_trans hn hlt) heq) (Nat.ne_of_gt hn)

-- ---------------------------------------------------------------------------
-- Clients
-- ---------------------------------------------------------------------------

/-- What is in flight for one client. -/
structure Load where
  requests  : List (Address × List UInt8)
  transfers : List Transfer
  responses : List (Address × List UInt8)

/-- The header of the request of a call. -/
def Session.header (p : Session) (k : Call) : LibfabricMessageHeader :=
  p.identity.fillProtocolHeader k.request.msgType

/-- The server has the endpoint of the connection. -/
def Session.Joined (p : Session) (a : Address) (remote : Int → Option Endpoint) : Prop :=
  remote (SizeT.toInt32 p.identity.clientId.toNat) = some ⟨a, p.identity.tcpClientId⟩

/-- **Where a connection is**, with its stage and what is in flight for it. -/
inductive Flight (remote : Int → Option Endpoint) (a : Address) (p : Session) :
    Stage → Load → Prop where
  | joining {bytes : List UInt8} (hphase : p.phase = .joining)
      (hbytes : encodeMessage (p.identity.fillProtocolHeader .connectInit)
        (.firstClientMessage ⟨a⟩) = some bytes) : Flight remote a p .idle ⟨[(a, bytes)], [], []⟩
  | assigned {id : UInt64} {bytes : List UInt8} (hphase : p.phase = .joining)
      (hremote : remote (SizeT.toInt32 id.toNat) = some ⟨a, p.identity.tcpClientId⟩)
      (hbytes : encodeMessage (fillProtocolHeader .assignId) (.firstHandshake ⟨2, id⟩) =
        some bytes) (hroom : bytes.length ≤ postReceiveRead) :
      Flight remote a p .idle ⟨[], [], [(a, bytes)]⟩
  | idle (hjoined : p.Joined a remote) (hphase : p.phase = .idle) :
      Flight remote a p .idle ⟨[], [], []⟩
  | called {k : Call} {bytes : List UInt8} (hjoined : p.Joined a remote)
      (hphase : p.phase = .waiting k)
      (hbytes : encodeMessage (p.header k) k.request.body = some bytes) :
      Flight remote a p (.called k) ⟨[(a, bytes)], [], []⟩
  | fetching {k : Call} {number : Nat} (hjoined : p.Joined a remote)
      (hphase : p.phase = .waiting k)
      (hexpected : k.request.expectedMessageType = .objReadWriteAck) :
      Flight remote a p (.fetching k number) ⟨[], [⟨p.header k, .write number⟩], []⟩
  | pushing {k : Call} {payload : List UInt8} (hjoined : p.Joined a remote)
      (hphase : p.phase = .waiting k)
      (hexpected : k.request.expectedMessageType = .objReadWriteAck) :
      Flight remote a p (.answered k (.rdma payload)) ⟨[], [⟨p.header k, .read⟩], []⟩
  | answered {k : Call} {reply : Reply} {bytes : List UInt8} (hjoined : p.Joined a remote)
      (hphase : p.phase = .waiting k) (hread : ∀ r, reply = .eager r → k.IsRead)
      (hbytes : encodeMessage (fillProtocolHeader k.request.expectedMessageType)
        (.response (Reply.response reply)) = some bytes)
      (hroom : bytes.length ≤ postReceiveRead) :
      Flight remote a p (.answered k reply) ⟨[], [], [(a, bytes)]⟩
  | lost {k : Call} (hphase : p.phase = .waiting k) : Flight remote a p (.lost k) ⟨[], [], []⟩
  /-- The server told a client that is dead that it does not know it. -/
  | refused {k : Call} {bytes : List UInt8} (hphase : p.phase = .waiting k)
      (hdead : p.alive = false) : Flight remote a p (.called k) ⟨[], [], [(a, bytes)]⟩
  | aborted (hdead : p.alive = false) : Flight remote a p .aborted ⟨[], [], []⟩

/-- More endpoints change nothing. -/
theorem Flight.mono {remote remote' : Int → Option Endpoint} {a : Address} {p : Session}
    {stage : Stage} {load : Load} (h : Flight remote a p stage load)
    (hremote : ∀ key target, remote key = some target → remote' key = some target) :
    Flight remote' a p stage load := by
  cases h with
  | joining hphase hbytes => exact .joining hphase hbytes
  | assigned hphase hassigned hbytes hroom =>
    exact .assigned hphase (hremote _ _ hassigned) hbytes hroom
  | idle hjoined hphase => exact .idle (hremote _ _ hjoined) hphase
  | called hjoined hphase hbytes => exact .called (hremote _ _ hjoined) hphase hbytes
  | fetching hjoined hphase hexpected => exact .fetching (hremote _ _ hjoined) hphase hexpected
  | pushing hjoined hphase hexpected => exact .pushing (hremote _ _ hjoined) hphase hexpected
  | answered hjoined hphase hread hbytes hroom =>
    exact .answered (hremote _ _ hjoined) hphase hread hbytes hroom
  | lost hphase => exact .lost hphase
  | refused hphase hdead => exact .refused hphase hdead
  | aborted hdead => exact .aborted hdead

/-- The process of a client dies, whatever is in flight. -/
theorem Flight.die {remote : Int → Option Endpoint} {a : Address} {p : Session}
    {stage : Stage} {load : Load} (h : Flight remote a p stage load) :
    Flight remote a { p with alive := false } stage load := by
  cases h with
  | joining hphase hbytes => exact .joining hphase hbytes
  | assigned hphase hassigned hbytes hroom => exact .assigned hphase hassigned hbytes hroom
  | idle hjoined hphase => exact .idle hjoined hphase
  | called hjoined hphase hbytes => exact .called hjoined hphase hbytes
  | fetching hjoined hphase hexpected => exact .fetching hjoined hphase hexpected
  | pushing hjoined hphase hexpected => exact .pushing hjoined hphase hexpected
  | answered hjoined hphase hread hbytes hroom => exact .answered hjoined hphase hread hbytes hroom
  | lost hphase => exact .lost hphase
  | refused hphase hdead => exact .refused hphase rfl
  | aborted hdead => exact .aborted rfl

-- ---------------------------------------------------------------------------
-- The system
-- ---------------------------------------------------------------------------

/-- The client a transfer is for. -/
def clientOf (c : Connection μ σ) (t : Transfer) : Option Address :=
  (c.endpointOf t.request).map Endpoint.addr

/-- The client a message comes from or goes to. -/
def addressOf (r : Address × List UInt8) : Option Address := some r.1

/-- What is in flight for the client at an address. -/
def System.load (s : System μ σ) (a : Address) : Load where
  requests  := Mailbox.of addressOf a s.requests
  transfers := Mailbox.of (clientOf s.server) a s.server.transfers
  responses := Mailbox.of addressOf a s.responses

/-- What a step of the server adds for the client at an address: the transfers `ts` and the
messages `rs`. -/
structure Moved (c : Connection μ σ) (a : Address) (ts : List Transfer)
    (rs : List (Address × List UInt8)) (c' : Connection μ σ) : Prop where
  transfers : c'.transfers = c.transfers ++ ts
  responses : newResponses c c' = rs
  started   : ∀ t ∈ ts, clientOf c' t = some a
  sent      : ∀ r ∈ rs, r.1 = a

/-- Every connection is somewhere, with a stage. -/
structure System.Sound (s : System μ σ) (stages : Address → Stage) : Prop where
  ready  : Ready s.server
  absent : ∀ a, s.clients a = none → stages a = .idle ∧ s.load a = ⟨[], [], []⟩
  flight : ∀ a p, s.clients a = some p → Flight s.server.remoteLiAddr a p (stages a) (s.load a)
  known  : ∀ a p, s.clients a = some p → p.alive = true →
    s.server.clients p.identity.tcpClientId = some p.identity.tcpClientKey

end IoCatcher.Client
