import IoCatcher.Client.System
import IoCatcher.Safety.Isolation

/-!
# IO Catcher — a schedule

The steps of the system, executed: `System.perform` makes one step of a schedule, and
`trace_of_schedule` says that what it makes is a run. The memory that the server fetches from
is the buffer of the call, and what a buffer holds behind a message is zero.
-/

namespace IoCatcher.Client

open Wire Network

variable {μ σ : Type} {B : Backends μ σ}

/-- A step that is chosen. Messages are taken by their place, in a receive buffer of the
server. -/
inductive Move where
  | tcpConnect (id key : UInt64)
  | start (a : Address) (id key : UInt64)
  | joined (n : Nat)
  | call (a : Address) (k : Call)
  | receive (n id : Nat)
  | finish (n : Nat)
  | answer (n : Nat)

/-- The memory the server can fetch from. -/
def Session.memory (p : Session) : Bytes :=
  match p.phase with
  | .waiting (.objWrite _ buffer _ _ _) => buffer
  | _ => fun _ => 0

/-- What is around a message of a client. -/
def System.outside (s : System μ σ) (a : Address) : Outside :=
  ⟨fun _ => 0, fun _ => ⟨⟨0, 0⟩, 0⟩, (s.clients a).elim (fun _ => 0) Session.memory⟩

/-- One step of a schedule, if it can be made. -/
def System.perform (B : Backends μ σ) (s : System μ σ) : Move → Option (Act × System μ σ)
  | .tcpConnect id key =>
    match s.server.exec B (.clientConnect id key) with
    | .ok c => some (.internal, { s with server := c })
    | .error _ => none
  | .start a id key =>
    match s.clients a, packedBytes ((Identity.new id key).fillProtocolHeader .connectInit)
        (.firstClientMessage ⟨a⟩) postReceiveWrite with
    | none, .ok bytes =>
      if s.server.clients id = some key then
        some (.internal, (s.setClient a ⟨.new id key, .joining, true⟩).sends a bytes)
      else none
    | _, _ => none
  | .joined n =>
    match s.responses[n]? with
    | none => none
    | some (a, bytes) =>
      match s.clients a with
      | some ⟨identity, .joining, true⟩ =>
        match onAssignId ⟨0, 0⟩ (ByteBuffer.put (fun _ => 0) 0 bytes) postReceiveRead with
        | .ok id =>
          some (.internal, (s.setClient a ⟨{ identity with clientId := id }, .idle, true⟩).takes n)
        | .error _ => none
      | _ => none
  | .call a k =>
    match s.clients a with
    | some ⟨identity, .idle, true⟩ =>
      match packedBytes (identity.fillProtocolHeader k.request.msgType) k.request.body
          postReceiveWrite with
      | .ok bytes => some (.call a k, (s.setClient a ⟨identity, .waiting k, true⟩).sends a bytes)
      | .error _ => none
    | _ => none
  | .receive n id =>
    match s.requests[n]? with
    | none => none
    | some (a, bytes) =>
      match s.server.exec B (.recv id bytes (s.outside a)) with
      | .ok c => some (.ofServed a (servedBy B (s.server.deliver id bytes) id (s.outside a)),
          { s.served c with requests := s.requests.eraseIdx n })
      | .error _ => none
  | .finish n =>
    match s.server.transfers[n]? with
    | none => none
    | some t =>
      match s.server.endpointOf t.request, s.server.exec B (.done n fun _ => 0) with
      | some target, .ok c =>
        some (.ofServed target.addr (servedAfter B s.server t), s.served c)
      | _, _ => none
  | .answer n =>
    match s.responses[n]? with
    | none => none
    | some (a, bytes) =>
      match s.clients a with
      | some ⟨identity, .waiting k, true⟩ =>
        match k.onMessage (.ofStatus 0) (ByteBuffer.put (fun _ => 0) 0 bytes) postReceiveRead with
        | .ok result => some (.answer a result, (s.setClient a ⟨identity, .idle, true⟩).takes n)
        | .error _ => none
      | _ => none

theorem System.fetches_outside (s : System μ σ) (a : Address) :
    s.Fetches a (s.outside a).clientMemory := by
  intro p k hp hphase
  unfold System.outside Session.memory
  rw [hp]
  show k.Fetches (match p.phase with
    | .waiting (.objWrite _ buffer _ _ _) => buffer
    | _ => fun _ => 0)
  rw [hphase]
  cases k with
  | objWrite => exact fun i _ => rfl
  | _ => trivial

theorem System.step_of_perform {s s' : System μ σ} {m : Move} {l : Act}
    (h : s.perform B m = some (l, s')) : s.Step B l s' := by
  cases m with
  | tcpConnect id key =>
    simp only [perform] at h
    split at h
    · rename_i c hc
      obtain ⟨rfl, rfl⟩ := Prod.mk.inj (Option.some.inj h)
      exact .tcpConnect hc
    · cases h
  | start a id key =>
    simp only [perform] at h
    split at h
    · rename_i bytes hfresh hbytes
      split_ifs at h with hcred
      obtain ⟨rfl, rfl⟩ := Prod.mk.inj (Option.some.inj h)
      exact .start hfresh hcred hbytes
    · cases h
  | joined n =>
    simp only [perform] at h
    split at h
    · cases h
    · rename_i a bytes hin
      split at h
      · rename_i identity hp
        split at h
        · rename_i id hrun
          obtain ⟨rfl, rfl⟩ := Prod.mk.inj (Option.some.inj h)
          exact .joined hin hp rfl rfl (ByteBuffer.holds_put _ 0 bytes) hrun
        · cases h
      · cases h
  | call a k =>
    simp only [perform] at h
    split at h
    · rename_i identity hp
      split at h
      · rename_i bytes hbytes
        obtain ⟨rfl, rfl⟩ := Prod.mk.inj (Option.some.inj h)
        exact .call hp rfl rfl hbytes
      · cases h
    · cases h
  | receive n id =>
    simp only [perform] at h
    split at h
    · cases h
    · rename_i a bytes hin
      split at h
      · rename_i c hc
        obtain ⟨rfl, rfl⟩ := Prod.mk.inj (Option.some.inj h)
        exact .receive hin (s.fetches_outside a) hc
      · cases h
  | finish n =>
    simp only [perform] at h
    split at h
    · cases h
    · rename_i t hin
      split at h
      · rename_i target c htarget hc
        obtain ⟨rfl, rfl⟩ := Prod.mk.inj (Option.some.inj h)
        exact .finish hin htarget hc
      · cases h
  | answer n =>
    simp only [perform] at h
    split at h
    · cases h
    · rename_i a bytes hin
      split at h
      · rename_i identity k hp
        split at h
        · rename_i result hrun
          obtain ⟨rfl, rfl⟩ := Prod.mk.inj (Option.some.inj h)
          exact .answer hin hp rfl rfl (ByteBuffer.holds_put _ 0 bytes) hrun
        · cases h
      · cases h

/-- A schedule, as long as every step can be made and meets `allowed`: the labels, and the
system at the end. -/
def System.schedule (B : Backends μ σ) (allowed : System μ σ → Act → Bool) (s : System μ σ) :
    List Move → Option (List Act × System μ σ)
  | [] => some ([], s)
  | m :: rest =>
    if s.server.nextEndpointId.toNat < 2 ^ 32 then
      match s.perform B m with
      | none => none
      | some (l, s') =>
        if allowed s l then (s'.schedule B allowed rest).map fun r => (l :: r.1, r.2) else none
    else none

/-- **A schedule that can be made is a run.** -/
theorem System.trace_of_schedule {allowed : System μ σ → Act → Bool} {ms : List Move}
    {s s' : System μ σ} {ls : List Act} (h : s.schedule B allowed ms = some (ls, s')) :
    Trace (fun s l s' => Runs B s l s' ∧ allowed s l = true) s ls s' := by
  induction ms generalizing s ls with
  | nil =>
    obtain ⟨rfl, rfl⟩ := Prod.mk.inj (Option.some.inj h)
    exact .start
  | cons m rest ih =>
    unfold schedule at h
    split_ifs at h with hlt
    split at h
    · cases h
    · rename_i l t hstep
      split_ifs at h with hallowed
      obtain ⟨⟨ls', t'⟩, hrest, heq⟩ := Option.map_eq_some_iff.mp h
      obtain ⟨rfl, rfl⟩ := Prod.mk.inj heq
      have hfirst : Trace (fun s l s' => Runs B s l s' ∧ allowed s l = true) s [l] t :=
        .single ⟨⟨hlt, step_of_perform hstep⟩, hallowed⟩
      exact hfirst.trans (ih hrest)

-- ---------------------------------------------------------------------------
-- Two clients of one process
-- ---------------------------------------------------------------------------

/-- What the calls of a run return. -/
def statuses (ls : List Act) : List Int32 :=
  ls.filterMap fun
    | .answer _ result => some result.status
    | _ => none

/-- The status that a call of this client returns. -/
def Act.statusAt (a : Address) : Act → Option Int32
  | .answer b result => if b = a then some result.status else none
  | _ => none

theorem Act.answer_of_statusAt {l : Act} {a : Address} {status : Int32}
    (h : l.statusAt a = some status) : ∃ result, l = .answer a result := by
  cases l with
  | answer b result =>
    simp only [statusAt] at h
    split_ifs at h with hb
    exact ⟨result, by rw [hb]⟩
  | _ => cases h

/-- The session waits for a call of this kind. -/
def Session.waitsFor (kind : Call → Bool) (p : Session) : Bool :=
  match p.phase with
  | .waiting k => kind k
  | _ => false

theorem Session.phase_of_waitsFor {kind : Call → Bool} {p : Session}
    (h : p.waitsFor kind = true) : ∃ k, p.phase = .waiting k ∧ kind k = true := by
  unfold waitsFor at h
  split at h
  · rename_i k hphase
    exact ⟨k, hphase, h⟩
  · cases h

def firstAddress : Address := fun _ => 1

def secondAddress : Address := fun _ => 2

/-- An empty server with segments of 8 bytes. -/
def sampleSystem : System Malloc (ObjectId → Bytes) :=
  .new (Server.localServer 8 9) true (fun _ _ => 0) fun _ => true

/-- Both clients join. One writes to an object that the other one reads; both requests are under
way at once, and the answers arrive the other way round. -/
def sampleMoves : List Move :=
  [.tcpConnect 7 9, .start firstAddress 7 9, .receive 0 0, .joined 0,
    .start secondAddress 7 9, .receive 0 1, .joined 0,
    .call firstAddress (.objWrite ⟨1, 1⟩ (fun _ => 7) 2 2 noIov),
    .call secondAddress (.objRead ⟨1, 1⟩ 4 1 noIov),
    .receive 0 2, .receive 0 3, .answer 1, .answer 0]

end IoCatcher.Client
