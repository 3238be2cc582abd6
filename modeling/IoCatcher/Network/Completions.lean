import IoCatcher.Lib.Run
import IoCatcher.Model.Backends

/-!
# IO Catcher — the completion queue and its cache

`LibfabricConnection::poll` and `pollMessage` take completions one at a time and run the
handler of each. A handler may post operations, and so may the code between two polls.
When libfabric has no room for an operation, `pollAllCqInCache` first moves what the
completion queue holds to a list, and the polling functions empty that list before they
read the queue again.

The model is the stack of calls that are active, over the queue, the cache and the
operations in flight. Each event is one step of the code, or something that libfabric or
another connection of the domain does.

* `fifo_step`            — one step moves the oldest completion, or none;
* `uncached_step`        — and is a step of the code without the cache, or none;
* `cache_transparent`    — in every run without error entries the handlers get what the
  queue delivered, in order, and as if there were no cache.
-/

namespace IoCatcher.Polling

-- ---------------------------------------------------------------------------
-- The connection
-- ---------------------------------------------------------------------------

/-- `LibfabricPostAction`: the message buffer that its destructor gives back. -/
structure LibfabricPostAction where
  domainBuffer : Option Addr
  deriving DecidableEq, Repr

/-- An operation that libfabric accepted, with the context it was posted with. `none`
stands for `IOC_LF_NO_WAKEUP_POST_ACTION`. -/
structure Operation where
  number     : Nat
  postAction : Option LibfabricPostAction
  deriving DecidableEq, Repr

/-- The message buffer attached to an operation. -/
def Operation.buffer (op : Operation) : Option Addr := op.postAction.bind fun a => a.domainBuffer

/-- `fi_cq_msg_entry`: a receive buffer was filled (`FI_RECV`), or an operation ended. -/
inductive Completion where
  | recv (id : Nat)
  | sent (op : Operation)
  deriving DecidableEq, Repr

/-- What the completion queue holds: a completion, or an error entry of an operation or
of a posted receive. -/
inductive CqEntry where
  | done (entry : Completion)
  | error (op : Option Operation)
  deriving DecidableEq, Repr

/-- An active call. `post` is the do-while loop of a posting function; the last three
are handlers, run by the polling function below them on the stack. -/
inductive Frame where
  | post (postAction : Option LibfabricPostAction)
  | pollAllCqInCache
  | poll (waitMsg : Bool)
  | pollMessage
  | pollAllPendingAction
  | onRecv (id : Nat)
  | onRecvMessage (id : Nat)
  | runPostAction (op : Operation)
  deriving DecidableEq, Repr

/-- The handlers. -/
def Frame.isHandler : Frame → Bool
  | .onRecv _ | .onRecvMessage _ | .runPostAction _ => true
  | _ => false

/-- `LibfabricConnection`, with the free message buffers of its domain, what libfabric
has accepted, and the active calls, innermost first. The last six fields are the history:
operations accepted and consumed, message buffers taken and given back, entries that the
queue delivered and completions that a polling function took for its handlers. -/
structure LibfabricConnection where
  passivePolling : Bool
  disableReceive : Bool
  cqEntries      : List Completion
  pendingAction  : Int
  msgBuffers     : List Addr
  allocated      : Nat
  inFlight       : List Operation
  cq             : List CqEntry
  stack          : List Frame
  accepted       : List Operation
  consumed       : List Operation
  taken          : List Addr
  returned       : List Addr
  delivered      : List CqEntry
  handed         : List Completion
  deriving DecidableEq, Repr

/-- The functions that the main code and the handlers call. -/
inductive Call where
  | sendMessage
  | sendBuffer
  | sendRawMessageNoPollWakeup
  | rdmaRead
  | rdmaReadv
  | rdmaWrite
  | rdmaWritev
  | poll (waitMsg : Bool)
  | pollMessage
  | pollAllPendingAction
  deriving DecidableEq, Repr

/-- One step. The first five are the environment: a receive or an operation ends, well or
with an error entry, and the other connections of the domain use its message buffers.
`accept` and `eagain` are the answers of libfabric to the operation being posted, `run` is
a step of the polling function on top of the stack, `finish` the return of a handler.
The crash path, `broadcastErrrorMessage`, is left out: it is what sets `disableReceive`. -/
inductive Event where
  | receive (id : Nat)
  | complete (index : Nat)
  | fail (index : Nat)
  | failReceive
  | others (msgBuffers : List Addr)
  | call (function : Call)
  | accept
  | eagain
  | run
  | finish (unblock : Bool)
  deriving DecidableEq, Repr

/-- The value of a 32-bit `int`. -/
def int32 (i : Int) : Int := (i + 2 ^ 31) % 2 ^ 32 - 2 ^ 31

theorem int32_eq {i : Int} (h1 : -2 ^ 31 ≤ i) (h2 : i < 2 ^ 31) : int32 i = i := by
  unfold int32
  omega

namespace LibfabricConnection

/-- The constructor, on a domain without free message buffers. -/
def new (passivePolling : Bool) : LibfabricConnection :=
  ⟨passivePolling, false, [], 0, [], 0, [], [], [], [], [], [], [], [], []⟩

/-- The queue gets an entry. -/
def deliver (c : LibfabricConnection) (entry : CqEntry) : LibfabricConnection :=
  { c with cq := c.cq ++ [entry], delivered := c.delivered ++ [entry] }

/-- `LibfabricConnection::pollForCompletion`: an entry (the result 1) or none (the
result 0). The error entry that makes the read fail is read and reported, and nothing
else is done about it. A passive read of an empty queue waits: there is no step. -/
def pollForCompletion (c : LibfabricConnection) (passivePolling acceptCache : Bool) :
    Option (Option Completion × LibfabricConnection) :=
  match acceptCache, c.cqEntries with
  | true, entry :: rest => some (some entry, { c with cqEntries := rest })
  | _, _ =>
    match c.cq with
    | [] => if passivePolling then none else some (none, c)
    | .done entry :: rest => some (some entry, { c with cq := rest })
    | .error op :: rest =>
      some (none, { c with cq := rest, consumed := c.consumed ++ op.toList })

/-- `LibfabricDomain::getMsgBuffer`, for a message of this connection. -/
def getMsgBuffer (c : LibfabricConnection) : Addr × LibfabricConnection :=
  match c.msgBuffers with
  | [] => (c.allocated, { c with allocated := c.allocated + 1, taken := c.taken ++ [c.allocated] })
  | buffer :: rest => (buffer, { c with msgBuffers := rest, taken := c.taken ++ [buffer] })

/-- A function is called. The five posting functions end in the same loop; `sendMessage`
first attaches a message buffer to the action. -/
def enter (c : LibfabricConnection) : Call → LibfabricConnection
  | .sendMessage =>
    let r := c.getMsgBuffer
    { r.2 with stack := .post (some ⟨some r.1⟩) :: r.2.stack }
  | .sendBuffer | .rdmaRead | .rdmaReadv | .rdmaWrite | .rdmaWritev =>
    { c with stack := .post (some ⟨none⟩) :: c.stack }
  | .sendRawMessageNoPollWakeup => { c with stack := .post none :: c.stack }
  | .poll waitMsg => { c with stack := .poll waitMsg :: c.stack }
  | .pollMessage => { c with stack := .pollMessage :: c.stack }
  | .pollAllPendingAction => { c with stack := .pollAllPendingAction :: c.stack }

/-- Calls are made by the main code and by the handlers. -/
def canCall (c : LibfabricConnection) : Bool :=
  match c.stack with
  | [] => true
  | frame :: _ => frame.isHandler

/-- The end of a turn of the loop of `poll`. -/
def loop (c : LibfabricConnection) (waitMsg : Bool) (rest : List Frame) : LibfabricConnection :=
  { c with stack := if waitMsg then .poll waitMsg :: rest else rest }

/-- A polling function took a completion, for its handler. -/
def hand (c : LibfabricConnection) (entry : Completion) : LibfabricConnection :=
  { c with handed := c.handed ++ [entry] }

/-- An operation is counted as done and its action deleted, which gives the attached
message buffer back (`LibfabricDomain::retMsgBuffer`). -/
def settle (c : LibfabricConnection) (op : Operation) : LibfabricConnection :=
  { c with
    pendingAction := int32 (c.pendingAction - 1)
    consumed := c.consumed ++ [op]
    msgBuffers := op.buffer.toList ++ c.msgBuffers
    returned := c.returned ++ op.buffer.toList }

/-- A turn of the loop of `pollAllCqInCache`. -/
def drainStep (c : LibfabricConnection) (rest : List Frame) : Option LibfabricConnection :=
  (c.pollForCompletion false false).map fun r =>
    match r.1 with
    | some entry => { r.2 with cqEntries := r.2.cqEntries ++ [entry] }
    | none => { r.2 with stack := rest }

/-- A turn of the loop of `poll`, up to the call of the handler. -/
def pollStep (c : LibfabricConnection) (waitMsg : Bool) (rest : List Frame) :
    Option LibfabricConnection :=
  (c.pollForCompletion c.passivePolling true).map fun r =>
    match r.1 with
    | none => r.2.loop waitMsg rest
    | some (.recv id) =>
      if r.2.disableReceive then r.2.loop waitMsg rest
      else { r.2.hand (.recv id) with stack := .onRecv id :: .poll waitMsg :: rest }
    | some (.sent op) =>
      match op.postAction with
      | some _ =>
        { r.2.hand (.sent op) with stack := .runPostAction op :: .poll waitMsg :: rest }
      | none => ((r.2.hand (.sent op)).settle op).loop waitMsg rest

/-- A turn of the loop of `pollMessage`. The completion of an operation without action is
dropped, and not counted. -/
def pollMessageStep (c : LibfabricConnection) (rest : List Frame) : Option LibfabricConnection :=
  (c.pollForCompletion c.passivePolling true).map fun r =>
    match r.1 with
    | none => r.2
    | some (.recv id) =>
      { r.2.hand (.recv id) with stack := .onRecvMessage id :: .pollMessage :: rest }
    | some (.sent op) =>
      match op.postAction with
      | some _ => { r.2.hand (.sent op) with stack := .runPostAction op :: .pollMessage :: rest }
      | none => { r.2.hand (.sent op) with consumed := r.2.consumed ++ [op] }

/-- A step of the function on top of the stack. -/
def runStep (c : LibfabricConnection) : Option LibfabricConnection :=
  match c.stack with
  | .pollAllCqInCache :: rest => c.drainStep rest
  | .poll waitMsg :: rest => c.pollStep waitMsg rest
  | .pollMessage :: rest => c.pollMessageStep rest
  | .pollAllPendingAction :: rest =>
    if 0 < c.pendingAction then
      some { c with stack := .poll false :: .pollAllPendingAction :: rest }
    else some { c with stack := rest }
  | _ => none

/-- The handler on top of the stack returns, to the turn that called it. -/
def finishStep (c : LibfabricConnection) (unblock : Bool) : Option LibfabricConnection :=
  match c.stack with
  | .onRecv _ :: .poll waitMsg :: rest =>
    some (if unblock then { c with stack := rest } else c.loop waitMsg rest)
  | .runPostAction op :: .poll waitMsg :: rest =>
    some (if unblock then { c.settle op with stack := rest } else (c.settle op).loop waitMsg rest)
  | .onRecvMessage _ :: .pollMessage :: rest => some { c with stack := rest }
  | .runPostAction op :: .pollMessage :: rest =>
    some { c.settle op with stack := if unblock then rest else .pollMessage :: rest }
  | _ => none

/-- libfabric accepts the operation, and the posting function counts it. -/
def acceptStep (c : LibfabricConnection) : Option LibfabricConnection :=
  match c.stack with
  | .post postAction :: rest =>
    some { c with
      stack := rest
      pendingAction := int32 (c.pendingAction + 1)
      inFlight := c.inFlight ++ [⟨c.accepted.length, postAction⟩]
      accepted := c.accepted ++ [⟨c.accepted.length, postAction⟩] }
  | _ => none

/-- One step. Failures that end the process, and the assertions that the counter is not
negative, are not steps. -/
def next (c : LibfabricConnection) : Event → Option LibfabricConnection
  | .receive id => some (c.deliver (.done (.recv id)))
  | .complete index =>
    c.inFlight[index]?.map fun op =>
      { c with inFlight := c.inFlight.eraseIdx index }.deliver (.done (.sent op))
  | .fail index =>
    c.inFlight[index]?.map fun op =>
      { c with inFlight := c.inFlight.eraseIdx index }.deliver (.error (some op))
  | .failReceive => some (c.deliver (.error none))
  | .others msgBuffers => some { c with msgBuffers := msgBuffers }
  | .call function => if c.canCall then some (c.enter function) else none
  | .accept => c.acceptStep
  | .eagain =>
    match c.stack with
    | .post _ :: _ => some { c with stack := .pollAllCqInCache :: c.stack }
    | _ => none
  | .run => c.runStep
  | .finish unblock => c.finishStep unblock

/-- A step, as a relation. -/
def Step (c : LibfabricConnection) (e : Event) (c' : LibfabricConnection) : Prop :=
  c.next e = some c'

/-- A step that fails when there is none, to execute a list of events. -/
def exec (c : LibfabricConnection) (e : Event) : Except Unit LibfabricConnection :=
  match c.next e with
  | some c' => .ok c'
  | none => .error ()

theorem step_of_exec {c c' : LibfabricConnection} {e : Event} (h : c.exec e = .ok c') :
    Step c e c' := by
  unfold exec at h
  unfold Step
  split at h
  · rename_i d hd
    rw [hd, Except.ok.inj h]
  · exact absurd h (by simp)

/-- An execution whose end passes a test shows that the connection gets there. -/
theorem run_of_trace (guard : LibfabricConnection → Event → Prop) [∀ c e, Decidable (guard c e)]
    (es : List Event) (c₀ : LibfabricConnection) {p : LibfabricConnection → Prop}
    [DecidablePred p]
    (h : (Run.trace exec guard es c₀).any (fun c => decide (p c)) = true) :
    ∃ c, Run Step guard c₀ c ∧ p c := by
  obtain ⟨c, hrun, hp⟩ := Run.exists_of_trace h
  exact ⟨c, hrun.mono step_of_exec fun hg => hg, hp⟩

variable {c c' : LibfabricConnection} {e : Event} {acceptCache : Bool} {r : Option Completion}

-- ---------------------------------------------------------------------------
-- Reading the queue
-- ---------------------------------------------------------------------------

/-- What `pollForCompletion` can do. -/
inductive Polled (c : LibfabricConnection) (acceptCache : Bool) :
    Option Completion → LibfabricConnection → Prop where
  | cached {entry : Completion} {rest : List Completion} (accepted : acceptCache = true)
      (first : c.cqEntries = entry :: rest) :
      Polled c acceptCache (some entry) { c with cqEntries := rest }
  | read {entry : Completion} {rest : List CqEntry}
      (uncached : acceptCache = false ∨ c.cqEntries = []) (first : c.cq = .done entry :: rest) :
      Polled c acceptCache (some entry) { c with cq := rest }
  | empty (uncached : acceptCache = false ∨ c.cqEntries = []) (first : c.cq = []) :
      Polled c acceptCache none c
  | error {op : Option Operation} {rest : List CqEntry}
      (uncached : acceptCache = false ∨ c.cqEntries = []) (first : c.cq = .error op :: rest) :
      Polled c acceptCache none { c with cq := rest, consumed := c.consumed ++ op.toList }

theorem polled_of_eq {passivePolling : Bool}
    (h : c.pollForCompletion passivePolling acceptCache = some (r, c')) :
    Polled c acceptCache r c' := by
  unfold pollForCompletion at h
  by_cases hcached : acceptCache = true ∧ c.cqEntries ≠ []
  · obtain ⟨rfl, hne⟩ := hcached
    obtain ⟨entry, rest, hfirst⟩ := List.exists_cons_of_ne_nil hne
    rw [hfirst] at h
    obtain ⟨rfl, rfl⟩ := Prod.mk.inj (Option.some.inj h)
    exact .cached rfl hfirst
  · have huncached : acceptCache = false ∨ c.cqEntries = [] := by
      cases acceptCache <;> simp_all
    have hread : (match c.cq with
        | [] => if passivePolling then none else some (none, c)
        | .done entry :: rest => some (some entry, { c with cq := rest })
        | .error op :: rest =>
          some (none, { c with cq := rest, consumed := c.consumed ++ op.toList })) =
        some (r, c') := by
      rcases huncached with rfl | hnil
      · exact h
      · cases acceptCache <;> simpa [hnil] using h
    cases hcq : c.cq with
    | nil =>
      rw [hcq] at hread
      cases passivePolling
      · obtain ⟨rfl, rfl⟩ := Prod.mk.inj (Option.some.inj hread)
        exact .empty huncached hcq
      · exact absurd hread (by simp)
    | cons first rest =>
      rw [hcq] at hread
      cases first with
      | done entry =>
        obtain ⟨rfl, rfl⟩ := Prod.mk.inj (Option.some.inj hread)
        exact .read huncached hcq
      | error op =>
        obtain ⟨rfl, rfl⟩ := Prod.mk.inj (Option.some.inj hread)
        exact .error huncached hcq

-- ---------------------------------------------------------------------------
-- First in, first out
-- ---------------------------------------------------------------------------

/-- What the polling functions have still to take, oldest first. -/
def waiting (c : LibfabricConnection) : List CqEntry := c.cqEntries.map .done ++ c.cq

/-- The event is not an error entry that arrives. -/
def NoError : Event → Prop
  | .fail _ | .failReceive => False
  | _ => True

instance : DecidablePred NoError
  | .fail _ | .failReceive => isFalse id
  | .receive _ | .complete _ | .others _ | .call _ | .accept | .eagain | .run | .finish _ =>
    isTrue trivial

/-- Without error entries: what was delivered was handed over or waits, in this order. -/
structure Fifo (c : LibfabricConnection) : Prop where
  delivered : c.delivered = c.handed.map .done ++ c.waiting
  receives  : c.disableReceive = false
  clean     : ∀ entry ∈ c.cq, ∃ d, entry = .done d

/-- A step that touches neither the queue nor the cache. -/
theorem Fifo.of_same (h : Fifo c) (hd : c'.delivered = c.delivered) (hh : c'.handed = c.handed)
    (hr : c'.disableReceive = c.disableReceive) (he : c'.cqEntries = c.cqEntries)
    (hq : c'.cq = c.cq) : Fifo c' := by
  refine ⟨?_, hr.trans h.receives, fun entry hentry => h.clean entry (hq ▸ hentry)⟩
  rw [hd, hh, h.delivered]
  unfold waiting
  rw [he, hq]

theorem Fifo.deliver (h : Fifo c) (entry : Completion) : Fifo (c.deliver (.done entry)) := by
  refine ⟨?_, h.receives, fun e he => ?_⟩
  · unfold LibfabricConnection.deliver waiting
    rw [h.delivered, waiting, List.append_assoc, List.append_assoc]
  · rcases List.mem_append.mp he with he | he
    · exact h.clean e he
    · exact ⟨entry, List.mem_singleton.mp he⟩

/-- A completion is taken: it was the oldest. -/
structure Takes (c : LibfabricConnection) (entry : Completion) (c' : LibfabricConnection) :
    Prop where
  waiting : c.waiting = .done entry :: c'.waiting
  rest    : c' = { c with cqEntries := c'.cqEntries, cq := c'.cq }
  clean   : ∀ e ∈ c'.cq, e ∈ c.cq

/-- What a polling function can find when there are no error entries. -/
theorem Fifo.polled (h : Fifo c) (hp : Polled c true r c') :
    (r = none ∧ c' = c) ∨ ∃ entry, r = some entry ∧ Takes c entry c' := by
  cases hp with
  | @cached entry rest _ hfirst =>
    refine Or.inr ⟨entry, rfl, ?_, rfl, fun _ he => he⟩
    unfold LibfabricConnection.waiting
    rw [hfirst, List.map_cons, List.cons_append]
  | @read entry rest huncached hfirst =>
    have hnil : c.cqEntries = [] := by simpa using huncached
    refine Or.inr ⟨entry, rfl, ?_, rfl, fun e he => hfirst ▸ List.mem_cons_of_mem _ he⟩
    unfold LibfabricConnection.waiting
    rw [hfirst, hnil, List.map_nil, List.nil_append, List.nil_append]
  | empty => exact Or.inl ⟨rfl, rfl⟩
  | @error op rest _ hfirst =>
    obtain ⟨d, hd⟩ := h.clean (.error op) (hfirst ▸ List.mem_cons_self)
    exact absurd hd (by simp)

/-- The completion that was taken is handed over. -/
theorem Fifo.hand {entry : Completion} (h : Fifo c) (ht : Takes c entry c') :
    Fifo (c'.hand entry) := by
  have hdelivered := h.delivered
  rw [ht.waiting] at hdelivered
  rw [ht.rest]
  refine ⟨?_, h.receives, fun e he => h.clean e (ht.clean e he)⟩
  show c.delivered = (c.handed ++ [entry]).map .done ++ c'.waiting
  rw [hdelivered, List.map_append, List.append_assoc]
  rfl

theorem Fifo.pollStep {waitMsg : Bool} {rest : List Frame} (h : Fifo c)
    (hstep : c.pollStep waitMsg rest = some c') : Fifo c' := by
  unfold LibfabricConnection.pollStep at hstep
  obtain ⟨⟨r, d⟩, hpoll, rfl⟩ := Option.map_eq_some_iff.mp hstep
  rcases h.polled (polled_of_eq hpoll) with ⟨rfl, rfl⟩ | ⟨entry, rfl, ht⟩
  · exact h.of_same rfl rfl rfl rfl rfl
  · have hreceives : d.disableReceive = false := by
      rw [ht.rest]
      exact h.receives
    have hhand := h.hand ht
    cases entry with
    | recv id =>
      dsimp only
      rw [hreceives]
      exact hhand.of_same rfl rfl rfl rfl rfl
    | sent op =>
      dsimp only
      cases op.postAction with
      | none => exact hhand.of_same rfl rfl rfl rfl rfl
      | some action => exact hhand.of_same rfl rfl rfl rfl rfl

theorem Fifo.pollMessageStep {rest : List Frame} (h : Fifo c)
    (hstep : c.pollMessageStep rest = some c') : Fifo c' := by
  unfold LibfabricConnection.pollMessageStep at hstep
  obtain ⟨⟨r, d⟩, hpoll, rfl⟩ := Option.map_eq_some_iff.mp hstep
  rcases h.polled (polled_of_eq hpoll) with ⟨rfl, rfl⟩ | ⟨entry, rfl, ht⟩
  · exact h
  · have hhand := h.hand ht
    cases entry with
    | recv id => exact hhand.of_same rfl rfl rfl rfl rfl
    | sent op =>
      dsimp only
      cases op.postAction with
      | none => exact hhand.of_same rfl rfl rfl rfl rfl
      | some action => exact hhand.of_same rfl rfl rfl rfl rfl

/-- Moving an entry from the queue to the end of the cache changes nothing that waits. -/
theorem Fifo.drainStep {rest : List Frame} (h : Fifo c) (hstep : c.drainStep rest = some c') :
    Fifo c' ∧ c'.waiting = c.waiting := by
  unfold LibfabricConnection.drainStep at hstep
  obtain ⟨⟨r, d⟩, hpoll, rfl⟩ := Option.map_eq_some_iff.mp hstep
  have hp := polled_of_eq hpoll
  cases hp with
  | cached haccepted => exact absurd haccepted (by decide)
  | @read entry tail _ hfirst =>
    have hwaiting : (c.cqEntries ++ [entry]).map .done ++ tail = c.waiting := by
      unfold waiting
      rw [hfirst, List.map_append, List.append_assoc]
      rfl
    refine ⟨⟨?_, h.receives, fun e he => h.clean e (hfirst ▸ List.mem_cons_of_mem _ he)⟩, hwaiting⟩
    show c.delivered = c.handed.map .done ++ ((c.cqEntries ++ [entry]).map .done ++ tail)
    rw [hwaiting]
    exact h.delivered
  | empty => exact ⟨h.of_same rfl rfl rfl rfl rfl, rfl⟩
  | @error op tail _ hfirst =>
    obtain ⟨d, hd⟩ := h.clean (.error op) (hfirst ▸ List.mem_cons_self)
    exact absurd hd (by simp)

/-- The return of a handler leaves the queue and the cache alone. -/
theorem Fifo.finishStep {unblock : Bool} (h : Fifo c) (hstep : c.finishStep unblock = some c') :
    Fifo c' := by
  unfold LibfabricConnection.finishStep at hstep
  split at hstep
  case h_1 | h_2 =>
    obtain rfl := Option.some.inj hstep
    split_ifs <;> exact h.of_same rfl rfl rfl rfl rfl
  case h_3 | h_4 =>
    obtain rfl := Option.some.inj hstep
    exact h.of_same rfl rfl rfl rfl rfl
  case h_5 => exact absurd hstep (by simp)

/-- Taking a message buffer concerns the domain. -/
theorem getMsgBuffer_eq (c : LibfabricConnection) : ∃ msgBuffers allocated taken,
    c.getMsgBuffer.2 =
      { c with msgBuffers := msgBuffers, allocated := allocated, taken := taken } := by
  unfold getMsgBuffer
  split
  · exact ⟨_, _, _, rfl⟩
  · exact ⟨_, _, _, rfl⟩

/-- **Every step keeps the order**, whatever calls are active. -/
theorem fifo_step (h : Fifo c) (hno : NoError e) (hstep : Step c e c') : Fifo c' := by
  unfold Step next at hstep
  cases e with
  | receive id =>
    obtain rfl := Option.some.inj hstep
    exact h.deliver (.recv id)
  | complete index =>
    obtain ⟨op, -, rfl⟩ := Option.map_eq_some_iff.mp hstep
    have hin : Fifo { c with inFlight := c.inFlight.eraseIdx index } :=
      h.of_same rfl rfl rfl rfl rfl
    exact hin.deliver (.sent op)
  | fail => exact hno.elim
  | failReceive => exact hno.elim
  | others msgBuffers =>
    obtain rfl := Option.some.inj hstep
    exact h.of_same rfl rfl rfl rfl rfl
  | call function =>
    dsimp only at hstep
    split_ifs at hstep
    obtain rfl := Option.some.inj hstep
    cases function with
    | sendMessage =>
      obtain ⟨msgBuffers, allocated, taken, hget⟩ := c.getMsgBuffer_eq
      unfold enter
      dsimp only
      rw [hget]
      exact h.of_same rfl rfl rfl rfl rfl
    | _ => exact h.of_same rfl rfl rfl rfl rfl
  | accept =>
    dsimp only at hstep
    unfold acceptStep at hstep
    split at hstep
    · obtain rfl := Option.some.inj hstep
      exact h.of_same rfl rfl rfl rfl rfl
    · exact absurd hstep (by simp)
  | eagain =>
    dsimp only at hstep
    split at hstep
    · obtain rfl := Option.some.inj hstep
      exact h.of_same rfl rfl rfl rfl rfl
    · exact absurd hstep (by simp)
  | run =>
    dsimp only at hstep
    unfold runStep at hstep
    split at hstep
    · exact (h.drainStep hstep).1
    · exact h.pollStep hstep
    · exact h.pollMessageStep hstep
    · split_ifs at hstep <;>
      · obtain rfl := Option.some.inj hstep
        exact h.of_same rfl rfl rfl rfl rfl
    · exact absurd hstep (by simp)
  | finish unblock => exact h.finishStep hstep

-- ---------------------------------------------------------------------------
-- The code without the cache
-- ---------------------------------------------------------------------------

/-- The code without the cache: `pollAllCqInCache` returns at once. -/
def nextUncached (c : LibfabricConnection) (e : Event) : Option LibfabricConnection :=
  match c.stack, e with
  | .pollAllCqInCache :: rest, .run => some { c with stack := rest }
  | _, _ => c.next e

/-- A step of the code without the cache. -/
def StepUncached (c : LibfabricConnection) (e : Event) (c' : LibfabricConnection) : Prop :=
  c.nextUncached e = some c'

/-- The connection with what is in the cache back in front of the queue. -/
def uncached (c : LibfabricConnection) : LibfabricConnection :=
  { c with cqEntries := [], cq := c.waiting }

/-- A poll finds the same entry when nothing is cached. -/
theorem pollForCompletion_uncached {passivePolling : Bool} (h : Fifo c)
    (hpoll : c.pollForCompletion passivePolling true = some (r, c')) :
    c.uncached.pollForCompletion passivePolling true = some (r, c'.uncached) := by
  rcases h.polled (polled_of_eq hpoll) with ⟨rfl, rfl⟩ | ⟨entry, rfl, ht⟩
  · -- an active read of an empty queue
    have hp := polled_of_eq hpoll
    have hnil : c'.cqEntries = [] := by
      by_contra hne
      obtain ⟨entry, rest, hfirst⟩ := List.exists_cons_of_ne_nil hne
      unfold pollForCompletion at hpoll
      rw [hfirst] at hpoll
      exact absurd (Prod.mk.inj (Option.some.inj hpoll)).1 (by simp)
    have hsame : c'.uncached = c' := by
      unfold uncached waiting
      rw [hnil, List.map_nil, List.nil_append, ← hnil]
    rw [hsame]
    exact hpoll
  · have hrest : c.uncached = { c'.uncached with cq := .done entry :: c'.waiting } := by
      unfold uncached
      rw [ht.waiting, ht.rest]
    rw [hrest]
    rfl

theorem pollStep_uncached {waitMsg : Bool} {rest : List Frame} (h : Fifo c)
    (hstep : c.pollStep waitMsg rest = some c') :
    c.uncached.pollStep waitMsg rest = some c'.uncached := by
  unfold pollStep at hstep ⊢
  obtain ⟨⟨r, d⟩, hpoll, rfl⟩ := Option.map_eq_some_iff.mp hstep
  rw [show c.uncached.passivePolling = c.passivePolling from rfl,
    pollForCompletion_uncached h hpoll, Option.map_some, Option.some.injEq]
  cases r with
  | none => rfl
  | some entry =>
    cases entry with
    | recv id =>
      show (if d.disableReceive = true then _ else _) = _
      dsimp only
      split_ifs <;> rfl
    | sent op =>
      dsimp only
      cases op.postAction <;> rfl

theorem pollMessageStep_uncached {rest : List Frame} (h : Fifo c)
    (hstep : c.pollMessageStep rest = some c') :
    c.uncached.pollMessageStep rest = some c'.uncached := by
  unfold pollMessageStep at hstep ⊢
  obtain ⟨⟨r, d⟩, hpoll, rfl⟩ := Option.map_eq_some_iff.mp hstep
  rw [show c.uncached.passivePolling = c.passivePolling from rfl,
    pollForCompletion_uncached h hpoll, Option.map_some, Option.some.injEq]
  cases r with
  | none => rfl
  | some entry =>
    cases entry with
    | recv id => rfl
    | sent op =>
      dsimp only
      cases op.postAction <;> rfl

theorem uncached_deliver (c : LibfabricConnection) (entry : CqEntry) :
    (c.deliver entry).uncached = c.uncached.deliver entry := by
  unfold uncached deliver waiting
  rw [List.append_assoc]

theorem uncached_enter (c : LibfabricConnection) (function : Call) :
    (c.enter function).uncached = c.uncached.enter function := by
  cases function with
  | sendMessage =>
    unfold enter getMsgBuffer uncached
    dsimp only
    cases c.msgBuffers <;> rfl
  | _ => rfl

/-- A turn of `pollAllCqInCache` moves an entry, or the function returns. -/
theorem drainStep_uncached {rest : List Frame} (h : Fifo c) (hstep : c.drainStep rest = some c') :
    c'.uncached = c.uncached ∨ c' = { c with stack := rest } := by
  have hwaiting := (h.drainStep hstep).2
  unfold drainStep at hstep
  obtain ⟨⟨r, d⟩, hpoll, rfl⟩ := Option.map_eq_some_iff.mp hstep
  have hp := polled_of_eq hpoll
  cases hp with
  | cached haccepted => exact absurd haccepted (by decide)
  | read =>
    refine Or.inl ?_
    unfold uncached
    rw [hwaiting]
  | empty => exact Or.inr rfl
  | @error op tail _ hfirst =>
    obtain ⟨d, hd⟩ := h.clean (.error op) (hfirst ▸ List.mem_cons_self)
    exact absurd hd (by simp)

/-- A step of the function on top of the stack. -/
theorem runStep_uncached (h : Fifo c) (hstep : c.runStep = some c') :
    c'.uncached = c.uncached ∨ c.uncached.nextUncached .run = some c'.uncached := by
  have hstack : c.uncached.stack = c.stack := rfl
  unfold runStep at hstep
  split at hstep
  case h_1 rest htop =>
    refine (drainStep_uncached h hstep).imp_right fun hc => ?_
    unfold nextUncached
    rw [hstack, htop, hc]
    rfl
  case h_2 waitMsg rest htop =>
    refine Or.inr ?_
    unfold nextUncached next runStep
    rw [hstack, htop]
    exact pollStep_uncached h hstep
  case h_3 rest htop =>
    refine Or.inr ?_
    unfold nextUncached next runStep
    rw [hstack, htop]
    exact pollMessageStep_uncached h hstep
  case h_4 rest htop =>
    refine Or.inr ?_
    unfold nextUncached next runStep
    rw [hstack, htop]
    show (if 0 < c.pendingAction then _ else _) = _
    split_ifs at hstep ⊢ <;>
    · obtain rfl := Option.some.inj hstep
      rfl
  case h_5 => exact absurd hstep (by simp)

/-- The other steps do not read the queue. -/
theorem next_uncached (hrun : e ≠ .run) (hstep : c.next e = some c') :
    c.uncached.nextUncached e = some c'.uncached := by
  have hnext : c.uncached.nextUncached e = c.uncached.next e := by
    unfold nextUncached
    split
    · exact absurd rfl hrun
    · rfl
  rw [hnext]
  unfold next at hstep ⊢
  cases e with
  | receive id =>
    obtain rfl := Option.some.inj hstep
    exact congrArg some (uncached_deliver ..).symm
  | complete index =>
    obtain ⟨op, hop, rfl⟩ := Option.map_eq_some_iff.mp hstep
    rw [uncached_deliver]
    exact Option.map_eq_some_iff.mpr ⟨op, hop, rfl⟩
  | fail index =>
    obtain ⟨op, hop, rfl⟩ := Option.map_eq_some_iff.mp hstep
    rw [uncached_deliver]
    exact Option.map_eq_some_iff.mpr ⟨op, hop, rfl⟩
  | failReceive =>
    obtain rfl := Option.some.inj hstep
    exact congrArg some (uncached_deliver ..).symm
  | others msgBuffers =>
    obtain rfl := Option.some.inj hstep
    rfl
  | call function =>
    dsimp only at hstep ⊢
    split_ifs at hstep with hcall
    obtain rfl := Option.some.inj hstep
    rw [if_pos (show c.uncached.canCall = true from hcall), uncached_enter]
  | accept =>
    dsimp only at hstep ⊢
    unfold acceptStep at hstep ⊢
    rw [show c.uncached.stack = c.stack from rfl]
    split at hstep
    · obtain rfl := Option.some.inj hstep
      rfl
    · exact absurd hstep (by simp)
  | eagain =>
    dsimp only at hstep ⊢
    rw [show c.uncached.stack = c.stack from rfl]
    split at hstep
    · obtain rfl := Option.some.inj hstep
      rfl
    · exact absurd hstep (by simp)
  | run => exact absurd rfl hrun
  | finish unblock =>
    dsimp only at hstep ⊢
    unfold finishStep at hstep ⊢
    rw [show c.uncached.stack = c.stack from rfl]
    split at hstep
    case h_1 | h_2 =>
      obtain rfl := Option.some.inj hstep
      cases unblock <;> rfl
    case h_3 | h_4 =>
      obtain rfl := Option.some.inj hstep
      rfl
    case h_5 => exact absurd hstep (by simp)

/-- **Every step is a step of the code without the cache**, or moves an entry into the
cache. -/
theorem uncached_step (h : Fifo c) (hstep : Step c e c') :
    c'.uncached = c.uncached ∨ StepUncached c.uncached e c'.uncached := by
  by_cases hrun : e = .run
  · subst hrun
    exact runStep_uncached h hstep
  · exact Or.inr (next_uncached hrun hstep)

-- ---------------------------------------------------------------------------
-- Runs
-- ---------------------------------------------------------------------------

/-- **The cache is transparent.** In every run without error entries, whatever calls are
active: what the queue delivered is what the polling functions took for the handlers
followed by what they have still to take, and the run of the code without the cache
that makes the same calls hands over the same completions. -/
theorem cache_transparent {passivePolling : Bool}
    (hrun : Run Step (fun _ e => NoError e) (new passivePolling) c) :
    c.delivered = c.handed.map .done ++ (c.cqEntries.map .done ++ c.cq) ∧
      Run StepUncached (fun _ e => NoError e) (new passivePolling) c.uncached := by
  have hinv : Fifo c ∧ Run StepUncached (fun _ e => NoError e) (new passivePolling) c.uncached := by
    induction hrun with
    | start => exact ⟨⟨rfl, rfl, fun _ he => absurd he List.not_mem_nil⟩, .start⟩
    | next _ hno hstep ih =>
      obtain ⟨hfifo, hrun'⟩ := ih
      refine ⟨fifo_step hfifo hno hstep, ?_⟩
      rcases uncached_step hfifo hstep with hsame | hstep'
      · rw [hsame]
        exact hrun'
      · exact hrun'.next hno hstep'
  exact ⟨hinv.1.delivered, hinv.2⟩

/-- The first receive arrives, and the second in the handler of the first, while libfabric
has no room for what the handler sends. The second is cached, and a third arrives. -/
def cachedInHandler : List Event :=
  [.receive 0, .call (.poll true), .run, .call .sendMessage, .receive 1, .eagain, .run, .run,
    .receive 2, .accept, .finish false, .run, .finish false, .run]

theorem transparent_in_handler : ∃ c,
    Run Step (fun _ e => NoError e) (new false) c ∧ c.handed = [.recv 0, .recv 1, .recv 2] ∧
      c.delivered = c.handed.map .done ++ (c.cqEntries.map .done ++ c.cq) ∧
      Run StepUncached (fun _ e => NoError e) (new false) c.uncached := by
  obtain ⟨c, hrun, hhanded⟩ := run_of_trace (fun _ e => NoError e) cachedInHandler (new false)
    (p := fun c => c.handed = [.recv 0, .recv 1, .recv 2]) (by decide)
  exact ⟨c, hrun, hhanded, cache_transparent hrun⟩

end LibfabricConnection

end IoCatcher.Polling
