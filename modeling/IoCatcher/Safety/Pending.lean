import IoCatcher.Lib.Custody
import IoCatcher.Network.Completions

/-!
# IO Catcher — the count of pending operations

`pendingAction` goes up when an operation is accepted and down when its completion has
been handled, and the destructor of the connection polls until it is 0. The message buffer
of a send is attached to the action and goes back to the domain when the action is
deleted. Two exits of the polling functions forget both. `pollForCompletion` reads the
error entry of an operation and reports that there was no completion: the counter stays,
the action and its buffer are lost. And `pollMessage` drops the completion of an operation
without action, which `poll` counts.

* `balance_step`      — every other step keeps the books;
* `pending_of_run`    — so they balance in every run without such a step;
* `error_not_counted` — one failed send is pending for ever.
-/

namespace IoCatcher.Polling

-- ---------------------------------------------------------------------------
-- Where operations and message buffers are
-- ---------------------------------------------------------------------------

/-- The operation that ended. -/
def Completion.operations : Completion → List Operation
  | .recv _ => []
  | .sent op => [op]

/-- The operation that ended or failed. -/
def CqEntry.operations : CqEntry → List Operation
  | .done entry => entry.operations
  | .error op => op.toList

/-- The operation whose action is being run. -/
def Frame.operations : Frame → List Operation
  | .runPostAction op => [op]
  | _ => []

/-- The message buffer of the operation being posted. -/
def Frame.buffers : Frame → List Addr
  | .post (some ⟨some buffer⟩) => [buffer]
  | _ => []

namespace LibfabricConnection

variable {c c' : LibfabricConnection} {e : Event} {op : Operation} {acceptCache : Bool}
  {r : Option Completion}

/-- The operations that are in flight, in the queue, in the cache or being handled. -/
def outstanding (c : LibfabricConnection) : List Operation :=
  c.inFlight ++ (c.cq.flatMap CqEntry.operations ++ (c.cqEntries.flatMap Completion.operations ++
    c.stack.flatMap Frame.operations))

/-- The message buffers of the operations being posted. -/
def posting (c : LibfabricConnection) : List Addr := c.stack.flatMap Frame.buffers

theorem count_outstanding (c : LibfabricConnection) (op : Operation) :
    c.outstanding.count op = c.inFlight.count op + (c.cq.flatMap CqEntry.operations).count op +
      (c.cqEntries.flatMap Completion.operations).count op +
        (c.stack.flatMap Frame.operations).count op := by
  unfold outstanding
  simp only [List.count_append]
  omega

/-- What the connection promises. An operation is consumed when its completion has been
handled or its error entry has been read. -/
structure Counted (c : LibfabricConnection) : Prop where
  pending  : c.pendingAction = c.accepted.length - c.consumed.length
  nonneg   : 0 ≤ c.pendingAction
  once     : c.consumed.Subperm c.accepted
  ends     : c.consumed.length = c.accepted.length → ∀ rest,
    c.stack = .pollAllPendingAction :: rest → c.next .run = some { c with stack := rest }
  taken    : c.taken.Perm (c.accepted.filterMap Operation.buffer ++ c.posting)
  returned : c.returned.Perm (c.consumed.filterMap Operation.buffer)

/-- The entry that the polling function on top of the stack takes next. -/
def nextEntry (c : LibfabricConnection) : Option CqEntry :=
  match c.stack with
  | .pollAllCqInCache :: _ => c.cq.head?
  | .poll _ :: _ | .pollMessage :: _ => c.waiting.head?
  | _ => none

/-- The step does not read the error entry of an operation, does not make `pollMessage`
take the completion of an operation without action, and does not overflow the counter. -/
def countable (c : LibfabricConnection) : Event → Bool
  | .accept => decide (c.accepted.length + 1 < c.consumed.length + 2 ^ 31)
  | .run =>
    match c.nextEntry, c.stack with
    | some (.error (some _)), _ => false
    | some (.done (.sent op)), .pollMessage :: _ => op.postAction.isSome
    | _, _ => true
  | _ => true

-- ---------------------------------------------------------------------------
-- The books
-- ---------------------------------------------------------------------------

/-- The accepted operations are consumed or outstanding, the counter counts the latter,
the message buffers are attached to what was accepted or is being posted, and those of the
consumed operations are back. -/
structure Balance (c : LibfabricConnection) : Prop where
  operations : Custody c.accepted c.consumed c.outstanding
  pending    : c.pendingAction = c.outstanding.length
  room       : c.outstanding.length < 2 ^ 31
  messages   : Custody c.taken (c.accepted.filterMap Operation.buffer) c.posting
  returned   : c.returned = c.consumed.filterMap Operation.buffer

theorem Balance.counted (h : Balance c) : Counted c := by
  have hlen := h.operations.length_held
  have hpending := h.pending
  refine ⟨by omega, by omega, h.operations.subperm, fun hall rest hstack => ?_, h.messages,
    h.returned ▸ List.Perm.refl _⟩
  unfold next runStep
  rw [hstack]
  dsimp only
  rw [if_neg (by omega)]

/-- Two connections with the same books. -/
structure SameBooks (c c' : LibfabricConnection) : Prop where
  accepted : c'.accepted = c.accepted
  consumed : c'.consumed = c.consumed
  pending  : c'.pendingAction = c.pendingAction
  taken    : c'.taken = c.taken
  returned : c'.returned = c.returned

/-- Operations move from one place to another. -/
theorem Balance.move (h : Balance c) (hb : SameBooks c c') (ho : c.outstanding.Perm c'.outstanding)
    (hp : c'.posting = c.posting) : Balance c' := by
  refine ⟨?_, ?_, ?_, ?_, ?_⟩
  · rw [hb.accepted, hb.consumed]
    exact h.operations.move ho
  · rw [hb.pending, h.pending, ho.length_eq]
  · rw [← ho.length_eq]
    exact h.room
  · rw [hb.taken, hb.accepted, hp]
    exact h.messages
  · rw [hb.returned, hb.consumed]
    exact h.returned

/-- An operation that was handled is settled. -/
theorem Balance.settle (h : Balance c) {d : LibfabricConnection} (hb : SameBooks c d)
    (hc : SameBooks (d.settle op) c') (ho : c.outstanding.Perm (op :: c'.outstanding))
    (hp : c'.posting = c.posting) : Balance c' := by
  have hlen := ho.length_eq
  rw [List.length_cons] at hlen
  have hroom := h.room
  have hpending : (d.settle op).pendingAction = c'.outstanding.length := by
    show int32 (d.pendingAction - 1) = _
    rw [hb.pending, h.pending, int32_eq (by omega) (by omega)]
    omega
  refine ⟨?_, hc.pending.trans hpending, by omega, ?_, ?_⟩
  · rw [hc.accepted, hc.consumed]
    show Custody d.accepted (d.consumed ++ [op]) _
    rw [hb.accepted, hb.consumed]
    exact h.operations.giveBack ho
  · rw [hc.taken, hc.accepted, hp]
    show Custody d.taken (d.accepted.filterMap Operation.buffer) _
    rw [hb.taken, hb.accepted]
    exact h.messages
  · rw [hc.returned, hc.consumed]
    show d.returned ++ op.buffer.toList = (d.consumed ++ [op]).filterMap Operation.buffer
    rw [hb.returned, hb.consumed, h.returned, List.filterMap_append]
    rfl

-- ---------------------------------------------------------------------------
-- The polling functions
-- ---------------------------------------------------------------------------

/-- The next read does not find the error entry of an operation. -/
def ReadsNoError (c : LibfabricConnection) (acceptCache : Bool) : Prop :=
  acceptCache = false ∨ c.cqEntries = [] → ∀ op, c.cq.head? ≠ some (.error (some op))

/-- The operation of the entry that was taken is no longer in the queue or the cache. -/
theorem Polled.books (hp : Polled c acceptCache r c') (hno : c.ReadsNoError acceptCache) :
    SameBooks c c' ∧ c'.stack = c.stack ∧
      c.outstanding.Perm (r.toList.flatMap Completion.operations ++ c'.outstanding) := by
  cases hp with
  | cached _ hfirst =>
    refine ⟨⟨rfl, rfl, rfl, rfl, rfl⟩, rfl, List.perm_iff_count.mpr fun op => ?_⟩
    rw [List.count_append, count_outstanding, count_outstanding, hfirst]
    simp only [Option.toList_some, List.flatMap_cons, List.flatMap_nil, List.append_nil,
      List.count_append]
    omega
  | read _ hfirst =>
    refine ⟨⟨rfl, rfl, rfl, rfl, rfl⟩, rfl, List.perm_iff_count.mpr fun op => ?_⟩
    rw [List.count_append, count_outstanding, count_outstanding, hfirst]
    simp only [Option.toList_some, List.flatMap_cons, List.flatMap_nil, List.append_nil,
      List.count_append, CqEntry.operations]
    omega
  | empty => exact ⟨⟨rfl, rfl, rfl, rfl, rfl⟩, rfl, List.Perm.refl _⟩
  | @error op rest huncached hfirst =>
    cases op with
    | some op => exact absurd (by rw [hfirst]; rfl) (hno huncached op)
    | none =>
      refine ⟨⟨rfl, List.append_nil _, rfl, rfl, rfl⟩, rfl, List.perm_iff_count.mpr fun op => ?_⟩
      rw [List.count_append, count_outstanding, count_outstanding, hfirst]
      simp [CqEntry.operations]

/-- An entry that was taken was the oldest. -/
theorem Polled.head {entry : Completion} (hp : Polled c true (some entry) c') :
    c.waiting.head? = some (.done entry) := by
  unfold waiting
  cases hp with
  | cached _ hfirst => rw [hfirst]; rfl
  | read huncached hfirst =>
    have hnil : c.cqEntries = [] := by simpa using huncached
    rw [hnil, hfirst]
    rfl

theorem SameBooks.trans {d : LibfabricConnection} (h : SameBooks c d) (h' : SameBooks d c') :
    SameBooks c c' :=
  ⟨h'.accepted.trans h.accepted, h'.consumed.trans h.consumed, h'.pending.trans h.pending,
    h'.taken.trans h.taken, h'.returned.trans h.returned⟩

/-- Only the operations being handled depend on the active calls. -/
theorem outstanding_setStack (d : LibfabricConnection) {stack : List Frame}
    (hops : stack.flatMap Frame.operations = d.stack.flatMap Frame.operations)
    (handed : List Completion) :
    outstanding { d with stack := stack, handed := handed } = d.outstanding := by
  unfold outstanding
  dsimp only
  rw [hops]

/-- Calls that neither handle nor post an operation start or return. -/
theorem Balance.moveStack (h : Balance c) {d : LibfabricConnection} (hb : SameBooks c d)
    (ho : c.outstanding.Perm d.outstanding) (hs : d.stack = c.stack) {stack : List Frame}
    {handed : List Completion}
    (hops : stack.flatMap Frame.operations = c.stack.flatMap Frame.operations)
    (hbuf : stack.flatMap Frame.buffers = c.stack.flatMap Frame.buffers) :
    Balance { d with stack := stack, handed := handed } := by
  refine h.move (hb.trans ⟨rfl, rfl, rfl, rfl, rfl⟩) ?_ hbuf
  rw [outstanding_setStack d (hops.trans (by rw [hs]))]
  exact ho

/-- The operation that was handled leaves the stack of calls. -/
theorem Balance.settleStack (h : Balance c) {d : LibfabricConnection} (hb : SameBooks c d)
    {stack : List Frame} (ho : c.outstanding.Perm (op :: outstanding { d with stack := stack }))
    (hbuf : stack.flatMap Frame.buffers = c.stack.flatMap Frame.buffers)
    (handed : List Completion) :
    Balance { d.settle op with stack := stack, handed := handed } :=
  h.settle hb ⟨rfl, rfl, rfl, rfl, rfl⟩ ho hbuf

/-- What a polling function has taken is on the stack, or settled. -/
theorem outstanding_of_taken {d : LibfabricConnection} {entry : Completion}
    (ho : c.outstanding.Perm (entry.operations ++ d.outstanding)) {stack : List Frame}
    (hs : (stack.flatMap Frame.operations).Perm
      (entry.operations ++ d.stack.flatMap Frame.operations)) {handed : List Completion} :
    c.outstanding.Perm (outstanding { d with stack := stack, handed := handed }) := by
  refine ho.trans (List.perm_iff_count.mpr fun op => ?_)
  have hcount := List.perm_iff_count.mp hs op
  rw [List.count_append, count_outstanding, count_outstanding]
  dsimp only
  rw [List.count_append] at hcount
  omega

theorem Balance.drainStep {rest : List Frame} (h : Balance c)
    (hstack : c.stack = .pollAllCqInCache :: rest) (hno : c.ReadsNoError false)
    (hstep : c.drainStep rest = some c') : Balance c' := by
  unfold LibfabricConnection.drainStep at hstep
  obtain ⟨⟨r, d⟩, hpoll, rfl⟩ := Option.map_eq_some_iff.mp hstep
  obtain ⟨hb, hs, ho⟩ := (polled_of_eq hpoll).books hno
  cases r with
  | none => exact h.moveStack hb ho hs (by rw [hstack]; rfl) (by rw [hstack]; rfl)
  | some entry =>
    refine h.move (hb.trans ⟨rfl, rfl, rfl, rfl, rfl⟩) (ho.trans ?_)
      (congrArg (List.flatMap Frame.buffers) hs)
    refine List.perm_iff_count.mpr fun op => ?_
    rw [List.count_append, count_outstanding, count_outstanding]
    simp only [Option.toList_some, List.flatMap_cons, List.flatMap_nil, List.append_nil,
      List.flatMap_append, List.count_append]
    omega

theorem Balance.pollStep {waitMsg : Bool} {rest : List Frame} (h : Balance c)
    (hstack : c.stack = .poll waitMsg :: rest) (hno : c.ReadsNoError true)
    (hstep : c.pollStep waitMsg rest = some c') : Balance c' := by
  unfold LibfabricConnection.pollStep at hstep
  obtain ⟨⟨r, d⟩, hpoll, rfl⟩ := Option.map_eq_some_iff.mp hstep
  obtain ⟨hb, hs, ho⟩ := (polled_of_eq hpoll).books hno
  have hloop : ∀ stack : List Frame, stack = (if waitMsg then .poll waitMsg :: rest else rest) →
      stack.flatMap Frame.operations = c.stack.flatMap Frame.operations ∧
        stack.flatMap Frame.buffers = c.stack.flatMap Frame.buffers := by
    rintro stack rfl
    rw [hstack]
    cases waitMsg <;> exact ⟨rfl, rfl⟩
  cases r with
  | none => exact h.moveStack hb ho hs (hloop _ rfl).1 (hloop _ rfl).2
  | some entry =>
    rw [Option.toList_some, List.flatMap_singleton] at ho
    cases entry with
    | recv id =>
      dsimp only
      split_ifs
      · exact h.moveStack hb ho hs (hloop _ rfl).1 (hloop _ rfl).2
      · exact h.moveStack hb ho hs (by rw [hstack]; rfl) (by rw [hstack]; rfl)
    | sent op =>
      dsimp only
      cases op.postAction with
      | some action =>
        refine h.move (hb.trans ⟨rfl, rfl, rfl, rfl, rfl⟩) (outstanding_of_taken ho ?_) ?_
        · rw [hs, hstack]
          exact List.Perm.refl _
        · unfold posting
          rw [hstack]
          rfl
      | none =>
        -- an operation without action is counted here, by `poll` only
        refine h.settleStack hb ?_ (hloop _ rfl).2 _
        rw [outstanding_setStack d ((hloop _ rfl).1.trans (by rw [hs]))]
        exact ho

theorem Balance.pollMessageStep {rest : List Frame} (h : Balance c)
    (hstack : c.stack = .pollMessage :: rest) (hno : c.ReadsNoError true)
    (hsilent : ∀ op, c.waiting.head? = some (.done (.sent op)) → op.postAction ≠ none)
    (hstep : c.pollMessageStep rest = some c') : Balance c' := by
  unfold LibfabricConnection.pollMessageStep at hstep
  obtain ⟨⟨r, d⟩, hpoll, rfl⟩ := Option.map_eq_some_iff.mp hstep
  have hp := polled_of_eq hpoll
  obtain ⟨hb, hs, ho⟩ := hp.books hno
  cases r with
  | none => exact h.move hb ho (congrArg (List.flatMap Frame.buffers) hs)
  | some entry =>
    rw [Option.toList_some, List.flatMap_singleton] at ho
    have hhead := hp.head
    cases entry with
    | recv id => exact h.moveStack hb ho hs (by rw [hstack]; rfl) (by rw [hstack]; rfl)
    | sent op =>
      dsimp only
      cases haction : op.postAction with
      | some action =>
        refine h.move (hb.trans ⟨rfl, rfl, rfl, rfl, rfl⟩) (outstanding_of_taken ho ?_) ?_
        · rw [hs, hstack]
          exact List.Perm.refl _
        · unfold posting
          rw [hstack]
          rfl
      | none => exact absurd haction (hsilent op hhead)

/-- The handler of an operation returns to the polling function. -/
theorem Balance.handled {stack : List Frame} (h : Balance c)
    {rest : List Frame} (hstack : c.stack = .runPostAction op :: rest)
    (hops : stack.flatMap Frame.operations = rest.flatMap Frame.operations)
    (hbuf : stack.flatMap Frame.buffers = rest.flatMap Frame.buffers) :
    Balance { c.settle op with stack := stack } := by
  refine h.settleStack ⟨rfl, rfl, rfl, rfl, rfl⟩ ?_ ?_ c.handed
  · refine List.perm_iff_count.mpr fun op' => ?_
    rw [List.count_cons, count_outstanding, count_outstanding, hstack, List.flatMap_cons,
      List.count_append]
    dsimp only
    rw [hops, show Frame.operations (.runPostAction op) = [op] from rfl, List.count_singleton]
    omega
  · rw [hstack]
    exact hbuf

theorem Balance.finishStep {unblock : Bool} (h : Balance c)
    (hstep : c.finishStep unblock = some c') : Balance c' := by
  unfold LibfabricConnection.finishStep at hstep
  split at hstep
  case h_1 id waitMsg rest hstack =>
    obtain rfl := Option.some.inj hstep
    cases unblock <;> cases waitMsg <;>
    · exact h.moveStack ⟨rfl, rfl, rfl, rfl, rfl⟩ (.refl _) rfl (by rw [hstack]; rfl)
        (by rw [hstack]; rfl)
  case h_2 op waitMsg rest hstack =>
    obtain rfl := Option.some.inj hstep
    cases unblock <;> cases waitMsg <;> exact h.handled hstack rfl rfl
  case h_3 id rest hstack =>
    obtain rfl := Option.some.inj hstep
    exact h.moveStack ⟨rfl, rfl, rfl, rfl, rfl⟩ (.refl _) rfl (by rw [hstack]; rfl)
      (by rw [hstack]; rfl)
  case h_4 op rest hstack =>
    obtain rfl := Option.some.inj hstep
    cases unblock <;> exact h.handled hstack rfl rfl
  case h_5 => exact absurd hstep (by simp)

-- ---------------------------------------------------------------------------
-- Posting, and the environment
-- ---------------------------------------------------------------------------

/-- libfabric accepts an operation: it is counted, and in flight. -/
theorem Balance.acceptStep (h : Balance c)
    (hroom : c.accepted.length + 1 < c.consumed.length + 2 ^ 31)
    (hstep : c.acceptStep = some c') : Balance c' := by
  unfold LibfabricConnection.acceptStep at hstep
  split at hstep
  case h_2 => exact absurd hstep (by simp)
  case h_1 action rest hstack =>
    obtain rfl := Option.some.inj hstep
    have hlen := h.operations.length_held
    have hnew : (outstanding { c with
        stack := rest
        pendingAction := int32 (c.pendingAction + 1)
        inFlight := c.inFlight ++ [⟨c.accepted.length, action⟩]
        accepted := c.accepted ++ [⟨c.accepted.length, action⟩] }).Perm
          (⟨c.accepted.length, action⟩ :: c.outstanding) := by
      refine List.perm_iff_count.mpr fun op => ?_
      rw [List.count_cons, count_outstanding, count_outstanding, hstack]
      dsimp only
      rw [List.count_append, List.flatMap_cons, List.count_append, List.count_singleton,
        show Frame.operations (.post action) = [] from rfl, List.count_nil]
      omega
    have hpending : int32 (c.pendingAction + 1) = (c.outstanding.length + 1 : Nat) := by
      rw [h.pending, int32_eq (by omega) (by omega)]
      omega
    refine ⟨h.operations.take hnew, ?_, ?_, ?_, h.returned⟩
    · rw [hnew.length_eq]
      exact hpending
    · rw [hnew.length_eq, List.length_cons]
      omega
    · have hposting : c.posting = Frame.buffers (.post action) ++ rest.flatMap Frame.buffers := by
        unfold posting
        rw [hstack]
        rfl
      have hmessages := h.messages
      rw [hposting] at hmessages
      show Custody c.taken ((c.accepted ++ [(⟨c.accepted.length, action⟩ : Operation)]).filterMap
        Operation.buffer) (rest.flatMap Frame.buffers)
      rw [List.filterMap_append]
      -- the message buffer goes from the call to the accepted operation
      rcases action with _ | ⟨_ | buffer⟩
      · rw [List.filterMap_cons_none rfl, List.filterMap_nil, List.append_nil]
        exact hmessages
      · rw [List.filterMap_cons_none rfl, List.filterMap_nil, List.append_nil]
        exact hmessages
      · exact hmessages.giveBack (List.Perm.refl _)

/-- An operation ends: it goes from libfabric to the queue. -/
theorem Balance.delivered {index : Nat} (h : Balance c) (hop : c.inFlight[index]? = some op)
    {entry : CqEntry} (hentry : entry.operations = [op]) :
    Balance ({ c with inFlight := c.inFlight.eraseIdx index }.deliver entry) := by
  refine h.move ⟨rfl, rfl, rfl, rfl, rfl⟩ (List.perm_iff_count.mpr fun op' => ?_) rfl
  obtain ⟨hlt, rfl⟩ := List.getElem?_eq_some_iff.mp hop
  have hcount := List.perm_iff_count.mp (List.getElem_cons_eraseIdx_perm hlt) op'
  rw [List.count_cons] at hcount
  rw [count_outstanding, count_outstanding]
  unfold deliver
  dsimp only
  rw [List.flatMap_append, List.count_append, List.flatMap_singleton, hentry, List.count_singleton]
  omega

/-- A posted receive ends. -/
theorem Balance.received (h : Balance c) {entry : CqEntry} (hentry : entry.operations = []) :
    Balance (c.deliver entry) := by
  refine h.move ⟨rfl, rfl, rfl, rfl, rfl⟩ ?_ rfl
  unfold outstanding deliver
  dsimp only
  rw [List.flatMap_append, List.flatMap_singleton, hentry, List.append_nil]

/-- A message buffer is taken for a message. -/
theorem Balance.getMsgBuffer (h : Balance c) :
    Balance (c.enter .sendMessage) := by
  have htaken : c.getMsgBuffer.2.taken = c.taken ++ [c.getMsgBuffer.1] := by
    unfold LibfabricConnection.getMsgBuffer
    cases c.msgBuffers <;> rfl
  obtain ⟨msgBuffers, allocated, taken, hget⟩ := c.getMsgBuffer_eq
  have htaken' : taken = c.taken ++ [c.getMsgBuffer.1] := by
    rw [← htaken, hget]
  unfold enter
  dsimp only
  rw [hget, htaken']
  exact ⟨h.operations, h.pending, h.room, h.messages.take (List.Perm.refl _), h.returned⟩

theorem Balance.enter (h : Balance c) (function : Call) : Balance (c.enter function) := by
  cases function with
  | sendMessage => exact h.getMsgBuffer
  | _ => exact h.move ⟨rfl, rfl, rfl, rfl, rfl⟩ (.refl _) rfl

-- ---------------------------------------------------------------------------
-- Runs
-- ---------------------------------------------------------------------------

/-- A step of the function on top of the stack. -/
theorem Balance.runStep (h : Balance c) (hg : c.countable .run = true)
    (hstep : c.runStep = some c') : Balance c' := by
  have hentry : ∀ op, c.nextEntry ≠ some (.error (some op)) := by
    intro op hop
    unfold countable at hg
    rw [hop] at hg
    exact absurd hg (by simp)
  unfold LibfabricConnection.runStep at hstep
  unfold nextEntry at hentry
  have hcache : (∀ op, c.waiting.head? ≠ some (.error (some op))) → c.ReadsNoError true := by
    intro hno hnil op hop
    have hnil' : c.cqEntries = [] := by simpa using hnil
    refine hno op ?_
    unfold waiting
    rw [hnil']
    exact hop
  split at hstep
  case h_1 rest hstack =>
    rw [hstack] at hentry
    exact h.drainStep hstack (fun _ => hentry) hstep
  case h_2 waitMsg rest hstack =>
    rw [hstack] at hentry
    exact h.pollStep hstack (hcache hentry) hstep
  case h_3 rest hstack =>
    rw [hstack] at hentry
    refine h.pollMessageStep hstack (hcache hentry) (fun op hop hnone => ?_) hstep
    unfold countable nextEntry at hg
    rw [hstack] at hg
    dsimp only at hg
    rw [hop] at hg
    dsimp only at hg
    rw [hnone] at hg
    exact absurd hg (by decide)
  case h_4 rest hstack =>
    split_ifs at hstep <;>
    · obtain rfl := Option.some.inj hstep
      exact h.moveStack ⟨rfl, rfl, rfl, rfl, rfl⟩ (.refl _) rfl (by rw [hstack]; rfl)
        (by rw [hstack]; rfl)
  case h_5 => exact absurd hstep (by simp)

/-- **Every step but those keeps the books.** -/
theorem balance_step (h : Balance c) (hg : c.countable e = true) (hstep : Step c e c') :
    Balance c' := by
  unfold Step next at hstep
  cases e with
  | receive id =>
    obtain rfl := Option.some.inj hstep
    exact h.received rfl
  | complete index =>
    obtain ⟨op, hop, rfl⟩ := Option.map_eq_some_iff.mp hstep
    exact h.delivered hop rfl
  | fail index =>
    obtain ⟨op, hop, rfl⟩ := Option.map_eq_some_iff.mp hstep
    exact h.delivered hop rfl
  | failReceive =>
    obtain rfl := Option.some.inj hstep
    exact h.received rfl
  | others msgBuffers =>
    obtain rfl := Option.some.inj hstep
    exact h.move ⟨rfl, rfl, rfl, rfl, rfl⟩ (.refl _) rfl
  | call function =>
    dsimp only at hstep
    split_ifs at hstep
    obtain rfl := Option.some.inj hstep
    exact h.enter function
  | accept => exact h.acceptStep (of_decide_eq_true hg) hstep
  | eagain =>
    dsimp only at hstep
    split at hstep
    case h_1 action rest hstack =>
      obtain rfl := Option.some.inj hstep
      exact h.move ⟨rfl, rfl, rfl, rfl, rfl⟩ (.refl _) rfl
    case h_2 => exact absurd hstep (by simp)
  | run => exact h.runStep hg hstep
  | finish unblock => exact h.finishStep hstep

theorem balance_new (passivePolling : Bool) : Balance (new passivePolling) :=
  ⟨.start, rfl, Nat.two_pow_pos 31, .start, rfl⟩

/-- **The counter counts**, in every state of every run that reads no error entry of an
operation, takes no completion of an operation without action in `pollMessage`, and has
fewer than `2 ^ 31` operations outstanding. -/
theorem pending_of_run {passivePolling : Bool}
    (hrun : Run Step (fun c e => c.countable e = true) (new passivePolling) c) : Counted c :=
  (hrun.invariant (balance_new passivePolling) balance_step).counted

/-- A message is sent while a receive is in the queue, and everything is handled. -/
theorem pending_of_send : ∃ c,
    Run Step (fun c e => c.countable e = true) (new false) c ∧
      (c.consumed.length = 1 ∧ c.returned = [0]) ∧ Counted c := by
  obtain ⟨c, hrun, hp⟩ := run_of_trace (fun c e => c.countable e = true)
    [.receive 0, .call .sendMessage, .eagain, .run, .run, .accept, .complete 0,
      .call (.poll true), .run, .finish false, .run, .finish true] (new false)
    (p := fun c => c.consumed.length = 1 ∧ c.returned = [0]) (by decide)
  exact ⟨c, hrun, hp, pending_of_run hrun⟩

/-- **A failed send is pending for ever**: its error entry is read, and neither the
counter nor the message buffer comes back. -/
theorem error_not_counted :
    ¬ ∀ (passivePolling : Bool) (c : LibfabricConnection),
      Run Step (fun _ _ => True) (new passivePolling) c → Counted c := by
  intro hall
  obtain ⟨c, hrun, hconsumed, haccepted, hpending⟩ := run_of_trace (fun _ _ => True)
    [.call .sendMessage, .accept, .fail 0, .call (.poll false), .run] (new false)
    (p := fun c => c.consumed.length = 1 ∧ c.accepted.length = 1 ∧ c.pendingAction = 1) (by decide)
  have hcount := (hall false c hrun).pending
  omega

end LibfabricConnection

end IoCatcher.Polling
