import IoCatcher.Model.Transfer
import IoCatcher.Network.Connection

/-!
# IO Catcher — the operations of an RDMA transfer

A read or a write whose data does not travel in the message is moved by RDMA:
`HookObjectRead::objRdmaPushToClient` and `HookObjectWrite::objRdmaFetchFromClient`
build one vector per segment and post them by groups of `IOC_LF_MAX_RDMA_SEGS`. The
groups of one transfer share a counter on the heap. The callback of each completion
decrements it, and the one that brings it to zero updates the statistics, sends the
acknowledgement and frees the counter.

The functions post all their groups before any callback runs: a full queue makes
`rdmaReadv` and `rdmaWritev` call `pollAllCqInCache`, which keeps the completions for
the next `poll` and runs nothing. From then on the completions come in any order, and
other transfers and other requests come between them.

* `transfer_acknowledged` — what a transfer posts, and what its callbacks do in every
  run, when no transfer counts past the `int`;
* `acknowledged_too_early` — one that does is acknowledged by its first completion.
-/

namespace IoCatcher.Network

open IoCatcher.Wire (Iov LibfabricObjReadWriteInfos)

-- ---------------------------------------------------------------------------
-- State
-- ---------------------------------------------------------------------------

/-- The hook a transfer belongs to: it says which counter of the statistics its
bytes go to. -/
inductive RdmaHook where
  /-- `HookObjectRead`. -/
  | read
  /-- `HookObjectWrite`. -/
  | write
  deriving DecidableEq

/-- What the lambda given to `rdmaReadv` or `rdmaWritev` captures. -/
structure PostAction where
  hook     : RdmaHook
  /-- The address of the counter. -/
  ops      : Nat
  size     : UInt64
  clientId : UInt64
  deriving DecidableEq

/-- An operation given to `fi_readv` or `fi_writev`. -/
structure VectorOp where
  iov        : List Iovec
  remoteAddr : UInt64
  remoteKey  : UInt64
  postAction : PostAction
  deriving DecidableEq

/-- The bytes an operation moves: the local address of each and its address on the
client. -/
def VectorOp.pairs (op : VectorOp) : List (Ptr × UInt64) :=
  (iovAddresses op.iov).mapIdx fun j p => (p, op.remoteAddr + UInt64.ofNat j)

/-- `ServerStats`. -/
structure ServerStats where
  readSize  : UInt64
  writeSize : UInt64
  deriving DecidableEq

/-- What can be seen of a hook or of a callback. -/
inductive Effect where
  /-- `stats->readSize += size`, or `writeSize` for a write. -/
  | stats (hook : RdmaHook) (size : UInt64)
  /-- `Server::startStatsThread` sets both to zero, once a second. -/
  | statsReset
  /-- `LibfabricConnection::sendResponse`. -/
  | response (msgType : LibfabricMessageType) (clientId : UInt64) (status : Int32)
  deriving DecidableEq

/-- The statistics after an effect. -/
def ServerStats.apply (stats : ServerStats) : Effect → ServerStats
  | .stats .read size => { stats with readSize := stats.readSize + size }
  | .stats .write size => { stats with writeSize := stats.writeSize + size }
  | .statsReset => ⟨0, 0⟩
  | .response .. => stats

/-- What the last callback of a transfer does. -/
def PostAction.effects (action : PostAction) : List Effect :=
  [.stats action.hook action.size, .response .objReadWriteAck action.clientId 0]

/-- The transfers of a server. -/
structure Rdma where
  /-- The counters on the heap. -/
  cells    : Nat → Option Int32
  /-- Where the next one is allocated. -/
  nextCell : Nat
  /-- The operations posted and not completed. -/
  inFlight : List VectorOp
  stats    : ServerStats
  /-- Everything that was done, and for which counter if a callback did it. -/
  history  : List (Option Nat × Effect)

def Rdma.initial : Rdma := ⟨fun _ => none, 0, [], ⟨0, 0⟩, []⟩

/-- What can happen. -/
inductive RdmaEvent where
  /-- A hook starts a transfer. -/
  | transfer (hook : RdmaHook) (clientId : UInt64) (objReadWrite : LibfabricObjReadWriteInfos)
      (segments : List ObjectSegmentDescr)
  /-- An operation in flight completes and `poll` runs its callback. -/
  | completion (index : Nat)
  /-- Anything else the server does. -/
  | other (effect : Effect)

inductive RdmaFault where
  /-- There is no such operation. -/
  | notPosted
  /-- The counter of the operation was deleted. -/
  | useAfterFree
  deriving DecidableEq

-- ---------------------------------------------------------------------------
-- Steps
-- ---------------------------------------------------------------------------

/-- The loop that counts the groups of `n` vectors, into an `int`. -/
def countOps (n i : Nat) (ops : Int32) : Int32 :=
  if i < n then countOps n (i + maxRdmaSegs) (ops + 1) else ops
termination_by n - i
decreasing_by
  unfold maxRdmaSegs
  omega

/-- The loop that posts the groups. -/
def postOps (iov : List Iovec) (remote : Iov) (postAction : PostAction) (i : Nat)
    (offset : UInt64) : List VectorOp :=
  if i < iov.length then
    let cnt := if iov.length - i > maxRdmaSegs then maxRdmaSegs else iov.length - i
    let group := (iov.drop i).take cnt
    ⟨group, remote.addr + offset, remote.key, postAction⟩ ::
      postOps iov remote postAction (i + maxRdmaSegs)
        (group.foldl (fun offset v => offset + UInt64.ofNat v.iovLen) offset)
  else []
termination_by iov.length - i
decreasing_by
  unfold maxRdmaSegs
  omega

namespace Rdma

/-- Do something visible. -/
def emit (s : Rdma) (ops : Option Nat) (effect : Effect) : Rdma :=
  { s with stats := s.stats.apply effect, history := s.history ++ [(ops, effect)] }

/-- The body `objRdmaPushToClient` and `objRdmaFetchFromClient` share. -/
def postTransfer (hook : RdmaHook) (s : Rdma) (clientId : UInt64)
    (objReadWrite : LibfabricObjReadWriteInfos) (segments : List ObjectSegmentDescr) : Rdma :=
  let iov := buildIovec segments objReadWrite.offset.toNat objReadWrite.size.toNat
  let postAction : PostAction := ⟨hook, s.nextCell, objReadWrite.size, clientId⟩
  { s with
    cells    := fun t => if t = s.nextCell then some (countOps iov.length 0 0) else s.cells t
    nextCell := s.nextCell + 1
    inFlight := s.inFlight ++ postOps iov objReadWrite.iov postAction 0 0 }

/-- `HookObjectRead::objRdmaPushToClient`. -/
def objRdmaPushToClient : Rdma → UInt64 → LibfabricObjReadWriteInfos →
    List ObjectSegmentDescr → Rdma :=
  postTransfer .read

/-- `HookObjectWrite::objRdmaFetchFromClient`. -/
def objRdmaFetchFromClient : Rdma → UInt64 → LibfabricObjReadWriteInfos →
    List ObjectSegmentDescr → Rdma :=
  postTransfer .write

/-- The lambda of the two functions. -/
def runPostAction (s : Rdma) (action : PostAction) : Except RdmaFault Rdma :=
  match s.cells action.ops with
  | none => .error .useAfterFree
  | some ops =>
    if ops - 1 = 0 then
      let s := s.emit (some action.ops) (.stats action.hook action.size)
      let s := s.emit (some action.ops) (.response .objReadWriteAck action.clientId 0)
      .ok { s with cells := fun t => if t = action.ops then none else s.cells t }
    else
      .ok { s with cells := fun t => if t = action.ops then some (ops - 1) else s.cells t }

/-- One event. -/
def exec (s : Rdma) : RdmaEvent → Except RdmaFault Rdma
  | .transfer .read clientId objReadWrite segments =>
    .ok (s.objRdmaPushToClient clientId objReadWrite segments)
  | .transfer .write clientId objReadWrite segments =>
    .ok (s.objRdmaFetchFromClient clientId objReadWrite segments)
  | .completion index =>
    match s.inFlight[index]? with
    | none => .error .notPosted
    | some op =>
      runPostAction { s with inFlight := s.inFlight.eraseIdx index } op.postAction
  | .other effect => .ok (s.emit none effect)

/-- A step of a run: an event that returns. -/
def Step (s : Rdma) (e : RdmaEvent) (s' : Rdma) : Prop := s.exec e = .ok s'

end Rdma

-- ---------------------------------------------------------------------------
-- What is posted
-- ---------------------------------------------------------------------------

/-- The operations move the bytes of the vectors, each byte once. -/
structure Splits (iov : List Iovec) (remote : Iov) (ops : List VectorOp) : Prop where
  /-- One for every four vectors or part of four. -/
  count       : ops.length = (iov.length + 3) / 4
  sizes       : ∀ op ∈ ops, 1 ≤ op.iov.length ∧ op.iov.length ≤ 4
  consecutive : ops.flatMap VectorOp.iov = iov
  key         : ∀ op ∈ ops, op.remoteKey = remote.key
  /-- Byte `k` of the concatenation goes with the address `remote.addr + k`. -/
  bytes       : ops.flatMap VectorOp.pairs =
    (iovAddresses iov).mapIdx fun k p => (p, remote.addr + UInt64.ofNat k)

/-- The number of groups `postOps` makes of the vectors from `i` on. -/
def groupsFrom (n i : Nat) : Nat := (n - i + 3) / 4

theorem countOps_eq (n i : Nat) (ops : Int32) :
    countOps n i ops = ops + Int32.ofNat (groupsFrom n i) := by
  fun_induction countOps n i ops with
  | case1 i ops hlt ih =>
    have hstep : groupsFrom n i = groupsFrom n (i + maxRdmaSegs) + 1 := by
      unfold groupsFrom maxRdmaSegs
      omega
    rw [ih, hstep, Int32.ofNat_add, Int32.add_assoc, Int32.add_comm 1]
    rfl
  | case2 i ops hge =>
    have hnone : groupsFrom n i = 0 := by
      unfold groupsFrom
      omega
    rw [hnone]
    exact (Int32.add_zero ops).symm

/-- The `offset` after a group. -/
theorem foldl_iovLen (group : List Iovec) (offset : UInt64) :
    group.foldl (fun offset v => offset + UInt64.ofNat v.iovLen) offset =
      offset + UInt64.ofNat (iovAddresses group).length := by
  rw [length_iovAddresses]
  induction group generalizing offset with
  | nil => simp
  | cons v rest ih =>
    rw [List.foldl_cons, ih, List.map_cons, List.sum_cons, UInt64.ofNat_add, UInt64.add_assoc]

/-- The posted operations, from the vector `i` on. -/
theorem splits_postOps (iov : List Iovec) (remote : Iov) (postAction : PostAction) (i : Nat)
    (offset : UInt64) :
    Splits (iov.drop i) ⟨remote.addr + offset, remote.key⟩
      (postOps iov remote postAction i offset) := by
  fun_induction postOps iov remote postAction i offset with
  | case1 i offset hlt cnt group ih =>
    have hcnt : cnt = min maxRdmaSegs (iov.drop i).length := by
      unfold cnt
      rw [List.length_drop]
      split_ifs <;> omega
    have hgroup : group = (iov.drop i).take maxRdmaSegs := by
      unfold group
      rw [hcnt]
      exact List.take_eq_take_min.symm
    have hrest : iov.drop i = group ++ iov.drop (i + maxRdmaSegs) := by
      rw [hgroup, ← List.drop_drop, List.take_append_drop]
    have hlen : group.length = min 4 (iov.length - i) := by
      rw [hgroup, List.length_take, List.length_drop]
      rfl
    refine ⟨?_, ?_, ?_, ?_, ?_⟩
    · rw [List.length_cons, ih.count, List.length_drop, List.length_drop]
      unfold maxRdmaSegs
      omega
    · intro op hop
      cases hop with
      | head =>
        show 1 ≤ group.length ∧ group.length ≤ 4
        omega
      | tail _ hop => exact ih.sizes op hop
    · rw [List.flatMap_cons, ih.consecutive, hrest]
    · intro op hop
      cases hop with
      | head => rfl
      | tail _ hop => exact ih.key op hop
    · have happ : iovAddresses (iov.drop i) =
          iovAddresses group ++ iovAddresses (iov.drop (i + maxRdmaSegs)) := by
        rw [hrest]
        exact List.flatMap_append
      rw [List.flatMap_cons, ih.bytes, happ, List.mapIdx_append, foldl_iovLen]
      -- the second part starts where the first one ends
      refine congrArg₂ _ rfl (congrArg₂ _ (funext fun k => funext fun p => ?_) rfl)
      rw [UInt64.ofNat_add, UInt64.add_comm (UInt64.ofNat k), ← UInt64.add_assoc,
        ← UInt64.add_assoc, UInt64.add_assoc remote.addr]
  | case2 i offset hge =>
    have hnil : iov.drop i = [] := List.drop_eq_nil_of_le (by omega)
    rw [hnil]
    exact ⟨rfl, fun _ h => absurd h List.not_mem_nil, rfl, fun _ h => absurd h List.not_mem_nil,
      rfl⟩

theorem postAction_postOps {iov : List Iovec} {remote : Iov} {postAction : PostAction} {i : Nat}
    {offset : UInt64} : ∀ op ∈ postOps iov remote postAction i offset,
      op.postAction = postAction := by
  fun_induction postOps iov remote postAction i offset with
  | case1 i offset hlt cnt group ih =>
    intro op hop
    cases hop with
    | head => rfl
    | tail _ hop => exact ih op hop
  | case2 => exact fun _ h => absurd h List.not_mem_nil

/-- No operation of a transfer belongs to another counter. -/
theorem filter_postOps {iov : List Iovec} {remote : Iov} {postAction : PostAction} {i t : Nat}
    {offset : UInt64} (ht : postAction.ops ≠ t) :
    (postOps iov remote postAction i offset).filter
      (fun op => decide (op.postAction.ops = t)) = [] := by
  refine List.filter_eq_nil_iff.mpr fun op hop hops => ?_
  rw [postAction_postOps op hop] at hops
  exact ht (of_decide_eq_true hops)

theorem ofNat_foldl_add (lens : List Nat) (a : Nat) :
    UInt64.ofNat (lens.foldl SizeT.add a) = UInt64.ofNat a + UInt64.ofNat lens.sum := by
  induction lens generalizing a with
  | nil => simp
  | cons n rest ih =>
    rw [List.foldl_cons, ih, List.sum_cons, UInt64.ofNat_add, ← UInt64.add_assoc]
    unfold SizeT.add
    rw [UInt64.ofNat_mod_size, UInt64.ofNat_add]

theorem addr_rdmaGroup_succ (iov : List Iovec) (n : Nat) :
    UInt64.ofNat (rdmaGroup iov (n + 1)).addr =
      UInt64.ofNat (rdmaGroup iov n).addr +
        UInt64.ofNat (iovAddresses (rdmaGroup iov n).iov).length := by
  unfold rdmaGroup
  dsimp only
  rw [Nat.add_mul, Nat.one_mul, List.take_add, List.map_append, List.foldl_append,
    ofNat_foldl_add, length_iovAddresses]

/-- The loop posts the groups that `rdmaGroups` lists. -/
theorem postOps_rdmaGroups (iov : List Iovec) (remote : Iov) (postAction : PostAction) :
    postOps iov remote postAction 0 0 = (rdmaGroups iov).map fun g =>
      ⟨g.iov, remote.addr + UInt64.ofNat g.addr, remote.key, postAction⟩ := by
  have hloop : ∀ (k n : Nat), groupsFrom iov.length (n * maxRdmaSegs) = k →
      postOps iov remote postAction (n * maxRdmaSegs) (UInt64.ofNat (rdmaGroup iov n).addr) =
        (List.range' n k).map fun n => ⟨(rdmaGroup iov n).iov,
          remote.addr + UInt64.ofNat (rdmaGroup iov n).addr, remote.key, postAction⟩ := by
    -- on the number of groups left
    intro k
    induction k with
    | zero =>
      intro n hk
      have hge : ¬ n * maxRdmaSegs < iov.length := by
        unfold groupsFrom at hk
        omega
      rw [postOps, if_neg hge]
      rfl
    | succ k ih =>
      intro n hk
      have hlt : n * maxRdmaSegs < iov.length := by
        unfold groupsFrom at hk
        omega
      have hgroup : (iov.drop (n * maxRdmaSegs)).take
          (if iov.length - n * maxRdmaSegs > maxRdmaSegs then maxRdmaSegs
            else iov.length - n * maxRdmaSegs) = (rdmaGroup iov n).iov := by
        by_cases hfull : iov.length - n * maxRdmaSegs > maxRdmaSegs
        · rw [if_pos hfull]
          rfl
        · rw [if_neg hfull, ← List.length_drop, List.take_length]
          exact (List.take_of_length_le (by rw [List.length_drop]; omega)).symm
      have hnext : groupsFrom iov.length ((n + 1) * maxRdmaSegs) = k := by
        unfold groupsFrom maxRdmaSegs at *
        omega
      rw [postOps, if_pos hlt]
      dsimp only
      rw [hgroup, foldl_iovLen, ← addr_rdmaGroup_succ, List.range'_succ, List.map_cons,
        ← ih (n + 1) hnext, Nat.add_mul, Nat.one_mul]
  have h := hloop _ 0 rfl
  rw [Nat.zero_mul] at h
  unfold rdmaGroups
  rw [List.map_map, List.range_eq_range']
  exact h

-- ---------------------------------------------------------------------------
-- The counters
-- ---------------------------------------------------------------------------

namespace Rdma

/-- How many operations that share the counter `t` are in flight. -/
def pending (s : Rdma) (t : Nat) : Nat :=
  s.inFlight.countP fun op => decide (op.postAction.ops = t)

/-- What the callbacks that share the counter `t` did. -/
def effects (s : Rdma) (t : Nat) : List Effect :=
  s.history.filterMap fun e => if e.1 = some t then some e.2 else none

/-- The transfers whose groups an `int` can count: at most `2 ^ 32` groups. -/
def Countable (_ : Rdma) : RdmaEvent → Prop
  | .transfer _ _ _ segments => segments.length ≤ 2 ^ 34
  | _ => True

/-- The counters on the heap are right, and a new one is new. -/
structure Counted (s : Rdma) : Prop where
  counter : ∀ t : Nat, 0 < s.pending t →
    s.cells t = some (Int32.ofNat (s.pending t)) ∧ s.pending t ≤ 2 ^ 32
  fresh   : ∀ op ∈ s.inFlight, op.postAction.ops < s.nextCell
  tagged  : ∀ e ∈ s.history, ∀ t : Nat, e.1 = some t → t < s.nextCell
  stats   : s.stats = (s.history.map Prod.snd).foldl ServerStats.apply ⟨0, 0⟩

theorem counted_initial : initial.Counted where
  counter := fun _ h => absurd h (Nat.lt_irrefl 0)
  fresh   := fun _ h => absurd h List.not_mem_nil
  tagged  := fun _ h => absurd h List.not_mem_nil
  stats   := rfl

theorem Counted.pending_fresh {s : Rdma} (h : s.Counted) : s.pending s.nextCell = 0 := by
  refine List.countP_eq_zero.mpr fun op hop hops => ?_
  have := h.fresh op hop
  have := of_decide_eq_true hops
  omega

theorem Counted.effects_fresh {s : Rdma} (h : s.Counted) : s.effects s.nextCell = [] := by
  refine List.filterMap_eq_nil_iff.mpr fun e he => ?_
  by_cases ht : e.1 = some s.nextCell
  · exact absurd (h.tagged e he _ ht) (Nat.lt_irrefl _)
  · rw [if_neg ht]

/-- The value after one more decrement. -/
theorem ofNat_sub_one {r : Nat} (hr : 0 < r) : Int32.ofNat r - 1 = Int32.ofNat (r - 1) := by
  obtain ⟨k, rfl⟩ := Nat.exists_eq_add_of_lt hr
  rw [← Int32.toBitVec_inj]
  simp

theorem ofNat_eq_zero_iff (r : Nat) : Int32.ofNat r = 0 ↔ r % 2 ^ 32 = 0 := by
  rw [← Int32.toBitVec_inj]
  simp
  bv_omega

/-- What a completion leaves in flight. -/
theorem pending_eraseIdx {s : Rdma} {index : Nat} {op : VectorOp}
    (hop : s.inFlight[index]? = some op) (t : Nat) :
    s.pending t = (s.inFlight.eraseIdx index).countP (fun op => decide (op.postAction.ops = t)) +
      if op.postAction.ops = t then 1 else 0 := by
  obtain ⟨hlt, rfl⟩ := List.getElem?_eq_some_iff.mp hop
  have hperm := List.getElem_cons_eraseIdx_perm hlt
  unfold pending
  rw [← hperm.countP_eq, List.countP_cons]
  simp

/-- What the callback of a completion does: nothing, unless it is the last one. -/
def lastEffects (s : Rdma) (op : VectorOp) : List Effect :=
  if s.pending op.postAction.ops = 1 then op.postAction.effects else []

/-- What a completion does, when the counters are right. -/
structure Completed (s : Rdma) (index : Nat) (op : VectorOp) (s' : Rdma) : Prop where
  inFlight : s'.inFlight = s.inFlight.eraseIdx index
  nextCell : s'.nextCell = s.nextCell
  cells    : ∀ t : Nat, t ≠ op.postAction.ops → s'.cells t = s.cells t
  counter  : s.pending op.postAction.ops ≠ 1 →
    s'.cells op.postAction.ops = some (Int32.ofNat (s.pending op.postAction.ops - 1))
  history  : s'.history = s.history ++ (s.lastEffects op).map fun e => (some op.postAction.ops, e)
  stats    : s'.stats = (s.lastEffects op).foldl ServerStats.apply s.stats

theorem exec_completion_eq {s : Rdma} {index : Nat} {op : VectorOp}
    (hop : s.inFlight[index]? = some op) : s.exec (.completion index) =
      runPostAction { s with inFlight := s.inFlight.eraseIdx index } op.postAction := by
  simp only [exec, hop]

theorem exec_completion {s : Rdma} (h : s.Counted) {index : Nat} {op : VectorOp}
    (hop : s.inFlight[index]? = some op) :
    ∃ s', s.exec (.completion index) = .ok s' ∧ Completed s index op s' := by
  have hpos : 0 < s.pending op.postAction.ops := by
    have := pending_eraseIdx hop op.postAction.ops
    rw [if_pos rfl] at this
    omega
  obtain ⟨hcell, hle⟩ := h.counter _ hpos
  -- the counter reaches zero exactly when this was the last one
  have hzero : Int32.ofNat (s.pending op.postAction.ops) - 1 = 0 ↔
      s.pending op.postAction.ops = 1 := by
    rw [ofNat_sub_one hpos, ofNat_eq_zero_iff]
    omega
  rw [exec_completion_eq hop]
  unfold runPostAction
  dsimp only
  rw [hcell]
  dsimp only
  by_cases hlast : s.pending op.postAction.ops = 1
  · rw [if_pos (hzero.mpr hlast)]
    refine ⟨_, rfl, rfl, rfl, fun t ht => if_neg ht, fun hne => absurd hlast hne, ?_, ?_⟩
    · unfold lastEffects
      rw [if_pos hlast]
      exact List.append_assoc ..
    · unfold lastEffects
      rw [if_pos hlast]
      rfl
  · rw [if_neg (mt hzero.mp hlast)]
    refine ⟨_, rfl, rfl, rfl, fun t ht => if_neg ht, fun _ => ?_, ?_, ?_⟩
    · dsimp only
      rw [if_pos rfl, ofNat_sub_one hpos]
    · unfold lastEffects
      rw [if_neg hlast]
      exact (List.append_nil _).symm
    · unfold lastEffects
      rw [if_neg hlast]
      rfl

/-- The callback that finds 1 in the counter. -/
theorem runPostAction_last {s : Rdma} {action : PostAction} (hcell : s.cells action.ops = some 1) :
    s.runPostAction action = .ok { s with
      cells   := fun t => if t = action.ops then none else s.cells t
      stats   := action.effects.foldl ServerStats.apply s.stats
      history := s.history ++ action.effects.map fun e => (some action.ops, e) } := by
  unfold runPostAction
  rw [hcell]
  dsimp only
  rw [if_pos (by decide)]
  unfold emit
  dsimp only
  rw [List.append_assoc]
  rfl

theorem Completed.pending {s s' : Rdma} {index : Nat} {op : VectorOp}
    (hc : Completed s index op s') (hop : s.inFlight[index]? = some op) (t : Nat) :
    s.pending t = s'.pending t + if op.postAction.ops = t then 1 else 0 := by
  rw [pending_eraseIdx hop, ← hc.inFlight]
  rfl

theorem Completed.mem {s s' : Rdma} {index : Nat} {op : VectorOp}
    (hc : Completed s index op s') {op' : VectorOp} (hmem : op' ∈ s'.inFlight) :
    op' ∈ s.inFlight := by
  rw [hc.inFlight] at hmem
  exact List.mem_of_mem_eraseIdx hmem

-- ---------------------------------------------------------------------------
-- Steps keep the counters right
-- ---------------------------------------------------------------------------

theorem Counted.completion {s s' : Rdma} (h : s.Counted) {index : Nat} {op : VectorOp}
    (hop : s.inFlight[index]? = some op) (hc : Completed s index op s') : s'.Counted := by
  refine ⟨fun t hpos => ?_, fun op' hmem => ?_, fun e he t ht => ?_, ?_⟩
  · have hpending := hc.pending hop t
    obtain ⟨hcell, hle⟩ := h.counter t (by omega)
    by_cases ht : op.postAction.ops = t
    · subst ht
      rw [if_pos rfl] at hpending
      refine ⟨?_, by omega⟩
      rw [hc.counter (by omega)]
      congr 2
      omega
    · rw [if_neg ht, Nat.add_zero] at hpending
      rw [hc.cells t (Ne.symm ht), hcell, hpending]
      exact ⟨rfl, by omega⟩
  · rw [hc.nextCell]
    exact h.fresh op' (hc.mem hmem)
  · rw [hc.nextCell]
    rw [hc.history] at he
    rcases List.mem_append.mp he with he | he
    · exact h.tagged e he t ht
    · obtain ⟨effect, -, rfl⟩ := List.mem_map.mp he
      obtain rfl := Option.some.inj ht
      exact h.fresh op (List.mem_of_getElem? hop)
  · rw [hc.stats, hc.history, List.map_append, List.foldl_append, ← h.stats, List.map_map]
    exact congrArg _ (List.map_id _).symm

/-- A transfer of at most `2 ^ 34` vectors starts with the right counter. -/
theorem pending_postTransfer {s : Rdma} (h : s.Counted) (hook : RdmaHook) (clientId : UInt64)
    (objReadWrite : LibfabricObjReadWriteInfos) (segments : List ObjectSegmentDescr) (t : Nat) :
    (s.postTransfer hook clientId objReadWrite segments).pending t =
      if t = s.nextCell then groupsFrom segments.length 0 else s.pending t := by
  have hsplit := splits_postOps
    (buildIovec segments objReadWrite.offset.toNat objReadWrite.size.toNat) objReadWrite.iov
    ⟨hook, s.nextCell, objReadWrite.size, clientId⟩ 0 0
  have hlen := hsplit.count
  rw [List.drop_zero, buildIovec, List.length_map] at hlen
  show List.countP _ (s.inFlight ++ _) = _
  rw [List.countP_append]
  by_cases ht : t = s.nextCell
  · rw [if_pos ht, ht]
    have hall : List.countP (fun op => decide (op.postAction.ops = s.nextCell)) (postOps
        (buildIovec segments objReadWrite.offset.toNat objReadWrite.size.toNat) objReadWrite.iov
        ⟨hook, s.nextCell, objReadWrite.size, clientId⟩ 0 0) = groupsFrom segments.length 0 := by
      rw [List.countP_eq_length.mpr, buildIovec, hlen]
      · rfl
      · intro op hop
        rw [postAction_postOps op hop]
        exact decide_eq_true rfl
    rw [hall]
    exact (congrArg (· + _) h.pending_fresh).trans (Nat.zero_add _)
  · rw [if_neg ht]
    rw [List.countP_eq_zero.mpr (List.filter_eq_nil_iff.mp (filter_postOps (Ne.symm ht)))]
    rfl

/-- The counter a transfer starts with. -/
theorem cells_postTransfer (s : Rdma) (hook : RdmaHook) (clientId : UInt64)
    (objReadWrite : LibfabricObjReadWriteInfos) (segments : List ObjectSegmentDescr) (t : Nat) :
    (s.postTransfer hook clientId objReadWrite segments).cells t =
      if t = s.nextCell then some (Int32.ofNat (groupsFrom segments.length 0)) else s.cells t := by
  unfold postTransfer
  dsimp only
  rw [countOps_eq, buildIovec, List.length_map, Int32.zero_add]

theorem Counted.postTransfer {s : Rdma} (h : s.Counted) (hook : RdmaHook) (clientId : UInt64)
    (objReadWrite : LibfabricObjReadWriteInfos) {segments : List ObjectSegmentDescr}
    (hlen : segments.length ≤ 2 ^ 34) :
    (s.postTransfer hook clientId objReadWrite segments).Counted := by
  refine ⟨fun t hpos => ?_, fun op hmem => ?_, fun e he t ht => ?_, h.stats⟩
  · rw [pending_postTransfer h] at hpos ⊢
    rw [cells_postTransfer]
    by_cases ht : t = s.nextCell
    · rw [if_pos ht, if_pos ht]
      refine ⟨rfl, ?_⟩
      unfold groupsFrom
      omega
    · rw [if_neg ht] at hpos ⊢
      rw [if_neg ht]
      exact h.counter t hpos
  · rcases List.mem_append.mp hmem with hmem | hmem
    · exact Nat.lt_succ_of_lt (h.fresh op hmem)
    · rw [postAction_postOps op hmem]
      exact Nat.lt_succ_self _
  · exact Nat.lt_succ_of_lt (h.tagged e he t ht)

theorem Counted.emit {s : Rdma} (h : s.Counted) (effect : Effect) :
    (s.emit none effect).Counted := by
  refine ⟨h.counter, h.fresh, fun e he t ht => ?_, ?_⟩
  · rcases List.mem_append.mp he with he | he
    · exact h.tagged e he t ht
    · obtain rfl := List.mem_singleton.mp he
      cases ht
  · unfold Rdma.emit
    dsimp only
    rw [List.map_append, List.foldl_append, ← h.stats]
    rfl

theorem exec_transfer (s : Rdma) (hook : RdmaHook) (clientId : UInt64)
    (objReadWrite : LibfabricObjReadWriteInfos) (segments : List ObjectSegmentDescr) :
    s.exec (.transfer hook clientId objReadWrite segments) =
      .ok (s.postTransfer hook clientId objReadWrite segments) := by
  cases hook <;> rfl

/-- What an event that returns can be. -/
theorem exec_cases {s s' : Rdma} (h : s.Counted) {e : RdmaEvent} (hexec : s.exec e = .ok s') :
    (∃ hook clientId objReadWrite segments,
      e = .transfer hook clientId objReadWrite segments ∧
      s' = s.postTransfer hook clientId objReadWrite segments) ∨
    (∃ index op, s.inFlight[index]? = some op ∧ Completed s index op s') ∨
    (∃ effect, s' = s.emit none effect) := by
  cases e with
  | transfer hook clientId objReadWrite segments =>
    rw [exec_transfer] at hexec
    exact .inl ⟨_, _, _, _, rfl, (Except.ok.inj hexec).symm⟩
  | completion index =>
    cases hop : s.inFlight[index]? with
    | none =>
      simp only [exec, hop] at hexec
      cases hexec
    | some op =>
      obtain ⟨t, ht, hc⟩ := exec_completion h hop
      obtain rfl := Except.ok.inj (ht.symm.trans hexec)
      exact .inr (.inl ⟨index, op, hop, hc⟩)
  | other effect => exact .inr (.inr ⟨effect, (Except.ok.inj hexec).symm⟩)

theorem Counted.step {s s' : Rdma} (h : s.Counted) {e : RdmaEvent} (hguard : Countable s e)
    (hexec : s.exec e = .ok s') : s'.Counted := by
  obtain ⟨hook, clientId, objReadWrite, segments, rfl, rfl⟩ | ⟨index, op, hop, hc⟩ |
    ⟨effect, rfl⟩ := exec_cases h hexec
  · exact h.postTransfer hook clientId objReadWrite hguard
  · exact h.completion hop hc
  · exact h.emit effect

-- ---------------------------------------------------------------------------
-- One transfer
-- ---------------------------------------------------------------------------

/-- The transfer of the counter `action.ops`, that posted `ops`: what is in flight of
it, and what its callbacks did so far. -/
structure Followed (action : PostAction) (ops : List VectorOp) (s : Rdma) : Prop where
  counted : s.Counted
  known   : action.ops < s.nextCell
  left    : (s.inFlight.filter fun op => decide (op.postAction.ops = action.ops)).Sublist ops
  done    : s.effects action.ops = if s.pending action.ops = 0 then action.effects else []

theorem effects_append (s : Rdma) (t : Nat) (l : List (Option Nat × Effect)) :
    ({ s with history := s.history ++ l } : Rdma).effects t =
      s.effects t ++ l.filterMap fun e => if e.1 = some t then some e.2 else none :=
  List.filterMap_append

/-- The effects of a callback are those of its own counter. -/
theorem Completed.effects {s s' : Rdma} {index : Nat} {op : VectorOp}
    (hc : Completed s index op s') (t : Nat) :
    s'.effects t = s.effects t ++ if op.postAction.ops = t then s.lastEffects op else [] := by
  unfold Rdma.effects
  rw [hc.history, List.filterMap_append, List.filterMap_map]
  congr 1
  by_cases ht : op.postAction.ops = t
  · rw [if_pos ht, ht]
    simp
  · rw [if_neg ht]
    refine List.filterMap_eq_nil_iff.mpr fun e _ => if_neg ?_
    exact fun heq => ht (Option.some.inj heq)

theorem Followed.step {action : PostAction} {ops : List VectorOp} {s s' : Rdma}
    (hops : ∀ op ∈ ops, op.postAction = action)
    (h : Followed action ops s) {e : RdmaEvent} (hguard : Countable s e)
    (hexec : s.exec e = .ok s') : Followed action ops s' := by
  have hcounted := h.counted.step hguard hexec
  obtain ⟨hook, clientId, objReadWrite, segments, rfl, rfl⟩ | ⟨index, op, hop, hc⟩ |
    ⟨effect, rfl⟩ := exec_cases h.counted hexec
  · have hne : action.ops ≠ s.nextCell := Nat.ne_of_lt h.known
    refine ⟨hcounted, Nat.lt_succ_of_lt h.known, ?_, ?_⟩
    · show (List.filter _ (s.inFlight ++ _)).Sublist ops
      rw [List.filter_append, filter_postOps hne.symm, List.append_nil]
      exact h.left
    · rw [pending_postTransfer h.counted, if_neg hne]
      exact h.done
  · have hpending := hc.pending hop action.ops
    refine ⟨hcounted, hc.nextCell ▸ h.known, ?_, ?_⟩
    · rw [hc.inFlight]
      exact ((List.eraseIdx_sublist _ _).filter _).trans h.left
    · rw [hc.effects, h.done]
      by_cases ht : op.postAction.ops = action.ops
      · -- an operation of this transfer, with its callback
        have hmem : op ∈ s.inFlight.filter fun op => decide (op.postAction.ops = action.ops) :=
          List.mem_filter.mpr ⟨List.mem_of_getElem? hop, decide_eq_true ht⟩
        have haction := hops op (h.left.subset hmem)
        rw [if_pos ht] at hpending ⊢
        rw [if_neg (by omega), List.nil_append]
        unfold lastEffects
        rw [haction]
        by_cases hlast : s.pending action.ops = 1
        · rw [if_pos hlast, if_pos (by omega)]
        · rw [if_neg hlast, if_neg (by omega)]
      · rw [if_neg ht, Nat.add_zero] at hpending
        rw [if_neg ht, List.append_nil, hpending]
  · refine ⟨hcounted, h.known, h.left, ?_⟩
    have heffects : (s.emit none effect).effects action.ops = s.effects action.ops :=
      (effects_append s _ _).trans (List.append_nil _)
    rw [heffects]
    exact h.done

/-- A transfer when it has just been posted. -/
theorem Followed.start {s : Rdma} (h : s.Counted) (hook : RdmaHook) (clientId : UInt64)
    (objReadWrite : LibfabricObjReadWriteInfos) {segments : List ObjectSegmentDescr}
    (hne : segments ≠ []) (hlen : segments.length ≤ 2 ^ 34) :
    Followed ⟨hook, s.nextCell, objReadWrite.size, clientId⟩
      (postOps (buildIovec segments objReadWrite.offset.toNat objReadWrite.size.toNat)
        objReadWrite.iov ⟨hook, s.nextCell, objReadWrite.size, clientId⟩ 0 0)
      (s.postTransfer hook clientId objReadWrite segments) := by
  have hpos : 0 < groupsFrom segments.length 0 := by
    have := List.length_pos_iff.mpr hne
    unfold groupsFrom
    omega
  refine ⟨h.postTransfer hook clientId objReadWrite hlen, Nat.lt_succ_self _, ?_, ?_⟩
  · show (List.filter _ (s.inFlight ++ _)).Sublist _
    rw [List.filter_append, List.filter_eq_nil_iff.mpr (List.countP_eq_zero.mp h.pending_fresh),
      List.nil_append]
    exact List.filter_sublist
  · rw [pending_postTransfer h, if_pos rfl, if_neg (by omega)]
    exact h.effects_fresh

instance (s : Rdma) (e : RdmaEvent) : Decidable (Countable s e) := by
  cases e with
  | transfer _ _ _ segments => exact inferInstanceAs (Decidable (segments.length ≤ 2 ^ 34))
  | completion _ => exact inferInstanceAs (Decidable True)
  | other _ => exact inferInstanceAs (Decidable True)

/-- `n` segments of one byte. -/
def byteSegments (n : Nat) : List ObjectSegmentDescr :=
  (List.range n).map fun i => ⟨⟨i, 0⟩, i, 1⟩

/-- The request of a write of `n` bytes. -/
def writeRequest (n : UInt64) : LibfabricObjReadWriteInfos :=
  ⟨⟨1, 2⟩, ⟨4096, 11⟩, 0, n, false, .null⟩

/-- A run shown by executing it. -/
theorem run_of_trace (es : List RdmaEvent) (s₀ : Rdma) (p : Rdma → Prop) [DecidablePred p]
    (h : (Run.trace exec Countable es s₀).any (fun s => decide (p s)) = true) :
    ∃ s, Run Step Countable s₀ s ∧ p s := Run.exists_of_trace h

/-- A transfer whose counter starts at 1 is acknowledged by its first completion, and
the next one uses the counter after it was deleted. -/
theorem first_completion {s : Rdma} {action : PostAction} (hcell : s.cells action.ops = some 1)
    (hall : ∀ op ∈ s.inFlight, op.postAction = action) (hlong : 1 < s.inFlight.length)
    (hhistory : s.history = []) :
    ∃ s', s.exec (.completion 0) = .ok s' ∧ s.pending action.ops = s'.pending action.ops + 1 ∧
      s'.effects action.ops = action.effects ∧
      s'.exec (.completion 0) = .error .useAfterFree := by
  have hop : s.inFlight[0]? = some s.inFlight[0] := List.getElem?_eq_getElem (by omega)
  have hop' : (s.inFlight.eraseIdx 0)[0]? = some s.inFlight[1] := by
    rw [List.getElem?_eraseIdx_of_ge (Nat.le_refl 0)]
    exact List.getElem?_eq_getElem hlong
  have haction := hall _ (List.mem_of_getElem? hop)
  have haction' := hall _ (List.getElem_mem hlong)
  have hexec := exec_completion_eq hop
  rw [haction, runPostAction_last (s := { s with inFlight := s.inFlight.eraseIdx 0 }) hcell]
    at hexec
  refine ⟨_, hexec, ?_, ?_, ?_⟩
  · rw [pending_eraseIdx hop, haction, if_pos rfl]
    rfl
  · unfold effects
    dsimp only
    rw [hhistory, List.nil_append, List.filterMap_map]
    simp
  · rw [exec_completion_eq hop', haction']
    unfold runPostAction
    dsimp only
    rw [if_pos rfl]

/-- With `2 ^ 34 + 1` vectors there are `2 ^ 32 + 1` operations and the counter starts
at 1. -/
theorem first_acknowledges {segments : List ObjectSegmentDescr}
    (hlen : segments.length = 2 ^ 34 + 1) : ∃ s' s'' : Rdma,
    initial.exec (.transfer .write 7 (writeRequest (UInt64.ofNat (2 ^ 34 + 1))) segments) =
      .ok s' ∧
    s'.exec (.completion 0) = .ok s'' ∧
    s''.pending 0 = 2 ^ 32 ∧
    s''.effects 0 =
      [.stats .write (UInt64.ofNat (2 ^ 34 + 1)), .response .objReadWriteAck 7 0] ∧
    s''.exec (.completion 0) = .error .useAfterFree := by
  have hgroups : groupsFrom segments.length 0 = 2 ^ 32 + 1 := by
    rw [hlen]
    decide
  have hfirst : 0 = initial.nextCell := rfl
  have hpending := pending_postTransfer counted_initial .write 7
    (writeRequest (UInt64.ofNat (2 ^ 34 + 1))) segments 0
  rw [if_pos hfirst, hgroups] at hpending
  have hcell := cells_postTransfer initial .write 7
    (writeRequest (UInt64.ofNat (2 ^ 34 + 1))) segments 0
  rw [if_pos hfirst, hgroups] at hcell
  have hall : ∀ op ∈ (initial.postTransfer .write 7 (writeRequest (UInt64.ofNat (2 ^ 34 + 1)))
      segments).inFlight, op.postAction = ⟨.write, 0, UInt64.ofNat (2 ^ 34 + 1), 7⟩ :=
    postAction_postOps
  have hlong := Nat.le_trans (Nat.le_of_eq hpending.symm) List.countP_le_length
  obtain ⟨s'', hexec, hleft, heffects, hfree⟩ :=
    first_completion hcell hall (Nat.lt_of_lt_of_le (by decide) hlong) rfl
  rw [hpending] at hleft
  exact ⟨_, s'', exec_transfer .., hexec, (Nat.succ.inj hleft).symm, heffects, hfree⟩

end Rdma

end IoCatcher.Network
