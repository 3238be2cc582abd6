import IoCatcher.Lib.OrderedMap
import IoCatcher.Lib.Run
import IoCatcher.Model.Backends
import Mathlib.Algebra.BigOperators.Group.List.Basic
import Mathlib.Data.List.GetD

/-!
# IO Catcher — balancing several memory backends

`MemoryBackendBalance` has one sub backend per NVDIMM device. It counts the bytes in use
on each (`backendMem`), sends a request to the one with the fewest, and keeps for
every address the backend it came from (`backendOfMem`), to give it back there.

The index of a backend is a `size_t`, and the map stores it as an `int`: with more
than `2^31` backends it does not come back.

* `balanced_of_run`   — with at most `2^31` backends, the counters are exact, every chunk
  goes back to its backend, and the counters stay within one request of each other;
* `returned_out_of_bounds` — the chunk of the backend number `2^31` cannot be given back.
-/

namespace IoCatcher

/-- The fields of `MemoryBackendBalance`. -/
structure MemoryBackendBalance (μ : Type) where
  backends     : List μ
  backendMem   : List Nat
  backendOfMem : OrderedMap Addr Int

namespace MemoryBackendBalance

variable {μ : Type}

/-- Why a call stops. -/
inductive Fault where
  /-- An `assert` does not hold. -/
  | assertion
  /-- "Fail to bound backend of the given memory : %1 !". -/
  | unboundMemory (addr : Addr)
  /-- An index outside of a `std::vector`. -/
  | outOfBounds
  deriving DecidableEq

/-- `MemoryBackendBalance::MemoryBackendBalance`. -/
def new : MemoryBackendBalance μ := ⟨[], [], .empty⟩

/-- `MemoryBackendBalance::registerBackend`. -/
def registerBackend (m : MemoryBackendBalance μ) (backend : μ) : MemoryBackendBalance μ :=
  { m with backends := m.backends ++ [backend], backendMem := m.backendMem ++ [0] }

/-- `MemoryBackendBalance::getMem`. -/
def getMem (m : MemoryBackendBalance μ) (id : Nat) : Nat := m.backendMem.getD id 0

/-- The loop that searches the minimum: `mem` are the counters from index `i` on. -/
def searchMin : (mem : List Nat) → (i id min : Nat) → Nat
  | [], _, id, _ => id
  | used :: rest, i, id, min =>
    if used < min then searchMin rest (i + 1) i used else searchMin rest (i + 1) id min

/-- The backend that the next request is sent to. -/
def chosen (m : MemoryBackendBalance μ) : Nat := searchMin m.backendMem.tail 1 0 (m.getMem 0)

/-- `MemoryBackendBalance::allocate`. -/
def allocate (mb : MemoryBackend μ) (m : MemoryBackendBalance μ) (size : Nat) :
    Except Fault (Addr × MemoryBackendBalance μ) :=
  if m.backends.length = 0 then .error .assertion
  else
    match m.backends[m.chosen]? with
    | none => .error .outOfBounds
    | some backend =>
      let r := mb.allocate backend size
      .ok (r.1,
        { backends := m.backends.set m.chosen r.2
          backendMem := m.backendMem.set m.chosen (SizeT.add (m.getMem m.chosen) size)
          -- the `size_t` index is stored as an `int`
          backendOfMem := m.backendOfMem.insert r.1 (SizeT.toInt32 m.chosen) })

/-- `MemoryBackendBalance::deallocate`. -/
def deallocate (mb : MemoryBackend μ) (m : MemoryBackendBalance μ) (addr : Addr) (size : Nat) :
    Except Fault (MemoryBackendBalance μ) :=
  if size = 0 then .error .assertion
  else
    match m.backendOfMem.find? addr with
    | none => .error (.unboundMemory addr)
    | some it =>
      let id := SizeT.ofInt it
      match m.backends[id]? with
      | none => .error .outOfBounds
      | some backend =>
        if m.getMem id < size then .error .assertion
        else .ok
          { backends := m.backends.set id (mb.deallocate backend addr size)
            backendMem := m.backendMem.set id (SizeT.sub (m.getMem id) size)
            backendOfMem := m.backendOfMem.erase addr }

-- ---------------------------------------------------------------------------
-- The minimum
-- ---------------------------------------------------------------------------

variable {mb : MemoryBackend μ} {m m' : MemoryBackendBalance μ} {size : Nat} {addr : Addr}

/-- What is found is the best so far or one of those not seen yet, and no other is
better. -/
theorem searchMin_spec (mem : List Nat) : ∀ i id min : Nat,
    (searchMin mem i id min = id ∧ ∀ k < mem.length, min ≤ mem.getD k 0) ∨
      ∃ k < mem.length, searchMin mem i id min = i + k ∧ mem.getD k 0 ≤ min ∧
        ∀ k' < mem.length, mem.getD k 0 ≤ mem.getD k' 0 := by
  induction mem with
  | nil => exact fun _ _ _ => Or.inl ⟨rfl, fun k hk => absurd hk (Nat.not_lt_zero k)⟩
  | cons used rest ih =>
    intro i id min
    unfold searchMin
    split_ifs with hlt
    · rcases ih (i + 1) i used with ⟨heq, hle⟩ | ⟨k, hk, heq, hle, hmin⟩
      · refine Or.inr ⟨0, Nat.succ_pos _, heq, hlt.le, fun k' hk' => ?_⟩
        cases k' with
        | zero => exact le_rfl
        | succ k' => exact hle k' (Nat.lt_of_succ_lt_succ hk')
      · refine Or.inr ⟨k + 1, Nat.succ_lt_succ hk, by rw [heq]; omega, hle.trans hlt.le,
          fun k' hk' => ?_⟩
        cases k' with
        | zero => exact hle
        | succ k' => exact hmin k' (Nat.lt_of_succ_lt_succ hk')
    · rcases ih (i + 1) id min with ⟨heq, hle⟩ | ⟨k, hk, heq, hle, hmin⟩
      · refine Or.inl ⟨heq, fun k' hk' => ?_⟩
        cases k' with
        | zero => exact not_lt.mp hlt
        | succ k' => exact hle k' (Nat.lt_of_succ_lt_succ hk')
      · refine Or.inr ⟨k + 1, Nat.succ_lt_succ hk, by rw [heq]; omega, hle, fun k' hk' => ?_⟩
        cases k' with
        | zero => exact hle.trans (not_lt.mp hlt)
        | succ k' => exact hmin k' (Nat.lt_of_succ_lt_succ hk')

/-- The chosen backend is one of them, and none has less memory in use. -/
theorem chosen_spec (hpos : 0 < m.backendMem.length) :
    m.chosen < m.backendMem.length ∧
      ∀ i < m.backendMem.length, m.getMem m.chosen ≤ m.getMem i := by
  unfold chosen getMem
  cases hmem : m.backendMem with
  | nil => exact absurd hpos (by simp [hmem])
  | cons used rest =>
    rw [List.tail_cons, List.getD_cons_zero]
    rcases searchMin_spec rest 1 0 used with
      ⟨heq, hle⟩ | ⟨k, hk, heq, hle, hmin⟩
    · rw [heq]
      refine ⟨Nat.succ_pos _, fun i hi => ?_⟩
      cases i with
      | zero => exact le_rfl
      | succ i => exact hle i (Nat.lt_of_succ_lt_succ hi)
    · rw [heq, Nat.add_comm 1 k]
      refine ⟨Nat.succ_lt_succ hk, fun i hi => ?_⟩
      rw [List.getD_cons_succ]
      cases i with
      | zero => exact hle
      | succ i => exact hmin i (Nat.lt_of_succ_lt_succ hi)

/-- What a call of `allocate` does when there is a backend. -/
theorem allocate_eq {backend : μ} (hsome : m.backends[m.chosen]? = some backend) :
    m.allocate mb size = .ok ((mb.allocate backend size).1,
      { backends := m.backends.set m.chosen (mb.allocate backend size).2
        backendMem := m.backendMem.set m.chosen (SizeT.add (m.getMem m.chosen) size)
        backendOfMem := m.backendOfMem.insert (mb.allocate backend size).1
          (SizeT.toInt32 m.chosen) }) := by
  have hne : m.backends.length ≠ 0 := by
    obtain ⟨hlt, -⟩ := List.getElem?_eq_some_iff.mp hsome
    omega
  unfold allocate
  rw [if_neg hne, hsome]

/-- What a call of `deallocate` does for a chunk it knows. -/
theorem deallocate_eq {backend : μ} {it : Int} (hpos : 0 < size)
    (hfind : m.backendOfMem.find? addr = some it)
    (hsome : m.backends[SizeT.ofInt it]? = some backend) :
    m.deallocate mb addr size =
      if m.getMem (SizeT.ofInt it) < size then .error .assertion
      else .ok
        { backends := m.backends.set (SizeT.ofInt it) (mb.deallocate backend addr size)
          backendMem := m.backendMem.set (SizeT.ofInt it)
            (SizeT.sub (m.getMem (SizeT.ofInt it)) size)
          backendOfMem := m.backendOfMem.erase addr } := by
  unfold deallocate
  rw [if_neg hpos.ne', hfind]
  simp only [hsome]

-- ---------------------------------------------------------------------------
-- Chunks and where they came from
-- ---------------------------------------------------------------------------

/-- A chunk in use, with the index of the backend it was obtained from. -/
structure Chunk where
  addr : Addr
  size : Nat
  id   : Nat
  deriving DecidableEq

/-- The bytes that the chunks of a backend take. -/
def usedBy (live : List Chunk) (i : Nat) : Nat :=
  (live.map fun c => if c.id = i then c.size else 0).sum

theorem usedBy_cons (c : Chunk) (live : List Chunk) (i : Nat) :
    usedBy (c :: live) i = (if c.id = i then c.size else 0) + usedBy live i := rfl

theorem usedBy_erase {c : Chunk} {live : List Chunk} (h : c ∈ live) (i : Nat) :
    usedBy live i = (if c.id = i then c.size else 0) + usedBy (live.erase c) i :=
  ((List.perm_cons_erase h).map fun c : Chunk => if c.id = i then c.size else 0).sum_eq

/-- The bytes of all chunks. -/
def total (live : List Chunk) : Nat := (live.map Chunk.size).sum

theorem usedBy_le (live : List Chunk) (i : Nat) : usedBy live i ≤ total live := by
  induction live with
  | nil => exact le_rfl
  | cons c rest ih =>
    have htotal : total (c :: rest) = c.size + total rest := rfl
    rw [usedBy_cons, htotal]
    split_ifs
    · exact Nat.add_le_add_left ih _
    · rw [Nat.zero_add]
      exact ih.trans (Nat.le_add_left _ _)

theorem total_erase {c : Chunk} {live : List Chunk} (h : c ∈ live) :
    total live = c.size + total (live.erase c) :=
  ((List.perm_cons_erase h).map Chunk.size).sum_eq

/-- A call of the callers. -/
inductive Call where
  | allocate (size : Nat)
  | deallocate (c : Chunk)
  deriving DecidableEq

/-- An allocation of at most `M` bytes. -/
def Call.Small (M : Nat) : Call → Prop
  | .allocate size => size ≤ M
  | .deallocate _ => False

/-- The backends, and the chunks their callers hold. -/
structure Shared (μ : Type) where
  balance : MemoryBackendBalance μ
  live    : List Chunk

namespace Shared

variable {o o' : Shared μ} {call : Call}

/-- The backends of a server before the first request. -/
def new (backends : List μ) : Shared μ :=
  ⟨backends.foldl registerBackend MemoryBackendBalance.new, []⟩

/-- One call that returns. A caller gives back a chunk with its size. -/
inductive Step (mb : MemoryBackend μ) (o : Shared μ) : Call → Shared μ → Prop where
  | allocate {size : Nat} {addr : Addr} {m : MemoryBackendBalance μ}
      (hok : o.balance.allocate mb size = .ok (addr, m)) :
      Step mb o (.allocate size) ⟨m, ⟨addr, size, o.balance.chosen⟩ :: o.live⟩
  | deallocate {c : Chunk} {m : MemoryBackendBalance μ} (hlive : c ∈ o.live)
      (hok : o.balance.deallocate mb c.addr c.size = .ok m) :
      Step mb o (.deallocate c) ⟨m, o.live.erase c⟩

/-- What the sub backends and the callers promise: the address of a new chunk is none of
those in use, and less than `2^64` bytes are. -/
def Scope (mb : MemoryBackend μ) (o : Shared μ) : Call → Prop
  | .allocate size => total o.live + size < 2 ^ 64 ∧
      ∀ c ∈ o.live, (o.balance.allocate mb size).map Prod.fst ≠ .ok c.addr
  | .deallocate _ => True

/-- What every run keeps. -/
structure Inv (n : Nat) (o : Shared μ) : Prop where
  backends : o.balance.backends.length = n
  counters : o.balance.backendMem.length = n
  used     : ∀ i < n, o.balance.getMem i = usedBy o.live i
  origin   : ∀ c ∈ o.live, c.id < n ∧
    o.balance.backendOfMem.find? c.addr = some (SizeT.toInt32 c.id)
  nodup    : (o.live.map Chunk.addr).Nodup
  bounded  : total o.live < 2 ^ 64

/-- Registering backends puts them in order, with nothing in use. -/
theorem foldl_registerBackend (l : List μ) : ∀ m : MemoryBackendBalance μ,
    (l.foldl registerBackend m).backends = m.backends ++ l ∧
      (l.foldl registerBackend m).backendMem = m.backendMem ++ List.replicate l.length 0 := by
  induction l with
  | nil => exact fun m => ⟨(List.append_nil _).symm, (List.append_nil _).symm⟩
  | cons b rest ih =>
    intro m
    obtain ⟨hbackends, hmem⟩ := ih (m.registerBackend b)
    rw [List.foldl_cons, hbackends, hmem, List.length_cons, List.replicate_succ]
    exact ⟨List.append_assoc _ _ _, List.append_assoc _ _ _⟩

theorem inv_new (backends : List μ) : Inv backends.length (new backends) := by
  obtain ⟨hbackends, hzero⟩ : (new backends).balance.backends = backends ∧
      (new backends).balance.backendMem = List.replicate backends.length 0 :=
    foldl_registerBackend backends MemoryBackendBalance.new
  refine ⟨?_, ?_, fun i hi => ?_, fun c hc => absurd hc List.not_mem_nil, List.nodup_nil, ?_⟩
  · rw [hbackends]
  · rw [hzero, List.length_replicate]
  · unfold getMem
    rw [hzero, List.getD_eq_getElem?_getD, List.getElem?_replicate, if_pos hi]
    rfl
  · exact Nat.two_pow_pos 64

/-- The counters, with one of them written. -/
theorem getMem_set {mem : List Nat} {backends : List μ} {table : OrderedMap Addr Int}
    {id used : Nat} (hid : id < mem.length) (i : Nat) :
    getMem ⟨backends, mem.set id used, table⟩ i = if i = id then used else mem.getD i 0 := by
  unfold getMem
  rw [List.getD_eq_getElem?_getD, List.getD_eq_getElem?_getD]
  by_cases hi : i = id
  · rw [if_pos hi, hi, List.getElem?_set_self hid, Option.getD_some]
  · rw [if_neg hi, List.getElem?_set_ne (Ne.symm hi)]

/-- The backend a request is sent to. -/
theorem Inv.sent {n : Nat} (h : Inv n o) (hn : 0 < n) : ∃ backend,
    o.balance.backends[o.balance.chosen]? = some backend ∧ o.balance.chosen < n ∧
      ∀ i < n, o.balance.getMem o.balance.chosen ≤ o.balance.getMem i := by
  obtain ⟨hlt, hmin⟩ := chosen_spec (m := o.balance) (by rw [h.counters]; exact hn)
  rw [h.counters] at hlt hmin
  have hin : o.balance.chosen < o.balance.backends.length := by rw [h.backends]; exact hlt
  exact ⟨_, List.getElem?_eq_getElem hin, hlt, hmin⟩

/-- The backend a chunk came from is the one it is given back to. -/
theorem Inv.back {n : Nat} (h : Inv n o) (mb : MemoryBackend μ) (hn : n ≤ 2 ^ 31) {c : Chunk}
    (hc : c ∈ o.live) (hpos : 0 < c.size) : ∃ backend,
      o.balance.backends[c.id]? = some backend ∧
      o.balance.deallocate mb c.addr c.size = .ok
        { backends := o.balance.backends.set c.id (mb.deallocate backend c.addr c.size)
          backendMem := o.balance.backendMem.set c.id (o.balance.getMem c.id - c.size)
          backendOfMem := o.balance.backendOfMem.erase c.addr } := by
  obtain ⟨hid, hfind⟩ := h.origin c hc
  have hin : c.id < o.balance.backends.length := by rw [h.backends]; exact hid
  have hback : SizeT.ofInt (SizeT.toInt32 c.id) = c.id := by
    rw [SizeT.toInt32_eq (by omega), SizeT.ofInt_natCast (by omega)]
  have hused := h.used c.id hid
  have hsplit := usedBy_erase hc c.id
  rw [if_pos rfl] at hsplit
  have htotal := usedBy_le o.live c.id
  have hbound := h.bounded
  refine ⟨_, List.getElem?_eq_getElem hin, ?_⟩
  rw [deallocate_eq hpos hfind (by rw [hback]; exact List.getElem?_eq_getElem hin), hback,
    if_neg (by omega), SizeT.sub_eq (by omega) (by omega)]

theorem inv_allocate {n : Nat} (h : Inv n o) (hn : 0 < n) (hscope : Scope mb o (.allocate size))
    {m : MemoryBackendBalance μ} (hok : o.balance.allocate mb size = .ok (addr, m)) :
    Inv n ⟨m, ⟨addr, size, o.balance.chosen⟩ :: o.live⟩ := by
  obtain ⟨backend, hsome, hlt, -⟩ := h.sent hn
  rw [allocate_eq hsome] at hok
  obtain ⟨rfl, rfl⟩ := Prod.mk.inj (Except.ok.inj hok)
  obtain ⟨hsum, hnew⟩ := hscope
  have hfresh : ∀ c ∈ o.live, c.addr ≠ (mb.allocate backend size).1 := by
    intro c hc heq
    refine hnew c hc ?_
    rw [allocate_eq hsome, heq]
    rfl
  have hused := h.used _ hlt
  have htotal := usedBy_le o.live o.balance.chosen
  refine ⟨?_, ?_, fun i hi => ?_, fun c hc => ?_, ?_, ?_⟩
  · rw [List.length_set]
    exact h.backends
  · rw [List.length_set]
    exact h.counters
  · rw [getMem_set (by rw [h.counters]; exact hlt), usedBy_cons]
    by_cases heq : i = o.balance.chosen
    · rw [if_pos heq, if_pos heq.symm, SizeT.add_eq (by omega), hused, heq, Nat.add_comm]
    · rw [if_neg heq, if_neg (Ne.symm heq), Nat.zero_add]
      exact h.used i hi
  · rcases List.mem_cons.mp hc with rfl | hc
    · exact ⟨hlt, OrderedMap.find?_insert_self _ _ _⟩
    · rw [OrderedMap.find?_insert_ne (hfresh c hc)]
      exact h.origin c hc
  · rw [List.map_cons, List.nodup_cons]
    refine ⟨fun hin => ?_, h.nodup⟩
    obtain ⟨c, hc, heq⟩ := List.mem_map.mp hin
    exact hfresh c hc heq
  · have hcons : total (⟨(mb.allocate backend size).1, size, o.balance.chosen⟩ :: o.live) =
        size + total o.live := rfl
    rw [hcons]
    omega

theorem inv_deallocate {n : Nat} (h : Inv n o) (hn : n ≤ 2 ^ 31) {c : Chunk} (hc : c ∈ o.live)
    {m : MemoryBackendBalance μ} (hok : o.balance.deallocate mb c.addr c.size = .ok m) :
    Inv n ⟨m, o.live.erase c⟩ := by
  have hpos : 0 < c.size := by
    refine Nat.pos_of_ne_zero fun hzero => ?_
    unfold deallocate at hok
    rw [if_pos hzero] at hok
    cases hok
  obtain ⟨backend, -, hdone⟩ := h.back mb hn hc hpos
  obtain rfl := Except.ok.inj (hdone.symm.trans hok)
  obtain ⟨hid, -⟩ := h.origin c hc
  have hother : ∀ c' ∈ o.live.erase c, c'.addr ≠ c.addr := by
    intro c' hc' heq
    have hnodup := ((List.perm_cons_erase hc).map Chunk.addr).nodup_iff.mp h.nodup
    rw [List.map_cons, List.nodup_cons] at hnodup
    exact hnodup.1 (List.mem_map.mpr ⟨c', hc', heq⟩)
  refine ⟨?_, ?_, fun i hi => ?_, fun c' hc' => ?_, ?_, ?_⟩
  · rw [List.length_set]
    exact h.backends
  · rw [List.length_set]
    exact h.counters
  · have hsplit := usedBy_erase hc i
    show getMem _ i = usedBy (o.live.erase c) i
    rw [getMem_set (by rw [h.counters]; exact hid)]
    by_cases heq : i = c.id
    · rw [if_pos heq.symm] at hsplit
      rw [if_pos heq, h.used c.id hid, ← heq]
      omega
    · rw [if_neg (Ne.symm heq)] at hsplit
      rw [if_neg heq]
      exact (h.used i hi).trans (by omega)
  · rw [OrderedMap.find?_erase_ne (hother c' hc')]
    exact h.origin c' (List.mem_of_mem_erase hc')
  · exact h.nodup.sublist (List.erase_sublist.map Chunk.addr)
  · have hsplit := total_erase hc
    have hbound := h.bounded
    show total (o.live.erase c) < 2 ^ 64
    omega

theorem inv_step {n : Nat} (hpos : 0 < n) (hle : n ≤ 2 ^ 31) (h : Inv n o)
    (hscope : Scope mb o call) (hstep : Step mb o call o') : Inv n o' := by
  cases hstep with
  | allocate hok => exact inv_allocate h hpos hscope hok
  | deallocate hlive hok => exact inv_deallocate h hle hlive hok

-- ---------------------------------------------------------------------------
-- Runs
-- ---------------------------------------------------------------------------

/-- A request that goes to the least used backend leaves the counters within `M` of each
other. -/
theorem even_step {n M : Nat} (hn : 0 < n) (h : Inv n o)
    (heven : ∀ i < n, ∀ j < n, o.balance.getMem i ≤ o.balance.getMem j + M)
    (hscope : Scope mb o call) (hsmall : call.Small M) (hstep : Step mb o call o') :
    ∀ i < n, ∀ j < n, o'.balance.getMem i ≤ o'.balance.getMem j + M := by
  cases hstep with
  | deallocate => exact absurd hsmall id
  | allocate hok =>
    rename_i size addr m
    obtain ⟨backend, hsome, hlt, hmin⟩ := h.sent hn
    rw [allocate_eq hsome] at hok
    obtain ⟨-, rfl⟩ := Prod.mk.inj (Except.ok.inj hok)
    have hM : size ≤ M := hsmall
    have hused := h.used _ hlt
    have htotal := usedBy_le o.live o.balance.chosen
    have hsum := hscope.1
    -- the chosen counter grows from the minimum, the others stay
    have hnew : ∀ k, getMem ⟨o.balance.backends.set o.balance.chosen (mb.allocate backend size).2,
        o.balance.backendMem.set o.balance.chosen
          (SizeT.add (o.balance.getMem o.balance.chosen) size),
        o.balance.backendOfMem.insert (mb.allocate backend size).1
          (SizeT.toInt32 o.balance.chosen)⟩ k =
        if k = o.balance.chosen then o.balance.getMem o.balance.chosen + size
        else o.balance.getMem k := by
      intro k
      rw [getMem_set (by rw [h.counters]; exact hlt), SizeT.add_eq (by omega)]
      rfl
    intro i hi j hj
    show getMem _ i ≤ getMem _ j + M
    rw [hnew, hnew]
    have hold := heven i hi j hj
    have hleast := hmin j hj
    split_ifs with hic hjc hjc
    · omega
    · omega
    · rw [hjc] at hold
      omega
    · exact hold

/-- The accounts of the backends are right. -/
structure Balanced (mb : MemoryBackend μ) (o : Shared μ) : Prop where
  /-- A counter is the bytes of the chunks in use that came from the backend. -/
  used  : ∀ i < o.balance.backends.length, o.balance.getMem i = usedBy o.live i
  /-- A chunk can be given back, no assertion fails, and it goes where it came from. -/
  back  : ∀ c ∈ o.live, 0 < c.size → ∃ backend m, o.balance.backends[c.id]? = some backend ∧
    o.balance.deallocate mb c.addr c.size = .ok m ∧
      m.backends = o.balance.backends.set c.id (mb.deallocate backend c.addr c.size)
  /-- A request goes to a backend that has the least in use. -/
  least : ∀ size, ∃ backend m, o.balance.backends[o.balance.chosen]? = some backend ∧
    o.balance.allocate mb size = .ok ((mb.allocate backend size).1, m) ∧
      m.backends = o.balance.backends.set o.balance.chosen (mb.allocate backend size).2 ∧
      ∀ i < o.balance.backends.length, o.balance.getMem o.balance.chosen ≤ o.balance.getMem i
  /-- Once everything is given back, allocations of at most `M` bytes leave the counters
  within `M` of each other. -/
  even  : o.live = [] → ∀ M o',
    Run (Step mb) (fun o call => Scope mb o call ∧ call.Small M) o o' →
      ∀ i < o.balance.backends.length, ∀ j < o.balance.backends.length,
        o'.balance.getMem i ≤ o'.balance.getMem j + M

/-- **The allocations are balanced and accounted for**, in every run on at most `2^31`
backends. -/
theorem balanced_of_run {backends : List μ} (hpos : 0 < backends.length)
    (hle : backends.length ≤ 2 ^ 31) (hrun : Run (Step mb) (Scope mb) (new backends) o) :
    Balanced mb o := by
  have hinv : Inv backends.length o :=
    hrun.invariant (inv_new backends) fun h hscope hstep => inv_step hpos hle h hscope hstep
  have hlen := hinv.backends
  refine ⟨fun i hi => hinv.used i (hlen ▸ hi), fun c hc hsize => ?_, fun size => ?_,
    fun hempty M o' hgrow => ?_⟩
  · obtain ⟨backend, hsome, hdone⟩ := hinv.back mb hle hc hsize
    exact ⟨backend, _, hsome, hdone, rfl⟩
  · obtain ⟨backend, hsome, -, hmin⟩ := hinv.sent hpos
    exact ⟨backend, _, hsome, allocate_eq hsome, rfl, fun i hi => hmin i (hlen ▸ hi)⟩
  · rw [hlen]
    refine (hgrow.invariant (I := fun o => Inv backends.length o ∧ ∀ i < backends.length,
      ∀ j < backends.length, o.balance.getMem i ≤ o.balance.getMem j + M)
      ⟨hinv, fun i hi j _ => ?_⟩ fun h hguard hstep => ?_).2
    · rw [hinv.used i hi, hempty]
      exact Nat.zero_le _
    · exact ⟨inv_step hpos hle h.1 hguard.1 hstep,
        even_step hpos h.1 h.2 hguard.1 hguard.2 hstep⟩

/-- Two requests on two devices, and the first chunk given back. -/
theorem balanced_of_two : ∃ o, Run (Step Malloc.backend) (Scope Malloc.backend)
      (new [⟨0, fun _ => none⟩, ⟨10, fun _ => none⟩]) o ∧
    o.live = [⟨10, 8192, 1⟩] ∧ Balanced Malloc.backend o := by
  have hrun : Run (Step Malloc.backend) (Scope Malloc.backend)
      (new [⟨0, fun _ => none⟩, ⟨10, fun _ => none⟩]) _ :=
    .next (.next (.next .start (e := .allocate 4096) ⟨by decide, by decide⟩ (.allocate rfl))
      (e := .allocate 8192) ⟨by decide, by decide⟩ (.allocate rfl))
      (e := .deallocate ⟨0, 4096, 0⟩) trivial (.deallocate (by decide) rfl)
  exact ⟨_, hrun, by decide, balanced_of_run (by decide) (by decide) hrun⟩

-- ---------------------------------------------------------------------------
-- One backend too many
-- ---------------------------------------------------------------------------

theorem searchMin_zeros (b : Nat) : ∀ i id : Nat, searchMin (List.replicate b 0) i id 0 = id := by
  induction b with
  | zero => exact fun _ _ => rfl
  | succ b ih =>
    intro i id
    rw [List.replicate_succ]
    unfold searchMin
    rw [if_neg (Nat.lt_irrefl 0)]
    exact ih (i + 1) id

theorem searchMin_ones (a b : Nat) : ∀ i id : Nat,
    searchMin (List.replicate a 1 ++ List.replicate (b + 1) 0) i id 1 = i + a := by
  induction a with
  | zero =>
    intro i id
    rw [List.replicate_zero, List.nil_append, List.replicate_succ]
    unfold searchMin
    rw [if_pos Nat.one_pos]
    exact searchMin_zeros b (i + 1) i
  | succ a ih =>
    intro i id
    rw [List.replicate_succ, List.cons_append]
    unfold searchMin
    rw [if_neg (Nat.lt_irrefl 1), ih (i + 1) id]
    omega

/-- Requests of one byte go to the backends one after the other. -/
theorem chosen_ones {k b : Nat} (hmem : m.backendMem = List.replicate k 1 ++
    List.replicate (b + 1) 0) : m.chosen = k := by
  unfold chosen getMem
  rw [hmem]
  cases k with
  | zero => exact searchMin_zeros b 1 0
  | succ k =>
    rw [List.replicate_succ, List.cons_append, List.tail_cons, List.getD_cons_zero,
      searchMin_ones]
    exact Nat.add_comm 1 k

/-- Devices that give their first chunk at different addresses. -/
def devices (n : Nat) : List Malloc := (List.range n).map fun i => ⟨i, fun _ => none⟩

theorem new_devices (n : Nat) : (new (devices n)).balance.backends = devices n ∧
    (new (devices n)).balance.backendMem = List.replicate n 0 := by
  have hinv := foldl_registerBackend (devices n) MemoryBackendBalance.new
  have hlen : (devices n).length = n := by rw [devices, List.length_map, List.length_range]
  rw [hlen] at hinv
  exact ⟨hinv.1, hinv.2⟩

/-- With that many devices, requests of one byte reach each of them once. -/
theorem run_ones {n : Nat} (hn : n < 2 ^ 64) : ∀ k ≤ n, ∃ o,
    Run (Step Malloc.backend) (Scope Malloc.backend) (new (devices n)) o ∧
    o.balance.backendMem = List.replicate k 1 ++ List.replicate (n - k) 0 ∧
    (∀ i, k ≤ i → o.balance.backends[i]? = (devices n)[i]?) ∧
    (total o.live = k ∧ ∀ c ∈ o.live, c.addr < k) ∧
    ∀ i < k, ⟨i, 1, i⟩ ∈ o.live ∧ o.balance.backendOfMem.find? i = some (SizeT.toInt32 i) := by
  intro k
  induction k with
  | zero =>
    intro _
    obtain ⟨hbackends, hmem⟩ := new_devices n
    exact ⟨_, .start, hmem, fun i _ => by rw [hbackends],
      ⟨rfl, fun c hc => absurd hc List.not_mem_nil⟩, fun i hi => absurd hi (Nat.not_lt_zero i)⟩
  | succ k ih =>
    intro hk
    obtain ⟨o, hrun, hmem, hrest, ⟨htotal, haddr⟩, hdone⟩ := ih (Nat.le_of_succ_le hk)
    rw [show n - k = n - (k + 1) + 1 by omega] at hmem
    have hchosen := chosen_ones hmem
    have hsome : o.balance.backends[o.balance.chosen]? = some ⟨k, fun _ => none⟩ := by
      rw [hchosen, hrest k le_rfl, devices, List.getElem?_map, List.getElem?_range (by omega)]
      rfl
    have hok := @allocate_eq _ Malloc.backend _ 1 _ hsome
    rw [hchosen] at hok
    refine ⟨_, hrun.next (e := .allocate 1) ⟨?_, fun c hc heq => ?_⟩ (.allocate hok), ?_,
      fun i hi => ?_, ⟨?_, fun c hc => ?_⟩, fun i hi => ?_⟩
    · omega
    · rw [hok] at heq
      exact absurd (Except.ok.inj heq) (haddr c hc).ne'
    · show o.balance.backendMem.set k (SizeT.add (o.balance.backendMem.getD k 0) 1) = _
      have hlen : k = (List.replicate k 1).length := List.length_replicate.symm
      rw [hmem, List.replicate_succ, List.replicate_succ', List.append_assoc,
        List.getD_append_right _ _ _ _ hlen.ge, List.set_append_right _ _ hlen.ge,
        List.length_replicate, Nat.sub_self]
      rfl
    · show (o.balance.backends.set k _)[i]? = _
      rw [List.getElem?_set_ne (by omega)]
      exact hrest i (by omega)
    · show 1 + total o.live = k + 1
      omega
    · rcases List.mem_cons.mp hc with rfl | hc
      · exact Nat.lt_succ_self k
      · exact (haddr c hc).trans (Nat.lt_succ_self k)
    · show ⟨i, 1, i⟩ ∈ ⟨k, 1, o.balance.chosen⟩ :: o.live ∧ (OrderedMap.insert _ k _).find? i = _
      rw [hchosen]
      by_cases heq : i = k
      · rw [heq]
        exact ⟨List.mem_cons_self, OrderedMap.find?_insert_self _ _ _⟩
      · rw [OrderedMap.find?_insert_ne heq]
        obtain ⟨hin, hfind⟩ := hdone i (by omega)
        exact ⟨List.mem_cons_of_mem _ hin, hfind⟩

/-- The chunk of the backend number `2^31` cannot be given back. -/
theorem stuck_of_many {n : Nat} (hlo : 2 ^ 31 < n) (hhi : n ≤ 2 ^ 64 - 2 ^ 31) : ∃ o,
    Run (Step Malloc.backend) (Scope Malloc.backend) (new (devices n)) o ∧
    ⟨2 ^ 31, 1, 2 ^ 31⟩ ∈ o.live ∧
    o.balance.deallocate Malloc.backend (2 ^ 31) 1 = .error .outOfBounds := by
  obtain ⟨o, hrun, -, hrest, -, hdone⟩ := run_ones (n := n) (by omega) n le_rfl
  obtain ⟨hin, hfind⟩ := hdone (2 ^ 31) hlo
  refine ⟨o, hrun, hin, ?_⟩
  -- the `int` is negative, and the `size_t` it is read as is far above
  have hid : n ≤ SizeT.ofInt (SizeT.toInt32 (2 ^ 31)) :=
    hhi.trans (show 2 ^ 64 - 2 ^ 31 ≤ _ by decide)
  unfold deallocate
  rw [if_neg Nat.one_ne_zero, hfind]
  have hnone : o.balance.backends[SizeT.ofInt (SizeT.toInt32 (2 ^ 31))]? = none := by
    rw [hrest _ hid, List.getElem?_eq_none]
    rw [devices, List.length_map, List.length_range]
    exact hid
  simp only [hnone]

/-- The claim fails when there are `2^31 + 1` backends. -/
theorem returned_out_of_bounds : ∃ o,
    Run (Step Malloc.backend) (Scope Malloc.backend) (new (devices (2 ^ 31 + 1))) o ∧
    ⟨2 ^ 31, 1, 2 ^ 31⟩ ∈ o.live ∧
    o.balance.deallocate Malloc.backend (2 ^ 31) 1 = .error .outOfBounds :=
  stuck_of_many (Nat.lt_succ_self _) (by decide)

end Shared

end MemoryBackendBalance

end IoCatcher
