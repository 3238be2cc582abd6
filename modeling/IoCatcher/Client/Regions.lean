import IoCatcher.Lib.OrderedMap
import IoCatcher.Lib.Run
import IoCatcher.Model.Server
import IoCatcher.Wire.Protocol
import Mathlib.Data.List.Pairwise

/-!
# IO Catcher — the RDMA regions of a client

`obj_read` and `obj_write` register the buffer of the user with libfabric when
the transfer is too large for a message, and unregister it when the server has
answered. `LibfabricDomain` keeps the registered regions in a map from the last
byte of a region to the region, so that `lower_bound` of an address finds the
first region that ends at or after it.

All threads of a client share one domain. The steps are the sections under
`segmentMutex`: `registerSegment` takes it twice, first in the `getMR` of its
assertion and then to insert the region, and `unregisterSegment` takes it once.

The assertion of `registerSegment` looks at the first byte of the new buffer
only. A buffer that starts before a region and reaches into it passes
(`overlapping_region_accepted`); when no such buffer is used, and no two threads
are between their assertion and their insertion with buffers that overlap, the
registry is exact (`exact_of_clear`). Without this, the next steps can make two
regions overlap (`overlap_of_not_clear`).
-/

namespace IoCatcher.Client

open Wire

-- ---------------------------------------------------------------------------
-- The domain
-- ---------------------------------------------------------------------------

/-- `MemoryRegion`. The handle `mr` stands for the `fid_mr` of libfabric. -/
structure MemoryRegion where
  ptr  : Nat
  size : Nat
  mr   : Nat
  deriving DecidableEq

/-- The region has the address. -/
def MemoryRegion.Contains (r : MemoryRegion) (p : Nat) : Prop := r.ptr ≤ p ∧ p < r.ptr + r.size

instance (r : MemoryRegion) (p : Nat) : Decidable (r.Contains p) :=
  inferInstanceAs (Decidable (_ ∧ _))

/-- Two buffers without a common byte. -/
def Apart (ptr size ptr' size' : Nat) : Prop := ptr + size ≤ ptr' ∨ ptr' + size' ≤ ptr

instance (ptr size ptr' size' : Nat) : Decidable (Apart ptr size ptr' size') :=
  inferInstanceAs (Decidable (_ ∨ _))

theorem Apart.symm {ptr size ptr' size' : Nat} (h : Apart ptr size ptr' size') :
    Apart ptr' size' ptr size := Or.symm h

/-- The part of `LibfabricDomain` that registers memory. -/
structure LibfabricDomain where
  /-- Each region under the address of its last byte. -/
  segments   : OrderedMap Nat MemoryRegion
  virtMrMode : Bool
  /-- The next handle of `fi_mr_reg`. -/
  cnt        : Nat
  /-- What libfabric has registered: from `fi_mr_reg` to `fi_close`. -/
  opened     : List MemoryRegion

namespace LibfabricDomain

/-- `LibfabricDomain::getMR`. The size only decides on a warning. -/
def getMR (d : LibfabricDomain) (ptr _size : Nat) : Option MemoryRegion :=
  match d.segments.lowerBound ptr with
  | [] => none
  | it :: _ => if it.2.Contains ptr then some it.2 else none

/-- The section of `registerSegment` under the mutex, with the `Iov` it returns.
The key is the choice of libfabric. -/
def insertSegment (d : LibfabricDomain) (ptr size : Nat) (key : UInt64) :
    LibfabricDomain × MemoryRegion × Iov :=
  let region : MemoryRegion := ⟨ptr, size, d.cnt⟩
  ({ d with
      segments := d.segments.insert (ptr + size - 1) region
      cnt := d.cnt + 1
      opened := region :: d.opened },
    region, ⟨if d.virtMrMode then ptr.toUInt64 else 0, key⟩)

/-- `LibfabricDomain::unregisterSegment`, `none` when one of its checks fails. The
size plays no role. -/
def unregisterSegment (d : LibfabricDomain) (ptr _size : Nat) : Option LibfabricDomain :=
  match d.segments.lowerBound ptr with
  | [] => none
  | it :: _ =>
    if it.2.Contains ptr then
      some { d with
        segments := d.segments.erase it.1
        opened := d.opened.filter fun r => r.mr ≠ it.2.mr }
    else none

end LibfabricDomain

-- ---------------------------------------------------------------------------
-- The threads
-- ---------------------------------------------------------------------------

/-- `IOC_EAGER_MAX_WRITE`. -/
def eagerMaxWrite : Nat := 32 * 1024

/-- The two operations that register a buffer. -/
inductive Operation where
  | objRead
  | objWrite
  deriving DecidableEq

/-- A transfer up to this size goes inside the messages and registers nothing. -/
def Operation.eagerMax : Operation → Nat
  | .objRead => eagerMaxRead
  | .objWrite => eagerMaxWrite

/-- Where a thread of the application is. -/
inductive UserThread where
  /-- In none of the two operations, or in one that registers nothing. -/
  | idle
  /-- In `registerSegment`, after its assertions. -/
  | checked (op : Operation) (ptr size : Nat)
  /-- `registerSegment` returned, with the region it made. -/
  | registered (op : Operation) (ptr size : Nat) (region : MemoryRegion) (iov : Iov)

/-- The buffer a thread has registered or is about to register. -/
def UserThread.buffer : UserThread → Option (Nat × Nat)
  | .idle => none
  | .checked _ ptr size | .registered _ ptr size _ _ => some (ptr, size)

/-- The domain and the threads that share it. -/
structure Registry where
  domain  : LibfabricDomain
  threads : List UserThread

/-- What happens in one step. -/
inductive RegistryEvent where
  /-- The application starts one more thread. -/
  | spawn
  /-- A thread calls an operation and passes the assertions of `registerSegment`. -/
  | check (thread : Nat) (op : Operation) (ptr size : Nat)
  /-- The second section of `registerSegment`. -/
  | insert (thread : Nat) (key : UInt64)
  /-- The server has answered: `unregisterSegment`. -/
  | unregister (thread : Nat)

inductive RegistryFault where
  /-- An `assert` or an `assume` fails. -/
  | assertion
  /-- The event is not the next one of its thread. -/
  | impossible
  deriving DecidableEq

namespace Registry

/-- One step of one thread. -/
def exec (s : Registry) : RegistryEvent → Except RegistryFault Registry
  | .spawn => .ok { s with threads := s.threads ++ [.idle] }
  | .check t op ptr size =>
    match s.threads[t]? with
    | some .idle =>
      if op.eagerMax < size then
        if ptr ≠ 0 ∧ size > 0 ∧ s.domain.getMR ptr size = none then
          .ok { s with threads := s.threads.set t (.checked op ptr size) }
        else .error .assertion
      else .error .impossible
    | _ => .error .impossible
  | .insert t key =>
    match s.threads[t]? with
    | some (.checked op ptr size) =>
      let (domain, region, iov) := s.domain.insertSegment ptr size key
      .ok ⟨domain, s.threads.set t (.registered op ptr size region iov)⟩
    | _ => .error .impossible
  | .unregister t =>
    match s.threads[t]? with
    | some (.registered _ ptr size _ _) =>
      match s.domain.unregisterSegment ptr size with
      | some domain => .ok ⟨domain, s.threads.set t .idle⟩
      | none => .error .assertion
    | _ => .error .impossible

/-- One step in which every assertion holds. -/
def Step (s : Registry) (e : RegistryEvent) (s' : Registry) : Prop := s.exec e = .ok s'

/-- A client that was just started. -/
def new (virtMrMode : Bool) : Registry := ⟨⟨.empty, virtMrMode, 0, []⟩, []⟩

/-- What a step can do. -/
theorem step_cases {s s' : Registry} {e : RegistryEvent} (h : Step s e s') :
    (e = .spawn ∧ s' = { s with threads := s.threads ++ [.idle] }) ∨
    (∃ t op ptr size, e = .check t op ptr size ∧ s.threads[t]? = some .idle ∧
      0 < size ∧ s.domain.getMR ptr size = none ∧
      s' = { s with threads := s.threads.set t (.checked op ptr size) }) ∨
    (∃ t key op ptr size, e = .insert t key ∧ s.threads[t]? = some (.checked op ptr size) ∧
      s' = ⟨(s.domain.insertSegment ptr size key).1,
        s.threads.set t (.registered op ptr size (s.domain.insertSegment ptr size key).2.1
          (s.domain.insertSegment ptr size key).2.2)⟩) ∨
    (∃ t op ptr size region iov domain, e = .unregister t ∧
      s.threads[t]? = some (.registered op ptr size region iov) ∧
      s.domain.unregisterSegment ptr size = some domain ∧
      s' = ⟨domain, s.threads.set t .idle⟩) := by
  unfold Step at h
  cases e with
  | spawn => exact .inl ⟨rfl, (Except.ok.inj h).symm⟩
  | check t op ptr size =>
    simp only [exec] at h
    split at h
    · rename_i ht
      split_ifs at h with hsize hassert
      exact .inr (.inl ⟨t, op, ptr, size, rfl, ht, hassert.2.1, hassert.2.2,
        (Except.ok.inj h).symm⟩)
    · exact absurd h (by simp)
  | insert t key =>
    simp only [exec] at h
    split at h
    · rename_i op ptr size ht
      exact .inr (.inr (.inl ⟨t, key, op, ptr, size, rfl, ht, (Except.ok.inj h).symm⟩))
    · exact absurd h (by simp)
  | unregister t =>
    simp only [exec] at h
    split at h
    · rename_i op ptr size region iov ht
      split at h
      · rename_i domain hd
        exact .inr (.inr (.inr ⟨t, op, ptr, size, region, iov, domain, rfl, ht, hd,
          (Except.ok.inj h).symm⟩))
      · exact absurd h (by simp)
    · exact absurd h (by simp)

-- ---------------------------------------------------------------------------
-- What the registry is for
-- ---------------------------------------------------------------------------

/-- The regions are disjoint, the `unregisterSegment` a thread has still to make
removes and closes the region of its own `registerSegment` and nothing else, and
`getMR` finds the region of an address. -/
structure Exact (s : Registry) : Prop where
  disjoint   : s.domain.opened.Pairwise fun r r' => Apart r.ptr r.size r'.ptr r'.size
  unregister : ∀ (t : Nat) op ptr size region iov,
    s.threads[t]? = some (.registered op ptr size region iov) →
      region.ptr = ptr ∧ region.size = size ∧ region ∈ s.domain.opened ∧
      ∃ s', Step s (.unregister t) s' ∧
        (∀ r, r ∈ s'.domain.opened ↔ r ∈ s.domain.opened ∧ r ≠ region) ∧
        ∀ it, it ∈ s'.domain.segments.entries ↔ it ∈ s.domain.segments.entries ∧ it.2 ≠ region
  getMR      : ∀ r ∈ s.domain.opened, ∀ ptr size, r.Contains ptr →
    s.domain.getMR ptr size = some r

/-- What the assertion of `registerSegment` leaves to the caller: no region in use
starts inside the new buffer, and the buffers other threads are about to register
do not overlap it. -/
def Clear (s : Registry) : RegistryEvent → Prop
  | .check _ _ ptr size => ∀ thread ∈ s.threads,
    match thread with
    | .idle => True
    | .checked _ ptr' size' => Apart ptr size ptr' size'
    | .registered _ ptr' _ _ _ => ¬ (ptr ≤ ptr' ∧ ptr' < ptr + size)
  | .spawn | .insert .. | .unregister _ => True

-- ---------------------------------------------------------------------------
-- Invariant
-- ---------------------------------------------------------------------------

/-- The buffer of the thread at an index. -/
def buffer (s : Registry) (t : Nat) : Option (Nat × Nat) := s.threads[t]?.bind UserThread.buffer

/-- The map holds the opened regions, each of them is the region of a thread, and
the buffers of the threads are disjoint. -/
structure Inv (s : Registry) : Prop where
  last   : ∀ k r, (k, r) ∈ s.domain.segments.entries → k + 1 = r.ptr + r.size
  mapped : ∀ r, r ∈ s.domain.opened ↔ ∃ k, (k, r) ∈ s.domain.segments.entries
  opened : s.domain.opened.Pairwise fun r r' =>
    Apart r.ptr r.size r'.ptr r'.size ∧ r.mr ≠ r'.mr
  fresh  : ∀ r ∈ s.domain.opened, r.mr < s.domain.cnt
  owned  : ∀ r ∈ s.domain.opened, ∃ (t : Nat) (op : Operation) (iov : Iov),
    s.threads[t]? = some (.registered op r.ptr r.size r iov)
  made   : ∀ (t : Nat) op ptr size region iov,
    s.threads[t]? = some (.registered op ptr size region iov) →
      region.ptr = ptr ∧ region.size = size ∧ region ∈ s.domain.opened
  filled : ∀ t ptr size, s.buffer t = some (ptr, size) → 0 < size
  apart  : ∀ t t' ptr size ptr' size', t ≠ t' → s.buffer t = some (ptr, size) →
    s.buffer t' = some (ptr', size') → Apart ptr size ptr' size'

theorem inv_new (virtMrMode : Bool) : Inv (new virtMrMode) := by
  constructor <;> simp [new, buffer]

section Lookup

variable {s : Registry} (h : Inv s) {r : MemoryRegion}

include h

/-- The buffer of the thread that owns a region. -/
theorem Inv.buffer_of_mem (hr : r ∈ s.domain.opened) :
    ∃ t op iov, s.threads[t]? = some (.registered op r.ptr r.size r iov) ∧
      s.buffer t = some (r.ptr, r.size) := by
  obtain ⟨t, op, iov, ht⟩ := h.owned r hr
  exact ⟨t, op, iov, ht, by simp [buffer, ht, UserThread.buffer]⟩

theorem Inv.size_pos (hr : r ∈ s.domain.opened) : 0 < r.size := by
  obtain ⟨t, -, -, -, hb⟩ := h.buffer_of_mem hr
  exact h.filled t _ _ hb

/-- Two regions that are not the same are disjoint. -/
theorem Inv.apart_of_mem {r' : MemoryRegion} (hr : r ∈ s.domain.opened)
    (hr' : r' ∈ s.domain.opened) (hne : r ≠ r') :
    Apart r.ptr r.size r'.ptr r'.size ∧ r.mr ≠ r'.mr := by
  have hsymm : Std.Symm fun r r' : MemoryRegion =>
      Apart r.ptr r.size r'.ptr r'.size ∧ r.mr ≠ r'.mr :=
    ⟨fun _ _ hh => ⟨hh.1.symm, Ne.symm hh.2⟩⟩
  exact h.opened.forall hr hr' hne

/-- `lower_bound` of an address of a region is that region: the one before it
ends below the address, and the map has no other between. -/
theorem Inv.lowerBound_eq {p : Nat} (hr : r ∈ s.domain.opened) (hp : r.Contains p) :
    ∃ k rest, s.domain.segments.lowerBound p = (k, r) :: rest ∧
      (k, r) ∈ s.domain.segments.entries := by
  obtain ⟨k, hk⟩ := (h.mapped r).mp hr
  have hlast := h.last k r hk
  obtain ⟨hlo, hhi⟩ := hp
  obtain ⟨k', r', rest, hlb, hle⟩ := OrderedMap.exists_lowerBound_eq_cons hk
    (show p ≤ k by omega)
  have hmem : (k', r') ∈ s.domain.segments.lowerBound p := by simp [hlb]
  obtain ⟨hmem', hpk'⟩ := OrderedMap.mem_lowerBound.mp hmem
  have hlast' := h.last k' r' hmem'
  have hr' : r' ∈ s.domain.opened := (h.mapped r').mpr ⟨k', hmem'⟩
  have hpos' := h.size_pos hr'
  by_cases heq : r = r'
  · subst heq
    exact ⟨k', rest, hlb, hmem'⟩
  · -- the last byte of the region found would be inside `r`
    have hapart := (h.apart_of_mem hr hr' heq).1
    simp only [Apart] at hapart
    dsimp only at hpk'
    omega

/-- `getMR` finds the region of an address. -/
theorem Inv.getMR_eq {p : Nat} (n : Nat) (hr : r ∈ s.domain.opened) (hp : r.Contains p) :
    s.domain.getMR p n = some r := by
  obtain ⟨k, rest, hlb, -⟩ := h.lowerBound_eq hr hp
  simp [LibfabricDomain.getMR, hlb, hp]

/-- The check of `unregisterSegment` finds the region of its own address, and the
region alone goes. -/
theorem Inv.unregisterSegment_eq (hr : r ∈ s.domain.opened) :
    ∃ k, (k, r) ∈ s.domain.segments.entries ∧
      s.domain.unregisterSegment r.ptr r.size = some { s.domain with
        segments := s.domain.segments.erase k
        opened := s.domain.opened.filter fun r' => r'.mr ≠ r.mr } := by
  have hpos := h.size_pos hr
  have hown : r.Contains r.ptr := ⟨Nat.le_refl _, by omega⟩
  obtain ⟨k, rest, hlb, hmem⟩ := h.lowerBound_eq hr hown
  refine ⟨k, hmem, ?_⟩
  simp [LibfabricDomain.unregisterSegment, hlb, hown]

/-- The regions libfabric still has after the close. -/
theorem Inv.mem_close (hr : r ∈ s.domain.opened) (r' : MemoryRegion) :
    r' ∈ (s.domain.opened.filter fun r' => r'.mr ≠ r.mr) ↔ r' ∈ s.domain.opened ∧ r' ≠ r := by
  rw [List.mem_filter, decide_eq_true_eq]
  refine and_congr_right fun hr' => ?_
  constructor
  · rintro hmr rfl
    exact hmr rfl
  · intro hne
    exact (h.apart_of_mem hr' hr hne).2

/-- The entries of the map after the erase. -/
theorem Inv.mem_erase {k : Nat} (hk : (k, r) ∈ s.domain.segments.entries)
    (it : Nat × MemoryRegion) :
    it ∈ (s.domain.segments.erase k).entries ↔ it ∈ s.domain.segments.entries ∧ it.2 ≠ r := by
  rw [OrderedMap.mem_erase]
  refine and_congr_right fun hit => ?_
  obtain ⟨k', r'⟩ := it
  constructor
  · rintro hne rfl
    have := h.last k r' hk
    have := h.last k' r' hit
    exact hne (show k' = k by omega)
  · rintro hne rfl
    exact hne (OrderedMap.mem_unique hit hk)

end Lookup

/-- A state with the invariant is exact. -/
theorem Inv.exact {s : Registry} (h : Inv s) : Exact s where
  disjoint := h.opened.imp fun hh => hh.1
  getMR _ hr _ size hp := h.getMR_eq size hr hp
  unregister t op ptr size region iov ht := by
    obtain ⟨rfl, rfl, hr⟩ := h.made t op ptr size region iov ht
    obtain ⟨k, hk, heq⟩ := h.unregisterSegment_eq hr
    refine ⟨rfl, rfl, hr, ?_⟩
    refine ⟨⟨{ s.domain with
      segments := s.domain.segments.erase k
      opened := s.domain.opened.filter fun r' => r'.mr ≠ region.mr }, s.threads.set t .idle⟩,
      ?_, h.mem_close hr, h.mem_erase hk⟩
    simp only [Step, exec, ht, heq]

-- ---------------------------------------------------------------------------
-- Steps
-- ---------------------------------------------------------------------------

/-- The buffers after a thread moved. -/
theorem buffer_move {s : Registry} (domain : LibfabricDomain) {t : Nat} {a b : UserThread}
    (ht : s.threads[t]? = some a) (i : Nat) :
    buffer ⟨domain, s.threads.set t b⟩ i = if i = t then b.buffer else s.buffer i := by
  unfold buffer
  rw [Thread.getElem?_move ht]
  by_cases hi : i = t
  · rw [if_pos hi, if_pos hi]
    rfl
  · rw [if_neg hi, if_neg hi]

/-- Another thread stays where it is. -/
theorem threads_move {threads : List UserThread} {t : Nat} {a b : UserThread}
    (ht : threads[t]? = some a) {i : Nat} (hi : i ≠ t) : (threads.set t b)[i]? = threads[i]? := by
  rw [Thread.getElem?_move ht, if_neg hi]

theorem Inv.spawn {s : Registry} (h : Inv s) :
    Inv { s with threads := s.threads ++ [.idle] } := by
  have hget : ∀ {i : Nat} {a : UserThread}, a ≠ .idle →
      ((s.threads ++ [.idle])[i]? = some a ↔ s.threads[i]? = some a) := by
    intro i a ha
    rw [Thread.getElem?_spawn]
    by_cases hi : i = s.threads.length
    · rw [if_pos hi, hi, List.getElem?_eq_none (Nat.le_refl _)]
      simp [Ne.symm ha]
    · rw [if_neg hi]
  have hbuffer : ∀ i, buffer { s with threads := s.threads ++ [.idle] } i = s.buffer i := by
    intro i
    unfold buffer
    dsimp only
    rw [Thread.getElem?_spawn]
    by_cases hi : i = s.threads.length
    · rw [if_pos hi, hi, List.getElem?_eq_none (Nat.le_refl _)]
      rfl
    · rw [if_neg hi]
  refine ⟨h.last, h.mapped, h.opened, h.fresh, ?_, ?_, ?_, ?_⟩
  · intro r hr
    obtain ⟨t, op, iov, ht⟩ := h.owned r hr
    exact ⟨t, op, iov, (hget (by simp)).mpr ht⟩
  · intro t op ptr size region iov ht
    exact h.made t op ptr size region iov ((hget (by simp)).mp ht)
  · intro t ptr size ht
    exact h.filled t ptr size (hbuffer t ▸ ht)
  · intro t t' ptr size ptr' size' hne ht ht'
    exact h.apart t t' ptr size ptr' size' hne (hbuffer t ▸ ht) (hbuffer t' ▸ ht')

/-- The assertion and the guard together keep the new buffer away from the buffers
of all other threads. -/
theorem Inv.apart_of_clear {s : Registry} (h : Inv s) {t t' : Nat} {op : Operation}
    {ptr size ptr' size' : Nat} (hmr : s.domain.getMR ptr size = none)
    (hclear : s.Clear (.check t op ptr size)) (hb : s.buffer t' = some (ptr', size')) :
    Apart ptr size ptr' size' := by
  obtain ⟨thread, ht', hthread⟩ := Option.bind_eq_some_iff.mp hb
  have hspec := hclear thread (List.mem_of_getElem? ht')
  cases thread with
  | idle => exact absurd hthread (by simp [UserThread.buffer])
  | checked op' p n =>
    cases hthread
    exact hspec
  | registered op' p n region iov =>
    cases hthread
    obtain ⟨rfl, rfl, hr⟩ := h.made t' op' _ _ region iov ht'
    -- the assertion: the new buffer does not start inside the region
    have hout : ¬ region.Contains ptr := by
      intro hin
      rw [h.getMR_eq size hr hin] at hmr
      exact absurd hmr (by simp)
    simp only [MemoryRegion.Contains] at hout
    simp only [Apart]
    dsimp only at hspec
    omega

theorem Inv.check {s : Registry} (h : Inv s) {t : Nat} {op : Operation} {ptr size : Nat}
    (ht : s.threads[t]? = some .idle) (hsize : 0 < size) (hmr : s.domain.getMR ptr size = none)
    (hclear : s.Clear (.check t op ptr size)) :
    Inv { s with threads := s.threads.set t (.checked op ptr size) } := by
  have hbuffer := buffer_move s.domain (b := .checked op ptr size) ht
  refine ⟨h.last, h.mapped, h.opened, h.fresh, ?_, ?_, ?_, ?_⟩
  · intro r hr
    obtain ⟨t', op', iov, ht'⟩ := h.owned r hr
    have hne : t' ≠ t := by
      rintro rfl
      rw [ht] at ht'
      cases ht'
    exact ⟨t', op', iov, (threads_move ht hne).trans ht'⟩
  · intro t' op' ptr' size' region iov ht'
    have hne : t' ≠ t := by
      rintro rfl
      rw [Thread.getElem?_move ht, if_pos rfl] at ht'
      cases ht'
    exact h.made t' op' ptr' size' region iov ((threads_move ht hne).symm.trans ht')
  · intro t' ptr' size' hb
    rw [hbuffer] at hb
    by_cases hi : t' = t
    · rw [if_pos hi] at hb
      cases hb
      exact hsize
    · rw [if_neg hi] at hb
      exact h.filled t' ptr' size' hb
  · intro t₁ t₂ ptr₁ size₁ ptr₂ size₂ hne hb₁ hb₂
    rw [hbuffer] at hb₁ hb₂
    by_cases h₁ : t₁ = t
    · have h₂ : t₂ ≠ t := fun h₂ => hne (h₁.trans h₂.symm)
      rw [if_pos h₁] at hb₁
      rw [if_neg h₂] at hb₂
      cases hb₁
      exact h.apart_of_clear hmr hclear hb₂
    · rw [if_neg h₁] at hb₁
      by_cases h₂ : t₂ = t
      · rw [if_pos h₂] at hb₂
        cases hb₂
        exact (h.apart_of_clear hmr hclear hb₁).symm
      · rw [if_neg h₂] at hb₂
        exact h.apart t₁ t₂ ptr₁ size₁ ptr₂ size₂ hne hb₁ hb₂

theorem Inv.insert {s : Registry} (h : Inv s) {t : Nat} {op : Operation} {ptr size : Nat}
    (key : UInt64) (ht : s.threads[t]? = some (.checked op ptr size)) :
    Inv ⟨(s.domain.insertSegment ptr size key).1,
      s.threads.set t (.registered op ptr size (s.domain.insertSegment ptr size key).2.1
        (s.domain.insertSegment ptr size key).2.2)⟩ := by
  have hown : s.buffer t = some (ptr, size) := by simp [buffer, ht, UserThread.buffer]
  have hsize : 0 < size := h.filled t ptr size hown
  -- the new region is disjoint from the others, so its last byte is a new key
  have hnew : ∀ r ∈ s.domain.opened, Apart ptr size r.ptr r.size := by
    intro r hr
    obtain ⟨t', op', iov, ht', hb⟩ := h.buffer_of_mem hr
    refine h.apart t t' ptr size r.ptr r.size ?_ hown hb
    rintro rfl
    rw [ht] at ht'
    cases ht'
  have hkey : ∀ k r, (k, r) ∈ s.domain.segments.entries → k ≠ ptr + size - 1 := by
    rintro k r hk rfl
    have hr := (h.mapped r).mpr ⟨_, hk⟩
    have hlast := h.last _ r hk
    have hpos := h.size_pos hr
    have hapart := hnew r hr
    simp only [Apart] at hapart
    omega
  have hbuffer : ∀ i, buffer ⟨(s.domain.insertSegment ptr size key).1,
      s.threads.set t (.registered op ptr size (s.domain.insertSegment ptr size key).2.1
        (s.domain.insertSegment ptr size key).2.2)⟩ i = s.buffer i := by
    intro i
    rw [buffer_move _ ht]
    by_cases hi : i = t
    · rw [if_pos hi, hi, hown]
      rfl
    · rw [if_neg hi]
  constructor
  · intro k r hk
    rcases OrderedMap.mem_insert.mp hk with heq | ⟨-, hk⟩
    · cases heq
      dsimp only
      omega
    · exact h.last k r hk
  · intro r
    constructor
    · intro hr
      rcases List.mem_cons.mp hr with rfl | hr
      · exact ⟨_, OrderedMap.mem_insert.mpr (.inl rfl)⟩
      · obtain ⟨k, hk⟩ := (h.mapped r).mp hr
        exact ⟨k, OrderedMap.mem_insert.mpr (.inr ⟨hkey k r hk, hk⟩)⟩
    · rintro ⟨k, hk⟩
      rcases OrderedMap.mem_insert.mp hk with heq | ⟨-, hk⟩
      · cases heq
        exact List.mem_cons_self
      · exact List.mem_cons_of_mem _ ((h.mapped r).mpr ⟨k, hk⟩)
  · refine List.pairwise_cons.mpr ⟨fun r hr => ⟨hnew r hr, ?_⟩, h.opened⟩
    exact Ne.symm (Nat.ne_of_lt (h.fresh r hr))
  · intro r hr
    rcases List.mem_cons.mp hr with rfl | hr
    · exact Nat.lt_succ_self _
    · exact Nat.lt_succ_of_lt (h.fresh r hr)
  · intro r hr
    rcases List.mem_cons.mp hr with rfl | hr
    · exact ⟨t, op, _, by rw [Thread.getElem?_move ht, if_pos rfl]; rfl⟩
    · obtain ⟨t', op', iov, ht'⟩ := h.owned r hr
      have hne : t' ≠ t := by
        rintro rfl
        rw [ht] at ht'
        cases ht'
      exact ⟨t', op', iov, (threads_move ht hne).trans ht'⟩
  · intro t' op' ptr' size' region iov ht'
    rw [Thread.getElem?_move ht] at ht'
    by_cases hi : t' = t
    · rw [if_pos hi] at ht'
      cases ht'
      exact ⟨rfl, rfl, List.mem_cons_self⟩
    · rw [if_neg hi] at ht'
      obtain ⟨hptr, hsz, hr⟩ := h.made t' op' ptr' size' region iov ht'
      exact ⟨hptr, hsz, List.mem_cons_of_mem _ hr⟩
  · intro t' ptr' size' hb
    rw [hbuffer] at hb
    exact h.filled t' ptr' size' hb
  · intro t₁ t₂ ptr₁ size₁ ptr₂ size₂ hne hb₁ hb₂
    rw [hbuffer] at hb₁ hb₂
    exact h.apart t₁ t₂ ptr₁ size₁ ptr₂ size₂ hne hb₁ hb₂

theorem Inv.unregister {s : Registry} (h : Inv s) {t : Nat} {op : Operation} {ptr size : Nat}
    {region : MemoryRegion} {iov : Iov} {domain : LibfabricDomain}
    (ht : s.threads[t]? = some (.registered op ptr size region iov))
    (hd : s.domain.unregisterSegment ptr size = some domain) :
    Inv ⟨domain, s.threads.set t .idle⟩ := by
  obtain ⟨rfl, rfl, hr⟩ := h.made t op ptr size region iov ht
  obtain ⟨k, hk, heq⟩ := h.unregisterSegment_eq hr
  obtain rfl := Option.some.inj (heq.symm.trans hd)
  have hclose := h.mem_close hr
  have herase := h.mem_erase hk
  have hbuffer := buffer_move ⟨s.domain.segments.erase k, s.domain.virtMrMode,
    s.domain.cnt, s.domain.opened.filter fun r' => r'.mr ≠ region.mr⟩ (b := .idle) ht
  constructor
  · intro k' r hk'
    exact h.last k' r ((herase _).mp hk').1
  · intro r
    dsimp only
    rw [hclose, h.mapped]
    constructor
    · rintro ⟨⟨k', hk'⟩, hne⟩
      exact ⟨k', (herase _).mpr ⟨hk', hne⟩⟩
    · rintro ⟨k', hk'⟩
      obtain ⟨hmem, hne⟩ := (herase _).mp hk'
      exact ⟨⟨k', hmem⟩, hne⟩
  · exact h.opened.filter _
  · intro r hr'
    exact h.fresh r ((hclose r).mp hr').1
  · intro r hr'
    obtain ⟨hmem, hne⟩ := (hclose r).mp hr'
    obtain ⟨t', op', iov', ht'⟩ := h.owned r hmem
    refine ⟨t', op', iov', (threads_move ht ?_).trans ht'⟩
    rintro rfl
    have hsame := UserThread.registered.inj (Option.some.inj (ht.symm.trans ht'))
    exact hne hsame.2.2.2.1.symm
  · intro t' op' ptr' size' region' iov' ht'
    rw [Thread.getElem?_move ht] at ht'
    by_cases hi : t' = t
    · rw [if_pos hi] at ht'
      cases ht'
    · rw [if_neg hi] at ht'
      obtain ⟨hptr, hsz, hmem⟩ := h.made t' op' ptr' size' region' iov' ht'
      refine ⟨hptr, hsz, (hclose region').mpr ⟨hmem, ?_⟩⟩
      -- two threads with one region would have overlapping buffers
      rintro rfl
      have hb : s.buffer t = some (region'.ptr, region'.size) := by
        simp [buffer, ht, UserThread.buffer]
      have hb' : s.buffer t' = some (region'.ptr, region'.size) := by
        simp [buffer, ht', UserThread.buffer, hptr, hsz]
      have hapart := h.apart t' t _ _ _ _ hi hb' hb
      have hpos := h.size_pos hr
      simp only [Apart] at hapart
      omega
  · intro t' ptr' size' hb
    rw [hbuffer] at hb
    by_cases hi : t' = t
    · rw [if_pos hi] at hb
      cases hb
    · rw [if_neg hi] at hb
      exact h.filled t' ptr' size' hb
  · intro t₁ t₂ ptr₁ size₁ ptr₂ size₂ hne hb₁ hb₂
    rw [hbuffer] at hb₁ hb₂
    by_cases h₁ : t₁ = t
    · rw [if_pos h₁] at hb₁
      cases hb₁
    · by_cases h₂ : t₂ = t
      · rw [if_pos h₂] at hb₂
        cases hb₂
      · rw [if_neg h₁] at hb₁
        rw [if_neg h₂] at hb₂
        exact h.apart t₁ t₂ ptr₁ size₁ ptr₂ size₂ hne hb₁ hb₂

/-- Every step that meets the guard keeps the invariant. -/
theorem Inv.step {s s' : Registry} {e : RegistryEvent} (h : Inv s) (hclear : s.Clear e)
    (hstep : Step s e s') : Inv s' := by
  obtain ⟨-, rfl⟩ | ⟨t, op, ptr, size, rfl, ht, hsize, hmr, rfl⟩ |
    ⟨t, key, op, ptr, size, -, ht, rfl⟩ |
    ⟨t, op, ptr, size, region, iov, domain, -, ht, hd, rfl⟩ := step_cases hstep
  · exact h.spawn
  · exact h.check ht hsize hmr hclear
  · exact h.insert key ht
  · exact h.unregister ht hd

-- ---------------------------------------------------------------------------
-- Results
-- ---------------------------------------------------------------------------

instance (s : Registry) : DecidablePred s.Clear
  | .check _ _ _ _ =>
    @List.decidableBAll _ _ (fun
      | .idle => isTrue trivial
      | .checked .. => inferInstanceAs (Decidable (Apart ..))
      | .registered .. => inferInstanceAs (Decidable (¬ _))) s.threads
  | .spawn | .insert .. | .unregister _ => isTrue trivial

/-- In every run whose new buffers are clear of the buffers in use, the registry
is exact. -/
theorem exact_of_clear {virtMrMode : Bool} {s : Registry}
    (h : Run Step Clear (new virtMrMode) s) : Exact s :=
  (Run.invariant h (inv_new virtMrMode) fun hi hg hs => hi.step hg hs).exact

/-- An execution whose end passes a test shows that the threads get there. -/
theorem run_of_trace (guard : Registry → RegistryEvent → Prop) [∀ s e, Decidable (guard s e)]
    (es : List RegistryEvent) (virtMrMode : Bool) {p : Registry → Prop} [DecidablePred p]
    (h : (Run.trace exec guard es (new virtMrMode)).any (fun s => decide (p s)) = true) :
    ∃ s, Run Step guard (new virtMrMode) s ∧ p s := Run.exists_of_trace h

/-- A read and a write of adjacent buffers, at the same time. -/
theorem adjacent_buffers_exact :
    ∃ s, Run Step Clear (new true) s ∧ s.domain.opened.length = 2 ∧ Exact s := by
  obtain ⟨s, hrun, hlen⟩ := run_of_trace Clear
    [.spawn, .spawn, .check 0 .objRead 65536 65536, .check 1 .objWrite 131072 65536,
      .insert 1 7, .insert 0 8] true (p := fun s => s.domain.opened.length = 2) (by decide)
  exact ⟨s, hrun, hlen, exact_of_clear hrun⟩

/-- A read into a buffer, and a write from a buffer that starts before it and has
the same last byte: the assertion passes, and the region of the write takes the
place of the region of the read in the map. -/
theorem overlapping_region_accepted :
    ¬ ∀ s, Run Step (fun _ _ => True) (new true) s → Exact s := by
  intro hall
  obtain ⟨s, hrun, hbad⟩ := run_of_trace (fun _ _ => True)
    [.spawn, .spawn, .check 0 .objRead 131072 65536, .insert 0 7,
      .check 1 .objWrite 65536 131072, .insert 1 8] true
    (p := fun s => s.domain.opened = [⟨65536, 131072, 1⟩, ⟨131072, 65536, 0⟩]) (by decide)
  have hdisjoint := (hall s hrun).disjoint
  rw [hbad] at hdisjoint
  exact absurd hdisjoint (by decide)

/-- A thread that passed the assertion inserts its buffer. -/
theorem insert_step {s : Registry} {t : Nat} {op : Operation} {ptr size : Nat}
    (ht : s.threads[t]? = some (.checked op ptr size)) (key : UInt64) :
    Step s (.insert t key) ⟨(s.domain.insertSegment ptr size key).1,
      s.threads.set t (.registered op ptr size (s.domain.insertSegment ptr size key).2.1
        (s.domain.insertSegment ptr size key).2.2)⟩ := by
  simp only [Step, exec, ht]

/-- The guard asks for nothing more than is needed: when a thread passes the
assertion with a buffer that is not clear, the next steps of the threads can
register two regions that overlap. -/
theorem overlap_of_not_clear {s s' : Registry} (h : Inv s) {t : Nat} {op : Operation}
    {ptr size : Nat} (hstep : Step s (.check t op ptr size) s')
    (hclear : ¬ s.Clear (.check t op ptr size)) :
    ∃ s'', Run Step (fun _ _ => True) s' s'' ∧ ¬ Exact s'' := by
  obtain ⟨hev, -⟩ | ⟨t, op, ptr, size, hev, ht, hsize, -, rfl⟩ | ⟨t, key, op, ptr, size, hev, -⟩ |
    ⟨t, op, ptr, size, region, iov, domain, hev, -⟩ := step_cases hstep <;> cases hev
  simp only [Clear, not_forall] at hclear
  obtain ⟨thread, hmem, hbad⟩ := hclear
  obtain ⟨t', ht'⟩ := List.mem_iff_getElem?.mp hmem
  have hchecked := Thread.getElem?_move (b := UserThread.checked op ptr size) ht
  cases thread with
  | idle => exact absurd trivial hbad
  | checked op' ptr' size' =>
    -- both threads insert their buffers
    have hne : t' ≠ t := by
      rintro rfl
      rw [ht] at ht'
      cases ht'
    have hfirst := (hchecked t').trans ((if_neg hne).trans ht')
    have hsecond : ((s.threads.set t (.checked op ptr size)).set t' (.registered op' ptr' size'
        (s.domain.insertSegment ptr' size' 0).2.1 (s.domain.insertSegment ptr' size' 0).2.2))[t]? =
        some (.checked op ptr size) := by
      rw [Thread.getElem?_move hfirst, if_neg (Ne.symm hne), hchecked, if_pos rfl]
    refine ⟨_, .next (.next .start trivial (insert_step hfirst 0)) trivial
      (insert_step hsecond 0), fun hexact => ?_⟩
    exact hbad ((List.pairwise_cons.mp hexact.disjoint).1 _ List.mem_cons_self)
  | registered op' ptr' size' region iov =>
    obtain ⟨rfl, rfl, hr⟩ := h.made t' op' ptr' size' region iov ht'
    have hpos := h.size_pos hr
    have hfirst := (hchecked t).trans (if_pos rfl)
    refine ⟨_, .next .start trivial (insert_step hfirst 0), fun hexact => ?_⟩
    have hapart := (List.pairwise_cons.mp hexact.disjoint).1 region hr
    simp only [Apart] at hapart
    dsimp only at hbad
    omega

end Registry

end IoCatcher.Client
