import IoCatcher.Model.Backends

/-!
# IO Catcher — the memory backend of the server

`MemoryBackendCache` stands between the server and the backend that really
allocates. A chunk that is given back goes to the free list of its size and is
handed out again as it is: nothing clears it. The server runs on such a cache
over `MemoryBackendMalloc`, or over one `MemoryBackendNvdimm` per device.

The cache keeps the laws of `MemoryBackend` (`MemoryBackendCache.memoryBackend`). Its
assertions are on sizes and addresses that the server takes from its own
segments, and are left out.
-/

namespace IoCatcher

/-- The fields of `MemoryBackendCache`. -/
structure MemoryBackendCache (μ : Type) where
  backend       : μ
  /-- The free chunks per size. -/
  freeLists     : Nat → List Addr
  /-- Every chunk the sub backend has given, with its size. -/
  rangesTracker : Addr → Option Nat

namespace MemoryBackendCache

variable {μ : Type} (mb : MemoryBackend μ)

/-- `MemoryBackendCache::allocate`. -/
def allocate (m : MemoryBackendCache μ) (size : Nat) : Addr × MemoryBackendCache μ :=
  match m.freeLists size with
  | [] =>
    let r := mb.allocate m.backend size
    (r.1, { m with
      backend := r.2
      rangesTracker := fun a => if a = r.1 then some size else m.rangesTracker a })
  | ptr :: rest =>
    (ptr, { m with freeLists := fun n => if n = size then rest else m.freeLists n })

/-- `MemoryBackendCache::deallocate`. -/
def deallocate (m : MemoryBackendCache μ) (addr : Addr) (size : Nat) : MemoryBackendCache μ :=
  { m with freeLists := fun n => if n = size then addr :: m.freeLists n else m.freeLists n }

/-- The chunks in use: those of the sub backend that are in no free list. -/
def chunk (m : MemoryBackendCache μ) (a : Addr) : Option Nat :=
  (m.rangesTracker a).filter fun size => a ∉ m.freeLists size

/-- The tracker knows the chunks of the sub backend, and a free list holds
chunks of its size, each once. -/
structure Valid (m : MemoryBackendCache μ) : Prop where
  backend : mb.Valid m.backend
  tracked : ∀ a, m.rangesTracker a = mb.chunk m.backend a
  free    : ∀ {size a}, a ∈ m.freeLists size → m.rangesTracker a = some size
  nodup   : ∀ size, (m.freeLists size).Nodup

variable {mb} {m : MemoryBackendCache μ} {size : Nat} {addr a : Addr}

theorem chunk_eq_some : m.chunk a = some size ↔
    m.rangesTracker a = some size ∧ a ∉ m.freeLists size := by
  unfold chunk
  rw [Option.filter_eq_some_iff]
  simp

theorem chunk_eq_none_of_free (h : m.Valid mb) (ha : a ∈ m.freeLists size) :
    m.chunk a = none := by
  unfold chunk
  rw [h.free ha, Option.filter_some]
  simp [ha]

/-- Allocating from an empty free list asks the sub backend. -/
theorem allocate_nil (hfree : m.freeLists size = []) : m.allocate mb size =
    ((mb.allocate m.backend size).1, { m with
      backend := (mb.allocate m.backend size).2
      rangesTracker := fun a =>
        if a = (mb.allocate m.backend size).1 then some size else m.rangesTracker a }) := by
  unfold allocate
  rw [hfree]

/-- Otherwise the last chunk that was given back is taken. -/
theorem allocate_cons {rest : List Addr} (hfree : m.freeLists size = a :: rest) :
    m.allocate mb size =
      (a, { m with freeLists := fun n => if n = size then rest else m.freeLists n }) := by
  unfold allocate
  rw [hfree]

theorem valid_allocate (h : m.Valid mb) : (m.allocate mb size).2.Valid mb := by
  cases hfree : m.freeLists size with
  | nil =>
    rw [allocate_nil hfree]
    refine ⟨mb.valid_allocate h.backend, fun a => ?_, fun {n a} ha => ?_, h.nodup⟩
    · dsimp only
      rw [mb.chunk_allocate a h.backend, h.tracked]
    · have hne : a ≠ (mb.allocate m.backend size).1 := by
        rintro rfl
        have hsome := h.free ha
        rw [h.tracked, mb.allocate_fresh h.backend] at hsome
        exact absurd hsome (by simp)
      dsimp only
      rw [if_neg hne]
      exact h.free ha
  | cons ptr rest =>
    rw [allocate_cons hfree]
    have hnodup := h.nodup size
    rw [hfree] at hnodup
    refine ⟨h.backend, h.tracked, fun {n a} ha => ?_, fun n => ?_⟩
    · dsimp only at ha
      split_ifs at ha with hn
      · exact h.free (by rw [hn, hfree]; exact List.mem_cons_of_mem _ ha)
      · exact h.free ha
    · dsimp only
      split_ifs
      · exact (List.nodup_cons.mp hnodup).2
      · exact h.nodup n

theorem allocate_fresh (h : m.Valid mb) : m.chunk (m.allocate mb size).1 = none := by
  cases hfree : m.freeLists size with
  | nil =>
    rw [allocate_nil hfree]
    unfold chunk
    rw [h.tracked, mb.allocate_fresh h.backend]
    rfl
  | cons ptr rest =>
    rw [allocate_cons hfree]
    exact chunk_eq_none_of_free h (by rw [hfree]; exact List.mem_cons_self ..)

theorem chunk_allocate (a : Addr) (h : m.Valid mb) : (m.allocate mb size).2.chunk a =
    if a = (m.allocate mb size).1 then some size else m.chunk a := by
  cases hfree : m.freeLists size with
  | nil =>
    rw [allocate_nil hfree]
    dsimp only
    split_ifs with ha
    · rw [chunk_eq_some]
      dsimp only
      rw [if_pos ha, hfree]
      exact ⟨rfl, List.not_mem_nil⟩
    · unfold chunk
      dsimp only
      rw [if_neg ha]
  | cons ptr rest =>
    have hnodup := h.nodup size
    rw [hfree] at hnodup
    have hmem : ptr ∈ m.freeLists size := hfree ▸ List.mem_cons_self ..
    have hptr := h.free hmem
    rw [allocate_cons hfree]
    dsimp only
    split_ifs with ha
    · rw [chunk_eq_some, ha]
      dsimp only
      rw [if_pos rfl]
      exact ⟨hptr, (List.nodup_cons.mp hnodup).1⟩
    · unfold chunk
      dsimp only
      congr 1
      funext n
      split_ifs with hn
      · rw [hn, hfree]
        simp [List.mem_cons, ha]
      · rfl

theorem valid_deallocate (h : m.Valid mb) (hchunk : m.chunk addr = some size) :
    (m.deallocate addr size).Valid mb := by
  obtain ⟨htracked, hnot⟩ := chunk_eq_some.mp hchunk
  refine ⟨h.backend, h.tracked, fun {n a} ha => ?_, fun n => ?_⟩
  · unfold deallocate at ha
    dsimp only at ha
    split_ifs at ha with hn
    · rcases List.mem_cons.mp ha with rfl | ha
      · exact hn ▸ htracked
      · exact h.free ha
    · exact h.free ha
  · unfold deallocate
    dsimp only
    split_ifs with hn
    · exact List.nodup_cons.mpr ⟨hn ▸ hnot, h.nodup n⟩
    · exact h.nodup n

theorem chunk_deallocate (a : Addr) (hchunk : m.chunk addr = some size) :
    (m.deallocate addr size).chunk a = if a = addr then none else m.chunk a := by
  obtain ⟨htracked, -⟩ := chunk_eq_some.mp hchunk
  unfold chunk deallocate
  dsimp only
  split_ifs with ha
  · rw [ha, htracked, Option.filter_some]
    simp
  · congr 1
    funext n
    split_ifs with hn
    · simp [List.mem_cons, ha]
    · rfl

/-- The cache over a memory backend. -/
def memoryBackend (mb : MemoryBackend μ) : MemoryBackend (MemoryBackendCache μ) where
  allocate := allocate mb
  deallocate := deallocate
  chunk := chunk
  Valid := Valid mb
  valid_allocate := valid_allocate
  allocate_fresh := allocate_fresh
  chunk_allocate := chunk_allocate
  valid_deallocate := valid_deallocate
  chunk_deallocate := fun a _ => chunk_deallocate a

/-- A cache that has handed out nothing. -/
def new (backend : μ) : MemoryBackendCache μ := ⟨backend, fun _ => [], fun _ => none⟩

theorem valid_new {backend : μ} (h : mb.Valid backend) (hnone : ∀ a, mb.chunk backend a = none) :
    (new backend).Valid mb :=
  ⟨h, fun a => (hnone a).symm, fun ha => absurd ha List.not_mem_nil, fun _ => List.nodup_nil⟩

end MemoryBackendCache

end IoCatcher
