import IoCatcher.Lib.OrderedMap
import Mathlib.Algebra.Ring.Int.Defs
import Mathlib.Algebra.Ring.Nat
import Mathlib.Data.Prod.Lex

/-!
# IO Catcher — machine words, memory and storage

The parts of the server every object operation rests on:

* `SizeT` — `size_t` arithmetic modulo `2^64`, and the `ssize_t` / `int`
  conversions the source makes;
* `ObjectId` — the two-part object identifier with the order of the
  container's map;
* `MemoryBackend` / `Memory` — the allocator interface and the process memory
  it serves. A pointer is a chunk plus a byte displacement; a copy that leaves
  its chunk is undefined in C++ and is recorded in `Memory.overruns`;
* `StorageBackend` — the storage interface. The interface carries what its
  documentation promises (a full `pread` delivers the stored bytes, a full
  `pwrite` stores the given ones); the *results* of the calls are free, so any
  pattern of short or failed transfers is an instance.

Both interfaces are structures over an arbitrary state, with their laws as
fields: every result below holds for any backend that keeps them.
-/

namespace IoCatcher

/-! ## Machine words -/

namespace SizeT

/-- `a + b` on `size_t`. -/
def add (a b : Nat) : Nat := (a + b) % 2 ^ 64

/-- `a - b` on `size_t`. -/
def sub (a b : Nat) : Nat := (a + (2 ^ 64 - b % 2 ^ 64)) % 2 ^ 64

/-- Conversion of a signed value to `size_t`. -/
def ofInt (i : Int) : Nat := (i % 2 ^ 64).toNat

/-- Conversion of a `size_t` to a 32-bit `int`. -/
def toInt32 (n : Nat) : Int := ((n : Int) + 2 ^ 31) % 2 ^ 32 - 2 ^ 31

theorem add_eq {a b : Nat} (h : a + b < 2 ^ 64) : add a b = a + b := by
  unfold add
  omega

theorem sub_eq {a b : Nat} (hle : b ≤ a) (ha : a < 2 ^ 64) : sub a b = a - b := by
  unfold sub
  omega

theorem add_lt (a b : Nat) : add a b < 2 ^ 64 := Nat.mod_lt _ (by decide)

theorem ofInt_natCast {n : Nat} (h : n < 2 ^ 64) : ofInt n = n := by
  unfold ofInt
  omega

theorem toInt32_eq {n : Nat} (h : n < 2 ^ 31) : toInt32 n = n := by
  unfold toInt32
  omega

theorem toInt32_wrap {n : Nat} (hlo : 2 ^ 64 - 2 ^ 31 ≤ n) (hhi : n < 2 ^ 64) :
    toInt32 n = (n : Int) - 2 ^ 64 := by
  unfold toInt32
  omega

/-- A difference taken through an `int`. -/
theorem ofInt_sub_toInt32 {a n : Nat} (ha : a < 2 ^ 64) (hle : n ≤ a)
    (hfit : n < 2 ^ 31 ∨ 2 ^ 64 - 2 ^ 31 ≤ n) : ofInt (a - toInt32 n) = a - n := by
  rcases hfit with hlt | hge
  · rw [toInt32_eq hlt]
    unfold ofInt
    omega
  · rw [toInt32_wrap hge (by omega)]
    unfold ofInt
    omega

theorem ofInt_sub_toInt32_ne {a n : Nat} (hle : n ≤ a) (hlo : 2 ^ 31 ≤ n)
    (hhi : n < 2 ^ 64 - 2 ^ 31) : ofInt (a - toInt32 n) ≠ a - n := by
  unfold ofInt toInt32
  omega

end SizeT

/-- Byte contents, by index. -/
abbrev Bytes := Nat → UInt8

/-! ## Object identifiers -/

/-- Identifier of an object (`ObjectId`). -/
structure ObjectId where
  high : Int
  low  : Int
  deriving Repr

namespace ObjectId

/-- The pair `operator<` compares: the high part first, then the low part. -/
def orderKey (objectId : ObjectId) : Int ×ₗ Int := toLex (objectId.high, objectId.low)

theorem orderKey_injective : Function.Injective orderKey := by
  intro a b h
  cases a
  cases b
  simpa [orderKey] using h

instance : LinearOrder ObjectId := LinearOrder.lift' orderKey orderKey_injective

end ObjectId

/-! ## Memory -/

/-- Base address of a chunk handed out by a memory backend. -/
abbrev Addr := Nat

/-- A `char *`: a chunk and a displacement in it. Pointer arithmetic may take
the displacement out of the chunk on either side. -/
structure Ptr where
  base  : Addr
  delta : Int
  deriving DecidableEq, Repr

/-- Pointer arithmetic `ptr + n`. -/
def Ptr.add (p : Ptr) (n : Int) : Ptr := ⟨p.base, p.delta + n⟩

/--
The `MemoryBackend` interface over a backend state `μ`.

`chunk` is the set of chunks handed out and not given back, each with the
size it was allocated with. The laws say what an allocator is for: a new chunk
is none of those in use, and giving a chunk back (with its own size) affects
no other.
-/
structure MemoryBackend (μ : Type) where
  allocate   : μ → Nat → Addr × μ
  deallocate : μ → Addr → Nat → μ
  chunk      : μ → Addr → Option Nat
  Valid      : μ → Prop
  valid_allocate : ∀ {m : μ} {size : Nat}, Valid m → Valid (allocate m size).2
  allocate_fresh : ∀ {m : μ} {size : Nat}, Valid m → chunk m (allocate m size).1 = none
  chunk_allocate : ∀ {m : μ} {size : Nat} (a : Addr), Valid m →
    chunk (allocate m size).2 a = if a = (allocate m size).1 then some size else chunk m a
  valid_deallocate : ∀ {m : μ} {addr : Addr} {size : Nat}, Valid m →
    chunk m addr = some size → Valid (deallocate m addr size)
  chunk_deallocate : ∀ {m : μ} {addr : Addr} {size : Nat} (a : Addr), Valid m →
    chunk m addr = some size →
    chunk (deallocate m addr size) a = if a = addr then none else chunk m a

/-- A call the server made to its memory backend. A `deallocate` keeps the
size under which the backend knew the chunk next to the size it was given. -/
inductive MemoryCall where
  | allocate (size : Nat)
  | deallocate (known : Option Nat) (size : Nat)
  deriving DecidableEq, Repr

/-- The memory of the process, as far as segment buffers go. -/
structure Memory (μ : Type) where
  bytes    : Addr → Bytes
  backend  : μ
  /-- Calls made to the backend, oldest first. -/
  calls    : List MemoryCall
  /-- How many copies touched bytes outside their chunk. -/
  overruns : Nat

namespace Memory

variable {μ : Type} (mb : MemoryBackend μ)

/-- `memoryBackend->allocate(size)`. The bytes of the chunk are whatever they
were. -/
def allocate (m : Memory μ) (size : Nat) : Addr × Memory μ :=
  let r := mb.allocate m.backend size
  (r.1, { m with backend := r.2, calls := m.calls ++ [.allocate size] })

/-- `memoryBackend->deallocate(addr, size)`. -/
def deallocate (m : Memory μ) (addr : Addr) (size : Nat) : Memory μ :=
  { m with
    backend := mb.deallocate m.backend addr size
    calls := m.calls ++ [.deallocate (mb.chunk m.backend addr) size] }

/-- Replace the first `size` bytes of a chunk. -/
def fill (m : Memory μ) (addr : Addr) (size : Nat) (data : Bytes) : Memory μ :=
  { m with bytes := fun a i => if a = addr ∧ i < size then data i else m.bytes a i }

/-- The range `[p, p + len)` lies in a chunk that is in use. -/
def inBounds (m : Memory μ) (p : Ptr) (len : Nat) : Bool :=
  match mb.chunk m.backend p.base with
  | some size => decide (0 ≤ p.delta ∧ p.delta + len ≤ size)
  | none => false

/-- Store `len` bytes at `p`. -/
def write (m : Memory μ) (p : Ptr) (len : Nat) (data : Bytes) : Memory μ :=
  { m with
    bytes := fun a i =>
      if a = p.base ∧ p.delta ≤ (i : Int) ∧ (i : Int) < p.delta + len then
        data ((i : Int) - p.delta).toNat
      else m.bytes a i
    overruns := m.overruns + if m.inBounds mb p len then 0 else 1 }

/-- The byte `i` places after `p`. -/
def read (m : Memory μ) (p : Ptr) (i : Nat) : UInt8 := m.bytes p.base (p.delta + i).toNat

/-- `memcpy(dst, src, len)` between chunks. -/
def memcpy (m : Memory μ) (dst src : Ptr) (len : Nat) : Memory μ :=
  let r := m.write mb dst len (m.read src)
  { r with overruns := r.overruns + if m.inBounds mb src len then 0 else 1 }

end Memory

/-! ## Storage -/

/-- What a `pread` leaves behind: its result, the buffer it was given, and the
backend. -/
structure PreadResult (σ : Type) where
  status : Int
  buffer : Bytes
  state  : σ

/--
The `StorageBackend` interface over a backend state `σ`.

`disk` is the content the backend holds for each object. A call whose result
is the full size has transferred every byte; any other result promises
nothing about the bytes of the range. No call touches anything else.
-/
structure StorageBackend (σ : Type) where
  disk   : σ → ObjectId → Bytes
  pread  : σ → ObjectId → Bytes → Nat → Nat → PreadResult σ
  pwrite : σ → ObjectId → Bytes → Nat → Nat → Int × σ
  create : σ → ObjectId → Int × σ
  disk_pread : ∀ {s : σ} {id : ObjectId} {buffer : Bytes} {size offset : Nat},
    disk (pread s id buffer size offset).state = disk s
  pread_full : ∀ {s : σ} {id : ObjectId} {buffer : Bytes} {size offset : Nat},
    SizeT.ofInt (pread s id buffer size offset).status = size →
    ∀ i < size, (pread s id buffer size offset).buffer i = disk s id (offset + i)
  disk_pwrite : ∀ {s : σ} {id : ObjectId} {buffer : Bytes} {size offset : Nat} (id' : ObjectId)
    (x : Nat), ¬ (id' = id ∧ offset ≤ x ∧ x < offset + size) →
    disk (pwrite s id buffer size offset).2 id' x = disk s id' x
  pwrite_full : ∀ {s : σ} {id : ObjectId} {buffer : Bytes} {size offset : Nat},
    SizeT.ofInt (pwrite s id buffer size offset).1 = size →
    ∀ i < size, disk (pwrite s id buffer size offset).2 id (offset + i) = buffer i
  disk_create : ∀ {s : σ} {id : ObjectId}, disk (create s id).2 = disk s

/-- A storage backend whose operations succeed: every transfer is full and
every creation answers 0. -/
structure StorageBackend.Reliable {σ : Type} (sb : StorageBackend σ) : Prop where
  pread  : ∀ (s : σ) (id : ObjectId) (buffer : Bytes) (size offset : Nat), size < 2 ^ 64 →
    SizeT.ofInt (sb.pread s id buffer size offset).status = size
  pwrite : ∀ (s : σ) (id : ObjectId) (buffer : Bytes) (size offset : Nat), size < 2 ^ 64 →
    SizeT.ofInt (sb.pwrite s id buffer size offset).1 = size
  create : ∀ (s : σ) (id : ObjectId), (sb.create s id).1 = 0

/-- The two backends a server runs on. The storage backend is optional: the
source accepts a NULL pointer and then keeps objects in memory only. -/
structure Backends (μ σ : Type) where
  memoryBackend  : MemoryBackend μ
  storageBackend : Option (StorageBackend σ)

/-! ## The simplest backends

A `malloc` that never reuses an address and a storage kept in memory: what a
server on one node without NVDIMM and without a remote store runs on. They show
that the two interfaces can be met. -/

/-- State of the counting allocator: the next address, and the chunks in use. -/
structure Malloc where
  next  : Addr
  sizes : Addr → Option Nat

/-- An allocator that hands out consecutive addresses. -/
def Malloc.backend : MemoryBackend Malloc where
  allocate m size := (m.next, ⟨m.next + 1, fun a => if a = m.next then some size else m.sizes a⟩)
  deallocate m addr _ := ⟨m.next, fun a => if a = addr then none else m.sizes a⟩
  chunk := Malloc.sizes
  Valid m := ∀ a, m.next ≤ a → m.sizes a = none
  valid_allocate := by
    intro m size h a ha
    have hne : a ≠ m.next := by
      intro heq
      subst heq
      exact Nat.not_succ_le_self _ ha
    simp only [if_neg hne]
    exact h a (Nat.le_of_succ_le ha)
  allocate_fresh := fun h => h _ le_rfl
  chunk_allocate := fun _ _ => rfl
  valid_deallocate := by
    intro m addr size h _ a ha
    dsimp only
    split_ifs
    · rfl
    · exact h a ha
  chunk_deallocate := fun _ _ _ => rfl

/-- A storage held in memory; every operation succeeds. -/
def byteStore : StorageBackend (ObjectId → Bytes) where
  disk s := s
  pread s id _ size offset := ⟨size, fun i => s id (offset + i), s⟩
  pwrite s id buffer size offset :=
    (size, fun id' x =>
      if id' = id ∧ offset ≤ x ∧ x < offset + size then buffer (x - offset) else s id' x)
  create s _ := (0, s)
  disk_pread := rfl
  pread_full := fun _ _ _ => rfl
  disk_pwrite := fun _ _ h => if_neg h
  pwrite_full := by
    intro s id buffer size offset _ i hi
    have hin : offset ≤ offset + i ∧ offset + i < offset + size := by omega
    simp only [hin, and_self, if_true, Nat.add_sub_cancel_left]
  disk_create := rfl

theorem byteStore_reliable : byteStore.Reliable :=
  ⟨fun _ _ _ _ _ h => SizeT.ofInt_natCast h, fun _ _ _ _ _ h => SizeT.ofInt_natCast h,
    fun _ _ => rfl⟩

/-- The two together. -/
def localBackends : Backends Malloc (ObjectId → Bytes) := ⟨Malloc.backend, some byteStore⟩

/-- A memory in which nothing is allocated; every byte is `fill`. -/
def Memory.fresh (fill : UInt8) : Memory Malloc := ⟨fun _ _ => fill, ⟨0, fun _ => none⟩, [], 0⟩

theorem Memory.valid_fresh (fill : UInt8) :
    Malloc.backend.Valid (Memory.fresh fill).backend := fun _ _ => rfl

end IoCatcher
