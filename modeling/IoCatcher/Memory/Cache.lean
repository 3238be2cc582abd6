import IoCatcher.Lib.Run
import IoCatcher.Model.MemoryCache

/-!
# IO Catcher — who owns the chunks of a cache

`MemoryBackendCache` with its two `std::map`s, and with its destructor, which has to
give every chunk back to the sub backend. `Maps.view` forgets the order of the
maps: what is left is the cache the containers run on, and the two allocate alike
(`view_allocate`, `view_deallocate`).

A chunk that the sub backend has given is in use, or in the free list of its size.
`Owned` adds the chunks in use and the chunks given by the sub backend, and both
lists are kept with multiplicities (`List.Perm`).

* `owned_of_run` — in every run of calls that give back what they were given, no
  chunk has two owners, and an idle cache gives every chunk back once.
-/

namespace IoCatcher

namespace MemoryBackendCache

variable {μ : Type}

-- ---------------------------------------------------------------------------
-- The maps of the class
-- ---------------------------------------------------------------------------

/-- The fields of `MemoryBackendCache`, as the source has them. -/
structure Maps (μ : Type) where
  backend       : μ
  freeLists     : OrderedMap Nat (List Addr)
  rangesTracker : OrderedMap Addr Nat

namespace Maps

/-- `MemoryBackendCache::MemoryBackendCache`. -/
def new (backend : μ) : Maps μ := ⟨backend, .empty, .empty⟩

/-- `freeLists[size]`. -/
def freeList (m : Maps μ) (size : Nat) : List Addr := (m.freeLists.find? size).getD []

/-- `MemoryBackendCache::allocate`. -/
def allocate (mb : MemoryBackend μ) (m : Maps μ) (size : Nat) : Addr × Maps μ :=
  match m.freeList size with
  | [] =>
    let r := mb.allocate m.backend size
    (r.1, ⟨r.2, m.freeLists.insert size [], m.rangesTracker.insert r.1 size⟩)
  | ptr :: rest => (ptr, { m with freeLists := m.freeLists.insert size rest })

/-- `MemoryBackendCache::deallocate`, after its assertions. -/
def deallocate (m : Maps μ) (addr : Addr) (size : Nat) : Maps μ :=
  { m with freeLists := m.freeLists.insert size (addr :: m.freeList size) }

/-- `MemoryBackendCache::isLocalMemory`, which `deallocate` asserts. It has assertions of
its own, on the size: none when one fails. -/
def isLocalMemory (m : Maps μ) (ptr : Addr) (size : Nat) : Option Bool :=
  if size % 4096 = 0 then
    match m.rangesTracker.find? ptr with
    | none => some false
    | some known => if known = size then some true else none
  else none

/-- `cnt`, the chunks in the free lists. -/
def cnt (m : Maps μ) : Nat := (m.freeLists.entries.map fun e => e.2.length).sum

/-- `MemoryBackendCache::~MemoryBackendCache`: the chunks it gives back to the sub
backend, and what becomes of that; none when its assertion fails. -/
def destroy (mb : MemoryBackend μ) (m : Maps μ) : Option (List (Addr × Nat) × μ) :=
  if m.cnt = m.rangesTracker.entries.length then
    some (m.rangesTracker.entries,
      m.rangesTracker.entries.foldl (fun b it => mb.deallocate b it.1 it.2) m.backend)
  else none

/-- The cache, up to the order of its maps. -/
def view (m : Maps μ) : MemoryBackendCache μ := ⟨m.backend, m.freeList, m.rangesTracker.find?⟩

variable {mb : MemoryBackend μ} {m : Maps μ} {size : Nat} {addr : Addr}

theorem freeList_insert (m : Maps μ) (b : μ) (size : Nat) (l : List Addr)
    (t : OrderedMap Addr Nat) :
    freeList ⟨b, m.freeLists.insert size l, t⟩ = fun n => if n = size then l else m.freeList n := by
  funext n
  unfold freeList
  split_ifs with hn
  · subst hn
    rw [OrderedMap.find?_insert_self, Option.getD_some]
  · rw [OrderedMap.find?_insert_ne hn]

theorem allocate_nil (hfree : m.freeList size = []) : m.allocate mb size =
    ((mb.allocate m.backend size).1, ⟨(mb.allocate m.backend size).2, m.freeLists.insert size [],
      m.rangesTracker.insert (mb.allocate m.backend size).1 size⟩) := by
  unfold allocate
  rw [hfree]

theorem allocate_cons {ptr : Addr} {rest : List Addr} (hfree : m.freeList size = ptr :: rest) :
    m.allocate mb size = (ptr, { m with freeLists := m.freeLists.insert size rest }) := by
  unfold allocate
  rw [hfree]

/-- The maps allocate what the cache allocates. -/
theorem view_allocate (mb : MemoryBackend μ) (m : Maps μ) (size : Nat) :
    ((m.allocate mb size).1, (m.allocate mb size).2.view) = m.view.allocate mb size := by
  cases hfree : m.freeList size with
  | nil =>
    rw [allocate_nil hfree, MemoryBackendCache.allocate_nil (m := m.view) hfree]
    unfold view
    rw [freeList_insert]
    congr 2
    · funext n
      split_ifs with hn
      · rw [hn]
        exact hfree.symm
      · rfl
    · funext a
      split_ifs with ha
      · rw [ha, OrderedMap.find?_insert_self]
      · rw [OrderedMap.find?_insert_ne ha]
  | cons ptr rest =>
    rw [allocate_cons hfree, MemoryBackendCache.allocate_cons (m := m.view) hfree]
    unfold view
    rw [freeList_insert]

theorem view_deallocate (m : Maps μ) (addr : Addr) (size : Nat) :
    (m.deallocate addr size).view = m.view.deallocate addr size := by
  unfold view deallocate MemoryBackendCache.deallocate
  rw [freeList_insert]
  congr 1
  funext n
  split_ifs with hn
  · rw [hn]
  · rfl

-- ---------------------------------------------------------------------------
-- Free chunks
-- ---------------------------------------------------------------------------

/-- The chunks of a free list. -/
def chunksOf (e : Nat × List Addr) : List (Addr × Nat) := e.2.map fun a => (a, e.1)

/-- The chunks of all free lists. -/
def freeChunks (m : Maps μ) : List (Addr × Nat) := m.freeLists.entries.flatMap chunksOf

/-- Those of the other sizes. -/
def otherChunks (m : Maps μ) (size : Nat) : List (Addr × Nat) :=
  (m.freeLists.erase size).entries.flatMap chunksOf

theorem freeChunks_perm (m : Maps μ) (size : Nat) :
    m.freeChunks.Perm (chunksOf (size, m.freeList size) ++ m.otherChunks size) := by
  unfold freeChunks otherChunks freeList
  cases hfind : m.freeLists.find? size with
  | none =>
    rw [OrderedMap.erase_eq_self hfind]
    exact List.Perm.refl _
  | some l => exact (OrderedMap.perm_erase hfind).flatMap_right chunksOf

theorem freeChunks_insert (m : Maps μ) (b : μ) (t : OrderedMap Addr Nat) (size : Nat)
    (l : List Addr) : (freeChunks ⟨b, m.freeLists.insert size l, t⟩).Perm
      (chunksOf (size, l) ++ m.otherChunks size) :=
  (OrderedMap.perm_insert m.freeLists size l).flatMap_right chunksOf

theorem cnt_eq (m : Maps μ) : m.cnt = m.freeChunks.length := by
  unfold cnt freeChunks
  rw [List.length_flatMap]
  congr 1
  exact List.map_congr_left fun e _ => (List.length_map _).symm

theorem mem_freeChunks : (addr, size) ∈ m.freeChunks ↔ addr ∈ m.freeList size := by
  rw [(m.freeChunks_perm size).mem_iff, List.mem_append]
  constructor
  · rintro (hin | hother)
    · obtain ⟨a, ha, heq⟩ := List.mem_map.mp hin
      rwa [← (Prod.mk.inj heq).1]
    · obtain ⟨e, he, hin⟩ := List.mem_flatMap.mp hother
      obtain ⟨a, -, heq⟩ := List.mem_map.mp hin
      exact absurd (Prod.mk.inj heq).2 (OrderedMap.mem_erase.mp he).2
  · exact fun ha => Or.inl (List.mem_map.mpr ⟨addr, ha, rfl⟩)

end Maps

-- ---------------------------------------------------------------------------
-- Owners
-- ---------------------------------------------------------------------------

/-- A call of the callers of the cache. -/
inductive Call where
  | allocate (size : Nat)
  | deallocate (addr : Addr) (size : Nat)
  deriving DecidableEq

/-- A cache, the chunks its callers hold, and those the sub backend has given, with their
sizes. -/
structure Owned (μ : Type) where
  cache : Maps μ
  live  : List (Addr × Nat)
  given : List (Addr × Nat)

namespace Owned

variable {mb : MemoryBackend μ} {o o' : Owned μ} {call : Call} {size : Nat} {addr : Addr}

/-- A cache before its first call. -/
def new (backend : μ) : Owned μ := ⟨.new backend, [], []⟩

/-- The chunk the sub backend is asked for. -/
def asked (mb : MemoryBackend μ) (m : Maps μ) (size : Nat) : List (Addr × Nat) :=
  if m.freeList size = [] then [((m.allocate mb size).1, size)] else []

/-- One call. A caller gives back what it was given, with the size it asked for. -/
inductive Step (mb : MemoryBackend μ) (o : Owned μ) : Call → Owned μ → Prop where
  | allocate (size : Nat) (hpos : 0 < size) :
      Step mb o (.allocate size) ⟨(o.cache.allocate mb size).2,
        ((o.cache.allocate mb size).1, size) :: o.live, asked mb o.cache size ++ o.given⟩
  | deallocate (addr : Addr) (size : Nat) (hlive : (addr, size) ∈ o.live) :
      Step mb o (.deallocate addr size)
        ⟨o.cache.deallocate addr size, o.live.erase (addr, size), o.given⟩

/-- Every tracked chunk is held by a caller or free, and was given once. -/
structure Inv (mb : MemoryBackend μ) (o : Owned μ) : Prop where
  valid   : o.cache.view.Valid mb
  tracked : o.cache.rangesTracker.entries.Perm (o.live ++ o.cache.freeChunks)
  given   : o.cache.rangesTracker.entries.Perm o.given

theorem inv_new {backend : μ} (h : mb.Valid backend) (hnone : ∀ a, mb.chunk backend a = none) :
    Inv mb (new backend) :=
  ⟨MemoryBackendCache.valid_new h hnone, List.Perm.nil, List.Perm.nil⟩

/-- No two chunks have an address in common. -/
theorem Inv.nodup (h : Inv mb o) : ((o.live ++ o.cache.freeChunks).map Prod.fst).Nodup :=
  (h.tracked.map Prod.fst).nodup_iff.mp (OrderedMap.nodup_keys _)

theorem Inv.tracks (h : Inv mb o) : o.cache.rangesTracker.find? addr = some size ↔
    (addr, size) ∈ o.live ∨ addr ∈ o.cache.freeList size := by
  rw [OrderedMap.find?_eq_some, h.tracked.mem_iff, List.mem_append, Maps.mem_freeChunks]

theorem inv_allocate (h : Inv mb o) (size : Nat) : Inv mb
    ⟨(o.cache.allocate mb size).2, ((o.cache.allocate mb size).1, size) :: o.live,
      asked mb o.cache size ++ o.given⟩ := by
  have hvalid : (o.cache.allocate mb size).2.view.Valid mb := by
    rw [show (o.cache.allocate mb size).2.view = (o.cache.view.allocate mb size).2 from
      congrArg Prod.snd (Maps.view_allocate mb o.cache size)]
    exact valid_allocate h.valid
  have hfree := o.cache.freeChunks_perm size
  unfold asked
  cases hlist : o.cache.freeList size with
  | nil =>
    rw [Maps.allocate_nil hlist] at hvalid ⊢
    rw [hlist] at hfree
    have hnew : o.cache.rangesTracker.find? (mb.allocate o.cache.backend size).1 = none :=
      (h.valid.tracked _).trans (mb.allocate_fresh h.valid.backend)
    have hins := OrderedMap.perm_insert o.cache.rangesTracker
      (mb.allocate o.cache.backend size).1 size
    rw [OrderedMap.erase_eq_self hnew] at hins
    -- the list of the size stays empty
    have hsame := hfree.trans (Maps.freeChunks_insert o.cache (mb.allocate o.cache.backend size).2
      (o.cache.rangesTracker.insert (mb.allocate o.cache.backend size).1 size) size []).symm
    exact ⟨hvalid, hins.trans ((h.tracked.trans (hsame.append_left _)).cons _),
      hins.trans (h.given.cons _)⟩
  | cons ptr rest =>
    rw [Maps.allocate_cons hlist] at hvalid ⊢
    rw [hlist] at hfree
    have hnext := Maps.freeChunks_insert o.cache o.cache.backend o.cache.rangesTracker size rest
    have hmoved := h.tracked.trans ((hfree.trans (hnext.symm.cons _)).append_left o.live)
    exact ⟨hvalid, hmoved.trans List.perm_middle, h.given⟩

theorem inv_deallocate (h : Inv mb o) (hlive : (addr, size) ∈ o.live) :
    Inv mb ⟨o.cache.deallocate addr size, o.live.erase (addr, size), o.given⟩ := by
  have hnot : addr ∉ o.cache.freeList size := by
    intro hfree
    have hnodup := h.nodup
    rw [List.map_append, List.nodup_append] at hnodup
    exact hnodup.2.2 addr (List.mem_map.mpr ⟨_, hlive, rfl⟩) addr
      (List.mem_map.mpr ⟨_, Maps.mem_freeChunks.mpr hfree, rfl⟩) rfl
  refine ⟨?_, ?_, h.given⟩
  · rw [Maps.view_deallocate]
    exact valid_deallocate h.valid (chunk_eq_some.mpr ⟨h.tracks.mpr (Or.inl hlive), hnot⟩)
  · have hnext := Maps.freeChunks_insert o.cache o.cache.backend o.cache.rangesTracker size
      (addr :: o.cache.freeList size)
    have hfree : (o.cache.deallocate addr size).freeChunks.Perm
        ((addr, size) :: o.cache.freeChunks) :=
      hnext.trans ((o.cache.freeChunks_perm size).symm.cons _)
    refine h.tracked.trans (((List.perm_cons_erase hlive).append_right _).trans ?_)
    exact List.perm_middle.symm.trans (hfree.symm.append_left _)

theorem inv_step (h : Inv mb o) (hstep : Step mb o call o') : Inv mb o' := by
  cases hstep with
  | allocate size hpos => exact inv_allocate h size
  | deallocate addr size hlive => exact inv_deallocate h hlive

-- ---------------------------------------------------------------------------
-- The destructor
-- ---------------------------------------------------------------------------

/-- The count matches when no caller holds a chunk. -/
theorem Inv.count (h : Inv mb o) :
    o.cache.cnt = o.cache.rangesTracker.entries.length ↔ o.live = [] := by
  rw [Maps.cnt_eq, h.tracked.length_eq, List.length_append, ← List.length_eq_zero_iff]
  omega

/-- Giving back chunks that are in use, each once. -/
theorem chunk_of_returned (mb : MemoryBackend μ) (l : List (Addr × Nat)) : ∀ {b : μ}, mb.Valid b →
    (l.map Prod.fst).Nodup → (∀ it ∈ l, mb.chunk b it.1 = some it.2) → ∀ a,
      mb.chunk (l.foldl (fun b it => mb.deallocate b it.1 it.2) b) a =
        if a ∈ l.map Prod.fst then none else mb.chunk b a := by
  induction l with
  | nil => exact fun _ _ _ _ => rfl
  | cons it rest ih =>
    intro b hb hnodup hchunk a
    rw [List.map_cons, List.nodup_cons] at hnodup
    have hfirst := hchunk it List.mem_cons_self
    have hrest : ∀ it' ∈ rest, mb.chunk (mb.deallocate b it.1 it.2) it'.1 = some it'.2 := by
      intro it' hit'
      have hne : it'.1 ≠ it.1 := fun heq => hnodup.1 (heq ▸ List.mem_map.mpr ⟨it', hit', rfl⟩)
      rw [mb.chunk_deallocate _ hb hfirst, if_neg hne]
      exact hchunk it' (List.mem_cons_of_mem _ hit')
    rw [List.foldl_cons, ih (mb.valid_deallocate hb hfirst) hnodup.2 hrest,
      mb.chunk_deallocate _ hb hfirst, List.map_cons]
    by_cases ha : a = it.1
    · subst ha
      rw [if_pos rfl, if_pos List.mem_cons_self, ite_self]
    · rw [if_neg ha]
      simp only [List.mem_cons, ha, false_or]

/-- Every chunk has one owner. -/
structure Ok (mb : MemoryBackend μ) (o : Owned μ) : Prop where
  /-- What is handed out is not held by a caller. -/
  fresh     : ∀ size, (o.cache.allocate mb size).1 ∉ o.live.map Prod.fst
  /-- A free chunk is tracked with the size of its list, and is free once. -/
  free      : ∀ size, ∀ addr ∈ o.cache.freeList size, o.cache.rangesTracker.find? addr = some size
  once      : (o.cache.freeChunks.map Prod.fst).Nodup
  /-- The tracked chunks are those held and those free, and none is both. -/
  partition : o.cache.rangesTracker.entries.Perm (o.live ++ o.cache.freeChunks)
  /-- The sub backend is asked when the list of the size is empty, and only then. -/
  asks      : ∀ size, if o.cache.freeList size = [] then
      (o.cache.allocate mb size).1 = (mb.allocate o.cache.backend size).1 ∧
        (o.cache.allocate mb size).2.backend = (mb.allocate o.cache.backend size).2
    else (o.cache.allocate mb size).1 ∈ o.cache.freeList size ∧
      (o.cache.allocate mb size).2.backend = o.cache.backend
  /-- What `deallocate` asserts, for a chunk of whole pages. -/
  asserted  : ∀ addr size, (addr, size) ∈ o.live → size % 4096 = 0 →
    o.cache.isLocalMemory addr size = some true
  /-- The assertion of the destructor. -/
  counted   : (o.cache.destroy mb).isSome = true ↔ o.live = []
  /-- The destructor gives every chunk back once, with its size, and none is left. -/
  returned  : ∀ chunks b, o.cache.destroy mb = some (chunks, b) →
    chunks.Perm o.given ∧ (chunks.map Prod.fst).Nodup ∧ ∀ a, mb.chunk b a = none

theorem Inv.ok (h : Inv mb o) : Ok mb o := by
  have hnodup := h.nodup
  rw [List.map_append, List.nodup_append] at hnodup
  have hlive : ∀ {addr size}, (addr, size) ∈ o.live →
      o.cache.rangesTracker.find? addr = some size := fun hin => h.tracks.mpr (Or.inl hin)
  refine ⟨fun size hno => ?_, fun size addr hin => h.tracks.mpr (Or.inr hin), hnodup.2.1,
    h.tracked, fun size => ?_, fun addr size hin hpage => ?_, ?_, fun chunks b hdone => ?_⟩
  · obtain ⟨⟨addr, size'⟩, hin, heq⟩ := List.mem_map.mp hno
    cases hlist : o.cache.freeList size with
    | nil =>
      rw [Maps.allocate_nil hlist] at heq
      have hnew := (h.valid.tracked (mb.allocate o.cache.backend size).1).trans
        (mb.allocate_fresh h.valid.backend)
      obtain rfl : addr = (mb.allocate o.cache.backend size).1 := heq
      exact absurd ((hlive hin).symm.trans hnew) (by simp)
    | cons ptr rest =>
      rw [Maps.allocate_cons hlist] at heq
      have hfree : ptr ∈ o.cache.freeList size := hlist ▸ List.mem_cons_self
      exact hnodup.2.2 ptr (List.mem_map.mpr ⟨_, hin, heq⟩) ptr
        (List.mem_map.mpr ⟨_, Maps.mem_freeChunks.mpr hfree, rfl⟩) rfl
  · cases hlist : o.cache.freeList size with
    | nil =>
      rw [if_pos rfl, Maps.allocate_nil hlist]
      exact ⟨rfl, rfl⟩
    | cons ptr rest =>
      rw [if_neg (List.cons_ne_nil _ _), Maps.allocate_cons hlist]
      exact ⟨List.mem_cons_self, rfl⟩
  · unfold Maps.isLocalMemory
    rw [if_pos hpage, hlive hin]
    exact if_pos rfl
  · unfold Maps.destroy
    rw [← h.count]
    split_ifs with hcnt
    · exact ⟨fun _ => hcnt, fun _ => rfl⟩
    · exact ⟨fun hno => absurd hno (by simp), fun hyes => absurd hyes hcnt⟩
  · unfold Maps.destroy at hdone
    split_ifs at hdone
    obtain ⟨rfl, rfl⟩ := Prod.mk.inj (Option.some.inj hdone)
    have hkeys := OrderedMap.nodup_keys o.cache.rangesTracker
    refine ⟨h.given, hkeys, fun a => ?_⟩
    have hvalid : mb.Valid o.cache.backend := h.valid.backend
    have hchunk : ∀ a, mb.chunk o.cache.backend a = o.cache.rangesTracker.find? a := fun a =>
      (h.valid.tracked a).symm
    rw [chunk_of_returned mb _ hvalid hkeys fun it hit =>
      (hchunk _).trans (OrderedMap.find?_eq_some.mpr hit)]
    split_ifs with hin
    · rfl
    · rw [hchunk, OrderedMap.find?_eq_none]
      exact fun v hv => hin (List.mem_map.mpr ⟨_, hv, rfl⟩)

/-- **Every chunk has one owner**, in every run of calls on a cache over a backend that has
given nothing yet. -/
theorem owned_of_run {backend : μ} (hvalid : mb.Valid backend)
    (hnone : ∀ a, mb.chunk backend a = none)
    (hrun : Run (Step mb) (fun _ _ => True) (new backend) o) : Ok mb o :=
  (hrun.invariant (inv_new hvalid hnone) fun h _ hstep => inv_step h hstep).ok

/-- Two chunks, one given back, handed out again and both given back. -/
theorem owned_of_reuse : ∃ o, Run (Step Malloc.backend) (fun _ _ => True)
      (new (⟨0, fun _ => none⟩ : Malloc)) o ∧ o.live = [] ∧ o.given.length = 2 ∧
    Ok Malloc.backend o := by
  have hrun : Run (Step Malloc.backend) (fun _ _ => True) (new (⟨0, fun _ => none⟩ : Malloc)) _ :=
    .next (.next (.next (.next (.next (.next .start trivial (.allocate 4096 (by decide))) trivial
      (.allocate 8192 (by decide))) trivial (.deallocate 0 4096 (by decide))) trivial
      (.allocate 4096 (by decide))) trivial (.deallocate 1 8192 (by decide))) trivial
      (.deallocate 0 4096 (by decide))
  exact ⟨_, hrun, by decide, by decide, owned_of_run (fun _ _ => rfl) (fun _ => rfl) hrun⟩

end Owned

end MemoryBackendCache

end IoCatcher
