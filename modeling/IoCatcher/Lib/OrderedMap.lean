import Mathlib.Data.List.Sort
import Mathlib.Tactic.Common

/-!
# Ordered maps

A finite map kept as the list of its bindings in strictly increasing key
order — the abstract value of a C++ `std::map`. Sortedness is a field, so an
unordered map cannot be built and iteration order is a property of the value.

The lemmas are the ones an iteration from `lower_bound` needs:

* `mem_insert` / `mem_erase` — what a write does to the set of bindings;
* `perm_insert` / `perm_erase` — the same with multiplicities, up to the order;
* `lowerBound_insert_between`, `lowerBound_insert_replace` — what a write
  does to the bindings seen by an iteration that starts at a key.
-/

universe u v

/-- A finite map, stored as its bindings in strictly increasing key order. -/
@[ext]
structure OrderedMap (κ : Type u) (α : Type v) [LinearOrder κ] where
  entries : List (κ × α)
  sorted  : entries.Pairwise fun a b => a.1 < b.1

namespace OrderedMap

variable {κ : Type u} {α : Type v} [LinearOrder κ]

/-! ## Operations -/

/-- The map without bindings. -/
def empty : OrderedMap κ α := ⟨[], List.Pairwise.nil⟩

/-- The value bound to `k` (`std::map::find`). -/
def find? (m : OrderedMap κ α) (k : κ) : Option α :=
  (m.entries.find? fun e => e.1 = k).map Prod.snd

/-- Write `v` at `k` in a list of bindings in key order, replacing the old
binding of `k`. -/
def insertEntry (k : κ) (v : α) : List (κ × α) → List (κ × α)
  | [] => [(k, v)]
  | e :: rest =>
    if k < e.1 then (k, v) :: e :: rest
    else if k = e.1 then (k, v) :: rest
    else e :: insertEntry k v rest

theorem mem_insertEntry {k : κ} {v : α} {es : List (κ × α)}
    (hs : es.Pairwise fun a b => a.1 < b.1) {e : κ × α} :
    e ∈ insertEntry k v es ↔ e = (k, v) ∨ (e.1 ≠ k ∧ e ∈ es) := by
  induction es with
  | nil => simp [insertEntry]
  | cons x rest ih =>
    obtain ⟨hx, hrest⟩ := List.pairwise_cons.mp hs
    unfold insertEntry
    split_ifs with hlt heq
    · have hne : ∀ y ∈ x :: rest, y.1 ≠ k := by
        intro y hy
        rcases List.mem_cons.mp hy with rfl | hy
        · exact ne_of_gt hlt
        · exact ne_of_gt (lt_trans hlt (hx y hy))
      constructor
      · intro he
        rcases List.mem_cons.mp he with rfl | he
        · exact Or.inl rfl
        · exact Or.inr ⟨hne e he, he⟩
      · rintro (rfl | ⟨-, he⟩)
        · exact List.mem_cons_self ..
        · exact List.mem_cons_of_mem _ he
    · subst heq
      have hne : ∀ y ∈ rest, y.1 ≠ x.1 := fun y hy => ne_of_gt (hx y hy)
      constructor
      · intro he
        rcases List.mem_cons.mp he with rfl | he
        · exact Or.inl rfl
        · exact Or.inr ⟨hne e he, List.mem_cons_of_mem _ he⟩
      · rintro (rfl | ⟨hek, he⟩)
        · exact List.mem_cons_self ..
        · rcases List.mem_cons.mp he with rfl | he
          · exact absurd rfl hek
          · exact List.mem_cons_of_mem _ he
    · rw [List.mem_cons, ih hrest, List.mem_cons]
      constructor
      · rintro (rfl | rfl | ⟨hek, he⟩)
        · exact Or.inr ⟨fun h => heq h.symm, Or.inl rfl⟩
        · exact Or.inl rfl
        · exact Or.inr ⟨hek, Or.inr he⟩
      · rintro (rfl | ⟨hek, rfl | he⟩)
        · exact Or.inr (Or.inl rfl)
        · exact Or.inl rfl
        · exact Or.inr (Or.inr ⟨hek, he⟩)

theorem insertEntry_sorted {k : κ} {v : α} {es : List (κ × α)}
    (hs : es.Pairwise fun a b => a.1 < b.1) :
    (insertEntry k v es).Pairwise fun a b => a.1 < b.1 := by
  induction es with
  | nil => simp [insertEntry]
  | cons x rest ih =>
    obtain ⟨hx, hrest⟩ := List.pairwise_cons.mp hs
    unfold insertEntry
    split_ifs with hlt heq
    · refine List.pairwise_cons.mpr ⟨?_, hs⟩
      intro y hy
      rcases List.mem_cons.mp hy with rfl | hy
      · exact hlt
      · exact lt_trans hlt (hx y hy)
    · subst heq
      exact List.pairwise_cons.mpr ⟨hx, hrest⟩
    · refine List.pairwise_cons.mpr ⟨?_, ih hrest⟩
      intro y hy
      rcases (mem_insertEntry hrest).mp hy with rfl | ⟨-, hy⟩
      · exact lt_of_le_of_ne (not_lt.mp hlt) (fun h => heq h.symm)
      · exact hx y hy

/-- Bind `k` to `v`, replacing the old binding (`map[k] = v`). -/
def insert (m : OrderedMap κ α) (k : κ) (v : α) : OrderedMap κ α :=
  ⟨insertEntry k v m.entries, insertEntry_sorted m.sorted⟩

/-- Remove the binding of `k`. -/
def erase (m : OrderedMap κ α) (k : κ) : OrderedMap κ α :=
  ⟨m.entries.filter fun e => e.1 ≠ k, m.sorted.filter _⟩

/-- The bindings an iteration from `map.lower_bound(k)` to `map.end()` visits:
those whose key is not below `k`, in key order. -/
def lowerBound (m : OrderedMap κ α) (k : κ) : List (κ × α) :=
  m.entries.filter fun e => k ≤ e.1

/-- The key an iteration over the map starts at (`map.begin()`). -/
def first? (m : OrderedMap κ α) : Option κ := m.entries.head?.map Prod.fst

/-- The key the iterator at `k` moves to (`++it`). -/
def next? (m : OrderedMap κ α) (k : κ) : Option κ :=
  (m.entries.find? fun e => k < e.1).map Prod.fst

/-- Update every value in place (`for (auto & it : map)`). -/
def mapValues (m : OrderedMap κ α) (f : α → α) : OrderedMap κ α :=
  ⟨m.entries.map fun e => (e.1, f e.2), by
    rw [List.pairwise_map]
    exact m.sorted⟩

/-! ## Bindings -/

@[simp] theorem entries_empty : (empty : OrderedMap κ α).entries = [] := rfl

/-- A key has at most one binding. -/
theorem mem_unique {m : OrderedMap κ α} {k : κ} {v w : α}
    (hv : (k, v) ∈ m.entries) (hw : (k, w) ∈ m.entries) : v = w := by
  have hne : ∀ {es : List (κ × α)}, (es.Pairwise fun a b => a.1 < b.1) →
      (k, v) ∈ es → (k, w) ∈ es → v = w := by
    intro es hs
    induction es with
    | nil => simp
    | cons x rest ih =>
      obtain ⟨hx, hrest⟩ := List.pairwise_cons.mp hs
      intro h1 h2
      rcases List.mem_cons.mp h1 with h1 | h1' <;> rcases List.mem_cons.mp h2 with h2 | h2'
      · exact (Prod.mk.inj (h1.trans h2.symm)).2
      · have hlt := hx _ h2'
        rw [← h1] at hlt
        exact absurd hlt (lt_irrefl k)
      · have hlt := hx _ h1'
        rw [← h2] at hlt
        exact absurd hlt (lt_irrefl k)
      · exact ih hrest h1' h2'
  exact hne m.sorted hv hw

theorem find?_eq_some {m : OrderedMap κ α} {k : κ} {v : α} :
    m.find? k = some v ↔ (k, v) ∈ m.entries := by
  unfold find?
  constructor
  · intro h
    obtain ⟨e, he, rfl⟩ := Option.map_eq_some_iff.mp h
    have hk : e.1 = k := by simpa using List.find?_some he
    have := List.mem_of_find?_eq_some he
    rwa [← hk]
  · intro h
    cases hf : m.entries.find? fun e => e.1 = k with
    | none =>
      have := List.find?_eq_none.mp hf _ h
      simp at this
    | some e =>
      have hk : e.1 = k := by simpa using List.find?_some hf
      have he := List.mem_of_find?_eq_some hf
      subst hk
      exact congrArg some (mem_unique he h)

theorem find?_eq_none {m : OrderedMap κ α} {k : κ} :
    m.find? k = none ↔ ∀ v, (k, v) ∉ m.entries := by
  rw [Option.eq_none_iff_forall_ne_some]
  exact forall_congr' fun v => not_congr find?_eq_some

theorem mem_insert {m : OrderedMap κ α} {k : κ} {v : α} {e : κ × α} :
    e ∈ (m.insert k v).entries ↔ e = (k, v) ∨ (e.1 ≠ k ∧ e ∈ m.entries) :=
  mem_insertEntry m.sorted

theorem mem_erase {m : OrderedMap κ α} {k : κ} {e : κ × α} :
    e ∈ (m.erase k).entries ↔ e ∈ m.entries ∧ e.1 ≠ k := by
  simp [erase]

theorem mem_lowerBound {m : OrderedMap κ α} {k : κ} {e : κ × α} :
    e ∈ m.lowerBound k ↔ e ∈ m.entries ∧ k ≤ e.1 := by
  simp [lowerBound]

theorem mem_mapValues {m : OrderedMap κ α} {f : α → α} {k : κ} {w : α} :
    (k, w) ∈ (m.mapValues f).entries ↔ ∃ v, (k, v) ∈ m.entries ∧ f v = w := by
  simp [mapValues]

theorem find?_mapValues (m : OrderedMap κ α) (f : α → α) (k : κ) :
    (m.mapValues f).find? k = (m.find? k).map f := by
  refine Option.ext fun w => ?_
  rw [find?_eq_some, mem_mapValues, Option.map_eq_some_iff]
  exact exists_congr fun v => and_congr_left fun _ => find?_eq_some.symm

@[simp] theorem find?_insert_self (m : OrderedMap κ α) (k : κ) (v : α) :
    (m.insert k v).find? k = some v :=
  find?_eq_some.mpr (mem_insert.mpr (Or.inl rfl))

theorem find?_insert_ne {m : OrderedMap κ α} {k k' : κ} {v : α} (h : k' ≠ k) :
    (m.insert k v).find? k' = m.find? k' := by
  refine Option.ext fun w => ?_
  rw [find?_eq_some, find?_eq_some, mem_insert]
  constructor
  · rintro (he | ⟨-, he⟩)
    · exact absurd (Prod.mk.inj he).1 h
    · exact he
  · exact fun he => Or.inr ⟨h, he⟩

@[simp] theorem find?_erase_self (m : OrderedMap κ α) (k : κ) :
    (m.erase k).find? k = none :=
  find?_eq_none.mpr fun _ hm => (mem_erase.mp hm).2 rfl

theorem find?_erase_ne {m : OrderedMap κ α} {k k' : κ} (h : k' ≠ k) :
    (m.erase k).find? k' = m.find? k' := by
  refine Option.ext fun w => ?_
  rw [find?_eq_some, find?_eq_some, mem_erase]
  exact and_iff_left h

/-! ## Bindings up to their order -/

theorem nodup_entries (m : OrderedMap κ α) : m.entries.Nodup :=
  m.sorted.imp fun h heq => absurd (heq ▸ h) (lt_irrefl _)

theorem nodup_keys (m : OrderedMap κ α) : (m.entries.map Prod.fst).Nodup := by
  rw [List.Nodup, List.pairwise_map]
  exact m.sorted.imp fun h => ne_of_lt h

/-- A write puts one binding beside those of the other keys. -/
theorem perm_insert (m : OrderedMap κ α) (k : κ) (v : α) :
    (m.insert k v).entries.Perm ((k, v) :: (m.erase k).entries) := by
  refine (List.perm_ext_iff_of_nodup (nodup_entries _) ?_).mpr fun e => ?_
  · exact List.nodup_cons.mpr ⟨fun h => (mem_erase.mp h).2 rfl, nodup_entries _⟩
  · rw [mem_insert, List.mem_cons, mem_erase, and_comm]

theorem perm_erase {m : OrderedMap κ α} {k : κ} {v : α} (h : m.find? k = some v) :
    m.entries.Perm ((k, v) :: (m.erase k).entries) := by
  refine (List.perm_ext_iff_of_nodup (nodup_entries _) ?_).mpr fun e => ?_
  · exact List.nodup_cons.mpr ⟨fun h => (mem_erase.mp h).2 rfl, nodup_entries _⟩
  · have hk := find?_eq_some.mp h
    rw [List.mem_cons, mem_erase]
    constructor
    · intro he
      by_cases hkey : e.1 = k
      · subst hkey
        exact Or.inl (Prod.ext rfl (mem_unique he hk))
      · exact Or.inr ⟨he, hkey⟩
    · rintro (rfl | ⟨he, -⟩)
      · exact hk
      · exact he

theorem erase_eq_self {m : OrderedMap κ α} {k : κ} (h : m.find? k = none) :
    (m.erase k).entries = m.entries :=
  List.filter_eq_self.mpr fun e he => decide_eq_true fun hk => find?_eq_none.mp h e.2 (hk ▸ he)

/-! ## Iteration key by key -/

/-- The iteration starts at or before every key; on an empty map it does not
start. -/
theorem first?_le {m : OrderedMap κ α} {k : κ} (h : (m.find? k).isSome = true) :
    ∃ f, m.first? = some f ∧ f ≤ k := by
  obtain ⟨v, hv⟩ := Option.isSome_iff_exists.mp h
  have hmem := find?_eq_some.mp hv
  unfold first?
  have hs := m.sorted
  cases hes : m.entries with
  | nil =>
    rw [hes] at hmem
    exact absurd hmem List.not_mem_nil
  | cons x rest =>
    rw [hes] at hmem hs
    refine ⟨x.1, rfl, ?_⟩
    rcases List.mem_cons.mp hmem with rfl | hmem
    · exact le_rfl
    · exact ((List.pairwise_cons.mp hs).1 _ hmem).le

/-- The iterator skips no key: every key behind it is at or behind the one it
moves to. -/
theorem next?_le {m : OrderedMap κ α} {k k' : κ} (h : (m.find? k').isSome = true)
    (hlt : k < k') : ∃ n, m.next? k = some n ∧ n ≤ k' := by
  obtain ⟨v, hv⟩ := Option.isSome_iff_exists.mp h
  have hmem := find?_eq_some.mp hv
  unfold next?
  obtain ⟨entries, hs⟩ := m
  dsimp only at hmem ⊢
  clear hv h
  induction entries with
  | nil => exact absurd hmem List.not_mem_nil
  | cons x rest ih =>
    obtain ⟨hx, hrest⟩ := List.pairwise_cons.mp hs
    by_cases hkx : k < x.1
    · rw [List.find?_cons_of_pos (by simpa using hkx)]
      refine ⟨x.1, rfl, ?_⟩
      rcases List.mem_cons.mp hmem with rfl | hmem
      · exact le_rfl
      · exact (hx _ hmem).le
    · rw [List.find?_cons_of_neg (by simpa using hkx)]
      rcases List.mem_cons.mp hmem with rfl | hmem
      · exact absurd hlt hkx
      · exact ih hrest hmem

/-! ## Iteration from a lower bound -/

theorem lowerBound_sorted (m : OrderedMap κ α) (k : κ) :
    (m.lowerBound k).Pairwise fun a b => a.1 < b.1 :=
  m.sorted.filter _

/-- The iterator `lower_bound` returns is not behind a key that is not below the
bound. -/
theorem exists_lowerBound_eq_cons {m : OrderedMap κ α} {k b : κ} {v : α}
    (h : (k, v) ∈ m.entries) (hb : b ≤ k) :
    ∃ k' v' rest, m.lowerBound b = (k', v') :: rest ∧ k' ≤ k := by
  have hmem : (k, v) ∈ m.lowerBound b := mem_lowerBound.mpr ⟨h, hb⟩
  have hsorted := lowerBound_sorted m b
  cases hlb : m.lowerBound b with
  | nil =>
    rw [hlb] at hmem
    exact absurd hmem (by simp)
  | cons e rest =>
    rw [hlb] at hmem hsorted
    refine ⟨e.1, e.2, rest, rfl, ?_⟩
    rcases List.mem_cons.mp hmem with heq | hrest
    · exact le_of_eq (congrArg Prod.fst heq).symm
    · exact le_of_lt ((List.pairwise_cons.mp hsorted).1 _ hrest)

/-- On a suffix of the bindings, a write puts its key between the smaller and
the larger ones. -/
theorem insertEntry_append {k : κ} {v : α} {pre post : List (κ × α)}
    (hpre : ∀ e ∈ pre, e.1 < k) :
    insertEntry k v (pre ++ post) = pre ++ insertEntry k v post := by
  induction pre with
  | nil => rfl
  | cons x rest ih =>
    have hx : x.1 < k := hpre x (List.mem_cons_self ..)
    rw [List.cons_append, insertEntry, if_neg (not_lt.mpr hx.le), if_neg hx.ne',
      ih fun e he => hpre e (List.mem_cons_of_mem _ he), List.cons_append]

/-- Writing at or past the starting key commutes with the start of the
iteration. -/
theorem lowerBound_insert {m : OrderedMap κ α} {k b : κ} {v : α} (hb : b ≤ k) :
    (m.insert k v).lowerBound b = insertEntry k v (m.lowerBound b) := by
  have hl : ∀ es : List (κ × α), (es.Pairwise fun a b => a.1 < b.1) →
      (insertEntry k v es).filter (fun e => b ≤ e.1) =
        insertEntry k v (es.filter fun e => b ≤ e.1) := by
    intro es hs
    induction es with
    | nil => simp [insertEntry, hb]
    | cons x rest ih =>
      obtain ⟨hx, hrest⟩ := List.pairwise_cons.mp hs
      by_cases hbx : b ≤ x.1
      · rw [List.filter_cons_of_pos (by simpa using hbx)]
        unfold insertEntry
        split_ifs with hlt heq
        · simp [hb, hbx]
        · simp [hb]
        · rw [List.filter_cons_of_pos (by simpa using hbx), ih hrest]
      · have hxk : x.1 < k := lt_of_lt_of_le (not_le.mp hbx) hb
        rw [List.filter_cons_of_neg (by simpa using hbx), insertEntry,
          if_neg (not_lt.mpr hxk.le), if_neg hxk.ne',
          List.filter_cons_of_neg (by simpa using hbx), ih hrest]
  exact hl m.entries m.sorted

/-- A new key strictly between two parts of the iteration is visited between
them. -/
theorem lowerBound_insert_between {m : OrderedMap κ α} {k b : κ} {v : α}
    {pre post : List (κ × α)} (hb : b ≤ k) (h : m.lowerBound b = pre ++ post)
    (hpre : ∀ e ∈ pre, e.1 < k) (hpost : ∀ e ∈ post, k < e.1) :
    (m.insert k v).lowerBound b = pre ++ (k, v) :: post := by
  rw [lowerBound_insert hb, h, insertEntry_append hpre]
  cases post with
  | nil => rfl
  | cons x rest => rw [insertEntry, if_pos (hpost x (List.mem_cons_self ..))]

/-- Overwriting a visited binding keeps its place in the iteration. -/
theorem lowerBound_insert_replace {m : OrderedMap κ α} {k b : κ} {v w : α}
    {pre post : List (κ × α)} (h : m.lowerBound b = pre ++ (k, w) :: post) :
    (m.insert k v).lowerBound b = pre ++ (k, v) :: post := by
  have hs := h ▸ m.lowerBound_sorted b
  have hb : b ≤ k := by
    have hmem : (k, w) ∈ m.lowerBound b := h ▸ by simp
    exact (mem_lowerBound.mp hmem).2
  have hpre : ∀ e ∈ pre, e.1 < k := fun e he =>
    (List.pairwise_append.mp hs).2.2 e he (k, w) (List.mem_cons_self ..)
  rw [lowerBound_insert hb, h, insertEntry_append hpre, insertEntry, if_neg (lt_irrefl k),
    if_pos rfl]

end OrderedMap
