import IoCatcher.Model.Backends
import Mathlib.Data.List.Perm.Basic

/-!
# IO Catcher — block transfers to Mero

`StorageBackendMero::pread` and `pwrite` in the `HAVE_MERO` build: a range is cut into
units of the layout size, the units are sent by groups of at most
`CLOVIS_MAX_DATA_UNIT_PER_OPS`, and a range smaller than a unit is one unit of its own
size. A `Move` is one unit: where it is in the buffer, and where in the object.

The place in the buffer is computed from the size of the group at hand, also for a last
group that is smaller than those before it. The place in the object runs in an `int`.

* `plan_full`, `plan_short` — the moves when the groups are alike, and when they are not;
* `exact_iff`               — both transfers are right exactly when the units fit.
-/

namespace IoCatcher

/-- Conversion of a `size_t` to `ssize_t`. -/
def SizeT.toSSize (n : Nat) : Int := ((n : Int) + 2 ^ 63) % 2 ^ 64 - 2 ^ 63

theorem SizeT.toSSize_eq_iff {n : Nat} : SizeT.toSSize n = n ↔ n < 2 ^ 63 := by
  unfold SizeT.toSSize
  omega

/-- An index that went through an `int` is sign extended when it is stored. -/
theorem SizeT.ofInt_toInt32_eq_iff {n : Nat} : SizeT.ofInt (SizeT.toInt32 n) = n ↔
    n < 2 ^ 31 ∨ 2 ^ 64 - 2 ^ 31 ≤ n ∧ n < 2 ^ 64 := by
  unfold SizeT.ofInt SizeT.toInt32
  omega

theorem SizeT.toInt32_add (n m : Nat) :
    SizeT.toInt32 (SizeT.add (SizeT.ofInt (SizeT.toInt32 n)) m) = SizeT.toInt32 (n + m) := by
  unfold SizeT.toInt32 SizeT.add SizeT.ofInt
  omega

theorem SizeT.toInt32_toNat_eq_iff {n : Nat} : (SizeT.toInt32 n).toNat = n ↔ n < 2 ^ 31 := by
  unfold SizeT.toInt32
  omega

namespace StorageBackendMero

variable {σ : Type}

/-- One entry of a `m0_indexvec`. -/
structure Extent where
  index : Nat
  count : Nat
  deriving DecidableEq

/-- Copy `data i` to the range number `i`, one range after the other. -/
def place : List Extent → (Nat → Bytes) → Bytes → Bytes
  | [], _, bytes => bytes
  | e :: rest, data, bytes => place rest (fun i => data (i + 1)) fun x =>
      if e.index ≤ x ∧ x < e.index + e.count then data 0 (x - e.index) else bytes x

/-- `read_data_from_object` and `write_data_to_object`, on what the objects hold. -/
structure Clovis (σ : Type) where
  disk      : σ → ObjectId → Bytes
  readData  : σ → ObjectId → List Extent → Int × (Nat → Bytes)
  writeData : σ → ObjectId → List Extent → (Nat → Bytes) → Int × σ

/-- Every extent is transferred exactly, and the answer is 0. -/
structure Clovis.Exact (c : Clovis σ) : Prop where
  read_ok  : ∀ s id ext, (c.readData s id ext).1 = 0
  read     : ∀ s id ext i e, ext[i]? = some e → ∀ b < e.count,
    (c.readData s id ext).2 i b = c.disk s id (e.index + b)
  write_ok : ∀ s id ext data, (c.writeData s id ext data).1 = 0
  write    : ∀ s id ext data id', c.disk (c.writeData s id ext data).2 id' =
    if id' = id then place ext data (c.disk s id) else c.disk s id'

/-- One unit of a transfer. -/
structure Move where
  buffer : Nat
  index  : Nat
  count  : Nat
  deriving DecidableEq

/-- Where the unit is in the object. -/
def Move.extent (m : Move) : Extent := ⟨m.index, m.count⟩

/-- Where it is in the buffer. -/
def Move.target (m : Move) : Extent := ⟨m.buffer, m.count⟩

/-- `i*data_units_size + j*block_size*data_units_size`. -/
def position (unit blockSize j i : Nat) : Nat := i * unit + j * blockSize * unit

/-- The loop that fills the arrays of a group, from the unit `i` on, and the `last_index`
it ends with. -/
def units (unit blockSize j : Nat) : (n i : Nat) → (lastIndex : Int) → List Move × Int
  | 0, _, lastIndex => ([], lastIndex)
  | n + 1, i, lastIndex =>
    -- the `int` is converted for the addition and for `iv_index`
    let rest := units unit blockSize j n (i + 1)
      (SizeT.toInt32 (SizeT.add (SizeT.ofInt lastIndex) unit))
    (⟨position unit blockSize j i, SizeT.ofInt lastIndex, unit⟩ :: rest.1, rest.2)

/-- The units of the next group. -/
def blockSize (max total : Nat) : Nat := if max < total then max else total

/-- The loop of `pread` while units are left. Each turn takes at least one of them, so that
`fuel` may start at their number. -/
def readLoop (c : Clovis σ) (s : σ) (id : ObjectId) (max unit : Nat) :
    (fuel total : Nat) → (lastIndex : Int) → (j : Nat) → Bytes → Int × Bytes × List Move
  | 0, _, _, _, buffer => (0, buffer, [])
  | fuel + 1, total, lastIndex, j, buffer =>
    if total = 0 then (0, buffer, [])
    else
      let group := units unit (blockSize max total) j (blockSize max total) 0 lastIndex
      let r := c.readData s id (group.1.map Move.extent)
      if r.1 ≠ 0 then (r.1, buffer, [])
      else
        let rest := readLoop c s id max unit fuel (total - blockSize max total) group.2 (j + 1)
          (place (group.1.map Move.target) r.2 buffer)
        (rest.1, rest.2.1, group.1 ++ rest.2.2)

/-- The loop of `pwrite` while units are left. -/
def writeLoop (c : Clovis σ) (id : ObjectId) (max unit : Nat) (buffer : Bytes) :
    (fuel total : Nat) → (lastIndex : Int) → (j : Nat) → σ → Int × σ × List Move
  | 0, _, _, _, s => (0, s, [])
  | fuel + 1, total, lastIndex, j, s =>
    if total = 0 then (0, s, [])
    else
      let size := blockSize max total
      let group := units unit size j size 0 lastIndex
      let r := c.writeData s id (group.1.map Move.extent)
        fun i b => buffer (position unit size j i + b)
      if r.1 ≠ 0 then (r.1, r.2, group.1)
      else
        let rest := writeLoop c id max unit buffer fuel (total - size) group.2 (j + 1) r.2
        (rest.1, rest.2.1, group.1 ++ rest.2.2)

/-- The unit size that is used, and the number of units; none when an assertion fails. -/
def split (unitSize size : Nat) : Option (Nat × Nat) :=
  if unitSize = 0 then none
  else if size < unitSize then some (size, 1)
  else if size % unitSize ≠ 0 then none
  -- the number of units is an `int`; the loops do nothing when it is negative
  else some (unitSize, (SizeT.toInt32 (size / unitSize)).toNat)

/-- The result of both calls. -/
def result (ret : Int) (size : Nat) : Int := if ret = 0 then SizeT.toSSize size else -1

/-- `StorageBackendMero::pread`: the result, the buffer and the units transferred. -/
def pread (c : Clovis σ) (max unitSize : Nat) (s : σ) (id : ObjectId) (buffer : Bytes)
    (size offset : Nat) : Option (Int × Bytes × List Move) :=
  (split unitSize size).map fun p =>
    let r := readLoop c s id max p.1 p.2 p.2 (SizeT.toInt32 offset) 0 buffer
    (result r.1 size, r.2.1, r.2.2)

/-- `StorageBackendMero::pwrite`: the result, the objects and the units transferred. -/
def pwrite (c : Clovis σ) (max unitSize : Nat) (s : σ) (id : ObjectId) (buffer : Bytes)
    (size offset : Nat) : Option (Int × σ × List Move) :=
  (split unitSize size).map fun p =>
    let r := writeLoop c id max p.1 buffer p.2 p.2 (SizeT.toInt32 offset) 0 s
    (result r.1 size, r.2.1, r.2.2)

-- ---------------------------------------------------------------------------
-- The moves
-- ---------------------------------------------------------------------------

/-- The moves of the loops, when every group is transferred. -/
def plan (max unit : Nat) : (fuel total : Nat) → (lastIndex : Int) → (j : Nat) → List Move
  | 0, _, _, _ => []
  | fuel + 1, total, lastIndex, j =>
    if total = 0 then []
    else
      let group := units unit (blockSize max total) j (blockSize max total) 0 lastIndex
      group.1 ++ plan max unit fuel (total - blockSize max total) group.2 (j + 1)

/-- The unit of a group that starts at `x`. -/
def unitAt (unit size j x i : Nat) : Move :=
  ⟨position unit size j i, SizeT.ofInt (SizeT.toInt32 (x + i * unit)), unit⟩

variable {max unit : Nat}

theorem units_eq (unit size j x : Nat) : ∀ n i : Nat,
    units unit size j n i (SizeT.toInt32 (x + i * unit)) =
      ((List.range' i n).map (unitAt unit size j x), SizeT.toInt32 (x + (i + n) * unit)) := by
  intro n
  induction n with
  | zero => exact fun _ => rfl
  | succ n ih =>
    intro i
    have hnext : SizeT.toInt32 (SizeT.add (SizeT.ofInt (SizeT.toInt32 (x + i * unit))) unit) =
        SizeT.toInt32 (x + (i + 1) * unit) := by
      rw [SizeT.toInt32_add, Nat.succ_mul, Nat.add_assoc]
    unfold units
    rw [hnext, ih (i + 1), List.range'_succ, List.map_cons, Nat.add_right_comm i 1 n]
    rfl

/-- A group that starts at `x`. -/
theorem group_eq (unit size j x : Nat) : units unit size j size 0 (SizeT.toInt32 x) =
    ((List.range size).map (unitAt unit size j x), SizeT.toInt32 (x + size * unit)) := by
  have h := units_eq unit size j x size 0
  rwa [Nat.zero_mul, Nat.add_zero, Nat.zero_add, ← List.range_eq_range'] at h

theorem plan_succ {fuel total x j : Nat} (hpos : total ≠ 0) :
    plan max unit (fuel + 1) total (SizeT.toInt32 x) j =
      (List.range (blockSize max total)).map (unitAt unit (blockSize max total) j x) ++
        plan max unit fuel (total - blockSize max total)
          (SizeT.toInt32 (x + blockSize max total * unit)) (j + 1) := by
  rw [plan, if_neg hpos, group_eq]

theorem blockSize_pos {total : Nat} (hmax : 0 < max) (hpos : total ≠ 0) :
    0 < blockSize max total ∧ blockSize max total ≤ total := by
  unfold blockSize
  split_ifs <;> omega

theorem blockSize_of_le {total : Nat} (h : max ≤ total) : blockSize max total = max := by
  unfold blockSize
  split_ifs <;> omega

theorem blockSize_of_ge {total : Nat} (h : total ≤ max) : blockSize max total = total := by
  unfold blockSize
  rw [if_neg (not_lt.mpr h)]

theorem plan_zero (fuel : Nat) (lastIndex : Int) (j : Nat) :
    plan max unit fuel 0 lastIndex j = [] := by
  cases fuel <;> rfl

/-- The unit number `t` after the first `done` ones, in its right place in the buffer. -/
def straight (unit done x t : Nat) : Move :=
  ⟨(done + t) * unit, SizeT.ofInt (SizeT.toInt32 (x + t * unit)), unit⟩

theorem straight_add (unit done x m t : Nat) :
    straight unit done x (m + t) = straight unit (done + m) (x + m * unit) t := by
  unfold straight
  rw [Nat.add_mul m t, ← Nat.add_assoc, ← Nat.add_assoc]

/-- A group of `max` units, or a first one, is in its right place. -/
theorem unitAt_eq_straight {size j : Nat} (h : j * size = j * max) (x : Nat) :
    unitAt unit size j x = straight unit (j * max) x := by
  funext i
  unfold unitAt straight position
  rw [h, Nat.add_mul, Nat.add_comm (i * unit)]

/-- Groups that are alike put every unit in its place. -/
theorem plan_multiple (hmax : 0 < max) : ∀ fuel total x j : Nat, total ≤ fuel → max ∣ total →
    plan max unit fuel total (SizeT.toInt32 x) j =
      (List.range total).map (straight unit (j * max) x) := by
  intro fuel
  induction fuel with
  | zero =>
    intro total x j hle _
    obtain rfl := Nat.le_zero.mp hle
    rfl
  | succ fuel ih =>
    intro total x j hle hdvd
    rcases Nat.eq_zero_or_pos total with rfl | hpos
    · rfl
    · have hge : max ≤ total := Nat.le_of_dvd hpos hdvd
      obtain ⟨rest, rfl⟩ := Nat.exists_eq_add_of_le hge
      have hrest : max ∣ rest := (Nat.dvd_add_right (Nat.dvd_refl max)).mp hdvd
      rw [plan_succ hpos.ne', blockSize_of_le hge, Nat.add_sub_cancel_left,
        ih rest _ _ (by omega) hrest, unitAt_eq_straight rfl, List.range_add, List.map_append,
        List.map_map, Nat.succ_mul]
      congr 2
      funext t
      exact (straight_add unit (j * max) x max t).symm

/-- So does a single group. -/
theorem plan_single {fuel total x : Nat} (hfuel : total ≤ fuel) (hle : total ≤ max) :
    plan max unit fuel total (SizeT.toInt32 x) 0 =
      (List.range total).map (straight unit 0 x) := by
  rcases Nat.eq_zero_or_pos total with rfl | hpos
  · cases fuel <;> rfl
  · obtain ⟨fuel, rfl⟩ := Nat.exists_eq_add_of_lt (hpos.trans_le hfuel)
    have hat : unitAt unit total 0 x = straight unit (0 * max) x :=
      unitAt_eq_straight (by rw [Nat.zero_mul, Nat.zero_mul]) x
    rw [Nat.zero_add, plan_succ hpos.ne', blockSize_of_ge hle, Nat.sub_self]
    rw [hat, Nat.zero_mul, plan_zero, List.append_nil]

/-- A last group that is smaller goes back over units already transferred: the end of the
range is left out. -/
theorem plan_short (hmax : 0 < max) : ∀ fuel total x j : Nat, total ≤ fuel → ¬ max ∣ total →
    0 < j ∨ max < total →
    ∀ m ∈ plan max unit fuel total (SizeT.toInt32 x) j,
      m.buffer + m.count ≤ (j * max + total - 1) * unit := by
  intro fuel
  induction fuel with
  | zero =>
    intro total x j hle hndvd
    obtain rfl := Nat.le_zero.mp hle
    exact absurd (Nat.dvd_zero max) hndvd
  | succ fuel ih =>
    intro total x j hle hndvd hlate m hm
    have hpos : total ≠ 0 := fun hzero => hndvd (hzero ▸ Nat.dvd_zero max)
    rw [plan_succ hpos] at hm
    rcases List.mem_append.mp hm with hin | hin
    · obtain ⟨i, hi, rfl⟩ := List.mem_map.mp hin
      have hi := List.mem_range.mp hi
      show i * unit + j * blockSize max total * unit + unit ≤ _
      rw [← Nat.add_mul, ← Nat.succ_mul]
      refine Nat.mul_le_mul_right unit ?_
      by_cases hgt : max < total
      · rw [blockSize_of_le hgt.le] at hi ⊢
        omega
      · have hsize := blockSize_of_ge (not_lt.mp hgt)
        have hlt : total < max :=
          lt_of_le_of_ne (not_lt.mp hgt) fun heq => hndvd (heq ▸ Nat.dvd_refl max)
        have hj : 0 < j := hlate.resolve_right hgt
        rw [hsize] at hi ⊢
        have hless : j * (total + 1) ≤ j * max := Nat.mul_le_mul_left j hlt
        rw [Nat.mul_succ] at hless
        omega
    · by_cases hgt : max < total
      · rw [blockSize_of_le hgt.le] at hin
        have hrest : ¬ max ∣ total - max := fun hdvd => hndvd (by
          have h := Nat.dvd_add hdvd (Nat.dvd_refl max)
          rwa [Nat.sub_add_cancel hgt.le] at h)
        have hle' := ih (total - max) _ (j + 1) (by omega) hrest (Or.inl (Nat.succ_pos j)) m hin
        rwa [Nat.succ_mul, Nat.add_assoc, Nat.add_sub_cancel' hgt.le] at hle'
      · rw [blockSize_of_ge (not_lt.mp hgt), Nat.sub_self, plan_zero] at hin
        exact absurd hin List.not_mem_nil

/-- All units are transferred, in any case. -/
theorem plan_length (hmax : 0 < max) : ∀ fuel total x j : Nat, total ≤ fuel →
    (plan max unit fuel total (SizeT.toInt32 x) j).length = total := by
  intro fuel
  induction fuel with
  | zero =>
    intro total x j hle
    obtain rfl := Nat.le_zero.mp hle
    rfl
  | succ fuel ih =>
    intro total x j hle
    rcases Nat.eq_zero_or_pos total with rfl | hpos
    · rfl
    · obtain ⟨hsize, hsizeLe⟩ := blockSize_pos hmax hpos.ne'
      rw [plan_succ hpos.ne', List.length_append, List.length_map, List.length_range,
        ih _ _ _ (by omega)]
      omega

theorem plan_count : ∀ fuel total x j : Nat,
    ∀ m ∈ plan max unit fuel total (SizeT.toInt32 x) j, m.count = unit := by
  intro fuel
  induction fuel with
  | zero => exact fun _ _ _ m hm => absurd hm List.not_mem_nil
  | succ fuel ih =>
    intro total x j m hm
    rcases Nat.eq_zero_or_pos total with rfl | hpos
    · exact absurd hm List.not_mem_nil
    · rw [plan_succ hpos.ne'] at hm
      rcases List.mem_append.mp hm with hin | hin
      · obtain ⟨i, -, rfl⟩ := List.mem_map.mp hin
        rfl
      · exact ih _ _ _ m hin

-- ---------------------------------------------------------------------------
-- The bytes
-- ---------------------------------------------------------------------------

/-- The bytes that the moves pair: the place in the buffer and the place in the object. -/
def bytePairs (moves : List Move) : List (Nat × Nat) :=
  moves.flatMap fun m => (List.range m.count).map fun b => (m.buffer + b, m.index + b)

theorem length_bytePairs {moves : List Move} (h : ∀ m ∈ moves, m.count = unit) :
    (bytePairs moves).length = moves.length * unit := by
  induction moves with
  | nil => exact (Nat.zero_mul unit).symm
  | cons m rest ih =>
    unfold bytePairs at ih ⊢
    rw [List.flatMap_cons, List.length_append, List.length_map, List.length_range,
      ih fun m' hm' => h m' (List.mem_cons_of_mem _ hm'), h m List.mem_cons_self,
      List.length_cons, Nat.succ_mul, Nat.add_comm]

/-- The unit number `t`, where it belongs. -/
def exactly (unit offset t : Nat) : Move := ⟨t * unit, offset + t * unit, unit⟩

/-- Units that are all where they belong pair every byte once, in order. -/
theorem bytePairs_exactly (unit offset n : Nat) :
    bytePairs ((List.range n).map (exactly unit offset)) =
      (List.range (n * unit)).map fun k => (k, offset + k) := by
  induction n with
  | zero =>
    rw [Nat.zero_mul]
    rfl
  | succ n ih =>
    have hlast : bytePairs [exactly unit offset n] =
        ((List.range unit).map (n * unit + ·)).map fun k => (k, offset + k) := by
      unfold bytePairs exactly
      rw [List.flatMap_cons, List.flatMap_nil, List.append_nil, List.map_map]
      refine List.map_congr_left fun b _ => ?_
      show (_, _) = (_, _)
      rw [Nat.add_assoc]
    rw [List.range_succ, List.map_append, Nat.succ_mul, List.range_add, List.map_append, ← ih,
      ← hlast]
    exact List.flatMap_append

/-- A unit of the object goes to the buffer. -/
def Move.fetch (disk : Bytes) (buffer : Bytes) (m : Move) : Bytes := fun k =>
  if m.buffer ≤ k ∧ k < m.buffer + m.count then disk (m.index + (k - m.buffer)) else buffer k

/-- A unit of the buffer goes to the object. -/
def Move.store (buffer : Bytes) (disk : Bytes) (m : Move) : Bytes := fun x =>
  if m.index ≤ x ∧ x < m.index + m.count then buffer (m.buffer + (x - m.index)) else disk x

theorem place_fetch {disk : Bytes} {moves : List Move} : ∀ {data : Nat → Bytes} {buffer : Bytes},
    (∀ i m, moves[i]? = some m → ∀ b < m.count, data i b = disk (m.index + b)) →
    place (moves.map Move.target) data buffer = moves.foldl (Move.fetch disk) buffer := by
  induction moves with
  | nil => exact fun _ => rfl
  | cons m rest ih =>
    intro data buffer hdata
    rw [List.map_cons, place, ih fun i m' hm' => hdata (i + 1) m' (by simpa using hm'),
      List.foldl_cons]
    congr 1
    funext k
    show (if m.buffer ≤ k ∧ k < m.buffer + m.count then _ else _) = Move.fetch disk buffer m k
    unfold Move.fetch
    split_ifs with hk
    · exact hdata 0 m rfl (k - m.buffer) (by omega)
    · rfl

theorem place_store {buffer : Bytes} {moves : List Move} : ∀ {data : Nat → Bytes} {disk : Bytes},
    (∀ i m, moves[i]? = some m → ∀ b, data i b = buffer (m.buffer + b)) →
    place (moves.map Move.extent) data disk = moves.foldl (Move.store buffer) disk := by
  induction moves with
  | nil => exact fun _ => rfl
  | cons m rest ih =>
    intro data disk hdata
    rw [List.map_cons, place, ih fun i m' hm' => hdata (i + 1) m' (by simpa using hm'),
      List.foldl_cons]
    congr 1
    funext x
    show (if m.index ≤ x ∧ x < m.index + m.count then _ else _) = Move.store buffer disk m x
    unfold Move.store
    split_ifs with hx
    · exact hdata 0 m rfl _
    · rfl

/-- What the buffer holds once `n` units are read where they belong. -/
theorem fetch_exactly (disk buffer : Bytes) (unit offset n k : Nat) :
    ((List.range n).map (exactly unit offset)).foldl (Move.fetch disk) buffer k =
      if k < n * unit then disk (offset + k) else buffer k := by
  induction n with
  | zero => rw [Nat.zero_mul, if_neg (Nat.not_lt_zero k)]; rfl
  | succ n ih =>
    rw [List.range_succ, List.map_append, List.foldl_append, Nat.succ_mul]
    show (if n * unit ≤ k ∧ k < n * unit + unit then disk (offset + n * unit + (k - n * unit))
      else List.foldl (Move.fetch disk) buffer _ k) = _
    rw [ih]
    by_cases hlast : n * unit ≤ k ∧ k < n * unit + unit
    · rw [if_pos hlast, if_pos hlast.2, Nat.add_assoc, Nat.add_sub_cancel' hlast.1]
    · rw [if_neg hlast]
      by_cases hk : k < n * unit
      · rw [if_pos hk, if_pos (by omega)]
      · rw [if_neg hk, if_neg (by omega)]

/-- What the object holds once `n` units are written where they belong. -/
theorem store_exactly (disk buffer : Bytes) (unit offset n x : Nat) :
    ((List.range n).map (exactly unit offset)).foldl (Move.store buffer) disk x =
      if offset ≤ x ∧ x < offset + n * unit then buffer (x - offset) else disk x := by
  induction n with
  | zero => rw [Nat.zero_mul, if_neg (by omega)]; rfl
  | succ n ih =>
    rw [List.range_succ, List.map_append, List.foldl_append, Nat.succ_mul]
    show (if offset + n * unit ≤ x ∧ x < offset + n * unit + unit then
        buffer (n * unit + (x - (offset + n * unit)))
      else List.foldl (Move.store buffer) disk _ x) = _
    rw [ih]
    by_cases hlast : offset + n * unit ≤ x ∧ x < offset + n * unit + unit
    · rw [if_pos hlast, if_pos (by omega)]
      congr 1
      omega
    · rw [if_neg hlast]
      by_cases hx : offset ≤ x ∧ x < offset + n * unit
      · rw [if_pos hx, if_pos (by omega)]
      · rw [if_neg hx, if_neg (by omega)]

-- ---------------------------------------------------------------------------
-- The loops
-- ---------------------------------------------------------------------------

variable {c : Clovis σ} {id : ObjectId}

/-- `pread` transfers its plan. -/
theorem readLoop_eq (hc : c.Exact) (s : σ) : ∀ fuel total x j buffer,
    readLoop c s id max unit fuel total (SizeT.toInt32 x) j buffer =
      (0, (plan max unit fuel total (SizeT.toInt32 x) j).foldl (Move.fetch (c.disk s id)) buffer,
        plan max unit fuel total (SizeT.toInt32 x) j) := by
  intro fuel
  induction fuel with
  | zero => exact fun _ _ _ _ => rfl
  | succ fuel ih =>
    intro total x j buffer
    rcases Nat.eq_zero_or_pos total with rfl | hpos
    · rfl
    · have hplace := @place_fetch (c.disk s id)
        ((List.range (blockSize max total)).map (unitAt unit (blockSize max total) j x))
        (c.readData s id (((List.range (blockSize max total)).map
          (unitAt unit (blockSize max total) j x)).map Move.extent)).2 buffer
        (fun i m hm b hb => hc.read s id _ i m.extent (by rw [List.getElem?_map, hm]; rfl) b hb)
      unfold readLoop
      rw [if_neg hpos.ne', group_eq]
      simp only [hc.read_ok, ne_eq, not_true_eq_false, if_false, hplace, ih, plan_succ hpos.ne',
        List.foldl_append]

/-- What `pwrite` copies to `data` is what the units of the group say. -/
theorem place_group (buffer disk : Bytes) (unit size j x : Nat) :
    place (((List.range size).map (unitAt unit size j x)).map Move.extent)
      (fun i b => buffer (position unit size j i + b)) disk =
        ((List.range size).map (unitAt unit size j x)).foldl (Move.store buffer) disk := by
  refine place_store fun i m hm b => ?_
  rw [List.getElem?_map] at hm
  obtain ⟨i', hi', rfl⟩ := Option.map_eq_some_iff.mp hm
  obtain ⟨hlt, hi⟩ := List.getElem?_eq_some_iff.mp hi'
  rw [List.getElem_range] at hi
  rw [hi]
  rfl

/-- `pwrite` transfers the same. -/
theorem writeLoop_eq (hc : c.Exact) (id : ObjectId) (max unit : Nat) (buffer : Bytes) :
    ∀ fuel total x j s, ∃ s',
    writeLoop c id max unit buffer fuel total (SizeT.toInt32 x) j s =
      (0, s', plan max unit fuel total (SizeT.toInt32 x) j) ∧
    ∀ id', c.disk s' id' = if id' = id then
        (plan max unit fuel total (SizeT.toInt32 x) j).foldl (Move.store buffer) (c.disk s id)
      else c.disk s id' := by
  intro fuel
  induction fuel with
  | zero =>
    refine fun _ _ _ s => ⟨s, rfl, fun id' => ?_⟩
    split_ifs with hid
    · rw [hid]
      rfl
    · rfl
  | succ fuel ih =>
    intro total x j s
    rcases Nat.eq_zero_or_pos total with rfl | hpos
    · refine ⟨s, rfl, fun id' => ?_⟩
      split_ifs with hid
      · rw [hid]
        rfl
      · rfl
    · have hstored := hc.write s id (((List.range (blockSize max total)).map
          (unitAt unit (blockSize max total) j x)).map Move.extent)
        (fun i b => buffer (position unit (blockSize max total) j i + b))
      obtain ⟨s', hrun, hdisk⟩ := ih (total - blockSize max total)
        (x + blockSize max total * unit) (j + 1) (c.writeData s id
          (((List.range (blockSize max total)).map
            (unitAt unit (blockSize max total) j x)).map Move.extent)
          (fun i b => buffer (position unit (blockSize max total) j i + b))).2
      refine ⟨s', ?_, fun id' => ?_⟩
      · unfold writeLoop
        rw [if_neg hpos.ne']
        simp only [group_eq, hc.write_ok, ne_eq, not_true_eq_false, if_false, hrun,
          plan_succ hpos.ne']
      · rw [hdisk id', plan_succ hpos.ne', List.foldl_append, hstored id, if_pos rfl, place_group,
          hstored id']
        split_ifs <;> rfl

-- ---------------------------------------------------------------------------
-- When the transfers are right
-- ---------------------------------------------------------------------------

/-- The units are transferred where they belong: their number fits in an `int`, the groups
are alike (or there is only one), and the `int` holds where each starts. -/
structure UnitsFit (max unit n offset : Nat) : Prop where
  count  : n < 2 ^ 31
  groups : n ≤ max ∨ max ∣ n
  index  : ∀ t < n, offset + t * unit < 2 ^ 31 ∨
    2 ^ 64 - 2 ^ 31 ≤ offset + t * unit ∧ offset + t * unit < 2 ^ 64

/-- Every byte of the buffer below `size` is paired once, with the byte at `offset` and so
much, and no other byte is. -/
def Paired (size offset : Nat) (moves : List Move) : Prop :=
  (bytePairs moves).Perm ((List.range size).map fun k => (k, offset + k))

theorem mem_bytePairs {moves : List Move} {p : Nat × Nat} : p ∈ bytePairs moves ↔
    ∃ m ∈ moves, ∃ b < m.count, p = (m.buffer + b, m.index + b) := by
  unfold bytePairs
  rw [List.mem_flatMap]
  refine exists_congr fun m => and_congr_right fun _ => ?_
  rw [List.mem_map]
  constructor
  · rintro ⟨b, hb, rfl⟩
    exact ⟨b, List.mem_range.mp hb, rfl⟩
  · rintro ⟨b, hb, rfl⟩
    exact ⟨b, List.mem_range.mpr hb, rfl⟩

theorem Paired.index {size offset k x : Nat} {moves : List Move} (h : Paired size offset moves)
    (hin : (k, x) ∈ bytePairs moves) : x = offset + k := by
  obtain ⟨k', -, heq⟩ := List.mem_map.mp (h.mem_iff.mp hin)
  obtain ⟨rfl, rfl⟩ := Prod.mk.inj heq
  rfl

variable {n offset : Nat}

/-- With few units or with groups that are alike, the places in the buffer are right. -/
theorem plan_full (hmax : 0 < max) (hgroups : n ≤ max ∨ max ∣ n) :
    plan max unit n n (SizeT.toInt32 offset) 0 = (List.range n).map (straight unit 0 offset) := by
  rcases hgroups with hle | hdvd
  · exact plan_single le_rfl hle
  · rw [plan_multiple hmax n n offset 0 le_rfl hdvd, Nat.zero_mul]

/-- The units fit when all of them are where they belong. -/
theorem straight_eq_exactly {t : Nat} (h : offset + t * unit < 2 ^ 31 ∨
    2 ^ 64 - 2 ^ 31 ≤ offset + t * unit ∧ offset + t * unit < 2 ^ 64) :
    straight unit 0 offset t = exactly unit offset t := by
  unfold straight exactly
  rw [SizeT.ofInt_toInt32_eq_iff.mpr h, Nat.zero_add]

theorem UnitsFit.plan_eq (h : UnitsFit max unit n offset) (hmax : 0 < max) :
    plan max unit n n (SizeT.toInt32 offset) 0 = (List.range n).map (exactly unit offset) := by
  rw [plan_full hmax h.groups]
  exact List.map_congr_left fun t ht => straight_eq_exactly (h.index t (List.mem_range.mp ht))

/-- The moves are right exactly when the units fit. -/
theorem paired_iff (hmax : 0 < max) (hunit : 0 < unit) :
    Paired (n * unit) offset (plan max unit (SizeT.toInt32 n).toNat (SizeT.toInt32 n).toNat
      (SizeT.toInt32 offset) 0) ↔ UnitsFit max unit n offset := by
  constructor
  · intro h
    have hlen := h.length_eq
    rw [length_bytePairs (plan_count _ _ _ _), plan_length hmax _ _ _ _ le_rfl, List.length_map,
      List.length_range] at hlen
    have hcount : (SizeT.toInt32 n).toNat = n := Nat.eq_of_mul_eq_mul_right hunit hlen
    rw [hcount] at h
    have hgroups : n ≤ max ∨ max ∣ n := by
      by_contra hno
      obtain ⟨hgt, hndvd⟩ := not_or.mp hno
      have hn : 0 < n * unit := Nat.mul_pos (by omega) hunit
      -- the last byte of the buffer is in no unit
      have hlast : (n * unit - 1, offset + (n * unit - 1)) ∈
          bytePairs (plan max unit n n (SizeT.toInt32 offset) 0) :=
        h.mem_iff.mpr (List.mem_map.mpr ⟨_, List.mem_range.mpr (by omega), rfl⟩)
      obtain ⟨m, hm, b, hb, heq⟩ := mem_bytePairs.mp hlast
      have hend := plan_short hmax n n offset 0 le_rfl hndvd (Or.inr (not_le.mp hgt)) m hm
      rw [Nat.zero_mul, Nat.zero_add, Nat.sub_mul, Nat.one_mul] at hend
      have hplace := (Prod.mk.inj heq).1
      omega
    refine ⟨SizeT.toInt32_toNat_eq_iff.mp hcount, hgroups, fun t ht => ?_⟩
    rw [plan_full hmax hgroups] at h
    have hin : (t * unit, SizeT.ofInt (SizeT.toInt32 (offset + t * unit))) ∈
        bytePairs ((List.range n).map (straight unit 0 offset)) := by
      refine mem_bytePairs.mpr ⟨_, List.mem_map.mpr ⟨t, List.mem_range.mpr ht, rfl⟩, 0, hunit, ?_⟩
      unfold straight
      rw [Nat.zero_add, Nat.add_zero, Nat.add_zero]
    exact SizeT.ofInt_toInt32_eq_iff.mp (h.index hin)
  · intro h
    rw [SizeT.toInt32_toNat_eq_iff.mpr h.count, h.plan_eq hmax]
    unfold Paired
    rw [bytePairs_exactly]

/-- `data_units_size`, once a smaller range has replaced it. -/
def unitOf (unitSize size : Nat) : Nat := if size < unitSize then size else unitSize

/-- The number of units, before it is an `int`. -/
def countOf (unitSize size : Nat) : Nat := if size < unitSize then 1 else size / unitSize

variable {unitSize size : Nat}

theorem countOf_mul_unitOf (hrange : size < unitSize ∨ unitSize ∣ size) :
    countOf unitSize size * unitOf unitSize size = size := by
  unfold countOf unitOf
  split_ifs with hlt
  · exact Nat.one_mul size
  · exact Nat.div_mul_cancel (hrange.resolve_left hlt)

theorem split_eq (hunit : 0 < unitSize) (hrange : size < unitSize ∨ unitSize ∣ size) :
    split unitSize size =
      some (unitOf unitSize size, (SizeT.toInt32 (countOf unitSize size)).toNat) := by
  unfold split unitOf countOf
  rw [if_neg hunit.ne']
  split_ifs with hlt hmod
  · rfl
  · exact absurd (Nat.mod_eq_zero_of_dvd (hrange.resolve_left hlt)) hmod
  · rfl

/-- What both transfers make of a range. -/
def movesOf (max unitSize size offset : Nat) : List Move :=
  plan max (unitOf unitSize size) (SizeT.toInt32 (countOf unitSize size)).toNat
    (SizeT.toInt32 (countOf unitSize size)).toNat (SizeT.toInt32 offset) 0

theorem pread_eq (hc : c.Exact) (hunit : 0 < unitSize)
    (hrange : size < unitSize ∨ unitSize ∣ size) (s : σ) (buffer : Bytes) :
    pread c max unitSize s id buffer size offset = some (SizeT.toSSize size,
      (movesOf max unitSize size offset).foldl (Move.fetch (c.disk s id)) buffer,
      movesOf max unitSize size offset) := by
  unfold pread
  rw [split_eq hunit hrange, Option.map_some]
  simp only [readLoop_eq hc, result, if_true, movesOf]

theorem pwrite_eq (hc : c.Exact) (hunit : 0 < unitSize)
    (hrange : size < unitSize ∨ unitSize ∣ size) (id : ObjectId) (max offset : Nat) (s : σ)
    (buffer : Bytes) : ∃ s',
    pwrite c max unitSize s id buffer size offset =
      some (SizeT.toSSize size, s', movesOf max unitSize size offset) ∧
    ∀ id', c.disk s' id' = if id' = id then
        (movesOf max unitSize size offset).foldl (Move.store buffer) (c.disk s id)
      else c.disk s id' := by
  obtain ⟨s', hrun, hdisk⟩ := writeLoop_eq hc id max (unitOf unitSize size) buffer
    (SizeT.toInt32 (countOf unitSize size)).toNat
    (SizeT.toInt32 (countOf unitSize size)).toNat offset 0 s
  refine ⟨s', ?_, hdisk⟩
  unfold pwrite
  rw [split_eq hunit hrange, Option.map_some]
  simp only [hrun, result, if_true, movesOf]

/-- The transfers of a range move every byte to its place: a read, a write, and a read
after the write. -/
structure Correct (c : Clovis σ) (max unitSize : Nat) (s : σ) (id : ObjectId)
    (buffer other : Bytes) (size offset : Nat) : Prop where
  read  : ∃ after moves, pread c max unitSize s id buffer size offset =
      some ((size : Int), after, moves) ∧ Paired size offset moves ∧
    ∀ k, after k = if k < size then c.disk s id (offset + k) else buffer k
  write : ∃ s' moves, pwrite c max unitSize s id buffer size offset =
      some ((size : Int), s', moves) ∧ Paired size offset moves ∧
    ∀ id' x, c.disk s' id' x = if id' = id ∧ offset ≤ x ∧ x < offset + size then
      buffer (x - offset) else c.disk s id' x
  back  : ∃ s' moves after moves', pwrite c max unitSize s id buffer size offset =
      some ((size : Int), s', moves) ∧
    pread c max unitSize s' id other size offset = some ((size : Int), after, moves') ∧
    ∀ k < size, after k = buffer k

/-- The size fits in the result, and the units of a range that is not empty fit. -/
def Fits (max unitSize size offset : Nat) : Prop :=
  size < 2 ^ 63 ∧
    (size = 0 ∨ UnitsFit max (unitOf unitSize size) (countOf unitSize size) offset)

theorem unitOf_pos (hunit : 0 < unitSize) (hsize : 0 < size) : 0 < unitOf unitSize size := by
  unfold unitOf
  split_ifs
  · exact hsize
  · exact hunit

theorem movesOf_iff (hmax : 0 < max) (hunit : 0 < unitSize)
    (hrange : size < unitSize ∨ unitSize ∣ size) (hsize : 0 < size) :
    Paired size offset (movesOf max unitSize size offset) ↔
      UnitsFit max (unitOf unitSize size) (countOf unitSize size) offset := by
  have h : Paired (countOf unitSize size * unitOf unitSize size) offset
      (movesOf max unitSize size offset) ↔
        UnitsFit max (unitOf unitSize size) (countOf unitSize size) offset :=
    paired_iff hmax (unitOf_pos hunit hsize)
  rwa [countOf_mul_unitOf hrange] at h

/-- What is transferred right is a range that fits. -/
theorem Correct.fits {s : σ} {buffer other : Bytes} (hc : c.Exact) (hmax : 0 < max)
    (hunit : 0 < unitSize) (hrange : size < unitSize ∨ unitSize ∣ size)
    (h : Correct c max unitSize s id buffer other size offset) : Fits max unitSize size offset := by
  obtain ⟨after, moves, hread, hpaired, -⟩ := h.read
  rw [pread_eq hc hunit hrange] at hread
  obtain ⟨hret, hrest⟩ := Prod.mk.inj (Option.some.inj hread)
  obtain rfl := (Prod.mk.inj hrest).2
  refine ⟨SizeT.toSSize_eq_iff.mp hret, ?_⟩
  rcases Nat.eq_zero_or_pos size with hzero | hpos
  · exact Or.inl hzero
  · exact Or.inr ((movesOf_iff hmax hunit hrange hpos).mp hpaired)

/-- An empty range is one empty unit. -/
theorem movesOf_zero (hmax : 0 < max) (hunit : 0 < unitSize) : ∃ index,
    movesOf max unitSize 0 offset = [⟨0, index, 0⟩] := by
  have hcount : (SizeT.toInt32 (countOf unitSize 0)).toNat = 1 := by
    unfold countOf
    rw [if_pos hunit]
    rfl
  have hunitOf : unitOf unitSize 0 = 0 := if_pos hunit
  unfold movesOf
  rw [hcount, hunitOf, plan_succ Nat.one_ne_zero, blockSize_of_ge hmax, plan_zero]
  exact ⟨_, rfl⟩

/-- A range that fits is transferred right. -/
theorem Fits.moves (h : Fits max unitSize size offset) (hmax : 0 < max) (hunit : 0 < unitSize)
    (hrange : size < unitSize ∨ unitSize ∣ size) :
    Paired size offset (movesOf max unitSize size offset) ∧
    (∀ disk buffer k, (movesOf max unitSize size offset).foldl (Move.fetch disk) buffer k =
      if k < size then disk (offset + k) else buffer k) ∧
    ∀ disk buffer x, (movesOf max unitSize size offset).foldl (Move.store buffer) disk x =
      if offset ≤ x ∧ x < offset + size then buffer (x - offset) else disk x := by
  rcases Nat.eq_zero_or_pos size with rfl | hpos
  · obtain ⟨index, hmoves⟩ : ∃ index, movesOf max unitSize 0 offset = [⟨0, index, 0⟩] :=
      movesOf_zero hmax hunit
    rw [hmoves]
    refine ⟨List.Perm.refl _, fun disk buffer k => ?_, fun disk buffer x => ?_⟩
    · show (if 0 ≤ k ∧ k < 0 + 0 then disk (index + (k - 0)) else buffer k) = _
      rw [if_neg (Nat.not_lt_zero k), if_neg (by omega)]
    · show (if index ≤ x ∧ x < index + 0 then buffer (0 + (x - index)) else disk x) = _
      rw [if_neg (by omega), if_neg (by omega)]
  · have hfit := h.2.resolve_left hpos.ne'
    have hmoves : movesOf max unitSize size offset =
        (List.range (countOf unitSize size)).map (exactly (unitOf unitSize size) offset) := by
      unfold movesOf
      rw [SizeT.toInt32_toNat_eq_iff.mpr hfit.count, hfit.plan_eq hmax]
    refine ⟨(movesOf_iff hmax hunit hrange hpos).mpr hfit, fun disk buffer k => ?_,
      fun disk buffer x => ?_⟩
    · rw [hmoves, fetch_exactly, countOf_mul_unitOf hrange]
    · rw [hmoves, store_exactly, countOf_mul_unitOf hrange]

theorem Fits.correct (hc : c.Exact) (hmax : 0 < max) (hunit : 0 < unitSize)
    (hrange : size < unitSize ∨ unitSize ∣ size) (h : Fits max unitSize size offset) (s : σ)
    (buffer other : Bytes) : Correct c max unitSize s id buffer other size offset := by
  obtain ⟨hpaired, hfetch, hstore⟩ := h.moves hmax hunit hrange
  have hret : SizeT.toSSize size = size := SizeT.toSSize_eq_iff.mpr h.1
  have hread : ∀ s buffer, pread c max unitSize s id buffer size offset = some ((size : Int),
      (movesOf max unitSize size offset).foldl (Move.fetch (c.disk s id)) buffer,
      movesOf max unitSize size offset) := fun s buffer => by
    rw [pread_eq hc hunit hrange, hret]
  obtain ⟨s', hwrite, hdisk⟩ := pwrite_eq hc hunit hrange id max offset s buffer
  rw [hret] at hwrite
  have hafter : ∀ id' x, c.disk s' id' x = if id' = id ∧ offset ≤ x ∧ x < offset + size then
      buffer (x - offset) else c.disk s id' x := by
    intro id' x
    rw [hdisk id']
    by_cases hid : id' = id
    · rw [if_pos hid, hstore, hid]
      simp only [eq_self, true_and]
    · rw [if_neg hid, if_neg fun hand => hid hand.1]
  refine ⟨⟨_, _, hread s buffer, hpaired, hfetch _ _⟩, ⟨s', _, hwrite, hpaired, hafter⟩,
    ⟨s', _, _, _, hwrite, hread s' other, fun k hk => ?_⟩⟩
  rw [hfetch, if_pos hk, hafter, if_pos ⟨rfl, by omega, by omega⟩, Nat.add_sub_cancel_left]

/-- **Every byte goes to its place exactly when the units fit**: at most `2^31 - 1` of them,
in one group or in groups that are alike, each starting where an `int` can say it. -/
theorem exact_iff (hc : c.Exact) (hmax : 0 < max) (hunit : 0 < unitSize)
    (hrange : size < unitSize ∨ unitSize ∣ size) (s : σ) (buffer other : Bytes) :
    Correct c max unitSize s id buffer other size offset ↔ Fits max unitSize size offset :=
  ⟨fun h => h.fits hc hmax hunit hrange, fun h => h.correct hc hmax hunit hrange s buffer other⟩

-- ---------------------------------------------------------------------------
-- Objects held in memory
-- ---------------------------------------------------------------------------

/-- Objects that are transferred as they should be. -/
def objects : Clovis (ObjectId → Bytes) where
  disk s := s
  readData s id ext := (0, fun i b => s id ((ext.getD i ⟨0, 0⟩).index + b))
  writeData s id ext data := (0, fun id' => if id' = id then place ext data (s id) else s id')

theorem objects_exact : objects.Exact := by
  refine ⟨fun _ _ _ => rfl, fun s id ext i e he b _ => ?_, fun _ _ _ _ => rfl,
    fun _ _ _ _ _ => rfl⟩
  show s id ((ext.getD i ⟨0, 0⟩).index + b) = s id (e.index + b)
  rw [List.getD_eq_getElem?_getD, he, Option.getD_some]

/-- Two groups of 50 units of 1 MiB, from the second MiB on. -/
theorem exact_of_two_groups : Correct objects 50 1048576 (fun _ _ => 0) ⟨0, 1⟩ (fun _ => 1)
    (fun _ => 2) 104857600 1048576 :=
  (exact_iff objects_exact (by decide) (by decide) (by decide) _ _ _).mpr
    ⟨by decide, Or.inr ⟨by decide, by decide, fun t ht => Or.inl (by
      rw [show countOf 1048576 104857600 = 100 by decide] at ht
      rw [show unitOf 1048576 104857600 = 1048576 by decide]
      omega)⟩⟩

/-- One group of 50 units and one of a single unit, and one unit at 2 GiB, are not
transferred right. -/
theorem smaller_group_misplaced :
    ¬ Correct objects 50 1048576 (fun _ _ => 0) ⟨0, 1⟩ (fun _ => 1) (fun _ => 2) 53477376 0 ∧
    ¬ Correct objects 50 1048576 (fun _ _ => 0) ⟨0, 1⟩ (fun _ => 1) (fun _ => 2) 1048576
      2147483648 := by
  constructor
  · intro h
    obtain ⟨-, hzero | hfit⟩ := h.fits objects_exact (by decide) (by decide) (by decide)
    · exact absurd hzero (by decide)
    · exact absurd hfit.groups (by decide)
  · intro h
    obtain ⟨-, hzero | hfit⟩ := h.fits objects_exact (by decide) (by decide) (by decide)
    · exact absurd hzero (by decide)
    · exact absurd (hfit.index 0 (by decide)) (by decide)

end StorageBackendMero

end IoCatcher
