import Mathlib.Data.List.Pairwise
import IoCatcher.Lib.Run
import IoCatcher.Lib.Wrapping
import IoCatcher.Model.Object

/-!
# IO Catcher — the registrations of an object as a set

`ConsistencyTracker` keeps the ranges that clients have registered on an object in a
list. What the list stands for is a set in which two registrations that share a byte
are both reads (`Registrations`): the order in which they were made does not matter.

The ids come from an `int32_t` that is never reset, and the answer to a registration
is its id or -1. A `Ledger` is a tracker with every registration it has granted.

* `tracker_refines`  — with less than `2^31 - 1` registrations, every call does to the
  list what it does to the set;
* `ids_unambiguous_iff` — the ids tell registrations apart, and from a refusal, as long
  as fewer than `2^31` were granted;
* `id_negative_after_wrap` — the next one is negative.
-/

namespace IoCatcher

/-- The calls of `ConsistencyTracker`. -/
inductive TrackerCall where
  | registerRange (tcpClientId offset size : Nat) (accessMode : ConsistencyAccessMode)
  | unregisterRange (tcpClientId : Nat) (id : Int) (offset size : Nat)
      (accessMode : ConsistencyAccessMode)
  | clientDisconnect (tcpClientId : Nat)
  deriving DecidableEq

/-- What they return. -/
inductive TrackerAnswer where
  | id (id : Int)
  | found (found : Bool)
  | nothing
  deriving DecidableEq

/-- A range of at least a byte that does not wrap. -/
def TrackerCall.Sized : TrackerCall → Prop
  | .registerRange _ offset size _ => 0 < size ∧ offset + size < 2 ^ 64
  | _ => True

-- ---------------------------------------------------------------------------
-- The set
-- ---------------------------------------------------------------------------

namespace ConsistencyRange

/-- The registration has position `x`. -/
def Covers (it : ConsistencyRange) (x : Nat) : Prop := it.offset ≤ x ∧ x < it.offset + it.size

/-- A byte of the range is registered, and one of the two is in write mode. -/
def Conflicts (it : ConsistencyRange) (offset size : Nat) (accessMode : ConsistencyAccessMode) :
    Prop :=
  (∃ x, it.Covers x ∧ offset ≤ x ∧ x < offset + size) ∧
    (it.accessMode = .write ∨ accessMode = .write)

theorem Conflicts.symm {r r' : ConsistencyRange}
    (h : r.Conflicts r'.offset r'.size r'.accessMode) :
    r'.Conflicts r.offset r.size r.accessMode := by
  obtain ⟨⟨x, hx, hx'⟩, hmode⟩ := h
  exact ⟨⟨x, hx', hx⟩, hmode.symm⟩

end ConsistencyRange

/-- The live registrations of an object, and the ids given so far. -/
structure Registrations where
  live : Set ConsistencyRange
  used : Set Int

/-- What a call answers and does. -/
inductive Registrations.Step (r : Registrations) : TrackerCall → TrackerAnswer →
    Registrations → Prop where
  | refused {c o n : Nat} {m : ConsistencyAccessMode} (h : ∃ it ∈ r.live, it.Conflicts o n m) :
      Step r (.registerRange c o n m) (.id (-1)) r
  | granted {c o n : Nat} {m : ConsistencyAccessMode} {id : Int}
      (h : ∀ it ∈ r.live, ¬ it.Conflicts o n m) (hfresh : id ∉ r.used) (hpos : 1 ≤ id) :
      Step r (.registerRange c o n m) (.id id)
        ⟨insert ⟨c, id, o, n, m⟩ r.live, insert id r.used⟩
  | removed {c o n : Nat} {m : ConsistencyAccessMode} {id : Int}
      (h : ⟨c, id, o, n, m⟩ ∈ r.live) :
      Step r (.unregisterRange c id o n m) (.found true) ⟨r.live \ {⟨c, id, o, n, m⟩}, r.used⟩
  | unknown {c o n : Nat} {m : ConsistencyAccessMode} {id : Int}
      (h : ⟨c, id, o, n, m⟩ ∉ r.live) : Step r (.unregisterRange c id o n m) (.found false) r
  | left (c : Nat) :
      Step r (.clientDisconnect c) .nothing ⟨{it ∈ r.live | it.tcpClientId ≠ c}, r.used⟩

-- ---------------------------------------------------------------------------
-- The tracker
-- ---------------------------------------------------------------------------

namespace ConsistencyTracker

variable {t t' : ConsistencyTracker} {offset size : Nat} {accessMode : ConsistencyAccessMode}

/-- Make a call. -/
def exec (t : ConsistencyTracker) : TrackerCall → TrackerAnswer × ConsistencyTracker
  | .registerRange c offset size accessMode =>
    ((.id (t.registerRange c offset size accessMode).1),
      (t.registerRange c offset size accessMode).2)
  | .unregisterRange c id offset size accessMode =>
    ((.found (t.unregisterRange c id offset size accessMode).1),
      (t.unregisterRange c id offset size accessMode).2)
  | .clientDisconnect c => (.nothing, t.clientDisconnect c)

/-- The test asks whether one of the ranges starts inside the other. -/
theorem overlap_iff_nested {offset1 size1 offset2 size2 : Nat} :
    overlap offset1 size1 offset2 size2 = true ↔
      Wrapping.Nested (2 ^ 64) offset1 size1 offset2 size2 := by
  unfold overlap
  simp only [Bool.or_eq_true, Bool.and_eq_true, decide_eq_true_eq]
  exact Iff.rfl

/-- The two sides of `overlap` cover every way to share a byte. -/
theorem overlap_iff {offset1 size1 offset2 size2 : Nat} (h1 : 0 < size1) (h2 : 0 < size2)
    (hnw1 : offset1 + size1 < 2 ^ 64) (hnw2 : offset2 + size2 < 2 ^ 64) :
    overlap offset1 size1 offset2 size2 = true ↔
      ∃ x, (offset2 ≤ x ∧ x < offset2 + size2) ∧ offset1 ≤ x ∧ x < offset1 + size1 := by
  rw [overlap_iff_nested, Wrapping.nested_iff_meet (by omega) h1 (by omega) (by omega) h2
    (by omega) (Wrapping.harmless_of_lt hnw1) (Wrapping.harmless_of_lt hnw2)]
  exact exists_congr fun x => and_comm

theorem hasCollision_iff (hall : ∀ it ∈ t.ranges, 0 < it.size ∧ it.offset + it.size < 2 ^ 64)
    (hpos : 0 < size) (hnw : offset + size < 2 ^ 64) :
    t.hasCollision offset size accessMode = true ↔
      ∃ it ∈ t.ranges, it.Conflicts offset size accessMode := by
  have hmode : ∀ m : ConsistencyAccessMode,
      (accessMode ≠ m ∨ m = .write) ↔ (m = .write ∨ accessMode = .write) := by
    intro m
    cases m <;> cases accessMode <;> simp
  unfold hasCollision
  rw [List.any_eq_true]
  refine exists_congr fun it => and_congr_right fun hit => ?_
  obtain ⟨hpos', hnw'⟩ := hall it hit
  rw [Bool.and_eq_true, overlap_iff hpos hpos' hnw hnw', Bool.or_eq_true, decide_eq_true_eq,
    decide_eq_true_eq, hmode]
  rfl

/-- A collision is one with some range of the list, wherever it stands. -/
theorem hasCollision_congr (h : ∀ it, it ∈ t'.ranges ↔ it ∈ t.ranges) :
    t'.hasCollision offset size accessMode = t.hasCollision offset size accessMode := by
  unfold hasCollision
  rw [Bool.eq_iff_iff, List.any_eq_true, List.any_eq_true]
  simp only [h]

end ConsistencyTracker

-- ---------------------------------------------------------------------------
-- Every registration so far
-- ---------------------------------------------------------------------------

/-- A tracker, with the registrations it has granted, in their order. -/
structure Ledger where
  tracker    : ConsistencyTracker
  registered : List ConsistencyRange

namespace Ledger

/-- The tracker of a new object. -/
def new : Ledger := ⟨.new, []⟩

/-- The registration that a call is granted, with the id it returns. -/
def granted (t : ConsistencyTracker) : TrackerCall → List ConsistencyRange
  | .registerRange c offset size accessMode =>
    if t.hasCollision offset size accessMode then []
    else [⟨c, (t.registerRange c offset size accessMode).1, offset, size, accessMode⟩]
  | _ => []

/-- The ledger after a call. -/
def next (l : Ledger) (call : TrackerCall) : Ledger :=
  ⟨(l.tracker.exec call).2, l.registered ++ granted l.tracker call⟩

def Step (l : Ledger) (call : TrackerCall) (l' : Ledger) : Prop := l' = l.next call

/-- The set the list stands for. -/
def view (l : Ledger) : Registrations :=
  ⟨{it | it ∈ l.tracker.ranges}, {id | ∃ it ∈ l.registered, it.id = id}⟩

/-- The ids count the registrations, modulo `2^32`, and the list holds some of them. -/
structure Counted (l : Ledger) : Prop where
  nextId : l.tracker.nextId = SizeT.toInt32 (l.registered.length + 1)
  ids    : ∀ {n it}, l.registered[n]? = some it → it.id = SizeT.toInt32 (n + 1)
  live   : l.tracker.ranges.Sublist l.registered

/-- The ranges in the list have a byte, do not wrap and do not conflict. -/
structure Exclusive (t : ConsistencyTracker) : Prop where
  sized : ∀ it ∈ t.ranges, 0 < it.size ∧ it.offset + it.size < 2 ^ 64
  apart : t.ranges.Pairwise fun r r' => ¬ r.Conflicts r'.offset r'.size r'.accessMode

variable {l l' : Ledger} {call : TrackerCall} {c offset size : Nat}
  {accessMode : ConsistencyAccessMode}

-- ---------------------------------------------------------------------------
-- One call
-- ---------------------------------------------------------------------------

/-- A registration is refused and changes nothing, or is appended. -/
theorem next_registerRange (l : Ledger) (c offset size : Nat)
    (accessMode : ConsistencyAccessMode) :
    (l.tracker.hasCollision offset size accessMode = true ∧
        l.next (.registerRange c offset size accessMode) = l ∧
        (l.tracker.exec (.registerRange c offset size accessMode)).1 = .id (-1)) ∨
      (l.tracker.hasCollision offset size accessMode = false ∧
        l.next (.registerRange c offset size accessMode) =
          ⟨⟨l.tracker.ranges ++ [⟨c, l.tracker.nextId, offset, size, accessMode⟩],
            ConsistencyTracker.succId l.tracker.nextId⟩,
            l.registered ++ [⟨c, l.tracker.nextId, offset, size, accessMode⟩]⟩ ∧
        (l.tracker.exec (.registerRange c offset size accessMode)).1 =
          .id l.tracker.nextId) := by
  unfold next granted ConsistencyTracker.exec ConsistencyTracker.registerRange
  cases hcol : l.tracker.hasCollision offset size accessMode with
  | true => exact Or.inl (by simp [hcol])
  | false => exact Or.inr (by simp [hcol])

/-- The other calls take ranges out of the list. -/
theorem next_of_granted_nil (h : granted l.tracker call = []) :
    (l.next call).registered = l.registered := by
  show l.registered ++ granted l.tracker call = _
  rw [h, List.append_nil]

theorem succId_toInt32 (n : Nat) :
    ConsistencyTracker.succId (SizeT.toInt32 n) = SizeT.toInt32 (n + 1) := by
  unfold ConsistencyTracker.succId SizeT.toInt32
  push_cast
  omega

theorem counted_new : Counted new :=
  ⟨(SizeT.toInt32_eq (by decide)).symm, fun h => absurd h (by simp [new]), List.Sublist.refl _⟩

theorem counted_step (h : Counted l) (hstep : Step l call l') : Counted l' := by
  obtain rfl : l' = l.next call := hstep
  cases call with
  | registerRange c offset size accessMode =>
    rcases next_registerRange l c offset size accessMode with ⟨-, hnext, -⟩ | ⟨-, hnext, -⟩
    · rw [hnext]
      exact h
    · rw [hnext]
      refine ⟨?_, fun {n it} hit => ?_, h.live.append (List.Sublist.refl _)⟩
      · show ConsistencyTracker.succId l.tracker.nextId = _
        rw [h.nextId, succId_toInt32, List.length_append]
        rfl
      · rcases Nat.lt_or_ge n l.registered.length with hn | hn
        · rw [List.getElem?_append_left hn] at hit
          exact h.ids hit
        · -- the new one
          rw [List.getElem?_append_right hn, List.getElem?_singleton] at hit
          split_ifs at hit with hzero
          rw [← Option.some.inj hit, show n = l.registered.length by omega]
          exact h.nextId
  | unregisterRange c id offset size accessMode =>
    have hsame : (l.next (.unregisterRange c id offset size accessMode)).registered =
        l.registered := next_of_granted_nil rfl
    refine ⟨?_, ?_, ?_⟩
    · rw [hsame]
      exact h.nextId
    · rw [hsame]
      exact h.ids
    · rw [hsame]
      exact List.erase_sublist.trans h.live
  | clientDisconnect c =>
    have hsame : (l.next (.clientDisconnect c)).registered = l.registered :=
      next_of_granted_nil rfl
    refine ⟨?_, ?_, ?_⟩
    · rw [hsame]
      exact h.nextId
    · rw [hsame]
      exact h.ids
    · rw [hsame]
      exact List.filter_sublist.trans h.live

theorem exclusive_new : Exclusive ConsistencyTracker.new :=
  ⟨fun _ h => absurd h List.not_mem_nil, List.Pairwise.nil⟩

theorem Exclusive.of_sublist {t t' : ConsistencyTracker} (h : Exclusive t)
    (hsub : t'.ranges.Sublist t.ranges) : Exclusive t' :=
  ⟨fun it hit => h.sized it (hsub.subset hit), h.apart.sublist hsub⟩

theorem exclusive_step (h : Exclusive l.tracker) (hsized : call.Sized)
    (hstep : Step l call l') : Exclusive l'.tracker := by
  obtain rfl : l' = l.next call := hstep
  cases call with
  | registerRange c offset size accessMode =>
    obtain ⟨hpos, hnw⟩ := hsized
    rcases next_registerRange l c offset size accessMode with ⟨-, hnext, -⟩ | ⟨hno, hnext, -⟩
    · rw [hnext]
      exact h
    · rw [hnext]
      have hfree : ∀ it ∈ l.tracker.ranges, ¬ it.Conflicts offset size accessMode :=
        fun it hit hcon => absurd hno (by
          rw [(ConsistencyTracker.hasCollision_iff h.sized hpos hnw).mpr ⟨it, hit, hcon⟩]
          simp)
      refine ⟨fun it hit => ?_, ?_⟩
      · rcases List.mem_append.mp hit with hold | hnew
        · exact h.sized it hold
        · rw [List.mem_singleton.mp hnew]
          exact ⟨hpos, hnw⟩
      · refine List.pairwise_append.mpr ⟨h.apart, List.pairwise_singleton _ _, ?_⟩
        intro it hit it' hit'
        rw [List.mem_singleton.mp hit']
        exact hfree it hit
  | unregisterRange c id offset size accessMode => exact h.of_sublist List.erase_sublist
  | clientDisconnect c => exact h.of_sublist List.filter_sublist

-- ---------------------------------------------------------------------------
-- Ids
-- ---------------------------------------------------------------------------

/-- Below the wrap the ids are positive, and each is given once. -/
theorem Counted.id_eq (h : Counted l) (hfew : l.registered.length < 2 ^ 31) {n : Nat}
    {it : ConsistencyRange} (hit : l.registered[n]? = some it) : it.id = n + 1 := by
  obtain ⟨hn, -⟩ := List.getElem?_eq_some_iff.mp hit
  rw [h.ids hit, SizeT.toInt32_eq (by omega)]
  push_cast
  rfl

theorem Counted.nodup (h : Counted l) (hfew : l.registered.length < 2 ^ 31) :
    (l.registered.map ConsistencyRange.id).Nodup := by
  have hids : l.registered.map ConsistencyRange.id =
      (List.range l.registered.length).map fun n : Nat => (n : Int) + 1 := by
    refine List.ext_getElem (by simp) fun n hn _ => ?_
    rw [List.length_map] at hn
    simpa using h.id_eq hfew (List.getElem?_eq_getElem hn)
  rw [hids]
  exact List.nodup_range.map fun n n' heq => by simpa using heq

/-- The id of the next registration is none of those given. -/
theorem Counted.fresh (h : Counted l) (hfew : l.registered.length + 1 < 2 ^ 31)
    {it : ConsistencyRange} (hit : it ∈ l.registered) : it.id ≠ l.tracker.nextId := by
  obtain ⟨n, hn⟩ := List.getElem?_of_mem hit
  obtain ⟨hlt, -⟩ := List.getElem?_eq_some_iff.mp hn
  rw [h.id_eq (by omega) hn, h.nextId, SizeT.toInt32_eq hfew]
  push_cast
  omega

-- ---------------------------------------------------------------------------
-- The list and the set
-- ---------------------------------------------------------------------------

theorem view_append (t : ConsistencyTracker) (registered : List ConsistencyRange)
    (it : ConsistencyRange) (nextId : Int) :
    view ⟨⟨t.ranges ++ [it], nextId⟩, registered ++ [it]⟩ =
      ⟨insert it {r | r ∈ t.ranges}, insert it.id {id | ∃ r ∈ registered, r.id = id}⟩ := by
  unfold view
  congr 1
  · ext r
    simp [or_comm]
  · ext id
    simp [or_and_right, exists_or, or_comm, eq_comm]

/-- **A call does to the list what it does to the set.** -/
theorem follows (hcount : Counted l) (hexcl : Exclusive l.tracker) (hsized : call.Sized)
    (hfew : (l.next call).registered.length < 2 ^ 31) :
    Registrations.Step l.view call (l.tracker.exec call).1 (l.next call).view := by
  have hmono : l.registered.length ≤ (l.next call).registered.length := by
    show _ ≤ (l.registered ++ granted l.tracker call).length
    rw [List.length_append]
    exact Nat.le_add_right _ _
  have hnodup : l.tracker.ranges.Nodup :=
    (List.Nodup.of_map _ (hcount.nodup (by omega))).sublist hcount.live
  cases call with
  | registerRange c offset size accessMode =>
    obtain ⟨hpos, hnw⟩ := hsized
    have hiff : l.tracker.hasCollision offset size accessMode = true ↔
        ∃ it ∈ l.tracker.ranges, it.Conflicts offset size accessMode :=
      ConsistencyTracker.hasCollision_iff hexcl.sized hpos hnw
    rcases next_registerRange l c offset size accessMode with
      ⟨hyes, hnext, hans⟩ | ⟨hno, hnext, hans⟩
    · rw [hnext, hans]
      exact .refused (hiff.mp hyes)
    · rw [hnext] at hfew
      rw [hnext, hans, view_append]
      rw [List.length_append, List.length_singleton] at hfew
      refine .granted (fun it hit hcon => ?_) ?_ ?_
      · rw [hiff.mpr ⟨it, hit, hcon⟩] at hno
        exact absurd hno (by simp)
      · rintro ⟨it, hit, heq⟩
        exact hcount.fresh hfew hit heq
      · rw [hcount.nextId, SizeT.toInt32_eq hfew]
        omega
  | unregisterRange c id offset size accessMode =>
    have hans : (l.tracker.exec (.unregisterRange c id offset size accessMode)).1 =
        .found (l.tracker.ranges.contains ⟨c, id, offset, size, accessMode⟩) := rfl
    have hview : (l.next (.unregisterRange c id offset size accessMode)).view =
        ⟨{it | it ∈ l.tracker.ranges.erase ⟨c, id, offset, size, accessMode⟩}, l.view.used⟩ := by
      unfold view
      rw [next_of_granted_nil rfl]
      rfl
    rw [hans, hview]
    by_cases hmem : (⟨c, id, offset, size, accessMode⟩ : ConsistencyRange) ∈ l.tracker.ranges
    · rw [List.contains_iff_mem.mpr hmem]
      have hset : {it | it ∈ l.tracker.ranges.erase ⟨c, id, offset, size, accessMode⟩} =
          l.view.live \ {⟨c, id, offset, size, accessMode⟩} := by
        ext it
        show it ∈ l.tracker.ranges.erase _ ↔ _
        rw [hnodup.mem_erase_iff, and_comm]
        rfl
      rw [hset]
      exact .removed hmem
    · rw [show l.tracker.ranges.contains _ = false from
        Bool.eq_false_iff.mpr fun hno => hmem (List.contains_iff_mem.mp hno),
        List.erase_of_not_mem hmem]
      exact .unknown hmem
  | clientDisconnect c =>
    have hview : (l.next (.clientDisconnect c)).view =
        ⟨{it ∈ l.view.live | it.tcpClientId ≠ c}, l.view.used⟩ := by
      unfold view
      rw [next_of_granted_nil rfl]
      congr 1
      ext it
      show it ∈ l.tracker.ranges.filter _ ↔ _
      rw [List.mem_filter, decide_eq_true_eq]
      rfl
    rw [hview]
    exact .left c

/-- Less registrations than there are positive ids but one. -/
def Few (l : Ledger) : Prop := l.registered.length < 2 ^ 31 - 1

/-- The runs of calls on the tracker of a new object. -/
def Reached (l : Ledger) : Prop := Run Step (fun _ call => call.Sized) new l

/-- Two answers that tell the client the same: the same one, or an id each. -/
inductive Agrees : TrackerAnswer → TrackerAnswer → Prop where
  | same (a : TrackerAnswer) : Agrees a a
  | ids {id id' : Int} (h : 1 ≤ id) (h' : 1 ≤ id') : Agrees (.id id) (.id id')

theorem inv_of_reached (h : Reached l) : Counted l ∧ Exclusive l.tracker :=
  h.invariant (I := fun l => Counted l ∧ Exclusive l.tracker) ⟨counted_new, exclusive_new⟩
    fun h hsized hstep => ⟨counted_step h.1 hstep, exclusive_step h.2 hsized hstep⟩

/-- The list stands for a set of registrations. -/
structure Refines (l : Ledger) : Prop where
  /-- Two that share a byte are reads. -/
  exclusive  : ∀ it ∈ l.view.live, ∀ it' ∈ l.view.live, it ≠ it' →
    (∃ x, it.Covers x ∧ it'.Covers x) → it.accessMode = .read ∧ it'.accessMode = .read
  /-- Every call does what it does to the set. -/
  follows    : ∀ call : TrackerCall, call.Sized → Few (l.next call) →
    Registrations.Step l.view call (l.tracker.exec call).1 (l.next call).view
  /-- The answers come from the set, and the id from the number of registrations. -/
  determined : ∀ (l' : Ledger) (call : TrackerCall), Reached l' → l'.view.live = l.view.live →
    Few (l.next call) → Few (l'.next call) →
    Agrees (l.tracker.exec call).1 (l'.tracker.exec call).1 ∧
      (l'.registered.length = l.registered.length →
        (l'.tracker.exec call).1 = (l.tracker.exec call).1)

theorem determined (h : Counted l) (h' : Counted l') (hlive : l'.view.live = l.view.live)
    (hfew : Few (l.next call)) (hfew' : Few (l'.next call)) :
    Agrees (l.tracker.exec call).1 (l'.tracker.exec call).1 ∧
      (l'.registered.length = l.registered.length →
        (l'.tracker.exec call).1 = (l.tracker.exec call).1) := by
  have hmem : ∀ it, it ∈ l'.tracker.ranges ↔ it ∈ l.tracker.ranges := fun it =>
    Set.ext_iff.mp hlive it
  cases call with
  | registerRange c offset size accessMode =>
    have hcol : l'.tracker.hasCollision offset size accessMode =
        l.tracker.hasCollision offset size accessMode := ConsistencyTracker.hasCollision_congr hmem
    rcases next_registerRange l c offset size accessMode with
      ⟨hyes, -, hans⟩ | ⟨hno, hnext, hans⟩ <;>
    rcases next_registerRange l' c offset size accessMode with
      ⟨hyes', -, hans'⟩ | ⟨hno', hnext', hans'⟩
    · rw [hans, hans']
      exact ⟨.same _, fun _ => rfl⟩
    · rw [hcol, hyes] at hno'
      exact absurd hno' (by simp)
    · rw [hcol, hno] at hyes'
      exact absurd hyes' (by simp)
    · unfold Few at hfew hfew'
      rw [hnext, List.length_append, List.length_singleton] at hfew
      rw [hnext', List.length_append, List.length_singleton] at hfew'
      rw [hans, hans', h.nextId, h'.nextId, SizeT.toInt32_eq (by omega),
        SizeT.toInt32_eq (by omega)]
      refine ⟨.ids (by omega) (by omega), fun hlen => ?_⟩
      rw [hlen]
  | unregisterRange c id offset size accessMode =>
    have hfound : l'.tracker.ranges.contains ⟨c, id, offset, size, accessMode⟩ =
        l.tracker.ranges.contains ⟨c, id, offset, size, accessMode⟩ := by
      rw [Bool.eq_iff_iff, List.contains_iff_mem, List.contains_iff_mem]
      exact hmem _
    have hans : (l'.tracker.exec (.unregisterRange c id offset size accessMode)).1 =
        (l.tracker.exec (.unregisterRange c id offset size accessMode)).1 :=
      congrArg TrackerAnswer.found hfound
    rw [hans]
    exact ⟨.same _, fun _ => rfl⟩
  | clientDisconnect c => exact ⟨.same _, fun _ => rfl⟩

/-- **The tracker refines a set of registrations**, in every run of calls of any
clients. -/
theorem tracker_refines (hrun : Reached l) : Refines l := by
  obtain ⟨hcount, hexcl⟩ := inv_of_reached hrun
  refine ⟨fun it hit it' hit' hne hshare => ?_, fun call hsized hnext => ?_,
    fun l' call hrun' hlive hnext hnext' => ?_⟩
  · have hsymm : Std.Symm fun r r' : ConsistencyRange =>
        ¬ r.Conflicts r'.offset r'.size r'.accessMode := ⟨fun _ _ h hcon => h hcon.symm⟩
    have hfree := hexcl.apart.forall hit hit' hne
    have hread : ∀ m : ConsistencyAccessMode, m ≠ .write → m = .read := by
      intro m hm
      cases m with
      | read => rfl
      | write => exact absurd rfl hm
    exact ⟨hread _ fun hno => hfree ⟨hshare, Or.inl hno⟩,
      hread _ fun hno => hfree ⟨hshare, Or.inr hno⟩⟩
  · exact follows hcount hexcl hsized (Nat.lt_of_lt_of_le hnext (by decide))
  · exact determined hcount (inv_of_reached hrun').1 hlive hnext hnext'

/-- A write registration, a second client that is refused, and the first one leaving. -/
theorem refines_of_leave : ∃ l, Reached l ∧ l.registered.length = 1 ∧ l.tracker.ranges = [] ∧
    Refines l := by
  have hrun : Reached (((new.next (.registerRange 1 0 8 .write)).next
      (.registerRange 2 4 8 .read)).next (.clientDisconnect 1)) :=
    .next (e := .clientDisconnect 1) (.next (e := .registerRange 2 4 8 .read)
      (.next (e := .registerRange 1 0 8 .write) .start ⟨by decide, by decide⟩ rfl)
      ⟨by decide, by decide⟩ rfl) trivial rfl
  exact ⟨_, hrun, by decide, by decide, tracker_refines hrun⟩

-- ---------------------------------------------------------------------------
-- Runs that wrap
-- ---------------------------------------------------------------------------

/-- The client can tell every registration from a refusal, and every live one from the
others. -/
structure Unambiguous (l : Ledger) : Prop where
  positive : ∀ it ∈ l.registered, 1 ≤ it.id
  distinct : (l.tracker.ranges.map ConsistencyRange.id).Nodup

theorem counted_of_run {guard : Ledger → TrackerCall → Prop} (h : Run Step guard new l) :
    Counted l :=
  h.invariant counted_new fun hcount _ hstep => counted_step hcount hstep

/-- The `2^31`-th id is negative. -/
theorem not_unambiguous_of_long (h : Counted l) (hlong : 2 ^ 31 ≤ l.registered.length) :
    ¬ Unambiguous l := by
  intro hun
  have hn : 2 ^ 31 - 1 < l.registered.length := by omega
  have hpos := hun.positive _ (List.getElem_mem hn)
  rw [h.ids (List.getElem?_eq_getElem hn)] at hpos
  have hneg : SizeT.toInt32 (2 ^ 31 - 1 + 1) = -2 ^ 31 := by decide
  rw [hneg] at hpos
  exact absurd hpos (by decide)

/-- **The ids are unambiguous** in a run of any length exactly when it granted fewer
than `2^31` registrations. -/
theorem ids_unambiguous_iff (hrun : Run Step (fun _ _ => True) new l) :
    Unambiguous l ↔ l.registered.length < 2 ^ 31 := by
  have hcount := counted_of_run hrun
  refine ⟨fun hun => ?_, fun hfew => ⟨fun it hit => ?_, ?_⟩⟩
  · by_contra hlong
    exact not_unambiguous_of_long hcount (by omega) hun
  · obtain ⟨n, hn⟩ := List.getElem?_of_mem hit
    rw [hcount.id_eq hfew hn]
    omega
  · exact (hcount.nodup hfew).sublist (hcount.live.map _)

theorem unambiguous_of_two : ∃ l, Run Step (fun _ _ => True) new l ∧
    l.tracker.ranges.length = 2 ∧ (Unambiguous l ↔ l.registered.length < 2 ^ 31) := by
  have hrun : Run Step (fun _ _ => True) new
      ((new.next (.registerRange 1 0 8 .read)).next (.registerRange 2 4 8 .read)) :=
    .next (.next .start trivial rfl) trivial rfl
  exact ⟨_, hrun, by decide, ids_unambiguous_iff hrun⟩

/-- A client can register a range and give it back any number of times. -/
theorem exists_churn (n : Nat) : ∃ l, Run Step (fun _ _ => True) new l ∧
    l.registered.length = n ∧ l.tracker.ranges = [] := by
  induction n with
  | zero => exact ⟨new, .start, rfl, rfl⟩
  | succ n ih =>
    obtain ⟨l, hrun, hlen, hempty⟩ := ih
    have hno : l.tracker.hasCollision 0 8 .read = false := by
      unfold ConsistencyTracker.hasCollision
      rw [hempty]
      rfl
    have hnext : l.next (.registerRange 1 0 8 .read) =
        ⟨⟨l.tracker.ranges ++ [⟨1, l.tracker.nextId, 0, 8, .read⟩],
          ConsistencyTracker.succId l.tracker.nextId⟩,
          l.registered ++ [⟨1, l.tracker.nextId, 0, 8, .read⟩]⟩ := by
      rcases next_registerRange l 1 0 8 .read with ⟨hyes, -⟩ | ⟨-, hnext, -⟩
      · rw [hno] at hyes
        exact absurd hyes (by simp)
      · exact hnext
    refine ⟨(l.next (.registerRange 1 0 8 .read)).next
      (.unregisterRange 1 l.tracker.nextId 0 8 .read), .next (.next hrun trivial rfl) trivial rfl,
      ?_, ?_⟩
    · rw [next_of_granted_nil rfl, hnext, List.length_append, hlen]
      rfl
    · rw [hnext, hempty]
      exact List.erase_cons_head (⟨1, l.tracker.nextId, 0, 8, .read⟩ : ConsistencyRange) []

/-- **An id that is not one**: after `2^31` registrations, each given back before the
next, the answer to the last one was negative. -/
theorem id_negative_after_wrap : ¬ ∀ l, Run Step (fun _ _ => True) new l → Unambiguous l := by
  intro hall
  obtain ⟨l, hrun, hlen, -⟩ := exists_churn (2 ^ 31)
  exact not_unambiguous_of_long (counted_of_run hrun) (by omega) (hall l hrun)

end Ledger

end IoCatcher
