import IoCatcher.Safety.FullCopy

/-!
# IO Catcher — copy-on-write requests and dangling pointers

The container keeps *pointers* to its objects, and the full copy works on the
pointers directly: it deletes the old destination, sets the pointer to NULL,
asks the source for a copy, and registers what it gets. `PointerTable` follows
these steps, with NULL pointers that can be registered and that must not be
used. On a table without NULL pointer it does what the container model does
(`makeObjectFullCow_table`, `makeObjectRangeCow_table`), so what is said here is
about `HookObjectCow` (`cow_table`).

Two requests go wrong, and only they do (`cow_safe_iff`):

* a full copy of an object onto itself deletes the object it then copies;
* without storage backend, a full copy of an object that has a hole in front
  of a cached segment asks the NULL backend to copy the hole.
-/

namespace IoCatcher

open Container (Wf)

variable {μ σ : Type} {B : Backends μ σ} {c c' : Container μ σ} {src dst : ObjectId}

/-! ## Pointers -/

/-- `Container::objects` while a request is handled: the objects that are
pointed to, and the ids registered with a NULL pointer. -/
structure PointerTable (μ σ : Type) where
  live   : Container μ σ
  isNull : ObjectId → Bool

namespace PointerTable

/-- No pointer is NULL. -/
def ofContainer (c : Container μ σ) : PointerTable μ σ := ⟨c, fun _ => false⟩

/-- The id is a key of the map. -/
def registered (t : PointerTable μ σ) (id : ObjectId) : Bool := t.live.hasObject id || t.isNull id

/-- `delete it->second; it->second = NULL`. -/
def deleteObject (B : Backends μ σ) (t : PointerTable μ σ) (id : ObjectId) : PointerTable μ σ :=
  ⟨t.live.deleteObject B id, fun id' => if id' = id then true else t.isNull id'⟩

/-- `objects[id] = o`. -/
def register (t : PointerTable μ σ) (id : ObjectId) (o : Object) : PointerTable μ σ :=
  ⟨t.live.setObject id o, fun id' => if id' = id then false else t.isNull id'⟩

/-- `Container::makeObjectFullCow`, pointer by pointer. -/
def makeObjectFullCow (B : Backends μ σ) (t : PointerTable μ σ) (sourceId destId : ObjectId)
    (allowExist : Bool) : Except Fault (Bool × PointerTable μ σ) :=
  if t.registered sourceId = false then .ok (false, t)
  else if t.registered destId = true ∧ allowExist = false then .ok (false, t)
  else
    let t := if t.registered destId then t.deleteObject B destId else t
    -- `it->second->makeFullCopyOnWrite(...)`
    if t.isNull sourceId then .error .nullObject
    else
      match t.live.makeFullCopyOnWrite B sourceId destId allowExist with
      | .error f => .error f
      | .ok (cow, c) => .ok (true, { t with live := c }.register destId cow)

/-- `Container::makeObjectRangeCow`, pointer by pointer. -/
def makeObjectRangeCow (B : Backends μ σ) (t : PointerTable μ σ) (sourceId destId : ObjectId)
    (allowExist : Bool) (offset size : Nat) : Except Fault (Bool × PointerTable μ σ) :=
  if t.registered sourceId = false then .ok (false, t)
  else if t.registered destId = true ∧ allowExist = false then .ok (false, t)
  else if t.isNull sourceId || t.isNull destId then .error .nullObject
  else
    .ok (true, { t with
      live := (t.live.getObject destId).rangeCopyOnWrite B sourceId destId offset size })

/-- The operation `HookObjectCow::onMessage` asks for. -/
def cow (B : Backends μ σ) (t : PointerTable μ σ) (sourceId destId : ObjectId) (allowExist : Bool)
    (rangeOffset rangeSize : Nat) : Except Fault (Bool × PointerTable μ σ) :=
  if rangeSize = 0 then t.makeObjectFullCow B sourceId destId allowExist
  else t.makeObjectRangeCow B sourceId destId allowExist rangeOffset rangeSize

@[simp] theorem registered_ofContainer (c : Container μ σ) (id : ObjectId) :
    (ofContainer c).registered id = c.hasObject id := Bool.or_false _

@[simp] theorem isNull_ofContainer (c : Container μ σ) (id : ObjectId) :
    (ofContainer c).isNull id = false := rfl

@[simp] theorem live_ofContainer (c : Container μ σ) : (ofContainer c).live = c := rfl

/-- Registering the new object makes up for the pointer set to NULL. -/
theorem register_deleteObject (c d : Container μ σ) (id : ObjectId) (o : Object) :
    ({ (ofContainer c).deleteObject B id with live := d } : PointerTable μ σ).register id o =
      ofContainer (d.setObject id o) := by
  have hnull : (fun id' => if id' = id then false else if id' = id then true else false) =
      fun _ : ObjectId => false := by
    funext id'
    split_ifs <;> rfl
  exact congrArg (PointerTable.mk (d.setObject id o)) hnull

/-- On a table without NULL pointer the full copy is that of the container. -/
theorem makeObjectFullCow_table (hwf : Wf B 1 c) (allowExist : Bool) :
    (ofContainer c).makeObjectFullCow B src dst allowExist =
      (c.makeObjectFullCow B src dst allowExist).map fun r => (r.1, ofContainer r.2) := by
  unfold makeObjectFullCow Container.makeObjectFullCow
  simp only [registered_ofContainer]
  by_cases hsrc : c.hasObject src = false
  · rw [if_pos hsrc, if_pos hsrc]
    rfl
  · rw [if_neg hsrc, if_neg hsrc]
    by_cases hexist : c.hasObject dst = true ∧ allowExist = false
    · rw [if_pos hexist, if_pos hexist]
      rfl
    · rw [if_neg hexist, if_neg hexist]
      by_cases hdst : c.hasObject dst = true
      · -- the old destination is deleted
        simp only [if_pos hdst]
        have hnull : ((ofContainer c).deleteObject B dst).isNull src = decide (src = dst) := by
          unfold deleteObject
          by_cases heq : src = dst
          · simp [heq]
          · simp [heq]
        have hgone : ((c.deleteObject B dst).hasObject src = false) ↔ src = dst := by
          constructor
          · intro h
            by_contra hne
            rw [(Container.deleteObject_shrinks hwf).exists' hne] at h
            exact hsrc h
          · rintro rfl
            exact Container.hasObject_deleteObject c src
        by_cases heq : src = dst
        · rw [if_pos (by rw [hnull]; simpa using heq), if_pos (hgone.mpr heq)]
          rfl
        · rw [if_neg (by rw [hnull]; simpa using heq), if_neg (mt hgone.mp heq)]
          show (match (c.deleteObject B dst).makeFullCopyOnWrite B src dst allowExist with
            | .error f => _ | .ok (cow, c) => _) = _
          cases (c.deleteObject B dst).makeFullCopyOnWrite B src dst allowExist with
          | error f => rfl
          | ok r => exact congrArg (fun t => Except.ok (true, t)) (register_deleteObject ..)
      · simp only [if_neg hdst, isNull_ofContainer, live_ofContainer, if_neg hsrc]
        rw [if_neg (by decide)]
        cases c.makeFullCopyOnWrite B src dst allowExist with
        | error f => rfl
        | ok r =>
          refine congrArg (fun t => Except.ok (true, t)) ?_
          unfold register ofContainer
          congr 1
          funext id'
          split_ifs <;> rfl

/-- On a table without NULL pointer the range copy is that of the container. -/
theorem makeObjectRangeCow_table (c : Container μ σ) (src dst : ObjectId) (allowExist : Bool)
    (offset size : Nat) :
    (ofContainer c).makeObjectRangeCow B src dst allowExist offset size =
      .ok ((c.makeObjectRangeCow B src dst allowExist offset size).1,
        ofContainer (c.makeObjectRangeCow B src dst allowExist offset size).2) := by
  unfold makeObjectRangeCow Container.makeObjectRangeCow
  simp only [registered_ofContainer, isNull_ofContainer]
  split_ifs with h1 h2 h3
  · rfl
  · rfl
  · exact absurd h3 (by decide)
  · rfl

/-- What the hook does with the container of a server. -/
theorem cow_table {s : Server μ σ} (hwf : Wf B 1 s.container) (allowExist : Bool)
    (rangeOffset rangeSize : Nat) :
    s.cow B src dst allowExist rangeOffset rangeSize =
      ((ofContainer s.container).cow B src dst allowExist rangeOffset rangeSize).map fun r =>
        (.ack (if r.1 then 0 else -1), { s with container := r.2.live }) := by
  unfold Server.cow cow
  split_ifs
  · rw [makeObjectFullCow_table hwf]
    cases s.container.makeObjectFullCow B src dst allowExist with
    | error f => rfl
    | ok r => rfl
  · rw [makeObjectRangeCow_table]
    rfl

end PointerTable

/-! ## Holes -/

namespace Container

/-- Everything in front of a cached byte is cached. -/
def Gapless (c : Container μ σ) (id : ObjectId) : Prop :=
  ∀ x y, x ≤ y → c.cached id y ≠ none → c.cached id x ≠ none

/-- Without storage the loop over the segments from `cursor` on ends well when
they follow each other, and stops at the first hole otherwise. -/
theorem fullCowLoop_null (hB : B.storageBackend = none) (src dst : ObjectId) (c : Container μ σ)
    {es : List (Nat × ObjectSegment)} : ∀ (cursor : Nat) (cow : ObjectSegmentMap),
      (es.Pairwise fun a b => a.2.stop ≤ b.2.offset) → (∀ e ∈ es, cursor ≤ e.2.offset) →
      (∀ e ∈ es, e.2.stop < 2 ^ 64) →
      ((∃ r, fullCowLoop B src dst es cursor cow c = .ok r) ∧
        ∀ e ∈ es, ∀ x, cursor ≤ x → x < e.2.offset → ∃ e' ∈ es, e'.2.Holds x) ∨
      (fullCowLoop B src dst es cursor cow c = .error .nullStorage ∧
        ∃ e ∈ es, ∃ x, x < e.2.offset ∧ cursor ≤ x ∧ ∀ e' ∈ es, ¬ e'.2.Holds x) := by
  induction es with
  | nil => exact fun _ _ _ _ _ => Or.inl ⟨⟨_, rfl⟩, fun e he => absurd he List.not_mem_nil⟩
  | cons e rest ih =>
    intro cursor cow hsorted hcur hb
    obtain ⟨hnext, hrest⟩ := List.pairwise_cons.mp hsorted
    have hle := hcur e (List.mem_cons_self ..)
    have hstop : e.2.stop = e.2.offset + e.2.getSize := rfl
    have hlt := hb e (List.mem_cons_self ..)
    by_cases hgap : cursor < e.2.offset
    · -- the hole before this segment
      refine Or.inr ⟨?_, e, List.mem_cons_self .., cursor, hgap, le_rfl, fun e' he' hx => ?_⟩
      · rw [fullCowLoop, if_pos hgap, makeCowSegment, hB]
      · rcases List.mem_cons.mp he' with rfl | he'
        · exact absurd hx.1 (Nat.not_le_of_lt hgap)
        · have h1 := hnext e' he'
          have h2 := hx.1
          omega
    · -- the segment starts at the cursor; its write back does nothing
      have hflush : c.flushCow B dst e.2 = .ok c := by
        unfold flushCow pwrite
        rw [hB]
        dsimp only
        rw [if_neg (not_not.mpr (SizeT.ofInt_natCast (by omega)))]
        split_ifs <;> rfl
      have hstep : fullCowLoop B src dst (e :: rest) cursor cow c =
          fullCowLoop B src dst rest e.2.stop (cow.insert e.1 e.2) c := by
        rw [fullCowLoop, if_neg hgap]
        dsimp only
        rw [hflush]
        dsimp only
        rw [SizeT.add_eq (by omega)]
        rfl
      rw [hstep]
      rcases ih e.2.stop (cow.insert e.1 e.2) hrest hnext
          (fun e' he' => hb e' (List.mem_cons_of_mem _ he')) with
        ⟨hok, hall⟩ | ⟨herr, e', he', x, hx, hle', hno⟩
      · refine Or.inl ⟨hok, fun e' he' x hx hlt' => ?_⟩
        by_cases hin : x < e.2.stop
        · exact ⟨e, List.mem_cons_self .., by omega, hin⟩
        · rcases List.mem_cons.mp he' with rfl | he'
          · omega
          · obtain ⟨e'', he'', hx''⟩ := hall e' he' x (Nat.le_of_not_lt hin) hlt'
            exact ⟨e'', List.mem_cons_of_mem _ he'', hx''⟩
      · refine Or.inr ⟨herr, e', List.mem_cons_of_mem _ he', x, hx, by omega,
          fun e'' he'' hx'' => ?_⟩
        rcases List.mem_cons.mp he'' with rfl | he''
        · exact absurd hx''.2 (Nat.not_lt_of_le hle')
        · exact hno e'' he'' hx''

/-- Without storage a copy is made of a gapless object, and of no other. -/
theorem makeFullCopyOnWrite_null (hB : B.storageBackend = none) (hlay : LayoutOk (c.segments src))
    (dst : ObjectId) (allowExist : Bool) :
    (c.Gapless src ∧ ∃ r, c.makeFullCopyOnWrite B src dst allowExist = .ok r) ∨
      (¬ c.Gapless src ∧
        c.makeFullCopyOnWrite B src dst allowExist = .error .nullStorage) := by
  have hcreate : c.create B dst = (0, c) := by
    unfold create
    rw [hB]
  unfold makeFullCopyOnWrite
  rw [hcreate]
  dsimp only
  rw [if_pos (Or.inl rfl)]
  rcases fullCowLoop_null hB src dst c 0 OrderedMap.empty hlay.pairwise
      (fun _ _ => Nat.zero_le _) (fun e he => hlay.bound (k := e.1) he) with
    ⟨⟨r, hr⟩, hall⟩ | ⟨herr, e, he, x, hx, -, hno⟩
  · refine Or.inl ⟨fun x y hxy hy hx => ?_, _, by rw [hr]⟩
    obtain ⟨v, hv⟩ := Option.ne_none_iff_exists'.mp hy
    obtain ⟨k, t, ht, hty, -⟩ := (cached_eq_some hlay).mp hv
    have hno := cached_eq_none.mp hx
    by_cases hlt : x < t.offset
    · obtain ⟨e', he', hx'⟩ := hall (k, t) ht x (Nat.zero_le x) hlt
      exact hno e'.1 e'.2 he' hx'
    · exact hno k t ht ⟨Nat.le_of_not_lt hlt, Nat.lt_of_le_of_lt hxy hty.2⟩
  · refine Or.inr ⟨fun hgap => ?_, by rw [herr]⟩
    have hpos := hlay.pos (k := e.1) (s := e.2) he
    have hcached : c.cached src e.2.offset ≠ none := by
      rw [cached_of_segment hlay (k := e.1) he ⟨le_rfl, Nat.lt_add_of_pos_right hpos⟩]
      exact Option.some_ne_none _
    exact hgap x e.2.offset hx.le hcached (cached_eq_none.mpr fun k t ht => hno (k, t) ht)

/-- With a storage a full copy stops on a failed transfer only. -/
theorem fullCowLoop_fault {sb : StorageBackend σ} (hB : B.storageBackend = some sb)
    {es : List (Nat × ObjectSegment)} {f : Fault} :
    ∀ {cursor : Nat} {cow : ObjectSegmentMap} {c : Container μ σ},
      fullCowLoop B src dst es cursor cow c = .error f → ∃ message, f = .assume message := by
  induction es with
  | nil => exact fun h => absurd h (by simp [fullCowLoop])
  | cons e rest ih =>
    intro cursor cow c h
    rw [fullCowLoop] at h
    split at h
    · rename_i f' hgap
      obtain rfl := Except.error.inj h
      split_ifs at hgap
      unfold makeCowSegment at hgap
      rw [hB] at hgap
      dsimp only at hgap
      split_ifs at hgap <;> exact ⟨_, (Except.error.inj hgap).symm⟩
    · split at h
      · rename_i f' hflush
        obtain rfl := Except.error.inj h
        unfold flushCow at hflush
        split_ifs at hflush
        dsimp only at hflush
        split_ifs at hflush
        exact ⟨_, (Except.error.inj hflush).symm⟩
      · exact ih h

theorem makeFullCopyOnWrite_fault {sb : StorageBackend σ} (hB : B.storageBackend = some sb)
    {allowExist : Bool} {f : Fault} (h : c.makeFullCopyOnWrite B src dst allowExist = .error f) :
    ∃ message, f = .assume message := by
  unfold makeFullCopyOnWrite at h
  dsimp only at h
  split_ifs at h
  · split at h
    · rename_i f' hloop
      obtain rfl := Except.error.inj h
      exact fullCowLoop_fault hB hloop
    · exact absurd h (by simp)
  · exact ⟨_, (Except.error.inj h).symm⟩

end Container

/-! ## Requests that are safe -/

open PointerTable (ofContainer)

/-- The handling of a copy-on-write request uses no object that was deleted and
no NULL backend, leaves no NULL object registered, and changes nothing when it
answers a failure. -/
structure CowSafe (B : Backends μ σ) (c : Container μ σ) (src dst : ObjectId) (allowExist : Bool)
    (rangeOffset rangeSize : Nat) : Prop where
  noDeleted : (ofContainer c).cow B src dst allowExist rangeOffset rangeSize ≠ .error .nullObject
  noNullBackend :
    (ofContainer c).cow B src dst allowExist rangeOffset rangeSize ≠ .error .nullStorage
  noNullObject : ∀ {status t},
    (ofContainer c).cow B src dst allowExist rangeOffset rangeSize = .ok (status, t) →
      ∀ id, t.isNull id = false
  unchanged : ∀ {t},
    (ofContainer c).cow B src dst allowExist rangeOffset rangeSize = .ok (false, t) →
      ∀ id, t.registered id = c.hasObject id ∧ ∀ x, t.live.content B id x = c.content B id x

/-- A full copy that is carried out is safe unless the source is deleted with
the destination, or has a hole that only a storage could fill. -/
theorem fullCow_fault_iff (hwf : Wf B 1 c) {allowExist : Bool} :
    (c.makeObjectFullCow B src dst allowExist = .error .nullObject ∨
      c.makeObjectFullCow B src dst allowExist = .error .nullStorage) ↔
    (c.hasObject src = true ∧ (c.hasObject dst = true → allowExist = true) ∧
      (src = dst ∨ B.storageBackend = none ∧ ¬ c.Gapless src)) := by
  unfold Container.makeObjectFullCow
  by_cases hsrc : c.hasObject src = false
  · simp [hsrc]
  · have hsrc' : c.hasObject src = true := by simpa using hsrc
    rw [if_neg hsrc]
    by_cases hexist : c.hasObject dst = true ∧ allowExist = false
    · simp [hexist]
    · have hallow : c.hasObject dst = true → allowExist = true := by simpa using hexist
      rw [if_neg hexist]
      obtain ⟨d, hd⟩ : ∃ d, d = if c.hasObject dst = true then c.deleteObject B dst else c :=
        ⟨_, rfl⟩
      dsimp only
      rw [← hd]
      by_cases heq : src = dst
      · -- the source goes with the destination
        subst heq
        rw [if_pos hsrc'] at hd
        rw [if_pos (hd ▸ Container.hasObject_deleteObject c src)]
        exact ⟨fun _ => ⟨hsrc', hallow, Or.inl rfl⟩, fun _ => Or.inl rfl⟩
      · have hshrink : d.hasObject src = true ∧ d.segments src = c.segments src ∧
            d.memory.bytes = c.memory.bytes := by
          rw [hd]
          split_ifs
          · have hs : Container.Shrinks B 1 c (c.deleteObject B dst) dst :=
              Container.deleteObject_shrinks hwf
            exact ⟨(hs.exists' heq).trans hsrc', by rw [Container.segments, hs.others heq]; rfl,
              hs.bytes⟩
          · exact ⟨hsrc', rfl, rfl⟩
        have hgap : d.Gapless src ↔ c.Gapless src := by
          unfold Container.Gapless Container.cached
          rw [hshrink.2.1, hshrink.2.2]
        rw [if_neg (by rw [hshrink.1]; decide)]
        cases hB : B.storageBackend with
        | none =>
          have hlay : LayoutOk (d.segments src) := hshrink.2.1 ▸ hwf.layout src
          rcases Container.makeFullCopyOnWrite_null hB hlay dst allowExist with
            ⟨hg, r, hr⟩ | ⟨hg, hr⟩
          · rw [hr]
            simp [heq, hgap.mp hg]
          · rw [hr]
            exact ⟨fun _ => ⟨hsrc', hallow, Or.inr ⟨rfl, mt hgap.mpr hg⟩⟩, fun _ => Or.inr rfl⟩
        | some sb =>
          cases hr : d.makeFullCopyOnWrite B src dst allowExist with
          | error f =>
            obtain ⟨message, rfl⟩ := Container.makeFullCopyOnWrite_fault hB hr
            simp [heq]
          | ok r => simp [heq]

/-- A request that answers at all leaves no NULL pointer, and one that answers
a failure has done nothing. -/
theorem cow_answer (hwf : Wf B 1 c) {allowExist status : Bool} {rangeOffset rangeSize : Nat}
    {t : PointerTable μ σ}
    (h : (ofContainer c).cow B src dst allowExist rangeOffset rangeSize = .ok (status, t)) :
    ∃ d, t = ofContainer d ∧ (status = false → d = c) := by
  unfold PointerTable.cow at h
  split_ifs at h
  · rw [PointerTable.makeObjectFullCow_table hwf] at h
    cases hr : c.makeObjectFullCow B src dst allowExist with
    | error f =>
      rw [hr] at h
      exact absurd h (by simp [Except.map])
    | ok r =>
      rw [hr] at h
      obtain ⟨hstatus, rfl⟩ := Prod.mk.inj (Except.ok.inj h)
      refine ⟨r.2, rfl, fun hfalse => ?_⟩
      have hok : c.makeObjectFullCow B src dst allowExist = .ok (false, r.2) := by
        rw [hr, ← hfalse, ← hstatus]
      exact Container.makeObjectFullCow_false hok
  · rw [PointerTable.makeObjectRangeCow_table] at h
    obtain ⟨hstatus, rfl⟩ := Prod.mk.inj (Except.ok.inj h)
    refine ⟨_, rfl, fun hfalse => ?_⟩
    rw [hfalse] at hstatus
    unfold Container.makeObjectRangeCow at hstatus ⊢
    split_ifs at hstatus ⊢ <;> rfl

namespace Server

variable {s s₀ : Server μ σ}

/-- **Which copy-on-write requests are safe**, in every reachable state. -/
theorem cow_safe_iff {A : Nat} {check allowExist : Bool} {rangeOffset rangeSize : Nat}
    (hinit : Initial B A check s₀) (hrun : Run (Step B) (fun _ _ => True) s₀ s) :
    CowSafe B s.container src dst allowExist rangeOffset rangeSize ↔
      ¬ (rangeSize = 0 ∧ s.container.hasObject src = true ∧
        (s.container.hasObject dst = true → allowExist = true) ∧
        (src = dst ∨ B.storageBackend = none ∧ ¬ s.container.Gapless src)) := by
  have hwf := wf_run hinit hrun
  constructor
  · rintro hsafe ⟨hsize, hbad⟩
    have htable : (ofContainer s.container).cow B src dst allowExist rangeOffset rangeSize =
        (s.container.makeObjectFullCow B src dst allowExist).map
          fun r => (r.1, ofContainer r.2) := by
      rw [PointerTable.cow, if_pos hsize, PointerTable.makeObjectFullCow_table hwf]
    rcases (fullCow_fault_iff hwf).mpr hbad with hf | hf
    · exact hsafe.noDeleted (by rw [htable, hf]; rfl)
    · exact hsafe.noNullBackend (by rw [htable, hf]; rfl)
  · intro hgood
    have hfault : ∀ f, f = .nullObject ∨ f = .nullStorage →
        (ofContainer s.container).cow B src dst allowExist rangeOffset rangeSize ≠ .error f := by
      intro f hf herr
      unfold PointerTable.cow at herr
      split_ifs at herr with hsize
      · rw [PointerTable.makeObjectFullCow_table hwf] at herr
        cases hr : s.container.makeObjectFullCow B src dst allowExist with
        | error f' =>
          rw [hr] at herr
          obtain rfl := Except.error.inj herr
          refine hgood ⟨hsize, (fullCow_fault_iff hwf).mp ?_⟩
          rcases hf with rfl | rfl
          · exact Or.inl hr
          · exact Or.inr hr
        | ok r =>
          rw [hr] at herr
          exact absurd herr (by simp [Except.map])
      · rw [PointerTable.makeObjectRangeCow_table] at herr
        exact absurd herr (by simp)
    refine ⟨hfault _ (Or.inl rfl), hfault _ (Or.inr rfl), fun h id => ?_, fun h id => ?_⟩
    · obtain ⟨d, rfl, -⟩ := cow_answer hwf h
      rfl
    · obtain ⟨d, rfl, hd⟩ := cow_answer hwf h
      rw [hd rfl]
      exact ⟨PointerTable.registered_ofContainer .., fun _ => rfl⟩

/-- Copying an opened object to a new one is safe. -/
theorem cow_safe_opened : CowSafe localBackends (openedServer fun _ _ => 0).container ⟨1, 1⟩ ⟨1, 2⟩
    false 0 0 := by
  refine (cow_safe_iff (initial_stored _) (run_openedServer _)).mpr ?_
  rintro ⟨-, -, -, heq | ⟨hB, -⟩⟩
  · exact absurd heq (by decide)
  · exact absurd hB (by simp [localBackends])

/-- **Copying an object onto itself** calls a method of the object that was
just deleted. -/
theorem cow_onto_itself :
    ¬ ∀ (s₀ s : Server Malloc (ObjectId → Bytes)) (src dst : ObjectId) (allowExist : Bool)
      (rangeOffset rangeSize : Nat), Initial localBackends 0 false s₀ →
      Run (Step localBackends) (fun _ _ => True) s₀ s →
      CowSafe localBackends s.container src dst allowExist rangeOffset rangeSize := by
  intro hall
  have hsafe := hall _ _ ⟨1, 1⟩ ⟨1, 1⟩ true 0 0 (initial_stored fun _ _ => 0)
    (run_openedServer fun _ _ => 0)
  exact hsafe.noDeleted rfl

-- Without storage, an object cached from byte 8 on cannot be copied.
example : ((Server.new (Container.new 8 (Memory.fresh 0) ()) false).after ⟨Malloc.backend, none⟩
    [.eagerWrite ⟨⟨1, 1⟩, 8, 8, fun _ => 7⟩]).container.makeObjectFullCow ⟨Malloc.backend, none⟩
    ⟨1, 1⟩ ⟨1, 2⟩ false = .error .nullStorage := rfl

end Server

end IoCatcher
