import IoCatcher.Model.Flight
import IoCatcher.Model.Gaps
import IoCatcher.Safety.ExactTiling
import IoCatcher.Safety.Isolation

/-!
# IO Catcher — what an eager write changes

An eager write gets the buffers of its range, loads the gaps it covers only in
part, copies its bytes segment by segment and marks the segments dirty. When every
such load is complete, the write changes exactly the requested bytes and sets
exactly the flags of the segments it meets, if and only if the buffers cover the
request (`eagerWrite_exact_iff`). They do when the request is rounded out to the
alignment without wrapping (`writeFits_of_aligned`); near the end of the 64-bit
offsets the rounded range wraps, and the write is acknowledged without being stored
(`eagerWrite_lost_at_end`).
-/

namespace IoCatcher

open Container

variable {μ σ : Type} {B : Backends μ σ} {c c₁ : Container μ σ} {id : ObjectId}
  {b e offset size : Nat} {run : List (Nat × ObjectSegment)}

-- ---------------------------------------------------------------------------
-- Statement
-- ---------------------------------------------------------------------------

/-- Every `pread` that loads a gap which the write covers only in part returns in
full: what is left unfilled lies inside the write. -/
def PreloadsInFull (B : Backends μ σ) (c : Container μ σ) (w : WriteRequest) : Prop :=
  ∀ gap ∈ c.unfilledByWrite B w.object w.offset w.size,
    w.offset ≤ gap.1 ∧ gap.1 + gap.2 ≤ w.offset + w.size

/-- From `s` to `s'` the object of the write changed by exactly the write. -/
structure WrittenExactly (B : Backends μ σ) (s s' : Server μ σ) (w : WriteRequest) : Prop where
  content : ∀ x, s'.container.content B w.object x =
    if w.offset ≤ x ∧ x < w.offset + w.size then w.data (x - w.offset)
    else s.container.content B w.object x
  /-- Every segment that meets the range is dirty. -/
  dirty   : ∀ k t, s'.container.HasSegment w.object k t → t.offset < w.offset + w.size →
    w.offset < t.stop → t.dirty = true
  /-- No other flag changed, of this object or of another one. -/
  others  : ∀ id k t t', s.container.HasSegment id k t → s'.container.HasSegment id k t' →
    (id = w.object → t.stop ≤ w.offset ∨ w.offset + w.size ≤ t.offset) → t'.dirty = t.dirty

/-- No buffer of the range `[b, e)` ends before the request: the assertions of the
copy hold. -/
structure Reached (c : Container μ σ) (id : ObjectId) (b e offset : Nat) : Prop where
  ends   : ∀ k t, c.HasSegment id k t → t.offset < e → b < t.stop → offset < t.stop
  starts : ∀ k t, c.HasSegment id k t → t.offset < e → b < t.offset → offset < t.offset
  first  : b < e → e ≤ offset → ∃ k t, c.HasSegment id k t ∧ t.offset ≤ b ∧ b < t.stop

/-- The position is in a buffer of a range that ends at `e`. -/
def Backed (c : Container μ σ) (id : ObjectId) (e x : Nat) : Prop :=
  x < e ∨ ∃ k t, c.HasSegment id k t ∧ t.offset < e ∧ t.Holds x

/-- The buffers that the request gets cover it; where they do not, its bytes are
already there. -/
structure WriteFits (B : Backends μ σ) (c : Container μ σ) (w : WriteRequest) (b e : Nat) :
    Prop where
  reached : Reached c w.object b e w.offset
  backed  : ∀ x, w.offset ≤ x → x < w.offset + w.size →
    Backed c w.object e x ∨ c.content B w.object x = w.data (x - w.offset)

-- ---------------------------------------------------------------------------
-- The buffers
-- ---------------------------------------------------------------------------

/-- A segment of the run that the object had before kept its range. -/
theorem Container.Wove.kept (h : Wove B c c₁ id b e run) {w : Nat × ObjectSegment} (hw : w ∈ run)
    {t : ObjectSegment} (ht : c.HasSegment id w.1 t) :
    w.2.offset = t.offset ∧ w.2.stop = t.stop := by
  obtain ⟨A, Loaded, hgrow⟩ := h.grows
  obtain ⟨t', ht', hsame⟩ := hgrow.kept ht
  obtain rfl := hasSegment_unique ht' (h.covers.held w hw)
  unfold ObjectSegment.stop
  rw [hsame.offset, hsame.size]
  exact ⟨rfl, rfl⟩

theorem reached_of_run (h : Wove B c c₁ id b e run) (hreach : ∀ w ∈ run, offset < w.2.stop) :
    Reached c id b e offset := by
  obtain ⟨start, last, hstart, hlast, htiles⟩ := h.covers.tiles
  refine ⟨fun k t ht hlt hb => ?_, fun k t ht hlt hb => ?_, fun hbe hle => ?_⟩
  · obtain ⟨w, hw, rfl⟩ := h.weaves.old ht hlt hb
    rw [← (h.kept hw ht).2]
    exact hreach w hw
  · -- the buffer in front of the segment ends where it starts
    obtain ⟨w, hw, hwx⟩ := htiles.exists_mem (x := t.offset - 1) (by omega) (by omega)
    obtain ⟨A, Loaded, hgrow⟩ := h.grows
    obtain ⟨t', ht', hsame⟩ := hgrow.kept ht
    have hstop : w.2.stop = w.2.offset + w.2.getSize := rfl
    have hstop' : t'.stop = t'.offset + t'.getSize := rfl
    have hpos := hgrow.layout.pos ht'
    have hoff := hsame.offset
    have hw' := hreach w hw
    by_contra hno
    obtain ⟨-, heq⟩ := hgrow.layout.eq_of_shared (h.covers.held w hw) ht' (x := t.offset)
      (by omega) (by omega) (by omega) (by omega)
    rw [heq] at hwx
    omega
  · obtain ⟨w, hw, hwx⟩ := htiles.exists_mem (x := b) hstart (by omega)
    have hstop : w.2.stop = w.2.offset + w.2.getSize := rfl
    have hw' := hreach w hw
    rcases h.weaves.new w hw with ⟨t, ht⟩ | ⟨-, hend, -⟩
    · obtain ⟨h1, h2⟩ := h.kept hw ht
      exact ⟨w.1, t, ht, by omega, by omega⟩
    · omega

theorem run_of_reached (h : Wove B c c₁ id b e run) (hr : Reached c id b e offset) :
    ∀ w ∈ run, offset < w.2.stop := by
  intro w hw
  have hmeets := h.covers.meets w hw
  by_cases hold : ∃ t, c.HasSegment id w.1 t
  · obtain ⟨t, ht⟩ := hold
    obtain ⟨h1, h2⟩ := h.kept hw ht
    rw [h2]
    exact hr.ends _ t ht (by omega) (by omega)
  · have hgap := h.maximalGap hw fun t ht => hold ⟨t, ht⟩
    have hlt := hgap.lt
    have hin := hgap.inside
    by_contra hno
    rcases hgap.right with hend | hcached
    · -- the gap ends with the range, before the request
      obtain ⟨k, t, ht, ht1, ht2⟩ := hr.first (by omega) (by omega)
      have hts := hr.ends k t ht (by omega) ht2
      have hfree := hgap.free w.2.offset (by omega) (by omega)
      rw [cached_eq_none] at hfree
      exact hfree k t ht ⟨by omega, by omega⟩
    · -- it ends at a segment, which starts before the request
      obtain ⟨v, hv⟩ := Option.ne_none_iff_exists'.mp hcached
      obtain ⟨k, t, ht, htx, -⟩ := (cached_eq_some h.layout).mp hv
      have hfree := hgap.free (w.2.stop - 1) (by omega) (by omega)
      rw [cached_eq_none] at hfree
      have hnot := hfree k t ht
      have h1 := htx.1
      have h2 := htx.2
      have hoff : t.offset = w.2.stop := by
        by_contra hne
        exact hnot ⟨by omega, by omega⟩
      by_cases hte : t.offset < e
      · have := hr.starts k t ht hte (by omega)
        omega
      · obtain ⟨k', t', ht', ht1, ht2⟩ := hr.first (by omega) (by omega)
        have hts := hr.ends k' t' ht' (by omega) ht2
        have hfree' := hgap.free w.2.offset (by omega) (by omega)
        rw [cached_eq_none] at hfree'
        exact hfree' k' t' ht' ⟨by omega, by omega⟩

/-- The positions of the request that the buffers hold. -/
theorem backed_iff (h : Wove B c c₁ id b e run) {x : Nat} (hb : b ≤ x) :
    (∃ w ∈ run, w.2.Holds x) ↔ Backed c id e x := by
  obtain ⟨start, last, hstart, hlast, htiles⟩ := h.covers.tiles
  constructor
  · rintro ⟨w, hw, hx1, hx2⟩
    have hmeets := h.covers.meets w hw
    rcases h.weaves.new w hw with ⟨t, ht⟩ | ⟨-, hend, -⟩
    · obtain ⟨h1, h2⟩ := h.kept hw ht
      exact Or.inr ⟨w.1, t, ht, by omega, by omega, by omega⟩
    · exact Or.inl (by omega)
  · rintro (hlt | ⟨k, t, ht, hte, hx1, hx2⟩)
    · obtain ⟨w, hw, hx1, hx2⟩ := htiles.exists_mem (x := x) (by omega) (by omega)
      exact ⟨w, hw, hx1, hx2⟩
    · obtain ⟨w, hw, rfl⟩ := h.weaves.old ht hte (by omega)
      obtain ⟨h1, h2⟩ := h.kept hw ht
      exact ⟨w, hw, by omega, by omega⟩

-- ---------------------------------------------------------------------------
-- The bytes
-- ---------------------------------------------------------------------------

section Bytes

variable {s : Server μ σ} {w : WriteRequest}

/-- Where the write stores nothing, getting the buffers changed no byte. -/
theorem content_getBuffers (hwf : Wf B 1 s.container)
    (hload : PreloadsInFull B (s.container.getObject w.object) w)
    (hc₁ : c₁ = ((s.container.getObject w.object).getBuffers B w.object w.offset w.size .write
      true true).2)
    (hwove : Wove B s.container c₁ w.object
      (alignRange (s.container.object w.object).alignement w.offset w.size).1
      (SizeT.add (alignRange (s.container.object w.object).alignement w.offset w.size).1
        (alignRange (s.container.object w.object).alignement w.offset w.size).2) run) {x : Nat}
    (hx : ¬ (w.offset ≤ x ∧ x < w.offset + w.size ∧ ∃ v ∈ run, v.2.Holds x)) :
    c₁.content B w.object x = s.container.content B w.object x := by
  have hwf' := hwf.getObject w.object
  have hobj := object_getObject s.container w.object w.object
  obtain ⟨A, Loaded, hgrow⟩ := hwove.grows
  obtain ⟨-, hinside, -, -⟩ := getBuffers_spec (A := 1) hwf'.memoryOk (hwf'.layout w.object)
    (b := (alignRange (s.container.object w.object).alignement w.offset w.size).1)
    (e := SizeT.add (alignRange (s.container.object w.object).alignement w.offset w.size).1
      (alignRange (s.container.object w.object).alignement w.offset w.size).2)
    (by rw [hobj]) (by rw [hobj]) ⟨Nat.one_dvd _, Nat.one_dvd _⟩ rfl
  rw [← hc₁] at hinside
  unfold Container.content
  rw [hgrow.disk]
  cases hold : s.container.cached w.object x with
  | some v => rw [hgrow.cached hwove.layout hold]
  | none =>
    cases hnew : c₁.cached w.object x with
    | none => rfl
    | some v =>
      -- a new segment shows it: a gap that was read, or one inside the write
      rw [Option.getD_some, Option.getD_none]
      refine cached_of_filled (c := s.container.getObject w.object) hwf'.memoryOk
        (hwf'.layout w.object) (hc₁ ▸ hgrow.layout) (hc₁ ▸ hnew) ?_ fun gap hgap hin => hx ?_
      · rw [cached_getObject]
        exact hold
      · obtain ⟨h1, h2⟩ := hload gap hgap
        refine ⟨by omega, by omega, ?_⟩
        obtain ⟨k, t, ht, htx, -⟩ := (cached_eq_some hgrow.layout).mp hnew
        have htx1 := htx.1
        have htx2 := htx.2
        rcases hinside k t ht with ⟨t', ht'⟩ | ⟨hb, he⟩
        · have ht'' : s.container.HasSegment w.object k t' := by
            unfold HasSegment at ht' ⊢
            rwa [segments_getObject] at ht'
          exact absurd ht'' (hgrow.new_of_cached ht htx hold t')
        · exact ⟨(k, t), hwove.covers.mem_of_meets hgrow.layout ht (by omega) (by omega) (by omega),
            htx⟩

/-- The bytes after the copy. -/
theorem content_stored {m : Memory μ} {data : Bytes}
    (hlay : LayoutOk (c₁.segments id)) (hown : Owned c₁ id run)
    (hst : Stored c₁.memory m data offset size run) (x : Nat) :
    (({ c₁ with memory := m } : Container μ σ).markDirty id offset size).content B id x =
      if offset ≤ x ∧ x < offset + size ∧ ∃ v ∈ run, v.2.Holds x then data (x - offset)
      else c₁.content B id x := by
  unfold Container.content
  rw [cached_markDirty, disk_markDirty]
  by_cases hx : offset ≤ x ∧ x < offset + size ∧ ∃ v ∈ run, v.2.Holds x
  · obtain ⟨h1, h2, v, hv, hvx⟩ := hx
    rw [if_pos ⟨h1, h2, v, hv, hvx⟩, hown.cached_inside hst hlay ⟨h1, h2⟩ hv hvx, Option.getD_some]
  · rw [if_neg hx, hown.cached_outside hst fun h => hx h.2]
    rfl

end Bytes

-- ---------------------------------------------------------------------------
-- The flags
-- ---------------------------------------------------------------------------

/-- The flags after a write, given those of the segments it got. -/
theorem dirty_markDirty (hlay : LayoutOk (c.segments id)) (hnw : offset + size < 2 ^ 64)
    {id' : ObjectId} {k : Nat} {t t' : ObjectSegment} (ht : c.HasSegment id' k t)
    (ht' : (c.markDirty id offset size).HasSegment id' k t')
    (hno : id' = id → t.stop ≤ offset ∨ offset + size ≤ t.offset) : t'.dirty = t.dirty := by
  unfold markDirty at ht'
  rw [hasSegment_mapSegments] at ht'
  split_ifs at ht' with hid
  · obtain ⟨u, hu, rfl⟩ := ht'
    subst hid
    obtain rfl := hasSegment_unique hu ht
    split_ifs with hov
    · rw [hlay.overlap_iff hu, SizeT.add_eq hnw] at hov
      have := hno rfl
      omega
    · rfl
  · rw [hasSegment_unique ht' ht]

/-- A write sets the flags of the segments it meets and no other. -/
theorem flags_of_write {s : Server μ σ} {w : WriteRequest} {m : Memory μ} {g : Nat}
    {Loaded : Nat → Nat → Prop} (hgrow : Grows B g Loaded s.container c₁ w.object)
    (hnw : w.offset + w.size < 2 ^ 64) :
    (∀ k t, (({ c₁ with memory := m } : Container μ σ).markDirty w.object w.offset
        w.size).HasSegment w.object k t → t.offset < w.offset + w.size → w.offset < t.stop →
      t.dirty = true) ∧
    ∀ id k t t', s.container.HasSegment id k t →
      (({ c₁ with memory := m } : Container μ σ).markDirty w.object w.offset
        w.size).HasSegment id k t' →
      (id = w.object → t.stop ≤ w.offset ∨ w.offset + w.size ≤ t.offset) → t'.dirty = t.dirty := by
  refine ⟨fun k t ht hlt hgt => ?_, fun id k t t' ht ht' hno => ?_⟩
  · by_contra hclean
    obtain ⟨-, hout⟩ := clean_of_markDirty (c := { c₁ with memory := m }) hgrow.layout hnw ht
      (Bool.eq_false_iff.mpr hclean)
    have := hout rfl
    omega
  · by_cases hid : id = w.object
    · subst hid
      obtain ⟨t₁, ht₁, hsame⟩ := hgrow.kept ht
      rw [← hsame.dirty]
      refine dirty_markDirty (c := { c₁ with memory := m }) hgrow.layout hnw ht₁ ht' fun _ => ?_
      have hstop : t₁.stop = t.stop := by
        unfold ObjectSegment.stop
        rw [hsame.offset, hsame.size]
      rw [hstop, hsame.offset]
      exact hno rfl
    · have ht₁ : c₁.HasSegment id k t := by
        unfold HasSegment
        rw [hgrow.others hid]
        exact ht
      exact dirty_markDirty (c := { c₁ with memory := m }) hgrow.layout hnw ht₁ ht' fun heq =>
        absurd heq hid

/-- A request starts less than one block behind its rounded range. -/
theorem lt_alignRange_add_grain (A base size : Nat) :
    base < (alignRange A base size).1 + grain A := by
  unfold alignRange grain
  by_cases hA : A = 0
  · rw [if_neg (by omega), if_pos hA]
    exact Nat.lt_succ_self _
  · have hmod := Nat.mod_lt base (Nat.pos_of_ne_zero hA)
    have hle := Nat.mod_le base A
    rw [if_pos (Nat.pos_of_ne_zero hA), if_neg hA]
    dsimp only
    omega

namespace Server

variable {s s₀ : Server μ σ}

/-- **When an eager write changes exactly the requested bytes.** In every reachable
state, if its loads are complete: if and only if the buffers of its rounded range
cover it. -/
theorem eagerWrite_exact_iff {A : Nat} {check : Bool} {w : WriteRequest}
    (hinit : Initial B A check s₀) (hrun : Run (Step B) (fun _ _ => True) s₀ s)
    (hnw : w.offset + w.size < 2 ^ 64)
    (hload : PreloadsInFull B (s.container.getObject w.object) w) :
    (∃ s', s.eagerWrite B w = .ok (.ack 0, s') ∧ WrittenExactly B s s' w) ↔
      WriteFits B s.container w
        (alignRange (s.container.object w.object).alignement w.offset w.size).1
        (SizeT.add (alignRange (s.container.object w.object).alignement w.offset w.size).1
          (alignRange (s.container.object w.object).alignement w.offset w.size).2) := by
  have hwf := wf_run hinit hrun
  have hb := alignRange_fst_le (s.container.object w.object).alignement w.offset w.size
  obtain ⟨c₁, hc₁⟩ : ∃ c₁, c₁ = ((s.container.getObject w.object).getBuffers B w.object w.offset
    w.size .write true true).2 := ⟨_, rfl⟩
  obtain ⟨hgrow, run, hcov, hweave, hex, heq⟩ := eagerWrite_eq hwf (rangeOk_one ..) hc₁
  have hwove := Wove.mk (hwf.layout _) ⟨_, _, hgrow⟩ hcov hweave
  have hst : (∀ v ∈ run, w.offset < v.2.stop) → Stored c₁.memory
      (storeRun B.memoryBackend w.data w.offset w.size run c₁.memory) w.data w.offset w.size run :=
    fun hreach => stored_storeRun (hcov.distinct hex) fun v hv =>
      ⟨(hreach v hv).le, hgrow.memoryOk.chunk (hcov.held v hv)⟩
  -- the content after the copy, if it is made, and that before it
  have hafter := fun hreach => content_stored (B := B) hgrow.layout (.of_held hcov.held hex)
    (hst hreach)
  have hbefore := fun x => content_getBuffers (x := x) hwf hload hc₁ hwove
  rw [heq]
  constructor
  · rintro ⟨s', hok, hexact⟩
    split_ifs at hok with hreach
    obtain ⟨-, rfl⟩ := Prod.mk.inj (Except.ok.inj hok)
    refine ⟨reached_of_run hwove hreach, fun x hx1 hx2 => ?_⟩
    by_cases hin : ∃ v ∈ run, v.2.Holds x
    · exact Or.inl ((backed_iff hwove (by omega)).mp hin)
    · refine Or.inr ?_
      have hno : ¬ (w.offset ≤ x ∧ x < w.offset + w.size ∧ ∃ v ∈ run, v.2.Holds x) := fun h =>
        hin h.2.2
      have hcontent := hexact.content x
      rw [if_pos ⟨hx1, hx2⟩] at hcontent
      rw [← hbefore x hno, ← hcontent]
      exact ((hafter hreach x).trans (if_neg hno)).symm
  · rintro ⟨hreached, hback⟩
    have hreach := run_of_reached hwove hreached
    rw [if_pos hreach]
    obtain ⟨hdirty, hothers⟩ := flags_of_write hgrow hnw
    refine ⟨_, rfl, fun x => (hafter hreach x).trans ?_, hdirty, hothers⟩
    by_cases hx : w.offset ≤ x ∧ x < w.offset + w.size
    · rw [if_pos hx]
      by_cases hin : ∃ v ∈ run, v.2.Holds x
      · rw [if_pos ⟨hx.1, hx.2, hin⟩]
      · have hno : ¬ (w.offset ≤ x ∧ x < w.offset + w.size ∧ ∃ v ∈ run, v.2.Holds x) := fun h =>
          hin h.2.2
        rw [if_neg hno, hbefore x hno]
        refine (hback x hx.1 hx.2).resolve_left fun h => hin ?_
        exact (backed_iff hwove (by omega)).mpr h
    · have hno : ¬ (w.offset ≤ x ∧ x < w.offset + w.size ∧ ∃ v ∈ run, v.2.Holds x) := fun h =>
        hx ⟨h.1, h.2.1⟩
      rw [if_neg hx, if_neg hno, hbefore x hno]

/-- On the grid of the alignment the buffers of a range that does not wrap cover the
request. -/
theorem writeFits_of_aligned {A : Nat} {w : WriteRequest} (h : Sound B A s) (hpos : 1 ≤ w.size)
    (hend : alignedEnd A w.offset w.size < 2 ^ 64) :
    WriteFits B s.container w
      (alignRange (s.container.object w.object).alignement w.offset w.size).1
      (SizeT.add (alignRange (s.container.object w.object).alignement w.offset w.size).1
        (alignRange (s.container.object w.object).alignement w.offset w.size).2) := by
  have hle := le_alignedEnd A w.offset w.size
  have hb : grain A ∣ (alignRange A w.offset w.size).1 := (rangeOk_grain hend).1
  have hnear := lt_alignRange_add_grain A w.offset w.size
  rw [h.fixed.object, end_alignRange hend]
  -- a multiple of the alignment past the base is past the request's start
  have hpast : ∀ n, grain A ∣ n → (alignRange A w.offset w.size).1 < n → w.offset < n := by
    intro n hn hlt
    have := Nat.le_of_dvd (Nat.sub_pos_of_lt hlt) (Nat.dvd_sub hn hb)
    omega
  refine ⟨⟨fun k t ht _ hlt => ?_, fun k t ht _ hlt => ?_, fun _ hle' => ?_⟩, fun x _ hx => ?_⟩
  · obtain ⟨h1, h2⟩ := h.wf.aligned w.object ht
    exact hpast _ (Nat.dvd_add h1 h2) hlt
  · exact hpast _ (h.wf.aligned w.object ht).1 hlt
  · omega
  · exact Or.inl (Or.inl (by omega))

/-- One segment of object 1 was written. -/
def oneSegment : Server Malloc (ObjectId → Bytes) :=
  (localServer 8 9).after localBackends [.eagerWrite ⟨⟨1, 1⟩, 0, 8, fun _ => 7⟩]

/-- A write over the end of the segment and a part of the gap behind it. -/
theorem oneSegment_written : ∃ s',
    oneSegment.eagerWrite localBackends ⟨⟨1, 1⟩, 4, 8, fun _ => 5⟩ = .ok (.ack 0, s') ∧
      WrittenExactly localBackends oneSegment s' ⟨⟨1, 1⟩, 4, 8, fun _ => 5⟩ := by
  have hrun : Run (Step localBackends) (fun _ e => InRange 8 e) (localServer 8 9) oneSegment :=
    .next (e := .eagerWrite ⟨⟨1, 1⟩, 0, 8, fun _ => 7⟩) .start (by decide) ⟨_, rfl⟩
  have hsound := sound_run (fun h => h) (initial_localServer 8 9) hrun
  exact (eagerWrite_exact_iff (initial_localServer 8 9) (hrun.mono (fun h => h) fun _ => trivial)
    (by decide) (by unfold PreloadsInFull; decide)).mpr (writeFits_of_aligned hsound (by decide)
      (by decide))

/-- **A write in the last block of the 64-bit offsets** is acknowledged and not
stored: its range rounded out to the alignment ends at `2 ^ 64`, that is at 0. -/
theorem eagerWrite_lost_at_end :
    ¬ ∀ (s₀ s : Server Malloc (ObjectId → Bytes)) (w : WriteRequest),
      Initial localBackends 8 false s₀ → Run (Step localBackends) (fun _ _ => True) s₀ s →
      1 ≤ w.size → w.offset + w.size < 2 ^ 64 →
      PreloadsInFull localBackends (s.container.getObject w.object) w →
      ∃ s', s.eagerWrite localBackends w = .ok (.ack 0, s') ∧
        WrittenExactly localBackends s s' w := by
  intro hall
  obtain ⟨s', hok, hexact⟩ := hall _ _ ⟨⟨1, 1⟩, 2 ^ 64 - 4, 2, fun _ => 7⟩
    (initial_localServer 8 0) .start (by decide) (by decide) (by unfold PreloadsInFull; decide)
  have hcontent := hexact.content (2 ^ 64 - 4)
  obtain ⟨-, rfl⟩ := Prod.mk.inj (Except.ok.inj hok)
  exact absurd hcontent (by decide)

end Server

end IoCatcher
