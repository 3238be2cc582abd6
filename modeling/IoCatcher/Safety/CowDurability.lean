import IoCatcher.Safety.Coherence
import IoCatcher.Safety.RangeCopy

/-!
# IO Catcher — flushing a range copy

A flush writes the dirty segments of an object. Which segments of the destination are
dirty after a range copy is decided segment by segment: a segment that is shared has
the flag of the source segment, although the destination has a storage of its own, and
a segment that is copied into keeps the flag it had, although its bytes changed. The
copies of clean source segments, and the copies into clean or new segments, are not
written by any flush.

* `rangeCow_durable_iff`   — when a flush of the destination saves the copied range;
* `rangeCow_not_saved`     — a clean segment, shared and flushed.
-/

namespace IoCatcher

open Container

variable {μ σ : Type} {B : Backends μ σ} {c c' c'' : Container μ σ} {id src dst : ObjectId}
  {A offset size key : Nat} {orig : ObjectSegment}

-- ---------------------------------------------------------------------------
-- Statement
-- ---------------------------------------------------------------------------

/-- A dirty segment of the object holds the position. -/
def Container.DirtyAt (c : Container μ σ) (id : ObjectId) (x : Nat) : Prop :=
  ∃ k u, c.HasSegment id k u ∧ u.Holds x ∧ u.dirty = true

/-- In `c''`, at every position of the range that the source had cached in `c`, the
destination has a cached byte and the storage has the same byte for it; no copy left
its buffer on the way. -/
def DurableRange (B : Backends μ σ) (src dst : ObjectId) (offset size : Nat)
    (c c'' : Container μ σ) : Prop :=
  ∀ x, offset ≤ x → x < offset + size → c.cached src x ≠ none →
    c''.memory.overruns = c.memory.overruns ∧ c''.cached dst x = some (c''.disk B dst x)

/-- Each position of the range in a cached source segment: the storage already has the
byte for the destination, or the segment is shared and dirty, or it is copied by hand
and the destination has a dirty segment there. -/
def SavesRange (B : Backends μ σ) (c : Container μ σ) (src dst : ObjectId) (offset size : Nat) :
    Prop :=
  ∀ k t, c.HasSegment src k t → ∀ x, t.HoldsPart offset size x →
    c.cached src x = some (c.disk B dst x) ∨
      (ByHand c dst t offset size ∧ c.DirtyAt dst x) ∨
      (¬ ByHand c dst t offset size ∧ t.dirty = true)

-- ---------------------------------------------------------------------------
-- Flags
-- ---------------------------------------------------------------------------

theorem cached_ne_none_iff {x : Nat} :
    c.cached id x ≠ none ↔ ∃ k u, c.HasSegment id k u ∧ u.Holds x := by
  rw [Ne, cached_eq_none]
  simp only [not_forall, not_not, exists_prop]

/-- The flag at a position is that of the one segment that holds it. -/
theorem dirtyAt_iff (hlay : LayoutOk (c.segments id)) {k x : Nat} {t : ObjectSegment}
    (ht : c.HasSegment id k t) (hx : t.Holds x) : c.DirtyAt id x ↔ t.dirty = true := by
  constructor
  · rintro ⟨k', u, hu, hux, hd⟩
    obtain ⟨-, rfl⟩ := hlay.eq_of_shared hu ht hux.1 hux.2 hx.1 hx.2
    exact hd
  · exact fun hd => ⟨k, t, ht, hx, hd⟩

/-- A growth changes no flag: what it adds is clean. -/
theorem dirtyAt_of_grows {g : Nat} {Loaded : Nat → Nat → Prop} (hg : Grows B g Loaded c c' dst)
    {x : Nat} : c'.DirtyAt id x ↔ c.DirtyAt id x := by
  have hholds : ∀ {u u' : ObjectSegment}, SameData c c' u u' → (u'.Holds x ↔ u.Holds x) := by
    intro u u' hsame
    unfold ObjectSegment.Holds ObjectSegment.stop
    rw [hsame.offset, hsame.size]
  by_cases hid : id = dst
  · subst hid
    constructor
    · rintro ⟨k, u', hu', hx, hd⟩
      by_cases hold : ∃ u, c.HasSegment id k u
      · obtain ⟨u, hu⟩ := hold
        obtain ⟨v, hv, hsame⟩ := hg.kept hu
        obtain rfl := hasSegment_unique hv hu'
        exact ⟨k, u, hu, (hholds hsame).mp hx, hsame.dirty ▸ hd⟩
      · have hclean := (hg.added hu' fun u hu => hold ⟨u, hu⟩).1
        exact absurd (hclean.symm.trans hd) (by decide)
    · rintro ⟨k, u, hu, hx, hd⟩
      obtain ⟨u', hu', hsame⟩ := hg.kept hu
      exact ⟨k, u', hu', (hholds hsame).mpr hx, hsame.dirty.trans hd⟩
  · unfold DirtyAt
    simp only [hg.hasSegment_other hid]

/-- The positions `P` of the destination are filled between `c` and `c'`, and a dirty
segment holds those of `D`. No other flag changed, and the storage was not written. -/
structure Flagged (B : Backends μ σ) (dst : ObjectId) (P D : Nat → Prop) (c c' : Container μ σ) :
    Prop where
  held    : ∀ {x}, P x → c'.cached dst x ≠ none
  kept    : ∀ {x}, c.cached dst x ≠ none → c'.cached dst x ≠ none
  inside  : ∀ {x}, P x → (c'.DirtyAt dst x ↔ D x)
  outside : ∀ {id x}, ¬ (id = dst ∧ P x) → (c'.DirtyAt id x ↔ c.DirtyAt id x)
  disk    : c'.disk B = c.disk B

theorem Flagged.of_empty {P D : Nat → Prop} (h : ∀ x, ¬ P x) : Flagged B dst P D c c :=
  ⟨fun hx => absurd hx (h _), fun hx => hx, fun hx => absurd hx (h _), fun _ => Iff.rfl, rfl⟩

/-- Fillings of different positions add up. -/
theorem Flagged.trans {P Q R D E F : Nat → Prop} (h : Flagged B dst P D c c')
    (h' : Flagged B dst Q E c' c'') (hR : ∀ {x}, R x ↔ P x ∨ Q x)
    (hD : ∀ {x}, P x → (F x ↔ D x)) (hE : ∀ {x}, Q x → (F x ↔ E x)) : Flagged B dst R F c c'' := by
  refine ⟨fun {x} hx => ?_, fun hx => h'.kept (h.kept hx), fun {x} hx => ?_, fun {id x} hx => ?_,
    h'.disk.trans h.disk⟩
  · rcases hR.mp hx with hp | hq
    · exact h'.kept (h.held hp)
    · exact h'.held hq
  · by_cases hq : Q x
    · rw [h'.inside hq, hE hq]
    · have hp := (hR.mp hx).resolve_right hq
      rw [h'.outside fun hin => hq hin.2, h.inside hp, hD hp]
  · rw [h'.outside fun hin => hx ⟨hin.1, hR.mpr (Or.inr hin.2)⟩,
      h.outside fun hin => hx ⟨hin.1, hR.mpr (Or.inl hin.2)⟩]

-- ---------------------------------------------------------------------------
-- One step
-- ---------------------------------------------------------------------------

/-- A copy by hand keeps all flags of the destination. -/
theorem HandCopied.flagged {lo hi : Nat} {d : Container μ σ} {run : List (Nat × ObjectSegment)}
    (h : HandCopied B A src dst key orig lo hi c c' d run) (hread : Readable B true) :
    Flagged B dst (fun x => lo ≤ x ∧ x < hi) (fun x => c.DirtyAt dst x) c c' := by
  obtain ⟨hcov, -, -⟩ := h.run hread
  have hflag : ∀ {id x}, c'.DirtyAt id x ↔ c.DirtyAt id x := by
    intro id x
    rw [← dirtyAt_of_grows h.grows, h.result]
    rfl
  have hsegs : ∀ {k u}, c'.HasSegment dst k u ↔ d.HasSegment dst k u := by
    intro k u
    rw [h.result]
    rfl
  refine ⟨fun {x} hx => ?_, fun {x} hx => ?_, fun _ => hflag, fun _ => hflag, ?_⟩
  · obtain ⟨start, last, hstart, hlast, htiles⟩ := hcov.tiles
    have hb := alignedBase_le A lo
    have he := le_alignedEnd A lo (hi - lo)
    have hpart := h.part
    obtain ⟨v, hv, hv1, hv2⟩ := htiles.exists_mem (x := x) (by omega) (by omega)
    exact cached_ne_none_iff.mpr ⟨v.1, v.2, hsegs.mpr (hcov.held v hv), hv1, hv2⟩
  · obtain ⟨k, u, hu, hux⟩ := cached_ne_none_iff.mp hx
    obtain ⟨u', hu', hsame⟩ := h.grows.kept hu
    refine cached_ne_none_iff.mpr ⟨k, u', hsegs.mpr hu', ?_⟩
    unfold ObjectSegment.Holds ObjectSegment.stop at hux ⊢
    rwa [hsame.offset, hsame.size]
  · rw [← h.grows.disk, h.result]
    rfl

/-- A segment that is shared brings its flag along. -/
theorem flagged_of_shared (h : Wf B (grain A) c) (hs : c.HasSegment src key orig)
    (hloc : localPartialOverlap (c.segments dst) orig = false) :
    Flagged B dst orig.Holds (fun _ => orig.dirty = true) c (c.storeSegment B dst key orig) := by
  have hw' := h.makeCowOf hs hloc
  rw [makeCowOf_eq] at hw'
  have hnew : (c.storeSegment B dst key orig).HasSegment dst key orig :=
    hasSegment_storeSegment.mpr (Or.inl ⟨rfl, rfl, rfl⟩)
  -- the segment that is replaced has the same range
  have hold : ∀ {u x}, c.HasSegment dst key u → u.Holds x → orig.Holds x := by
    intro u x hu hux
    obtain ⟨ho, hz⟩ := sameRange_of_free (h.layout src) (h.layout dst) hs hloc hu
    unfold ObjectSegment.Holds ObjectSegment.stop at hux ⊢
    rwa [← ho, ← hz]
  refine ⟨fun hx => cached_ne_none_iff.mpr ⟨key, orig, hnew, hx⟩, fun {x} hx => ?_,
    fun hx => dirtyAt_iff (hw'.layout dst) hnew hx, fun {id x} hx => ?_, ?_⟩
  · obtain ⟨k, u, hu, hux⟩ := cached_ne_none_iff.mp hx
    by_cases hk : k = key
    · exact cached_ne_none_iff.mpr ⟨key, orig, hnew, hold (hk ▸ hu) hux⟩
    · refine cached_ne_none_iff.mpr ⟨k, u, hasSegment_storeSegment.mpr (Or.inr ⟨?_, hu⟩), hux⟩
      exact fun hno => hk hno.2
  · constructor
    · rintro ⟨k, u, hu, hux, hd⟩
      rcases hasSegment_storeSegment.mp hu with ⟨hid, -, rfl⟩ | ⟨-, hu⟩
      · exact absurd ⟨hid, hux⟩ hx
      · exact ⟨k, u, hu, hux, hd⟩
    · rintro ⟨k, u, hu, hux, hd⟩
      refine ⟨k, u, hasSegment_storeSegment.mpr (Or.inr ⟨?_, hu⟩), hux, hd⟩
      rintro ⟨rfl, rfl⟩
      exact hx ⟨rfl, hold hu hux⟩
  · unfold Container.disk
    rw [storage_storeSegment]

/-- Whether a flush will write the position, when the source segment `t` holds it. -/
def WillFlush (c : Container μ σ) (src dst : ObjectId) (t : ObjectSegment) (offset size x : Nat) :
    Prop :=
  (ByHand c dst t offset size ∧ c.DirtyAt dst x) ∨
    (¬ ByHand c dst t offset size ∧ c.DirtyAt src x)

/-- **One step fills its part of the range**, and decides its flags. -/
theorem flagged_of_step (h : Wf B (grain A) c) (hfix : FixedAlignement A c)
    (hs : c.HasSegment src key orig) (hnw : offset + size < 2 ^ 64)
    (h1 : orig.offset < offset + size) (h2 : offset < orig.stop) (hsize : 0 < size)
    (hread : Readable B true) :
    Flagged B dst (orig.HoldsPart offset size) (WillFlush c src dst orig offset size) c
      (c.rangeCopyOnWriteSegment B src dst key orig offset size) := by
  by_cases hhand : ByHand c dst orig offset size
  · obtain ⟨d, run, hcopy⟩ := handCopied_of_step h hfix hs hnw h1 h2 hsize hhand
    obtain ⟨hheld, hkept, hin, hout, hdisk⟩ := hcopy.flagged hread
    refine ⟨fun hx => hheld (holdsPart_iff_part.mp hx), hkept,
      fun hx => (hin (holdsPart_iff_part.mp hx)).trans ?_,
      fun hx => hout fun hin => hx ⟨hin.1, holdsPart_iff_part.mpr hin.2⟩, hdisk⟩
    exact ⟨fun hd => Or.inl ⟨hhand, hd⟩, fun hw => (hw.resolve_right fun hno => hno.1 hhand).2⟩
  · obtain ⟨heq, hloc⟩ := shared_of_step (B := B) (h.layout src) hs hhand
    have hiff : ∀ {x}, orig.HoldsPart offset size x ↔ orig.Holds x :=
      holdsPart_iff_holds ((h.layout src).bound hs) hnw hhand
    obtain ⟨hheld, hkept, hin, hout, hdisk⟩ := flagged_of_shared h hs hloc
    rw [heq]
    refine ⟨fun hx => hheld (hiff.mp hx), hkept, fun {x} hx => (hin (hiff.mp hx)).trans ?_,
      fun hx => hout fun hin => hx ⟨hin.1, hiff.mpr hin.2⟩, hdisk⟩
    rw [← dirtyAt_iff (h.layout src) hs hx.1]
    exact ⟨fun hd => Or.inr ⟨hhand, hd⟩, fun hw => (hw.resolve_left fun hno => hhand hno.1).2⟩

-- ---------------------------------------------------------------------------
-- The loop
-- ---------------------------------------------------------------------------

/-- The flags of the later segments are decided as they would have been before. -/
theorem Turn.willFlush_iff {e v : Nat × ObjectSegment} {ts : List (Nat × ObjectSegment)}
    {u : ObjectSegment} {D : Nat → Prop} (ht : Turn B A src dst offset size e ts c u c')
    (hlay : LayoutOk (c.segments dst)) (hstep : Flagged B dst (u.HoldsPart offset size) D c c')
    (hv : v ∈ ts) {x : Nat} (hx : v.2.HoldsPart offset size x) :
    WillFlush c' src dst v.2 offset size x ↔ WillFlush c src dst v.2 offset size x := by
  have hpast := ht.not_holdsPart hv hx
  unfold WillFlush
  rw [ht.byHand_iff hlay hv, hstep.outside fun hin => hpast hin.2,
    hstep.outside fun hin => hpast hin.2]

/-- **The loop fills what the source has cached of the range.** -/
theorem flagged_of_loop (dst : ObjectId) (hnw : offset + size < 2 ^ 64) (hsize : 0 < size)
    (hread : Readable B true) {ts : List (Nat × ObjectSegment)} :
    ∀ {c : Container μ σ}, Wf B (grain A) c → FixedAlignement A c → Visits c src offset ts →
      Flagged B dst (fun x => ∃ e ∈ ts, e.2.HoldsPart offset size x)
        (fun x => ∃ e ∈ ts, e.2.HoldsPart offset size x ∧ WillFlush c src dst e.2 offset size x) c
        (rangeCopyLoop B src dst offset size (ts.map Prod.fst) c) := by
  induction ts with
  | nil => exact fun _ _ _ => .of_empty fun x ⟨e, he, _⟩ => absurd he List.not_mem_nil
  | cons e ts ih =>
    intro c h hfix hv
    rcases turn_or_end (B := B) h hfix hnw hsize hv with ⟨u, c₁, ht, hloop⟩ | ⟨hpast, hloop⟩
    · obtain ⟨ho, hz⟩ := ht.range
      obtain ⟨-, -, -, hpart⟩ := part_congr offset size ho hz
      have hstep : Flagged B dst (u.HoldsPart offset size) (WillFlush c src dst u offset size) c
          c₁ := by
        rw [ht.result]
        exact flagged_of_step h hfix ht.source hnw ht.below ht.after hsize hread
      rw [hloop]
      refine hstep.trans (ih ht.wf ht.fixed ht.visits) (fun {x} => ?_) (fun {x} hx => ?_)
        fun {x} hx => ?_
      · rw [hpart]
        simp
      · -- only the first segment holds the position
        have hcongr : WillFlush c src dst u offset size x ↔
            WillFlush c src dst e.2 offset size x := by
          unfold WillFlush
          rw [byHand_congr ho hz]
        rw [hcongr]
        constructor
        · rintro ⟨v, hvm, hxv, hw⟩
          rcases List.mem_cons.mp hvm with rfl | hvm
          · exact hw
          · exact absurd hx (ht.not_holdsPart hvm hxv)
        · exact fun hw => ⟨e, List.mem_cons_self .., hpart ▸ hx, hw⟩
      · constructor
        · rintro ⟨v, hvm, hxv, hw⟩
          rcases List.mem_cons.mp hvm with rfl | hvm
          · obtain ⟨v', hvm', hx'⟩ := hx
            exact absurd (hpart ▸ hxv) (ht.not_holdsPart hvm' hx')
          · exact ⟨v, hvm, hxv, (ht.willFlush_iff (h.layout dst) hstep hvm hxv).mpr hw⟩
        · rintro ⟨v, hvm, hxv, hw⟩
          exact ⟨v, List.mem_cons_of_mem _ hvm, hxv,
            (ht.willFlush_iff (h.layout dst) hstep hvm hxv).mp hw⟩
    · rw [hloop]
      refine .of_empty fun x ⟨v, hvm, hx⟩ => ?_
      exact absurd (Nat.lt_of_le_of_lt hx.1.1 hx.2.2) (Nat.not_lt.mpr (hpast v hvm))

/-- What a range copy that is carried out fills, in terms of the state before. -/
theorem makeObjectRangeCow_flagged (h : Wf B (grain A) c) (hfix : FixedAlignement A c)
    (hnw : offset + size < 2 ^ 64) (hsize : 0 < size) (hread : Readable B true) {allowExist : Bool}
    (hok : c.makeObjectRangeCow B src dst allowExist offset size = (true, c')) {k x : Nat}
    {t : ObjectSegment} (ht : c.HasSegment src k t) (hx : t.HoldsPart offset size x) :
    c'.cached dst x ≠ none ∧ c'.disk B = c.disk B ∧
      (c'.DirtyAt dst x ↔ (ByHand c dst t offset size ∧ c.DirtyAt dst x) ∨
        (¬ ByHand c dst t offset size ∧ t.dirty = true)) := by
  have hw := h.getObject dst
  have hseg : ∀ id, (c.getObject dst).segments id = c.segments id := segments_getObject c dst
  have hflagged := flagged_of_loop dst hnw hsize hread hw
    (hfix.of_header (sameHeader_getObject c dst)) (visits_lowerBound (hw.layout src) offset)
  rw [← rangeCopyOnWrite_eq (hw.layout src) hnw, ← makeObjectRangeCow_true hok, hseg] at hflagged
  have hmem : (k, t) ∈ (c.segments src).lowerBound offset := by
    have := hx.1.2
    have := hx.2.1
    exact (mem_lowerBound_iff (h.layout src)).mpr ⟨ht, by dsimp only; omega⟩
  refine ⟨hflagged.held ⟨(k, t), hmem, hx⟩, hflagged.disk, ?_⟩
  have hflag : WillFlush (c.getObject dst) src dst t offset size x ↔
      (ByHand c dst t offset size ∧ c.DirtyAt dst x) ∨
        (¬ ByHand c dst t offset size ∧ t.dirty = true) := by
    rw [← dirtyAt_iff (h.layout src) ht hx.1]
    unfold WillFlush ByHand DirtyAt HasSegment
    simp only [hseg]
  rw [hflagged.inside ⟨(k, t), hmem, hx⟩, ← hflag]
  constructor
  · rintro ⟨e, he, hxe, hw⟩
    -- one segment of the source holds the position
    obtain ⟨-, heq⟩ := (h.layout src).eq_of_shared ((mem_lowerBound_iff (h.layout src)).mp he).1 ht
      hxe.1.1 hxe.1.2 hx.1.1 hx.1.2
    rwa [heq] at hw
  · exact fun hw => ⟨(k, t), hmem, hx, hw⟩

-- ---------------------------------------------------------------------------
-- The flush
-- ---------------------------------------------------------------------------

/-- After a flush of everything, a cached byte is on the storage if it was under a dirty
segment, or was there before. -/
theorem saved_of_flush {g : Nat} {sb : StorageBackend σ} (hsb : B.storageBackend = some sb)
    (hrel : sb.Reliable) (h : Wf B g c) (id : ObjectId) (x : Nat) :
    (c.flush B id 0 0).2.cached id x = some ((c.flush B id 0 0).2.disk B id x) ↔
      c.DirtyAt id x ∨ c.cached id x = some (c.disk B id x) := by
  have hflushed : ∀ t : ObjectSegment, flushed 0 0 t = t.dirty := by
    intro t
    simp [flushed]
  rw [cached_flush]
  by_cases hd : c.DirtyAt id x
  · refine ⟨fun _ => Or.inl hd, fun _ => ?_⟩
    obtain ⟨k, t, ht, hx, hdirty⟩ := hd
    rw [disk_flush_stored hsb hrel (h.layout id) ht ((hflushed t).trans hdirty) hx,
      cached_of_segment (h.layout id) ht hx]
  · rw [disk_flush (Or.inr fun {k t} ht hfl hx => hd ⟨k, t, ht, hx, hflushed t ▸ hfl⟩)]
    exact ⟨Or.inr, fun hor => hor.resolve_left hd⟩

namespace Server

variable {s s₀ : Server μ σ}

/-- **When a range copy can be made durable.** In every reachable state, after a range copy
that is carried out and a flush of the destination, the storage has the copied bytes if
and only if the range is empty, or every part that is copied by hand fits into the
segments of the destination and each byte is under a segment that ends up dirty, or is
on the storage already. -/
theorem rangeCow_durable_iff {check allowExist : Bool} {sb : StorageBackend σ}
    (hsb : B.storageBackend = some sb) (hrel : sb.Reliable) (hinit : Initial B A check s₀)
    (hrun : Run (Step B) (fun _ e => OnGrid A e) s₀ s) (hnw : offset + size < 2 ^ 64)
    (hok : s.container.makeObjectRangeCow B src dst allowExist offset size = (true, c'))
    (hflush : c'.flush B dst 0 0 = (0, c'')) :
    DurableRange B src dst offset size s.container c'' ↔ size = 0 ∨
      (PartsFit A s.container src dst offset size ∧
        SavesRange B s.container src dst offset size) := by
  have hs := sound_run_of_onGrid hinit hrun
  by_cases hzero : size = 0
  · refine ⟨fun _ => Or.inl hzero, fun _ x h1 h2 _ => ?_⟩
    omega
  have hsize : 0 < size := Nat.pos_of_ne_zero hzero
  have hread := readable_of_reliable hsb hrel
  have hwf' : Wf B (grain A) c' := by
    have hinner : InnerOk (grain A) (s.container.object dst).alignement offset size := by
      rw [hs.fixed.object]
      exact innerOk_grain hnw
    rw [show c' = (s.container.makeObjectRangeCow B src dst allowExist offset size).2 by rw [hok]]
    exact (hs.wf.makeObjectRangeCow hinner).1
  obtain ⟨hfit, hover⟩ := makeObjectRangeCow_copies hs.wf hs.fixed hnw hsize hread hok
  have hmemory : c''.memory = c'.memory := by
    rw [show c'' = (c'.flush B dst 0 0).2 by rw [hflush], memory_flush]
  -- one position of one source segment
  have hsaved : ∀ {k t x}, s.container.HasSegment src k t → t.HoldsPart offset size x →
      PartsFit A s.container src dst offset size →
      (c''.cached dst x = some (c''.disk B dst x) ↔
        s.container.cached src x = some (s.container.disk B dst x) ∨
          (ByHand s.container dst t offset size ∧ s.container.DirtyAt dst x) ∨
          (¬ ByHand s.container dst t offset size ∧ t.dirty = true)) := by
    intro k t x ht hx hparts
    obtain ⟨hheld, hdisk, hflag⟩ := makeObjectRangeCow_flagged hs.wf hs.fixed hnw hsize (hread true)
      hok ht hx
    have hcached : s.container.cached src x ≠ none := cached_ne_none_iff.mpr ⟨k, t, ht, hx.1⟩
    have hcopied : c'.cached dst x = s.container.cached src x := by
      have hin := (hfit hparts).inside (x := x) ⟨hx.2, hcached⟩
      obtain ⟨v, hv⟩ := Option.ne_none_iff_exists'.mp hheld
      obtain ⟨w, hw⟩ := Option.ne_none_iff_exists'.mp hcached
      unfold content at hin
      rw [hv, hw] at hin ⊢
      exact congrArg some hin
    have hiff := saved_of_flush hsb hrel hwf' dst x
    rw [hflush] at hiff
    rw [hiff, hflag, hdisk, hcopied, or_comm]
  constructor
  · intro hdur
    have hparts : PartsFit A s.container src dst offset size := by
      by_contra hno
      -- the part that does not fit has a byte
      have hlt := hover hno
      unfold PartsFit at hno
      simp only [not_forall] at hno
      obtain ⟨k, t, ht, h1, h2, -⟩ := hno
      have hpos := (hs.wf.layout src).pos ht
      have hstop : t.stop = t.offset + t.getSize := rfl
      have hx : t.HoldsPart offset size (partLo t offset) := by
        unfold ObjectSegment.HoldsPart ObjectSegment.Holds partLo
        omega
      have hdone := (hdur _ hx.2.1 hx.2.2 (cached_ne_none_iff.mpr ⟨k, t, ht, hx.1⟩)).1
      rw [hmemory] at hdone
      omega
    refine Or.inr ⟨hparts, fun k t ht x hx => ?_⟩
    exact (hsaved ht hx hparts).mp
      (hdur x hx.2.1 hx.2.2 (cached_ne_none_iff.mpr ⟨k, t, ht, hx.1⟩)).2
  · rintro (hno | ⟨hparts, hsaves⟩)
    · exact absurd hno hzero
    · intro x h1 h2 hcached
      obtain ⟨k, t, ht, hx⟩ := cached_ne_none_iff.mp hcached
      refine ⟨hmemory ▸ (hfit hparts).overrun, ?_⟩
      exact (hsaved ht ⟨hx, h1, h2⟩ hparts).mpr (hsaves k t ht x ⟨hx, h1, h2⟩)

/-- The whole segment is shared with its flag, and flushed. -/
theorem rangeCow_durable_dirty : ∃ c' c'',
    oneSegmentServer.container.makeObjectRangeCow localBackends ⟨1, 1⟩ ⟨1, 2⟩ false 0 8 =
      (true, c') ∧ c'.flush localBackends ⟨1, 2⟩ 0 0 = (0, c'') ∧
    DurableRange localBackends ⟨1, 1⟩ ⟨1, 2⟩ 0 8 oneSegmentServer.container c'' := by
  obtain ⟨c', hok⟩ : ∃ c', oneSegmentServer.container.makeObjectRangeCow localBackends ⟨1, 1⟩
      ⟨1, 2⟩ false 0 8 = (true, c') := ⟨_, rfl⟩
  obtain ⟨c'', hflush⟩ : ∃ c'', c'.flush localBackends ⟨1, 2⟩ 0 0 = (0, c'') := by
    obtain rfl := (Prod.mk.inj hok).2
    exact ⟨_, rfl⟩
  have hshared : ¬ ByHand oneSegmentServer.container ⟨1, 2⟩ ⟨⟨0, 8⟩, 0, true⟩ 0 8 := by
    unfold ByHand
    decide
  have hone : ∀ {k t}, oneSegmentServer.container.HasSegment ⟨1, 1⟩ k t →
      t = ⟨⟨0, 8⟩, 0, true⟩ := fun ht => (Prod.mk.inj (List.mem_singleton.mp ht)).2
  refine ⟨c', c'', hok, hflush, (rangeCow_durable_iff rfl byteStore_reliable
    (initial_localServer 8 0) run_oneSegmentServer (by decide) hok hflush).mpr (Or.inr ⟨?_, ?_⟩)⟩
  · intro k t ht _ _ hhand
    rw [hone ht] at hhand
    exact absurd hhand hshared
  · intro k t ht x _
    rw [hone ht]
    exact Or.inr (Or.inr ⟨hshared, rfl⟩)

/-- **The copy of a clean segment is not saved**: object 1 was written and flushed, object
2 shares its segment. The flush of object 2 has nothing to write. -/
theorem rangeCow_not_saved :
    ¬ ∀ (s₀ s : Server Malloc (ObjectId → Bytes)) (c' c'' : Container Malloc (ObjectId → Bytes))
      (src dst : ObjectId) (allowExist : Bool) (offset size : Nat),
      Initial localBackends 8 false s₀ → Run (Step localBackends) (fun _ _ => True) s₀ s →
      offset + size < 2 ^ 64 →
      s.container.makeObjectRangeCow localBackends src dst allowExist offset size = (true, c') →
      c'.flush localBackends dst 0 0 = (0, c'') →
      ∀ x, offset ≤ x → x < offset + size → s.container.cached src x ≠ none →
        c''.cached dst x = some (c''.disk localBackends dst x) := by
  intro hall
  have hsaved := hall _ (oneSegmentServer.after localBackends [.flush ⟨1, 1⟩ 0 0]) _ _ ⟨1, 1⟩ ⟨1, 2⟩
    false 0 8 (initial_localServer 8 0) (run_after (run_after .start)) (by decide) rfl rfl 0
    (by decide) (by decide) (by decide)
  exact absurd hsaved (by decide)

end Server

end IoCatcher
