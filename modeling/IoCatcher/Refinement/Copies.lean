import IoCatcher.Safety.CowDurability
import IoCatcher.Safety.Durability
import IoCatcher.Safety.Snapshot

/-!
# IO Catcher — copies between clean and dirty segments

What a copy does to the flags of all objects, and from there to the agreement of cache
and storage and to the writes in flight. Coherence is read by position here
(`coherent_iff`): a cached byte is under a dirty segment or on the storage.

* `flagged_of_rangeCow`, `flagged_of_fullCow` — the flags after a copy;
* `Coherent.rangeCow` — a range copy that saves its range keeps the coherence;
* `kept_of_fullCow`   — a full copy stores nothing but what its destination shows;
* `aloft_dirty_cow`   — a copy that stays apart keeps the targets of the writes in flight
  dirty.
-/

namespace IoCatcher

open Container

variable {μ σ : Type} {B : Backends μ σ} {c c' : Container μ σ} {id src dst : ObjectId}
  {A offset size x : Nat}

-- ---------------------------------------------------------------------------
-- Coherence by position
-- ---------------------------------------------------------------------------

/-- A cached byte is under a dirty segment, or on the storage. -/
theorem coherent_iff (hlay : ∀ id, LayoutOk (c.segments id)) :
    Coherent B c ↔
      ∀ id x v, c.cached id x = some v → c.DirtyAt id x ∨ c.disk B id x = v := by
  constructor
  · intro h id x v hv
    obtain ⟨k, t, ht, hx, rfl⟩ := (cached_eq_some (hlay id)).mp hv
    cases hd : t.dirty with
    | true => exact Or.inl ⟨k, t, ht, hx, hd⟩
    | false =>
      have h1 := hx.1
      have h2 := hx.2
      unfold ObjectSegment.stop at h2
      have hbyte := h id k t ht hd (x - t.offset) (by omega)
      rw [show t.offset + (x - t.offset) = x by omega] at hbyte
      exact Or.inr hbyte.symm
  · intro h id k t ht hd i hi
    have hx : t.Holds (t.offset + i) := ⟨Nat.le_add_right .., Nat.add_lt_add_left hi _⟩
    have hcached := cached_of_segment (hlay id) ht hx
    rw [Nat.add_sub_cancel_left] at hcached
    rcases h id _ _ hcached with hdirty | hdisk
    · rw [dirtyAt_iff (hlay id) ht hx, hd] at hdirty
      exact absurd hdirty (by decide)
    · exact hdisk.symm

-- ---------------------------------------------------------------------------
-- Flags after a copy
-- ---------------------------------------------------------------------------

/-- The flags after a range copy that is carried out. -/
theorem flagged_of_rangeCow (h : Wf B (grain A) c) (hfix : FixedAlignement A c)
    (hnw : offset + size < 2 ^ 64) (hsize : 0 < size) (hread : Readable B true) {allowExist : Bool}
    (hok : c.makeObjectRangeCow B src dst allowExist offset size = (true, c')) :
    Flagged B dst (fun x => (offset ≤ x ∧ x < offset + size) ∧ c.cached src x ≠ none)
      (fun x => ∃ k t, c.HasSegment src k t ∧ t.HoldsPart offset size x ∧
        WillFlush c src dst t offset size x) c c' := by
  have hw := h.getObject dst
  have hseg : ∀ id, (c.getObject dst).segments id = c.segments id := segments_getObject c dst
  have hheld : ∀ {id k t}, (c.getObject dst).HasSegment id k t ↔ c.HasSegment id k t := by
    intro id k t
    unfold HasSegment
    rw [hseg]
  have hdirty : ∀ {id x}, (c.getObject dst).DirtyAt id x ↔ c.DirtyAt id x := by
    intro id x
    unfold DirtyAt
    simp only [hheld]
  have hwill : ∀ {t x}, WillFlush (c.getObject dst) src dst t offset size x ↔
      WillFlush c src dst t offset size x := by
    intro t x
    unfold WillFlush ByHand
    simp only [hseg, hdirty]
  have hflagged := flagged_of_loop dst hnw hsize hread hw
    (hfix.of_header (sameHeader_getObject c dst)) (visits_lowerBound (hw.layout src) offset)
  rw [← rangeCopyOnWrite_eq (hw.layout src) hnw, ← makeObjectRangeCow_true hok, hseg] at hflagged
  obtain ⟨hin, hkept, hset, hout, hdisk⟩ := hflagged
  simp only [holdsPart_lowerBound_iff (h.layout src), hwill, hdirty, cached_getObject] at *
  refine ⟨hin, hkept, fun {x} hx => (hset hx).trans ?_, hout, hdisk⟩
  constructor
  · rintro ⟨e, he, hex, hw⟩
    exact ⟨e.1, e.2, ((mem_lowerBound_iff (h.layout src)).mp he).1, hex, hw⟩
  · rintro ⟨k, t, ht, htx, hw⟩
    refine ⟨(k, t), (mem_lowerBound_iff (h.layout src)).mpr ⟨ht, ?_⟩, htx, hw⟩
    exact Nat.lt_of_le_of_lt htx.2.1 htx.1.2

/-- A full copy leaves the flags of the other objects alone. -/
theorem flagged_of_fullCow (h : FullCopied B src dst c c') (hid : id ≠ dst) :
    c'.DirtyAt id x ↔ c.DirtyAt id x := by
  unfold DirtyAt HasSegment
  rw [h.segments, if_neg hid]

-- ---------------------------------------------------------------------------
-- Coherence
-- ---------------------------------------------------------------------------

/-- The cached bytes of a copied position. -/
theorem cached_of_copies (hcopy : Copies B src dst
      (fun x => (offset ≤ x ∧ x < offset + size) ∧ c.cached src x ≠ none) c c')
    (hx : (offset ≤ x ∧ x < offset + size) ∧ c.cached src x ≠ none)
    (hheld : c'.cached dst x ≠ none) : c'.cached dst x = c.cached src x := by
  have hin := hcopy.inside hx
  obtain ⟨v, hv⟩ := Option.ne_none_iff_exists'.mp hheld
  obtain ⟨w, hw⟩ := Option.ne_none_iff_exists'.mp hx.2
  unfold content at hin
  rw [hv, hw] at hin ⊢
  exact congrArg some hin

/-- **A range copy that saves its range keeps the coherence.** -/
theorem Coherent.rangeCow (hcoh : Coherent B c) (h : Wf B (grain A) c) (h' : Wf B (grain A) c')
    (hsaves : SavesRange B c src dst offset size)
    (hcopy : Copies B src dst
      (fun x => (offset ≤ x ∧ x < offset + size) ∧ c.cached src x ≠ none) c c')
    (hflag : Flagged B dst (fun x => (offset ≤ x ∧ x < offset + size) ∧ c.cached src x ≠ none)
      (fun x => ∃ k t, c.HasSegment src k t ∧ t.HoldsPart offset size x ∧
        WillFlush c src dst t offset size x) c c') : Coherent B c' := by
  rw [coherent_iff h.layout] at hcoh
  rw [coherent_iff h'.layout]
  intro id x v hv
  rw [hflag.disk]
  by_cases hx : id = dst ∧ (offset ≤ x ∧ x < offset + size) ∧ c.cached src x ≠ none
  · obtain ⟨rfl, hx⟩ := hx
    rw [cached_of_copies hcopy hx (hflag.held hx)] at hv
    obtain ⟨k, t, ht, htx, -⟩ := (cached_eq_some (h.layout src)).mp hv
    have hpart : t.HoldsPart offset size x := ⟨htx, hx.1⟩
    rcases hsaves k t ht x hpart with hdisk | hwill
    · rw [hv] at hdisk
      exact Or.inr (Option.some.inj hdisk).symm
    · refine Or.inl ((hflag.inside hx).mpr ⟨k, t, ht, hpart, ?_⟩)
      unfold WillFlush
      rwa [dirtyAt_iff (h.layout src) ht htx]
  · rw [hflag.outside hx]
    -- a byte that was not cached, and is now, was on the storage
    have hcontent := hcopy.outside hx
    unfold content at hcontent
    rw [hv, hflag.disk] at hcontent
    cases hc : c.cached id x with
    | some u =>
      rw [hc] at hcontent
      exact hcoh id x v (hc.trans (congrArg some hcontent.symm))
    | none =>
      rw [hc] at hcontent
      exact Or.inr hcontent.symm

-- ---------------------------------------------------------------------------
-- What a full copy keeps
-- ---------------------------------------------------------------------------

/-- The loop of a full copy does not write where a dirty segment is. -/
theorem fullCowLoop_disk_dirty {sb : StorageBackend σ} (hsb : B.storageBackend = some sb)
    (hne : src ≠ dst) {es : List (Nat × ObjectSegment)} :
    ∀ {cursor : Nat} {cow m : ObjectSegmentMap} {c c' : Container μ σ},
      (es.Pairwise fun a b => a.2.stop ≤ b.2.offset) → (∀ e ∈ es, cursor ≤ e.2.offset) →
      (∀ e ∈ es, 0 < e.2.getSize ∧ e.2.stop < 2 ^ 64) →
      fullCowLoop B src dst es cursor cow c = .ok (m, c') →
      ∀ {e}, e ∈ es → e.2.dirty = true → e.2.Holds x → c'.disk B dst x = c.disk B dst x := by
  induction es with
  | nil =>
    intro cursor cow m c c' _ _ _ _ e he
    exact absurd he List.not_mem_nil
  | cons f rest ih =>
    intro cursor cow m c c' hsorted hcur hseg hloop e he hd hx
    obtain ⟨hnext, hrest⟩ := List.pairwise_cons.mp hsorted
    have hbound := (hseg f (List.mem_cons_self ..)).2
    have hstop : f.2.stop = f.2.offset + f.2.getSize := rfl
    have hseg' := fun g hg => hseg g (List.mem_cons_of_mem _ hg)
    obtain ⟨c₁, c₂, hgap, hflush, hloop⟩ := fullCowLoop_cons hloop
    rw [SizeT.add_eq hbound] at hloop
    obtain ⟨-, hturn⟩ := cowTurn_disk hsb hgap hflush
    have hx1 := hx.1
    rcases List.mem_cons.mp he with rfl | he
    · -- the later turns write past the segment
      obtain ⟨-, hcopy⟩ := fullCowLoop_disk (x := x) hsb hne hrest (fun g hg => hnext g hg) hseg'
        hloop
      rw [hcopy.before hx.2, hturn, if_neg fun hc => by simp [hd] at hc, if_neg (by omega)]
    · have hpast := hnext e he
      rw [ih hrest (fun g hg => hnext g hg) hseg' hloop he hd hx, hturn, if_neg fun hc => ?_,
        if_neg (by omega)]
      have := hc.2.2.2
      omega

/-- **A full copy keeps nothing but what its destination shows.** -/
theorem kept_of_fullCow {g : Nat} {sb : StorageBackend σ} (hsb : B.storageBackend = some sb)
    (h : Wf B g c) {allowExist : Bool}
    (hok : c.makeObjectFullCow B src dst allowExist = .ok (true, c')) :
    c'.disk B dst x = c.disk B dst x ∨ c'.disk B dst x = c'.content B dst x := by
  have hcopied := fullCopied_of_ok hsb h hok
  obtain ⟨hne, -, -, d, d', m, hdisk, -, hdisk', hloop⟩ := fullCowLoop_of_ok hsb h hok
  have hlay := h.layout src
  unfold content
  rw [hcopied.cached_dst]
  cases hc : c.cached src x with
  | none => exact Or.inr rfl
  | some v =>
    obtain ⟨k, t, ht, hx, rfl⟩ := (cached_eq_some hlay).mp hc
    cases hd : t.dirty with
    | false => exact Or.inr ((hcopied.copied x).clean (e := (k, t)) ht hd hx)
    | true =>
      refine Or.inl ?_
      rw [← hdisk', ← hdisk]
      exact fullCowLoop_disk_dirty hsb hne hlay.pairwise (fun e _ => Nat.zero_le e.2.offset)
        (fun e he => ⟨hlay.pos (k := e.1) he, hlay.bound (k := e.1) he⟩) hloop (e := (k, t)) ht hd
        hx

/-- A storage that works lets the loop of a full copy go through. -/
theorem fullCowLoop_returns {sb : StorageBackend σ} (hsb : B.storageBackend = some sb)
    (hrel : sb.Reliable) {es : List (Nat × ObjectSegment)} (hb : ∀ e ∈ es, e.2.stop < 2 ^ 64) :
    ∀ (cursor : Nat) (cow : ObjectSegmentMap) (c : Container μ σ),
      ∃ r, fullCowLoop B src dst es cursor cow c = .ok r := by
  induction es with
  | nil => exact fun _ cow c => ⟨(cow, c), rfl⟩
  | cons e rest ih =>
    intro cursor cow c
    have hstop : e.2.offset + e.2.getSize < 2 ^ 64 := hb e (List.mem_cons_self ..)
    have hgap : ∃ c₁, (if cursor < e.2.offset then
        c.makeCowSegment B src dst cursor (e.2.offset - cursor) else .ok c) = .ok c₁ := by
      split_ifs
      · unfold makeCowSegment
        rw [hsb]
        dsimp only
        rw [if_neg (not_not.mpr (hrel.pread _ _ _ _ _ (by omega))),
          if_neg (not_not.mpr (hrel.pwrite _ _ _ _ _ (by omega)))]
        exact ⟨_, rfl⟩
      · exact ⟨c, rfl⟩
    have hflush : ∀ c₁ : Container μ σ, ∃ c₂, c₁.flushCow B dst e.2 = .ok c₂ := by
      intro c₁
      unfold flushCow
      by_cases hd : e.2.dirty = true
      · rw [if_pos hd]
        exact ⟨c₁, rfl⟩
      · rw [if_neg hd]
        dsimp only
        rw [if_neg (not_not.mpr (pwrite_reliable hsb hrel (by omega)).1)]
        exact ⟨_, rfl⟩
    obtain ⟨c₁, hc₁⟩ := hgap
    obtain ⟨c₂, hc₂⟩ := hflush c₁
    unfold fullCowLoop
    rw [hc₁]
    dsimp only
    rw [hc₂]
    exact ih (fun e he => hb e (List.mem_cons_of_mem _ he)) _ _ c₂

/-- A full copy to another object returns. -/
theorem makeObjectFullCow_returns {g : Nat} {sb : StorageBackend σ}
    (hsb : B.storageBackend = some sb) (hrel : sb.Reliable) (h : Wf B g c) (hne : src ≠ dst)
    (allowExist : Bool) : ∃ r, c.makeObjectFullCow B src dst allowExist = .ok r := by
  -- the object that is deleted is not the source
  obtain ⟨d, hd, hwf, hstay⟩ : ∃ d : Container μ σ,
      d = (if c.hasObject dst then c.deleteObject B dst else c) ∧ Wf B g d ∧
        d.hasObject src = c.hasObject src := by
    refine ⟨_, rfl, ?_⟩
    split_ifs
    · exact ⟨(deleteObject_shrinks h).wf, (deleteObject_shrinks h).exists' hne⟩
    · exact ⟨h, rfl⟩
  have hcreate : (d.create B dst).1 = 0 := by
    unfold create
    rw [hsb]
    exact hrel.create _ _
  have hbound : ∀ e ∈ (d.segments src).entries, e.2.stop < 2 ^ 64 :=
    fun e he => (hwf.layout src).bound (k := e.1) he
  obtain ⟨r, hr⟩ := @fullCowLoop_returns _ _ B src dst _ hsb hrel _ hbound 0 OrderedMap.empty
    (d.create B dst).2
  unfold makeObjectFullCow
  dsimp only
  rw [← hd, hstay]
  split_ifs with hsrc hexist
  · exact ⟨_, rfl⟩
  · exact ⟨_, rfl⟩
  · unfold makeFullCopyOnWrite
    rw [if_pos (Or.inl hcreate), hr]
    exact ⟨_, rfl⟩

-- ---------------------------------------------------------------------------
-- Writes in flight
-- ---------------------------------------------------------------------------

/-- A segment of the destination that holds a position of a shared one has its range. -/
theorem sameRange_of_shares (hsrc : LayoutOk (c.segments src)) (hdst : LayoutOk (c.segments dst))
    {k k' : Nat} {t u : ObjectSegment} (hu : Shares c src dst offset size k u) (hux : u.Holds x)
    (ht : c.HasSegment dst k' t) (htx : t.Holds x) :
    t.offset = u.offset ∧ t.getSize = u.getSize := by
  have hloc : localPartialOverlap (c.segments dst) u = false :=
    Bool.eq_false_iff.mpr fun hno => hu.2.2.2 (Or.inr hno)
  rcases (localPartialOverlap_eq_false hdst (hsrc.pos hu.1)).mp hloc with
    hall | ⟨k₀, v, hv, hoff, hsz⟩
  · have h1 := hall k' t ht
    have h2 := hux.1
    have h3 := htx.2
    omega
  · have hvx : v.Holds x := by
      unfold ObjectSegment.Holds ObjectSegment.stop at hux ⊢
      rwa [hoff, hsz]
    obtain ⟨-, rfl⟩ := hdst.eq_of_shared hv ht hvx.1 hvx.2 htx.1 htx.2
    exact ⟨hoff, hsz⟩

namespace Server

variable {s s' : Server μ σ}

/-- A copy leaves a dirty segment dirty, unless it replaces it by one that it shares. -/
theorem dirty_of_cow {sb : StorageBackend σ} (hsb : B.storageBackend = some sb)
    (hrel : sb.Reliable) (h : Sound B A s) (h' : Sound B A s')
    (hr : alignedEnd A offset size < 2 ^ 64) {allowExist : Bool} {reply : Reply}
    (hok : s.cow B src dst allowExist offset size = .ok (reply, s')) {k : Nat}
    {t t' : ObjectSegment} (ht : s.container.HasSegment id k t) (hd : t.dirty = true)
    (ht' : s'.container.HasSegment id k t') (hsame : SameRange t t')
    (hapart : reply = .ack 0 → (size = 0 → id ≠ dst) ∧
      (size ≠ 0 → id = dst → src = dst ∨
        ∀ k u, Shares s.container src dst offset size k u →
          ¬ (t.offset = u.offset ∧ t.getSize = u.getSize))) : t'.dirty = true := by
  have hpos := (h.wf.layout id).pos ht
  have htx : t.Holds t.offset := ⟨Nat.le_refl _, by unfold ObjectSegment.stop; omega⟩
  have htx' : t'.Holds t.offset := hsame.holds.mpr htx
  have hdirty : s.container.DirtyAt id t.offset := ⟨k, t, ht, htx, hd⟩
  rw [← dirtyAt_iff (h'.wf.layout id) ht' htx']
  obtain ⟨hsize, status, d, hfull, hreply, rfl⟩ | ⟨hsize, status, d, hrange, hreply, rfl⟩ :=
    cow_ok hok
  · cases status with
    | false =>
      rw [makeObjectFullCow_false hfull]
      exact hdirty
    | true =>
      have hcopied := fullCopied_of_ok hsb h.wf hfull
      exact (flagged_of_fullCow hcopied ((hapart hreply).1 hsize)).mpr hdirty
  · cases status with
    | false =>
      rw [makeObjectRangeCow_false hrange]
      exact hdirty
    | true =>
      have hnw := Nat.lt_of_le_of_lt (le_alignedEnd A offset size) hr
      have hflag := flagged_of_rangeCow h.wf h.fixed hnw (Nat.pos_of_ne_zero hsize)
        (readable_of_reliable hsb hrel true) hrange
      by_cases hx : id = dst ∧ (offset ≤ t.offset ∧ t.offset < offset + size) ∧
          s.container.cached src t.offset ≠ none
      · obtain ⟨rfl, hx⟩ := hx
        obtain ⟨k₀, u, hu, hux⟩ := cached_ne_none_iff.mp hx.2
        refine (hflag.inside hx).mpr ⟨k₀, u, hu, ⟨hux, hx.1⟩, ?_⟩
        by_cases hhand : ByHand s.container id u offset size
        · exact Or.inl ⟨hhand, hdirty⟩
        · rcases (hapart hreply).2 hsize rfl with rfl | hno
          · exact Or.inr ⟨hhand, hdirty⟩
          · -- the shared segment would have the range of `t`
            have hx1 := hx.1
            have hux2 := hux.2
            have hux1 := hux.1
            have hshare : Shares s.container src id offset size k₀ u :=
              ⟨hu, by omega, by omega, hhand⟩
            exact absurd (sameRange_of_shares (h.wf.layout src) (h.wf.layout id) hshare hux ht htx)
              (hno k₀ u hshare)
      · exact (hflag.outside hx).mpr hdirty

/-- A copy that is answered with 0 was carried out. -/
theorem carried_of_ack {allowExist : Bool} (h : Sound B A s)
    (hok : s.cow B src dst allowExist offset size = .ok (.ack 0, s')) :
    Carried s.container src dst allowExist := by
  obtain ⟨-, status, d, hfull, hreply, -⟩ | ⟨-, status, d, hrange, hreply, -⟩ := cow_ok hok
  · cases status with
    | false => exact absurd hreply (by decide)
    | true =>
      obtain ⟨-, hhas, hexist, -⟩ := makeObjectFullCow_ok h.wf hfull
      exact ⟨hhas, hexist⟩
  · cases status with
    | false => exact absurd hreply (by decide)
    | true => exact carried_of_rangeCow hrange

/-- **A copy that stays apart keeps the targets of the writes in flight dirty.** -/
theorem aloft_dirty_cow {sb : StorageBackend σ} (hsb : B.storageBackend = some sb)
    (hrel : sb.Reliable) (h : Sound B A s) (h' : Sound B A s')
    (hr : alignedEnd A offset size < 2 ^ 64) {allowExist : Bool} {reply : Reply}
    (hapart : CowApart s src dst allowExist offset size)
    (hok : s.cow B src dst allowExist offset size = .ok (reply, s')) {p : PendingWrite}
    (hp : p ∈ s.pending) (hal : Aloft (fun t => t.dirty = true) s.container p) :
    Aloft (fun t => t.dirty = true) s'.container p := by
  obtain ⟨run, hf, hd⟩ := hal
  have hret := retained_of_cow h hr hapart hok hp hf
  refine ⟨run, hf.of_retained hret, fun w hw t' ht' => ?_⟩
  obtain ⟨t, ht, hsame⟩ := hf.held w hw
  obtain ⟨u, hu, hsame', -⟩ := hret w hw t ht (by rw [hsame.memory]; exact hf.exclusive w hw)
  obtain rfl := hasSegment_unique hu ht'
  refine dirty_of_cow hsb hrel h h' hr hok ht (hd w hw t ht) ht' hsame' fun hreply => ?_
  have hcarried := carried_of_ack h (hreply ▸ hok)
  refine ⟨fun hsize hobj => ?_, fun hsize hobj => ?_⟩
  · exact (hapart hcarried.1 hcarried.2 p hp (Or.inr hobj)).1 hsize
  · refine (hapart hcarried.1 hcarried.2 p hp (Or.inr hobj)).2.imp_right fun hshare k v hv heq => ?_
    -- it would be reached by the write
    refine hshare k v hv ?_
    have hmeets := hf.meets hw ht
    unfold WriteRequest.Meets ObjectSegment.stop at hmeets ⊢
    rwa [← heq.1, ← heq.2]

end Server

end IoCatcher
