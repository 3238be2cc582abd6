import IoCatcher.Model.Accounts
import IoCatcher.Safety.CowReport

/-!
# IO Catcher — a load that fails

`getBuffers` loads the gaps of a request one after the other, and gives up at the first
one whose read fails or is short. By then it may have unshared segments and put earlier
gaps into the map. The chunk of the gap that failed is given back, and what stays is
sound: `Intact` says that no content changed, that the map has gained the gaps in front
of the failed one and nothing else, that no chunk is lost, and that the same request
succeeds when the storage answers again.

* `loadedUpTo_of_getBuffers` — which gap failed, and what is in the map by then;
* `shows_of_full`            — the repeated request;
* `failedLoad_intact`        — every failed call, from every reachable state.
-/

namespace IoCatcher

namespace Container

variable {μ σ : Type} {B : Backends μ σ} {c c' c₁ c₂ : Container μ σ} {id : ObjectId}

-- ---------------------------------------------------------------------------
-- What is left of a failed call
-- ---------------------------------------------------------------------------

/-- What the caller of `getBuffers` sees: the result, and the list, which a failed call
clears. -/
def result : Option (List ObjectSegmentDescr) → Bool × List ObjectSegmentDescr
  | none => (false, [])
  | some segments => (true, segments)

/-- The load of the gap `[f, h)` of the range `[b, e)` failed. By then the object has all
gaps in front of it, each loaded in full. -/
structure LoadedUpTo (B : Backends μ σ) (id : ObjectId) (b e f h : Nat) (c c' : Container μ σ) :
    Prop where
  bounds : b ≤ f ∧ f < h ∧ h ≤ e
  start  : f = b ∨ ∃ k s, c.HasSegment id k s ∧ b < s.stop ∧ s.stop = f
  stop   : h = e ∨ ∃ k s, c.HasSegment id k s ∧ s.offset = h
  gap    : ∀ {k s}, c'.HasSegment id k s → s.stop ≤ f ∨ h ≤ s.offset
  cached : ∀ x, b ≤ x → x < f → c'.cached id x ≠ none
  added  : ∀ {k s}, c'.HasSegment id k s → (∀ t, ¬ c.HasSegment id k t) →
    (b ≤ s.offset ∧ s.stop ≤ f) ∧
      (s.offset = b ∨ ∃ k t, c.HasSegment id k t ∧ b < t.stop ∧ t.stop = s.offset) ∧
      (∃ k t, c.HasSegment id k t ∧ t.offset = s.stop) ∧ s.dirty = false ∧
      ∀ i < s.getSize, c'.memory.bytes s.memory.buffer i = c.disk B id (s.offset + i)

/-- The descriptors show the bytes `bytes` of `[base, base + size)`. -/
structure Shows (m : Memory μ) (l : List ObjectSegmentDescr) (bytes : Nat → UInt8)
    (base size : Nat) : Prop where
  covers : ∀ x, base ≤ x → x < base + size → ∃ d ∈ l, d.offset ≤ x ∧ x < d.offset + d.size
  read   : ∀ d ∈ l, ∀ x, d.offset ≤ x → x < d.offset + d.size →
    m.read d.ptr (x - d.offset) = bytes x

/-- What a failed call that turned `c` into `c'` leaves: contents, the segments of the
other objects, those of the object itself with their bytes and flags (a shared one may
have its own buffer now), the gaps loaded before the failure, and exactly the chunks of
segments. On a storage with the same bytes that reads in full, the request succeeds. -/
structure Intact (B : Backends μ σ) (id : ObjectId) (base size : Nat) (mode : ObjectAccessMode)
    (load : Bool) (c c' : Container μ σ) : Prop where
  content : ∀ id' x, c'.content B id' x = c.content B id' x
  others  : ∀ id', id' ≠ id → c'.segments id' = c.segments id'
  kept    : ∀ {k s}, c.HasSegment id k s → ∃ s', c'.HasSegment id k s' ∧ SameData c c' s s' ∧
    (c.isCow s = false → s' = s)
  loaded  : ∃ f h, LoadedUpTo B id (alignRange (c.object id).alignement base size).1
    (SizeT.add (alignRange (c.object id).alignement base size).1
      (alignRange (c.object id).alignement base size).2) f h c c'
  chunks  : ∀ a, B.memoryBackend.chunk c'.memory.backend a ≠ none ↔ c'.IsBuffer a
  again   : alignedEnd (c.object id).alignement base size < 2 ^ 64 →
    ∀ (sb : StorageBackend σ) (st : σ), sb.disk st = c.disk B →
      ¬ Short (({ c' with storage := st } : Container μ σ).bufferReads
        ⟨B.memoryBackend, some sb⟩ id base size mode load false) →
      ∃ l c₂, ({ c' with storage := st } : Container μ σ).getBuffers
          ⟨B.memoryBackend, some sb⟩ id base size mode load false = (some l, c₂) ∧
        Shows c₂.memory l (c.content B id) base size

-- ---------------------------------------------------------------------------
-- Which load fails
-- ---------------------------------------------------------------------------

/-- Only a read fails, and only one of a storage backend. -/
theorem loadGap_failed {origBase origSize lastOffset size : Nat} {load : Bool}
    (hsize : size < 2 ^ 64)
    (h : c.loadGap B id origBase origSize load false lastOffset size = (none, c')) :
    load = true ∧ ∃ sb, B.storageBackend = some sb := by
  have hnone : (c.loadGap B id origBase origSize load false lastOffset size).1 = none := by rw [h]
  obtain ⟨-, r, hr, hfull⟩ := (loadGap_eq_none_iff ..).mp hnone
  unfold gapReads loadReads at hr
  cases load with
  | false => exact absurd hr (by simp)
  | true =>
    refine ⟨rfl, ?_⟩
    cases hsb : B.storageBackend with
    | some sb => exact ⟨sb, rfl⟩
    | none =>
      -- without a storage every read is full
      obtain rfl := List.mem_singleton.mp hr
      unfold pread at hfull
      rw [hsb] at hfull
      exact absurd (SizeT.ofInt_natCast hsize) hfull

/-- A load that fails leaves every map as it was. -/
theorem segments_of_failed (hmem : MemoryOk B c) {origBase origSize lastOffset size : Nat}
    {load : Bool} (h : c.loadGap B id origBase origSize load false lastOffset size = (none, c'))
    (id' : ObjectId) : c'.segments id' = c.segments id' := by
  unfold loadGap at h
  have hcases := @loadSegment_cases _ _ B c id hmem lastOffset size
    (if false && isFullyOverlapped lastOffset size origBase origSize then false else load) false
  rcases hcases with ⟨-, -, -, m, st, hc, -⟩ | ⟨s, hsome, -⟩
  · rw [h] at hc
    obtain rfl : c' = { c with memory := m, storage := st } := hc
    rfl
  · rw [h] at hsome
    exact absurd hsome (by simp)

/-- The second loop stops at the first gap it cannot load. -/
theorem completeSegments_failed (id : ObjectId) (origBase origSize : Nat) (load : Bool)
    (es : List ObjectSegmentDescr) : ∀ {lo : Nat} {c c' : Container μ σ},
      completeSegments B id origBase origSize load false es lo c = (none, c') →
      ∃ pre it post tmp last c₂, es = pre ++ it :: post ∧
        completeSegments B id origBase origSize load false pre lo c = (some (tmp, last), c₂) ∧
        last < it.offset ∧
        c₂.loadGap B id origBase origSize load false last (it.offset - last) = (none, c') := by
  induction es with
  | nil => exact fun h => absurd h (by simp [completeSegments])
  | cons it rest ih =>
    intro lo c c' h
    unfold completeSegments at h
    by_cases hgap : lo < it.offset
    · rw [if_pos hgap] at h
      rcases hload : c.loadGap B id origBase origSize load false lo (it.offset - lo) with
        ⟨_ | descr, c₁⟩
      · rw [hload] at h
        obtain ⟨-, rfl⟩ := Prod.mk.inj h
        exact ⟨[], it, rest, [], lo, c, rfl, rfl, hgap, hload⟩
      · -- this gap is loaded: the failure is further on
        rw [hload] at h
        dsimp only at h
        have hfail : completeSegments B id origBase origSize load false rest
            (SizeT.add it.offset it.size) c₁ = (none, c') := by
          rcases hr : completeSegments B id origBase origSize load false rest
            (SizeT.add it.offset it.size) c₁ with ⟨_ | r, c₂⟩ <;> rw [hr] at h
          · exact h
          · exact absurd (Prod.mk.inj h).1 (by simp)
        obtain ⟨pre, it', post, tmp, last, c₂, rfl, hpre, hlt, hlast⟩ := ih hfail
        refine ⟨it :: pre, it', post, descr :: tmp, last, c₂, rfl, ?_, hlt, hlast⟩
        unfold completeSegments
        rw [if_pos hgap, hload]
        dsimp only
        rw [hpre]
    · rw [if_neg hgap] at h
      obtain ⟨pre, it', post, tmp, last, c₂, rfl, hpre, hlt, hlast⟩ := ih h
      refine ⟨it :: pre, it', post, tmp, last, c₂, rfl, ?_, hlt, hlast⟩
      unfold completeSegments
      rw [if_neg hgap]
      exact hpre

section LoadedUpTo

variable {b e start f h base size : Nat} {load : Bool} {mode : ObjectAccessMode}
  {taken pre post rest : List (Nat × ObjectSegment)} {tmp : List ObjectSegmentDescr}

theorem Follows.append {x : Nat} (hfol : Follows start pre x) (post : List (Nat × ObjectSegment)) :
    Follows start (pre ++ post) x :=
  hfol.imp_right fun ⟨t, ht, hx⟩ => ⟨t, List.mem_append_left _ ht, hx⟩

/-- A collected segment starts where it did before. -/
theorem Collected.old_offset {Loaded : Nat → Nat → Prop}
    (hcol : Collected B 1 Loaded id b e mode c c₁ taken rest) {t : Nat × ObjectSegment}
    (ht : t ∈ taken) : ∃ s, c.HasSegment id t.1 s ∧ s.offset = t.2.offset := by
  have hheld := hasSegment_of_lowerBound hcol.lowerBound (List.mem_append_left _ ht)
  obtain ⟨s, hs⟩ := hcol.keys t.1 t.2 hheld
  obtain ⟨s', hs', hsame⟩ := hcol.grows.kept hs
  obtain rfl := hasSegment_unique hs' hheld
  exact ⟨s, hs, hsame.offset.symm⟩

/-- The gaps between the first collected segments. -/
theorem Collected.around {Loaded : Nat → Nat → Prop}
    (hcol : Collected B 1 Loaded id b e mode c c₁ (pre ++ post) rest) (base size : Nat)
    (load : Bool) : ∃ start ≤ b, Completed B id 1 base size load false b start [] pre (post ++ rest)
      c₁ (completeSegments B id base size load false (pre.map fun e => e.2.getSegmentDescr) b c₁) :=
  completeSegments_around hcol.grows.memoryOk hcol.grows.layout
    (by rw [hcol.lowerBound, List.append_assoc]) fun _ => Nat.one_dvd _

/-- The gaps up to `f` are in the map, and the load of `[f, h)` fails. -/
theorem loadedUpTo_of_woven
    (hcol : Collected B 1 (GapLoaded B base size load false) id b e mode c c₁ (pre ++ post) rest)
    (hstart : start ≤ b)
    (hdone : Completed B id 1 base size load false b start [] pre (post ++ rest) c₁
      (some (tmp, f), c₂))
    (hafter : ∀ w ∈ post ++ rest, h ≤ w.2.offset) (hlt : f < h) (hle : h ≤ e) (he : e < 2 ^ 64)
    (hstop : h = e ∨ ∃ k s, c.HasSegment id k s ∧ s.offset = h)
    (hfail : c₂.loadGap B id base size load false f (h - f) = (none, c')) :
    LoadedUpTo B id b e f h c c' := by
  obtain ⟨woven, hw⟩ := hdone.woven rfl
  have hgrow₂ := hcol.grows.trans hdone.grows
  have hin : AddsInside c c₂ id b e := (hcol.keys.addsInside b e).trans hdone.grows
    (hdone.inside fun t ht => (hcol.meets t (List.mem_append_left _ ht)).le)
  have hbound : ∀ w ∈ woven, w.2.stop ≤ f := fun w hmem => (hw.tiles.mem_bounds hmem).2.2
  have hgap : ∀ k t, c₂.HasSegment id k t → t.stop ≤ f ∨ h ≤ t.offset := fun k t ht =>
    hgrow₂.layout.gap_of_lowerBound hw.iteration hw.le_last hbound hafter ht
  have hseg := segments_of_failed hgrow₂.memoryOk hfail
  have hsame : ∀ {k t}, c'.HasSegment id k t ↔ c₂.HasSegment id k t := by
    intro k t
    unfold HasSegment
    rw [hseg]
  obtain ⟨hgrow₃, -⟩ := loadGap_spec (A := 1) hgrow₂.memoryOk hgrow₂.layout hlt (by omega) hgap
    (fun _ => ⟨Nat.one_dvd _, Nat.one_dvd _⟩) hfail.symm
  have hgrow := hgrow₂.trans hgrow₃
  obtain ⟨hl, sb, hsb⟩ := loadGap_failed (by omega) hfail
  refine ⟨⟨hw.le_last, hlt, hle⟩, hcol.follows hstart hw.le_last (hw.ends.append post), hstop,
    fun ht => hgap _ _ (hsame.mp ht), fun x hx hxf hnone => ?_, fun {k s} hs hnew => ?_⟩
  · obtain ⟨w, hmem, hx1, hx2⟩ := hw.tiles.exists_mem (hstart.trans hx) hxf
    have hheld : c'.HasSegment id w.1 w.2 :=
      hsame.mpr (hasSegment_of_lowerBound hw.iteration (List.mem_append_left _ hmem))
    exact cached_eq_none.mp hnone w.1 w.2 hheld ⟨hx1, hx2⟩
  · have hs₂ := hsame.mp hs
    have hkey := hgrow₂.layout.key hs₂
    have hpos := hgrow₂.layout.pos hs₂
    have hsz : s.stop = s.offset + s.getSize := rfl
    obtain ⟨hclean, hbytes⟩ := hgrow.added hs hnew
    obtain ⟨hb, -⟩ := (hin k s hs₂).resolve_left fun ⟨t, ht⟩ => hnew t ht
    -- it is one of the gaps in front of the failed one
    have hmem : (k, s) ∈ woven ++ (post ++ rest) :=
      hw.iteration ▸ OrderedMap.mem_lowerBound.mpr ⟨hs₂, by dsimp only; omega⟩
    have hold : (k, s) ∉ pre ++ post ++ rest := by
      intro hmem'
      obtain ⟨t, ht⟩ := hcol.keys k s (hasSegment_of_lowerBound hcol.lowerBound hmem')
      exact hnew t ht
    rw [List.append_assoc] at hold
    have hwoven := (List.mem_append.mp hmem).resolve_right fun h' =>
      hold (List.mem_append_right _ h')
    obtain ⟨-, -, hfol, t, ht, hend⟩ := (hw.new _ hwoven).resolve_left fun h' =>
      hold (List.mem_append_left _ h')
    obtain ⟨t₀, ht₀, hoff⟩ := hcol.old_offset (List.mem_append_left _ ht)
    refine ⟨⟨hb, hbound _ hwoven⟩, hcol.follows hstart hb (hfol.append post),
      ⟨t.1, t₀, ht₀, hoff.trans hend.symm⟩, hclean, hbytes ?_⟩
    exact ⟨hl, ⟨sb, hsb, Or.inl rfl⟩, fun hcov => absurd hcov.1 (by decide)⟩

end LoadedUpTo

/-- **Where a failed call stopped**, and what it has put into the map. -/
theorem loadedUpTo_of_getBuffers {base size : Nat} {mode : ObjectAccessMode} {load : Bool}
    (hmem : MemoryOk B c) (hlay : LayoutOk (c.segments id)) {b e : Nat}
    (hb : b = (alignRange (c.object id).alignement base size).1)
    (he : e = SizeT.add b (alignRange (c.object id).alignement base size).2)
    (hfail : c.getBuffers B id base size mode load false = (none, c')) :
    load = true ∧ (∃ sb, B.storageBackend = some sb) ∧ ∃ f h, LoadedUpTo B id b e f h c c' := by
  have helt : e < 2 ^ 64 := he ▸ SizeT.add_lt ..
  unfold getBuffers at hfail
  dsimp only at hfail
  rw [← hb, ← he] at hfail
  obtain ⟨found, hfound⟩ : ∃ found, found = extractSegments B id b
    (alignRange (c.object id).alignement base size).2 mode ((c.segments id).lowerBound b) c :=
    ⟨_, rfl⟩
  rw [← hfound] at hfail
  obtain ⟨taken, rest, hlist, hcol⟩ := extractSegments_collects (A := 1)
    (GapLoaded B base size load false) hmem hlay he hfound
  rcases hq : completeSegments B id base size load false found.1 b found.2 with ⟨_ | tmp, c₂⟩
  · -- a gap between two collected segments
    rw [hq] at hfail
    obtain ⟨-, rfl⟩ := Prod.mk.inj hfail
    obtain ⟨pre, it, post, tmp, f, c₃, hsplit, hpre, hlt, hlast⟩ :=
      completeSegments_failed id base size load found.1 hq
    rw [hlist] at hsplit
    obtain ⟨pre, tail, rfl, rfl, htail⟩ := List.map_eq_append_iff.mp hsplit
    obtain ⟨t, post, rfl, rfl, rfl⟩ := List.map_eq_cons_iff.mp htail
    obtain ⟨start, hstart, hdone⟩ := hcol.around base size load
    rw [hpre] at hdone
    have ht : t ∈ pre ++ t :: post := by simp
    have hlb : (found.2.segments id).lowerBound b = (pre ++ [t]) ++ (post ++ rest) := by
      simpa using hcol.lowerBound
    have hafter : ∀ w ∈ t :: post ++ rest, t.2.offset ≤ w.2.offset := by
      intro w hw
      rcases List.mem_cons.mp hw with rfl | hw
      · exact le_rfl
      · have := hcol.grows.layout.stop_le_offset hlb (e := t) (by simp) hw
        exact (Nat.le_add_right ..).trans this
    obtain ⟨hl, hsb⟩ := loadGap_failed (Nat.lt_of_le_of_lt (Nat.sub_le ..)
      ((hcol.meets t ht).trans helt)) hlast
    exact ⟨hl, hsb, f, t.2.offset, loadedUpTo_of_woven hcol hstart hdone hafter hlt
      (hcol.meets t ht).le helt (Or.inr ⟨t.1, hcol.old_offset ht⟩) hlast⟩
  · -- the gap behind the collected segments
    rw [hq] at hfail
    dsimp only at hfail
    split_ifs at hfail with htail
    · rcases hg : c₂.loadGap B id base size load false tmp.2 (e - tmp.2) with ⟨_ | descr, c₃⟩
      · rw [hg] at hfail
        obtain ⟨-, rfl⟩ := Prod.mk.inj hfail
        rw [← List.append_nil taken] at hcol
        obtain ⟨start, hstart, hdone⟩ := hcol.around base size load
        rw [← hlist, hq] at hdone
        obtain ⟨hl, hsb⟩ := loadGap_failed (Nat.lt_of_le_of_lt (Nat.sub_le ..) helt) hg
        exact ⟨hl, hsb, tmp.2, e, loadedUpTo_of_woven hcol hstart hdone hcol.beyond htail le_rfl
          helt (Or.inl rfl) hg⟩
      · rw [hg] at hfail
        exact absurd (Prod.mk.inj hfail).1 (by simp)
    · exact absurd (Prod.mk.inj hfail).1 (by simp)

-- ---------------------------------------------------------------------------
-- The repeated request
-- ---------------------------------------------------------------------------

/-- **A call whose reads are full succeeds**, and its buffers show the content. -/
theorem shows_of_full {sb : StorageBackend σ} {base size : Nat} {mode : ObjectAccessMode}
    (hsb : B.storageBackend = some sb) (hmem : MemoryOk B c) (hlay : LayoutOk (c.segments id))
    (hr : alignedEnd (c.object id).alignement base size < 2 ^ 64)
    (hfull : ¬ Short (c.bufferReads B id base size mode true false)) :
    ∃ l c₁, c.getBuffers B id base size mode true false = (some l, c₁) ∧
      Shows c₁.memory l (c.content B id) base size := by
  rcases hget : c.getBuffers B id base size mode true false with ⟨_ | l, c₁⟩
  · exact absurd ((getBuffers_eq_none_iff ..).mp (by rw [hget])) hfull
  obtain ⟨hgrow, -, -, hsome⟩ := getBuffers_spec (A := 1) hmem hlay rfl rfl
    ⟨Nat.one_dvd _, Nat.one_dvd _⟩ hget.symm
  obtain ⟨run, rfl, hcov, -⟩ := hsome l rfl
  obtain ⟨start, last, hstart, hlast, htiles⟩ := hcov.tiles
  have hbase := alignRange_fst_le (c.object id).alignement base size
  rw [end_alignRange hr] at hlast
  have hend := le_alignedEnd (c.object id).alignement base size
  refine ⟨_, c₁, rfl, fun x hx hxe => ?_, fun d hd x hx hxe => ?_⟩
  · obtain ⟨w, hw, h1, h2⟩ := htiles.exists_mem (show start ≤ x by omega) (by omega)
    exact ⟨w.2.getSegmentDescr, List.mem_map_of_mem hw, h1, h2⟩
  · obtain ⟨w, hw, rfl⟩ := List.mem_map.mp hd
    have hkept : c₁.content B id x = c.content B id x :=
      hgrow.content hlay fun _ _ => ⟨rfl, ⟨sb, hsb, Or.inl rfl⟩, fun h => absurd h.1 (by decide)⟩
    rw [← hkept, content_of_segment hgrow.layout (hcov.held w hw) ⟨hx, hxe⟩]
    unfold Memory.read
    simp [ObjectSegment.getSegmentDescr]

-- ---------------------------------------------------------------------------
-- What a failed call leaves
-- ---------------------------------------------------------------------------

/-- **A failed call** on a well-formed container whose chunks are accounted for. -/
theorem intact_of_getBuffers (h : Accounted B c) (hwf : Wf B 1 c) {base size : Nat}
    {mode : ObjectAccessMode} {load : Bool}
    (hfail : c.getBuffers B id base size mode load false = (none, c')) :
    Intact B id base size mode load c c' := by
  have hlay := hwf.layout id
  obtain ⟨hl, ⟨sb, hsb⟩, hloaded⟩ := loadedUpTo_of_getBuffers hwf.memoryOk hlay rfl rfl hfail
  obtain ⟨hgrow, -⟩ := getBuffers_spec (A := 1) hwf.memoryOk hlay rfl rfl
    ⟨Nat.one_dvd _, Nat.one_dvd _⟩ hfail.symm
  have hcontent : ∀ id' x, c'.content B id' x = c.content B id' x := fun id' x =>
    hgrow.content hlay fun _ _ => ⟨hl, ⟨sb, hsb, Or.inl rfl⟩, fun h => absurd h.1 (by decide)⟩
  have hacc : Accounted B c' := by
    have := h.getBuffers id base size mode load false
    rwa [hfail] at this
  refine ⟨hcontent, fun id' hne => hgrow.others hne, fun {k s} hs => ?_, hloaded, fun a => ?_,
    fun hr sb' st hdisk hfull => ?_⟩
  · obtain ⟨s', hs', hsame⟩ := hgrow.kept hs
    refine ⟨s', hs', hsame, fun hcow => ?_⟩
    exact hasSegment_unique hs' (hgrow.exclusive hs (exclusive_of_not_cow hs hcow)).1
  · constructor
    · intro hne
      obtain ⟨n, hn⟩ := Option.ne_none_iff_exists'.mp hne
      exact hacc.buffer hn
    · rintro ⟨id', k, s, hs, rfl⟩
      rw [hacc.memoryOk.chunk hs]
      simp
  · subst hl
    obtain ⟨d, hd⟩ : ∃ d : Container μ σ, d = { c' with storage := st } := ⟨_, rfl⟩
    have hmem : MemoryOk ⟨B.memoryBackend, some sb'⟩ d := by
      rw [hd]
      exact ⟨hacc.memoryOk.valid, hacc.memoryOk.chunk⟩
    have hobj : (d.object id).alignement = (c.object id).alignement := by
      rw [hd]
      exact hgrow.header.alignement id
    rw [← hd] at hfull ⊢
    obtain ⟨l, c₂, hget, hshows⟩ := shows_of_full rfl hmem
      (by rw [hd]; exact hgrow.layout) (by rwa [hobj]) hfull
    refine ⟨l, c₂, hget, ?_⟩
    have hsame : d.content ⟨B.memoryBackend, some sb'⟩ id = c.content B id := by
      funext x
      rw [← hcontent id x, hd]
      unfold Container.content
      rw [hgrow.disk, ← hdisk]
      rfl
    rwa [hsame] at hshows

end Container

namespace Server

open Container

variable {μ σ : Type} {B : Backends μ σ} {s s₀ : Server μ σ}

/-- **A failed load leaves the object intact**, in every reachable state, for every
request that is not a write, every range and all results of the storage reads. -/
theorem failedLoad_intact {A : Nat} {check : Bool} (hinit : Initial B A check s₀)
    (hnone : ∀ a, B.memoryBackend.chunk s₀.container.memory.backend a = none)
    (hrun : Run (Step B) (fun _ _ => True) s₀ s) {id : ObjectId} {base size : Nat}
    {mode : ObjectAccessMode} {load : Bool} {r : Option (List ObjectSegmentDescr) × Container μ σ}
    (hget : s.container.getBuffers B id base size mode load false = r)
    (hfail : (result r.1).1 = false) :
    (result r.1).2 = [] ∧ Intact B id base size mode load s.container r.2 := by
  obtain ⟨r1, c'⟩ := r
  cases r1 with
  | some l => exact absurd hfail (by simp [result])
  | none =>
    exact ⟨rfl, intact_of_getBuffers (accounted_run hinit hnone hrun) (wf_run hinit hrun) hget⟩

/-- A storage that cannot be read past its first 8 bytes: its read. -/
def damagedPread (s : ObjectId → Bytes) (id : ObjectId) (buffer : Bytes) (size offset : Nat) :
    PreadResult (ObjectId → Bytes) :=
  if offset < 8 then byteStore.pread s id buffer size offset else ⟨0, buffer, s⟩

theorem damagedPread_state (s : ObjectId → Bytes) (id : ObjectId) (buffer : Bytes)
    (size offset : Nat) : (damagedPread s id buffer size offset).state = s := by
  unfold damagedPread
  split_ifs <;> rfl

theorem damagedPread_full {s : ObjectId → Bytes} {id : ObjectId} {buffer : Bytes}
    {size offset : Nat} (h : SizeT.ofInt (damagedPread s id buffer size offset).status = size) :
    ∀ i < size, (damagedPread s id buffer size offset).buffer i = s id (offset + i) := by
  intro i hi
  unfold damagedPread at h ⊢
  split_ifs at h ⊢
  · rfl
  · obtain rfl : 0 = size := h
    exact absurd hi (Nat.not_lt_zero i)

/-- The storage. -/
def damagedStorage : StorageBackend (ObjectId → Bytes) :=
  { byteStore with
    pread := damagedPread
    disk_pread := damagedPread_state _ _ _ _ _
    pread_full := damagedPread_full
    disk_create := rfl }

/-- The server on it. -/
def damagedBackends : Backends Malloc (ObjectId → Bytes) := ⟨Malloc.backend, some damagedStorage⟩

/-- Object 1, with 4 bytes written at offset 4. -/
def fourWritten : Server Malloc (ObjectId → Bytes) :=
  (localServer 0 0).after damagedBackends [.eagerWrite ⟨⟨1, 1⟩, 4, 4, fun _ => 7⟩]

/-- A read of 12 bytes: the gap in front of the segment is loaded, the one behind it is
not. -/
theorem lastGap_intact :
    (result (fourWritten.container.getBuffers damagedBackends ⟨1, 1⟩ 0 12 .read true
      false).1).2 = [] ∧
    ((fourWritten.container.getBuffers damagedBackends ⟨1, 1⟩ 0 12 .read true
      false).2.segments ⟨1, 1⟩).entries.map (fun e => (e.2.offset, e.2.getSize, e.2.dirty)) =
        [(0, 4, false), (4, 4, true)] ∧
    Intact damagedBackends ⟨1, 1⟩ 0 12 .read true fourWritten.container
      (fourWritten.container.getBuffers damagedBackends ⟨1, 1⟩ 0 12 .read true false).2 := by
  have hinit : Initial damagedBackends 0 false (localServer 0 0) :=
    ⟨_, _, Memory.valid_fresh 0, rfl, rfl⟩
  have hrun : Run (Step damagedBackends) (fun _ _ => True) (localServer 0 0) fourWritten :=
    run_after .start
  obtain ⟨hempty, hintact⟩ := failedLoad_intact hinit (fun _ => rfl) hrun
    (rfl : fourWritten.container.getBuffers damagedBackends ⟨1, 1⟩ 0 12 .read true false = _)
    (by decide)
  exact ⟨hempty, by decide, hintact⟩

end Server

end IoCatcher
