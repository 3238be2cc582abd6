import IoCatcher.Model.Gaps
import IoCatcher.Safety.CowReport
import IoCatcher.Safety.Provenance
import IoCatcher.Safety.Snapshot

/-!
# IO Catcher — what a request leaves in the cache

For every request, what each cached position shows afterwards, in terms of the
cache, the storage and the request before it — as long as the position is not
one that was published without being filled.

* `Explained`         — a position is as it was, or new and filled from the
  storage;
* `eagerWrite_explained`, `rdmaWrite_explained` — the positions a write neither
  covers nor leaves unfilled;
* `Grows.grown`, `read_reply` — a read, and its answer in terms of what it left;
* `makeObjectRangeCow_cached`, `cached_of_fullCow` — copies.
-/

namespace IoCatcher

open Container

variable {μ σ : Type} {B : Backends μ σ} {c c' c'' d : Container μ σ} {id src dst : ObjectId}
  {A key offset size x : Nat} {orig : ObjectSegment}

-- ---------------------------------------------------------------------------
-- Growth
-- ---------------------------------------------------------------------------

/-- The position shows what it did, or is new and shows the stored byte. -/
def Explained (B : Backends μ σ) (c c' : Container μ σ) (id : ObjectId) (x : Nat) : Prop :=
  c'.cached id x = c.cached id x ∨
    c.cached id x = none ∧ ∀ v, c'.cached id x = some v → v = c.disk B id x

/-- The same, if there is a storage to fill new positions from. -/
def Grown (B : Backends μ σ) (c c' : Container μ σ) (id : ObjectId) (x : Nat) : Prop :=
  c'.cached id x = c.cached id x ∨
    c.cached id x = none ∧ (B.storageBackend ≠ none →
      ∀ v, c'.cached id x = some v → v = c.disk B id x)

/-- A new position of a server without storage. -/
def Bare (B : Backends μ σ) (c c' : Container μ σ) (id : ObjectId) (x : Nat) : Prop :=
  B.storageBackend = none ∧ c.cached id x = none ∧ c'.cached id x ≠ none

theorem Grown.explained (h : Grown B c c' id x) (hbare : ¬ Bare B c c' id x) :
    Explained B c c' id x := by
  rcases h with hsame | ⟨hnone, hload⟩
  · exact Or.inl hsame
  · by_cases hsb : B.storageBackend = none
    · refine Or.inl ?_
      rw [hnone]
      by_contra hnew
      exact hbare ⟨hsb, hnone, hnew⟩
    · exact Or.inr ⟨hnone, hload hsb⟩

theorem Grown.trans (h : Grown B c c' id x) (h' : Grown B c' c'' id x)
    (hdisk : c'.disk B = c.disk B) : Grown B c c'' id x := by
  unfold Grown at h' ⊢
  rw [hdisk] at h'
  rcases h with hsame | ⟨hnone, hload⟩
  · rwa [hsame] at h'
  · rcases h' with hsame' | ⟨-, hload'⟩
    · rw [hsame']
      exact Or.inr ⟨hnone, hload⟩
    · exact Or.inr ⟨hnone, hload'⟩

/-- What `getBuffers` leaves outside of a write. -/
theorem Container.Grows.grown {g : Nat} (h : Grows B g (GapLoaded B offset size true false) c c' id)
    (hlay : LayoutOk (c.segments id)) : Grown B c c' id x := by
  cases hc : c.cached id x with
  | some v => exact Or.inl ((h.cached hlay hc).trans hc.symm)
  | none =>
    refine Or.inr ⟨hc, fun hsb v hv => ?_⟩
    rcases h.cached_cases hlay hv with hold | ⟨-, k, t, -, -, hload⟩
    · exact absurd (hc.symm.trans hold) (by simp)
    · obtain ⟨sb, hsome⟩ := Option.ne_none_iff_exists'.mp hsb
      exact hload ⟨rfl, ⟨sb, hsome, Or.inl rfl⟩, by simp⟩

-- ---------------------------------------------------------------------------
-- Range copies
-- ---------------------------------------------------------------------------

/-- The positions `P` of the destination show what the source showed; the others have
grown, and no other object and no stored byte changed. -/
structure CacheCopies (B : Backends μ σ) (src dst : ObjectId) (P : Nat → Prop)
    (c c' : Container μ σ) : Prop where
  source  : ∀ {x}, P x → c.cached src x ≠ none
  inside  : ∀ {x}, P x → c'.cached dst x = c.cached src x
  outside : ∀ {x}, ¬ P x → Grown B c c' dst x
  others  : ∀ {id x}, id ≠ dst → c'.cached id x = c.cached id x
  disk    : c'.disk B = c.disk B

theorem CacheCopies.refl (B : Backends μ σ) (src dst : ObjectId) (c : Container μ σ) :
    CacheCopies B src dst (fun _ => False) c c :=
  ⟨fun h => h.elim, fun h => h.elim, fun _ => Or.inl rfl, fun _ => rfl, rfl⟩

/-- Copies of different positions add up. -/
theorem CacheCopies.trans {P Q R : Nat → Prop} (h : CacheCopies B src dst P c c')
    (h' : CacheCopies B src dst Q c' c'') (hdisj : ∀ {x}, Q x → ¬ P x)
    (hsrc : ∀ {x}, Q x → c.cached src x ≠ none) (hR : ∀ {x}, R x ↔ P x ∨ Q x) :
    CacheCopies B src dst R c c'' := by
  refine ⟨fun {x} hx => ?_, fun {x} hx => ?_, fun {x} hx => ?_,
    fun hne => (h'.others hne).trans (h.others hne), h'.disk.trans h.disk⟩
  · exact (hR.mp hx).elim h.source hsrc
  · by_cases hq : Q x
    · -- the source still shows it, also when it is the destination
      rw [h'.inside hq]
      by_cases hself : src = dst
      · rcases h.outside (hdisj hq) with hsame | ⟨hnone, -⟩
        · rwa [← hself] at hsame
        · exact absurd (hself ▸ hnone) (hsrc hq)
      · exact h.others hself
    · have hp := (hR.mp hx).resolve_right hq
      rcases h'.outside hq with hsame | ⟨hnone, -⟩
      · rw [hsame, h.inside hp]
      · rw [h.inside hp] at hnone
        exact absurd hnone (h.source hp)
  · rw [hR, not_or] at hx
    exact (h.outside hx.1).trans (h'.outside hx.2) h.disk

/-- A shared segment. -/
theorem cacheCopies_of_shared (h : Wf B (grain A) c) (hs : c.HasSegment src key orig)
    (hloc : localPartialOverlap (c.segments dst) orig = false) :
    CacheCopies B src dst orig.Holds c (c.storeSegment B dst key orig) := by
  refine ⟨fun {x} hx => ?_, (cached_of_shared h hs hloc).1, fun hx => Or.inl ?_, fun hne => ?_,
    disk_of_storage (storage_storeSegment ..)⟩
  · rw [cached_of_segment (h.layout src) hs hx]
    simp
  · exact (cached_of_shared h hs hloc).2 fun hin => hx hin.2
  · exact (cached_of_shared h hs hloc).2 fun hin => hne hin.1

/-- The turn on the segment `orig` is made: it needed no buffer, or got its buffers. -/
def Made (B : Backends μ σ) (c : Container μ σ) (dst : ObjectId) (key : Nat)
    (orig : ObjectSegment) (offset size : Nat) : Prop :=
  ¬ Short (CopyTurn.reads ⟨c, key, orig⟩ B dst offset size)

/-- A turn is made unless `getBuffers` fails. -/
theorem made_iff : Made B c dst key orig offset size ↔
    (ByHand c dst orig offset size → (c.getBuffers B dst
      (SizeT.add orig.offset (innerRange orig offset size).1) (innerRange orig offset size).2 .write
      true false).1 ≠ none) := by
  unfold Made CopyTurn.reads
  dsimp only
  by_cases hhand : ByHand c dst orig offset size
  · rw [if_pos (by simpa [ByHand] using hhand), Ne, getBuffers_eq_none_iff]
    simp [hhand]
  · rw [if_neg (by simpa [ByHand] using hhand)]
    exact ⟨fun _ hno => absurd hno hhand, fun _ => not_short_nil⟩

theorem made_of_shared (hhand : ¬ ByHand c dst orig offset size) :
    Made B c dst key orig offset size := made_iff.mpr fun hno => absurd hno hhand

/-- A turn by hand is made when `getBuffers` succeeds on its part. -/
theorem made_iff_of_byHand (hs : c.HasSegment src key orig) (hlay : LayoutOk (c.segments src))
    (hnw : offset + size < 2 ^ 64) (h1 : orig.offset < offset + size) (h2 : offset < orig.stop)
    (hhand : ByHand c dst orig offset size) :
    Made B c dst key orig offset size ↔ (c.getBuffers B dst (partLo orig offset)
      (partHi orig offset size - partLo orig offset) .write true false).1 ≠ none := by
  obtain ⟨habs, hinner, hend⟩ := innerRange_spec (hlay.bound hs) hnw h1 h2
  have hlen : (innerRange orig offset size).2 = partHi orig offset size - partLo orig offset := by
    unfold partLo partHi
    omega
  have hlo : max orig.offset offset = partLo orig offset := rfl
  rw [made_iff, habs, hlen, hlo]
  exact ⟨fun hm => hm hhand, fun hm _ => hm⟩

section Step

variable (h : Wf B (grain A) c) (hfix : FixedAlignement A c) (hs : c.HasSegment src key orig)
  (hnw : offset + size < 2 ^ 64) (h1 : orig.offset < offset + size) (h2 : offset < orig.stop)
  (hsize : 0 < size)

include h hfix hs hnw h1 h2 hsize

/-- **One turn**, whatever the storage answers. -/
theorem cacheCopies_of_step (hfit : ByHand c dst orig offset size →
      Fits A c dst (partLo orig offset) (partHi orig offset size)) :
    CacheCopies B src dst
      (fun x => Made B c dst key orig offset size ∧ orig.HoldsPart offset size x) c
      (c.rangeCopyOnWriteSegment B src dst key orig offset size) := by
  have hsource : ∀ {x}, orig.HoldsPart offset size x → c.cached src x ≠ none := fun {x} hx => by
    rw [cached_of_segment (h.layout src) hs hx.1]
    simp
  by_cases hhand : ByHand c dst orig offset size
  · obtain ⟨d, run, hcopy, hrun⟩ := buffered_of_step h hfix hs hnw h1 h2 hsize hhand
    have hmade := made_iff_of_byHand (B := B) hs (h.layout src) hnw h1 h2 hhand
    have hgrown : ∀ {x}, Grown B c d dst x := hcopy.grows.grown (h.layout dst)
    have hdisk : (c.rangeCopyOnWriteSegment B src dst key orig offset size).disk B = c.disk B := by
      rw [hcopy.result]
      exact hcopy.grows.disk
    refine ⟨fun hx => hsource hx.2, fun hx => ?_, fun {x} hx => ?_, fun {id x} hne => ?_, hdisk⟩
    · rw [if_neg (hmade.mp hx.1)] at hrun
      exact (hcopy.cached h hs hrun (hfit hhand)).1 (holdsPart_iff_part.mp hx.2)
    · split_ifs at hrun with hnone
      · -- no buffer: the destination has grown, and that is all
        rw [hcopy.result, hrun]
        exact hgrown
      · have hout : (c.rangeCopyOnWriteSegment B src dst key orig offset size).cached dst x =
            d.cached dst x := (hcopy.cached h hs hrun (hfit hhand)).2 fun hin =>
          hx ⟨hmade.mpr hnone, holdsPart_iff_part.mpr hin.2⟩
        unfold Grown
        rw [hout]
        exact hgrown
    · split_ifs at hrun with hnone
      · rw [hcopy.result, hrun]
        exact hcopy.grows.cached_other hne
      · rw [(hcopy.cached h hs hrun (hfit hhand)).2 fun hin => hne hin.1]
        exact hcopy.grows.cached_other hne
  · obtain ⟨heq, hloc⟩ := shared_of_step (B := B) (h.layout src) hs hhand
    have hall : (fun x => Made B c dst key orig offset size ∧ orig.HoldsPart offset size x) =
        orig.Holds := by
      funext x
      rw [holdsPart_iff_holds ((h.layout src).bound hs) hnw hhand, eq_iff_iff]
      exact and_iff_right (made_of_shared hhand)
    rw [heq, hall]
    exact cacheCopies_of_shared h hs hloc

end Step

/-- The positions that the turns which are made copy. -/
def CopiedIn (B : Backends μ σ) (turns : List (CopyTurn μ σ)) (dst : ObjectId)
    (offset size x : Nat) : Prop :=
  ∃ t ∈ turns, Made B t.before dst t.key t.orig offset size ∧ t.orig.HoldsPart offset size x

/-- The turns of the loop, one after the other. -/
theorem copyTurns_of_turn {e : Nat × ObjectSegment} {ts : List (Nat × ObjectSegment)}
    {u : ObjectSegment} (hlay : LayoutOk (c.segments src)) (hnw : offset + size < 2 ^ 64)
    (ht : Turn B A src dst offset size e ts c u c') :
    copyTurns B src dst offset size ((e :: ts).map Prod.fst) c =
      ⟨c, e.1, u⟩ :: copyTurns B src dst offset size (ts.map Prod.fst) c' := by
  have hov : u.overlap offset size = true := by
    rw [hlay.overlap_iff ht.source, SizeT.add_eq hnw]
    exact ⟨ht.below, ht.after⟩
  rw [List.map_cons, copyTurns, OrderedMap.find?_eq_some.mpr ht.source]
  dsimp only
  rw [if_pos hov, ← ht.result]

theorem copyTurns_of_past (hlay : LayoutOk (c.segments src)) (hnw : offset + size < 2 ^ 64)
    {ts : List (Nat × ObjectSegment)} (hv : Visits c src offset ts)
    (hpast : ∀ v ∈ ts, offset + size ≤ v.2.offset) :
    copyTurns B src dst offset size (ts.map Prod.fst) c = [] := by
  cases ts with
  | nil => rfl
  | cons e ts =>
    obtain ⟨u, hu, ho, -⟩ := hv.held e (List.mem_cons_self ..)
    have hle := hpast e (List.mem_cons_self ..)
    have hov : ¬ u.overlap offset size = true := by
      rw [hlay.overlap_iff hu, SizeT.add_eq hnw]
      omega
    rw [List.map_cons, copyTurns, OrderedMap.find?_eq_some.mpr hu]
    dsimp only
    rw [if_neg hov]

/-- **The loop**: the turns that are made copy their parts, the others nothing. -/
theorem cacheCopies_of_loop (dst : ObjectId) (hnw : offset + size < 2 ^ 64) (hsize : 0 < size)
    {ts : List (Nat × ObjectSegment)} :
    ∀ {c : Container μ σ}, Wf B (grain A) c → FixedAlignement A c → Visits c src offset ts →
      AllFit A c dst offset size ts →
      (∀ x, CopiedIn B (copyTurns B src dst offset size (ts.map Prod.fst) c) dst offset size x →
        ∃ e ∈ ts, e.2.HoldsPart offset size x) ∧
      CacheCopies B src dst
        (CopiedIn B (copyTurns B src dst offset size (ts.map Prod.fst) c) dst offset size) c
        (rangeCopyLoop B src dst offset size (ts.map Prod.fst) c) := by
  have hnone : CopiedIn B ([] : List (CopyTurn μ σ)) dst offset size = fun _ => False :=
    funext fun x => propext ⟨fun ⟨t, ht, _⟩ => absurd ht List.not_mem_nil, False.elim⟩
  induction ts with
  | nil =>
    intro c _ _ _ _
    rw [List.map_nil, copyTurns, hnone]
    exact ⟨fun x hx => hx.elim, .refl B src dst c⟩
  | cons e ts ih =>
    intro c h hfix hv hfit
    rcases turn_or_end (B := B) h hfix hnw hsize hv with ⟨u, c₁, ht, hloop⟩ | ⟨hpast, hloop⟩
    · obtain ⟨hfirst, hrest⟩ := (ht.allFit_iff (h.layout dst)).mp hfit
      obtain ⟨hparts, hcopy⟩ := ih ht.wf ht.fixed ht.visits hrest
      obtain ⟨-, -, -, hpart⟩ := part_congr offset size ht.range.1 ht.range.2
      have hstep := cacheCopies_of_step (B := B) h hfix ht.source hnw ht.below ht.after hsize hfirst
      rw [← ht.result] at hstep
      have hsplit : ∀ {x}, CopiedIn B
          (copyTurns B src dst offset size ((e :: ts).map Prod.fst) c) dst offset size x ↔
          (Made B c dst e.1 u offset size ∧ u.HoldsPart offset size x) ∨
            CopiedIn B (copyTurns B src dst offset size (ts.map Prod.fst) c₁) dst offset size x := by
        intro x
        unfold CopiedIn
        rw [copyTurns_of_turn (h.layout src) hnw ht]
        simp only [List.mem_cons, exists_eq_or_imp]
      rw [hloop]
      refine ⟨fun x hx => ?_, hstep.trans hcopy (fun hx hno => ?_) (fun {x} hx => ?_) hsplit⟩
      · rcases hsplit.mp hx with ⟨-, hx⟩ | hx
        · rw [hpart] at hx
          exact ⟨e, List.mem_cons_self .., hx⟩
        · obtain ⟨v, hvm, hx⟩ := hparts x hx
          exact ⟨v, List.mem_cons_of_mem _ hvm, hx⟩
      · obtain ⟨v, hvm, hx⟩ := hparts _ hx
        exact ht.not_holdsPart hvm hx hno.2
      · -- the segment was there before the turn
        obtain ⟨v, hvm, hx⟩ := hparts x hx
        obtain ⟨w, hw, ho, hz⟩ := hv.held v (List.mem_cons_of_mem _ hvm)
        obtain ⟨-, -, -, hvpart⟩ := part_congr offset size ho hz
        rw [← hvpart] at hx
        rw [cached_of_segment (h.layout src) hw hx.1]
        simp
    · rw [copyTurns_of_past (h.layout src) hnw hv hpast, hnone, hloop]
      exact ⟨fun x hx => hx.elim, .refl B src dst c⟩

/-- The answer of a full copy says whether it was carried out. -/
theorem carried_of_fullCow {allowExist r : Bool}
    (hok : c.makeObjectFullCow B src dst allowExist = .ok (r, c')) :
    r = true ↔ Carried c src dst allowExist := by
  unfold Container.makeObjectFullCow at hok
  unfold Carried
  by_cases hsrc : c.hasObject src = false
  · rw [if_pos hsrc] at hok
    obtain ⟨rfl, -⟩ := Prod.mk.inj (Except.ok.inj hok)
    simp [hsrc]
  by_cases hdst : c.hasObject dst = true ∧ allowExist = false
  · rw [if_neg hsrc, if_pos hdst] at hok
    obtain ⟨rfl, -⟩ := Prod.mk.inj (Except.ok.inj hok)
    simp [hdst.1, hdst.2]
  · rw [if_neg hsrc, if_neg hdst] at hok
    dsimp only at hok
    generalize (if c.hasObject dst = true then c.deleteObject B dst else c) = c₁ at hok
    split_ifs at hok
    split at hok
    · exact absurd hok (by simp)
    · obtain ⟨rfl, -⟩ := Prod.mk.inj (Except.ok.inj hok)
      refine iff_of_true rfl ⟨by simpa using hsrc, fun hex => ?_⟩
      simpa [hex] using hdst

/-- A call that is refused makes no turn. -/
theorem rangeCowTurns_refused {allowExist : Bool} (h : ¬ Carried c src dst allowExist) :
    rangeCowTurns B c src dst allowExist offset size = [] := by
  unfold rangeCowTurns
  split_ifs with h1 h2
  · rfl
  · rfl
  · refine absurd ⟨by simpa using h1, fun hdst => ?_⟩ h
    simpa [hdst] using h2

/-- The turns of a call that is carried out are those of one loop. -/
theorem rangeCowTurns_eq {allowExist : Bool} (h : Wf B (grain A) c)
    (hnw : offset + size < 2 ^ 64) (hdone : Carried c src dst allowExist) :
    rangeCowTurns B c src dst allowExist offset size =
      copyTurns B src dst offset size
        ((((c.getObject dst).segments src).lowerBound offset).map Prod.fst) (c.getObject dst) := by
  have hlay := (h.getObject dst).layout src
  have hv := visits_lowerBound hlay offset
  unfold rangeCowTurns
  rw [if_neg (by simp [hdone.1]), if_neg fun hno => by simp [hdone.2 hno.1] at hno]
  cases hlb : ((c.getObject dst).segments src).lowerBound offset with
  | nil => rfl
  | cons e rest =>
    dsimp only
    split_ifs with hov
    · rfl
    · -- the first segment starts past the range, and so do the others
      rw [hlb] at hv
      have he : (c.getObject dst).HasSegment src e.1 e.2 :=
        (OrderedMap.mem_lowerBound.mp (hlb ▸ List.mem_cons_self ..)).1
      rw [hlay.overlap_iff he, SizeT.add_eq hnw] at hov
      have hafter := hv.after e (List.mem_cons_self ..)
      have hstop : e.2.stop = e.2.offset + e.2.getSize := rfl
      have hpast : ∀ v ∈ e :: rest, offset + size ≤ v.2.offset := by
        intro v hvm
        rcases List.mem_cons.mp hvm with rfl | hvm
        · omega
        · have := (List.pairwise_cons.mp hv.sorted).1 v hvm
          omega
      rw [copyTurns_of_past hlay hnw hv hpast, copyTurns_of_past hlay hnw (hv.tail (.refl _ src 0))
        fun v hvm => hpast v (List.mem_cons_of_mem _ hvm)]

/-- **What a range copy leaves in the cache**, when all parts fit. -/
theorem makeObjectRangeCow_cached {allowExist : Bool} (h : Wf B (grain A) c)
    (hfix : FixedAlignement A c) (hnw : offset + size < 2 ^ 64) (hsize : 0 < size)
    (hfit : PartsFit A c src dst offset size)
    (hok : c.makeObjectRangeCow B src dst allowExist offset size = (true, c')) :
    CacheCopies B src dst
      (CopiedIn B (rangeCowTurns B c src dst allowExist offset size) dst offset size) c c' := by
  have hw := h.getObject dst
  have hall : AllFit A (c.getObject dst) dst offset size
      (((c.getObject dst).segments src).lowerBound offset) := by
    rw [allFit_getObject, segments_getObject]
    intro e he hlt
    obtain ⟨ht, hgt⟩ := (mem_lowerBound_iff (h.layout src)).mp he
    exact hfit e.1 e.2 ht hlt hgt
  obtain ⟨-, hcopy⟩ := cacheCopies_of_loop dst hnw hsize hw
    (hfix.of_header (sameHeader_getObject c dst)) (visits_lowerBound (hw.layout src) offset) hall
  rw [← rangeCopyOnWrite_eq (hw.layout src) hnw, ← makeObjectRangeCow_true hok,
    ← rangeCowTurns_eq h hnw (carried_of_rangeCow hok)] at hcopy
  obtain ⟨hsource, hin, hout, hother, hdisk⟩ := hcopy
  unfold Grown at hout
  simp only [cached_getObject, disk_getObject] at hsource hin hout hother hdisk
  exact ⟨hsource, hin, hout, hother, hdisk⟩

-- ---------------------------------------------------------------------------
-- Full copies
-- ---------------------------------------------------------------------------

/-- **What a full copy leaves in the cache**, and that it writes to the storage of the
destination only. -/
theorem cached_of_fullCow {g : Nat} {allowExist : Bool} (h : Wf B g c)
    (hok : c.makeObjectFullCow B src dst allowExist = .ok (true, c')) :
    (∀ id x, c'.cached id x = c.cached (if id = dst then src else id) x) ∧
      ∀ id, id ≠ dst → c'.disk B id = c.disk B id := by
  constructor
  · intro id x
    obtain ⟨-, -, -, d, st, hd, -, -, -, rfl⟩ := makeObjectFullCow_ok h hok
    have hseg : (({ d with storage := st } : Container μ σ).setObject dst
        ⟨c.segments src, (c.object src).alignement, .new⟩).segments id =
          c.segments (if id = dst then src else id) := by
      rw [segments, object_setObject]
      split_ifs with hid
      · rfl
      · show (d.object id).segmentMap = _
        rw [hd.others hid]
        rfl
    unfold cached
    rw [hseg]
    show _ = Option.map (fun e : Nat × ObjectSegment => c.memory.bytes e.2.memory.buffer _) _
    rw [← hd.bytes]
    rfl
  · intro id hid
    cases hsb : B.storageBackend with
    | none =>
      unfold Container.disk
      rw [hsb]
    | some sb => exact (fullCopied_of_ok hsb h hok).disk hid

namespace Server

variable {s s' : Server μ σ} {w : WriteRequest} {reply : Reply}

-- ---------------------------------------------------------------------------
-- Writes
-- ---------------------------------------------------------------------------

/-- The write puts the position into the map without filling it. -/
def InGap (B : Backends μ σ) (c : Container μ σ) (w : WriteRequest) (id : ObjectId) (x : Nat) :
    Prop :=
  w.object = id ∧ ∃ gap ∈ (c.getObject id).unfilledByWrite B id w.offset w.size,
    gap.1 ≤ x ∧ x < gap.1 + gap.2

theorem explained_of_write {g : Nat} {Loaded : Nat → Nat → Prop} (h : Wf B g c)
    (hd : d = ((c.getObject w.object).getBuffers B w.object w.offset w.size .write true true).2)
    (hgrow : Grows B g Loaded c d w.object) (hgap : ¬ InGap B c w id x) : Explained B c d id x := by
  by_cases hid : id = w.object
  · subst hid
    have hlay := h.layout w.object
    cases hc : c.cached w.object x with
    | some v => exact Or.inl ((hgrow.cached hlay hc).trans hc.symm)
    | none =>
      refine Or.inr ⟨hc, fun v hv => ?_⟩
      have hw := h.getObject w.object
      have hlay' := hgrow.layout
      rw [hd] at hv hlay'
      refine cached_of_filled hw.memoryOk (hw.layout w.object) hlay' hv
        ((cached_getObject _).trans hc) fun gap hin hx => ?_
      exact hgap ⟨rfl, gap, hin, hx⟩
  · exact Or.inl (hgrow.cached_other hid)

/-- An eager write stores its data into what `getBuffers` left. -/
theorem eagerWrite_stores (h : Sound B A s) (hr : alignedEnd A w.offset w.size < 2 ^ 64)
    (hok : s.eagerWrite B w = .ok (reply, s')) {c₁ : Container μ σ}
    (hc₁ : c₁ = ((s.container.getObject w.object).getBuffers B w.object w.offset w.size .write true
      true).2) :
    ∃ run m, Grows B (grain A) (GapLoaded B w.offset w.size true true) s.container c₁ w.object ∧
      Owned c₁ w.object run ∧ Stored c₁.memory m w.data w.offset w.size run ∧
      s'.container = ({ c₁ with memory := m } : Container μ σ).markDirty w.object w.offset w.size ∧
      s'.pending = s.pending ∧ s'.started = s.started ++ [w] ∧
      s'.consistencyCheck = s.consistencyCheck := by
  obtain ⟨hgrow, run, hcov, -, hex, heq⟩ := eagerWrite_eq h.wf (h.rangeOk hr) hc₁
  rw [heq] at hok
  split_ifs at hok with hreach
  obtain ⟨-, rfl⟩ := Prod.mk.inj (Except.ok.inj hok)
  refine ⟨run, _, hgrow, .of_held hcov.held hex, stored_storeRun (hcov.distinct hex) ?_, rfl, rfl,
    rfl, rfl⟩
  exact fun v hv => ⟨(hreach v hv).le, hgrow.memoryOk.chunk (hcov.held v hv)⟩

/-- An eager write, where it neither writes nor leaves a gap unfilled. -/
theorem eagerWrite_explained (h : Sound B A s) (hr : alignedEnd A w.offset w.size < 2 ^ 64)
    (hok : s.eagerWrite B w = .ok (reply, s')) (hcov : ¬ w.Covers id x)
    (hgap : ¬ InGap B s.container w id x) : Explained B s.container s'.container id x := by
  obtain ⟨run, m, hgrow, howned, hst, hcont, -⟩ := eagerWrite_stores h hr hok rfl
  have hexp := explained_of_write h.wf rfl hgrow hgap
  unfold Explained at hexp ⊢
  rw [hcont, cached_markDirty, howned.cached_outside hst fun hin =>
    hcov ⟨hin.1.symm, hin.2.1, hin.2.2.1⟩]
  exact hexp

theorem rdmaWrite_explained (h : Sound B A s) (hr : alignedEnd A w.offset w.size < 2 ^ 64)
    (hgap : ¬ InGap B s.container w id x) :
    Explained B s.container (s.rdmaWrite B w).2.container id x := by
  obtain ⟨hgrow, -, -⟩ := getBuffers_getObject h.wf (h.rangeOk hr) rfl
  have hexp := explained_of_write h.wf rfl hgrow hgap
  unfold Explained at hexp ⊢
  rw [container_rdmaWrite, cached_markDirty]
  exact hexp

-- ---------------------------------------------------------------------------
-- Reads
-- ---------------------------------------------------------------------------

/-- **A read answers what is cached when it is over.** -/
theorem read_reply (h : Sound B A s) (hr : alignedEnd A offset size < 2 ^ 64) (hpos : 0 < size)
    (hans : Answerable A s id offset size) {uninitialised : Nat → LibfabricBuffer}
    (hok : s.read B id offset size uninitialised = .ok (reply, s')) :
    reply = if ((s.container.getObject id).getBuffers B id offset size .read true false).1 = none
      then .ack (-1)
      else readAnswer size ((List.range size).map fun i =>
        (s'.container.cached id (offset + i)).getD 0) := by
  obtain ⟨-, hfail⟩ := read_eq hok
  split_ifs with hnone
  · exact hfail.mpr hnone
  obtain ⟨c₁, hgrow, rfl, -⟩ := read_ok h.wf (h.rangeOk hr) hok
  have hbytes : ∀ {k t x}, c₁.HasSegment id k t → t.Holds x →
      c₁.memory.bytes t.memory.buffer (x - t.offset) = (c₁.cached id x).getD 0 := by
    intro k t x ht hx
    rw [cached_of_segment hgrow.layout ht hx, Option.getD_some]
  exact (read_answers h hr hpos hans hok hbytes).resolve_left fun hack => hnone (hfail.mp hack)

end Server

end IoCatcher
