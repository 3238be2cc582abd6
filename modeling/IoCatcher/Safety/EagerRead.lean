import IoCatcher.Model.Requests
import IoCatcher.Safety.Isolation

/-!
# IO Catcher — the payload of an eager read

An eager read answers with one fragment per segment of the range. The loop of
`objEagerPushToClient` that fills the fragment array never advances its index,
so with several segments only the last slice is stored, in entry 0, and the
other entries are sent as the array was allocated.

* `payload_exact_iff`  — the payload is right, whatever the array contained,
  exactly when a single segment backs the range;
* `eagerRead_exact_iff` — when that is so, in terms of the segments cached
  before the request;
* `eagerRead_two_segments` — a read across two segments.
-/

namespace IoCatcher

open Container

variable {μ σ : Type} {B : Backends μ σ} {c c₁ : Container μ σ} {id : ObjectId}
  {b e offset size : Nat} {run : List (Nat × ObjectSegment)}

/-! ## The fragment array -/

/-- Whatever the array contained, the loop stores into entry 0 only, and what
ends up there does not depend on the array. -/
theorem fillFragments_eq {segments : List ObjectSegmentDescr} :
    ∀ (cur : Nat), segments ≠ [] → ∃ r : Except Fault LibfabricBuffer, ∀ buffers,
      fillFragments offset size 0 segments cur buffers =
        r.map fun f j => if j = 0 then f else buffers j := by
  induction segments with
  | nil => exact fun _ h => absurd rfl h
  | cons d rest ih =>
    intro cur _
    cases hslice : eagerSlice offset size cur d with
    | error f => exact ⟨.error f, fun buffers => by rw [fillFragments, hslice]; rfl⟩
    | ok p =>
      by_cases hrest : rest = []
      · subst hrest
        exact ⟨.ok ⟨d.ptr.add p.1, p.2⟩, fun buffers => by rw [fillFragments, hslice]; rfl⟩
      · -- the next segments overwrite the entry
        obtain ⟨r, hr⟩ := ih (SizeT.add cur p.2) hrest
        refine ⟨r, fun buffers => ?_⟩
        rw [fillFragments, hslice]
        dsimp only
        rw [hr]
        congr 1
        funext f j
        split_ifs <;> rfl

@[simp] theorem length_fragmentBytes (m : Memory μ) (fragments : List LibfabricBuffer) :
    (fragmentBytes m fragments).length = (fragments.map (·.size)).sum := by
  simp [fragmentBytes, List.length_flatMap]

/-- With two segments or more the length of the payload depends on what the
array contained. -/
theorem payload_depends {m : Memory μ} {segments : List ObjectSegmentDescr}
    (h : 2 ≤ segments.length) (r : EagerResponse) :
    ¬ ∀ uninitialised, objEagerPushToClient m uninitialised offset size segments = .ok r := by
  intro hall
  obtain ⟨n, hn⟩ : ∃ n, segments.length = n + 2 := ⟨segments.length - 2, by omega⟩
  have hne : segments ≠ [] := by
    rintro rfl
    simp at h
  obtain ⟨f, hf⟩ := fillFragments_eq 0 hne
  -- an array of fragments of `k` bytes
  have hlen : ∀ k : Nat, ∃ first : LibfabricBuffer, f = .ok first ∧
      r.data.length = first.size + (n + 1) * k := by
    intro k
    have hk := hall fun _ => ⟨⟨0, 0⟩, k⟩
    rw [objEagerPushToClient, hf] at hk
    cases f with
    | error f => exact absurd hk (by simp [Except.map])
    | ok first =>
      refine ⟨first, rfl, ?_⟩
      rw [← Except.ok.inj hk, sendResponse, length_fragmentBytes, hn, List.range_succ_eq_map]
      simp [Function.comp_def]
  obtain ⟨f0, hf0, h0⟩ := hlen 0
  obtain ⟨f1, hf1, h1⟩ := hlen 1
  obtain rfl : f0 = f1 := Except.ok.inj (hf0.symm.trans hf1)
  omega

/-- With one segment the payload is its part inside the range. -/
theorem payload_single (m : Memory μ) (uninitialised : Nat → LibfabricBuffer)
    {w : Nat × ObjectSegment} (hpos : 0 < w.2.getSize) (hb : w.2.stop < 2 ^ 64)
    (hoff : w.2.offset ≤ offset) :
    objEagerPushToClient m uninitialised offset size [w.2.getSegmentDescr] =
      if offset < w.2.stop then
        .ok ⟨min w.2.stop (offset + size) - offset,
          (List.range (min w.2.stop (offset + size) - offset)).map fun i =>
            m.bytes w.2.memory.buffer (offset - w.2.offset + i)⟩
      else .error .assertion := by
  have hslice : eagerSlice offset size 0 w.2.getSegmentDescr =
      if offset < w.2.stop then .ok (offset - w.2.offset, min w.2.stop (offset + size) - offset)
      else .error .assertion := by
    have := eagerSlice_eq (d := w.2.getSegmentDescr) offset size hpos hb
    rw [ObjectSegment.offset_getSegmentDescr, ObjectSegment.size_getSegmentDescr,
      show min (w.2.offset - offset) size = 0 by omega, Nat.max_eq_right hoff] at this
    exact this
  rw [objEagerPushToClient, fillFragments, hslice]
  split_ifs with hlt
  · have hadd : SizeT.add 0 (min w.2.stop (offset + size) - offset) =
        min w.2.stop (offset + size) - offset := by
      rw [SizeT.add_eq] <;> omega
    simp only [fillFragments, sendResponse, fragmentBytes, List.length_singleton, List.range_one,
      List.map_cons, List.map_nil, List.foldl_cons, List.foldl_nil, List.flatMap_cons,
      List.flatMap_nil, List.append_nil, if_true, hadd]
    congr 2
    refine List.map_congr_left fun i _ => ?_
    unfold Memory.read Ptr.add
    rw [ObjectSegment.ptr_getSegmentDescr]
    congr 1
    dsimp only
    omega
  · rfl

/-- **One segment.** The payload is the right one, whatever the array
contained, exactly when a single segment holds the whole range and its bytes
are the right ones. -/
theorem payload_exact_iff {m : Memory μ} {start last : Nat} (hpos : 0 < size)
    (hstart : start ≤ offset)
    (htiles : Tiles (fun w => w.2.offset) (fun w => w.2.getSize) start run last)
    (hb : ∀ w ∈ run, w.2.stop < 2 ^ 64) (bytes : Nat → UInt8) :
    (∀ uninitialised, objEagerPushToClient m uninitialised offset size
        (run.map fun w => w.2.getSegmentDescr) = .ok ⟨size, (List.range size).map bytes⟩) ↔
      ∃ w, run = [w] ∧ offset + size ≤ w.2.stop ∧
        ∀ i < size, bytes i = m.bytes w.2.memory.buffer (offset - w.2.offset + i) := by
  constructor
  · intro hall
    match run, htiles, hb, hall with
    | [], _, _, hall =>
      have := Except.ok.inj (hall fun _ => ⟨⟨0, 0⟩, 0⟩)
      have h0 : (0 : Nat) = size := congrArg EagerResponse.msgDataSize this
      omega
    | [w], htiles, hb, hall =>
      have hoff : w.2.offset ≤ offset := htiles.1.trans_le hstart
      have h := hall fun _ => ⟨⟨0, 0⟩, 0⟩
      rw [List.map_singleton, payload_single m _ htiles.2.1 (hb w (List.mem_singleton_self _)) hoff]
        at h
      split_ifs at h with hlt
      have hsize := congrArg EagerResponse.msgDataSize (Except.ok.inj h)
      have hdata := congrArg EagerResponse.data (Except.ok.inj h)
      dsimp only at hsize hdata
      rw [hsize] at hdata
      refine ⟨w, rfl, by omega, fun i hi => ?_⟩
      exact (List.map_inj_left.mp hdata i (List.mem_range.mpr hi)).symm
    | w :: w' :: rest, _, _, hall => exact absurd hall (payload_depends (by simp) _)
  · rintro ⟨w, rfl, hend, hbytes⟩ uninitialised
    have hoff : w.2.offset ≤ offset := htiles.1.trans_le hstart
    rw [List.map_singleton, payload_single m _ htiles.2.1 (hb w (List.mem_singleton_self _)) hoff,
      if_pos (by omega), show min w.2.stop (offset + size) - offset = size by omega]
    congr 2
    exact List.map_congr_left fun i hi => (hbytes i (List.mem_range.mp hi)).symm

/-! ## Which ranges one segment backs -/

/-- The range `[b, e)` that a request is rounded to is one cached segment's,
which holds the request, or a single gap that holds the request. -/
def OneSegment (c : Container μ σ) (id : ObjectId) (b e offset size : Nat) : Prop :=
  (∃ k s, c.HasSegment id k s ∧ s.offset ≤ b ∧ s.offset < e ∧ e ≤ s.stop ∧ offset + size ≤ s.stop) ∨
    (b < e ∧ offset + size ≤ e ∧ ∀ k s, c.HasSegment id k s → s.stop ≤ b ∨ e ≤ s.offset)

/-- `getBuffers` returns one segment that holds the request exactly then. -/
theorem oneSegment_iff {Loaded : Nat → Nat → Prop} {g : Nat} (hpos : 0 < size) (hb : b ≤ offset)
    (hgrow : Grows B g Loaded c c₁ id) (hcov : Covers c₁ id b e run)
    (hweave : Weaves c id b e run) :
    (∃ w, run = [w] ∧ offset + size ≤ w.2.stop) ↔ OneSegment c id b e offset size := by
  obtain ⟨start, last, hstart, hlast, htiles⟩ := hcov.tiles
  -- a segment the object had is still there, with its range
  have hkept : ∀ {w k s}, w ∈ run → w.1 = k → c.HasSegment id k s →
      w.2.offset = s.offset ∧ w.2.stop = s.stop := by
    rintro w _ s hw rfl hs
    obtain ⟨s', hs', hsame⟩ := hgrow.kept hs
    obtain rfl := hasSegment_unique hs' (hcov.held w hw)
    unfold ObjectSegment.stop
    exact ⟨hsame.offset, by rw [hsame.offset, hsame.size]⟩
  constructor
  · rintro ⟨w, rfl, hend⟩
    have hw := List.mem_singleton_self w
    obtain ⟨rfl, hwpos, rfl⟩ := htiles
    have hlast' : e ≤ w.2.stop := hlast
    have hstart' : w.2.offset ≤ b := hstart
    by_cases hold : ∃ s, c.HasSegment id w.1 s
    · obtain ⟨s, hs⟩ := hold
      obtain ⟨h1, h2⟩ := hkept hw rfl hs
      have hmeets := hcov.meets w hw
      refine Or.inl ⟨w.1, s, hs, ?_⟩
      omega
    · obtain ⟨h1, h2, -⟩ := (hweave.new w hw).resolve_left hold
      have h3 : w.2.stop = w.2.offset + w.2.getSize := rfl
      refine Or.inr ⟨by omega, by omega, fun k s hs => ?_⟩
      by_contra hno
      obtain ⟨w', hw', rfl⟩ := hweave.old hs (by omega) (by omega)
      rw [List.mem_singleton.mp hw'] at hs
      exact hold ⟨s, hs⟩
  · rintro (⟨k, s, hs, h1, h2, h3, h4⟩ | ⟨hlt, hend, hgap⟩)
    · obtain ⟨w, hw, hk⟩ := hweave.old hs h2 (by omega)
      obtain ⟨ho, hst⟩ := hkept hw hk hs
      refine ⟨w, htiles.eq_singleton hw fun v hv => ?_, by omega⟩
      -- both hold the first position of the range that `v` holds
      have hmeets := hcov.meets v hv
      have hvpos : v.2.stop = v.2.offset + v.2.getSize := rfl
      have hpos' : 0 < v.2.getSize := (htiles.mem_bounds hv).2.1
      obtain ⟨hkey, hseg⟩ := hgrow.layout.eq_of_shared (x := max b v.2.offset) (hcov.held v hv)
        (hcov.held w hw) (by omega) (by omega) (by omega) (by omega)
      exact Prod.ext hkey hseg
    · obtain ⟨w, hw, hwb, -⟩ := htiles.exists_mem hstart (hlt.trans_le hlast)
      have hall : ∀ v ∈ run, v.2.offset = b := by
        intro v hv
        have hmeets := hcov.meets v hv
        rcases hweave.new v hv with ⟨s, hs⟩ | ⟨-, -, heq | ⟨k, s, hs, hbs, hst⟩⟩
        · obtain ⟨ho, hst⟩ := hkept hv rfl hs
          have := hgap _ s hs
          omega
        · exact heq
        · have h1 := hgap k s hs
          have h2 : s.stop = s.offset + s.getSize := rfl
          omega
      have hsingle := htiles.eq_singleton hw fun v hv =>
        htiles.eq_of_off_eq hv hw ((hall v hv).trans (hall w hw).symm)
      subst hsingle
      obtain ⟨-, -, rfl⟩ := htiles
      exact ⟨w, rfl, hend.trans hlast⟩

/-- The payload is the content of the range, whatever the fragment array
contained when it was allocated. -/
def ExactPayload (B : Backends μ σ) (c c₁ : Container μ σ) (id : ObjectId) (offset size : Nat)
    (segments : List ObjectSegmentDescr) : Prop :=
  ∀ uninitialised, objEagerPushToClient c₁.memory uninitialised offset size segments =
    .ok ⟨size, (List.range size).map fun i => c.content B id (offset + i)⟩

/-- The segments of a read give the exact payload when there is one of them. -/
theorem exactPayload_iff {g : Nat} {sb : StorageBackend σ} (hsb : B.storageBackend = some sb)
    (hlay : LayoutOk (c.segments id)) (hpos : 0 < size) (hb : b ≤ offset)
    (hgrow : Grows B g (GapLoaded B offset size true false) c c₁ id) (hcov : Covers c₁ id b e run)
    (hweave : Weaves c id b e run) :
    ExactPayload B c c₁ id offset size (run.map fun w => w.2.getSegmentDescr) ↔
      OneSegment c id b e offset size := by
  rw [← oneSegment_iff hpos hb hgrow hcov hweave]
  obtain ⟨start, last, hstart, -, htiles⟩ := hcov.tiles
  have hcontent : ∀ x, c.content B id x = c₁.content B id x := fun x =>
    (hgrow.content hlay fun _ _ => ⟨rfl, ⟨sb, hsb, Or.inl rfl⟩, by simp⟩).symm
  refine (payload_exact_iff hpos (hstart.trans hb) htiles
    (fun w hw => hgrow.layout.bound (hcov.held w hw)) _).trans ?_
  constructor
  · rintro ⟨w, hw, hend, -⟩
    exact ⟨w, hw, hend⟩
  · rintro ⟨w, rfl, hend⟩
    refine ⟨w, rfl, hend, fun i hi => ?_⟩
    have hw := hcov.held w (List.mem_singleton_self _)
    have hoff : w.2.offset ≤ offset := htiles.1.trans_le (hstart.trans hb)
    rw [hcontent, content_of_segment hgrow.layout hw ⟨by omega, by omega⟩]
    congr 1
    omega

namespace Server

variable {s s₀ : Server μ σ} {segments : List ObjectSegmentDescr}

/-- **When an eager read answers the object's bytes.** In every reachable state,
if and only if the range, rounded to the alignment, lies in one cached segment
or in one gap. -/
theorem eagerRead_exact_iff {A : Nat} {check : Bool} {sb : StorageBackend σ}
    (hsb : B.storageBackend = some sb) (hinit : Initial B A check s₀)
    (hrun : Run (Step B) (fun _ _ => True) s₀ s) (hpos : 0 < size)
    (hget : (s.container.getObject id).getBuffers B id offset size .read true false =
      (some segments, c₁)) :
    ExactPayload B s.container c₁ id offset size segments ↔
      OneSegment s.container id
        (alignRange (s.container.object id).alignement offset size).1
        (SizeT.add (alignRange (s.container.object id).alignement offset size).1
          (alignRange (s.container.object id).alignement offset size).2) offset size := by
  have hwf := wf_run hinit hrun
  obtain ⟨hgrow, -, hsome⟩ := getBuffers_getObject hwf (rangeOk_one ..) hget
  obtain ⟨run, rfl, hcov, hweave, -⟩ := hsome segments rfl
  exact exactPayload_iff hsb (hwf.layout id) hpos (alignRange_fst_le ..) hgrow hcov hweave

/-- Two segments of object 1 were written. -/
def twoSegments : Server Malloc (ObjectId → Bytes) :=
  (localServer 8 0).after localBackends
    [.eagerWrite ⟨⟨1, 1⟩, 0, 8, fun _ => 7⟩, .eagerWrite ⟨⟨1, 1⟩, 8, 8, fun _ => 8⟩]

/-- A read inside the first segment gets its bytes. -/
theorem eagerRead_inside_segment : ∃ c₁ segments,
    (twoSegments.container.getObject ⟨1, 1⟩).getBuffers localBackends ⟨1, 1⟩ 2 4 .read true false =
      (some segments, c₁) ∧
    ExactPayload localBackends twoSegments.container c₁ ⟨1, 1⟩ 2 4 segments :=
  ⟨_, _, rfl, (eagerRead_exact_iff rfl (initial_localServer 8 0) (run_after .start) (by decide)
    rfl).mpr (Or.inl ⟨7, _, List.mem_cons_self .., by decide⟩)⟩

/-- **A read across two segments**: with an array of empty fragments, only the
bytes of the second segment are sent. -/
theorem eagerRead_two_segments :
    ¬ ∀ (s₀ s : Server Malloc (ObjectId → Bytes)) (c₁ : Container Malloc (ObjectId → Bytes))
      (id : ObjectId) (offset size : Nat) (segments : List ObjectSegmentDescr),
      Initial localBackends 8 false s₀ → Run (Step localBackends) (fun _ _ => True) s₀ s →
      0 < size → size ≤ eagerMaxRead → offset + size < 2 ^ 64 →
      (s.container.getObject id).getBuffers localBackends id offset size .read true false =
        (some segments, c₁) →
      ExactPayload localBackends s.container c₁ id offset size segments := by
  intro hall
  have hexact := hall _ twoSegments _ ⟨1, 1⟩ 4 8 _ (initial_localServer 8 0) (run_after .start)
    (by decide) (by decide) (by decide) rfl
  exact absurd (congrArg (fun r => r.map EagerResponse.msgDataSize)
    (hexact fun _ => ⟨⟨0, 0⟩, 0⟩)) (by decide)

end Server

end IoCatcher
