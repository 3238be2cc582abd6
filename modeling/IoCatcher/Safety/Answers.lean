import IoCatcher.Safety.EagerRead
import IoCatcher.Safety.Snapshot

/-!
# IO Catcher — answers and 64-bit wrap-around

A request carries any 64-bit offset and size, and the server checks neither. A
range whose end, rounded out to the alignment, reaches `2^64` wraps in
`getBuffers`, the overlap tests then find nothing, and the request is answered
with success and an empty list of segments.

* `AnswersRight` — what an answer promises: a write with status 0 is in the
  cache, a read with status 0 moved as many bytes as it was asked for, and
  every request is answered;
* `answers_of_run` — it holds of every request of a run in which no range
  wraps;
* `write_lost_by_wrap` — a write of the last 8 bytes below `2^64`.
-/

namespace IoCatcher

open Container

variable {μ σ : Type} {B : Backends μ σ} {c c₁ : Container μ σ} {id : ObjectId}
  {A offset size : Nat} {run : List (Nat × ObjectSegment)}

/-- Every byte of the write is cached at its mathematical position. -/
def WriteRequest.Cached (w : WriteRequest) (c : Container μ σ) : Prop :=
  ∀ k < w.size, c.cached w.object (w.offset + k) = some (w.data k)

/-- A reply to a read: an error status, or as many bytes as were asked for. -/
def Reply.Moved (size : Nat) : Reply → Prop
  | .ack status => status ≠ 0
  | .eager response => response.msgDataSize = size ∧ response.data.length = size
  | .rdma payload => payload.length = size
  | .nothing => False

theorem WriteRequest.cached_of_covers {w : WriteRequest}
    (h : ∀ x, w.Covers w.object x → c.cached w.object x = some (w.data (x - w.offset))) :
    w.Cached c := by
  intro k hk
  have hx := h (w.offset + k) ⟨rfl, Nat.le_add_right .., Nat.add_lt_add_left hk _⟩
  rwa [Nat.add_sub_cancel_left] at hx

/-! ## Payload lengths -/

/-- One segment, or none for an empty request: the payload has the right
length, whatever the fragment array contained. -/
theorem eager_moved {m : Memory μ} (hb : ∀ w ∈ run, w.2.stop < 2 ^ 64)
    (hpos : ∀ w ∈ run, 0 < w.2.getSize)
    (hrun : (run = [] ∧ size = 0) ∨
      ∃ w, run = [w] ∧ w.2.offset ≤ offset ∧ offset < w.2.stop ∧ offset + size ≤ w.2.stop)
    (uninitialised : Nat → LibfabricBuffer) :
    ∃ r, objEagerPushToClient m uninitialised offset size
        (run.map fun w => w.2.getSegmentDescr) = .ok r ∧
      r.msgDataSize = size ∧ r.data.length = size := by
  rcases hrun with ⟨rfl, rfl⟩ | ⟨w, rfl, hoff, hlt, hend⟩
  · exact ⟨_, rfl, rfl, rfl⟩
  · have hw := List.mem_singleton_self w
    rw [List.map_singleton, payload_single m _ (hpos w hw) (hb w hw) hoff, if_pos hlt,
      show min w.2.stop (offset + size) - offset = size by omega]
    exact ⟨_, rfl, rfl, by simp⟩

/-- The vectors of an RDMA read move as many bytes as it was asked for. -/
theorem rdma_moved {start last : Nat} (hnw : offset + size < 2 ^ 64) (hstart : start ≤ offset)
    (hlast : offset + size ≤ last) (hlay : LayoutOk (c.segments id))
    (hheld : ∀ w ∈ run, c.HasSegment id w.1 w.2)
    (htiles : Tiles (fun w => w.2.offset) (fun w => w.2.getSize) start run last)
    (htrim : ∀ w ∈ run, Trimmed offset size w.2 ∧ w.2.stop < 2 ^ 64) :
    (rdmaPayload c.memory (runIovec run offset size)).length = size := by
  have hbytes : ∀ w ∈ run, ∀ x, w.2.Holds x →
      c.memory.bytes w.2.memory.buffer (x - w.2.offset) = (c.cached id x).getD 0 := by
    intro w hw x hx
    rw [cached_of_segment hlay (hheld w hw) hx]
    rfl
  rw [rdmaPayload_eq hnw hbytes htiles htrim]
  simp only [List.length_map, List.length_range']
  omega

/-- An empty request is backed by the segment that holds its offset, if there is
one. -/
theorem run_of_empty {e : Nat} (hlay : LayoutOk (c.segments id))
    (ha : Aligned (grain A) (c.segments id)) (hcov : Covers c id (alignedBase A offset) e run)
    (he : e = alignedEnd A offset 0) :
    run = [] ∨ ∃ w, run = [w] ∧ w.2.offset ≤ offset ∧ offset < w.2.stop := by
  subst he
  have hholds : ∀ w ∈ run, w.2.offset < offset ∧ offset < w.2.stop := fun w hw =>
    meets_of_aligned (ha (hcov.held w hw)).1 (ha (hcov.held w hw)).2 (hcov.meets w hw).1
      (hcov.meets w hw).2
  obtain ⟨start, last, -, -, htiles⟩ := hcov.tiles
  cases run with
  | nil => exact Or.inl rfl
  | cons w rest =>
    have hw := List.mem_cons_self (a := w) (l := rest)
    refine Or.inr ⟨w, htiles.eq_singleton hw fun v hv => ?_, (hholds w hw).1.le, (hholds w hw).2⟩
    -- two segments that hold the offset are the same
    obtain ⟨hkey, hseg⟩ := hlay.eq_of_shared (hcov.held v hv) (hcov.held w hw) (hholds v hv).1.le
      (hholds v hv).2 (hholds w hw).1.le (hholds w hw).2
    exact Prod.ext hkey hseg

namespace Server

variable {s s' s₀ : Server μ σ}

/-- **What an answer promises.** Every request is answered, at once or when its
transfer is over; with status 0 a write is in the cache and a read has moved
its size. -/
def AnswersRight (B : Backends μ σ) (s : Server μ σ) : Event → Prop
  | .eagerWrite w => ∃ status s', s.exec B (.eagerWrite w) = .ok (.ack status, s') ∧
      (status = 0 → w.Cached s'.container)
  | .rdmaWrite w =>
    (∃ status s', s.exec B (.rdmaWrite w) = .ok (.ack status, s') ∧
      (status = 0 → w.Cached s'.container)) ∨
    ∃ s' p, s.exec B (.rdmaWrite w) = .ok (.nothing, s') ∧
      s'.findPending s.started.length = some p ∧ p.write = w
  | .rdmaDone number => ∀ p, s.findPending number = some p →
      ∃ status s', s.exec B (.rdmaDone number) = .ok (.ack status, s') ∧
        (status = 0 → p.write.Cached s'.container)
  | .read id offset size uninitialised => ∃ reply s',
      s.exec B (.read id offset size uninitialised) = .ok (reply, s') ∧ reply.Moved size
  | _ => True

/-- The ranges of a step are such that the code can address them, and a copy
leaves the writes in flight alone. -/
def AnswerScope (A : Nat) (s : Server μ σ) (e : Event) : Prop :=
  SnapshotScope A s e ∧
    match e with
    | .rdmaWrite w => alignedBase A w.offset < alignedEnd A w.offset w.size
    | .read id offset size _ =>
      if size ≤ eagerMaxRead then
        size = 0 ∨
          OneSegment s.container id (alignedBase A offset) (alignedEnd A offset size) offset size
      else Untruncated A s.container id offset size
    | _ => True

/-- An eager write is answered with status 0, and is in the cache. -/
theorem eagerWrite_answered {w : WriteRequest} (h : Sound B A s)
    (hr : alignedEnd A w.offset w.size < 2 ^ 64) :
    ∃ s', s.eagerWrite B w = .ok (.ack 0, s') ∧ w.Cached s'.container := by
  suffices hok : ∃ reply s', s.eagerWrite B w = .ok (reply, s') by
    obtain ⟨reply, s', hok⟩ := hok
    obtain ⟨-, -, -, -, -, -, -, rfl, -⟩ := eagerWrite_ok h.wf (h.rangeOk hr) hok
    exact ⟨s', hok, WriteRequest.cached_of_covers fun x => (eagerWrite_cached h hr hok _ x).1⟩
  unfold eagerWrite
  obtain ⟨r, hget⟩ : ∃ r, (s.container.getObject w.object).getBuffers B w.object w.offset w.size
    .write true true = r := ⟨_, rfl⟩
  obtain ⟨hgrow, hnone, hsome⟩ := getBuffers_getObject h.wf (h.rangeOk hr) hget
  rw [hget]
  obtain ⟨r1, c₁⟩ := r
  cases r1 with
  | none => exact absurd (hnone rfl).1 (by decide)
  | some l =>
    obtain ⟨run, rfl, hcov, -, -⟩ := hsome l rfl
    obtain ⟨hbase, hend⟩ := h.rounded w.object hr
    rw [hend, hbase] at hcov
    obtain ⟨start, last, hstart, -, htiles⟩ := hcov.tiles
    have hle := alignedBase_le A w.offset
    have hcur : min (start - w.offset) w.size = 0 := by omega
    have heq := objEagerExtractFromMessage_eq B.memoryBackend w.data w.offset w.size
      (m := c₁.memory) htiles fun v hv => hgrow.layout.bound (hcov.held v hv)
    -- no segment of the run ends before the request
    have ha : Aligned (grain A) (c₁.segments w.object) := hgrow.aligned (h.wf.aligned _)
    have hreach : ∀ v ∈ run, w.offset < v.2.stop := fun v hv =>
      (meets_of_aligned (ha (hcov.held v hv)).1 (ha (hcov.held v hv)).2 (hcov.meets v hv).1
        (hcov.meets v hv).2).2
    rw [hcur, if_pos hreach] at heq
    dsimp only
    rw [heq]
    exact ⟨_, _, rfl⟩

/-- An RDMA write waits for its transfer. -/
theorem rdmaWrite_pending {w : WriteRequest} (h : InFlight B A (fun _ => True) s)
    (hr : alignedEnd A w.offset w.size < 2 ^ 64)
    (hpos : alignedBase A w.offset < alignedEnd A w.offset w.size) :
    ∃ s' p, s.rdmaWrite B w = (.nothing, s') ∧ s'.findPending s.started.length = some p ∧
      p.write = w := by
  obtain ⟨r, hok⟩ : ∃ r, s.rdmaWrite B w = r := ⟨_, rfl⟩
  obtain ⟨reply, s'⟩ := r
  obtain ⟨c₁, run, groups, -, hcov, -, -, rfl, hgroups, rfl⟩ :=
    rdmaWrite_ok h.sound.wf (h.sound.rangeOk hr) hok
  refine ⟨_, ⟨s.started.length, w, groups⟩, hok, ?_, rfl⟩
  obtain ⟨hbase, hend⟩ := h.sound.rounded w.object hr
  rw [hend, hbase] at hcov
  obtain ⟨start, last, hstart, hlast, htiles⟩ := hcov.tiles
  obtain ⟨v, hv, -⟩ := htiles.exists_mem hstart (hpos.trans_le hlast)
  have hsome : groups ≠ [] := by
    intro hnil
    rw [hnil] at hgroups
    have hlen := congrArg List.length (hgroups.trans (rdmaGroups_eq run w.offset w.size))
    have hpos : 0 < run.length := List.length_pos_of_mem hv
    simp [maxRdmaSegs] at hlen
    omega
  unfold findPending
  dsimp only
  rw [if_neg hsome, List.find?_append, List.find?_eq_none.mpr fun p hp => ?_]
  · simp
  · -- the other writes have smaller numbers
    have hlt := (List.getElem?_eq_some_iff.mp (h.request p hp)).1
    simpa using hlt.ne

/-- A read is answered with an error, or moves its size. -/
theorem read_answered (h : Sound B A s) (hr : alignedEnd A offset size < 2 ^ 64)
    (hscope : if size ≤ eagerMaxRead then size = 0 ∨
        OneSegment s.container id (alignedBase A offset) (alignedEnd A offset size) offset size
      else Untruncated A s.container id offset size) (uninitialised : Nat → LibfabricBuffer) :
    ∃ reply s', s.read B id offset size uninitialised = .ok (reply, s') ∧ reply.Moved size := by
  unfold read
  obtain ⟨r, hget⟩ : ∃ r, (s.container.getObject id).getBuffers B id offset size .read true false =
    r := ⟨_, rfl⟩
  obtain ⟨hgrow, -, hsome⟩ := getBuffers_getObject h.wf (h.rangeOk hr) hget
  rw [hget]
  obtain ⟨r1, c₁⟩ := r
  cases r1 with
  | none => exact ⟨_, _, rfl, by simp [Reply.Moved]⟩
  | some l =>
    obtain ⟨run, rfl, hcov, hweave, -⟩ := hsome l rfl
    obtain ⟨hbase, hend⟩ := h.rounded id hr
    rw [hend, hbase] at hcov hweave
    dsimp only at hgrow hcov ⊢
    have hb := alignedBase_le A offset
    have he := le_alignedEnd A offset size
    have ha : Aligned (grain A) (c₁.segments id) := hgrow.aligned (h.wf.aligned _)
    obtain ⟨start, last, hstart, hlast, htiles⟩ := hcov.tiles
    split_ifs at hscope ⊢ with heager
    · have hrun : (run = [] ∧ size = 0) ∨
          ∃ w, run = [w] ∧ w.2.offset ≤ offset ∧ offset < w.2.stop ∧ offset + size ≤ w.2.stop := by
        rcases Nat.eq_zero_or_pos size with rfl | hpos
        · rcases run_of_empty hgrow.layout ha hcov rfl with rfl | ⟨w, rfl, h1, h2⟩
          · exact Or.inl ⟨rfl, rfl⟩
          · exact Or.inr ⟨w, rfl, h1, h2, h2.le⟩
        · obtain ⟨w, rfl, hstop⟩ := (oneSegment_iff hpos hb hgrow hcov hweave).mpr
            (hscope.resolve_left (by omega))
          exact Or.inr ⟨w, rfl, htiles.1.trans_le (hstart.trans hb), by omega, hstop⟩
      obtain ⟨resp, hresp, hmoved⟩ := eager_moved (m := c₁.memory)
        (fun w hw => hgrow.layout.bound (hcov.held w hw))
        (fun w hw => (htiles.mem_bounds hw).2.1) hrun uninitialised
      rw [hresp]
      exact ⟨_, _, rfl, hmoved⟩
    · refine ⟨_, _, rfl, ?_⟩
      exact rdma_moved (by omega) (by omega) (by omega) hgrow.layout hcov.held htiles
        (trimmed_of_untruncated hscope hgrow ha hcov hweave)

/-- **No silent wrap**: in every state of every run whose ranges stay below
`2^64`, every request that does so too is answered right. -/
theorem answers_of_run {check : Bool} (hinit : Initial B A check s₀)
    (hrun : Run (Step B) (AnswerScope A) s₀ s) {e : Event} (he : AnswerScope A s e) :
    AnswersRight B s e := by
  have h := inFlight_of_run hinit (hrun.mono (fun h => h) fun hg => hg.1)
  obtain ⟨⟨hr, hsnap⟩, hscope⟩ := he
  cases e with
  | eagerWrite w =>
    obtain ⟨s', hok, hcached⟩ := eagerWrite_answered h.sound hr
    exact ⟨0, s', hok, fun _ => hcached⟩
  | rdmaWrite w =>
    obtain ⟨s', p, hok, hp, hw⟩ := rdmaWrite_pending h hr hscope
    exact Or.inr ⟨s', p, congrArg Except.ok hok, hp, hw⟩
  | rdmaDone number =>
    intro p hp
    refine ⟨0, (s.rdmaDone B number).2, ?_, fun _ => ?_⟩
    · show Except.ok (s.rdmaDone B number) = _
      unfold rdmaDone
      rw [hp]
    · exact WriteRequest.cached_of_covers (stable_of_inFlight h number p hp).2
  | read id offset size uninitialised => exact read_answered h.sound hr hscope uninitialised
  | _ => trivial

/-! ## A write that wraps -/

theorem answers_inside_segment :
    AnswersRight localBackends
      ((localServer 8 0).after localBackends [.eagerWrite ⟨⟨1, 1⟩, 0, 8, fun _ => 7⟩])
      (.read ⟨1, 1⟩ 2 4 fun _ => ⟨⟨0, 0⟩, 0⟩) := by
  refine answers_of_run (initial_localServer 8 0)
    (.next (e := .eagerWrite ⟨⟨1, 1⟩, 0, 8, fun _ => 7⟩) .start ⟨⟨by decide, trivial⟩, trivial⟩
      ⟨_, rfl⟩) ⟨⟨by decide, trivial⟩, ?_⟩
  exact Or.inr (Or.inl ⟨7, ⟨⟨0, 8⟩, 0, true⟩, List.mem_singleton_self _, by decide⟩)

/-- **A write that is lost**: the last 8 bytes below `2^64` are written, the
answer is 0, and nothing is cached. -/
theorem write_lost_by_wrap :
    ¬ ∀ (s₀ s : Server Malloc (ObjectId → Bytes)) (w : WriteRequest),
      Initial localBackends 8 false s₀ → Run (Step localBackends) (fun _ _ => True) s₀ s →
      w.offset < 2 ^ 64 → w.size < 2 ^ 64 → AnswersRight localBackends s (.eagerWrite w) := by
  intro hall
  obtain ⟨status, s', hok, hcached⟩ := hall _ _ ⟨⟨1, 1⟩, 2 ^ 64 - 8, 8, fun _ => 7⟩
    (initial_localServer 8 0) .start (by decide) (by decide)
  obtain ⟨hreply, rfl⟩ := Prod.mk.inj (Except.ok.inj hok)
  obtain rfl := Reply.ack.inj hreply
  exact absurd (hcached rfl 0 (by decide)) (by decide)

end Server

end IoCatcher
