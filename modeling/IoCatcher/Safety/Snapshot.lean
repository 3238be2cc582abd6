import IoCatcher.Model.RangeCopy
import IoCatcher.Safety.Isolation

/-!
# IO Catcher — copies while writes are in flight

`getBuffers` unshares the segments of an RDMA write when the write starts, and
the bytes land later. A copy-on-write request in between shares the very
buffers the bytes are going to land in, and a copy onto the written object
replaces them: nothing in the server relates the two.

* `Stable` — what a snapshot needs of a completion: it changes its own object
  and no other, and leaves its data there;
* `stable_of_run` — it holds in every state of a run in which no copy shares
  or replaces a segment that a write in flight targets;
* `snapshot_changed_by_completion` — a copy between start and completion.
-/

namespace IoCatcher

open Container

variable {μ σ : Type} {B : Backends μ σ} {c c' : Container μ σ} {id src dst : ObjectId} {A : Nat}

/-- A full copy keeps the buffers of all objects but the two it is about. -/
theorem retained_of_fullCow {g k : Nat} {allowExist : Bool} (h : Wf B g c)
    (hok : c.makeObjectFullCow B src dst allowExist = .ok (true, c')) (hsrc : id ≠ src)
    (hdst : id ≠ dst) : Retained c c' id k := by
  obtain ⟨hne, -, -, d, st, hd, -, -, -, rfl⟩ := makeObjectFullCow_ok h hok
  have hseg : ∀ id', (({ d with storage := st } : Container μ σ).setObject dst
      ⟨c.segments src, (c.object src).alignement, .new⟩).segments id' =
        if id' = dst then c.segments src else c.segments id' := by
    intro id'
    rw [segments, object_setObject]
    split_ifs with hid
    · rfl
    · show (d.object id').segmentMap = _
      rw [hd.others hid]
      rfl
  intro t ht hex
  refine ⟨t, ?_, .refl t, fun id' k' u hu hbuf => ?_⟩
  · unfold HasSegment
    rw [hseg, if_neg hdst]
    exact ht
  · unfold HasSegment at hu
    rw [hseg] at hu
    split_ifs at hu with hid
    · exact absurd (hex src k' u hu hbuf).1.symm hsrc
    · exact hex id' k' u hu hbuf

namespace Server

variable {s s' s₀ : Server μ σ}

/-- **A snapshot is stable.** The completion of any write in flight leaves the
content of every other object as it was, and its data in the cache of its own
object. -/
def Stable (B : Backends μ σ) (s : Server μ σ) : Prop :=
  ∀ number p, s.findPending number = some p →
    (∀ id x, id ≠ p.write.object →
      (s.rdmaDone B number).2.container.content B id x = s.container.content B id x) ∧
    ∀ x, p.write.Covers p.write.object x →
      (s.rdmaDone B number).2.container.cached p.write.object x =
        some (p.write.data (x - p.write.offset))

/-- A copy leaves the writes in flight alone: a full copy is not made from or to
an object that is being written, and a range copy shares no segment that a
write of its source or its destination reaches. -/
def CowApart (s : Server μ σ) (src dst : ObjectId) (allowExist : Bool) (offset size : Nat) : Prop :=
  s.container.hasObject src = true → (s.container.hasObject dst = true → allowExist = true) →
    ∀ p ∈ s.pending, p.write.object = src ∨ p.write.object = dst →
      size ≠ 0 ∧ (src = dst ∨ ∀ k t, Shares s.container src dst offset size k t → ¬ p.write.Meets t)

/-- What every step of a run has to meet. -/
def SnapshotScope (A : Nat) (s : Server μ σ) (e : Event) : Prop :=
  InRange A e ∧
    match e with
    | .rdmaWrite w => Untruncated A s.container w.object w.offset w.size
    | .cow src dst allowExist offset size => CowApart s src dst allowExist offset size
    | _ => True

/-- A shared segment of the source that a write of the source or the destination
targets is reached by that write. -/
theorem meets_of_shares {p : PendingWrite} {run : List (Nat × ObjectSegment)} {offset size : Nat}
    (hsrc : LayoutOk (c.segments src)) (hdst : LayoutOk (c.segments dst)) (hf : Flight c p run)
    (hp : p.write.object = src ∨ p.write.object = dst) {w : Nat × ObjectSegment} (hw : w ∈ run)
    {t : ObjectSegment} (ht : Shares c src dst offset size w.1 t) : p.write.Meets t := by
  obtain ⟨u, hu, -⟩ := hf.held w hw
  have hmeets := hf.meets hw hu
  rcases hp with rfl | rfl
  · rwa [hasSegment_unique hu ht.1] at hmeets
  · have hloc : localPartialOverlap (c.segments p.write.object) t = false :=
      Bool.eq_false_iff.mpr fun hno => ht.2.2.2 (Or.inr hno)
    obtain ⟨ho, hz⟩ := sameRange_of_free hsrc hdst ht.1 hloc hu
    unfold WriteRequest.Meets ObjectSegment.stop at hmeets ⊢
    rwa [ho, hz] at hmeets

/-- A copy that stays apart keeps the segments that a write in flight targets. -/
theorem retained_of_cow {allowExist : Bool} {offset size : Nat} {reply : Reply} (h : Sound B A s)
    (hr : alignedEnd A offset size < 2 ^ 64) (hapart : CowApart s src dst allowExist offset size)
    (hok : s.cow B src dst allowExist offset size = .ok (reply, s')) {p : PendingWrite}
    (hp : p ∈ s.pending) {run : List (Nat × ObjectSegment)} (hf : Flight s.container p run) :
    ∀ w ∈ run, Retained s.container s'.container p.write.object w.1 := by
  intro w hw
  have hsame : Retained s.container s.container p.write.object w.1 :=
    (SameSegments.of_segments fun _ => rfl).retained _ _
  obtain ⟨hsize, status, d, hfull, -, rfl⟩ | ⟨hsize, status, d, hrange, -, rfl⟩ := cow_ok hok
  · cases status with
    | false =>
      rw [makeObjectFullCow_false hfull]
      exact hsame
    | true =>
      obtain ⟨-, hhas, hexist, -⟩ := makeObjectFullCow_ok h.wf hfull
      have hne : ¬ (p.write.object = src ∨ p.write.object = dst) := fun hobj =>
        (hapart hhas hexist p hp hobj).1 hsize
      rw [not_or] at hne
      exact retained_of_fullCow h.wf hfull hne.1 hne.2
  · cases status with
    | false =>
      rw [makeObjectRangeCow_false hrange]
      exact hsame
    | true =>
      obtain ⟨hhas, hexist⟩ := carried_of_rangeCow hrange
      obtain rfl : _ = d := congrArg Prod.snd hrange
      refine retained_of_rangeCow h.wf h.fixed (Nat.lt_of_le_of_lt (le_alignedEnd ..) hr)
        (Nat.pos_of_ne_zero hsize) ?_
      by_cases hobj : p.write.object = src ∨ p.write.object = dst
      · refine (hapart hhas hexist p hp hobj).2.imp_right fun hshare t ht _ => ?_
        exact hshare w.1 t ht (meets_of_shares (h.wf.layout src) (h.wf.layout dst) hf hobj hw ht)
      · exact Or.inr fun _ _ => hobj

/-- **A copy that stays apart keeps the writes in flight.** -/
theorem aloft_cow {allowExist : Bool} {offset size : Nat} {reply : Reply} (h : Sound B A s)
    (hr : alignedEnd A offset size < 2 ^ 64) (hapart : CowApart s src dst allowExist offset size)
    (hok : s.cow B src dst allowExist offset size = .ok (reply, s')) {p : PendingWrite}
    (hp : p ∈ s.pending) (hal : Aloft (fun _ => True) s.container p) :
    Aloft (fun _ => True) s'.container p := by
  obtain ⟨run, hf, -⟩ := hal
  exact ⟨run, hf.of_retained (retained_of_cow h hr hapart hok hp hf), fun _ _ _ _ => trivial⟩

theorem stable_of_inFlight (h : InFlight B A (fun _ => True) s) : Stable B s := by
  intro number p hfind
  obtain ⟨run, hf, -⟩ := h.aloft p (findPending_spec hfind).1
  have hcached := landed_cached (h.sound.wf.layout p.write.object) hf
    (hf.stored h.sound.wf.memoryOk)
  rw [container_rdmaDone hfind]
  refine ⟨fun id x hne => ?_, fun x hx => (hcached _ x).1 hx⟩
  unfold content
  rw [(hcached id x).2 fun hcov => hne hcov.1.symm]
  rfl

/-- A step of the scope leaves every started write in flight. -/
theorem inFlight_of_scope {e : Event} (h : InFlight B A (fun _ => True) s)
    (hscope : SnapshotScope A s e) (hstep : Step B s e s') : InFlight B A (fun _ => True) s' := by
  obtain ⟨hr, hscope⟩ := hscope
  refine inFlight_step (fun _ _ => trivial) h hr ?_ ?_ hstep
  · cases e with
    | rdmaWrite w => exact hscope
    | flush id offset size => exact fun _ _ _ _ _ _ _ _ => trivial
    | _ => trivial
  · rintro src dst allowExist offset size rfl p hp hal
    obtain ⟨reply, hok⟩ := hstep
    exact aloft_cow h.sound hr hscope hok hp hal

/-- Copies that stay apart leave every started write in flight. -/
theorem inFlight_of_run {check : Bool} (hinit : Initial B A check s₀)
    (hrun : Run (Step B) (SnapshotScope A) s₀ s) : InFlight B A (fun _ => True) s :=
  hrun.invariant hinit.inFlight fun h hscope hstep => inFlight_of_scope h hscope hstep

/-- **Snapshots are stable under writes in flight**, in every state of every run
in which no copy shares or replaces a segment that a write in flight targets. -/
theorem stable_of_run {check : Bool} (hinit : Initial B A check s₀)
    (hrun : Run (Step B) (SnapshotScope A) s₀ s) : Stable B s :=
  stable_of_inFlight (inFlight_of_run hinit hrun)

/-! ## A copy between start and completion -/

/-- The first 8 bytes of object 1 are written, a write of the next 8 is started,
and the first 8 are copied to object 2. -/
def apartRequests : List Event :=
  [.eagerWrite ⟨⟨1, 1⟩, 0, 8, fun _ => 5⟩, .rdmaWrite ⟨⟨1, 1⟩, 8, 8, fun _ => 7⟩,
    .cow ⟨1, 1⟩ ⟨1, 2⟩ false 0 8]

theorem run_apartRequests : Run (Step localBackends) (SnapshotScope 8) (localServer 8 9)
    ((localServer 8 9).after localBackends apartRequests) := by
  have h1 : Run (Step localBackends) (SnapshotScope 8) (localServer 8 9)
      ((localServer 8 9).after localBackends (apartRequests.take 1)) :=
    .next (e := .eagerWrite ⟨⟨1, 1⟩, 0, 8, fun _ => 5⟩) .start ⟨by decide, trivial⟩ ⟨_, rfl⟩
  have h2 : Run (Step localBackends) (SnapshotScope 8) (localServer 8 9)
      ((localServer 8 9).after localBackends (apartRequests.take 2)) := by
    refine .next (e := .rdmaWrite ⟨⟨1, 1⟩, 8, 8, fun _ => 7⟩) h1
      ⟨by decide, by decide, by decide, fun k t ht _ _ => ?_⟩ ⟨_, rfl⟩
    have ht' : (k, t) ∈ [(7, (⟨⟨0, 8⟩, 0, true⟩ : ObjectSegment))] := ht
    obtain ⟨-, rfl⟩ := Prod.mk.inj (List.mem_singleton.mp ht')
    decide
  refine .next (e := .cow ⟨1, 1⟩ ⟨1, 2⟩ false 0 8) h2 ⟨by decide, fun _ _ p hp _ => ?_⟩ ⟨_, rfl⟩
  refine ⟨by decide, Or.inr fun k t ht hmeets => ?_⟩
  have hwrite : p.write.offset = 8 := by
    rw [List.mem_singleton.mp hp]
  have ht' : (k, t) ∈ [(7, (⟨⟨0, 8⟩, 0, true⟩ : ObjectSegment)), (15, ⟨⟨1, 8⟩, 8, true⟩)] := ht.1
  rcases List.mem_cons.mp ht' with heq | ht'
  · -- the shared segment ends where the write starts
    obtain ⟨-, rfl⟩ := Prod.mk.inj heq
    exact absurd (hwrite ▸ hmeets.2) (by decide)
  · obtain ⟨-, rfl⟩ := Prod.mk.inj (List.mem_singleton.mp ht')
    exact absurd ht.2.1 (by decide)

theorem stable_of_apartRequests : ∃ s,
    Run (Step localBackends) (SnapshotScope 8) (localServer 8 9) s ∧
    s.container.useCount 0 = 2 ∧ (s.findPending 1).isSome = true ∧ Stable localBackends s :=
  ⟨_, run_apartRequests, by decide, by decide, stable_of_run (initial_localServer 8 9)
    run_apartRequests⟩

/-- **A snapshot changes**: a write of object 1 is started, object 1 is copied to
object 2, and the completion of the write changes object 2. -/
theorem snapshot_changed_by_completion :
    ¬ ∀ (s₀ s s₁ s₂ : Server Malloc (ObjectId → Bytes)) (src dst : ObjectId) (allowExist : Bool)
      (offset size number : Nat) (p : PendingWrite), Initial localBackends 8 false s₀ →
      Run (Step localBackends) (fun _ _ => True) s₀ s → src ≠ dst →
      s.exec localBackends (.cow src dst allowExist offset size) = .ok (.ack 0, s₁) →
      Run (Step localBackends) (fun _ _ => True) s₁ s₂ → s₂.findPending number = some p →
      p.write.object = src →
      (∀ x, (s₂.rdmaDone localBackends number).2.container.content localBackends dst x =
        s₂.container.content localBackends dst x) ∧
      ∀ x, p.write.Covers src x →
        (s₂.rdmaDone localBackends number).2.container.cached src x =
          some (p.write.data (x - p.write.offset)) := by
  intro hall
  have hrun : Run (Step localBackends) (fun _ _ => True) (localServer 8 9)
      ((localServer 8 9).after localBackends [.rdmaWrite ⟨⟨1, 1⟩, 0, 8, fun _ => 7⟩]) :=
    run_after .start
  have hstable := hall _ _ _ _ ⟨1, 1⟩ ⟨1, 2⟩ false 0 0 0 _ (initial_localServer 8 9) hrun
    (by decide) rfl .start rfl rfl
  exact absurd (hstable.1 0) (by decide)

end Server

end IoCatcher
