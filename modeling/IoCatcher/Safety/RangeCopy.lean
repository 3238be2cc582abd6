import IoCatcher.Model.RangeCopy
import IoCatcher.Safety.FullCopy
import IoCatcher.Safety.Isolation

/-!
# IO Catcher — what a range copy leaves out

A range copy-on-write is meant to give the destination the content the source
has in the range. It visits the cached segments of the source and nothing
else: a position that only the storage holds is not copied. A segment that
cannot be shared is copied into the segments of the destination with a
length that is not reduced by the place where the copy starts in the first of
them: it may run over the end of that segment's buffer.

* `rangeCow_copies_iff`      — a range copy is right exactly when neither
  happens;
* `rangeCow_misses_storage`  — a source on the storage only, copied to an
  object that never was written.
-/

namespace IoCatcher

open Container

variable {μ σ : Type} {B : Backends μ σ} {c c' : Container μ σ} {src dst : ObjectId}
  {A offset size : Nat}

/-- The destination has in the range the content the source had, and outside it
the content it had; no byte outside a buffer was touched on the way. -/
structure CopiesRange (B : Backends μ σ) (src dst : ObjectId) (offset size : Nat)
    (c c' : Container μ σ) : Prop where
  inside  : ∀ x, offset ≤ x → x < offset + size → c'.content B dst x = c.content B src x
  outside : ∀ x, ¬ (offset ≤ x ∧ x < offset + size) → c'.content B dst x = c.content B dst x
  overrun : c'.memory.overruns = c.memory.overruns

/-- Where the source has nothing cached in the range, its stored byte is already
the content of the destination. -/
def StorageAgrees (B : Backends μ σ) (c : Container μ σ) (src dst : ObjectId)
    (offset size : Nat) : Prop :=
  ∀ x, offset ≤ x → x < offset + size → c.cached src x = none →
    c.content B dst x = c.disk B src x

theorem copiesRange_iff (hcopy : (PartsFit A c src dst offset size → Copies B src dst
      (fun x => (offset ≤ x ∧ x < offset + size) ∧ c.cached src x ≠ none) c c') ∧
    (¬ PartsFit A c src dst offset size → c.memory.overruns < c'.memory.overruns)) :
    CopiesRange B src dst offset size c c' ↔
      StorageAgrees B c src dst offset size ∧ PartsFit A c src dst offset size := by
  have hstored : ∀ {x}, c.cached src x = none → c.content B src x = c.disk B src x := by
    intro x hx
    unfold content
    rw [hx]
    rfl
  constructor
  · intro h
    have hfit : PartsFit A c src dst offset size := by
      by_contra hno
      exact absurd h.overrun (hcopy.2 hno).ne'
    refine ⟨fun x h1 h2 hx => ?_, hfit⟩
    rw [← (hcopy.1 hfit).outside fun hin => hin.2.2 hx, h.inside x h1 h2, hstored hx]
  · rintro ⟨hstor, hfit⟩
    have hc := hcopy.1 hfit
    refine ⟨fun x h1 h2 => ?_, fun x hx => hc.outside fun hin => hx hin.2.1, hc.overrun⟩
    by_cases hx : c.cached src x = none
    · rw [hc.outside fun hin => hin.2.2 hx, hstor x h1 h2 hx, hstored hx]
    · exact hc.inside ⟨⟨h1, h2⟩, hx⟩

namespace Server

variable {s s₀ : Server μ σ}

/-- **When a range copy is right.** In every reachable state, a range copy that
is carried out copies the whole range if and only if the destination already
shows the stored bytes of the source where the source has nothing cached, and
every part that is copied by hand fits into the segments of the destination. -/
theorem rangeCow_copies_iff {check allowExist : Bool} {sb : StorageBackend σ}
    (hsb : B.storageBackend = some sb) (hrel : sb.Reliable) (hinit : Initial B A check s₀)
    (hrun : Run (Step B) (fun _ e => OnGrid A e) s₀ s) (hsize : 0 < size)
    (hnw : offset + size < 2 ^ 64)
    (hok : s.container.makeObjectRangeCow B src dst allowExist offset size = (true, c')) :
    CopiesRange B src dst offset size s.container c' ↔
      StorageAgrees B s.container src dst offset size ∧
        PartsFit A s.container src dst offset size :=
  have hs := sound_run_of_onGrid hinit hrun
  copiesRange_iff (makeObjectRangeCow_copies hs.wf hs.fixed hnw hsize
    (readable_of_reliable hsb hrel) hok)

/-- One write of object 1, over the first 8 bytes. -/
def oneSegmentServer : Server Malloc (ObjectId → Bytes) :=
  (localServer 8 0).after localBackends [.eagerWrite ⟨⟨1, 1⟩, 0, 8, fun _ => 7⟩]

theorem run_oneSegmentServer : Run (Step localBackends) (fun _ e => OnGrid 8 e) (localServer 8 0)
    oneSegmentServer :=
  .next (e := .eagerWrite ⟨⟨1, 1⟩, 0, 8, fun _ => 7⟩) .start (Or.inl (by decide)) ⟨_, rfl⟩

/-- The middle of the segment is copied whole. -/
theorem rangeCow_copies_part : ∃ c',
    oneSegmentServer.container.makeObjectRangeCow localBackends ⟨1, 1⟩ ⟨1, 2⟩ false 2 4 =
      (true, c') ∧
    CopiesRange localBackends ⟨1, 1⟩ ⟨1, 2⟩ 2 4 oneSegmentServer.container c' := by
  obtain ⟨c', hok⟩ : ∃ c', oneSegmentServer.container.makeObjectRangeCow localBackends ⟨1, 1⟩
      ⟨1, 2⟩ false 2 4 = (true, c') := ⟨_, rfl⟩
  refine ⟨c', hok, (rangeCow_copies_iff rfl byteStore_reliable (initial_localServer 8 0)
    run_oneSegmentServer (by decide) (by decide) hok).mpr ⟨?_, ?_⟩⟩
  · -- the segment holds the whole range
    intro x _ h2 hx
    refine absurd ?_ (cached_eq_none.mp hx 7 ⟨⟨0, 8⟩, 0, true⟩ (List.mem_singleton_self _))
    exact ⟨Nat.zero_le x, Nat.lt_of_lt_of_le h2 (by decide)⟩
  · have hno : ∀ k u, ¬ oneSegmentServer.container.HasSegment ⟨1, 2⟩ k u := fun k u hu =>
      absurd (hu : (k, u) ∈ ([] : List (Nat × ObjectSegment))) List.not_mem_nil
    exact fun _ _ _ _ _ _ =>
      Or.inr ⟨fun k u hu => absurd hu (hno k u), Or.inr fun k u hu => absurd hu (hno k u)⟩

/-- **What only the storage has is not copied**: object 1 has a byte on the
storage and nothing in the cache; after the range copy object 2 still reads
as zero there. -/
theorem rangeCow_misses_storage :
    ¬ ∀ (s₀ s : Server Malloc (ObjectId → Bytes)) (c' : Container Malloc (ObjectId → Bytes))
      (src dst : ObjectId) (allowExist : Bool) (offset size : Nat),
      Initial localBackends 0 false s₀ → Run (Step localBackends) (fun _ _ => True) s₀ s →
      0 < size → offset + size < 2 ^ 64 →
      s.container.makeObjectRangeCow localBackends src dst allowExist offset size = (true, c') →
      (∀ x, offset ≤ x → x < offset + size →
        c'.content localBackends dst x = s.container.content localBackends src x) ∧
      ∀ x, ¬ (offset ≤ x ∧ x < offset + size) →
        c'.content localBackends dst x = s.container.content localBackends dst x := by
  intro hall
  have hcopy := hall _ (openedServer fun id _ => if id = ⟨1, 1⟩ then 5 else 0) _ ⟨1, 1⟩ ⟨1, 2⟩ false
    0 1 (initial_stored _) (run_openedServer _) (by decide) (by decide) rfl
  exact absurd (hcopy.1 0 (by decide) (by decide)) (by decide)

-- One source segment of 16 bytes, two destination segments of 8: copying the
-- bytes 4 to 11 writes 4 bytes past the end of the first one.
example : (((localServer 8 0).after localBackends
    [.eagerWrite ⟨⟨1, 1⟩, 0, 16, fun _ => 7⟩, .eagerWrite ⟨⟨1, 2⟩, 0, 8, fun _ => 3⟩,
      .eagerWrite ⟨⟨1, 2⟩, 8, 8, fun _ => 3⟩]).container.makeObjectRangeCow localBackends ⟨1, 1⟩
    ⟨1, 2⟩ true 4 8).2.memory.overruns = 1 := by
  decide

end Server

end IoCatcher
