import IoCatcher.Model.Requests

/-!
# IO Catcher — copy-on-write isolation

After a copy-on-write two objects own the same buffers, and only the use
count of a buffer tells. A write must find every shared segment of its range
and move it before it stores a byte; a read or a flush must not be visible at
all.

* `isolated_of_wf`   — in a well-formed container, a write to one object
  leaves every other object alone, and reads and flushes change no content;
* `isolated_of_run`  — so does every reachable one, whatever chain of
  copies led there.
-/

namespace IoCatcher

open Container

namespace Server

variable {μ σ : Type} {B : Backends μ σ} {s s₀ : Server μ σ}

/-- The requests of a client that waits for each answer: eager writes, reads,
flushes and copies. -/
def sequential : Event → Bool
  | .eagerWrite _ => true
  | .read .. => true
  | .flush .. => true
  | .cow .. => true
  | _ => false

/-- A write changes no other object — segments, flags, cached and stored bytes
— and a read or a flush changes no content at all. -/
structure Isolated (B : Backends μ σ) (s : Server μ σ) : Prop where
  write : ∀ {w s'}, Step B s (.eagerWrite w) s' → ∀ {id}, id ≠ w.object →
    s'.container.segments id = s.container.segments id ∧
      (∀ x, s'.container.cached id x = s.container.cached id x) ∧
      s'.container.disk B id = s.container.disk B id
  read  : ∀ {id offset size uninitialised s'}, Step B s (.read id offset size uninitialised) s' →
    ∀ id' x, s'.container.content B id' x = s.container.content B id' x
  flush : ∀ {id offset size s'}, Step B s (.flush id offset size) s' →
    ∀ id' x, s'.container.content B id' x = s.container.content B id' x

/-- **Isolation in a well-formed container.** The buffers a write stores into
have one owner once `getBuffers` returns, so no other segment sees it. -/
theorem isolated_of_wf {sb : StorageBackend σ} (hsb : B.storageBackend = some sb)
    (h : Wf B 1 s.container) : Isolated B s := by
  refine ⟨fun {w s'} hstep id hne => ?_, fun {id offset size u s'} hstep id' x => ?_,
    fun {id offset size s'} hstep id' x => ?_⟩
  · obtain ⟨reply, hok⟩ := hstep
    obtain ⟨c₁, run, m, hgrow, hcov, hex, hst, -, rfl⟩ := eagerWrite_ok h (rangeOk_one ..) hok
    refine ⟨?_, fun x => ?_, ?_⟩
    · show (({ c₁ with memory := m } : Container μ σ).markDirty _ _ _).segments id = _
      rw [markDirty, segments_setSegments, if_neg hne]
      exact hgrow.others hne
    · show (({ c₁ with memory := m } : Container μ σ).markDirty _ _ _).cached id x = _
      rw [cached_markDirty]
      have hmem : ({ c₁ with memory := m } : Container μ σ).cached id x = c₁.cached id x := by
        refine cached_congr rfl fun {k t} ht => ?_
        rcases hst.bytes_segment hex hcov.held ht with ⟨heq, -⟩ | hbytes
        · exact absurd heq hne
        · exact hbytes
      rw [hmem, hgrow.cached_other hne]
    · show c₁.disk B id = _
      rw [hgrow.disk]
  · obtain ⟨reply, hok⟩ := hstep
    obtain ⟨c₁, hgrow, rfl, -⟩ := read_ok h (rangeOk_one ..) hok
    refine hgrow.content (h.layout id) fun _ _ => ⟨rfl, ⟨sb, hsb, Or.inl rfl⟩, ?_⟩
    exact fun hw => absurd hw.1 (by decide)
  · obtain ⟨reply, hok⟩ := hstep
    obtain ⟨-, rfl⟩ := Prod.mk.inj (Except.ok.inj hok)
    show ((s.container.getObject id).flush B id offset size).2.content B id' x = _
    rw [content_flush, content, cached_getObject]
    rfl

/-- **Copy-on-write isolation.** Every state reached by one request after the
other keeps its objects apart, however they share their buffers. -/
theorem isolated_of_run {A : Nat} {check : Bool} {sb : StorageBackend σ}
    (hsb : B.storageBackend = some sb) (hinit : Initial B A check s₀)
    (hrun : Run (Step B) (fun _ e => sequential e = true) s₀ s) : Isolated B s :=
  isolated_of_wf hsb (wf_run hinit hrun)

/-! ## A shared buffer -/

/-- A local server, before any request. -/
def localServer (A : Nat) (fill : UInt8) : Server Malloc (ObjectId → Bytes) :=
  Server.new (Container.new A (Memory.fresh fill) fun _ _ => 0) false

theorem initial_localServer (A : Nat) (fill : UInt8) :
    Initial localBackends A false (localServer A fill) :=
  ⟨_, _, Memory.valid_fresh fill, rfl, rfl⟩

/-- Write object 1, copy it whole to object 2 and a part of it to object 3. -/
def sharingRequests : List Event :=
  [.eagerWrite ⟨⟨1, 1⟩, 3, 10, fun _ => 7⟩, .cow ⟨1, 1⟩ ⟨1, 2⟩ false 0 0,
    .cow ⟨1, 2⟩ ⟨1, 3⟩ false 0 16]

theorem isolated_of_sharingRequests : ∃ s, Run (Step localBackends) (fun _ e => sequential e = true)
      (localServer 8 0) s ∧ s.container.useCount 0 = 3 ∧ Isolated localBackends s := by
  obtain ⟨s, hrun, hcount⟩ := run_of_trace localBackends (fun _ e => sequential e = true)
    sharingRequests (localServer 8 0) (p := fun s => s.container.useCount 0 = 3) (by decide)
  exact ⟨s, hrun, hcount, isolated_of_run rfl (initial_localServer 8 0) hrun⟩

end Server

end IoCatcher
