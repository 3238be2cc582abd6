import IoCatcher.Model.FullCopy
import IoCatcher.Model.Requests
import IoCatcher.Safety.Isolation

/-!
# IO Catcher — the cache and the storage agree on clean segments

`Coherent`: a segment whose dirty flag is not set holds exactly the bytes the
storage has for its object. The flag is set by the write hook, cleared by a
flush, copied by a copy-on-write and kept by an unsharing, and a write does not
load the gaps it is about to fill; the invariant survives all of it as long as
requests are handled one at a time and the storage does its work.

* `Coherent.write`, `Coherent.read`, `Coherent.flush`, `Coherent.fullCow`;
* `coherent_of_run`  — the invariant over whole runs;
* `durable_of_flush` — a flush of everything leaves the cached bytes on the
  storage.
-/

namespace IoCatcher

open Container

variable {μ σ : Type} {B : Backends μ σ} {c c' c₁ : Container μ σ} {id : ObjectId}

/-- Clean segments hold the stored bytes. -/
def Coherent (B : Backends μ σ) (c : Container μ σ) : Prop :=
  ∀ id k s, c.HasSegment id k s → s.dirty = false → ∀ i < s.getSize,
    c.memory.bytes s.memory.buffer i = c.disk B id (s.offset + i)

/-- Looking an object up changes neither segments nor bytes. -/
theorem Coherent.getObject (h : Coherent B c) (id : ObjectId) : Coherent B (c.getObject id) := by
  intro id' k t ht hd i hi
  unfold HasSegment at ht
  rw [segments_getObject] at ht
  exact h id' k t ht hd i hi

/-! ## Growing -/

/-- After a growth a clean segment is coherent, or it is a gap that was not
loaded. -/
theorem Coherent.grows {g : Nat} {Loaded : Nat → Nat → Prop} (h : Coherent B c)
    (hg : Grows B g Loaded c c₁ id) {id' : ObjectId} {k : Nat} {s : ObjectSegment}
    (hs : c₁.HasSegment id' k s) (hd : s.dirty = false) :
    (∀ i < s.getSize, c₁.memory.bytes s.memory.buffer i = c₁.disk B id' (s.offset + i)) ∨
      (id' = id ∧ ¬ Loaded s.offset s.getSize) := by
  rw [hg.disk]
  by_cases hid : id' = id
  · subst hid
    by_cases hold : ∃ t, c.HasSegment id' k t
    · obtain ⟨t, ht⟩ := hold
      obtain ⟨s', hs', hsame⟩ := hg.kept ht
      obtain rfl := hasSegment_unique hs' hs
      refine Or.inl fun i hi => ?_
      rw [hsame.size] at hi
      rw [hsame.bytes i hi, hsame.offset]
      exact h _ _ _ ht (hsame.dirty ▸ hd) i hi
    · obtain ⟨-, hload⟩ := hg.added hs fun t ht => hold ⟨t, ht⟩
      by_cases hl : Loaded s.offset s.getSize
      · exact Or.inl (hload hl)
      · exact Or.inr ⟨rfl, hl⟩
  · have hs' := (hg.hasSegment_other hid).mp hs
    refine Or.inl fun i hi => ?_
    rw [hg.otherBytes hid hs']
    exact h _ _ _ hs' hd i hi

theorem Coherent.read {g : Nat} {Loaded : Nat → Nat → Prop} (h : Coherent B c)
    (hg : Grows B g Loaded c c₁ id) (hload : ∀ offset size, Loaded offset size) :
    Coherent B c₁ := by
  intro id' k s hs hd
  rcases h.grows hg hs hd with hok | ⟨-, hno⟩
  · exact hok
  · exact absurd (hload _ _) hno

/-- A gap that a write does not load lies inside the range of the write. -/
theorem inside_of_not_loaded {offset size : Nat} {s : ObjectSegment} (hread : Readable B true)
    (hnw : offset + size < 2 ^ 64) (hb : s.stop < 2 ^ 64)
    (h : ¬ GapLoaded B offset size true true s.offset s.getSize) :
    offset ≤ s.offset ∧ s.stop ≤ offset + size := by
  have hover : isFullyOverlapped s.offset s.getSize offset size = true := by
    by_contra hno
    exact h ⟨rfl, hread, fun hc => hno hc.2⟩
  unfold isFullyOverlapped at hover
  rw [SizeT.add_eq hb, SizeT.add_eq hnw, Bool.and_eq_true, decide_eq_true_eq,
    decide_eq_true_eq] at hover
  exact hover

/-- **A write keeps the invariant**: what it did not load and what it stored
lie in segments that it marks. -/
theorem Coherent.write {g offset size : Nat} {data : Bytes} {m : Memory μ}
    {run : List (Nat × ObjectSegment)} (h : Coherent B c) (hread : Readable B true)
    (hnw : offset + size < 2 ^ 64) (hg : Grows B g (GapLoaded B offset size true true) c c₁ id)
    (hheld : ∀ w ∈ run, c₁.HasSegment id w.1 w.2)
    (hex : ∀ w ∈ run, c₁.Exclusive id w.1 w.2.memory.buffer)
    (hst : Stored c₁.memory m data offset size run) :
    Coherent B (({ c₁ with memory := m } : Container μ σ).markDirty id offset size) := by
  intro id' k s hs hd i hi
  obtain ⟨hs₁, hout⟩ := clean_of_markDirty (c := { c₁ with memory := m }) hg.layout hnw hs hd
  have hs₁' : c₁.HasSegment id' k s := hs₁
  -- its bytes were not stored to
  have hbytes : m.bytes s.memory.buffer i = c₁.memory.bytes s.memory.buffer i := by
    rcases hst.bytes_segment hex hheld hs₁' with ⟨hid, hrun⟩ | heq
    · rw [hst.bytes _ hrun i hi]
      refine if_neg fun hin => ?_
      have := hout hid
      unfold ObjectSegment.stop at this
      dsimp only at hin
      omega
    · rw [heq]
  show m.bytes s.memory.buffer i = c₁.disk B id' (s.offset + i)
  rw [hbytes]
  rcases h.grows hg hs₁' hd with hok | ⟨rfl, hno⟩
  · exact hok i hi
  · -- an unloaded gap would have been marked
    have hin := inside_of_not_loaded hread hnw (hg.layout.bound hs₁') hno
    have hpos := hg.layout.pos hs₁'
    have := hout rfl
    unfold ObjectSegment.stop at *
    omega

/-! ## Flush -/

/-- A reliable flush stores the bytes of every segment it visits. -/
theorem flushSegments_stored {sb : StorageBackend σ} (hsb : B.storageBackend = some sb)
    (hrel : sb.Reliable) {offset size x : Nat} {es : List (Nat × ObjectSegment)} :
    ∀ (ret : Int) {c : Container μ σ}, (es.Pairwise fun a b => a.2.stop ≤ b.2.offset) →
      (∀ e ∈ es, e.2.stop < 2 ^ 64) → ∀ {e}, e ∈ es → flushed offset size e.2 = true →
      e.2.Holds x → (flushSegments B id offset size es ret c).2.disk B id x =
        c.memory.bytes e.2.memory.buffer (x - e.2.offset) := by
  induction es with
  | nil => simp
  | cons a rest ih =>
    intro ret c hsorted hb e he hfl hx
    obtain ⟨hnext, hrest⟩ := List.pairwise_cons.mp hsorted
    have hb' := fun e he => hb e (List.mem_cons_of_mem _ he)
    unfold flushSegments
    rcases List.mem_cons.mp he with rfl | he
    · rw [if_pos hfl]
      dsimp only
      -- the later segments do not hold the position
      rw [disk_flushSegments (Or.inr fun e' he' _ hx' => by
        have h1 := hnext e' he'
        have h2 := hx.2
        have h3 := hx'.1
        omega)]
      have hsize : e.2.getSize < 2 ^ 64 := by
        have := hb e (List.mem_cons_self ..)
        unfold ObjectSegment.stop at this
        omega
      have hin : x - e.2.offset < e.2.getSize := by
        have h1 := hx.1
        have h2 := hx.2
        unfold ObjectSegment.stop at h2
        omega
      conv_lhs => rw [← Nat.add_sub_of_le hx.1]
      exact (pwrite_reliable hsb hrel hsize).2 _ hin
    · split_ifs
      · dsimp only
        rw [ih _ hrest hb' he hfl hx]
        obtain ⟨st, hst⟩ := pwrite_eq (B := B) c id a.2.memory.buffer a.2.getSize a.2.offset
        rw [hst]
      · exact ih _ hrest hb' he hfl hx

theorem disk_flush_stored {sb : StorageBackend σ} (hsb : B.storageBackend = some sb)
    (hrel : sb.Reliable) (hlay : LayoutOk (c.segments id)) {k offset size x : Nat}
    {t : ObjectSegment} (ht : c.HasSegment id k t) (hfl : flushed offset size t = true)
    (hx : t.Holds x) : (c.flush B id offset size).2.disk B id x =
      c.memory.bytes t.memory.buffer (x - t.offset) :=
  flushSegments_stored hsb hrel 0 hlay.pairwise (fun e he => hlay.bound (k := e.1) he)
    (e := (k, t)) ht hfl hx

/-- **A flush keeps the invariant**: what it cleans it has stored, and it
stores nothing else. -/
theorem Coherent.flush {g : Nat} {sb : StorageBackend σ} (hsb : B.storageBackend = some sb)
    (hrel : sb.Reliable) (h : Coherent B c) (hwf : Wf B g c) (id : ObjectId) (offset size : Nat) :
    Coherent B (c.flush B id offset size).2 := by
  intro id' k s hs hd i hi
  rw [memory_flush]
  rw [hasSegment_flush] at hs
  have hholds : s.Holds (s.offset + i) := ⟨Nat.le_add_right .., Nat.add_lt_add_left hi _⟩
  split_ifs at hs with hid
  · obtain ⟨t, ht', hf⟩ := hs
    have hlay := hwf.layout id
    split_ifs at hf with hfl
    · -- flushed by this call
      subst hf
      rw [hid, disk_flush_stored hsb hrel hlay ht' hfl hholds, Nat.add_sub_cancel_left]
    · subst hf
      rw [h id' k t (hid ▸ ht') hd i hi]
      refine (disk_flush (Or.inr fun {k' t'} ht'' hfl' hx => ?_)).symm
      -- two segments that hold one position are the same
      obtain ⟨-, rfl⟩ := hlay.eq_of_shared ht'' ht' hx.1 hx.2 hholds.1 hholds.2
      exact hfl hfl'
  · rw [h id' k s hs hd i hi]
    exact (disk_flush (Or.inl hid)).symm

/-- **A full copy keeps the invariant**: the clean segments it shares are
written back under the new id. -/
theorem Coherent.fullCow {src dst : ObjectId} (h : Coherent B c)
    (hcopy : FullCopied B src dst c c') : Coherent B c' := by
  intro id' k s hs hd i hi
  unfold HasSegment at hs
  rw [hcopy.segments] at hs
  rw [hcopy.bytes]
  have hholds : s.Holds (s.offset + i) := ⟨Nat.le_add_right .., Nat.add_lt_add_left hi _⟩
  split_ifs at hs with hid
  · rw [hid, (hcopy.copied _).clean hs hd hholds, Nat.add_sub_cancel_left]
  · rw [hcopy.disk hid]
    exact h id' k s hs hd i hi

/-! ## Whole runs -/

namespace Server

variable {s s' s₀ : Server μ σ}

/-- Requests handled one at a time, without RDMA and without range copies; the
range of a write does not wrap. -/
def CoherentScope : Event → Prop
  | .eagerWrite w => w.offset + w.size < 2 ^ 64
  | .read .. => True
  | .flush .. => True
  | .create _ => True
  | .cow sourceId destId _ _ rangeSize => rangeSize = 0 ∧ sourceId ≠ destId
  | _ => False

/-- One request keeps the cache coherent. -/
theorem coherent_step {e : Event} {sb : StorageBackend σ} (hsb : B.storageBackend = some sb)
    (hrel : sb.Reliable) (hwf : Wf B 1 s.container) (h : Coherent B s.container)
    (hscope : CoherentScope e) (hstep : Step B s e s') : Coherent B s'.container := by
  obtain ⟨reply, hok⟩ := hstep
  have hget : ∀ id, Coherent B (s.container.getObject id) := h.getObject
  cases e with
  | eagerWrite w =>
    obtain ⟨c₁, run, m, hgrow, hcov, hex, hst, -, rfl⟩ := eagerWrite_ok hwf (rangeOk_one ..) hok
    exact h.write ⟨sb, hsb, Or.inr hrel⟩ hscope hgrow hcov.held hex hst
  | read id offset size uninitialised =>
    obtain ⟨c₁, hgrow, rfl, -⟩ := read_ok hwf (rangeOk_one ..) hok
    refine h.read hgrow fun _ _ => ⟨rfl, ⟨sb, hsb, Or.inl rfl⟩, fun hw => absurd hw.1 (by decide)⟩
  | flush id offset size =>
    obtain ⟨-, rfl⟩ := Prod.mk.inj (Except.ok.inj hok)
    exact (hget id).flush hsb hrel (hwf.getObject id) id offset size
  | create id =>
    obtain ⟨-, rfl⟩ := Prod.mk.inj (Except.ok.inj hok)
    have hdisk : ((s.container.getObject id).create B id).2.disk B = s.container.disk B := by
      unfold Container.create Container.disk
      rw [hsb]
      exact sb.disk_create
    obtain ⟨st, hst⟩ := create_eq (B := B) (s.container.getObject id) id
    intro id' k t ht hd i hi
    show ((s.container.getObject id).create B id).2.memory.bytes t.memory.buffer i =
      ((s.container.getObject id).create B id).2.disk B id' (t.offset + i)
    have ht' : (s.container.getObject id).HasSegment id' k t := by
      have : ((s.container.getObject id).create B id).2.HasSegment id' k t := ht
      rw [hst] at this
      exact this
    rw [hdisk, hst]
    exact hget id _ _ _ ht' hd i hi
  | cow sourceId destId allowExist offset size =>
    obtain ⟨rfl, -⟩ := hscope
    obtain ⟨-, status, d, hfull, -, rfl⟩ | ⟨hsize, -⟩ := cow_ok hok
    · cases status with
      | false =>
        rw [makeObjectFullCow_false hfull]
        exact h
      | true => exact h.fullCow (fullCopied_of_ok hsb hwf hfull)
    · exact absurd rfl hsize
  | rdmaWrite w => exact hscope.elim
  | rdmaDone number => exact hscope.elim
  | rdmaFail number landed => exact hscope.elim
  | rangeRegister client id offset size write => exact hscope.elim
  | rangeUnregister client id rangeId offset size write => exact hscope.elim
  | clientDisconnect client => exact hscope.elim

/-- After a flush of everything, the storage has the cached bytes. -/
theorem durable_of_flush {g : Nat} {sb : StorageBackend σ} (hsb : B.storageBackend = some sb)
    (hrel : sb.Reliable) (hwf : Wf B g s.container) (h : Coherent B s.container) {id : ObjectId}
    (hstep : Step B s (.flush id 0 0) s') {x : Nat} {v : UInt8}
    (hv : s'.container.cached id x = some v) : s'.container.disk B id x = v := by
  obtain ⟨reply, hok⟩ := hstep
  obtain ⟨-, rfl⟩ := Prod.mk.inj (Except.ok.inj hok)
  have hcoh := (h.getObject id).flush hsb hrel (hwf.getObject id) id 0 0
  have hwf' := (hwf.getObject id).flush id 0 0
  obtain ⟨k, t, ht, hx, rfl⟩ := (cached_eq_some (hwf'.layout id)).mp hv
  -- every segment of the object is clean now
  have hclean : t.dirty = false := by
    have hs := ht
    rw [hasSegment_flush, if_pos rfl] at hs
    obtain ⟨u, -, hf⟩ := hs
    rw [← hf]
    split_ifs with hfl
    · rfl
    · simpa [flushed] using hfl
  have hx1 := hx.1
  have hx2 := hx.2
  unfold ObjectSegment.stop at hx2
  have := hcoh id k t ht hclean (x - t.offset) (by omega)
  rw [show t.offset + (x - t.offset) = x by omega] at this
  exact this.symm

/-- **Cache and storage coherence.** In every state between two requests, a
clean segment holds the stored bytes of its object; hence once everything is
flushed, the storage holds every cached byte. -/
theorem coherent_of_run {A : Nat} {check : Bool} {sb : StorageBackend σ}
    (hsb : B.storageBackend = some sb) (hrel : sb.Reliable) (hinit : Initial B A check s₀)
    (hrun : Run (Step B) (fun _ e => CoherentScope e) s₀ s) :
    Coherent B s.container ∧
      ∀ {id reply s'}, s.exec B (.flush id 0 0) = .ok (reply, s') → reply = .ack 0 →
        ∀ {x v}, s'.container.cached id x = some v → s'.container.disk B id x = v := by
  have hinv : Wf B 1 s.container ∧ Coherent B s.container := by
    refine hrun.invariant (I := fun s => Wf B 1 s.container ∧ Coherent B s.container)
      ⟨hinit.wf, ?_⟩ ?_
    · obtain ⟨m, st, -, -, rfl⟩ := hinit
      intro id k t ht
      exact absurd ht List.not_mem_nil
    · rintro s s' e ⟨hwf, hcoh⟩ hscope hstep
      exact ⟨wf_step hwf (stepOk_one s e) hstep, coherent_step hsb hrel hwf hcoh hscope hstep⟩
  refine ⟨hinv.2, fun hok _ x v hv => ?_⟩
  exact durable_of_flush hsb hrel hinv.1 hinv.2 ⟨_, hok⟩ hv

/-- Write object 1, copy it to object 2, write the copy and flush the original. -/
def flushingRequests : List Event :=
  [.eagerWrite ⟨⟨1, 1⟩, 3, 10, fun _ => 7⟩, .cow ⟨1, 1⟩ ⟨1, 2⟩ false 0 0,
    .eagerWrite ⟨⟨1, 2⟩, 20, 2, fun _ => 8⟩, .flush ⟨1, 1⟩ 0 0]

instance : DecidablePred CoherentScope
  | .eagerWrite w => inferInstanceAs (Decidable (w.offset + w.size < 2 ^ 64))
  | .rdmaWrite _ => inferInstanceAs (Decidable False)
  | .rdmaDone _ => inferInstanceAs (Decidable False)
  | .rdmaFail .. => inferInstanceAs (Decidable False)
  | .read .. => inferInstanceAs (Decidable True)
  | .flush .. => inferInstanceAs (Decidable True)
  | .create _ => inferInstanceAs (Decidable True)
  | .cow sourceId destId _ _ rangeSize =>
    inferInstanceAs (Decidable (rangeSize = 0 ∧ sourceId ≠ destId))
  | .rangeRegister .. => inferInstanceAs (Decidable False)
  | .rangeUnregister .. => inferInstanceAs (Decidable False)
  | .clientDisconnect _ => inferInstanceAs (Decidable False)

theorem coherent_of_flushingRequests : ∃ s, Run (Step localBackends) (fun _ e => CoherentScope e)
      (localServer 8 0) s ∧ s.container.cached ⟨1, 1⟩ 3 = some 7 ∧
      Coherent localBackends s.container := by
  obtain ⟨s, hrun, hbyte⟩ := run_of_trace localBackends (fun _ e => CoherentScope e)
    flushingRequests (localServer 8 0)
    (p := fun s => s.container.cached ⟨1, 1⟩ 3 = some 7) (by decide)
  exact ⟨s, hrun, hbyte,
    (coherent_of_run rfl byteStore_reliable (initial_localServer 8 0) hrun).1⟩

end Server

end IoCatcher
