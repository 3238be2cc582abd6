import IoCatcher.Model.Flight
import IoCatcher.Safety.Coherence

/-!
# IO Catcher — acknowledged writes and flushes

An RDMA write marks its segments dirty when it starts, and its bytes arrive
when it completes. A flush in between cleans the segments it visits, so the
bytes then arrive in clean segments, and no later flush stores them.

* `Landed`               — the cached byte is the one of the last write
  acknowledged for its position;
* `kept_of_run`          — acknowledged bytes are dirty or stored, in every
  run in which no flush visits the target of a write in flight;
* `write_lost_by_flush`  — a flush between start and completion.
-/

namespace IoCatcher

open Container

namespace Server

variable {μ σ : Type} {B : Backends μ σ} {s s' s₀ : Server μ σ} {A : Nat}

/-! ## What the cache holds -/

/-- The cached byte of a position is that of the last acknowledged write that
covers it. -/
structure Landed (s : Server μ σ) : Prop where
  bytes : ∀ pre n post w x, s.acked = pre ++ n :: post → s.started[n]? = some w →
    w.Covers w.object x →
    (∀ m ∈ post, ∀ w', s.started[m]? = some w' → ¬ w'.Covers w.object x) →
    s.container.cached w.object x = some (w.data (x - w.offset))
  known : ∀ n ∈ s.acked, n < s.started.length

/-- A step that acknowledges nothing and keeps the cached bytes. -/
theorem Landed.keep (h : Landed s) (hack : s'.acked = s.acked) {new : List WriteRequest}
    (hst : s'.started = s.started ++ new)
    (hc : ∀ id x v, s.container.cached id x = some v → s'.container.cached id x = some v) :
    Landed s' := by
  have hget : ∀ n ∈ s.acked, s'.started[n]? = s.started[n]? := fun n hn => by
    rw [hst, List.getElem?_append_left (h.known n hn)]
  refine ⟨fun pre n post w x hsplit hw hx hlast => ?_, fun n hn => ?_⟩
  · rw [hack] at hsplit
    have hn : n ∈ s.acked := hsplit ▸ by simp
    rw [hget n hn] at hw
    refine hc _ _ _ (h.bytes pre n post w x hsplit hw hx fun m hm w' hw' => hlast m hm w' ?_)
    rw [hget m (hsplit ▸ by simp [hm])]
    exact hw'
  · rw [hack] at hn
    rw [hst, List.length_append]
    exact Nat.lt_add_right _ (h.known n hn)

/-- A step that acknowledges a write, whose bytes are now in the cache. -/
theorem Landed.ack (h : Landed s) {n : Nat} {w : WriteRequest} (hack : s'.acked = s.acked ++ [n])
    {new : List WriteRequest} (hst : s'.started = s.started ++ new) (hw : s'.started[n]? = some w)
    (hin : ∀ x, w.Covers w.object x → s'.container.cached w.object x = some (w.data (x - w.offset)))
    (hc : ∀ id x v, s.container.cached id x = some v → ¬ w.Covers id x →
      s'.container.cached id x = some v) : Landed s' := by
  have hget : ∀ n ∈ s.acked, s'.started[n]? = s.started[n]? := fun n hn => by
    rw [hst, List.getElem?_append_left (h.known n hn)]
  refine ⟨fun pre m post w' x hsplit hw' hx hlast => ?_, fun m hm => ?_⟩
  · rw [hack] at hsplit
    rcases List.eq_nil_or_concat post with rfl | ⟨post', q, rfl⟩
    · -- the write acknowledged by this step
      obtain ⟨-, hm⟩ := List.append_inj' hsplit rfl
      obtain rfl : n = m := by simpa using hm
      obtain rfl : w = w' := Option.some.inj (hw.symm.trans hw')
      exact hin x hx
    · -- an earlier one, and this step's does not cover the position
      rw [List.concat_eq_append, ← List.cons_append, ← List.append_assoc] at hsplit
      obtain ⟨hold, hq⟩ := List.append_inj' hsplit rfl
      obtain rfl : n = q := by simpa using hq
      have hm : m ∈ s.acked := hold ▸ by simp
      rw [hget m hm] at hw'
      refine hc _ _ _ (h.bytes pre m post' w' x hold hw' hx fun k hk v hv => ?_)
        (hlast n (by simp) w hw)
      refine hlast k (by simp [hk]) v ?_
      rw [hget k (hold ▸ by simp [hk])]
      exact hv
  · rw [hack] at hm
    rcases List.mem_append.mp hm with hm | hm
    · rw [hst, List.length_append]
      exact Nat.lt_add_right _ (h.known m hm)
    · rw [List.mem_singleton.mp hm]
      exact (List.getElem?_eq_some_iff.mp hw).1

/-! ## One step -/

/-- Writes, completions, reads and flushes. -/
def DurableScope : Event → Prop
  | .eagerWrite _ => True
  | .rdmaWrite _ => True
  | .rdmaDone _ => True
  | .read .. => True
  | .flush .. => True
  | _ => False

/-- A flush visits no segment that a write in flight targets, and the requests
are those the code handles: their rounded ranges do not wrap, and what
`buildIovec` cuts off fits an `int`. -/
def Gentle (A : Nat) (s : Server μ σ) : Event → Prop
  | .eagerWrite w => alignedEnd A w.offset w.size < 2 ^ 64
  | .rdmaWrite w => alignedEnd A w.offset w.size < 2 ^ 64 ∧
      Untruncated A s.container w.object w.offset w.size
  | .read _ offset size _ => alignedEnd A offset size < 2 ^ 64
  | .flush id offset size => ∀ p ∈ s.pending, p.write.object = id →
      ∀ k t, s.container.HasSegment id k t → p.write.Meets t →
        size ≠ 0 ∧ t.overlap offset size = false
  | _ => True

/-- What a run keeps. -/
structure DurableInv (B : Backends μ σ) (A : Nat) (s : Server μ σ) : Prop where
  inFlight : InFlight B A (fun t => t.dirty = true) s
  coherent : Coherent B s.container
  landed   : Landed s

theorem Gentle.inRange {e : Event} (hscope : DurableScope e) (h : Gentle A s e) : InRange A e := by
  cases e with
  | eagerWrite w => exact h
  | rdmaWrite w => exact h.1
  | read id offset size uninitialised => exact h
  | cow => exact hscope.elim
  | _ => trivial

theorem Gentle.landable {e : Event} (h : Gentle A s e) :
    Landable A (fun t => t.dirty = true) s e := by
  cases e with
  | rdmaWrite w => exact h.2
  | flush id offset size =>
    intro p hp k t hid ht hm hfl
    obtain ⟨hsize, hov⟩ := h p hp hid k t ht hm
    simp [flushed, hsize, hov] at hfl
  | _ => trivial

/-- The bytes of a write land in segments that are still marked. -/
theorem coherent_landed {c : Container μ σ} {p : PendingWrite} {m : Memory μ} (h : Coherent B c)
    {run : List (Nat × ObjectSegment)} (hf : Flight c p run)
    (hd : ∀ w ∈ run, ∀ t, c.HasSegment p.write.object w.1 t → t.dirty = true)
    (hst : Stored c.memory m p.write.data p.write.offset p.write.size run) :
    Coherent B ({ c with memory := m } : Container μ σ) := by
  intro id k t ht hclean i hi
  have ht' : c.HasSegment id k t := ht
  rcases hf.toOwned.bytes_segment hst ht' with ⟨rfl, w, hw, rfl, -⟩ | hbytes
  · exact absurd (hd w hw t ht') (by simp [hclean])
  · show m.bytes t.memory.buffer i = c.disk B id (t.offset + i)
    rw [hbytes]
    exact h id k t ht' hclean i hi

theorem durable_step {e : Event} {sb : StorageBackend σ} (hsb : B.storageBackend = some sb)
    (hrel : sb.Reliable) (h : DurableInv B A s) (hscope : DurableScope e) (hg : Gentle A s e)
    (hstep : Step B s e s') : DurableInv B A s' := by
  have hread : Readable B true := ⟨sb, hsb, Or.inr hrel⟩
  have hfly := inFlight_step (fun _ hd => hd) h.inFlight (hg.inRange hscope) hg.landable
    (fun he => by subst he; exact hscope.elim) hstep
  have hsound := h.inFlight.sound
  obtain ⟨reply, hok⟩ := hstep
  cases e with
  | eagerWrite w =>
    have hcached := eagerWrite_cached hsound hg hok
    obtain ⟨c₁, run, m, hgrow, hcov, hex, hst, -, rfl⟩ :=
      eagerWrite_ok hsound.wf (hsound.rangeOk hg) hok
    refine ⟨hfly, h.coherent.write hread (Nat.lt_of_le_of_lt (le_alignedEnd A ..) hg) hgrow
      hcov.held hex hst, ?_⟩
    exact h.landed.ack rfl rfl (by simp) (fun x hx => (hcached w.object x).1 hx)
      fun id x => (hcached id x).2
  | rdmaWrite w =>
    obtain ⟨c₁, run, groups, hgrow, -, -, rfl⟩ :=
      rdmaWrite_flight hsound hg.1 hg.2 (Except.ok.inj hok)
    refine ⟨hfly, ?_, h.landed.keep rfl rfl fun id x v hv => ?_⟩
    · -- nothing is stored yet, but everything not loaded is marked
      have hnone : Stored c₁.memory c₁.memory w.data w.offset w.size [] :=
        ⟨rfl, rfl, rfl, by simp, fun _ _ => rfl⟩
      have hnw := Nat.lt_of_le_of_lt (le_alignedEnd A ..) hg.1
      exact h.coherent.write hread hnw hgrow (by simp) (by simp) hnone
    · show (c₁.markDirty w.object w.offset w.size).cached id x = some v
      rw [cached_markDirty]
      by_cases hid : id = w.object
      · rw [hid] at hv ⊢
        exact hgrow.cached (hsound.wf.layout _) hv
      · rw [hgrow.cached_other hid]
        exact hv
  | rdmaDone number =>
    have hdone : s.rdmaDone B number = (reply, s') := Except.ok.inj hok
    unfold rdmaDone at hdone
    split at hdone
    · obtain ⟨-, rfl⟩ := Prod.mk.inj hdone
      exact h
    · rename_i p hp
      obtain ⟨-, rfl⟩ := Prod.mk.inj hdone
      obtain ⟨hmem, rfl⟩ := findPending_spec hp
      obtain ⟨run, hf, hd⟩ := h.inFlight.aloft p hmem
      have hst := hf.stored hsound.wf.memoryOk
      have hcached := landed_cached (hsound.wf.layout _) hf hst
      refine ⟨hfly, coherent_landed h.coherent hf hd hst, ?_⟩
      refine h.landed.ack rfl (List.append_nil _).symm (h.inFlight.request p hmem)
        (fun x hx => (hcached _ x).1 hx) fun id x v hv hno => ?_
      exact ((hcached id x).2 hno).trans hv
  | read id offset size uninitialised =>
    obtain ⟨c₁, hgrow, rfl, -⟩ := read_ok hsound.wf (hsound.rangeOk hg) hok
    refine ⟨hfly, h.coherent.read hgrow fun _ _ => ⟨rfl, ⟨sb, hsb, Or.inl rfl⟩, by simp⟩,
      h.landed.keep rfl (List.append_nil _).symm fun id' x v hv => ?_⟩
    by_cases hid : id' = id
    · rw [hid] at hv ⊢
      exact hgrow.cached (hsound.wf.layout _) hv
    · exact (hgrow.cached_other hid).trans hv
  | flush id offset size =>
    obtain ⟨-, rfl⟩ := Prod.mk.inj (Except.ok.inj hok)
    refine ⟨hfly, (Coherent.getObject h.coherent id).flush hsb hrel (hsound.wf.getObject id)
        id offset size,
      h.landed.keep rfl (List.append_nil _).symm fun id' x v hv => ?_⟩
    show ((s.container.getObject id).flush B id offset size).2.cached id' x = some v
    rw [cached_flush, cached_getObject]
    exact hv
  | rdmaFail number landed => exact hscope.elim
  | create id => exact hscope.elim
  | cow sourceId destId allowExist offset size => exact hscope.elim
  | rangeRegister client id offset size write => exact hscope.elim
  | rangeUnregister client id rangeId offset size write => exact hscope.elim
  | clientDisconnect client => exact hscope.elim

/-! ## Whole runs -/

/-- `v` is the byte that write `w`, number `n`, left at `x`: its own, or that of
an earlier-started write that was acknowledged after it. -/
def LeftAt (s : Server μ σ) (n : Nat) (w : WriteRequest) (x : Nat) (v : UInt8) : Prop :=
  v = w.data (x - w.offset) ∨ ∃ pre post m w', s.acked = pre ++ n :: post ∧ m ∈ post ∧ m < n ∧
    s.started[m]? = some w' ∧ w'.Covers w.object x ∧ v = w'.data (x - w'.offset)

/-- Every byte of an acknowledged write that no later-started write covers is in
the cache, in a dirty segment or equal to the stored byte, and a flush of
everything that succeeds makes it durable. -/
def Kept (B : Backends μ σ) (s : Server μ σ) : Prop :=
  ∀ n ∈ s.acked, ∀ w, s.started[n]? = some w → ∀ x, w.Covers w.object x →
    (∀ m w', n < m → s.started[m]? = some w' → ¬ w'.Covers w.object x) →
    ∃ v, LeftAt s n w x v ∧
      (∃ k t, s.container.HasSegment w.object k t ∧ t.Holds x ∧
        s.container.memory.bytes t.memory.buffer (x - t.offset) = v ∧
        (t.dirty = true ∨ s.container.disk B w.object x = v)) ∧
      ∀ s', s.exec B (.flush w.object 0 0) = .ok (.ack 0, s') →
        s'.container.disk B w.object x = v

/-- The byte in the cache is that of a write acknowledged last. -/
theorem Landed.exists_last (h : Landed s) {id : ObjectId} {x : Nat} (post : List Nat) :
    ∀ {pre n w}, s.acked = pre ++ n :: post → s.started[n]? = some w → w.Covers id x →
      ∃ m ∈ n :: post, ∃ w', s.started[m]? = some w' ∧ w'.Covers id x ∧
        s.container.cached id x = some (w'.data (x - w'.offset)) := by
  induction hlen : post.length using Nat.strong_induction_on generalizing post with
  | _ len ih =>
    intro pre n w hsplit hw hx
    by_cases hlater : ∃ m ∈ post, ∃ w', s.started[m]? = some w' ∧ w'.Covers id x
    · obtain ⟨m, hm, w', hw', hx'⟩ := hlater
      obtain ⟨pre', post', rfl⟩ := List.append_of_mem hm
      have hsplit' : s.acked = (pre ++ n :: pre') ++ m :: post' := by rw [hsplit]; simp
      obtain ⟨k, hk, hrest⟩ := ih post'.length (by rw [← hlen]; simp; omega) post' rfl hsplit' hw'
        hx'
      exact ⟨k, List.mem_cons_of_mem _ (List.mem_append_right _ hk), hrest⟩
    · obtain rfl := hx.1
      refine ⟨n, List.mem_cons_self .., w, hw, hx, h.bytes pre n post w x hsplit hw hx ?_⟩
      exact fun m hm w' hw' hcov => hlater ⟨m, hm, w', hw', hcov⟩

/-- The byte in the cache is the one the write left. -/
theorem Landed.leftAt (h : Landed s) {n : Nat} {w : WriteRequest} {x : Nat} (hn : n ∈ s.acked)
    (hw : s.started[n]? = some w) (hx : w.Covers w.object x)
    (hlater : ∀ m w', n < m → s.started[m]? = some w' → ¬ w'.Covers w.object x) :
    ∃ v, LeftAt s n w x v ∧ s.container.cached w.object x = some v := by
  obtain ⟨pre, post, hsplit⟩ := List.append_of_mem hn
  obtain ⟨m, hm, w', hw', hx', hc⟩ := h.exists_last post hsplit hw hx
  refine ⟨_, ?_, hc⟩
  rcases Nat.lt_trichotomy m n with hlt | rfl | hgt
  · have hpost : m ∈ post := by
      rcases List.mem_cons.mp hm with rfl | hm
      · exact absurd hlt (Nat.lt_irrefl _)
      · exact hm
    exact Or.inr ⟨pre, post, m, w', hsplit, hpost, hlt, hw', hx', rfl⟩
  · obtain rfl := Option.some.inj (hw.symm.trans hw')
    exact Or.inl rfl
  · exact absurd hx' (hlater m w' hgt hw')

/-- **No acknowledged write is lost by a flush**, in every run whose flushes visit
no segment that a write in flight targets. -/
theorem kept_of_run {check : Bool} {sb : StorageBackend σ} (hsb : B.storageBackend = some sb)
    (hrel : sb.Reliable) (hinit : Initial B A check s₀)
    (hrun : Run (Step B) (fun s e => DurableScope e ∧ Gentle A s e) s₀ s) : Kept B s := by
  have hinv : DurableInv B A s := by
    refine hrun.invariant (I := DurableInv B A) ⟨hinit.inFlight, ?_, ?_⟩ fun h hg hstep =>
      durable_step hsb hrel h hg.1 hg.2 hstep
    · obtain ⟨m, st, -, -, rfl⟩ := hinit
      exact fun id k t ht => absurd ht List.not_mem_nil
    · obtain ⟨m, st, -, -, rfl⟩ := hinit
      exact ⟨fun pre n post w x hsplit => absurd hsplit (by simp [Server.new]),
        fun n hn => absurd hn List.not_mem_nil⟩
  intro n hn w hw x hx hlater
  have hwf := hinv.inFlight.sound.wf
  obtain ⟨v, hleft, hc⟩ := hinv.landed.leftAt hn hw hx hlater
  obtain ⟨k, t, ht, htx, hbyte⟩ := (cached_eq_some (hwf.layout _)).mp hc
  refine ⟨v, hleft, ⟨k, t, ht, htx, hbyte, ?_⟩, fun s' hok => ?_⟩
  · cases hd : t.dirty with
    | true => exact Or.inl rfl
    | false =>
      have h1 := htx.1
      have h2 := htx.2
      unfold ObjectSegment.stop at h2
      have := hinv.coherent _ k t ht hd (x - t.offset) (by omega)
      rw [show t.offset + (x - t.offset) = x by omega] at this
      exact Or.inr (this.symm.trans hbyte)
  · refine durable_of_flush hsb hrel hwf hinv.coherent ⟨_, hok⟩ ?_
    obtain ⟨-, rfl⟩ := Prod.mk.inj (Except.ok.inj hok)
    show ((s.container.getObject w.object).flush B w.object 0 0).2.cached w.object x = some v
    rw [cached_flush, cached_getObject]
    exact hc

/-! ## A flush between start and completion -/

/-- A write of 8 bytes to object 1. -/
def sampleWrite : WriteRequest := ⟨⟨1, 1⟩, 0, 8, fun _ => 7⟩

/-- A write is started, completed and flushed. -/
theorem kept_of_ordered : ∃ s, Run (Step localBackends)
      (fun s e => DurableScope e ∧ Gentle 8 s e) (localServer 8 9) s ∧ s.acked = [0] ∧
      Kept localBackends s := by
  have h1 : Run (Step localBackends) (fun s e => DurableScope e ∧ Gentle 8 s e) (localServer 8 9)
      ((localServer 8 9).after localBackends [.rdmaWrite sampleWrite]) :=
    .next (e := .rdmaWrite sampleWrite) .start
      ⟨trivial, by decide, by decide, by decide, fun k t ht => absurd ht List.not_mem_nil⟩ ⟨_, rfl⟩
  have h2 : Run (Step localBackends) (fun s e => DurableScope e ∧ Gentle 8 s e) (localServer 8 9)
      ((localServer 8 9).after localBackends [.rdmaWrite sampleWrite, .rdmaDone 0]) :=
    .next (e := .rdmaDone 0) h1 ⟨trivial, trivial⟩ ⟨_, rfl⟩
  have h3 : Run (Step localBackends) (fun s e => DurableScope e ∧ Gentle 8 s e) (localServer 8 9)
      ((localServer 8 9).after localBackends
        [.rdmaWrite sampleWrite, .rdmaDone 0, .flush ⟨1, 1⟩ 0 0]) :=
    .next (e := .flush ⟨1, 1⟩ 0 0) h2 ⟨trivial, fun p hp => absurd hp List.not_mem_nil⟩ ⟨_, rfl⟩
  exact ⟨_, h3, rfl, kept_of_run rfl byteStore_reliable (initial_localServer 8 9) h3⟩

/-- The write starts, a flush stores the old bytes of its segment, and its bytes
arrive. -/
def lostWrite : Server Malloc (ObjectId → Bytes) :=
  (localServer 8 9).after localBackends
    [.rdmaWrite sampleWrite, .flush ⟨1, 1⟩ 0 0, .rdmaDone 0]

theorem run_lostWrite : Run (Step localBackends) (fun _ e => DurableScope e) (localServer 8 9)
    lostWrite := by
  have h1 : Run (Step localBackends) (fun _ e => DurableScope e) (localServer 8 9)
      ((localServer 8 9).after localBackends [.rdmaWrite sampleWrite]) :=
    .next (e := .rdmaWrite sampleWrite) .start trivial ⟨_, rfl⟩
  have h2 : Run (Step localBackends) (fun _ e => DurableScope e) (localServer 8 9)
      ((localServer 8 9).after localBackends [.rdmaWrite sampleWrite, .flush ⟨1, 1⟩ 0 0]) :=
    .next (e := .flush ⟨1, 1⟩ 0 0) h1 trivial ⟨_, rfl⟩
  exact .next (e := .rdmaDone 0) h2 trivial ⟨_, rfl⟩

/-- **A write is lost**: its bytes are in a clean segment, and not on the
storage. -/
theorem write_lost_by_flush :
    ¬ ∀ (s₀ s : Server Malloc (ObjectId → Bytes)), Initial localBackends 8 false s₀ →
      Run (Step localBackends) (fun _ e => DurableScope e) s₀ s → Kept localBackends s := by
  intro hall
  have hstarted : lostWrite.started = [sampleWrite] := rfl
  obtain ⟨v, hleft, ⟨k, t, ht, -, -, hkept⟩, -⟩ := hall _ lostWrite (initial_localServer 8 9)
    run_lostWrite 0 (List.mem_cons_self ..) sampleWrite rfl 0 ⟨rfl, by decide, by decide⟩
    (fun m w hm hw => by
      rw [hstarted, List.getElem?_eq_none hm] at hw
      exact absurd hw (by simp))
  have hv : v = 7 := by
    rcases hleft with hv | ⟨-, -, m, -, -, -, hm, -⟩
    · exact hv
    · exact absurd hm (Nat.not_lt_zero m)
  have hentries : (lostWrite.container.segments ⟨1, 1⟩).entries = [(7, ⟨⟨0, 8⟩, 0, false⟩)] := rfl
  have ht' : (k, t) ∈ (lostWrite.container.segments ⟨1, 1⟩).entries := ht
  rw [hentries, List.mem_singleton] at ht'
  obtain ⟨-, rfl⟩ := Prod.mk.inj ht'
  subst hv
  exact absurd hkept (by decide)

end Server

end IoCatcher
