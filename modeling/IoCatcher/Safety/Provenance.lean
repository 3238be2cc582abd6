import IoCatcher.Safety.Coherence
import IoCatcher.Safety.Durability
import IoCatcher.Safety.EagerRead

/-!
# IO Catcher — where the bytes come from

`getBuffers` does not load a gap that a write is going to cover. For an RDMA
write the segment is in the map, and already dirty, before the data arrives;
until then, or for good when it never arrives, it shows what the allocator
left in the buffer. Nothing keeps a read or a flush away from it.

The positions in that state are not recorded by the server. `Traced` is the
server with a history variable for them, and changes none of its runs
(`traced_of_run`).

* `read_content`          — what a read answers is the content of the range;
* `genuine_of_run`        — every byte that is answered or stored was stored
  at the start or carried by a write, as long as reads and flushes keep away
  from the unfilled positions;
* `read_of_unfilled`      — a read between start and completion.
-/

namespace IoCatcher

open Container

variable {μ σ : Type} {B : Backends μ σ} {c : Container μ σ} {id : ObjectId} {A offset size x : Nat}

/-! ## What a read answers -/

/-- The bytes of an answer. -/
def Reply.bytes : Reply → List UInt8
  | .eager response => response.data
  | .rdma payload => payload
  | _ => []

namespace Server

variable {s s' s₀ : Server μ σ}

/-- The code can answer a read: an eager one is backed by a single segment, and
what `buildIovec` cuts off for an RDMA one fits an `int`. -/
def Answerable (A : Nat) (s : Server μ σ) (id : ObjectId) (offset size : Nat) : Prop :=
  if size ≤ eagerMaxRead then
    OneSegment s.container id (alignedBase A offset) (alignedEnd A offset size) offset size
  else Untruncated A s.container id offset size

/-- The answer to a read that got its buffers. -/
def readAnswer (size : Nat) (data : List UInt8) : Reply :=
  if size ≤ eagerMaxRead then .eager ⟨size, data⟩ else .rdma data

/-- An answer carries what the segments of the object hold when it is made. -/
theorem read_answers (h : Sound B A s) (hr : alignedEnd A offset size < 2 ^ 64) (hpos : 0 < size)
    (hans : Answerable A s id offset size) {uninitialised : Nat → LibfabricBuffer} {reply : Reply}
    (hok : s.read B id offset size uninitialised = .ok (reply, s')) {f : Nat → UInt8}
    (hf : ∀ {k t x}, s'.container.HasSegment id k t → t.Holds x →
      s'.container.memory.bytes t.memory.buffer (x - t.offset) = f x) :
    reply = .ack (-1) ∨
      reply = readAnswer size ((List.range size).map fun i => f (offset + i)) := by
  obtain ⟨c₁, hgrow, rfl, hack | ⟨run, hcov, hweave, hreply⟩⟩ := read_ok h.wf (h.rangeOk hr) hok
  · exact Or.inl hack
  refine Or.inr ?_
  obtain ⟨hbase, hend⟩ := h.rounded id hr
  rw [hend, hbase] at hcov hweave
  have hb := alignedBase_le A offset
  have he := le_alignedEnd A offset size
  obtain ⟨start, last, hstart, hlast, htiles⟩ := hcov.tiles
  unfold Answerable at hans
  unfold readAnswer
  rcases hreply with ⟨heager, r, rfl, hresp⟩ | ⟨hlarge, rfl⟩
  · -- one segment backs the whole answer
    rw [if_pos heager] at hans ⊢
    obtain ⟨w, rfl, hstop⟩ := (oneSegment_iff hpos hb hgrow hcov hweave).mpr hans
    have hoff : w.2.offset ≤ offset := htiles.1.trans_le (hstart.trans hb)
    have hexact := (payload_exact_iff (m := c₁.memory) hpos (hstart.trans hb) htiles
      (fun v hv => hgrow.layout.bound (hcov.held v hv))
      fun i => f (offset + i)).mpr ⟨w, rfl, hstop, fun i hi => ?_⟩
    · rw [hexact uninitialised] at hresp
      rw [Except.ok.inj hresp]
    · rw [← hf (hcov.held w (List.mem_singleton_self w)) (x := offset + i) ⟨by omega, by omega⟩]
      congr 1
      omega
  · rw [if_neg (by omega)] at hans ⊢
    have htrim := trimmed_of_untruncated hans hgrow (hgrow.aligned (h.wf.aligned id)) hcov hweave
    rw [rdmaPayload_eq (by omega) (fun w hw y hy => hf (hcov.held w hw) hy) htiles htrim,
      show max start offset = offset by omega,
      show min last (offset + size) - offset = size by omega, List.range'_eq_map_range,
      List.map_map]
    rfl

/-- **A read answers the content of its range.** -/
theorem read_content {sb : StorageBackend σ} (hsb : B.storageBackend = some sb) (h : Sound B A s)
    (hr : alignedEnd A offset size < 2 ^ 64) (hpos : 0 < size)
    (hans : Answerable A s id offset size) {uninitialised : Nat → LibfabricBuffer} {reply : Reply}
    (hok : s.read B id offset size uninitialised = .ok (reply, s')) :
    reply.bytes = [] ∨
      reply.bytes = (List.range size).map fun i => s.container.content B id (offset + i) := by
  obtain ⟨c₁, hgrow, rfl, -⟩ := read_ok h.wf (h.rangeOk hr) hok
  have hcontent : ∀ y, c₁.content B id y = s.container.content B id y := fun y =>
    hgrow.content (h.wf.layout id) fun _ _ => ⟨rfl, ⟨sb, hsb, Or.inl rfl⟩, by simp⟩
  have hbytes : ∀ {k t x}, c₁.HasSegment id k t → t.Holds x →
      c₁.memory.bytes t.memory.buffer (x - t.offset) = s.container.content B id x := by
    intro k t x ht hx
    rw [← hcontent, content_of_segment hgrow.layout ht hx]
  rcases read_answers h hr hpos hans hok hbytes with rfl | rfl
  · exact Or.inl rfl
  · refine Or.inr ?_
    unfold readAnswer
    split_ifs <;> rfl

/-! ## Unfilled positions -/

/-- The byte `v` was on the storage at position `x` when the server started, or
a write request carried it there. -/
def Genuine (B : Backends μ σ) (s₀ s : Server μ σ) (id : ObjectId) (x : Nat) (v : UInt8) : Prop :=
  v = s₀.container.disk B id x ∨ ∃ w ∈ s.started, w.Covers id x ∧ v = w.data (x - w.offset)

theorem Genuine.mono {v : UInt8} (h : Genuine B s₀ s id x v)
    (hst : ∀ w ∈ s.started, w ∈ s'.started) : Genuine B s₀ s' id x v :=
  h.imp_right fun ⟨w, hw, hx⟩ => ⟨w, hst w hw, hx⟩

/-- The start of the RDMA write `w` puts position `x` in a new segment without
loading it: the segment lies in the range of the write. -/
def Unloaded (s s' : Server μ σ) (w : WriteRequest) (id : ObjectId) (x : Nat) : Prop :=
  w.object = id ∧ s.container.cached id x = none ∧ ∃ k t, s'.container.HasSegment id k t ∧
    t.Holds x ∧ w.offset ≤ t.offset ∧ t.stop ≤ w.offset + w.size

/-- The unfilled positions after a step: those of new segments that were not
loaded, until a write that covers them has its data there. -/
def unfilledAfter (s s' : Server μ σ) (unfilled : ObjectId → Nat → Prop) (e : Event)
    (id : ObjectId) (x : Nat) : Prop :=
  match e with
  | .rdmaWrite w => unfilled id x ∨ Unloaded s s' w id x
  | .eagerWrite w => unfilled id x ∧ ¬ w.Covers id x
  | .rdmaDone number =>
    unfilled id x ∧ ∀ p, s.findPending number = some p → ¬ p.write.Covers id x
  | _ => unfilled id x

/-- A server and its unfilled positions. -/
structure Traced (μ σ : Type) where
  server   : Server μ σ
  unfilled : ObjectId → Nat → Prop

/-- A traced server before its first request. -/
def Traced.new (s₀ : Server μ σ) : Traced μ σ := ⟨s₀, fun _ _ => False⟩

/-- The steps are those of the server. -/
def Traced.Step (B : Backends μ σ) (t : Traced μ σ) (e : Event) (t' : Traced μ σ) : Prop :=
  t.server.Step B e t'.server ∧ t'.unfilled = unfilledAfter t.server t'.server t.unfilled e

/-- Tracing changes no run. -/
theorem traced_of_run {guard : Server μ σ → Event → Prop} (h : Run (Step B) guard s₀ s) :
    ∃ unfilled, Run (Traced.Step B) (fun t e => guard t.server e) (.new s₀) ⟨s, unfilled⟩ := by
  induction h with
  | start => exact ⟨_, .start⟩
  | next _ hg hstep ih =>
    obtain ⟨unfilled, hrun⟩ := ih
    exact ⟨unfilledAfter _ _ unfilled _, .next hrun hg ⟨hstep, rfl⟩⟩

/-- Writes, their completions and failures, reads and flushes. -/
def Transfers : Event → Prop
  | .eagerWrite _ | .rdmaWrite _ | .rdmaDone _ | .rdmaFail .. | .read .. | .flush .. => True
  | _ => False

/-- Reads and flushes keep away from the unfilled positions, and the requests
are those the code handles. -/
def FilledScope (A : Nat) (t : Traced μ σ) (e : Event) : Prop :=
  Transfers e ∧ InRange A e ∧
    match e with
    | .rdmaWrite w => Untruncated A t.server.container w.object w.offset w.size
    | .read id offset size _ => Answerable A t.server id offset size ∧
        ∀ x, offset ≤ x → x < offset + size → ¬ t.unfilled id x
    | .flush id offset size => ∀ k u, t.server.container.HasSegment id k u →
        flushed offset size u = true → ∀ x, u.Holds x → ¬ t.unfilled id x
    | _ => True

/-! ## One step -/

/-- What a run keeps: stored bytes are genuine, and so are cached ones where the
position is filled. -/
structure ProvenanceInv (B : Backends μ σ) (A : Nat) (s₀ : Server μ σ) (t : Traced μ σ) : Prop where
  inFlight : InFlight B A (fun _ => True) t.server
  stored   : ∀ id x, Genuine B s₀ t.server id x (t.server.container.disk B id x)
  cached   : ∀ id x v, t.server.container.cached id x = some v → ¬ t.unfilled id x →
    Genuine B s₀ t.server id x v

theorem Initial.provenance {check : Bool} (h : Initial B A check s₀) :
    ProvenanceInv B A s₀ (.new s₀) := by
  refine ⟨h.inFlight, fun id x => Or.inl rfl, fun id x v hv => ?_⟩
  obtain ⟨m, st, -, -, rfl⟩ := h
  have hnone : (Container.new A m st).cached id x = none := rfl
  exact absurd (hnone.symm.trans hv) (by simp)

/-- The content of a filled position is genuine. -/
theorem ProvenanceInv.content {t : Traced μ σ} (h : ProvenanceInv B A s₀ t)
    (hx : ¬ t.unfilled id x) : Genuine B s₀ t.server id x (t.server.container.content B id x) := by
  unfold Container.content
  cases hc : t.server.container.cached id x with
  | some v => exact h.cached id x v hc hx
  | none => exact h.stored id x

/-- A step that leaves the storage alone. -/
theorem ProvenanceInv.keep {t t' : Traced μ σ} (h : ProvenanceInv B A s₀ t)
    (hin : InFlight B A (fun _ => True) t'.server)
    (hst : ∀ w ∈ t.server.started, w ∈ t'.server.started)
    (hdisk : t'.server.container.disk B = t.server.container.disk B)
    (hc : ∀ id x v, t'.server.container.cached id x = some v → ¬ t'.unfilled id x →
      (t.server.container.cached id x = some v ∧ ¬ t.unfilled id x) ∨
        Genuine B s₀ t'.server id x v) : ProvenanceInv B A s₀ t' := by
  refine ⟨hin, fun id x => ?_, fun id x v hv hx => ?_⟩
  · rw [hdisk]
    exact (h.stored id x).mono hst
  · rcases hc id x v hv hx with ⟨hold, hx'⟩ | hgen
    · exact (h.cached id x v hold hx').mono hst
    · exact hgen

/-- Where the cached bytes of a container that grew for a write come from. -/
theorem cached_of_writeGrowth {g : Nat} {c c₁ : Container μ σ} {id₀ : ObjectId} {v : UInt8}
    (hread : Readable B true) (hnw : offset + size < 2 ^ 64) (hlay : LayoutOk (c.segments id₀))
    (hgrow : Grows B g (GapLoaded B offset size true true) c c₁ id₀)
    (hv : c₁.cached id x = some v) :
    c.cached id x = some v ∨ v = c.disk B id x ∨
      (id = id₀ ∧ c.cached id x = none ∧ ∃ k t, c₁.HasSegment id k t ∧ t.Holds x ∧
        offset ≤ t.offset ∧ t.stop ≤ offset + size) := by
  by_cases hid : id = id₀
  · subst hid
    rcases hgrow.cached_cases hlay hv with hold | ⟨hnone, k, t, ht, htx, hload⟩
    · exact Or.inl hold
    · by_cases hl : GapLoaded B offset size true true t.offset t.getSize
      · exact Or.inr (Or.inl (hload hl))
      · exact Or.inr (Or.inr ⟨rfl, hnone, k, t, ht, htx,
          inside_of_not_loaded hread hnw (hgrow.layout.bound ht) hl⟩)
  · rw [hgrow.cached_other hid] at hv
    exact Or.inl hv

section Step

variable {t t' : Traced μ σ} (hread : Readable B true) (h : ProvenanceInv B A s₀ t)
  (hin : InFlight B A (fun _ => True) t'.server)

include hread h hin

theorem provenance_eagerWrite {w : WriteRequest} {reply : Reply}
    (hr : alignedEnd A w.offset w.size < 2 ^ 64)
    (hok : t.server.eagerWrite B w = .ok (reply, t'.server))
    (hU : t'.unfilled = unfilledAfter t.server t'.server t.unfilled (.eagerWrite w)) :
    ProvenanceInv B A s₀ t' := by
  have hsound := h.inFlight.sound
  have hdata := eagerWrite_cached hsound hr hok
  obtain ⟨c₁, run, m, hgrow, hcov, hex, hst, -, hs'⟩ :=
    eagerWrite_ok hsound.wf (hsound.rangeOk hr) hok
  have hcont : t'.server.container =
      ({ c₁ with memory := m } : Container μ σ).markDirty w.object w.offset w.size := by rw [hs']
  have hstarted : t'.server.started = t.server.started ++ [w] := by rw [hs']
  have howned : Owned c₁ w.object run := .of_held hcov.held hex
  refine h.keep hin (fun v hv => by rw [hstarted]; exact List.mem_append_left _ hv) ?_
    fun id x v hv hx => ?_
  · rw [hcont, disk_markDirty]
    exact hgrow.disk
  · by_cases hcovers : w.Covers id x
    · rw [(hdata id x).1 hcovers] at hv
      refine Or.inr (Or.inr ⟨w, ?_, hcovers, (Option.some.inj hv).symm⟩)
      rw [hstarted]
      exact List.mem_append_right _ (List.mem_singleton_self w)
    · rw [hcont, cached_markDirty, howned.cached_outside hst fun hno =>
        hcovers ⟨hno.1.symm, hno.2.1, hno.2.2.1⟩] at hv
      rw [hU] at hx
      rcases cached_of_writeGrowth hread (Nat.lt_of_le_of_lt (le_alignedEnd ..) hr)
        (hsound.wf.layout _) hgrow hv with hold | hdisk | ⟨rfl, -, k, u, -, hux, h1, h2⟩
      · exact Or.inl ⟨hold, fun hno => hx ⟨hno, hcovers⟩⟩
      · rw [hdisk]
        refine Or.inr ((h.stored id x).mono fun v hv => ?_)
        rw [hstarted]
        exact List.mem_append_left _ hv
      · exact absurd ⟨rfl, h1.trans hux.1, hux.2.trans_le h2⟩ hcovers

theorem provenance_rdmaWrite {w : WriteRequest} {reply : Reply}
    (hr : alignedEnd A w.offset w.size < 2 ^ 64)
    (hok : t.server.rdmaWrite B w = (reply, t'.server))
    (hU : t'.unfilled = unfilledAfter t.server t'.server t.unfilled (.rdmaWrite w)) :
    ProvenanceInv B A s₀ t' := by
  have hsound := h.inFlight.sound
  obtain ⟨c₁, run, groups, hgrow, -, -, -, -, -, hs'⟩ :=
    rdmaWrite_ok hsound.wf (hsound.rangeOk hr) hok
  have hcont : t'.server.container = c₁.markDirty w.object w.offset w.size := by rw [hs']
  have hstarted : t'.server.started = t.server.started ++ [w] := by rw [hs']
  have hmono : ∀ v ∈ t.server.started, v ∈ t'.server.started := fun v hv => by
    rw [hstarted]
    exact List.mem_append_left _ hv
  refine h.keep hin hmono ?_ fun id x v hv hx => ?_
  · rw [hcont, disk_markDirty]
    exact hgrow.disk
  · rw [hcont, cached_markDirty] at hv
    rw [hU] at hx
    rcases cached_of_writeGrowth hread (Nat.lt_of_le_of_lt (le_alignedEnd ..) hr)
      (hsound.wf.layout _) hgrow hv with hold | hdisk | ⟨rfl, hnone, k, u, hu, hux, h1, h2⟩
    · exact Or.inl ⟨hold, fun hno => hx (Or.inl hno)⟩
    · rw [hdisk]
      exact Or.inr ((h.stored id x).mono hmono)
    · -- a new segment without data
      obtain ⟨u', hu', hsame⟩ := (sameSegments_markDirty c₁ w.object w.offset w.size).kept hu
      refine absurd (Or.inr ⟨rfl, hnone, k, u', ?_, hsame.holds.mpr hux, ?_, ?_⟩) hx
      · rw [hcont]
        exact hu'
      · rw [hsame.offset]
        exact h1
      · rw [hsame.stop]
        exact h2

omit hread in
theorem provenance_rdmaDone {number : Nat} (hs' : t'.server = (t.server.rdmaDone B number).2)
    (hU : t'.unfilled = unfilledAfter t.server t'.server t.unfilled (.rdmaDone number)) :
    ProvenanceInv B A s₀ t' := by
  have hstarted : t'.server.started = t.server.started := by
    rw [hs']
    exact (pending_rdmaDone t.server number).2.1
  refine h.keep hin (fun v hv => by rwa [hstarted]) ?_ fun id x v hv hx => ?_
  · obtain ⟨m, hm, -, -⟩ := rdmaDone_memory (B := B) t.server number
    rw [hs', hm]
    rfl
  · rw [hU] at hx
    cases hfind : t.server.findPending number with
    | none =>
      have hsame : t'.server = t.server := by
        rw [hs', rdmaDone, hfind]
      rw [hsame] at hv
      refine Or.inl ⟨hv, fun hno => hx ⟨hno, fun p hp => ?_⟩⟩
      exact absurd (hfind.symm.trans hp) (by simp)
    | some p =>
      obtain ⟨run, hf, -⟩ := h.inFlight.aloft p (findPending_spec hfind).1
      have hwf := h.inFlight.sound.wf
      have hcached := landed_cached (hwf.layout p.write.object) hf (hf.stored hwf.memoryOk) id x
      rw [hs', container_rdmaDone hfind] at hv
      by_cases hcovers : p.write.Covers id x
      · rw [hcached.1 hcovers] at hv
        refine Or.inr (Or.inr ⟨p.write, ?_, hcovers, (Option.some.inj hv).symm⟩)
        rw [hstarted]
        exact List.mem_of_getElem? (h.inFlight.request p (findPending_spec hfind).1)
      · rw [hcached.2 hcovers] at hv
        refine Or.inl ⟨hv, fun hno => hx ⟨hno, fun q hq => ?_⟩⟩
        obtain rfl : p = q := Option.some.inj (hfind.symm.trans hq)
        exact hcovers

omit hread in
theorem provenance_rdmaFail {number : Nat} {landed : RdmaGroup → Bool}
    (hs' : t'.server = (t.server.rdmaFail B number landed).2) (hU : t'.unfilled = t.unfilled) :
    ProvenanceInv B A s₀ t' := by
  have hstarted : t'.server.started = t.server.started := by
    rw [hs']
    exact (pending_rdmaFail t.server number landed).2.1
  refine h.keep hin (fun v hv => by rwa [hstarted]) ?_ fun id x v hv hx => ?_
  · obtain ⟨m, hm, -, -⟩ := rdmaFail_memory (B := B) t.server number landed
    rw [hs', hm]
    rfl
  · rw [hU] at hx
    cases hfind : t.server.findPending number with
    | none =>
      have hsame : t'.server = t.server := by
        rw [hs', rdmaFail, hfind]
      rw [hsame] at hv
      exact Or.inl ⟨hv, hx⟩
    | some p =>
      obtain ⟨run, hf, -⟩ := h.inFlight.aloft p (findPending_spec hfind).1
      have hwf := h.inFlight.sound.wf
      obtain ⟨sub, hsub, hst⟩ := hf.stored_part hwf.memoryOk landed
      have howned := hf.toOwned.sublist hsub
      rw [hs', container_rdmaFail hfind] at hv
      by_cases hlanded : id = p.write.object ∧ p.write.offset ≤ x ∧
          x < p.write.offset + p.write.size ∧ ∃ w ∈ sub, w.2.Holds x
      · obtain ⟨rfl, h1, h2, w, hw, hwx⟩ := hlanded
        rw [howned.cached_inside hst (hwf.layout _) ⟨h1, h2⟩ hw hwx] at hv
        refine Or.inr (Or.inr ⟨p.write, ?_, ⟨rfl, h1, h2⟩, (Option.some.inj hv).symm⟩)
        rw [hstarted]
        exact List.mem_of_getElem? (h.inFlight.request p (findPending_spec hfind).1)
      · rw [howned.cached_outside hst hlanded] at hv
        exact Or.inl ⟨hv, hx⟩

theorem provenance_read {uninitialised : Nat → LibfabricBuffer} {reply : Reply}
    (hr : alignedEnd A offset size < 2 ^ 64)
    (hok : t.server.read B id offset size uninitialised = .ok (reply, t'.server))
    (hU : t'.unfilled = t.unfilled) : ProvenanceInv B A s₀ t' := by
  have hsound := h.inFlight.sound
  obtain ⟨c₁, hgrow, hs', -⟩ := read_ok hsound.wf (hsound.rangeOk hr) hok
  have hcont : t'.server.container = c₁ := by rw [hs']
  have hstarted : t'.server.started = t.server.started := by rw [hs']
  refine h.keep hin (fun v hv => by rwa [hstarted]) (by rw [hcont]; exact hgrow.disk)
    fun id' x v hv hx => ?_
  rw [hU] at hx
  rw [hcont] at hv
  by_cases hid : id' = id
  · subst hid
    rcases hgrow.cached_cases (hsound.wf.layout _) hv with hold | ⟨-, k, u, -, -, hload⟩
    · exact Or.inl ⟨hold, hx⟩
    · obtain ⟨sb, hsb, -⟩ := hread
      rw [hload ⟨rfl, ⟨sb, hsb, Or.inl rfl⟩, by simp⟩]
      refine Or.inr ((h.stored id' x).mono fun v hv => ?_)
      rwa [hstarted]
  · rw [hgrow.cached_other hid] at hv
    exact Or.inl ⟨hv, hx⟩

end Step

/-- What a flush leaves on the storage: the bytes of the segments it writes, and
elsewhere what there was. -/
theorem disk_flush_cases {g : Nat} {sb : StorageBackend σ} (hsb : B.storageBackend = some sb)
    (hrel : sb.Reliable) (hwf : Wf B g c) (id id' : ObjectId) (offset size x : Nat) :
    (c.flush B id offset size).2.disk B id' x = c.disk B id' x ∨
      (id' = id ∧ ∃ k u, c.HasSegment id k u ∧ flushed offset size u = true ∧ u.Holds x ∧
        (c.flush B id offset size).2.disk B id' x =
          c.memory.bytes u.memory.buffer (x - u.offset)) := by
  by_cases hin : id' = id ∧ ∃ k u, c.HasSegment id k u ∧ flushed offset size u = true ∧ u.Holds x
  · obtain ⟨rfl, k, u, hu, hfl, hux⟩ := hin
    refine Or.inr ⟨rfl, k, u, hu, hfl, hux, ?_⟩
    exact disk_flush_stored hsb hrel (hwf.layout id') hu hfl hux
  · refine Or.inl (disk_flush ?_)
    by_cases hid : id' = id
    · exact Or.inr fun {k u} hu hfl hux => hin ⟨hid, k, u, hu, hfl, hux⟩
    · exact Or.inl hid

theorem provenance_flush {t t' : Traced μ σ} {sb : StorageBackend σ}
    (hsb : B.storageBackend = some sb) (hrel : sb.Reliable) (h : ProvenanceInv B A s₀ t)
    (hin : InFlight B A (fun _ => True) t'.server)
    (hfilled : ∀ k u, t.server.container.HasSegment id k u → flushed offset size u = true →
      ∀ x, u.Holds x → ¬ t.unfilled id x)
    (hs' : t'.server = (t.server.flush B id offset size).2) (hU : t'.unfilled = t.unfilled) :
    ProvenanceInv B A s₀ t' := by
  have hwf := h.inFlight.sound.wf
  have hcont : t'.server.container =
      ((t.server.container.getObject id).flush B id offset size).2 := by rw [hs']; rfl
  have hmono : ∀ w ∈ t.server.started, w ∈ t'.server.started := fun w hw => by rwa [hs']
  have hcached : ∀ id' x, t'.server.container.cached id' x = t.server.container.cached id' x := by
    intro id' x
    rw [hcont, cached_flush, cached_getObject]
  refine ⟨hin, fun id' x => ?_, fun id' x v hv hx => ?_⟩
  · rw [hcont]
    rcases disk_flush_cases hsb hrel (hwf.getObject id) id id' offset size x with
      hsame | ⟨rfl, k, u, hu, hfl, hux, hbyte⟩
    · rw [hsame]
      exact (h.stored id' x).mono hmono
    · -- the segment is filled, so its bytes are genuine
      have hu' : t.server.container.HasSegment id' k u := by
        unfold HasSegment at hu ⊢
        rwa [segments_getObject] at hu
      rw [hbyte]
      refine (h.cached id' x _ ?_ (hfilled k u hu' hfl x hux)).mono hmono
      exact cached_of_segment (hwf.layout id') hu' hux
  · rw [hcached] at hv
    rw [hU] at hx
    exact (h.cached id' x v hv hx).mono hmono

/-- **Every step of the scope keeps the bytes genuine.** -/
theorem provenance_step {t t' : Traced μ σ} {e : Event} {sb : StorageBackend σ}
    (hsb : B.storageBackend = some sb) (hrel : sb.Reliable) (h : ProvenanceInv B A s₀ t)
    (hscope : FilledScope A t e) (hstep : Traced.Step B t e t') : ProvenanceInv B A s₀ t' := by
  obtain ⟨htransfer, hr, hscope⟩ := hscope
  obtain ⟨hstep, hU⟩ := hstep
  have hread : Readable B true := ⟨sb, hsb, Or.inr hrel⟩
  have hin : InFlight B A (fun _ => True) t'.server := by
    refine inFlight_step (fun _ _ => trivial) h.inFlight hr ?_ ?_ hstep
    · cases e with
      | rdmaWrite w => exact hscope
      | flush id offset size => exact fun _ _ _ _ _ _ _ _ => trivial
      | _ => trivial
    · rintro src dst allowExist offset size rfl
      exact htransfer.elim
  obtain ⟨reply, hok⟩ := hstep
  cases e with
  | eagerWrite w => exact provenance_eagerWrite hread h hin hr hok hU
  | rdmaWrite w => exact provenance_rdmaWrite hread h hin hr (Except.ok.inj hok) hU
  | rdmaDone number =>
    exact provenance_rdmaDone h hin (congrArg Prod.snd (Except.ok.inj hok)).symm hU
  | rdmaFail number landed =>
    exact provenance_rdmaFail h hin (congrArg Prod.snd (Except.ok.inj hok)).symm hU
  | read id offset size uninitialised => exact provenance_read hread h hin hr hok hU
  | flush id offset size =>
    exact provenance_flush hsb hrel h hin hscope (congrArg Prod.snd (Except.ok.inj hok)).symm hU
  | _ => exact htransfer.elim

/-! ## Runs -/

/-- What the storage holds, and what a read that is in scope answers, is
genuine. -/
structure NoInventedBytes (B : Backends μ σ) (A : Nat) (s₀ : Server μ σ) (t : Traced μ σ) :
    Prop where
  stored   : ∀ id x, Genuine B s₀ t.server id x (t.server.container.disk B id x)
  answered : ∀ id offset size uninitialised reply s',
    FilledScope A t (.read id offset size uninitialised) →
    t.server.exec B (.read id offset size uninitialised) = .ok (reply, s') →
    ∀ i < size, ∀ v, reply.bytes[i]? = some v → Genuine B s₀ t.server id (offset + i) v

/-- **No invented bytes**, in every state of every run in which reads and
flushes keep away from the positions that wait for the data of a write. -/
theorem genuine_of_run {check : Bool} {sb : StorageBackend σ} {t : Traced μ σ}
    (hsb : B.storageBackend = some sb) (hrel : sb.Reliable) (hinit : Initial B A check s₀)
    (hrun : Run (Traced.Step B) (FilledScope A) (.new s₀) t) : NoInventedBytes B A s₀ t := by
  have hinv : ProvenanceInv B A s₀ t := hrun.invariant hinit.provenance
    fun h hscope hstep => provenance_step hsb hrel h hscope hstep
  refine ⟨hinv.stored, fun id offset size uninitialised reply s' hscope hok i hi v hv => ?_⟩
  obtain ⟨-, hr, hans, hfilled⟩ := hscope
  rcases read_content hsb hinv.inFlight.sound hr (by omega) hans hok with hbytes | hbytes
  · rw [hbytes] at hv
    exact absurd hv (by simp)
  · rw [hbytes, List.getElem?_map, List.getElem?_range hi] at hv
    rw [← Option.some.inj hv]
    exact hinv.content (hfilled _ (by omega) (by omega))

/-! ## A read between start and completion -/

/-- The next traced server. -/
def Traced.after (B : Backends μ σ) (t : Traced μ σ) (e : Event) : Traced μ σ :=
  ⟨t.server.after B [e], unfilledAfter t.server (t.server.after B [e]) t.unfilled e⟩

/-- A write is started and completed, then its object is flushed. -/
theorem genuine_of_ordered : ∃ t, Run (Traced.Step localBackends) (FilledScope 8)
      (.new (localServer 8 9)) t ∧ t.server.container.disk localBackends ⟨1, 1⟩ 0 = 7 ∧
      NoInventedBytes localBackends 8 (localServer 8 9) t := by
  have h1 : Run (Traced.Step localBackends) (FilledScope 8) (.new (localServer 8 9))
      ((Traced.new (localServer 8 9)).after localBackends (.rdmaWrite sampleWrite)) :=
    .next (e := .rdmaWrite sampleWrite) .start
      ⟨trivial, by decide, by decide, by decide, fun k t ht => absurd ht List.not_mem_nil⟩
      ⟨⟨_, rfl⟩, rfl⟩
  have h2 : Run (Traced.Step localBackends) (FilledScope 8) (.new (localServer 8 9))
      (((Traced.new (localServer 8 9)).after localBackends (.rdmaWrite sampleWrite)).after
        localBackends (.rdmaDone 0)) :=
    .next (e := .rdmaDone 0) h1 ⟨trivial, trivial, trivial⟩ ⟨⟨_, rfl⟩, rfl⟩
  have h3 : Run (Traced.Step localBackends) (FilledScope 8) (.new (localServer 8 9))
      ((((Traced.new (localServer 8 9)).after localBackends (.rdmaWrite sampleWrite)).after
        localBackends (.rdmaDone 0)).after localBackends (.flush ⟨1, 1⟩ 0 0)) := by
    refine .next (e := .flush ⟨1, 1⟩ 0 0) h2 ⟨trivial, trivial, fun k u hu _ x hx hno => ?_⟩
      ⟨⟨_, rfl⟩, rfl⟩
    -- the completed write covers the only segment
    have hu' : (k, u) ∈ [(7, (⟨⟨0, 8⟩, 0, true⟩ : ObjectSegment))] := hu
    obtain ⟨-, rfl⟩ := Prod.mk.inj (List.mem_singleton.mp hu')
    exact hno.2 _ rfl ⟨rfl, hx.1, hx.2⟩
  exact ⟨_, h3, by decide, genuine_of_run rfl byteStore_reliable (initial_localServer 8 9) h3⟩

/-- **A read answers what the allocator left**: a write of object 1 is started,
and a read of its range comes before its data. -/
theorem read_of_unfilled :
    ¬ ∀ (s₀ s s' : Server Malloc (ObjectId → Bytes)) (id : ObjectId) (offset size : Nat)
      (uninitialised : Nat → LibfabricBuffer) (reply : Reply), Initial localBackends 8 false s₀ →
      Run (Step localBackends) (fun _ e => Transfers e) s₀ s →
      s.exec localBackends (.read id offset size uninitialised) = .ok (reply, s') →
      ∀ i < size, ∀ v, reply.bytes[i]? = some v → Genuine localBackends s₀ s id (offset + i) v := by
  intro hall
  have hrun : Run (Step localBackends) (fun _ e => Transfers e) (localServer 8 9)
      ((localServer 8 9).after localBackends [.rdmaWrite sampleWrite]) :=
    .next (e := .rdmaWrite sampleWrite) .start trivial ⟨_, rfl⟩
  have hgen := hall _ _ _ ⟨1, 1⟩ 0 8 (fun _ => ⟨⟨0, 0⟩, 0⟩) _ (initial_localServer 8 9) hrun rfl 0
    (by decide) 9 (by decide)
  rcases hgen with hdisk | ⟨w, hw, -, hv⟩
  · exact absurd hdisk (by decide)
  · have hw' : w ∈ [sampleWrite] := hw
    rw [List.mem_singleton.mp hw'] at hv
    exact absurd hv (by decide)

end Server

end IoCatcher
