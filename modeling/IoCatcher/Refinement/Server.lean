import IoCatcher.Refinement.Copies
import IoCatcher.Refinement.ObjectStore
import IoCatcher.Safety.Answers
import IoCatcher.Safety.EagerWrite

/-!
# IO Catcher — the server is an object store

Segments, buffers, flags and writes in flight behind the requests, and an `ObjectStore` in
front of them: the byte a position shows is the cached one or the stored one, the kept
bytes are those of the storage, the open writes are the pending ones. On requests that the
code handles (`Orderly`), every step of the server is one of the store, with the same
answer; a server that is started on the storage of one that died is the restart of the
store.

* `serves_of_exec`     — one request;
* `objectStore_of_run` — every run, restarts included, is a run of the store with the same
  requests and answers;
* `recovered_of_flush` — what a flush has stored survives.
-/

namespace IoCatcher

open Container

namespace Server

variable {μ σ : Type} {B : Backends μ σ} {s s' s₀ : Server μ σ} {A : Nat} {reply : Reply}

-- ---------------------------------------------------------------------------
-- Statement
-- ---------------------------------------------------------------------------

/-- The object store that a server is. -/
def store (B : Backends μ σ) (s : Server μ σ) : ObjectStore where
  shown k := s.container.content B k.1 k.2
  kept k := s.container.disk B k.1 k.2
  opened := s.pending.map fun p => (p.number, p.write)

/-- A copy reaches all of the source: past its cached segments the storage has the same
bytes for both objects (a whole copy), or whatever is not cached agrees, the parts fit and
a flush will save them (a copy of a range). -/
def CowWhole (B : Backends μ σ) (A : Nat) (c : Container μ σ) (src dst : ObjectId)
    (offset size : Nat) : Prop :=
  if size = 0 then src ≠ dst ∧
    ∀ x < 2 ^ 64, PastSegments c src x → c.disk B dst x = c.disk B src x
  else StorageAgrees B c src dst offset size ∧ PartsFit A c src dst offset size ∧
    SavesRange B c src dst offset size

/-- The requests the code handles: ranges that it can address, no flush of a segment that
a write in flight targets, and copies that reach all of their source and stay apart from
the writes in flight. -/
def Orderly (B : Backends μ σ) (A : Nat) (s : Server μ σ) : Event → Prop
  | .eagerWrite w => alignedEnd A w.offset w.size < 2 ^ 64
  | .rdmaWrite w => alignedEnd A w.offset w.size < 2 ^ 64 ∧
      Untruncated A s.container w.object w.offset w.size
  | .read id offset size _ => alignedEnd A offset size < 2 ^ 64 ∧ 0 < size ∧
      Answerable A s id offset size
  | .flush id offset size => offset + size < 2 ^ 64 ∧ Gentle A s (.flush id offset size)
  | .cow src dst allowExist offset size => alignedEnd A offset size < 2 ^ 64 ∧
      CowApart s src dst allowExist offset size ∧ CowWhole B A s.container src dst offset size
  | _ => True

/-- The storage that a server leaves behind: as it is, or as it is in the middle of a
flush. -/
def storageAt (B : Backends μ σ) (s : Server μ σ) : Option FlushCut → σ
  | none => s.container.storage
  | some f => (flushSegments B f.id f.offset f.size
      ((s.container.segments f.id).entries.take f.visited) 0 s.container).2.storage

/-- One step of a server that is restarted when it dies, on orderly requests. -/
def Lives (B : Backends μ σ) (A : Nat) (check : Bool) (s : Server μ σ) (l : Label)
    (s' : Server μ σ) : Prop :=
  match l.1 with
  | .request e => Orderly B A s e ∧ s.exec B e = .ok (l.2, s')
  | .restart cut => l.2 = .nothing ∧ Initial B A check s' ∧
      s'.container.storage = s.storageAt B cut

/-- What every state of such a server has: clean segments agree with the storage, and the
writes in flight target dirty ones. -/
structure Backed (B : Backends μ σ) (A : Nat) (s : Server μ σ) : Prop where
  inFlight : InFlight B A (fun t => t.dirty = true) s
  coherent : Coherent B s.container

theorem Initial.backed {check : Bool} (h : Initial B A check s) : Backed B A s := by
  refine ⟨h.inFlight, ?_⟩
  obtain ⟨m, st, -, -, rfl⟩ := h
  exact fun id k t ht => absurd ht List.not_mem_nil

-- ---------------------------------------------------------------------------
-- The open writes of the store
-- ---------------------------------------------------------------------------

theorem findOpened_store (s : Server μ σ) (number : Nat) :
    (s.store B).findOpened number = (s.findPending number).map PendingWrite.write := by
  unfold ObjectStore.findOpened findPending store
  dsimp only
  rw [List.find?_map, Option.map_map]
  rfl

theorem closed_store (s : Server μ σ) (number : Nat) : (s.store B).closed number =
    (s.pending.filter fun q => q.number ≠ number).map fun p => (p.number, p.write) := by
  unfold ObjectStore.closed store
  rw [List.filter_map]
  rfl

/-- Two servers with the same content, storage and writes in flight. -/
theorem store_congr (hshown : ∀ id x, s'.container.content B id x = s.container.content B id x)
    (hkept : s'.container.disk B = s.container.disk B) (hopened : s'.pending = s.pending) :
    s'.store B = s.store B := by
  unfold store
  rw [hkept, hopened, show (fun k : ObjectId × Nat => s'.container.content B k.1 k.2) =
    fun k => s.container.content B k.1 k.2 from funext fun k => hshown k.1 k.2]

-- ---------------------------------------------------------------------------
-- Bytes outside of a write
-- ---------------------------------------------------------------------------

/-- What `getBuffers` does not load for a write lies in the write. -/
theorem content_of_writeGrowth {g : Nat} {c c₁ : Container μ σ} {w : WriteRequest}
    (hread : Readable B true) (hnw : w.offset + w.size < 2 ^ 64)
    (hlay : LayoutOk (c.segments w.object))
    (hgrow : Grows B g (GapLoaded B w.offset w.size true true) c c₁ w.object) {id : ObjectId}
    {x : Nat} (hx : ¬ w.Covers id x) : c₁.content B id x = c.content B id x := by
  unfold content
  rw [hgrow.disk]
  cases hc : c.cached id x with
  | some v =>
    by_cases hid : id = w.object
    · subst hid
      rw [hgrow.cached hlay hc]
    · rw [hgrow.cached_other hid, hc]
  | none =>
    cases hc₁ : c₁.cached id x with
    | none => rfl
    | some v =>
      rcases cached_of_writeGrowth hread hnw hlay hgrow hc₁ with hold | hdisk |
        ⟨rfl, -, k, u, -, hux, h1, h2⟩
      · exact absurd (hc.symm.trans hold) (by simp)
      · exact hdisk
      · exact absurd ⟨rfl, h1.trans hux.1, hux.2.trans_le h2⟩ hx

/-- The content where a store does not reach. -/
theorem content_outside {c : Container μ σ} {m : Memory μ} {id : ObjectId} {w : WriteRequest}
    {run : List (Nat × ObjectSegment)} {x : Nat} (hown : Owned c w.object run)
    (hst : Stored c.memory m w.data w.offset w.size run) (hx : ¬ w.Covers id x) :
    ({ c with memory := m } : Container μ σ).content B id x = c.content B id x := by
  unfold content
  rw [hown.cached_outside hst fun hin => hx ⟨hin.1.symm, hin.2.1, hin.2.2.1⟩]
  rfl

theorem content_markDirty (c : Container μ σ) (id : ObjectId) (base size : Nat) (id' : ObjectId)
    (x : Nat) : (c.markDirty id base size).content B id' x = c.content B id' x := by
  unfold content
  rw [cached_markDirty, disk_markDirty]

/-- A store into dirty segments keeps the coherence. -/
theorem coherent_stored {c : Container μ σ} {m : Memory μ} {id : ObjectId} {data : Bytes}
    {offset size : Nat} {run : List (Nat × ObjectSegment)} (h : Coherent B c)
    (hown : Owned c id run) (hd : ∀ w ∈ run, ∀ t, c.HasSegment id w.1 t → t.dirty = true)
    (hst : Stored c.memory m data offset size run) :
    Coherent B ({ c with memory := m } : Container μ σ) := by
  intro id' k t ht hclean i hi
  have ht' : c.HasSegment id' k t := ht
  rcases hown.bytes_segment hst ht' with ⟨rfl, w, hw, rfl, -⟩ | hbytes
  · exact absurd (hd w hw t ht') (by simp [hclean])
  · show m.bytes t.memory.buffer i = c.disk B id' (t.offset + i)
    rw [hbytes]
    exact h id' k t ht' hclean i hi

-- ---------------------------------------------------------------------------
-- A storage that works
-- ---------------------------------------------------------------------------

section Storage

variable {c : Container μ σ} {id : ObjectId} {offset size : Nat}

/-- A read that the storage serves is not refused. -/
theorem read_ne_refused {sb : StorageBackend σ} (hsb : B.storageBackend = some sb)
    (hrel : sb.Reliable) {g : Nat} (hwf : Wf B g s.container)
    (hr : RangeOk g (s.container.object id).alignement offset size)
    {uninitialised : Nat → LibfabricBuffer}
    (hok : s.read B id offset size uninitialised = .ok (reply, s')) : reply ≠ .ack (-1) := by
  obtain ⟨r, hget⟩ : ∃ r, (s.container.getObject id).getBuffers B id offset size .read true
    false = r := ⟨_, rfl⟩
  obtain ⟨-, hnone, -⟩ := getBuffers_getObject hwf hr hget
  rintro rfl
  unfold read at hok
  rw [hget] at hok
  obtain ⟨r1, c₂⟩ := r
  cases r1 with
  | none => exact (hnone rfl).2 (readable_of_reliable hsb hrel true)
  | some l =>
    dsimp only at hok
    split_ifs at hok
    · split at hok
      · exact absurd hok (by simp)
      · exact absurd (Prod.mk.inj (Except.ok.inj hok)).1 (by simp)
    · exact absurd (Prod.mk.inj (Except.ok.inj hok)).1 (by simp)

/-- A flush that the storage serves answers 0. -/
theorem flushSegments_status {sb : StorageBackend σ} (hsb : B.storageBackend = some sb)
    (hrel : sb.Reliable) {es : List (Nat × ObjectSegment)} (hb : ∀ e ∈ es, e.2.stop < 2 ^ 64) :
    ∀ c : Container μ σ, (flushSegments B id offset size es 0 c).1 = 0 := by
  induction es with
  | nil => exact fun _ => rfl
  | cons e rest ih =>
    intro c
    have hrest := ih fun e he => hb e (List.mem_cons_of_mem _ he)
    have hsize : e.2.getSize < 2 ^ 64 := by
      have := hb e (List.mem_cons_self ..)
      unfold ObjectSegment.stop at this
      omega
    unfold flushSegments
    split_ifs with hfl
    · dsimp only
      rw [if_neg (not_not.mpr (pwrite_reliable hsb hrel hsize).1)]
      exact hrest _
    · exact hrest c

/-- What some turns of a flush leave on the storage: what was there, or the content. -/
theorem disk_flushPart {sb : StorageBackend σ} (hsb : B.storageBackend = some sb)
    (hrel : sb.Reliable) (hlay : LayoutOk (c.segments id)) {es : List (Nat × ObjectSegment)}
    (hsub : es.Sublist (c.segments id).entries) (id' : ObjectId) (x : Nat) :
    (flushSegments B id offset size es 0 c).2.disk B id' x = c.disk B id' x ∨
      id' = id ∧ (flushSegments B id offset size es 0 c).2.disk B id' x =
        c.content B id' x := by
  by_cases hwritten : id' = id ∧ ∃ e ∈ es, flushed offset size e.2 = true ∧ e.2.Holds x
  · obtain ⟨rfl, e, he, hfl, hx⟩ := hwritten
    have hheld : c.HasSegment id' e.1 e.2 := hsub.subset he
    refine Or.inr ⟨rfl, ?_⟩
    rw [flushSegments_stored hsb hrel 0 (hlay.pairwise.sublist hsub)
      (fun e he => hlay.bound (k := e.1) (hsub.subset he)) he hfl hx,
      content_of_segment hlay hheld hx]
  · refine Or.inl (disk_flushSegments ?_)
    by_cases hid : id' = id
    · exact Or.inr fun e he hfl hx => hwritten ⟨hid, e, he, hfl, hx⟩
    · exact Or.inl hid

/-- A flush visits every dirty segment that holds a position of its range. -/
theorem flushed_of_holds (hlay : LayoutOk (c.segments id)) {k x : Nat} {t : ObjectSegment}
    (ht : c.HasSegment id k t) (hnw : offset + size < 2 ^ 64) (hd : t.dirty = true)
    (hx : t.Holds x) (hin : ObjectStore.InSpan offset size x) : flushed offset size t = true := by
  unfold flushed
  rw [hd, Bool.true_and, Bool.or_eq_true, decide_eq_true_eq, hlay.overlap_iff ht,
    SizeT.add_eq hnw]
  refine hin.imp_right fun hr => ?_
  have h1 := hx.1
  have h2 := hx.2
  omega

/-- A full copy changes no content but that of its destination. -/
theorem content_of_fullCow {c' : Container μ σ} {src dst : ObjectId} {x : Nat}
    (h : FullCopied B src dst c c') (hid : id ≠ dst) : c'.content B id x = c.content B id x := by
  have hcached : c'.cached id x = c.cached id x := by
    refine cached_congr ?_ fun _ => by rw [h.bytes]
    rw [h.segments, if_neg hid]
  unfold content
  rw [hcached, h.disk hid]

end Storage

-- ---------------------------------------------------------------------------
-- One request
-- ---------------------------------------------------------------------------

section Requests

variable {sb : StorageBackend σ} (hsb : B.storageBackend = some sb) (hrel : sb.Reliable)
  (h : Backed B A s)

include hsb hrel h

theorem serves_eagerWrite {w : WriteRequest} (hr : alignedEnd A w.offset w.size < 2 ^ 64)
    (hok : s.eagerWrite B w = .ok (reply, s')) :
    (s.store B).Serves (.eagerWrite w) reply (s'.store B) ∧ Coherent B s'.container := by
  have hsound := h.inFlight.sound
  have hnw := Nat.lt_of_le_of_lt (le_alignedEnd A w.offset w.size) hr
  have hdata := eagerWrite_cached hsound hr hok
  obtain ⟨c₁, run, m, hgrow, hcov, hex, hst, rfl, rfl⟩ :=
    eagerWrite_ok hsound.wf (hsound.rangeOk hr) hok
  have hown : Owned c₁ w.object run := .of_held hcov.held hex
  have hread := readable_of_reliable hsb hrel true
  refine ⟨⟨rfl, ⟨fun x hx => ?_, fun id x hx => ?_⟩, ?_, rfl⟩,
    h.coherent.write hread hnw hgrow hcov.held hex hst⟩
  · show content B _ w.object x = _
    unfold content
    rw [(hdata w.object x).1 hx]
    rfl
  · show content B _ id x = _
    rw [content_markDirty, content_outside hown hst hx,
      content_of_writeGrowth hread hnw (hsound.wf.layout _) hgrow hx]
    rfl
  · show (fun k : ObjectId × Nat => c₁.disk B k.1 k.2) = _
    rw [hgrow.disk]
    rfl

theorem serves_rdmaWrite {w : WriteRequest} (hr : alignedEnd A w.offset w.size < 2 ^ 64)
    (hun : Untruncated A s.container w.object w.offset w.size)
    (hok : s.rdmaWrite B w = (reply, s')) :
    (s.store B).Serves (.rdmaWrite w) reply (s'.store B) ∧ Coherent B s'.container := by
  have hsound := h.inFlight.sound
  have hnw := Nat.lt_of_le_of_lt (le_alignedEnd A w.offset w.size) hr
  have hread := readable_of_reliable hsb hrel true
  obtain ⟨-, -, -, -, -, -, -, hreply, -, -⟩ := rdmaWrite_ok hsound.wf (hsound.rangeOk hr) hok
  obtain ⟨c₁, run, groups, hgrow, -, hflight, rfl⟩ := rdmaWrite_flight hsound hr hun hok
  refine ⟨⟨hreply, fun id x hx => ?_, ?_, ?_⟩, ?_⟩
  · show content B (c₁.markDirty w.object w.offset w.size) id x = _
    rw [content_markDirty, content_of_writeGrowth hread hnw (hsound.wf.layout _) hgrow hx]
    rfl
  · show (fun k : ObjectId × Nat => c₁.disk B k.1 k.2) = _
    rw [hgrow.disk]
    rfl
  · show (∃ number, (s.store B).findOpened number = none ∧
        (if groups = [] then s.pending else s.pending ++ [⟨s.started.length, w, groups⟩]).map
          (fun p => (p.number, p.write)) = (s.store B).opened ++ [(number, w)]) ∨ w.size = 0 ∧ _
    by_cases hnil : groups = []
    · refine Or.inr ⟨?_, by rw [if_pos hnil]; rfl⟩
      -- a write of some byte has a segment, and so a group
      by_contra hpos
      have hcov : w.Covers w.object w.offset := ⟨rfl, Nat.le_refl _, by omega⟩
      obtain ⟨v, hv, -⟩ := hflight.exists_holds hcov
      have hlen := congrArg List.length
        ((hnil.symm.trans hflight.groups).trans (rdmaGroups_eq run w.offset w.size))
      have hrun : 0 < run.length := List.length_pos_of_mem hv
      simp [maxRdmaSegs] at hlen
      omega
    · refine Or.inl ⟨s.started.length, ?_, ?_⟩
      · -- the pending writes have smaller numbers
        rw [findOpened_store, Option.map_eq_none_iff]
        refine List.find?_eq_none.mpr fun p hp => ?_
        have hlt := (List.getElem?_eq_some_iff.mp (h.inFlight.request p hp)).1
        simpa using hlt.ne
      · rw [if_neg hnil, List.map_append]
        rfl
  · -- nothing is stored yet, but everything not loaded is marked
    have hnone : Stored c₁.memory c₁.memory w.data w.offset w.size [] :=
      ⟨rfl, rfl, rfl, by simp, fun _ _ => rfl⟩
    exact h.coherent.write hread hnw hgrow (by simp) (by simp) hnone

omit hsb hrel in
theorem serves_rdmaDone {number : Nat} (hok : s.rdmaDone B number = (reply, s')) :
    (s.store B).Serves (.rdmaDone number) reply (s'.store B) ∧ Coherent B s'.container := by
  unfold rdmaDone at hok
  simp only [ObjectStore.Serves, findOpened_store, closed_store]
  cases hp : s.findPending number with
  | none =>
    rw [hp] at hok
    obtain ⟨rfl, rfl⟩ := Prod.mk.inj hok
    exact ⟨⟨rfl, rfl⟩, h.coherent⟩
  | some p =>
    rw [hp] at hok
    obtain ⟨rfl, rfl⟩ := Prod.mk.inj hok
    obtain ⟨run, hf, hd⟩ := h.inFlight.aloft p (findPending_spec hp).1
    have hst := hf.stored h.inFlight.sound.wf.memoryOk
    have hcached := landed_cached (h.inFlight.sound.wf.layout _) hf hst
    refine ⟨⟨rfl, ⟨fun x hx => ?_, fun id x hx => ?_⟩, rfl, rfl⟩,
      coherent_stored h.coherent hf.toOwned hd hst⟩
    · show content B _ p.write.object x = _
      unfold content
      rw [(hcached _ x).1 hx]
      rfl
    · exact content_outside hf.toOwned hst hx

omit hsb hrel in
theorem serves_rdmaFail {number : Nat} {landed : RdmaGroup → Bool}
    (hok : s.rdmaFail B number landed = (reply, s')) :
    (s.store B).Serves (.rdmaFail number landed) reply (s'.store B) ∧
      Coherent B s'.container := by
  unfold rdmaFail at hok
  simp only [ObjectStore.Serves, findOpened_store, closed_store]
  cases hp : s.findPending number with
  | none =>
    rw [hp] at hok
    obtain ⟨rfl, rfl⟩ := Prod.mk.inj hok
    exact ⟨⟨rfl, rfl⟩, h.coherent⟩
  | some p =>
    rw [hp] at hok
    obtain ⟨rfl, rfl⟩ := Prod.mk.inj hok
    obtain ⟨run, hf, hd⟩ := h.inFlight.aloft p (findPending_spec hp).1
    obtain ⟨sub, hsub, hst⟩ := hf.stored_part h.inFlight.sound.wf.memoryOk landed
    have hown := hf.toOwned.sublist hsub
    exact ⟨⟨rfl, fun id x hx => content_outside hown hst hx, rfl, rfl⟩,
      coherent_stored h.coherent hown (fun w hw => hd w (hsub.subset hw)) hst⟩

theorem serves_read {id : ObjectId} {offset size : Nat} {uninitialised : Nat → LibfabricBuffer}
    (hr : alignedEnd A offset size < 2 ^ 64) (hpos : 0 < size)
    (hans : Answerable A s id offset size)
    (hok : s.read B id offset size uninitialised = .ok (reply, s')) :
    (s.store B).Serves (.read id offset size uninitialised) reply (s'.store B) ∧
      Coherent B s'.container := by
  have hsound := h.inFlight.sound
  obtain ⟨c₁, hgrow, rfl, -⟩ := read_ok hsound.wf (hsound.rangeOk hr) hok
  have hloaded : ∀ offset' size', GapLoaded B offset size true false offset' size' := fun _ _ =>
    ⟨rfl, ⟨sb, hsb, Or.inl rfl⟩, by simp⟩
  have hcontent : ∀ id' x, c₁.content B id' x = s.container.content B id' x := fun _ _ =>
    hgrow.content (hsound.wf.layout id) hloaded
  refine ⟨⟨store_congr hcontent hgrow.disk rfl,
    (List.range size).map fun i => s.container.content B id (offset + i), ?_, by simp,
    fun i hi _ => ?_⟩, h.coherent.read hgrow hloaded⟩
  · refine (read_answers hsound hr hpos hans hok fun {k t x} ht hx => ?_).resolve_left
      (read_ne_refused hsb hrel hsound.wf (hsound.rangeOk hr) hok)
    rw [← hcontent, content_of_segment hgrow.layout ht hx]
  · rw [List.getElem?_map, List.getElem?_range hi]
    rfl

theorem serves_flush {id : ObjectId} {offset size : Nat} (hnw : offset + size < 2 ^ 64)
    (hok : s.flush B id offset size = (reply, s')) :
    (s.store B).Serves (.flush id offset size) reply (s'.store B) ∧ Coherent B s'.container := by
  have hwf := h.inFlight.sound.wf.getObject id
  have hlay := hwf.layout id
  have hcoh := (h.coherent.getObject id).flush hsb hrel hwf id offset size
  obtain ⟨rfl, rfl⟩ := Prod.mk.inj hok
  have hshown : ∀ id' x, (((s.container.getObject id).flush B id offset size).2).content B id' x =
      s.container.content B id' x := by
    intro id' x
    rw [content_flush]
    unfold content
    rw [cached_getObject, disk_getObject]
  refine ⟨⟨congrArg Reply.ack (flushSegments_status hsb hrel (fun e he => hlay.bound (k := e.1) he)
    _), funext fun k => hshown k.1 k.2, rfl, fun x hx => ?_, fun id' x => ?_⟩, hcoh⟩
  · -- whatever is cached in the range is clean now, and so on the storage
    rw [coherent_iff (hwf.flush id offset size).layout] at hcoh
    show (((s.container.getObject id).flush B id offset size).2).disk B id x = _
    refine Eq.trans ?_ (hshown id x)
    unfold content
    cases hc : (((s.container.getObject id).flush B id offset size).2).cached id x with
    | none => rfl
    | some v =>
      refine (hcoh id x v hc).resolve_left ?_
      rintro ⟨k, t, ht, htx, hd⟩
      rw [hasSegment_flush, if_pos rfl] at ht
      obtain ⟨u, hu, rfl⟩ := ht
      split_ifs at hd htx with hfl
      exact hfl (flushed_of_holds hlay hu hnw hd htx hx)
  · exact (disk_flushPart hsb hrel hlay (List.Sublist.refl _) id' x).imp_right fun hpart =>
      ⟨hpart.1, hpart.2.trans (by
        unfold content
        rw [cached_getObject, disk_getObject]
        rfl)⟩

theorem serves_create {id : ObjectId} (hok : s.create B id = (reply, s')) :
    (s.store B).Serves (.create id) reply (s'.store B) ∧ Coherent B s'.container := by
  obtain ⟨rfl, rfl⟩ := Prod.mk.inj hok
  have hdisk : ((s.container.getObject id).create B id).2.disk B = s.container.disk B := by
    unfold Container.create Container.disk
    rw [hsb]
    exact sb.disk_create
  obtain ⟨st, hst⟩ := create_eq (B := B) (s.container.getObject id) id
  have hcached : ∀ id' x, ((s.container.getObject id).create B id).2.cached id' x =
      s.container.cached id' x := by
    intro id' x
    rw [hst]
    exact (cached_congr (c := s.container.getObject id) rfl fun _ => rfl).trans
      (cached_getObject id)
  refine ⟨⟨?_, store_congr (fun id' x => ?_) hdisk rfl⟩, ?_⟩
  · unfold Container.create
    rw [hsb]
    exact congrArg Reply.ack (hrel.create _ _)
  · show ((s.container.getObject id).create B id).2.content B id' x = _
    unfold content
    rw [hcached, hdisk]
  · intro id' k t ht hd i hi
    have ht' : (s.container.getObject id).HasSegment id' k t := by
      have : ((s.container.getObject id).create B id).2.HasSegment id' k t := ht
      rw [hst] at this
      exact this
    show ((s.container.getObject id).create B id).2.memory.bytes t.memory.buffer i =
      ((s.container.getObject id).create B id).2.disk B id' (t.offset + i)
    rw [hdisk, hst]
    exact h.coherent.getObject id id' k t ht' hd i hi

theorem serves_cow {src dst : ObjectId} {allowExist : Bool} {offset size : Nat}
    (hr : alignedEnd A offset size < 2 ^ 64) (hwf' : Wf B (grain A) s'.container)
    (hwhole : CowWhole B A s.container src dst offset size)
    (hok : s.cow B src dst allowExist offset size = .ok (reply, s')) :
    (s.store B).Serves (.cow src dst allowExist offset size) reply (s'.store B) ∧
      Coherent B s'.container := by
  have hwf := h.inFlight.sound.wf
  unfold CowWhole at hwhole
  obtain ⟨rfl, status, d, hfull, rfl, rfl⟩ | ⟨hsize, status, d, hrange, rfl, rfl⟩ := cow_ok hok
  · cases status with
    | false =>
      rw [makeObjectFullCow_false hfull]
      exact ⟨Or.inl ⟨rfl, rfl⟩, h.coherent⟩
    | true =>
      rw [if_pos rfl] at hwhole
      have hcopied := fullCopied_of_ok hsb hwf hfull
      refine ⟨Or.inr ⟨rfl, rfl, fun x hx _ => ?_, fun id x hno => ?_, fun id x => ?_⟩,
        h.coherent.fullCow hcopied⟩
      · show d.content B dst x = s.container.content B src x
        by_cases hpast : PastSegments s.container src x
        · obtain ⟨h1, h2⟩ := hcopied.content_dst.2 hpast
          rw [h1, h2]
          exact hwhole.2 x hx hpast
        · exact hcopied.content_dst.1 hpast
      · exact content_of_fullCow hcopied fun hid => hno ⟨hid, Or.inl rfl⟩
      · by_cases hid : id = dst
        · exact (kept_of_fullCow (x := x) hsb hwf hfull).imp (fun hk => hid ▸ hk)
            fun hk => ⟨hid, hid ▸ hk⟩
        · exact Or.inl (congrFun (hcopied.disk hid) x)
  · cases status with
    | false =>
      rw [makeObjectRangeCow_false hrange]
      exact ⟨Or.inl ⟨rfl, rfl⟩, h.coherent⟩
    | true =>
      rw [if_neg hsize] at hwhole
      obtain ⟨hagrees, hfit, hsaves⟩ := hwhole
      have hnw := Nat.lt_of_le_of_lt (le_alignedEnd A offset size) hr
      have hpos := Nat.pos_of_ne_zero hsize
      have hcopy := (makeObjectRangeCow_copies hwf h.inFlight.sound.fixed hnw hpos
        (readable_of_reliable hsb hrel) hrange).1 hfit
      have hflag := flagged_of_rangeCow hwf h.inFlight.sound.fixed hnw hpos
        (readable_of_reliable hsb hrel true) hrange
      refine ⟨Or.inr ⟨rfl, rfl, fun x _ hx => ?_, fun id x hno => ?_, fun id x => Or.inl ?_⟩,
        h.coherent.rangeCow hwf hwf' hsaves hcopy hflag⟩
      · have hin := hx.resolve_left hsize
        show d.content B dst x = s.container.content B src x
        by_cases hc : s.container.cached src x = none
        · rw [hcopy.outside fun hno => hno.2.2 hc, hagrees x hin.1 hin.2 hc]
          unfold content
          rw [hc]
          rfl
        · exact hcopy.inside ⟨hin, hc⟩
      · exact hcopy.outside fun hin => hno ⟨hin.1, Or.inr hin.2.1⟩
      · show d.disk B id x = s.container.disk B id x
        rw [hflag.disk]

end Requests

-- ---------------------------------------------------------------------------
-- Every step
-- ---------------------------------------------------------------------------

theorem Orderly.inRange {e : Event} (h : Orderly B A s e) : InRange A e := by
  cases e with
  | eagerWrite w => exact h
  | rdmaWrite w => exact h.1
  | read id offset size uninitialised => exact h.1
  | cow src dst allowExist offset size => exact h.1
  | _ => trivial

theorem Orderly.landable {e : Event} (h : Orderly B A s e) :
    Landable A (fun t => t.dirty = true) s e := by
  cases e with
  | rdmaWrite w => exact h.2
  | flush id offset size => exact h.2.landable
  | _ => trivial

section Steps

variable {sb : StorageBackend σ} (hsb : B.storageBackend = some sb) (hrel : sb.Reliable)

include hsb hrel

/-- **One orderly request** does what the store does, with the same answer, and leaves the
server backed. -/
theorem serves_of_exec {e : Event} (h : Backed B A s) (ho : Orderly B A s e)
    (hok : s.exec B e = .ok (reply, s')) :
    (s.store B).Serves e reply (s'.store B) ∧ Backed B A s' := by
  have hsound' := sound_step h.inFlight.sound ho.inRange ⟨reply, hok⟩
  have hfly : InFlight B A (fun t => t.dirty = true) s' := by
    refine inFlight_step (fun _ hd => hd) h.inFlight ho.inRange ho.landable ?_ ⟨reply, hok⟩
    rintro src dst allowExist offset size rfl p hp hal
    exact aloft_dirty_cow hsb hrel h.inFlight.sound hsound' ho.1 ho.2.1 hok hp hal
  suffices hserves : (s.store B).Serves e reply (s'.store B) ∧ Coherent B s'.container from
    ⟨hserves.1, hfly, hserves.2⟩
  cases e with
  | eagerWrite w => exact serves_eagerWrite hsb hrel h ho hok
  | rdmaWrite w => exact serves_rdmaWrite hsb hrel h ho.1 ho.2 (Except.ok.inj hok)
  | rdmaDone number => exact serves_rdmaDone h (Except.ok.inj hok)
  | rdmaFail number landed => exact serves_rdmaFail h (Except.ok.inj hok)
  | read id offset size uninitialised => exact serves_read hsb hrel h ho.1 ho.2.1 ho.2.2 hok
  | flush id offset size => exact serves_flush hsb hrel h ho.1 (Except.ok.inj hok)
  | create id => exact serves_create hsb hrel h (Except.ok.inj hok)
  | cow src dst allowExist offset size =>
    exact serves_cow hsb hrel h ho.1 hsound'.wf ho.2.2 hok
  | rangeRegister | rangeUnregister | clientDisconnect =>
    have hsame := onTrackers_step ⟨reply, hok⟩ trivial
    have hdisk : s'.container.disk B = s.container.disk B := disk_of_storage hsame.storage
    refine ⟨store_congr (fun id x => ?_) hdisk hsame.pending, fun id k t ht hd i hi => ?_⟩
    · unfold content
      rw [hdisk, cached_congr (hsame.segments id) fun _ => by rw [hsame.memory]]
    · unfold HasSegment at ht
      rw [hsame.segments] at ht
      rw [hdisk, hsame.memory]
      exact h.coherent id k t ht hd i hi

/-- A restart of the server is one of the store. -/
theorem restarts_of_initial {check : Bool} {cut : Option FlushCut} (h : Backed B A s)
    (hinit : Initial B A check s') (hst : s'.container.storage = s.storageAt B cut) :
    (s.store B).Restarts cut (s'.store B) := by
  have hempty : s'.pending = [] ∧ ∀ id x, s'.container.cached id x = none := by
    obtain ⟨m, st, -, -, rfl⟩ := hinit
    exact ⟨rfl, fun _ _ => rfl⟩
  have hkept : ∀ id x, s'.container.disk B id x = s.container.disk B id x ∨
      (∃ f, cut = some f ∧ id = f.id) ∧
        s'.container.disk B id x = s.container.content B id x := by
    intro id x
    cases cut with
    | none => exact Or.inl (congrFun (congrFun (disk_of_storage hst) id) x)
    | some f =>
      obtain ⟨d, hd⟩ : ∃ d, d = (flushSegments B f.id f.offset f.size
        ((s.container.segments f.id).entries.take f.visited) 0 s.container).2 := ⟨_, rfl⟩
      have hdisk : s'.container.disk B = d.disk B := disk_of_storage (by rw [hst, hd]; rfl)
      rw [hdisk, hd]
      exact (disk_flushPart hsb hrel (h.inFlight.sound.wf.layout f.id) (List.take_sublist ..) id
        x).imp_right fun hpart => ⟨⟨f, rfl, hpart.1⟩, hpart.2⟩
  refine ⟨?_, funext fun k => ?_, hkept⟩
  · show s'.pending.map _ = []
    rw [hempty.1]
    rfl
  · show s'.container.content B k.1 k.2 = _
    unfold content
    rw [hempty.2]
    rfl

/-- **Every step** is one of the store. -/
theorem step_of_lives {check : Bool} {l : Label} (h : Backed B A s) (hl : Lives B A check s l s') :
    (s.store B).Step l (s'.store B) ∧ Backed B A s' := by
  obtain ⟨incident, reply⟩ := l
  cases incident with
  | request e => exact serves_of_exec hsb hrel h hl.1 hl.2
  | restart cut =>
    obtain ⟨hreply, hinit, hst⟩ := hl
    exact ⟨⟨hreply, restarts_of_initial hsb hrel h hinit hst⟩, hinit.backed⟩

/-- The server simulates: it is related to the store that it is. -/
theorem simulation (check : Bool) : Simulation (Lives B A check) ObjectStore.Step
    fun s a => Backed B A s ∧ a = s.store B := by
  constructor
  rintro s l s' a ⟨h, rfl⟩ hl
  obtain ⟨hstep, h'⟩ := step_of_lives hsb hrel h hl
  exact ⟨_, hstep, h', rfl⟩

/-- The server is a write-back store. -/
theorem keeps (check : Bool) : WriteBack.Keeps (Lives B A check) Label.IsRestart
    (fun s => (s.store B).toStore) (Backed B A) where
  invariant h hl := (step_of_lives hsb hrel h hl).2
  operates h hl hno := (step_of_lives hsb hrel h hl).1.operates hno
  restarts h hl hre := (step_of_lives hsb hrel h hl).1.restarts hre

-- ---------------------------------------------------------------------------
-- Whole runs
-- ---------------------------------------------------------------------------

/-- An orderly request does not stop the server. -/
theorem exec_returns {e : Event} (h : Backed B A s) (ho : Orderly B A s e) :
    ∃ reply s', s.exec B e = .ok (reply, s') := by
  have hsound := h.inFlight.sound
  cases e with
  | eagerWrite w =>
    obtain ⟨s', hok, -⟩ := eagerWrite_answered hsound ho
    exact ⟨_, s', hok⟩
  | read id offset size uninitialised =>
    obtain ⟨hr, hpos, hans⟩ := ho
    obtain ⟨reply, s', hok, -⟩ := read_answered hsound hr (by
      unfold Answerable at hans
      split_ifs at hans ⊢
      · exact Or.inr hans
      · exact hans) uninitialised
    exact ⟨reply, s', hok⟩
  | cow src dst allowExist offset size =>
    obtain ⟨-, -, hwhole⟩ := ho
    show ∃ reply s', s.cow B src dst allowExist offset size = .ok (reply, s')
    unfold cow
    unfold CowWhole at hwhole
    split_ifs at hwhole ⊢
    · obtain ⟨r, hr⟩ := makeObjectFullCow_returns hsb hrel hsound.wf hwhole.1 allowExist
      rw [hr]
      exact ⟨_, _, rfl⟩
    · exact ⟨_, _, rfl⟩
  | _ => exact ⟨_, _, rfl⟩

/-- **What was flushed survives.** After a flush that covers position `x` of the object,
through any run of orderly requests and restarts, the byte that the object shows there and
the byte that the storage has for it are the one that was flushed, or one that a request
put there since. -/
theorem recovered_of_flush {check : Bool} {ls ls' : List Label} {id : ObjectId}
    {offset size x : Nat} {s₁ s₂ : Server μ σ} (hinit : Initial B A check s₀)
    (ht : Trace (Lives B A check) s₀ ls s)
    (hflush : Lives B A check s (.request (.flush id offset size), reply) s₁)
    (ht' : Trace (Lives B A check) s₁ ls' s₂) (hx : ObjectStore.InSpan offset size x) :
    reply = .ack 0 ∧ ∀ v, v = s₂.container.content B id x ∨ v = s₂.container.disk B id x →
      v = s.container.content B id x ∨
        Trace.Takes (Lives B A check) s₁ ls' s₂ fun m l m' => ∃ e, l.1 = .request e ∧
          (m.store B).Writes e id x ∧ m'.container.content B id x = v := by
  have hk := keeps (A := A) hsb hrel check
  have hbacked := ht.invariant hinit.backed hk.invariant
  obtain ⟨hserves, hbacked₁⟩ := serves_of_exec hsb hrel hbacked hflush.1 hflush.2
  have hshown : s₁.container.content B id x = s.container.content B id x :=
    congrFun hserves.2.1 (id, x)
  refine ⟨hserves.1, fun v hv => ?_⟩
  rcases WriteBack.known_of_saved hk hbacked₁ ht' (hserves.saved hx) hv with hsame | htakes
  · exact Or.inl (hsame.trans hshown)
  · refine Or.inr (htakes.mono fun {pre m l m'} hpre hstep hputs => ?_)
    obtain ⟨hno, hval, hne⟩ := hputs
    obtain ⟨incident, answer⟩ := l
    cases incident with
    | restart cut => exact absurd ⟨cut, rfl⟩ hno
    | request e =>
      have hm := hpre.invariant hbacked₁ hk.invariant
      refine ⟨e, rfl, ?_, hval⟩
      by_contra hnot
      exact hne (((serves_of_exec hsb hrel hm hstep.1 hstep.2).1.sameOutside id x hnot).symm.trans
        hval)

end Steps

-- ---------------------------------------------------------------------------
-- A write, a flush and a restart
-- ---------------------------------------------------------------------------

/-- Object 1 is written, its bytes arrive and are flushed. -/
def flushedServer : Server Malloc (ObjectId → Bytes) :=
  (localServer 8 9).after localBackends
    [.rdmaWrite sampleWrite, .rdmaDone 0, .flush ⟨1, 1⟩ 0 0]

/-- The server is started again on its storage. -/
def restartedServer : Server Malloc (ObjectId → Bytes) :=
  Server.new (Container.new 8 (Memory.fresh 3) flushedServer.container.storage) false

theorem lives_start : Lives localBackends 8 false (localServer 8 9)
    (.request (.rdmaWrite sampleWrite), .nothing)
    ((localServer 8 9).after localBackends [.rdmaWrite sampleWrite]) :=
  ⟨⟨by decide, by decide, by decide, fun k t ht => absurd ht List.not_mem_nil⟩, rfl⟩

theorem lives_done : Lives localBackends 8 false
    ((localServer 8 9).after localBackends [.rdmaWrite sampleWrite])
    (.request (.rdmaDone 0), .ack 0)
    ((localServer 8 9).after localBackends [.rdmaWrite sampleWrite, .rdmaDone 0]) :=
  ⟨trivial, rfl⟩

theorem lives_flush : Lives localBackends 8 false
    ((localServer 8 9).after localBackends [.rdmaWrite sampleWrite, .rdmaDone 0])
    (.request (.flush ⟨1, 1⟩ 0 0), .ack 0) flushedServer :=
  ⟨⟨by decide, fun p hp => absurd hp List.not_mem_nil⟩, rfl⟩

theorem lives_restart : Lives localBackends 8 false flushedServer
    (.restart none, .nothing) restartedServer :=
  ⟨rfl, ⟨_, _, Memory.valid_fresh 3, rfl, rfl⟩, rfl⟩

theorem lives_read : Lives localBackends 8 false restartedServer
    (.request (.read ⟨1, 1⟩ 2 2 fun _ => ⟨⟨0, 0⟩, 0⟩), .eager ⟨2, [7, 7]⟩)
    (restartedServer.after localBackends [.read ⟨1, 1⟩ 2 2 fun _ => ⟨⟨0, 0⟩, 0⟩]) :=
  ⟨⟨by decide, by decide,
    Or.inr ⟨by decide, by decide, fun k u hu => absurd hu List.not_mem_nil⟩⟩, rfl⟩

/-- The flushed byte is the one that comes back. -/
theorem recovered_of_restart : restartedServer.container.content localBackends ⟨1, 1⟩ 3 = 7 := by
  obtain ⟨-, hrecovered⟩ := recovered_of_flush rfl byteStore_reliable (initial_localServer 8 9)
    ((Trace.single lives_start).snoc lives_done) lives_flush (.single lives_restart) (x := 3)
    (Or.inl rfl)
  rcases hrecovered _ (Or.inl rfl) with hsame | ⟨pre, l, post, m, m', hsplit, -, -, -, e, he, -⟩
  · exact hsame
  · -- the only step is the restart
    have hl : l ∈ [((.restart none, .nothing) : Label)] := hsplit ▸ by simp
    rw [List.mem_singleton.mp hl] at he
    cases he

end Server

end IoCatcher
