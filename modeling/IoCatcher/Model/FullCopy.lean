import IoCatcher.Model.Content
import IoCatcher.Model.CopyOnWrite

/-!
# IO Catcher — what a full copy writes to the storage

`makeFullCopyOnWrite` walks the cached segments of the source with a cursor: a
gap before a segment is copied from storage to storage, a clean segment is
written back under the new id, a dirty one is left for a later flush. The
lemmas follow the cursor: `fullCowLoop_disk` says what the storage of the
destination holds at every position afterwards — and that nothing past the
last cached segment is written.
-/

namespace IoCatcher

namespace Container

variable {μ σ : Type} {B : Backends μ σ} {c c' : Container μ σ} {src dst id : ObjectId}
  {x cursor : Nat}

/-- A storage-to-storage copy of a range. -/
theorem makeCowSegment_disk {offset size : Nat}
    (h : c.makeCowSegment B src dst offset size = .ok c') :
    c'.disk B id x =
      if id = dst ∧ offset ≤ x ∧ x < offset + size then c.disk B src x else c.disk B id x := by
  unfold makeCowSegment at h
  cases hsb : B.storageBackend with
  | none =>
    rw [hsb] at h
    exact absurd h (by simp)
  | some sb =>
    rw [hsb] at h
    dsimp only at h
    split_ifs at h with hread hwrite
    obtain rfl := Except.ok.inj h
    unfold Container.disk
    rw [hsb]
    dsimp only
    split_ifs with hin
    · obtain ⟨rfl, h1, h2⟩ := hin
      have hw := sb.pwrite_full (not_not.mp hwrite) (x - offset) (by omega)
      have hr := sb.pread_full (not_not.mp hread) (x - offset) (by omega)
      rw [show offset + (x - offset) = x by omega] at hw hr
      rw [hw, hr]
    · rw [sb.disk_pwrite _ _ hin, sb.disk_pread]

/-- A shared segment is written back under the new id when it is clean. -/
theorem flushCow_disk {sb : StorageBackend σ} (hsb : B.storageBackend = some sb)
    {s : ObjectSegment} (h : c.flushCow B dst s = .ok c') :
    c'.disk B id x =
      if id = dst ∧ s.dirty = false ∧ s.Holds x then c.memory.bytes s.memory.buffer (x - s.offset)
      else c.disk B id x := by
  unfold flushCow at h
  cases hd : s.dirty with
  | true =>
    rw [hd, if_pos rfl] at h
    obtain rfl := Except.ok.inj h
    simp
  | false =>
    rw [hd, if_neg (by simp)] at h
    dsimp only at h
    split_ifs at h with hwrite
    obtain rfl := Except.ok.inj h
    by_cases hin : id = dst ∧ s.Holds x
    · obtain ⟨rfl, h1, h2⟩ := hin
      rw [if_pos ⟨rfl, rfl, h1, h2⟩]
      unfold pwrite at hwrite ⊢
      rw [hsb] at hwrite ⊢
      unfold ObjectSegment.stop at h2
      have hw := sb.pwrite_full (not_not.mp hwrite) (x - s.offset) (by omega)
      rw [show s.offset + (x - s.offset) = x by have := h1; omega] at hw
      unfold Container.disk
      rw [hsb, ← hw]
    · rw [if_neg fun hc => hin ⟨hc.1, hc.2.2⟩]
      exact disk_pwrite fun hc => hin ⟨hc.1, hc.2.1, hc.2.2⟩

/-- What the storage of the destination holds at `x` after a loop over `es`
from `cursor` on. -/
structure CopiedAt (B : Backends μ σ) (src dst : ObjectId) (es : List (Nat × ObjectSegment))
    (cursor x : Nat) (c c' : Container μ σ) : Prop where
  clean  : ∀ {e}, e ∈ es → e.2.dirty = false → e.2.Holds x →
    c'.disk B dst x = c.memory.bytes e.2.memory.buffer (x - e.2.offset)
  gap    : cursor ≤ x → (∃ e ∈ es, x < e.2.stop) → (∀ e ∈ es, ¬ e.2.Holds x) →
    c'.disk B dst x = c.disk B src x
  before : x < cursor → c'.disk B dst x = c.disk B dst x
  after  : (∀ e ∈ es, e.2.stop ≤ x) → c'.disk B dst x = c.disk B dst x

/-- What the storage holds after one turn of the loop: the gap before the segment, then
its own bytes when it is clean. -/
theorem cowTurn_disk {sb : StorageBackend σ} (hsb : B.storageBackend = some sb)
    {s : ObjectSegment} {c₁ c₂ : Container μ σ}
    (hgap : (if cursor < s.offset then c.makeCowSegment B src dst cursor (s.offset - cursor)
      else .ok c) = .ok c₁) (hflush : c₁.flushCow B dst s = .ok c₂) :
    c₂.memory = c.memory ∧ ∀ id x, c₂.disk B id x =
      if id = dst ∧ s.dirty = false ∧ s.Holds x then c.memory.bytes s.memory.buffer (x - s.offset)
      else if id = dst ∧ cursor ≤ x ∧ x < s.offset then c.disk B src x else c.disk B id x := by
  have hdisk : (∀ id x, c₁.disk B id x =
      if id = dst ∧ cursor ≤ x ∧ x < s.offset then c.disk B src x else c.disk B id x) ∧
      c₁.memory = c.memory := by
    split_ifs at hgap with hlt
    · obtain ⟨st, hst⟩ := makeCowSegment_eq hgap
      refine ⟨fun id x => ?_, by rw [hst]⟩
      rw [makeCowSegment_disk hgap, show cursor + (s.offset - cursor) = s.offset by omega]
    · obtain rfl := Except.ok.inj hgap
      refine ⟨fun id x => ?_, rfl⟩
      rw [if_neg (by omega)]
  refine ⟨?_, fun id x => ?_⟩
  · obtain ⟨st, hst⟩ := flushCow_eq hflush
    rw [hst]
    exact hdisk.2
  · rw [flushCow_disk hsb hflush, hdisk.2, hdisk.1]

/-- The loop, on segments that follow each other from the cursor on. -/
theorem fullCowLoop_disk {sb : StorageBackend σ} (hsb : B.storageBackend = some sb)
    (hne : src ≠ dst) {es : List (Nat × ObjectSegment)} :
    ∀ {cursor : Nat} {cow m : ObjectSegmentMap} {c c' : Container μ σ},
      (es.Pairwise fun a b => a.2.stop ≤ b.2.offset) → (∀ e ∈ es, cursor ≤ e.2.offset) →
      (∀ e ∈ es, 0 < e.2.getSize ∧ e.2.stop < 2 ^ 64) →
      fullCowLoop B src dst es cursor cow c = .ok (m, c') →
      (∀ id, id ≠ dst → c'.disk B id = c.disk B id) ∧ CopiedAt B src dst es cursor x c c' := by
  induction es with
  | nil =>
    intro cursor cow m c c' _ _ _ h
    obtain ⟨rfl, rfl⟩ := Prod.mk.inj (Except.ok.inj h)
    exact ⟨fun _ _ => rfl, by simp, by simp, fun _ => rfl, fun _ => rfl⟩
  | cons e rest ih =>
    intro cursor cow m c c' hsorted hcur hseg h
    obtain ⟨hnext, hrest⟩ := List.pairwise_cons.mp hsorted
    obtain ⟨hpos, hbound⟩ := hseg e (List.mem_cons_self ..)
    have hoff := hcur e (List.mem_cons_self ..)
    have hstop : SizeT.add e.2.offset e.2.getSize = e.2.stop := SizeT.add_eq hbound
    have hstop' : e.2.stop = e.2.offset + e.2.getSize := rfl
    obtain ⟨c₁, c₂, hgap, hflush, hloop⟩ := fullCowLoop_cons h
    rw [hstop] at hloop
    obtain ⟨hmem, hdisk⟩ := cowTurn_disk hsb hgap hflush
    obtain ⟨hother, hcopy⟩ := ih hrest (fun e' he' => hnext e' he')
      (fun e' he' => hseg e' (List.mem_cons_of_mem _ he')) hloop
    refine ⟨fun id hid => ?_, fun {e'} he' hd hx => ?_, fun hle hex hno => ?_, fun hlt => ?_,
      fun hall => ?_⟩
    · rw [hother id hid]
      funext y
      rw [hdisk, if_neg fun hc => hid hc.1, if_neg fun hc => hid hc.1]
    · rcases List.mem_cons.mp he' with rfl | he'
      · rw [hcopy.before hx.2, hdisk, if_pos ⟨rfl, hd, hx⟩]
      · rw [hcopy.clean he' hd hx, hmem]
    · by_cases hxe : x < e.2.offset
      · rw [hcopy.before (by omega), hdisk, if_neg fun hc => ?_, if_pos ⟨rfl, hle, hxe⟩]
        have := hc.2.2.1
        omega
      · -- past the segment: the gap is one of the rest
        have hge : e.2.stop ≤ x := by
          by_contra hlt
          exact hno e (List.mem_cons_self ..) ⟨by omega, by omega⟩
        have hex' : ∃ e' ∈ rest, x < e'.2.stop := by
          obtain ⟨e', he', hlt⟩ := hex
          rcases List.mem_cons.mp he' with rfl | he'
          · omega
          · exact ⟨e', he', hlt⟩
        rw [hcopy.gap hge hex' fun e' he' => hno e' (List.mem_cons_of_mem _ he'), hdisk,
          if_neg fun hc => hne hc.1, if_neg fun hc => hne hc.1]
    · rw [hcopy.before (by omega), hdisk, if_neg fun hc => ?_, if_neg (by omega)]
      have := hc.2.2.1
      omega
    · have hge := hall e (List.mem_cons_self ..)
      rw [hcopy.after fun e' he' => hall e' (List.mem_cons_of_mem _ he'), hdisk,
        if_neg fun hc => ?_, if_neg (by omega)]
      have := hc.2.2.2
      omega

/-- What a successful full copy leaves, in the cache and on the storage. -/
structure FullCopied (B : Backends μ σ) (src dst : ObjectId) (c c' : Container μ σ) : Prop where
  ne       : src ≠ dst
  segments : ∀ id, c'.segments id = if id = dst then c.segments src else c.segments id
  bytes    : c'.memory.bytes = c.memory.bytes
  disk     : ∀ {id}, id ≠ dst → c'.disk B id = c.disk B id
  copied   : ∀ x, CopiedAt B src dst (c.segments src).entries 0 x c c'

/-- A full copy that is carried out ran the loop from the container after `create`, and
its result is in the map. -/
theorem fullCowLoop_of_ok {g : Nat} {sb : StorageBackend σ} (hsb : B.storageBackend = some sb)
    (h : Wf B g c) {allowExist : Bool}
    (hok : c.makeObjectFullCow B src dst allowExist = .ok (true, c')) :
    src ≠ dst ∧ (∀ id, c'.segments id = if id = dst then c.segments src else c.segments id) ∧
      c'.memory.bytes = c.memory.bytes ∧
      ∃ d d' m, d.disk B = c.disk B ∧ d.memory.bytes = c.memory.bytes ∧
        d'.disk B = c'.disk B ∧
        fullCowLoop B src dst (c.segments src).entries 0 .empty d = .ok (m, d') := by
  obtain ⟨hne, -, -, d, st, hd, -, -, hfull, rfl⟩ := makeObjectFullCow_ok h hok
  have hsrc : d.segments src = c.segments src := by
    rw [Container.segments, hd.others hne, Container.segments]
  have hdd : d.disk B = c.disk B := disk_of_storage hd.storage
  refine ⟨hne, fun id => ?_, hd.bytes, ?_⟩
  · rw [Container.segments, object_setObject]
    split_ifs with hid
    · rfl
    · show (d.object id).segmentMap = _
      rw [hd.others hid]
      rfl
  · unfold makeFullCopyOnWrite at hfull
    rw [hsrc] at hfull
    dsimp only at hfull
    split_ifs at hfull
    split at hfull
    · exact absurd hfull (by simp)
    · rename_i m c1 hl
      refine ⟨(d.create B dst).2, c1, m, ?_, ?_, ?_, hl⟩
      · rw [← hdd]
        unfold create Container.disk
        rw [hsb]
        exact sb.disk_create
      · unfold create
        rw [hsb]
        exact hd.bytes
      · rw [(Prod.mk.inj (Except.ok.inj hfull)).2]
        rfl

theorem fullCopied_of_ok {g : Nat} {sb : StorageBackend σ} (hsb : B.storageBackend = some sb)
    (h : Wf B g c) {allowExist : Bool}
    (hok : c.makeObjectFullCow B src dst allowExist = .ok (true, c')) :
    FullCopied B src dst c c' := by
  obtain ⟨hne, hseg, hbytes, d, d', m, hdisk, hmem, hdisk', hloop⟩ := fullCowLoop_of_ok hsb h hok
  have hlay := h.layout src
  have hspec := fun x => fullCowLoop_disk (x := x) hsb hne hlay.pairwise
    (fun e _ => Nat.zero_le e.2.offset)
    (fun e he => ⟨hlay.pos (k := e.1) he, hlay.bound (k := e.1) he⟩) hloop
  refine ⟨hne, hseg, hbytes, fun {id} hid => ?_, fun x => ?_⟩
  · rw [← hdisk', (hspec 0).1 id hid, hdisk]
  · obtain ⟨-, hcopy⟩ := hspec x
    refine ⟨fun he hdirty hx => ?_, fun h0 hex hno => ?_, fun hlt => ?_, fun hall => ?_⟩
    · rw [← hdisk', ← hmem]
      exact hcopy.clean he hdirty hx
    · rw [← hdisk', ← hdisk]
      exact hcopy.gap h0 hex hno
    · exact absurd hlt (by omega)
    · rw [← hdisk', ← hdisk]
      exact hcopy.after hall

end Container

end IoCatcher
