import IoCatcher.Lib.WriteBack
import IoCatcher.Safety.Provenance

/-!
# IO Catcher — the object store

What the server is for, without segments, buffers, flags or an allocator: objects are
arrays of bytes, requests read, write, copy and flush ranges of them, and what was flushed
survives the server. An RDMA write is *open* from its start to its completion; meanwhile,
and for good when it fails, the bytes of its range are anything.

* `ObjectStore.Serves`   — what a request may answer and do;
* `ObjectStore.Restarts` — what a restart may do;
* `ObjectStore.Step`     — the two as a labelled step; `Writes` are the positions whose
  bytes a step may change.
-/

namespace IoCatcher

/-- A restart of the server. The one before may have died in the middle of a flush of
`id`, after it had looked at `visited` segments. -/
structure FlushCut where
  id      : ObjectId
  offset  : Nat
  size    : Nat
  visited : Nat

/-- What happens to a server that may be restarted. -/
inductive Incident where
  | request (e : Event)
  | restart (cut : Option FlushCut)

/-- An incident, and what the server sends. -/
abbrev Label := Incident × Reply

/-- The label of a restart. -/
def Label.IsRestart (l : Label) : Prop := ∃ cut, l.1 = .restart cut

/-- Objects as arrays of bytes: what a reader is shown and what the storage has kept, by
object and position, and the open writes with their numbers. -/
structure ObjectStore extends Store (ObjectId × Nat) UInt8 where
  opened : List (Nat × WriteRequest)

namespace ObjectStore

/-- A store that was just started shows what the storage has kept. -/
def ofStorage (kept : ObjectId × Nat → UInt8) : ObjectStore := ⟨⟨kept, kept⟩, []⟩

/-- No open write covers the position. -/
def Settled (a : ObjectStore) (id : ObjectId) (x : Nat) : Prop :=
  ∀ o ∈ a.opened, ¬ o.2.Covers id x

/-- Outside of the positions `P` the store shows what it showed. -/
def SameOutside (P : ObjectId → Nat → Prop) (a a' : ObjectStore) : Prop :=
  ∀ id x, ¬ P id x → a'.shown (id, x) = a.shown (id, x)

/-- The data of the write is there, and nothing else changed. -/
def Written (w : WriteRequest) (a a' : ObjectStore) : Prop :=
  (∀ x, w.Covers w.object x → a'.shown (w.object, x) = w.data (x - w.offset)) ∧
    SameOutside w.Covers a a'

/-- The range of a flush or a copy; a range of size 0 is the whole object. -/
def InSpan (offset size x : Nat) : Prop := size = 0 ∨ offset ≤ x ∧ x < offset + size

/-- The open write with this number. -/
def findOpened (a : ObjectStore) (number : Nat) : Option WriteRequest :=
  (a.opened.find? fun o => o.1 = number).map Prod.snd

/-- The open writes but this one. -/
def closed (a : ObjectStore) (number : Nat) : List (Nat × WriteRequest) :=
  a.opened.filter fun o => o.1 ≠ number

/-- What a request may answer and do. -/
def Serves (a : ObjectStore) (e : Event) (reply : Reply) (a' : ObjectStore) : Prop :=
  match e with
  | .eagerWrite w => reply = .ack 0 ∧ Written w a a' ∧ a'.kept = a.kept ∧ a'.opened = a.opened
  | .rdmaWrite w => reply = .nothing ∧ SameOutside w.Covers a a' ∧ a'.kept = a.kept ∧
      ((∃ number, a.findOpened number = none ∧ a'.opened = a.opened ++ [(number, w)]) ∨
        w.size = 0 ∧ a'.opened = a.opened)
  | .rdmaDone number => match a.findOpened number with
      | none => reply = .nothing ∧ a' = a
      | some w => reply = .ack 0 ∧ Written w a a' ∧ a'.kept = a.kept ∧
          a'.opened = a.closed number
  | .rdmaFail number _ => reply = .nothing ∧ match a.findOpened number with
      | none => a' = a
      | some w => SameOutside w.Covers a a' ∧ a'.kept = a.kept ∧ a'.opened = a.closed number
  | .read id offset size _ => a' = a ∧ ∃ data : List UInt8, reply = Server.readAnswer size data ∧
      data.length = size ∧
      ∀ i < size, a.Settled id (offset + i) → data[i]? = some (a.shown (id, offset + i))
  | .flush id offset size => reply = .ack 0 ∧ a'.shown = a.shown ∧ a'.opened = a.opened ∧
      (∀ x, InSpan offset size x → a'.kept (id, x) = a.shown (id, x)) ∧
      ∀ id' x, a'.kept (id', x) = a.kept (id', x) ∨
        id' = id ∧ a'.kept (id', x) = a.shown (id', x)
  | .create _ => reply = .ack 0 ∧ a' = a
  | .cow sourceId destId _ offset size =>
      (reply = .ack (-1) ∧ a' = a) ∨
      (reply = .ack 0 ∧ a'.opened = a.opened ∧
        (∀ x < 2 ^ 64, InSpan offset size x → a'.shown (destId, x) = a.shown (sourceId, x)) ∧
        SameOutside (fun id x => id = destId ∧ InSpan offset size x) a a' ∧
        ∀ id x, a'.kept (id, x) = a.kept (id, x) ∨
          id = destId ∧ a'.kept (id, x) = a'.shown (id, x))
  | .rangeRegister .. | .rangeUnregister .. | .clientDisconnect _ => a' = a

/-- What a restart may do: it closes all writes and shows what was kept; the flush it may
have cut off had kept some of the bytes of its object. -/
def Restarts (a : ObjectStore) (cut : Option FlushCut) (a' : ObjectStore) : Prop :=
  a'.opened = [] ∧ a'.shown = a'.kept ∧
    ∀ id x, a'.kept (id, x) = a.kept (id, x) ∨
      (∃ f, cut = some f ∧ id = f.id) ∧ a'.kept (id, x) = a.shown (id, x)

/-- One step of the store. -/
def Step (a : ObjectStore) (l : Label) (a' : ObjectStore) : Prop :=
  match l.1 with
  | .request e => a.Serves e l.2 a'
  | .restart cut => l.2 = .nothing ∧ a.Restarts cut a'

/-- The positions that a request may make show another byte. -/
def Writes (a : ObjectStore) (e : Event) (id : ObjectId) (x : Nat) : Prop :=
  match e with
  | .eagerWrite w | .rdmaWrite w => w.Covers id x
  | .rdmaDone number | .rdmaFail number _ => ∃ w, a.findOpened number = some w ∧ w.Covers id x
  | .cow _ destId _ offset size => id = destId ∧ InSpan offset size x
  | _ => False

section Steps

variable {a a' : ObjectStore} {e : Event} {reply : Reply} {l : Label}

/-- A request changes nothing outside of the positions it writes. -/
theorem Serves.sameOutside (h : a.Serves e reply a') : SameOutside (a.Writes e) a a' := by
  intro id x hx
  cases e with
  | eagerWrite w => exact h.2.1.2 id x hx
  | rdmaWrite w => exact h.2.1 id x hx
  | rdmaDone number =>
    simp only [Serves] at h
    split at h
    · rw [h.2]
    · rename_i w hw
      exact h.2.1.2 id x fun hcov => hx ⟨w, hw, hcov⟩
  | rdmaFail number landed =>
    simp only [Serves] at h
    split at h
    · rw [h.2]
    · rename_i w hw
      exact h.2.1 id x fun hcov => hx ⟨w, hw, hcov⟩
  | read id' offset size uninitialised => rw [h.1]
  | flush id' offset size => rw [h.2.1]
  | create id' => rw [h.2]
  | cow sourceId destId allowExist offset size =>
    rcases h with ⟨-, rfl⟩ | ⟨-, -, -, hsame, -⟩
    · rfl
    · exact hsame id x hx
  | rangeRegister | rangeUnregister | clientDisconnect => rw [show a' = a from h]

/-- A request keeps nothing but what the store shows. -/
theorem Serves.operates (h : a.Serves e reply a') :
    WriteBack.Operates a.toStore a'.toStore := by
  rintro ⟨id, x⟩
  cases e with
  | eagerWrite w => exact Or.inl (congrFun h.2.2.1 _)
  | rdmaWrite w => exact Or.inl (congrFun h.2.2.1 _)
  | rdmaDone number =>
    simp only [Serves] at h
    split at h
    · exact Or.inl (by rw [h.2])
    · exact Or.inl (congrFun h.2.2.1 _)
  | rdmaFail number landed =>
    simp only [Serves] at h
    split at h
    · exact Or.inl (by rw [h.2])
    · exact Or.inl (congrFun h.2.2.1 _)
  | read id' offset size uninitialised => exact Or.inl (by rw [h.1])
  | flush id' offset size =>
    refine (h.2.2.2.2 id x).imp_right fun hk => ?_
    rw [h.2.1]
    exact hk.2
  | create id' => exact Or.inl (by rw [h.2])
  | cow sourceId destId allowExist offset size =>
    rcases h with ⟨-, rfl⟩ | ⟨-, -, -, -, hkept⟩
    · exact Or.inl rfl
    · exact (hkept id x).imp_right And.right
  | rangeRegister | rangeUnregister | clientDisconnect => exact Or.inl (by rw [show a' = a from h])

/-- A flush saves its range. -/
theorem Serves.saved {id : ObjectId} {offset size : Nat}
    (h : a.Serves (.flush id offset size) reply a') {x : Nat} (hx : InSpan offset size x) :
    WriteBack.Saved a'.toStore (id, x) := (h.2.2.2.1 x hx).trans (congrFun h.2.1 _).symm

/-- The steps of the store follow the write-back discipline. -/
theorem Step.operates (h : Step a l a') (hl : ¬ l.IsRestart) :
    WriteBack.Operates a.toStore a'.toStore := by
  obtain ⟨incident, reply⟩ := l
  cases incident with
  | request e => exact (show a.Serves e reply a' from h).operates
  | restart cut => exact absurd ⟨cut, rfl⟩ hl

theorem Step.restarts (h : Step a l a') (hl : l.IsRestart) :
    WriteBack.Restarts a.toStore a'.toStore := by
  obtain ⟨incident, reply⟩ := l
  obtain ⟨cut, rfl⟩ := hl
  obtain ⟨-, -, hshown, hkept⟩ := h
  exact fun k => ⟨congrFun hshown k, (hkept k.1 k.2).imp_right And.right⟩

end Steps

end ObjectStore

end IoCatcher
