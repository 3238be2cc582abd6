import IoCatcher.Wire.Protocol
import Mathlib.Tactic.Common

/-!
# IO Catcher — what is packed is what is unpacked

`RoundTrips p u v Q`: a pack walk `p` and an unpack walk `u` agree on the bytes
of the value `v`. Either the pack walk stops wherever it is started, or there
are bytes that `p` stores at its cursor and from which `u` gets a value that
meets `Q`, both moving the cursor past them.

There is one lemma per operation of the serializer and one for sequences; the
result for a message follows the text of its `applySerializerDef`.
-/

namespace IoCatcher.Wire

variable {α β : Type}

/-! ## The two walks -/

/-- A pack walk that returns `v` and stores the bytes `bs`, unless it stops. -/
def Packs (m : SerializerM α) (v : α) (bs : List UInt8) : Prop :=
  ∀ s : SerializerBase, s.action = .pack → s.size < 2 ^ 64 → s.cursor ≤ s.size →
    Ends m s (fun a s' => a = v ∧ s'.buffer = s.buffer.put s.cursor bs ∧
      s'.cursor = s.cursor + bs.length ∧ s'.cursor ≤ s'.size ∧ s'.size = s.size ∧
      s'.action = .pack) fun _ => True

/-- An unpack walk that returns where the message holds `bs`, with a value that
meets `Q`. -/
def Unpacks (m : SerializerM α) (Q : ByteBuffer → α → Prop) (bs : List UInt8) : Prop :=
  ∀ s : SerializerBase, s.action = .unpack → s.size < 2 ^ 64 →
    s.cursor + bs.length ≤ s.size → s.buffer.Holds s.cursor bs →
    Ends m s (fun a s' => Q s.buffer a ∧ s'.buffer = s.buffer ∧
      s'.cursor = s.cursor + bs.length ∧ s'.size = s.size ∧ s'.action = .unpack) fun _ => False

/-- A pack walk that always stops. -/
def NeverPacks (m : SerializerM α) : Prop :=
  ∀ s : SerializerBase, s.action = .pack → s.size < 2 ^ 64 → s.cursor ≤ s.size →
    Ends m s (fun _ _ => False) fun _ => True

/-- The two walks agree on the bytes of a value. -/
def RoundTrips (p u : SerializerM α) (v : α) (Q : ByteBuffer → α → Prop) : Prop :=
  NeverPacks p ∨ ∃ bs, Packs p v bs ∧ Unpacks u Q bs

/-! ## Operations -/

variable {s : SerializerBase} {fault : SerializerFault → Prop}

@[simp] theorem ends_checkSize {fieldName : String} {size : Nat}
    {post : Unit → SerializerBase → Prop} :
    Ends (checkSize fieldName size) s post fault ↔
      if SizeT.add s.cursor size ≤ s.size then post () s
      else fault (.bufferTooSmall size fieldName s.size (SizeT.add s.cursor size)) := by
  simp [checkSize]

@[simp] theorem ends_memcpyTo {bytes : List UInt8} {post : Unit → SerializerBase → Prop} :
    Ends (memcpyTo bytes) s post fault ↔
      if s.cursor + bytes.length ≤ s.size then
        post () { s with buffer := s.buffer.put s.cursor bytes }
      else fault .outOfBounds := by
  simp [memcpyTo]

@[simp] theorem ends_memcpyFrom {n : Nat} {post : List UInt8 → SerializerBase → Prop} :
    Ends (memcpyFrom n) s post fault ↔
      if s.cursor + n ≤ s.size then post (s.buffer.slice s.cursor n) s else fault .outOfBounds := by
  simp [memcpyFrom]

/-- The cursor after a move that stays in the message. -/
theorem advance_eq {n : Nat} (h : s.cursor + n ≤ s.size) (hsize : s.size < 2 ^ 64) :
    SizeT.add s.cursor n = s.cursor + n :=
  SizeT.add_eq (by omega)

theorem packs_scalar (c : Scalar α) (fieldName : String) (v : α) :
    Packs (applyScalar c fieldName v) v (c.encode v) := by
  intro s haction hsize hcursor
  simp only [applyScalar, Ends.bind_iff, ends_checkSize, Ends.get_iff, haction, Ends.pure_iff,
    Ends.modify_iff, ends_memcpyTo, Scalar.length_encode, SerializerBase.advance]
  split_ifs with hcheck hin
  · have hmove := advance_eq hin hsize
    exact ⟨trivial, trivial, hmove, by rw [hmove]; exact hin, trivial, trivial⟩

theorem unpacks_scalar (c : Scalar α) (fieldName : String) (v old : α) :
    Unpacks (applyScalar c fieldName old) (fun _ a => a = v) (c.encode v) := by
  intro s haction hsize hroom hholds
  rw [Scalar.length_encode] at hroom
  have hmove := advance_eq hroom hsize
  have hbytes : s.buffer.slice s.cursor c.width = c.encode v := by
    simpa [ByteBuffer.Holds] using hholds
  simp only [applyScalar, Ends.bind_iff, ends_checkSize, Ends.get_iff, haction, Ends.pure_iff,
    Ends.modify_iff, ends_memcpyFrom, SerializerBase.advance, hmove, if_pos hroom, hbytes,
    Scalar.decode_encode, Scalar.length_encode, and_self]

/-- The pointer designates the bytes `bs` of a message. -/
def Pointer.Designates (p : Pointer) (buffer : ByteBuffer) (bs : List UInt8) : Prop :=
  ∃ i, p = .message i ∧ buffer.Holds i bs

theorem Pointer.length_of_load {p : Pointer} {n : Nat} {bs : List UInt8}
    (h : p.load n = some bs) : bs.length = n := by
  cases p with
  | null =>
    simp only [load] at h
    split_ifs at h with hn
    obtain rfl := Option.some.inj h
    exact hn.symm
  | block bytes =>
    simp only [load] at h
    split_ifs at h with hn
    obtain rfl := Option.some.inj h
    exact List.length_take_of_le hn
  | message i => cases h

/-- The move of a pack walk over a block it has read. -/
theorem packs_block {p : Pointer} {n : Nat} {bs : List UInt8} (hload : p.load n = some bs)
    (fieldName : String) {m : SerializerM Pointer}
    (hm : ∀ s : SerializerBase, s.action = .pack → ∀ post fault, Ends m s post fault ↔
      Ends (do checkSize fieldName n; memcpyTo bs; modify (·.advance n); pure p) s post fault) :
    Packs m p bs := by
  intro s haction hsize hcursor
  rw [hm s haction]
  obtain rfl := Pointer.length_of_load hload
  simp only [Ends.bind_iff, ends_checkSize, Ends.pure_iff, Ends.modify_iff, ends_memcpyTo,
    SerializerBase.advance]
  split_ifs with hcheck hin
  have hmove := advance_eq hin hsize
  exact ⟨trivial, trivial, hmove, by rw [hmove]; exact hin, trivial, haction⟩

theorem packs_serializeOrPoint {p : Pointer} {n : Nat} {bs : List UInt8}
    (hload : p.load n = some bs) (fieldName : String) :
    Packs (serializeOrPoint fieldName p n) p bs := by
  refine packs_block hload fieldName fun s haction post fault => ?_
  simp [serializeOrPoint, haction, loadBlock, hload]

theorem unpacks_serializeOrPoint (fieldName : String) (old : Pointer) {n : Nat} {bs : List UInt8}
    (hlen : n = bs.length % 2 ^ 64) :
    Unpacks (serializeOrPoint fieldName old n) (fun buffer p => p.Designates buffer bs) bs := by
  intro s haction hsize hroom hholds
  -- the bytes are in a message, so there are fewer than `2^64`
  obtain rfl : n = bs.length := by omega
  have hmove := advance_eq hroom hsize
  simp only [serializeOrPoint, Ends.bind_iff, ends_checkSize, Ends.get_iff, haction, Ends.pure_iff,
    Ends.modify_iff, SerializerBase.advance, hmove, if_pos hroom]
  exact ⟨⟨s.cursor, rfl, hholds⟩, trivial, trivial, trivial, trivial⟩

/-- A block that cannot be read is not packed. -/
theorem neverPacks_serializeOrPoint {p : Pointer} {n : Nat} (hload : p.load n = none)
    (fieldName : String) : NeverPacks (serializeOrPoint fieldName p n) := by
  intro s haction hsize hcursor
  simp [serializeOrPoint, haction, loadBlock, hload]

theorem packs_raw {p : Pointer} {n : Nat} {bs : List UInt8} (hnull : p ≠ .null)
    (hload : p.load n = some bs) (fieldName : String) : Packs (applyRaw fieldName p n) p bs := by
  refine packs_block hload fieldName fun s haction post fault => ?_
  simp [applyRaw, haction, loadBlock, hload, hnull]

theorem neverPacks_raw {p : Pointer} {n : Nat} (h : p = .null ∨ p.load n = none)
    (fieldName : String) : NeverPacks (applyRaw fieldName p n) := by
  intro s haction hsize hcursor
  obtain rfl | hload := h
  · simp [applyRaw]
  · by_cases hnull : p = .null
    · simp [applyRaw, hnull]
    · simp [applyRaw, haction, loadBlock, hload, hnull]

/-- A block is overwritten with the bytes of the message. -/
theorem unpacks_raw (fieldName : String) {n : Nat} {bs old : List UInt8} (hlen : bs.length = n)
    (hold : old.length = n) :
    Unpacks (applyRaw fieldName (.block old) n) (fun _ p => p = .block bs) bs := by
  intro s haction hsize hroom hholds
  subst hlen
  have hmove := advance_eq hroom hsize
  have hbytes : s.buffer.slice s.cursor bs.length = bs := hholds
  have hrest : old.drop bs.length = [] := List.drop_eq_nil_of_le hold.le
  simp [applyRaw, haction, hold.ge, hmove, hroom, hbytes, hrest, SerializerBase.advance]

/-! ## Sequences -/

theorem Packs.bind {m : SerializerM α} {k : α → SerializerM β} {v : α} {w : β}
    {bs bs' : List UInt8} (h : Packs m v bs) (hk : Packs (k v) w bs') :
    Packs (m >>= k) w (bs ++ bs') := by
  intro s haction hsize hcursor
  rw [Ends.bind_iff]
  refine (h s haction hsize hcursor).mono ?_ fun _ _ => trivial
  rintro a s₁ ⟨rfl, hbuffer, hmove, hin, hkeep, haction₁⟩
  refine (hk s₁ haction₁ (hkeep ▸ hsize) hin).mono ?_ fun _ _ => trivial
  rintro b s₂ ⟨hb, hbuffer₂, hmove₂, hin₂, hkeep₂, haction₂⟩
  refine ⟨hb, ?_, ?_, hin₂, hkeep₂.trans hkeep, haction₂⟩
  · rw [hbuffer₂, hbuffer, hmove, ByteBuffer.put_append]
  · rw [hmove₂, hmove, List.length_append, Nat.add_assoc]

theorem Unpacks.bind {m : SerializerM α} {k : α → SerializerM β} {v : α}
    {R : ByteBuffer → β → Prop} {bs bs' : List UInt8} (h : Unpacks m (fun _ a => a = v) bs)
    (hk : Unpacks (k v) R bs') : Unpacks (m >>= k) R (bs ++ bs') := by
  intro s haction hsize hroom hholds
  rw [List.length_append] at hroom
  obtain ⟨hholds, hholds'⟩ := ByteBuffer.holds_append.mp hholds
  rw [Ends.bind_iff]
  refine (h s haction hsize (by omega) hholds).mono ?_ fun _ hf => hf
  rintro a s₁ ⟨rfl, hbuffer, hmove, hkeep, haction₁⟩
  have hnext := hk s₁ haction₁ (hkeep ▸ hsize) (by omega) (by rw [hbuffer, hmove]; exact hholds')
  refine hnext.mono ?_ fun _ hf => hf
  rintro b s₂ ⟨hb, hbuffer₂, hmove₂, hkeep₂, haction₂⟩
  refine ⟨hbuffer ▸ hb, hbuffer₂.trans hbuffer, ?_, hkeep₂.trans hkeep, haction₂⟩
  rw [hmove₂, hmove, List.length_append, Nat.add_assoc]

theorem NeverPacks.bind {m : SerializerM α} {k : α → SerializerM β} (h : NeverPacks m) :
    NeverPacks (m >>= k) := by
  intro s haction hsize hcursor
  rw [Ends.bind_iff]
  exact (h s haction hsize hcursor).mono (fun _ _ hf => hf.elim) fun _ _ => trivial

theorem Packs.never_bind {m : SerializerM α} {k : α → SerializerM β} {v : α} {bs : List UInt8}
    (h : Packs m v bs) (hk : NeverPacks (k v)) : NeverPacks (m >>= k) := by
  intro s haction hsize hcursor
  rw [Ends.bind_iff]
  refine (h s haction hsize hcursor).mono ?_ fun _ _ => trivial
  rintro a s₁ ⟨rfl, -, -, hin, hkeep, haction₁⟩
  exact hk s₁ haction₁ (hkeep ▸ hsize) hin

namespace RoundTrips

variable {p u : SerializerM α} {v : α} {Q : ByteBuffer → α → Prop}

theorem pure {a : α} (h : ∀ buffer, Q buffer a) :
    RoundTrips (Pure.pure v) (Pure.pure a) v Q := by
  refine Or.inr ⟨[], fun s haction _ hcursor => ?_, fun s haction _ _ _ => ?_⟩
  · exact ⟨rfl, (ByteBuffer.put_nil ..).symm, rfl, hcursor, rfl, haction⟩
  · exact ⟨h _, rfl, rfl, rfl, haction⟩

/-- A field whose value comes back, then the rest of the struct. -/
theorem bind {k l : α → SerializerM β} {w : β} {R : ByteBuffer → β → Prop}
    (h : RoundTrips p u v fun _ a => a = v) (hk : RoundTrips (k v) (l v) w R) :
    RoundTrips (p >>= k) (u >>= l) w R := by
  obtain hstop | ⟨bs, hp, hu⟩ := h
  · exact Or.inl hstop.bind
  obtain hstop | ⟨bs', hp', hu'⟩ := hk
  · exact Or.inl (hp.never_bind hstop)
  exact Or.inr ⟨bs ++ bs', hp.bind hp', hu.bind hu'⟩

/-- The last field of a struct, that may come back as another pointer. -/
theorem last {f g : α → β} {R : ByteBuffer → β → Prop} (h : RoundTrips p u v Q)
    (hR : ∀ buffer a, Q buffer a → R buffer (g a)) :
    RoundTrips (p >>= fun a => Pure.pure (f a)) (u >>= fun a => Pure.pure (g a)) (f v) R := by
  obtain hstop | ⟨bs, hp, hu⟩ := h
  · exact Or.inl hstop.bind
  refine Or.inr ⟨bs, fun s haction hsize hcursor => ?_, fun s haction hsize hroom hholds => ?_⟩
  · rw [Ends.bind_iff]
    refine (hp s haction hsize hcursor).mono ?_ fun _ _ => trivial
    rintro a s₁ ⟨rfl, hrest⟩
    exact ⟨rfl, hrest⟩
  · rw [Ends.bind_iff]
    refine (hu s haction hsize hroom hholds).mono ?_ fun _ hf => hf
    rintro a s₁ ⟨ha, hrest⟩
    exact ⟨hR _ _ ha, hrest⟩

theorem scalar (c : Scalar α) (fieldName : String) (v old : α) :
    RoundTrips (applyScalar c fieldName v) (applyScalar c fieldName old) v fun _ a => a = v :=
  Or.inr ⟨_, packs_scalar c fieldName v, unpacks_scalar c fieldName v old⟩

theorem payload (fieldName : String) (p old : Pointer) (n : UInt64) :
    RoundTrips (serializeOrPoint fieldName p n.toNat) (serializeOrPoint fieldName old n.toNat) p
      fun buffer d => ∃ bs, p.load n.toNat = some bs ∧ d.Designates buffer bs := by
  cases hload : p.load n.toNat with
  | none => exact Or.inl (neverPacks_serializeOrPoint hload fieldName)
  | some bs =>
    have hlen : n.toNat = bs.length % 2 ^ 64 := by
      rw [Pointer.length_of_load hload, Nat.mod_eq_of_lt n.toNat_lt]
    refine Or.inr ⟨bs, packs_serializeOrPoint hload fieldName, ?_⟩
    intro s haction hsize hroom hholds
    refine (unpacks_serializeOrPoint fieldName old hlen s haction hsize hroom hholds).mono ?_
      fun _ hf => hf
    rintro d s' ⟨hd, hrest⟩
    exact ⟨⟨bs, rfl, hd⟩, hrest⟩

end RoundTrips

/-! ## Strings -/

/-- Text without terminator inside. -/
def NulFree (text : List UInt8) : Prop := ∀ c ∈ text, c ≠ 0

theorem packs_checkSize (fieldName : String) (n : Nat) : Packs (checkSize fieldName n) () [] := by
  intro s haction _ hcursor
  rw [ends_checkSize]
  split_ifs
  exact ⟨rfl, (ByteBuffer.put_nil ..).symm, rfl, hcursor, rfl, haction⟩

theorem packs_pure (v : α) : Packs (pure v) v [] := by
  intro s haction _ hcursor
  exact ⟨rfl, (ByteBuffer.put_nil ..).symm, rfl, hcursor, rfl, haction⟩

theorem packs_string (fieldName : String) {text : List UInt8} (hlen : text.length + 1 < 2 ^ 64) :
    Packs (packString fieldName text) ()
      (Scalar.uint64.encode (UInt64.ofNat (text.length + 1)) ++ (text ++ [0])) := by
  have hload : (Pointer.block (text ++ [0])).load (UInt64.ofNat (text.length + 1)).toNat =
      some (text ++ [0]) := by
    have hn : (UInt64.ofNat (text.length + 1)).toNat = (text ++ [0]).length := by
      simpa using hlen
    rw [hn]
    simp [Pointer.load]
  have hblock := packs_raw (by simp) hload fieldName
  have hrest := hblock.bind (k := fun _ => pure ()) (packs_pure ())
  rw [List.append_nil] at hrest
  have hlength := packs_scalar Scalar.uint64 fieldName (UInt64.ofNat (text.length + 1))
  exact (packs_checkSize fieldName _).bind (hlength.bind hrest)

theorem cString_of_holds {buffer : ByteBuffer} {text : List UInt8} (hfree : NulFree text) :
    ∀ {i fuel : Nat}, buffer.Holds i (text ++ [0]) → text.length < fuel →
      cString buffer i fuel = some text := by
  induction text with
  | nil =>
    rintro i (_ | fuel) hholds hfuel
    · exact absurd hfuel (by simp)
    · have hend : buffer i = 0 := by simpa [ByteBuffer.Holds, ByteBuffer.slice] using hholds
      simp [cString, hend]
  | cons c text ih =>
    rintro i (_ | fuel) hholds hfuel
    · exact absurd hfuel (by simp)
    · obtain ⟨hfirst, hrest⟩ : buffer.Holds i [c] ∧ buffer.Holds (i + 1) (text ++ [0]) :=
        ByteBuffer.holds_append.mp hholds
      have hc : buffer i = c := by simpa [ByteBuffer.Holds, ByteBuffer.slice] using hfirst
      have hne : c ≠ 0 := hfree c List.mem_cons_self
      have htext := ih (fun d hd => hfree d (List.mem_cons_of_mem c hd)) hrest
        (by simpa using hfuel)
      simp [cString, hc, hne, htext]

/-- The characters come back when the terminator is the first NUL. -/
theorem unpacks_loadString (fieldName : String) {text : List UInt8} {len : UInt64}
    (hn : len.toNat = text.length + 1) (hfree : NulFree text) :
    Unpacks (loadString fieldName len) (fun _ a => a = text) (text ++ [0]) := by
  intro s haction hsize hroom hholds
  rw [List.length_append, List.length_singleton] at hroom
  have hmove := advance_eq hroom hsize
  have hlast : SizeT.sub (s.cursor + (text.length + 1)) 1 = s.cursor + text.length :=
    (SizeT.sub_eq (by omega) (by omega)).trans (by omega)
  have hzero : s.buffer (s.cursor + text.length) = 0 := by
    have hend := (ByteBuffer.holds_append.mp hholds).2
    simpa [ByteBuffer.Holds, ByteBuffer.slice] using hend
  have htext : cString s.buffer s.cursor (s.size - s.cursor) = some text :=
    cString_of_holds hfree hholds (by omega)
  have hin : s.cursor + text.length < s.size := by omega
  simp [loadString, hn, hmove, hroom, hlast, hin, hzero, htext, haction, SerializerBase.advance]

theorem RoundTrips.string (fieldName : String) {text : List UInt8} (old : List UInt8)
    (hlen : text.length + 1 < 2 ^ 64) (hfree : NulFree text) :
    RoundTrips (applyString fieldName text) (applyString fieldName old) text
      fun _ a => a = text := by
  have hn : (UInt64.ofNat (text.length + 1)).toNat = text.length + 1 := by simpa using hlen
  refine Or.inr ⟨Scalar.uint64.encode (UInt64.ofNat (text.length + 1)) ++ (text ++ [0]),
    fun s haction hsize hcursor => ?_, fun s haction hsize hroom hholds => ?_⟩
  · have hpack := (packs_string fieldName hlen).bind (k := fun _ => Pure.pure text)
      (packs_pure text)
    rw [List.append_nil] at hpack
    have hrun := hpack s haction hsize hcursor
    simpa [applyString, haction] using hrun
  · have hlength := unpacks_scalar Scalar.uint64 fieldName (UInt64.ofNat (text.length + 1)) 0
    have hrun := hlength.bind (k := loadString fieldName)
      (unpacks_loadString fieldName hn hfree) s haction hsize hroom hholds
    simpa [applyString, haction, applyUInt64] using hrun

/-! ## Fragments -/

/-- The bytes of a list of fragments, one after the other. -/
def loadFragments : List LibfabricBuffer → Option (List UInt8)
  | [] => some []
  | fragment :: rest =>
    match fragment.buffer.load fragment.size.toNat, loadFragments rest with
    | some bytes, some bytes' => some (bytes ++ bytes')
    | _, _ => none

theorem packs_fragments (fragments : List LibfabricBuffer) :
    NeverPacks (applyFragments fragments) ∨
      ∃ bs, loadFragments fragments = some bs ∧ Packs (applyFragments fragments) () bs := by
  induction fragments with
  | nil => exact Or.inr ⟨[], rfl, packs_pure ()⟩
  | cons fragment rest ih =>
    by_cases hnull : fragment.buffer = .null
    · exact Or.inl (neverPacks_raw (Or.inl hnull) _).bind
    cases hload : fragment.buffer.load fragment.size.toNat with
    | none => exact Or.inl (neverPacks_raw (Or.inr hload) _).bind
    | some bytes =>
      have hfirst := packs_raw hnull hload "optionalDataFragment"
      obtain hstop | ⟨bs, hrest, hpack⟩ := ih
      · exact Or.inl (hfirst.never_bind hstop)
      · refine Or.inr ⟨bytes ++ bs, ?_, hfirst.bind hpack⟩
        simp [loadFragments, hload, hrest]

/-- The announced size of a fragmented response is the number of its bytes,
modulo `2^64`. -/
theorem length_loadFragments {fragments : List LibfabricBuffer} {bs : List UInt8}
    (h : loadFragments fragments = some bs) (start : UInt64) :
    ((fragments.map (·.size)).foldl (· + ·) start).toNat =
      (start.toNat + bs.length) % 2 ^ 64 := by
  induction fragments generalizing bs start with
  | nil =>
    obtain rfl := Option.some.inj h
    exact (Nat.mod_eq_of_lt start.toNat_lt).symm
  | cons fragment rest ih =>
    unfold loadFragments at h
    split at h
    · rename_i bytes bytes' hload hrest
      obtain rfl := Option.some.inj h
      have hlen := Pointer.length_of_load hload
      rw [List.map_cons, List.foldl_cons, ih hrest, UInt64.toNat_add, List.length_append, hlen]
      omega
    · cases h

/-! ## Messages -/

namespace RoundTrips

theorem iov (m old : Iov) :
    RoundTrips m.applySerializerDef old.applySerializerDef m fun _ d => d = m :=
  (scalar ..).bind ((scalar ..).bind (pure fun _ => rfl))

theorem objectId (m old : LibfabricObjectId) :
    RoundTrips m.applySerializerDef old.applySerializerDef m fun _ d => d = m :=
  (scalar ..).bind ((scalar ..).bind (pure fun _ => rfl))

theorem header (m old : LibfabricMessageHeader) :
    RoundTrips m.applySerializerDef old.applySerializerDef m fun _ d => d = m :=
  (scalar ..).bind ((scalar ..).bind ((scalar ..).bind ((scalar ..).bind (pure fun _ => rfl))))

theorem flush (m old : LibfabricObjFlushInfos) :
    RoundTrips m.applySerializerDef old.applySerializerDef m fun _ d => d = m :=
  (objectId ..).bind ((scalar ..).bind ((scalar ..).bind (pure fun _ => rfl)))

theorem create (m old : LibfabricObjCreateInfos) :
    RoundTrips m.applySerializerDef old.applySerializerDef m fun _ d => d = m :=
  (objectId ..).bind (pure fun _ => rfl)

theorem registerRange (m old : LibfabricRegisterRange) :
    RoundTrips m.applySerializerDef old.applySerializerDef m fun _ d => d = m :=
  (objectId ..).bind ((scalar ..).bind ((scalar ..).bind ((scalar ..).bind (pure fun _ => rfl))))

theorem unregisterRange (m old : LibfabricUnregisterRange) :
    RoundTrips m.applySerializerDef old.applySerializerDef m fun _ d => d = m :=
  (objectId ..).bind ((scalar ..).bind ((scalar ..).bind ((scalar ..).bind
    ((scalar ..).bind (pure fun _ => rfl)))))

theorem cow (m old : LibfabricObjectCow) :
    RoundTrips m.applySerializerDef old.applySerializerDef m fun _ d => d = m :=
  (objectId ..).bind ((objectId ..).bind ((scalar ..).bind ((scalar ..).bind
    ((scalar ..).bind (pure fun _ => rfl)))))

theorem firstHandshake (m old : LibfabricFirstHandshake) :
    RoundTrips m.applySerializerDef old.applySerializerDef m fun _ d => d = m :=
  (scalar ..).bind ((scalar ..).bind (pure fun _ => rfl))

theorem firstClientMessage (m old : LibfabricFirstClientMessage) :
    RoundTrips m.applySerializerDef old.applySerializerDef m fun _ d => d = m := by
  have hload : (Pointer.block (List.ofFn m.addr)).load maxAddrLen = some (List.ofFn m.addr) := by
    have htake : (List.ofFn m.addr).take maxAddrLen = List.ofFn m.addr :=
      List.take_of_length_le (by simp)
    simp [Pointer.load, htake]
  have hback : addrOfBlock (.block (List.ofFn m.addr)) = m.addr := by
    funext i
    simp [addrOfBlock]
  have hblock : RoundTrips (applyRaw "addr" (.block (List.ofFn m.addr)) maxAddrLen)
      (applyRaw "addr" (.block (List.ofFn old.addr)) maxAddrLen) (.block (List.ofFn m.addr))
      fun _ p => p = .block (List.ofFn m.addr) :=
    Or.inr ⟨_, packs_raw (by simp) hload _, unpacks_raw _ (by simp) (by simp)⟩
  have hstruct := hblock.last (f := fun p => LibfabricFirstClientMessage.mk (addrOfBlock p))
    (g := fun p => LibfabricFirstClientMessage.mk (addrOfBlock p)) (R := fun _ d => d = m)
    (by rintro buffer p rfl; rw [hback])
  rw [hback] at hstruct
  exact hstruct

theorem error (m old : LibfabricErrorMessage) (hlen : m.errorMessage.length + 1 < 2 ^ 64)
    (hfree : NulFree m.errorMessage) :
    RoundTrips m.applySerializerDef old.applySerializerDef m fun _ d => d = m :=
  (string _ _ hlen hfree).bind (pure fun _ => rfl)

end RoundTrips

/-! ### Messages with a payload -/

/-- A block `p` of `n` bytes went into a message, and `d` is where it is. -/
def Pointer.DecodedAs (p : Pointer) (n : UInt64) (buffer : ByteBuffer) (d : Pointer) : Prop :=
  ∃ bs, p.load n.toNat = some bs ∧ d.Designates buffer bs

/-- The fields of a ping, and the data behind it if there is any. -/
def LibfabricPing.DecodedAs (m : LibfabricPing) (buffer : ByteBuffer) (d : LibfabricPing) : Prop :=
  d.rdmaSize = m.rdmaSize ∧ d.eagerSize = m.eagerSize ∧ d.rdmaIov = m.rdmaIov ∧
    (0 < m.eagerSize → m.eagerData.DecodedAs m.eagerSize buffer d.eagerData)

/-- The fields of a read or write request, and its data if it has any. -/
def LibfabricObjReadWriteInfos.DecodedAs (m : LibfabricObjReadWriteInfos) (buffer : ByteBuffer)
    (d : LibfabricObjReadWriteInfos) : Prop :=
  d.objectId = m.objectId ∧ d.iov = m.iov ∧ d.offset = m.offset ∧ d.size = m.size ∧
    d.msgHasData = m.msgHasData ∧
    (m.msgHasData = true → m.optionalData.DecodedAs m.size buffer d.optionalData)

/-- The data a response carries: its fragments, or its block. -/
def LibfabricResponse.data (m : LibfabricResponse) : Option (List UInt8) :=
  match m.optionalDataFragments with
  | some fragments => loadFragments fragments
  | none => m.optionalData.load m.msgDataSize.toNat

/-- The fields of a response, and its data if it has any. -/
def LibfabricResponse.DecodedAs (m : LibfabricResponse) (buffer : ByteBuffer)
    (d : LibfabricResponse) : Prop :=
  d.msgDataSize = m.msgDataSize ∧ d.status = m.status ∧ d.msgHasData = m.msgHasData ∧
    (m.msgHasData = true → ∃ bs, m.data = some bs ∧ d.optionalData.Designates buffer bs)

namespace RoundTrips

/-- Both walks take the payload, or both leave it. -/
theorem optional {c : Prop} [Decidable c] {p u : SerializerM Pointer} {v old : Pointer}
    {Q : ByteBuffer → Pointer → Prop} (h : c → RoundTrips p u v Q) :
    RoundTrips (if c then p else Pure.pure v) (if c then u else Pure.pure old) v
      fun buffer d => c → Q buffer d := by
  split_ifs with hc
  · obtain hstop | ⟨bs, hp, hu⟩ := h hc
    · exact Or.inl hstop
    · refine Or.inr ⟨bs, hp, fun s haction hsize hroom hholds => ?_⟩
      exact (hu s haction hsize hroom hholds).mono (fun _ _ hd => ⟨fun _ => hd.1, hd.2⟩)
        fun _ hf => hf
  · exact pure fun _ hc' => absurd hc' hc

theorem ping (m old : LibfabricPing) :
    RoundTrips m.applySerializerDef old.applySerializerDef m m.DecodedAs := by
  refine (scalar ..).bind ((scalar ..).bind ((iov ..).bind ?_))
  exact (optional fun _ => payload ..).last fun _ _ h => ⟨rfl, rfl, rfl, h⟩

theorem readWrite (m old : LibfabricObjReadWriteInfos) :
    RoundTrips m.applySerializerDef old.applySerializerDef m m.DecodedAs := by
  refine (objectId ..).bind ((iov ..).bind ((scalar ..).bind ((scalar ..).bind
    ((scalar ..).bind ?_))))
  exact (optional fun _ => payload ..).last fun _ _ h => ⟨rfl, rfl, rfl, rfl, rfl, h⟩

/-- Walks that end alike agree on the same bytes. -/
theorem congr {p p' u u' : SerializerM α} {v : α} {Q : ByteBuffer → α → Prop}
    (h : RoundTrips p' u' v Q)
    (hp : ∀ s : SerializerBase, s.action = .pack → ∀ post fault,
      Ends p s post fault ↔ Ends p' s post fault)
    (hu : ∀ s : SerializerBase, s.action = .unpack → ∀ post fault,
      Ends u s post fault ↔ Ends u' s post fault) : RoundTrips p u v Q := by
  obtain hstop | ⟨bs, hpack, hunpack⟩ := h
  · exact Or.inl fun s haction hsize hcursor =>
      (hp s haction _ _).mpr (hstop s haction hsize hcursor)
  · refine Or.inr ⟨bs, fun s haction hsize hcursor => ?_, fun s haction hsize hroom hholds => ?_⟩
    · exact (hp s haction _ _).mpr (hpack s haction hsize hcursor)
    · exact (hu s haction _ _).mpr (hunpack s haction hsize hroom hholds)

/-- The receiver finds one block, whatever the sender had. -/
theorem responseData {m : LibfabricResponse} (hbuilt : m.Built) (hdata : m.msgHasData = true)
    (old : LibfabricResponse) :
    RoundTrips (m.applyData m.msgDataSize) (old.applyData m.msgDataSize) m.optionalData
      fun buffer d => ∃ bs, m.data = some bs ∧ d.Designates buffer bs := by
  have hunpack : ∀ s : SerializerBase, s.action = .unpack → ∀ post fault,
      Ends (old.applyData m.msgDataSize) s post fault ↔
        Ends (serializeOrPoint "optionalData" old.optionalData m.msgDataSize.toNat) s post
          fault := by
    intro s haction post fault
    simp [LibfabricResponse.applyData, haction]
  cases hbuilt with
  | status status => exact absurd hdata (by simp [LibfabricResponse.ofStatus])
  | data status data size =>
    refine (payload "optionalData" data old.optionalData size).congr ?_ hunpack
    intro s haction post fault
    simp [LibfabricResponse.applyData, LibfabricResponse.ofData]
  | fragments status fragments hcount =>
    have hpack : ∀ s : SerializerBase, s.action = .pack → ∀ post fault,
        Ends ((LibfabricResponse.ofFragments status fragments).applyData
          (LibfabricResponse.ofFragments status fragments).msgDataSize) s post fault ↔
        Ends (applyFragments fragments >>= fun _ => Pure.pure Pointer.null) s post fault := by
      intro s haction post fault
      simp [LibfabricResponse.applyData, LibfabricResponse.ofFragments, haction]
    refine congr ?_ hpack hunpack
    obtain hstop | ⟨bs, hload, hfragments⟩ := packs_fragments fragments
    · exact Or.inl hstop.bind
    -- the announced size is that of the concatenation
    have hlen : (LibfabricResponse.ofFragments status fragments).msgDataSize.toNat =
        bs.length % 2 ^ 64 := by
      simpa [LibfabricResponse.ofFragments] using length_loadFragments hload 0
    have hnull := hfragments.bind (k := fun _ => Pure.pure Pointer.null) (packs_pure Pointer.null)
    rw [List.append_nil] at hnull
    refine Or.inr ⟨bs, hnull, fun s haction hsize hroom hholds => ?_⟩
    refine (unpacks_serializeOrPoint "optionalData" old.optionalData hlen s haction hsize hroom
      hholds).mono ?_ fun _ hf => hf
    rintro d s' ⟨hd, hrest⟩
    exact ⟨⟨bs, hload, hd⟩, hrest⟩

theorem response {m : LibfabricResponse} (hbuilt : m.Built) (old : LibfabricResponse) :
    RoundTrips m.applySerializerDef old.applySerializerDef m m.DecodedAs := by
  refine (scalar ..).bind ((scalar ..).bind ((scalar ..).bind ?_))
  exact (optional fun hdata => responseData hbuilt hdata old).last fun _ _ h => ⟨rfl, rfl, rfl, h⟩

end RoundTrips

/-! ## Whole messages -/

/-- The bodies the program sends: a response as `sendResponse` builds it, and
an error text without NUL. A `std::string` and its terminator are in memory, so
there are fewer than `2^64` characters. -/
def MessageBody.Sendable : MessageBody → Prop
  | .response m => m.Built
  | .error m => m.errorMessage.length + 1 < 2 ^ 64 ∧ NulFree m.errorMessage
  | _ => True

/-- A body comes back as `d` from the message in `buffer`: the same fields, and
the payload in the message. -/
def MessageBody.DecodedAs (buffer : ByteBuffer) : MessageBody → MessageBody → Prop
  | .ping m, .ping d => m.DecodedAs buffer d
  | .readWrite m, .readWrite d => m.DecodedAs buffer d
  | .response m, .response d => m.DecodedAs buffer d
  | body, d => d = body

theorem roundTrips_body {body old : MessageBody} (hbody : body.Sendable)
    (hkind : old.kind = body.kind) :
    RoundTrips body.applySerializerDef old.applySerializerDef body
      fun buffer d => body.DecodedAs buffer d := by
  match body, old, hkind with
  | .ping m, .ping old, _ => exact (RoundTrips.ping m old).last fun _ _ h => h
  | .objectId m, .objectId old, _ =>
    exact (RoundTrips.objectId m old).last fun _ _ h => congrArg _ h
  | .readWrite m, .readWrite old, _ => exact (RoundTrips.readWrite m old).last fun _ _ h => h
  | .flush m, .flush old, _ => exact (RoundTrips.flush m old).last fun _ _ h => congrArg _ h
  | .create m, .create old, _ => exact (RoundTrips.create m old).last fun _ _ h => congrArg _ h
  | .registerRange m, .registerRange old, _ =>
    exact (RoundTrips.registerRange m old).last fun _ _ h => congrArg _ h
  | .unregisterRange m, .unregisterRange old, _ =>
    exact (RoundTrips.unregisterRange m old).last fun _ _ h => congrArg _ h
  | .cow m, .cow old, _ => exact (RoundTrips.cow m old).last fun _ _ h => congrArg _ h
  | .response m, .response old, _ => exact (RoundTrips.response hbody old).last fun _ _ h => h
  | .firstHandshake m, .firstHandshake old, _ =>
    exact (RoundTrips.firstHandshake m old).last fun _ _ h => congrArg _ h
  | .firstClientMessage m, .firstClientMessage old, _ =>
    exact (RoundTrips.firstClientMessage m old).last fun _ _ h => congrArg _ h
  | .empty, .empty, _ => exact RoundTrips.pure fun _ => rfl
  | .error m, .error old, _ =>
    exact (RoundTrips.error m old hbody.1 hbody.2).last fun _ _ h => congrArg _ h

theorem roundTrips_message (header oldHeader : LibfabricMessageHeader) {body old : MessageBody}
    (hbody : body.Sendable) (hkind : old.kind = body.kind) :
    RoundTrips (applyMessage header body) (applyMessage oldHeader old) (header, body)
      fun buffer d => d.1 = header ∧ body.DecodedAs buffer d.2 :=
  (RoundTrips.header ..).bind ((roundTrips_body hbody hkind).last fun _ _ h => ⟨rfl, h⟩)

/-- **Protocol round trip.** A message that was packed without abort is decoded
to the header and the body it was packed from, whatever the structs it is
decoded into contained; the payload is found in the message, and the two
cursors end at the same place. -/
theorem message_roundTrip (header oldHeader : LibfabricMessageHeader) {body old : MessageBody}
    (hbody : body.Sendable) (hkind : old.kind = body.kind) {buffer : ByteBuffer} {size : Nat}
    (hsize : size < 2 ^ 64) {r : LibfabricMessageHeader × MessageBody} {s : SerializerBase}
    (hpack : packMessage header body buffer size = .ok (r, s)) {capacity : Nat}
    (hcapacity : capacity < 2 ^ 64) (hroom : s.cursor ≤ capacity) :
    ∃ d s', unpackMessage oldHeader old s.buffer capacity = .ok ((header, d), s') ∧
      body.DecodedAs s.buffer d ∧ s'.cursor = s.cursor := by
  have hpack : applyMessage header body (.new buffer size .pack) = .ok (r, s) := by
    unfold packMessage runSerializer at hpack
    split_ifs at hpack
    exact hpack
  obtain hstop | ⟨bs, hp, hu⟩ := roundTrips_message header oldHeader hbody hkind
  · exact ((Ends.of_ok hpack).mp (hstop _ rfl hsize (Nat.zero_le _))).elim
  obtain ⟨-, hbuffer, hcursor, -⟩ := (Ends.of_ok hpack).mp (hp _ rfl hsize (Nat.zero_le _))
  have hcursor : s.cursor = bs.length := hcursor.trans (Nat.zero_add _)
  have hholds : s.buffer.Holds 0 bs := by
    rw [hbuffer]
    exact ByteBuffer.holds_put ..
  have hrun := hu (.new s.buffer capacity .unpack) rfl hcapacity
    (by rw [← hcursor]; simpa [SerializerBase.new] using hroom) hholds
  have hpos : ¬ (capacity = 0 ∧ SerializerAction.unpack ≠ .size) := by
    -- the first field of the header is checked against the size
    rintro ⟨rfl, -⟩
    simp [applyMessage, LibfabricMessageHeader.applySerializerDef, applyUInt64, applyScalar,
      SerializerBase.new, SizeT.add, Scalar.uint64] at hrun
  obtain ⟨⟨h', d⟩, s', hend, ⟨rfl, hd⟩, -, hcursor', -⟩ := hrun.returns
  refine ⟨d, s', ?_, hd, ?_⟩
  · unfold unpackMessage runSerializer
    rw [if_neg hpos]
    exact hend
  · rw [hcursor', hcursor]
    exact Nat.zero_add _

/-- A response of two fragments. -/
def twoFragments : MessageBody :=
  .response (.ofFragments 0 [⟨.block [1, 2, 3], 3⟩, ⟨.block [4, 5, 6, 7], 2⟩])

/-- It goes through a buffer of 64 bytes and takes 50 of them. -/
theorem twoFragments_roundTrip :
    ∃ r s, packMessage ⟨102, 1, 0, 7⟩ twoFragments (fun _ => 255) 64 = .ok (r, s) ∧
      ∃ d s', unpackMessage ⟨0, 0, 0, 0⟩ (.response (.ofStatus (-1))) s.buffer 50 =
          .ok ((⟨102, 1, 0, 7⟩, d), s') ∧
        twoFragments.DecodedAs s.buffer d ∧ s'.cursor = s.cursor := by
  have hbody : twoFragments.Sendable := LibfabricResponse.Built.fragments 0 _ (by decide)
  have hkind : (MessageBody.response (.ofStatus (-1))).kind = twoFragments.kind := rfl
  obtain ⟨⟨r, s⟩, hsent, hcursor⟩ := Except.exists_ok (p := fun x => decide (x.2.cursor ≤ 50))
    (x := packMessage ⟨102, 1, 0, 7⟩ twoFragments (fun _ => 255) 64) (by decide +kernel)
  have hroom : s.cursor ≤ 50 := of_decide_eq_true hcursor
  exact ⟨r, s, hsent, message_roundTrip ⟨102, 1, 0, 7⟩ ⟨0, 0, 0, 0⟩ hbody hkind
    (by omega) hsent (by omega) hroom⟩

end IoCatcher.Wire
