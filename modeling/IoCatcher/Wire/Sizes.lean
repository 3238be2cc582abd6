import IoCatcher.Wire.RoundTrip

/-!
# IO Catcher — the size of a message before it is packed

`SerializerBase::computeSize` makes the walk of `pack` without a buffer, to know how long
the message will be. Every operation moves the cursor by the same amount in both
walks, but for one: on a `std::string` the size walk does not move.

`Measures m v t`: a walk `m` that packs `v` into some bytes moves the cursor of the size
walk by `t` less. There is one lemma per operation and one for sequences, and the
result holds for any structure (`Field`) as for the messages of the protocol.

* `computeSize_eq_iff` — the two walks agree exactly on the values without string;
* `error_size_short`   — an error message of no text takes 9 bytes, and none are counted.
-/

namespace IoCatcher.Wire

variable {α β : Type}

-- ---------------------------------------------------------------------------
-- The size walk
-- ---------------------------------------------------------------------------

/-- `SerializerBase::computeSize` of the walk of a structure. -/
def computeSize (m : SerializerM α) : Except SerializerFault Nat :=
  (runSerializer m (fun _ => 0) (2 ^ 64 - 1) .size).map fun r => r.2.cursor

/-- A size walk that returns `v` and counts `k` bytes. -/
def Sizes (m : SerializerM α) (v : α) (k : Nat) : Prop :=
  ∀ s : SerializerBase, s.action = .size → s.size = 2 ^ 64 - 1 → s.cursor + k < 2 ^ 64 →
    Ends m s (fun a s' => a = v ∧ s'.cursor = s.cursor + k ∧ s'.size = s.size ∧
      s'.action = .size) fun _ => False

theorem sizes_pure (v : α) : Sizes (pure v) v 0 := fun _ haction _ _ => ⟨rfl, rfl, rfl, haction⟩

theorem Sizes.bind {m : SerializerM α} {f : α → SerializerM β} {v : α} {w : β} {k k' : Nat}
    (h : Sizes m v k) (hf : Sizes (f v) w k') : Sizes (m >>= f) w (k + k') := by
  intro s haction hsize hroom
  rw [Ends.bind_iff]
  refine (h s haction hsize (by omega)).mono ?_ fun _ hno => hno
  rintro a s₁ ⟨rfl, hmove, hkeep, haction₁⟩
  refine (hf s₁ haction₁ (hkeep.trans hsize) (by omega)).mono ?_ fun _ hno => hno
  rintro b s₂ ⟨hb, hmove₂, hkeep₂, haction₂⟩
  exact ⟨hb, by omega, hkeep₂.trans hkeep, haction₂⟩

/-- With `SIZE_MAX` for a size no check fails. -/
theorem sizes_move {m : SerializerM α} {v : α} {k : Nat} (fieldName : String)
    (hm : ∀ s : SerializerBase, s.action = .size → ∀ post fault, Ends m s post fault ↔
      Ends (do checkSize fieldName k; modify (·.advance k); pure v) s post fault) :
    Sizes m v k := by
  intro s haction hsize hroom
  have hadd : SizeT.add s.cursor k = s.cursor + k := SizeT.add_eq hroom
  rw [hm s haction, Ends.bind_iff, ends_checkSize, hadd, if_pos (by omega)]
  exact ⟨rfl, hadd, rfl, haction⟩

theorem sizes_scalar (c : Scalar α) (fieldName : String) (v : α) :
    Sizes (applyScalar c fieldName v) v c.width :=
  sizes_move fieldName fun s haction post fault => by simp [applyScalar, haction]

theorem sizes_serializeOrPoint (fieldName : String) (p : Pointer) (n : Nat) :
    Sizes (serializeOrPoint fieldName p n) p n :=
  sizes_move fieldName fun s haction post fault => by simp [serializeOrPoint, haction]

theorem sizes_raw (fieldName : String) {p : Pointer} (hnull : p ≠ .null) (n : Nat) :
    Sizes (applyRaw fieldName p n) p n :=
  sizes_move fieldName fun s haction post fault => by simp [applyRaw, haction, hnull]

/-- A string is not counted. -/
theorem sizes_string (fieldName : String) (text : List UInt8) :
    Sizes (applyString fieldName text) text 0 := by
  intro s haction _ _
  simp [applyString, haction]

-- ---------------------------------------------------------------------------
-- Both walks
-- ---------------------------------------------------------------------------

/-- The walk never packs, or it packs `t` bytes more than it counts. -/
def Measures (m : SerializerM α) (v : α) (t : Nat) : Prop :=
  NeverPacks m ∨ ∃ bs k, Packs m v bs ∧ Sizes m v k ∧ bs.length = k + t

/-- The bytes of a string: its length, its characters and the terminator. -/
def textSize (text : List UInt8) : Nat := 8 + (UInt64.ofNat (text.length + 1)).toNat

theorem packs_text (fieldName : String) (text : List UInt8) :
    ∃ bs, Packs (applyString fieldName text) text bs ∧ bs.length = textSize text := by
  have hload : (Pointer.block (text ++ [0])).load (UInt64.ofNat (text.length + 1)).toNat =
      some ((text ++ [0]).take (UInt64.ofNat (text.length + 1)).toNat) := by
    have hle : (UInt64.ofNat (text.length + 1)).toNat ≤ (text ++ [0]).length := by
      rw [List.length_append, UInt64.toNat_ofNat']
      exact Nat.mod_le _ _
    exact if_pos hle
  generalize (text ++ [0]).take (UInt64.ofNat (text.length + 1)).toNat = chars at hload
  have hstring : Packs (packString fieldName text) ()
      ([] ++ (Scalar.uint64.encode (UInt64.ofNat (text.length + 1)) ++ (chars ++ []))) :=
    (packs_checkSize fieldName _).bind ((packs_scalar Scalar.uint64 fieldName _).bind
      ((packs_raw (by simp) hload fieldName).bind (packs_pure ())))
  have hlen : (Scalar.uint64.encode (UInt64.ofNat (text.length + 1)) ++ chars).length =
      textSize text := by
    rw [List.length_append, Scalar.length_encode, Pointer.length_of_load hload]
    rfl
  rw [List.nil_append, List.append_nil] at hstring
  refine ⟨_, fun s haction hsize hcursor => ?_, hlen⟩
  have hwalk : ∀ post fault, Ends (applyString fieldName text) s post fault ↔
      Ends (packString fieldName text >>= fun _ => pure text) s post fault := by
    intro post fault
    simp [applyString, haction]
  have hreturn : Packs (packString fieldName text >>= fun _ => pure text) text _ :=
    hstring.bind (packs_pure text)
  have hend := hreturn s haction hsize hcursor
  rw [List.append_nil] at hend
  exact (hwalk _ _).mpr hend

namespace Measures

variable {m : SerializerM α} {v : α} {t : Nat}

theorem pure (v : α) : Measures (Pure.pure v) v 0 :=
  Or.inr ⟨[], 0, packs_pure v, sizes_pure v, rfl⟩

/-- What a field adds adds up. -/
theorem bind {f : α → SerializerM β} {w : β} {t' : Nat} (h : Measures m v t)
    (hf : Measures (f v) w t') : Measures (m >>= f) w (t + t') := by
  obtain hstop | ⟨bs, k, hp, hs, hlen⟩ := h
  · exact Or.inl hstop.bind
  obtain hstop | ⟨bs', k', hp', hs', hlen'⟩ := hf
  · exact Or.inl (hp.never_bind hstop)
  refine Or.inr ⟨bs ++ bs', k + k', hp.bind hp', hs.bind hs', ?_⟩
  rw [List.length_append]
  omega

/-- A field without text, then the rest of the struct. -/
theorem next {f : α → SerializerM β} {w : β} {t' : Nat} (h : Measures m v 0)
    (hf : Measures (f v) w t') : Measures (m >>= f) w t' := by
  have hboth := h.bind hf
  rwa [Nat.zero_add] at hboth

/-- The last call of a walk, and what it makes of its result. -/
theorem last (h : Measures m v t) (f : α → β) :
    Measures (m >>= fun a => Pure.pure (f a)) (f v) t := by
  have hend := h.bind (f := fun a => Pure.pure (f a)) (pure (f v))
  rwa [Nat.add_zero] at hend

theorem scalar (c : Scalar α) (fieldName : String) (v : α) :
    Measures (applyScalar c fieldName v) v 0 :=
  Or.inr ⟨_, _, packs_scalar c fieldName v, sizes_scalar c fieldName v, Scalar.length_encode ..⟩

theorem payload (fieldName : String) (p : Pointer) (n : Nat) :
    Measures (serializeOrPoint fieldName p n) p 0 := by
  cases hload : p.load n with
  | none => exact Or.inl (neverPacks_serializeOrPoint hload fieldName)
  | some bs => exact Or.inr ⟨bs, n, packs_serializeOrPoint hload fieldName,
      sizes_serializeOrPoint fieldName p n, Pointer.length_of_load hload⟩

theorem raw (fieldName : String) (p : Pointer) (n : Nat) :
    Measures (applyRaw fieldName p n) p 0 := by
  by_cases hnull : p = .null
  · exact Or.inl (neverPacks_raw (Or.inl hnull) fieldName)
  cases hload : p.load n with
  | none => exact Or.inl (neverPacks_raw (Or.inr hload) fieldName)
  | some bs => exact Or.inr ⟨bs, n, packs_raw hnull hload fieldName, sizes_raw fieldName hnull n,
      Pointer.length_of_load hload⟩

theorem string (fieldName : String) (text : List UInt8) :
    Measures (applyString fieldName text) text (textSize text) := by
  obtain ⟨bs, hp, hlen⟩ := packs_text fieldName text
  exact Or.inr ⟨bs, 0, hp, sizes_string fieldName text, by omega⟩

/-- Where a walk packs into less than `2^64` bytes, it counts `t` bytes less. -/
theorem computeSize_eq (h : Measures m v t) {buffer : ByteBuffer} {size : Nat}
    (hsize : size < 2 ^ 64) {a : α} {s : SerializerBase}
    (hpack : runSerializer m buffer size .pack = .ok (a, s)) :
    ∃ k, computeSize m = .ok k ∧ s.cursor = k + t := by
  unfold runSerializer at hpack
  split_ifs at hpack
  obtain hstop | ⟨bs, k, hp, hs, hlen⟩ := h
  · have hno := hstop (.new buffer size .pack) rfl hsize (Nat.zero_le _)
    rw [Ends.of_ok hpack] at hno
    exact hno.elim
  have hdone := hp (.new buffer size .pack) rfl hsize (Nat.zero_le _)
  rw [Ends.of_ok hpack] at hdone
  obtain ⟨-, -, hmove, hin, hkeep, -⟩ := hdone
  have hzero : (SerializerBase.new buffer size .pack).cursor = 0 := rfl
  have hfull : (SerializerBase.new buffer size .pack).size = size := rfl
  rw [hzero] at hmove
  rw [hfull] at hkeep
  obtain ⟨b, s', hok, -, hcount, -⟩ := Ends.returns
    (hs (.new (fun _ => 0) (2 ^ 64 - 1) .size) rfl rfl (by
      show 0 + k < 2 ^ 64
      omega))
  refine ⟨k, ?_, by omega⟩
  unfold computeSize runSerializer
  rw [if_neg (by decide), hok]
  show Except.ok s'.cursor = _
  rw [hcount]
  exact congrArg Except.ok (Nat.zero_add k)

end Measures

-- ---------------------------------------------------------------------------
-- Structures
-- ---------------------------------------------------------------------------

/-- The calls an `applySerializerDef` can make, with the values of a structure. -/
inductive Field where
  | bool (fieldName : String) (value : Bool)
  | uint32 (fieldName : String) (value : UInt32)
  | int32 (fieldName : String) (value : Int32)
  | int64 (fieldName : String) (value : Int64)
  | uint64 (fieldName : String) (value : UInt64)
  | string (fieldName : String) (value : List UInt8)
  | raw (fieldName : String) (buffer : Pointer) (size : UInt64)
  | orPoint (fieldName : String) (buffer : Pointer) (size : UInt64)
  | struct (fieldName : String) (fields : List Field)

mutual

/-- `SerializerBase::apply` of a field. -/
def Field.apply : Field → SerializerM Unit
  | .bool fieldName value => do let _ ← applyBool fieldName value
  | .uint32 fieldName value => do let _ ← applyUInt32 fieldName value
  | .int32 fieldName value => do let _ ← applyInt32 fieldName value
  | .int64 fieldName value => do let _ ← applyInt64 fieldName value
  | .uint64 fieldName value => do let _ ← applyUInt64 fieldName value
  | .string fieldName value => do let _ ← applyString fieldName value
  | .raw fieldName buffer size => do let _ ← applyRaw fieldName buffer size.toNat
  | .orPoint fieldName buffer size => do let _ ← serializeOrPoint fieldName buffer size.toNat
  -- `value.applySerializerDef(*this)`
  | .struct _ fields => applyFields fields

def applyFields : List Field → SerializerM Unit
  | [] => pure ()
  | field :: rest => do
    field.apply
    applyFields rest

end

mutual

/-- The bytes of the strings of a field. -/
def Field.text : Field → Nat
  | .string _ value => textSize value
  | .struct _ fields => textOf fields
  | _ => 0

def textOf : List Field → Nat
  | [] => 0
  | field :: rest => field.text + textOf rest

end

mutual

/-- There is no string in the field. -/
def Field.Textless : Field → Prop
  | .string _ _ => False
  | .struct _ fields => TextlessAll fields
  | _ => True

def TextlessAll : List Field → Prop
  | [] => True
  | field :: rest => field.Textless ∧ TextlessAll rest

end

mutual

theorem Field.text_eq_zero : ∀ field : Field, field.text = 0 ↔ field.Textless
  | .string _ value => by
    simp [Field.text, Field.Textless, textSize]
  | .struct _ fields => by
    unfold Field.text Field.Textless
    exact textOf_eq_zero fields
  | .bool .. | .uint32 .. | .int32 .. | .int64 .. | .uint64 .. | .raw .. | .orPoint .. => by
    simp [Field.text, Field.Textless]

theorem textOf_eq_zero : ∀ fields : List Field, textOf fields = 0 ↔ TextlessAll fields
  | [] => by simp [textOf, TextlessAll]
  | field :: rest => by
    rw [textOf, TextlessAll, Nat.add_eq_zero_iff, field.text_eq_zero, textOf_eq_zero rest]

end

mutual

theorem Field.measures : ∀ field : Field, Measures field.apply () field.text
  | .bool fieldName value => by
    unfold Field.apply Field.text
    exact (Measures.scalar Scalar.bool fieldName value).last fun _ => ()
  | .uint32 fieldName value => by
    unfold Field.apply Field.text
    exact (Measures.scalar Scalar.uint32 fieldName value).last fun _ => ()
  | .int32 fieldName value => by
    unfold Field.apply Field.text
    exact (Measures.scalar Scalar.int32 fieldName value).last fun _ => ()
  | .int64 fieldName value => by
    unfold Field.apply Field.text
    exact (Measures.scalar Scalar.int64 fieldName value).last fun _ => ()
  | .uint64 fieldName value => by
    unfold Field.apply Field.text
    exact (Measures.scalar Scalar.uint64 fieldName value).last fun _ => ()
  | .string fieldName value => by
    unfold Field.apply Field.text
    exact (Measures.string fieldName value).last fun _ => ()
  | .raw fieldName buffer size => by
    unfold Field.apply Field.text
    exact (Measures.raw fieldName buffer size.toNat).last fun _ => ()
  | .orPoint fieldName buffer size => by
    unfold Field.apply Field.text
    exact (Measures.payload fieldName buffer size.toNat).last fun _ => ()
  | .struct _ fields => by
    unfold Field.apply Field.text
    exact measures_fields fields

/-- The two walks of a structure, by induction on its fields. -/
theorem measures_fields : ∀ fields : List Field, Measures (applyFields fields) () (textOf fields)
  | [] => by
    unfold applyFields textOf
    exact .pure ()
  | field :: rest => by
    unfold applyFields textOf
    exact field.measures.bind (measures_fields rest)

end

-- ---------------------------------------------------------------------------
-- Messages
-- ---------------------------------------------------------------------------

namespace Measures

theorem iov (m : Iov) : Measures m.applySerializerDef m 0 :=
  (scalar ..).next ((scalar ..).last _)

theorem objectId (m : LibfabricObjectId) : Measures m.applySerializerDef m 0 :=
  (scalar ..).next ((scalar ..).last _)

theorem header (m : LibfabricMessageHeader) : Measures m.applySerializerDef m 0 :=
  (scalar ..).next ((scalar ..).next ((scalar ..).next ((scalar ..).last _)))

theorem flush (m : LibfabricObjFlushInfos) : Measures m.applySerializerDef m 0 :=
  (objectId ..).next ((scalar ..).next ((scalar ..).last _))

theorem create (m : LibfabricObjCreateInfos) : Measures m.applySerializerDef m 0 :=
  (objectId ..).last _

theorem registerRange (m : LibfabricRegisterRange) : Measures m.applySerializerDef m 0 :=
  (objectId ..).next ((scalar ..).next ((scalar ..).next ((scalar ..).last _)))

theorem unregisterRange (m : LibfabricUnregisterRange) : Measures m.applySerializerDef m 0 :=
  (objectId ..).next ((scalar ..).next ((scalar ..).next ((scalar ..).next ((scalar ..).last _))))

theorem cow (m : LibfabricObjectCow) : Measures m.applySerializerDef m 0 :=
  (objectId ..).next ((objectId ..).next ((scalar ..).next ((scalar ..).next
    ((scalar ..).last _))))

theorem firstHandshake (m : LibfabricFirstHandshake) : Measures m.applySerializerDef m 0 :=
  (scalar ..).next ((scalar ..).last _)

theorem firstClientMessage (m : LibfabricFirstClientMessage) :
    Measures m.applySerializerDef ⟨addrOfBlock (.block (List.ofFn m.addr))⟩ 0 :=
  (raw "addr" (.block (List.ofFn m.addr)) maxAddrLen).last _

theorem error (m : LibfabricErrorMessage) :
    Measures m.applySerializerDef m (textSize m.errorMessage) :=
  (string "errorMessage" m.errorMessage).last LibfabricErrorMessage.mk

/-- A payload that is there or not, the same in both walks. -/
theorem optional {c : Prop} [Decidable c] {m : SerializerM Pointer} {v : Pointer}
    (h : Measures m v 0) : Measures (if c then m else Pure.pure v) v 0 := by
  split_ifs
  · exact h
  · exact pure v

theorem ping (m : LibfabricPing) : Measures m.applySerializerDef m 0 :=
  (scalar ..).next ((scalar ..).next ((iov ..).next ((optional (payload ..)).last _)))

theorem readWrite (m : LibfabricObjReadWriteInfos) : Measures m.applySerializerDef m 0 :=
  (objectId ..).next ((iov ..).next ((scalar ..).next ((scalar ..).next ((scalar ..).next
    ((optional (payload ..)).last _)))))

theorem fragments (fs : List LibfabricBuffer) : Measures (applyFragments fs) () 0 := by
  induction fs with
  | nil => exact pure ()
  | cons fragment rest ih => exact (raw ..).next ih

/-- Walks that pack alike and count alike. -/
theorem congr {m' : SerializerM α} (h : Measures m v t)
    (hm : ∀ s : SerializerBase, s.action ≠ .unpack → ∀ post fault,
      Ends m' s post fault ↔ Ends m s post fault) : Measures m' v t := by
  have hpack : ∀ s : SerializerBase, s.action = .pack → s.action ≠ .unpack := by simp +contextual
  have hcount : ∀ s : SerializerBase, s.action = .size → s.action ≠ .unpack := by simp +contextual
  obtain hstop | ⟨bs, k, hp, hs, hlen⟩ := h
  · exact Or.inl fun s haction hsize hcursor =>
      (hm s (hpack s haction) _ _).mpr (hstop s haction hsize hcursor)
  · exact Or.inr ⟨bs, k,
      fun s haction hsize hcursor => (hm s (hpack s haction) _ _).mpr (hp s haction hsize hcursor),
      fun s haction hsize hroom => (hm s (hcount s haction) _ _).mpr (hs s haction hsize hroom),
      hlen⟩

/-- Both walks take the fragments, or both the block. -/
theorem responseData (m : LibfabricResponse) :
    Measures (m.applyData m.msgDataSize) m.optionalData 0 := by
  cases hfs : m.optionalDataFragments with
  | none =>
    refine (payload "optionalData" m.optionalData m.msgDataSize.toNat).congr ?_
    intro s _ post fault
    simp [LibfabricResponse.applyData, hfs]
  | some fs =>
    by_cases hnull : m.optionalData = .null
    · refine ((fragments fs).last fun _ => m.optionalData).congr fun s haction post fault => ?_
      cases hact : s.action with
      | unpack => exact absurd hact haction
      | pack | size => simp [LibfabricResponse.applyData, hfs, hact, hnull]
    · -- the assertion that a response has a block or fragments
      refine Or.inl fun s haction _ _ => ?_
      simp [LibfabricResponse.applyData, hfs, haction, hnull]

theorem response (m : LibfabricResponse) : Measures m.applySerializerDef m 0 :=
  (scalar ..).next ((scalar ..).next ((scalar ..).next ((optional (responseData m)).last _)))

end Measures

/-- The bytes of the text of a message. -/
def MessageBody.text : MessageBody → Nat
  | .error m => textSize m.errorMessage
  | _ => 0

theorem measures_body (body : MessageBody) :
    ∃ v, Measures body.applySerializerDef v body.text := by
  cases body with
  | ping m => exact ⟨_, (Measures.ping m).last _⟩
  | objectId m => exact ⟨_, (Measures.objectId m).last _⟩
  | readWrite m => exact ⟨_, (Measures.readWrite m).last _⟩
  | flush m => exact ⟨_, (Measures.flush m).last _⟩
  | create m => exact ⟨_, (Measures.create m).last _⟩
  | registerRange m => exact ⟨_, (Measures.registerRange m).last _⟩
  | unregisterRange m => exact ⟨_, (Measures.unregisterRange m).last _⟩
  | cow m => exact ⟨_, (Measures.cow m).last _⟩
  | response m => exact ⟨_, (Measures.response m).last _⟩
  | firstHandshake m => exact ⟨_, (Measures.firstHandshake m).last _⟩
  | firstClientMessage m => exact ⟨_, (Measures.firstClientMessage m).last _⟩
  | empty => exact ⟨_, Measures.pure _⟩
  | error m => exact ⟨_, (Measures.error m).last _⟩

/-- The two sizes are the same exactly when no text was packed. -/
theorem Measures.computeSize_iff {m : SerializerM α} {v : α} {t : Nat} (h : Measures m v t)
    {buffer : ByteBuffer} {size : Nat} (hsize : size < 2 ^ 64) {a : α} {s : SerializerBase}
    (hpack : runSerializer m buffer size .pack = .ok (a, s)) :
    computeSize m = .ok s.cursor ↔ t = 0 := by
  obtain ⟨k, hcount, hcursor⟩ := h.computeSize_eq hsize hpack
  rw [hcount, hcursor]
  refine ⟨fun heq => ?_, fun hzero => by rw [hzero, Nat.add_zero]⟩
  have := Except.ok.inj heq
  omega

/-- **`computeSize` agrees with `pack`** on the values without string and on no others: of
any structure, and of the messages of the protocol, where it is wrong for the error
message. -/
theorem computeSize_eq_iff (buffer : ByteBuffer) (size : Nat) (hsize : size < 2 ^ 64) :
    (∀ (fields : List Field) (s : SerializerBase),
      runSerializer (applyFields fields) buffer size .pack = .ok ((), s) →
        (computeSize (applyFields fields) = .ok s.cursor ↔ TextlessAll fields)) ∧
    (∀ (body : MessageBody) (d : MessageBody) (s : SerializerBase),
      runSerializer body.applySerializerDef buffer size .pack = .ok (d, s) →
        (computeSize body.applySerializerDef = .ok s.cursor ↔ body.kind ≠ .error)) ∧
    ∀ (header d : LibfabricMessageHeader) (body d' : MessageBody) (s : SerializerBase),
      packMessage header body buffer size = .ok ((d, d'), s) →
        (computeSize (applyMessage header body) = .ok s.cursor ↔ body.kind ≠ .error) := by
  have hkind : ∀ body : MessageBody, body.text = 0 ↔ body.kind ≠ .error := by
    intro body
    cases body <;> simp [MessageBody.text, MessageBody.kind, textSize]
  refine ⟨fun fields s hpack => ?_, fun body d s hpack => ?_, fun header d body d' s hpack => ?_⟩
  · rw [(measures_fields fields).computeSize_iff hsize hpack, textOf_eq_zero]
  · obtain ⟨v, hbody⟩ := measures_body body
    rw [hbody.computeSize_iff hsize hpack, hkind]
  · obtain ⟨v, hbody⟩ := measures_body body
    have hmessage : Measures (applyMessage header body) (header, v) body.text :=
      (Measures.header header).next (hbody.last fun v => (header, v))
    rw [hmessage.computeSize_iff hsize hpack, hkind]

/-- An object id in a buffer of 64 bytes. -/
theorem computeSize_of_objectId : (0 : Nat) < 64 ∧
    computeSize (MessageBody.objectId ⟨1, 2⟩).applySerializerDef = .ok 16 :=
  ⟨by decide, ((computeSize_eq_iff (fun _ => 0) 64 (by decide)).2.1 (.objectId ⟨1, 2⟩) _ _
    rfl).mpr (by decide)⟩

/-- **A size that is short**: an error message without text takes 9 bytes, and the size
walk counts none. -/
theorem error_size_short :
    ¬ ∀ (buffer : ByteBuffer) (size : Nat) (body d : MessageBody) (s : SerializerBase),
      runSerializer body.applySerializerDef buffer size .pack = .ok (d, s) →
      computeSize body.applySerializerDef = .ok s.cursor := by
  intro hall
  have hshort := hall (fun _ => 0) 64 (.error ⟨[]⟩) _ _ rfl
  exact absurd hshort (by decide)

end IoCatcher.Wire
