import IoCatcher.Wire.RoundTrip

/-!
# IO Catcher — the bytes of a message

The serializer is a walk with a cursor, checks that add in `size_t` and five kinds of
faults. What it computes is a function: every message has an *encoding*, or none when it
points to fewer bytes than it announces (`encodeMessage`).

`Encodes m v r` says this of a walk: it packs `v` into the bytes of `r`, stops exactly when
the buffer has no room for them, and always stops when `r` has none. There is one lemma per
operation and one for sequences, as for `RoundTrips`.

* `packMessage_iff`   — a message is packed exactly when it has an encoding that fits;
* `message_delivered` — the encoding is all that goes into the buffer, and whoever has it in
  front of a buffer decodes the message, whatever is behind.
-/

namespace IoCatcher.Wire

variable {α β : Type}

-- ---------------------------------------------------------------------------
-- Encodings
-- ---------------------------------------------------------------------------

/-- Two encodings, one after the other. -/
def joined : Option (List UInt8) → Option (List UInt8) → Option (List UInt8)
  | some bs, some bs' => some (bs ++ bs')
  | _, _ => none

@[simp] theorem joined_some (bs bs' : List UInt8) :
    joined (some bs) (some bs') = some (bs ++ bs') := rfl

@[simp] theorem joined_none (r : Option (List UInt8)) : joined r none = none := by
  cases r <;> rfl

theorem joined_eq_some {r r' : Option (List UInt8)} {bs : List UInt8} (h : joined r r' = some bs) :
    ∃ bs₁ bs₂, r = some bs₁ ∧ r' = some bs₂ ∧ bs = bs₁ ++ bs₂ := by
  cases r with
  | none => cases h
  | some bs₁ =>
    cases r' with
    | none => cases h
    | some bs₂ => exact ⟨bs₁, bs₂, rfl, rfl, (Option.some.inj h).symm⟩

/-- The bytes of an `Iov`. -/
def Iov.encode (m : Iov) : List UInt8 :=
  Scalar.uint64.encode m.addr ++ Scalar.uint64.encode m.key

/-- The bytes of an object id. -/
def LibfabricObjectId.encode (m : LibfabricObjectId) : List UInt8 :=
  Scalar.int64.encode m.low ++ Scalar.int64.encode m.high

/-- The bytes of a header. -/
def LibfabricMessageHeader.encode (m : LibfabricMessageHeader) : List UInt8 :=
  Scalar.uint64.encode m.msgType ++ Scalar.uint64.encode m.lfClientId ++
    Scalar.uint64.encode m.tcpClientId ++ Scalar.uint64.encode m.tcpClientKey

/-- The fragments of a response; none of them is `NULL`. -/
def encodeFragments : List LibfabricBuffer → Option (List UInt8)
  | [] => some []
  | fragment :: rest =>
    joined (if fragment.buffer = .null then none else fragment.buffer.load fragment.size.toNat)
      (encodeFragments rest)

/-- The data of a response. With fragments there is no block beside them. -/
def LibfabricResponse.encodeData (m : LibfabricResponse) : Option (List UInt8) :=
  match m.optionalDataFragments with
  | some fragments => if m.optionalData = .null then encodeFragments fragments else none
  | none => m.optionalData.load m.msgDataSize.toNat

/-- The bytes of a body: its fields in their order, and the data it announces. -/
def MessageBody.encode : MessageBody → Option (List UInt8)
  | .ping m => joined
      (some (Scalar.uint64.encode m.rdmaSize ++ Scalar.uint64.encode m.eagerSize ++
        m.rdmaIov.encode))
      (if 0 < m.eagerSize then m.eagerData.load m.eagerSize.toNat else some [])
  | .objectId m => some m.encode
  | .readWrite m => joined
      (some (m.objectId.encode ++ m.iov.encode ++ Scalar.uint64.encode m.offset ++
        Scalar.uint64.encode m.size ++ Scalar.bool.encode m.msgHasData))
      (if m.msgHasData then m.optionalData.load m.size.toNat else some [])
  | .flush m =>
      some (m.objectId.encode ++ Scalar.uint64.encode m.offset ++ Scalar.uint64.encode m.size)
  | .create m => some m.objectId.encode
  | .registerRange m =>
      some (m.objectId.encode ++ Scalar.uint64.encode m.offset ++ Scalar.uint64.encode m.size ++
        Scalar.bool.encode m.write)
  | .unregisterRange m =>
      some (m.objectId.encode ++ Scalar.uint64.encode m.offset ++ Scalar.uint64.encode m.size ++
        Scalar.int32.encode m.id ++ Scalar.bool.encode m.write)
  | .cow m =>
      some (m.sourceObjectId.encode ++ m.destObjectId.encode ++ Scalar.bool.encode m.allowExist ++
        Scalar.uint64.encode m.rangeOffset ++ Scalar.uint64.encode m.rangeSize)
  | .response m => joined
      (some (Scalar.uint64.encode m.msgDataSize ++ Scalar.int32.encode m.status ++
        Scalar.bool.encode m.msgHasData))
      (if m.msgHasData then m.encodeData else some [])
  | .firstHandshake m =>
      some (Scalar.int32.encode m.protocolVersion ++ Scalar.uint64.encode m.assignLfClientId)
  | .firstClientMessage m => some (List.ofFn m.addr)
  | .empty => some []
  | .error m =>
      some (Scalar.uint64.encode (UInt64.ofNat (m.errorMessage.length + 1)) ++ m.errorMessage ++
        [0])

/-- The bytes of a message. -/
def encodeMessage (header : LibfabricMessageHeader) (body : MessageBody) : Option (List UInt8) :=
  joined (some header.encode) body.encode

-- ---------------------------------------------------------------------------
-- Walks
-- ---------------------------------------------------------------------------

/-- The walk packs `v` into the bytes `bs`, and stops exactly when they do not fit. -/
def PacksExactly (m : SerializerM α) (v : α) (bs : List UInt8) : Prop :=
  ∀ s : SerializerBase, s.action = .pack → s.size < 2 ^ 64 → s.cursor ≤ s.size →
    Ends m s (fun a s' => s.cursor + bs.length ≤ s.size ∧ a = v ∧
      s'.buffer = s.buffer.put s.cursor bs ∧ s'.cursor = s.cursor + bs.length ∧
      s'.size = s.size ∧ s'.action = .pack) fun _ => s.size < s.cursor + bs.length

/-- The walk packs the bytes of `r`, or always stops when it has none. -/
inductive Encodes (m : SerializerM α) (v : α) : Option (List UInt8) → Prop where
  | never (h : NeverPacks m) : Encodes m v none
  | exactly {bs : List UInt8} (h : PacksExactly m v bs) : Encodes m v (some bs)

/-- A sum in `size_t` is not more than the sum. -/
theorem SizeT.add_le (a b : Nat) : SizeT.add a b ≤ a + b := Nat.mod_le _ _

namespace Encodes

theorem of_eq {m : SerializerM α} {v : α} {r r' : Option (List UInt8)} (h : Encodes m v r)
    (hr : r = r') : Encodes m v r' := hr ▸ h

theorem pure (v : α) : Encodes (Pure.pure v) v (some []) := by
  refine .exactly fun s haction _ hcursor => ?_
  exact ⟨hcursor, rfl, (ByteBuffer.put_nil ..).symm, rfl, rfl, haction⟩

/-- The move of a walk over some bytes. -/
theorem move {m : SerializerM α} {v : α} {bs : List UInt8} (fieldName : String)
    (hm : ∀ s : SerializerBase, s.action = .pack → ∀ post fault, Ends m s post fault ↔
      Ends (do
          checkSize fieldName bs.length
          memcpyTo bs
          modify (·.advance bs.length)
          Pure.pure v) s post fault) : Encodes m v (some bs) := by
  refine .exactly fun s haction hsize hcursor => ?_
  rw [hm s haction]
  have hle := SizeT.add_le s.cursor bs.length
  simp only [Ends.bind_iff, ends_checkSize, Ends.pure_iff, Ends.modify_iff, ends_memcpyTo,
    SerializerBase.advance]
  split_ifs with hcheck hin
  · exact ⟨hin, trivial, trivial, advance_eq hin hsize, trivial, haction⟩
  · omega
  · omega

theorem scalar (c : Scalar α) (fieldName : String) (v : α) :
    Encodes (applyScalar c fieldName v) v (some (c.encode v)) := by
  refine move fieldName fun s haction post fault => ?_
  simp [applyScalar, haction]

theorem payload (fieldName : String) (p : Pointer) (n : Nat) :
    Encodes (serializeOrPoint fieldName p n) p (p.load n) := by
  cases hload : p.load n with
  | none => exact .never (neverPacks_serializeOrPoint hload fieldName)
  | some bs =>
    refine move fieldName fun s haction post fault => ?_
    simp [serializeOrPoint, haction, loadBlock, hload, Pointer.length_of_load hload]

theorem raw (fieldName : String) (p : Pointer) (n : Nat) :
    Encodes (applyRaw fieldName p n) p (if p = .null then none else p.load n) := by
  split_ifs with hnull
  · exact .never (neverPacks_raw (Or.inl hnull) fieldName)
  cases hload : p.load n with
  | none => exact .never (neverPacks_raw (Or.inr hload) fieldName)
  | some bs =>
    refine move fieldName fun s haction post fault => ?_
    simp [applyRaw, haction, loadBlock, hload, hnull, Pointer.length_of_load hload]

theorem bind {m : SerializerM α} {k : α → SerializerM β} {v : α} {w : β}
    {r r' : Option (List UInt8)} (h : Encodes m v r) (hk : Encodes (k v) w r') :
    Encodes (m >>= k) w (joined r r') := by
  cases h with
  | never h => exact .never h.bind
  | exactly h =>
    rename_i bs
    cases hk with
    | never hk =>
      refine .never fun s haction hsize hcursor => ?_
      rw [Ends.bind_iff]
      refine (h s haction hsize hcursor).mono ?_ fun _ _ => trivial
      rintro a s₁ ⟨hin, rfl, -, hmove, hkeep, haction₁⟩
      exact hk s₁ haction₁ (hkeep ▸ hsize) (by omega)
    | exactly hk =>
      rename_i bs'
      refine .exactly fun s haction hsize hcursor => ?_
      rw [Ends.bind_iff, List.length_append]
      refine (h s haction hsize hcursor).mono ?_ fun _ hno => by omega
      rintro a s₁ ⟨hin, rfl, hbuffer, hmove, hkeep, haction₁⟩
      refine (hk s₁ haction₁ (hkeep ▸ hsize) (by omega)).mono ?_ fun _ hno => by omega
      rintro b s₂ ⟨hin₂, hb, hbuffer₂, hmove₂, hkeep₂, haction₂⟩
      refine ⟨by omega, hb, ?_, by omega, hkeep₂.trans hkeep, haction₂⟩
      rw [hbuffer₂, hbuffer, hmove, ByteBuffer.put_append]

/-- A field, then the rest of the struct. -/
theorem next {m : SerializerM α} {k : α → SerializerM β} {v : α} {w : β} {bs : List UInt8}
    {r r' : Option (List UInt8)} (h : Encodes m v (some bs)) (hk : Encodes (k v) w r)
    (hr : joined (some bs) r = r') : Encodes (m >>= k) w r' := (h.bind hk).of_eq hr

/-- The last field of a struct. -/
theorem last {m : SerializerM α} {v : α} {r : Option (List UInt8)} (h : Encodes m v r)
    (f : α → β) : Encodes (m >>= fun a => Pure.pure (f a)) (f v) r := by
  refine (h.bind (pure (f v))).of_eq ?_
  cases r with
  | none => rfl
  | some bs => simp

theorem optional {c : Prop} [Decidable c] {m : SerializerM α} {v : α} {r : Option (List UInt8)}
    (h : Encodes m v r) : Encodes (if c then m else Pure.pure v) v (if c then r else some []) := by
  split_ifs
  · exact h
  · exact pure v

/-- Walks that end alike have the same bytes. -/
theorem congr {m m' : SerializerM α} {v : α} {r : Option (List UInt8)} (h : Encodes m' v r)
    (hm : ∀ s : SerializerBase, s.action = .pack → ∀ post fault,
      Ends m s post fault ↔ Ends m' s post fault) : Encodes m v r := by
  cases h with
  | never h =>
    exact .never fun s haction hsize hcursor =>
      (hm s haction _ _).mpr (h s haction hsize hcursor)
  | exactly h =>
    exact .exactly fun s haction hsize hcursor =>
      (hm s haction _ _).mpr (h s haction hsize hcursor)

end Encodes

-- ---------------------------------------------------------------------------
-- Structs
-- ---------------------------------------------------------------------------

theorem encodes_iov (m : Iov) : Encodes m.applySerializerDef m (some m.encode) :=
  (Encodes.scalar ..).next ((Encodes.scalar ..).last _) rfl

theorem encodes_objectId (m : LibfabricObjectId) :
    Encodes m.applySerializerDef m (some m.encode) :=
  (Encodes.scalar ..).next ((Encodes.scalar ..).last _) rfl

theorem encodes_header (m : LibfabricMessageHeader) :
    Encodes m.applySerializerDef m (some m.encode) :=
  (Encodes.scalar ..).next ((Encodes.scalar ..).next ((Encodes.scalar ..).next
    ((Encodes.scalar ..).last _) rfl) rfl) (by simp [LibfabricMessageHeader.encode])

theorem encodes_fragments (fragments : List LibfabricBuffer) :
    Encodes (applyFragments fragments) () (encodeFragments fragments) := by
  induction fragments with
  | nil => exact Encodes.pure ()
  | cons fragment rest ih => exact (Encodes.raw ..).bind ih

theorem encodes_responseData (m : LibfabricResponse) :
    Encodes (m.applyData m.msgDataSize) m.optionalData m.encodeData := by
  unfold LibfabricResponse.encodeData
  cases hfragments : m.optionalDataFragments with
  | none =>
    refine (Encodes.payload "optionalData" m.optionalData m.msgDataSize.toNat).congr ?_
    intro s haction post fault
    simp [LibfabricResponse.applyData, hfragments]
  | some fragments =>
    dsimp only
    split_ifs with hnull
    · refine ((encodes_fragments fragments).last fun _ => m.optionalData).congr ?_
      intro s haction post fault
      simp [LibfabricResponse.applyData, hfragments, haction, hnull]
    · refine .never fun s haction hsize hcursor => ?_
      simp [LibfabricResponse.applyData, hfragments, haction, hnull]

theorem encodes_string (fieldName : String) {text : List UInt8} (hlen : text.length + 1 < 2 ^ 64) :
    Encodes (applyString fieldName text) text
      (some (Scalar.uint64.encode (UInt64.ofNat (text.length + 1)) ++ text ++ [0])) := by
  have hn : (UInt64.ofNat (text.length + 1)).toNat = text.length + 1 := by simpa using hlen
  have hload : (Pointer.block (text ++ [0])).load (UInt64.ofNat (text.length + 1)).toNat =
      some (text ++ [0]) := by
    rw [hn]
    simp [Pointer.load]
  have hrest := (Encodes.scalar Scalar.uint64 fieldName (UInt64.ofNat (text.length + 1))).bind
    (k := fun _ => applyRaw fieldName (.block (text ++ [0]))
      (UInt64.ofNat (text.length + 1)).toNat)
    ((Encodes.raw fieldName (.block (text ++ [0])) _).of_eq ((if_neg (by simp)).trans hload))
  rw [joined_some] at hrest
  cases hrest with | exactly hrest => ?_
  refine .exactly fun s haction hsize hcursor => ?_
  have hle := SizeT.add_le s.cursor (SizeT.add 4 (text.length + 1))
  have hle' := SizeT.add_le 4 (text.length + 1)
  have hrun := hrest s haction hsize hcursor
  simp only [applyString, packString, Ends.bind_iff, Ends.get_iff, haction, ends_checkSize,
    Ends.pure_iff, hn] at hrun ⊢
  split_ifs with hcheck
  · refine hrun.mono (fun _ s₁ hs₁ => ?_) fun _ hno => by simpa using hno
    refine hs₁.mono (fun _ s₂ hs₂ => ?_) fun _ hno => by simpa using hno
    obtain ⟨hin, -, hstored⟩ := hs₂
    simpa using And.intro hin hstored
  · simp [Scalar.uint64]
    omega

theorem encodes_body (body : MessageBody)
    (htext : ∀ m, body = .error m → m.errorMessage.length + 1 < 2 ^ 64) :
    Encodes body.applySerializerDef body body.encode := by
  have hs : ∀ {γ : Type} (c : Scalar γ) (fieldName : String) (v : γ),
      Encodes (applyScalar c fieldName v) v (some (c.encode v)) := Encodes.scalar
  cases body with
  | ping m =>
    refine Encodes.last (m := m.applySerializerDef) (v := m) ?_ MessageBody.ping
    exact (hs ..).next ((hs ..).next ((encodes_iov _).next
      ((Encodes.optional (Encodes.payload ..)).last _) rfl) rfl) (by
        simp only [MessageBody.encode]
        split_ifs
        · cases m.eagerData.load m.eagerSize.toNat <;> simp
        · simp)
  | objectId m => exact (encodes_objectId m).last _
  | readWrite m =>
    refine Encodes.last (m := m.applySerializerDef) (v := m) ?_ MessageBody.readWrite
    exact (encodes_objectId _).next ((encodes_iov _).next ((hs ..).next ((hs ..).next ((hs ..).next
      ((Encodes.optional (Encodes.payload ..)).last _) rfl) rfl) rfl) rfl) (by
        simp only [MessageBody.encode]
        split_ifs
        · cases m.optionalData.load m.size.toNat <;> simp
        · simp)
  | flush m =>
    refine Encodes.last (m := m.applySerializerDef) (v := m) ?_ MessageBody.flush
    exact (encodes_objectId _).next ((hs ..).next ((hs ..).last _) rfl)
      (by simp [MessageBody.encode])
  | create m =>
    refine Encodes.last (m := m.applySerializerDef) (v := m) ?_ MessageBody.create
    exact (encodes_objectId _).last _
  | registerRange m =>
    refine Encodes.last (m := m.applySerializerDef) (v := m) ?_ MessageBody.registerRange
    exact (encodes_objectId _).next ((hs ..).next ((hs ..).next ((hs ..).last _) rfl) rfl)
      (by simp [MessageBody.encode])
  | unregisterRange m =>
    refine Encodes.last (m := m.applySerializerDef) (v := m) ?_ MessageBody.unregisterRange
    exact (encodes_objectId _).next ((hs ..).next ((hs ..).next ((hs ..).next ((hs ..).last _) rfl)
      rfl) rfl) (by simp [MessageBody.encode])
  | cow m =>
    refine Encodes.last (m := m.applySerializerDef) (v := m) ?_ MessageBody.cow
    exact (encodes_objectId _).next ((encodes_objectId _).next ((hs ..).next ((hs ..).next
      ((hs ..).last _) rfl) rfl) rfl) (by simp [MessageBody.encode])
  | response m =>
    refine Encodes.last (m := m.applySerializerDef) (v := m) ?_ MessageBody.response
    exact (hs ..).next ((hs ..).next ((hs ..).next
      ((Encodes.optional (encodes_responseData m)).last _) rfl) rfl) (by
        simp only [MessageBody.encode]
        split_ifs
        · cases m.encodeData <;> simp
        · simp)
  | firstHandshake m =>
    refine Encodes.last (m := m.applySerializerDef) (v := m) ?_ MessageBody.firstHandshake
    exact (hs ..).next ((hs ..).last _) rfl
  | firstClientMessage m =>
    refine Encodes.last (m := m.applySerializerDef) (v := m) ?_ MessageBody.firstClientMessage
    have hload : (Pointer.block (List.ofFn m.addr)).load maxAddrLen = some (List.ofFn m.addr) := by
      have htake : (List.ofFn m.addr).take maxAddrLen = List.ofFn m.addr :=
        List.take_of_length_le (by simp)
      simp [Pointer.load, htake]
    have hblock := (Encodes.raw "addr" (.block (List.ofFn m.addr)) maxAddrLen).last
      fun p => LibfabricFirstClientMessage.mk (addrOfBlock p)
    rw [show LibfabricFirstClientMessage.mk (addrOfBlock (.block (List.ofFn m.addr))) = m by
      cases m
      congr 1
      funext i
      simp [addrOfBlock]] at hblock
    exact hblock.of_eq ((if_neg (by simp)).trans hload)
  | empty => exact Encodes.pure _
  | error m =>
    refine Encodes.last (m := m.applySerializerDef) (v := m) ?_ MessageBody.error
    exact (encodes_string _ (htext m rfl)).last _

-- ---------------------------------------------------------------------------
-- Whole messages
-- ---------------------------------------------------------------------------

/-- A `std::string` and its terminator are in memory. -/
def MessageBody.InMemory : MessageBody → Prop
  | .error m => m.errorMessage.length + 1 < 2 ^ 64
  | _ => True

theorem encodes_message (header : LibfabricMessageHeader) {body : MessageBody}
    (hbody : body.InMemory) :
    Encodes (applyMessage header body) (header, body) (encodeMessage header body) := by
  have htext : ∀ m, body = .error m → m.errorMessage.length + 1 < 2 ^ 64 := by
    rintro m rfl
    exact hbody
  exact (encodes_header header).bind ((encodes_body body htext).last _)

theorem length_encode_header (header : LibfabricMessageHeader) : header.encode.length = 32 := by
  simp [LibfabricMessageHeader.encode, Scalar.uint64]

theorem length_encodeMessage {header : LibfabricMessageHeader} {body : MessageBody}
    {bs : List UInt8} (h : encodeMessage header body = some bs) :
    ∃ bs', body.encode = some bs' ∧ bs = header.encode ++ bs' ∧ bs.length = 32 + bs'.length := by
  obtain ⟨bs₁, bs', h₁, hbody, rfl⟩ := joined_eq_some h
  obtain rfl := Option.some.inj h₁
  exact ⟨bs', hbody, rfl, by rw [List.length_append, length_encode_header]⟩

/-- What packing a message with an encoding does. -/
theorem packMessage_of_encode {header : LibfabricMessageHeader} {body : MessageBody}
    (hbody : body.InMemory) {bs : List UInt8} (hbs : encodeMessage header body = some bs)
    (buffer : ByteBuffer) {size : Nat} (hsize : size < 2 ^ 64) :
    if bs.length ≤ size then ∃ s, packMessage header body buffer size = .ok ((header, body), s) ∧
        s.buffer = buffer.put 0 bs ∧ s.cursor = bs.length
      else ∃ f, packMessage header body buffer size = .error f := by
  have hencodes := encodes_message header hbody
  rw [hbs] at hencodes
  cases hencodes with | exactly hpack => ?_
  have hends := hpack (.new buffer size .pack) rfl hsize (Nat.zero_le _)
  have hcursor : (SerializerBase.new buffer size .pack).cursor = 0 := rfl
  have hfull : (SerializerBase.new buffer size .pack).size = size := rfl
  rw [hcursor, hfull, Nat.zero_add] at hends
  obtain ⟨bs', -, -, hlen⟩ := length_encodeMessage hbs
  unfold packMessage runSerializer
  split_ifs with hroom hempty
  · omega
  · cases hrun : applyMessage header body (.new buffer size .pack) with
    | error f => exact absurd ((Ends.of_error hrun).mp hends) (by omega)
    | ok r =>
      obtain ⟨a, s⟩ := r
      obtain ⟨-, rfl, hbuffer, hmove, -⟩ := (Ends.of_ok hrun).mp hends
      exact ⟨s, rfl, hbuffer, hmove⟩
  · exact ⟨_, rfl⟩
  · cases hrun : applyMessage header body (.new buffer size .pack) with
    | error f => exact ⟨f, rfl⟩
    | ok r => exact absurd ((Ends.of_ok hrun).mp hends).1 hroom

/-- A message without encoding is not packed. -/
theorem packMessage_of_none {header : LibfabricMessageHeader} {body : MessageBody}
    (hbody : body.InMemory) (hbs : encodeMessage header body = none) (buffer : ByteBuffer)
    {size : Nat} (hsize : size < 2 ^ 64) : ∃ f, packMessage header body buffer size = .error f := by
  have hencodes := encodes_message header hbody
  rw [hbs] at hencodes
  cases hencodes with | never hnever => ?_
  have hends := hnever (.new buffer size .pack) rfl hsize (Nat.zero_le _)
  unfold packMessage runSerializer
  split_ifs with hempty
  · exact ⟨_, rfl⟩
  · cases hrun : applyMessage header body (.new buffer size .pack) with
    | error f => exact ⟨f, rfl⟩
    | ok r => exact ((Ends.of_ok hrun).mp hends).elim

/-- The walk back from the bytes a walk packs. -/
theorem Encodes.unpacks {p u : SerializerM α} {v : α} {Q : ByteBuffer → α → Prop}
    {bs : List UInt8} (h : Encodes p v (some bs)) (hround : RoundTrips p u v Q) :
    Unpacks u Q bs := by
  intro s haction hsize hroom hholds
  cases h with | exactly hpack => ?_
  -- both are the bytes that the walk packs into a buffer of their size
  have hends := hpack (.new (fun _ => 0) bs.length .pack) rfl (by
    show bs.length < 2 ^ 64
    omega) (Nat.zero_le _)
  cases hrun : p (.new (fun _ => 0) bs.length .pack) with
  | error f =>
    have hno : bs.length < 0 + bs.length := (Ends.of_error hrun).mp hends
    omega
  | ok r =>
    obtain ⟨a, s'⟩ := r
    obtain ⟨-, -, hbuffer, hmove, -⟩ := (Ends.of_ok hrun).mp hends
    obtain hstop | ⟨bs', hp, hu⟩ := hround
    · exact ((Ends.of_ok hrun).mp (hstop _ rfl (by
        show bs.length < 2 ^ 64
        omega) (Nat.zero_le _))).elim
    · obtain ⟨-, hbuffer', hmove', -⟩ := (Ends.of_ok hrun).mp (hp _ rfl (by
        show bs.length < 2 ^ 64
        omega) (Nat.zero_le _))
      have hlen : bs.length = bs'.length := Nat.add_left_cancel (hmove.symm.trans hmove')
      have hsame : bs = bs' := by
        have h₁ := ByteBuffer.holds_put (fun _ => 0) 0 bs
        have h₂ := ByteBuffer.holds_put (fun _ => 0) 0 bs'
        unfold ByteBuffer.Holds at h₁ h₂
        rw [← h₁, ← h₂, hlen]
        exact congrArg (ByteBuffer.slice · 0 bs'.length) (hbuffer.symm.trans hbuffer')
      subst hsame
      exact hu s haction hsize hroom hholds

/-- The header of a message comes back from its bytes. -/
theorem unpacks_encode_header (header old : LibfabricMessageHeader) :
    Unpacks old.applySerializerDef (fun _ a => a = header) header.encode :=
  (encodes_header header).unpacks (RoundTrips.header header old)

/-- The body of a message comes back from its bytes. -/
theorem unpacks_encode_body {body old : MessageBody} (hbody : body.Sendable)
    (hkind : old.kind = body.kind) {bs : List UInt8} (hbs : body.encode = some bs) :
    Unpacks old.applySerializerDef (fun buffer d => body.DecodedAs buffer d) bs := by
  have htext : ∀ m, body = .error m → m.errorMessage.length + 1 < 2 ^ 64 := by
    rintro m rfl
    exact hbody.1
  exact ((encodes_body body htext).of_eq hbs).unpacks (roundTrips_body hbody hkind)

theorem MessageBody.Sendable.inMemory {body : MessageBody} (h : body.Sendable) :
    body.InMemory := by
  cases body with
  | error m => exact h.1
  | _ => trivial

/-- A message is packed, into any buffer, exactly when it has an encoding that is not longer
than the buffer. -/
theorem packMessage_iff (header : LibfabricMessageHeader) {body : MessageBody}
    (hbody : body.InMemory) (buffer : ByteBuffer) {size : Nat} (hsize : size < 2 ^ 64) :
    (∃ r, packMessage header body buffer size = .ok r) ↔
      ∃ bs, encodeMessage header body = some bs ∧ bs.length ≤ size := by
  constructor
  · rintro ⟨r, hr⟩
    cases hbs : encodeMessage header body with
    | none =>
      obtain ⟨f, hf⟩ := packMessage_of_none hbody hbs buffer hsize
      rw [hf] at hr
      cases hr
    | some bs =>
      have hpack := packMessage_of_encode hbody hbs buffer hsize
      split_ifs at hpack with hroom
      · exact ⟨bs, rfl, hroom⟩
      · obtain ⟨f, hf⟩ := hpack
        rw [hf] at hr
        cases hr
  · rintro ⟨bs, hbs, hroom⟩
    have hpack := packMessage_of_encode hbody hbs buffer hsize
    rw [if_pos hroom] at hpack
    obtain ⟨s, hs, -⟩ := hpack
    exact ⟨_, hs⟩

/-- A buffer that starts with the encoding of a message is decoded to the message. -/
theorem unpackMessage_of_encode (header oldHeader : LibfabricMessageHeader) {body old : MessageBody}
    (hbody : body.Sendable) (hkind : old.kind = body.kind) {bs : List UInt8}
    (hbs : encodeMessage header body = some bs) {received : ByteBuffer} {capacity : Nat}
    (hcapacity : capacity < 2 ^ 64) (hfits : bs.length ≤ capacity)
    (hholds : received.Holds 0 bs) : ∃ d s', unpackMessage oldHeader old received capacity =
      .ok ((header, d), s') ∧ body.DecodedAs received d := by
  obtain ⟨bs', -, -, hlen⟩ := length_encodeMessage hbs
  have hunpack : Unpacks (applyMessage oldHeader old)
      (fun buffer d => d.1 = header ∧ body.DecodedAs buffer d.2) bs :=
    ((encodes_message header hbody.inMemory).of_eq hbs).unpacks
      (roundTrips_message header oldHeader hbody hkind)
  obtain ⟨⟨h', d⟩, s', hend, ⟨rfl, hd⟩, -⟩ :=
    (hunpack (.new received capacity .unpack) rfl hcapacity
      (by simpa [SerializerBase.new] using hfits) hholds).returns
  refine ⟨d, s', ?_, hd⟩
  unfold unpackMessage runSerializer
  rw [if_neg (by rintro ⟨rfl, -⟩; omega)]
  exact hend

/-- **What goes over the wire.** A message is packed exactly when it has an encoding that fits
the buffer. Then the encoding is at the start of the buffer, and the rest of the buffer is as
it was; and whoever has the encoding in front of a buffer decodes the message, whatever is
behind it and whatever the structs contained. -/
theorem message_delivered (header : LibfabricMessageHeader) {body : MessageBody}
    (hbody : body.Sendable) (buffer : ByteBuffer) {size : Nat} (hsize : size < 2 ^ 64) :
    ((∃ r, packMessage header body buffer size = .ok r) ↔
      ∃ bs, encodeMessage header body = some bs ∧ bs.length ≤ size) ∧
    ∀ r s, packMessage header body buffer size = .ok (r, s) →
      ∃ bs, encodeMessage header body = some bs ∧ s.buffer = buffer.put 0 bs ∧
        s.cursor = bs.length ∧
        ∀ (oldHeader : LibfabricMessageHeader) (old : MessageBody) (received : ByteBuffer)
          (capacity : Nat), old.kind = body.kind → capacity < 2 ^ 64 → bs.length ≤ capacity →
          received.Holds 0 bs → ∃ d s', unpackMessage oldHeader old received capacity =
            .ok ((header, d), s') ∧ body.DecodedAs received d := by
  refine ⟨packMessage_iff header hbody.inMemory buffer hsize, fun r s hpack => ?_⟩
  obtain ⟨bs, hbs, hroom⟩ :=
    (packMessage_iff header hbody.inMemory buffer hsize).mp ⟨_, hpack⟩
  have hstored := packMessage_of_encode hbody.inMemory hbs buffer hsize
  rw [if_pos hroom, hpack] at hstored
  obtain ⟨s₁, hs₁, hbuffer, hcursor⟩ := hstored
  obtain rfl := (Prod.mk.inj (Except.ok.inj hs₁)).2
  exact ⟨bs, hbs, hbuffer, hcursor, fun oldHeader old received capacity hkind hcapacity hfits
    hholds => unpackMessage_of_encode header oldHeader hbody hkind hbs hcapacity hfits hholds⟩

/-- The response of two fragments takes 50 bytes: it goes into a buffer of 50 bytes and not
into one of 49. -/
theorem twoFragments_delivered :
    (∃ r, packMessage ⟨102, 1, 0, 7⟩ twoFragments (fun _ => 255) 50 = .ok r) ∧
      ¬ ∃ r, packMessage ⟨102, 1, 0, 7⟩ twoFragments (fun _ => 255) 49 = .ok r := by
  have hbody : twoFragments.Sendable := LibfabricResponse.Built.fragments 0 _ (by decide)
  have hlength : (encodeMessage ⟨102, 1, 0, 7⟩ twoFragments).map List.length = some 50 := by
    decide +kernel
  obtain ⟨bs, hbs, hlen⟩ := Option.map_eq_some_iff.mp hlength
  refine ⟨(message_delivered ⟨102, 1, 0, 7⟩ hbody _ (by decide)).1.mpr ⟨bs, hbs, hlen.le⟩, ?_⟩
  rw [(message_delivered ⟨102, 1, 0, 7⟩ hbody _ (by decide)).1]
  rintro ⟨bs', hbs', hroom⟩
  obtain rfl := Option.some.inj (hbs.symm.trans hbs')
  omega

end IoCatcher.Wire
