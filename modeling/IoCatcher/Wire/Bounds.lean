import IoCatcher.Wire.RoundTrip

/-!
# IO Catcher — decoding stays inside the message

A message comes from the network: every byte of it is the sender's choice. This
module says exactly for which messages the decoder touches nothing but the
message.

The fixed fields are always safe. The lengths inside a message are not:
`checkSize` adds a length of the message to the cursor in `size_t`, and a sum of
`2^64` or more wraps around to a small number that passes the check
(`LengthsFit`).
-/

namespace IoCatcher.Wire

variable {α β : Type} {buffer : ByteBuffer} {n k : Nat} {P : Prop}

/-! ## The property -/

/-- The record of a walk is inside the message: every cursor, and every block
handed out with the length it was announced with. -/
structure SerializerBase.Inside (s : SerializerBase) : Prop where
  cursors : ∀ c ∈ s.cursors, c ≤ s.size
  blocks  : ∀ b ∈ s.blocks, b.1 + b.2 ≤ s.size

/-- A decoding stays inside the message: it stops by a check of its own, or
completes with a walk inside the message. -/
def StaysInside (result : Except SerializerFault (α × SerializerBase)) : Prop :=
  match result with
  | .ok (_, s) => s.Inside
  | .error f => f ≠ .outOfBounds

/-- The `uint64_t` at an index. -/
def u64At (buffer : ByteBuffer) (i : Nat) : Nat := LittleEndian.ofBytes (buffer.slice i 8)

theorem toNat_decode_uint64 (buffer : ByteBuffer) (i : Nat) :
    (Scalar.uint64.decode (buffer.slice i Scalar.uint64.width)).toNat = u64At buffer i := by
  have hlt := LittleEndian.ofBytes_lt (buffer.slice i 8)
  rw [ByteBuffer.length_slice] at hlt
  exact UInt64.toNat_ofNat_of_lt' hlt

/-- The text of an error message ends inside the message: its length is not 0
and does not wrap, or the byte taken for its terminator stops the decoder, or
there is a NUL behind the length all the same. -/
def TextFits (buffer : ByteBuffer) (n : Nat) : Prop :=
  (1 ≤ u64At buffer 32 ∧ 40 + u64At buffer 32 < 2 ^ 64) ∨
    (u64At buffer 32 ≠ 2 ^ 64 - 40 ∧
      (buffer ((39 + u64At buffer 32) % 2 ^ 64) ≠ 0 ∨ ∃ i, 40 ≤ i ∧ i < n ∧ buffer i = 0))

/-- The lengths a message announces do not wrap around the end of its fixed
part, if the message is long enough for the decoder to see them. -/
def LengthsFit (buffer : ByteBuffer) (n : Nat) : BodyKind → Prop
  | .ping => 64 ≤ n → 64 + u64At buffer 40 < 2 ^ 64
  | .readWrite => 81 ≤ n → buffer 80 ≠ 0 → 81 + u64At buffer 72 < 2 ^ 64
  | .response => 45 ≤ n → buffer 44 ≠ 0 → 45 + u64At buffer 32 < 2 ^ 64
  | .error => 40 ≤ n → TextFits buffer n
  | _ => True

theorem cString_eq_none {i fuel : Nat} :
    cString buffer i fuel = none ↔ ∀ j, i ≤ j → j < i + fuel → buffer j ≠ 0 := by
  induction fuel generalizing i with
  | zero => exact iff_of_true rfl fun j hj hj' => by omega
  | succ fuel ih =>
    unfold cString
    split_ifs with hzero
    · exact iff_of_false (by simp) fun h => h i le_rfl (by omega) hzero
    · rw [Option.map_eq_none_iff, ih]
      constructor
      · intro h j hj hj'
        obtain rfl | hlt := hj.eq_or_lt
        · exact hzero
        · exact h j hlt (by omega)
      · exact fun h j hj hj' => h j (by omega) (by omega)

/-- A message shorter than its header announces nothing. -/
theorem lengthsFit_of_short (h : n < 32) (kind : BodyKind) : LengthsFit buffer n kind := by
  cases kind with
  | ping => exact fun hin => by omega
  | readWrite => exact fun hin => by omega
  | response => exact fun hin => by omega
  | error => exact fun hin => by omega
  | _ => trivial

/-! ## Walks -/

/-- A decoding of the message at cursor `k`, with nothing handed out so far. -/
structure Walk (buffer : ByteBuffer) (n k : Nat) (s : SerializerBase) : Prop where
  buffer  : s.buffer = buffer
  size    : s.size = n
  cursor  : s.cursor = k
  inside  : k ≤ n
  action  : s.action = .unpack
  cursors : ∀ c ∈ s.cursors, c ≤ n
  blocks  : s.blocks = []

theorem Walk.new (buffer : ByteBuffer) (n : Nat) :
    Walk buffer n 0 (.new buffer n .unpack) :=
  ⟨rfl, rfl, rfl, Nat.zero_le n, rfl, fun _ h => absurd h List.not_mem_nil, rfl⟩

theorem Walk.advance {s : SerializerBase} (h : Walk buffer n k s) {m : Nat} (hin : k + m ≤ n)
    (hsize : n < 2 ^ 64) : Walk buffer n (k + m) (s.advance m) := by
  have hmove : SizeT.add s.cursor m = k + m := by
    rw [h.cursor]
    exact SizeT.add_eq (by omega)
  refine ⟨h.buffer, h.size, hmove, hin, h.action, fun c hc => ?_, h.blocks⟩
  obtain hc | hc := List.mem_append.mp hc
  · exact h.cursors c hc
  · rw [List.mem_singleton.mp hc, hmove]
    exact hin

/-- From cursor `k` on, the decoding stays inside exactly when `P`. -/
def SafeIff (buffer : ByteBuffer) (n : Nat) (m : SerializerM α) (k : Nat) (P : Prop) : Prop :=
  ∀ s, Walk buffer n k s → (Ends m s (fun _ s' => s'.Inside) (· ≠ .outOfBounds) ↔ P)

namespace SafeIff

theorem pure (a : α) : SafeIff buffer n (Pure.pure a) k True := by
  intro s h
  refine iff_true_intro ((Ends.pure_iff a).mpr ⟨?_, ?_⟩)
  · rw [h.size]
    exact h.cursors
  · rw [h.blocks]
    exact fun _ hb => absurd hb List.not_mem_nil

theorem scalar (hsize : n < 2 ^ 64) (c : Scalar α) {fieldName : String} {old : α}
    {K : α → SerializerM β} (hk : k + c.width < 2 ^ 64)
    (h : SafeIff buffer n (K (c.decode (buffer.slice k c.width))) (k + c.width) P) :
    SafeIff buffer n (applyScalar c fieldName old >>= K) k (k + c.width ≤ n → P) := by
  intro s hs
  have hwalk := @hs.advance (m := c.width)
  obtain ⟨rfl, rfl, rfl, -, haction, -, -⟩ := hs
  simp only [applyScalar, Ends.bind_iff, ends_checkSize, Ends.get_iff, haction, Ends.pure_iff,
    Ends.modify_iff, ends_memcpyFrom, SizeT.add_eq hk]
  by_cases hin : s.cursor + c.width ≤ s.size
  · simp only [h _ (hwalk hin hsize), hin, if_true, true_implies]
  · simp [hin]

theorem congr {Q : Prop} {m : SerializerM α} (h : SafeIff buffer n m k P) (hPQ : P ↔ Q) :
    SafeIff buffer n m k Q :=
  fun s hs => (h s hs).trans hPQ

/-- A walk over fixed fields, which are only read where they are. -/
theorem always {m : SerializerM α} (h : SafeIff buffer n m k P) (hP : P) :
    SafeIff buffer n m k True :=
  h.congr (iff_true_intro hP)

/-- A block handed out as the last field: a sum that wraps passes the check. -/
theorem payload (hsize : n < 2 ^ 64) {fieldName : String} {old : Pointer} {len : Nat}
    {g : Pointer → β} (hlen : len < 2 ^ 64) :
    SafeIff buffer n (serializeOrPoint fieldName old len >>= fun p => Pure.pure (g p)) k
      (k + len < 2 ^ 64) := by
  intro s hs
  obtain ⟨rfl, rfl, rfl, hin, haction, hcursors, hblocks⟩ := hs
  simp only [serializeOrPoint, Ends.bind_iff, ends_checkSize, Ends.get_iff, haction,
    Ends.pure_iff, Ends.modify_iff]
  by_cases hwrap : s.cursor + len < 2 ^ 64
  · rw [SizeT.add_eq hwrap]
    split_ifs with hroom
    · refine iff_of_true ⟨fun c hc => ?_, fun b hb => ?_⟩ hwrap
      · obtain hc | hc := List.mem_append.mp hc
        · exact hcursors c hc
        · rw [List.mem_singleton.mp hc]
          exact (SizeT.add_eq hwrap).le.trans hroom
      · obtain rfl : b = (s.cursor, len) := by simpa [SerializerBase.advance, hblocks] using hb
        exact hroom
    · exact iff_of_true (by simp) hwrap
  · have hcheck : SizeT.add s.cursor len ≤ s.size := by
      unfold SizeT.add
      omega
    rw [if_pos hcheck]
    refine iff_of_false (fun hinside => ?_) hwrap
    have hblock : s.cursor + len ≤ s.size :=
      hinside.blocks (s.cursor, len) (by simp [SerializerBase.advance])
    omega

/-- A block handed out if the message says that there is one. -/
theorem optional (hsize : n < 2 ^ 64) {c : Prop} [Decidable c] {fieldName : String} {old : Pointer}
    {len : UInt64} {g : Pointer → β} :
    SafeIff buffer n ((if c then serializeOrPoint fieldName old len.toNat else Pure.pure old) >>=
      fun p => Pure.pure (g p)) k (c → k + len.toNat < 2 ^ 64) := by
  split_ifs with hc
  · exact (payload hsize len.toNat_lt).congr ⟨fun h _ => h, fun h => h hc⟩
  · rw [pure_bind]
    exact (pure _).congr (iff_of_true trivial fun hc' => absurd hc' hc)

/-- A block copied to a struct that has the room. -/
theorem raw (hsize : n < 2 ^ 64) {fieldName : String} {old : List UInt8} {len : Nat}
    {K : Pointer → SerializerM β} (hlen : len = old.length) (hk : k + len < 2 ^ 64)
    (h : ∀ p, SafeIff buffer n (K p) (k + len) P) :
    SafeIff buffer n (applyRaw fieldName (.block old) len >>= K) k (k + len ≤ n → P) := by
  intro s hs
  have hwalk := @hs.advance (m := len)
  obtain ⟨rfl, rfl, rfl, -, haction, -, -⟩ := hs
  have hroom : len ≤ old.length := hlen.le
  by_cases hin : s.cursor + len ≤ s.size
  · have hrest := h (.block (s.buffer.slice s.cursor len ++ old.drop len)) _ (hwalk hin hsize)
    simpa [applyRaw, haction, SizeT.add_eq hk, hin, hroom] using hrest
  · simp [applyRaw, SizeT.add_eq hk, hin]

/-- The characters of a string behind its length. -/
theorem loadString (hsize : n < 2 ^ 64) {fieldName : String} {len : UInt64}
    {g : List UInt8 → β} (hlen : len.toNat = u64At buffer 32) :
    SafeIff buffer n (Wire.loadString fieldName len >>= fun t => Pure.pure (g t)) 40
      (TextFits buffer n) := by
  intro s hs
  obtain ⟨hbuffer, hn, hcursor, hin, -, hcursors, hblocks⟩ := hs
  have hlt := len.toNat_lt
  have hlast : SizeT.sub (SizeT.add 40 len.toNat) 1 = (39 + len.toNat) % 2 ^ 64 := by
    unfold SizeT.sub SizeT.add
    omega
  simp only [Wire.loadString, Ends.bind_iff, ends_checkSize, Ends.get_iff, Ends.ite_iff,
    Ends.throw_iff, Ends.pure_iff, hcursor, hn, hbuffer, hlast]
  unfold TextFits
  rw [← hlen]
  split_ifs with hcheck hout hend
  · -- the byte taken for the terminator is outside
    refine iff_of_false (by simp) ?_
    unfold SizeT.add at hcheck
    rintro (h | h) <;> omega
  · -- it is inside, and stops the decoder
    refine iff_of_true (by simp) (Or.inr ⟨?_, Or.inl hend⟩)
    omega
  · cases htext : cString buffer 40 (n - 40) with
    | none =>
      -- the scan leaves the message
      have hnone := cString_eq_none.mp htext
      refine iff_of_false (by simp) ?_
      unfold SizeT.add at hcheck
      rintro (h | ⟨-, h | ⟨i, hi, hi', hzero⟩⟩)
      · have hmod : (39 + len.toNat) % 2 ^ 64 = 39 + len.toNat := Nat.mod_eq_of_lt (by omega)
        rw [hmod] at hend hout
        exact hend (hnone _ (by omega) (by omega))
      · exact hend h
      · exact hnone i hi (by omega) hzero
    | some text =>
      have hinside : (s.advance len.toNat).Inside := by
        refine ⟨fun c hc => ?_, fun b hb => ?_⟩
        · obtain hc | hc := List.mem_append.mp hc
          · exact (hcursors c hc).trans hn.ge
          · rw [List.mem_singleton.mp hc, hcursor]
            exact hcheck.trans hn.ge
        · have hblocks : (s.advance len.toNat).blocks = [] := hblocks
          rw [hblocks] at hb
          exact absurd hb List.not_mem_nil
      refine iff_of_true (by simpa using hinside) ?_
      have hsome : ∃ i, 40 ≤ i ∧ i < n ∧ buffer i = 0 := by
        by_contra hall
        push Not at hall
        have hnone : cString buffer 40 (n - 40) = none :=
          cString_eq_none.mpr fun j hj hj' => hall j hj (by omega)
        rw [hnone] at htext
        cases htext
      exact Or.inr ⟨by omega, Or.inr hsome⟩
  · -- the check refuses the length, which did not wrap
    refine iff_of_true (by simp) (Or.inl ?_)
    unfold SizeT.add at hcheck
    omega

theorem string (hsize : n < 2 ^ 64) {fieldName : String} {old : List UInt8}
    {g : List UInt8 → β} :
    SafeIff buffer n (applyString fieldName old >>= fun t => Pure.pure (g t)) 32
      (40 ≤ n → TextFits buffer n) := by
  have hlen : (Scalar.uint64.decode (buffer.slice 32 Scalar.uint64.width)).toNat =
      u64At buffer 32 := toNat_decode_uint64 buffer 32
  have hwalk : SafeIff buffer n (applyScalar Scalar.uint64 fieldName 0 >>= fun len =>
      Wire.loadString fieldName len >>= fun t => Pure.pure (g t)) 32
      (32 + Scalar.uint64.width ≤ n → TextFits buffer n) :=
    scalar hsize Scalar.uint64 (by decide) (loadString hsize hlen)
  intro s hs
  refine Iff.trans ?_ (hwalk s hs)
  simp [applyString, hs.action, applyUInt64]

/-! ### Fields whose value does not matter for what follows -/

theorem uint64 (hsize : n < 2 ^ 64) {fieldName : String} {old : UInt64} {K : UInt64 → SerializerM β}
    (hk : k + 8 < 2 ^ 64) (h : ∀ v, SafeIff buffer n (K v) (k + 8) P) :
    SafeIff buffer n (applyUInt64 fieldName old >>= K) k (k + 8 ≤ n → P) :=
  scalar hsize Scalar.uint64 hk (h _)

theorem int64 (hsize : n < 2 ^ 64) {fieldName : String} {old : Int64} {K : Int64 → SerializerM β}
    (hk : k + 8 < 2 ^ 64) (h : ∀ v, SafeIff buffer n (K v) (k + 8) P) :
    SafeIff buffer n (applyInt64 fieldName old >>= K) k (k + 8 ≤ n → P) :=
  scalar hsize Scalar.int64 hk (h _)

theorem int32 (hsize : n < 2 ^ 64) {fieldName : String} {old : Int32} {K : Int32 → SerializerM β}
    (hk : k + 4 < 2 ^ 64) (h : ∀ v, SafeIff buffer n (K v) (k + 4) P) :
    SafeIff buffer n (applyInt32 fieldName old >>= K) k (k + 4 ≤ n → P) :=
  scalar hsize Scalar.int32 hk (h _)

theorem bool (hsize : n < 2 ^ 64) {fieldName : String} {old : Bool} {K : Bool → SerializerM β}
    (hk : k + 1 < 2 ^ 64) (h : ∀ v, SafeIff buffer n (K v) (k + 1) P) :
    SafeIff buffer n (applyBool fieldName old >>= K) k (k + 1 ≤ n → P) :=
  scalar hsize Scalar.bool hk (h _)

/-! ### Fields that decide what follows -/

theorem length (hsize : n < 2 ^ 64) {fieldName : String} {old : UInt64} {K : UInt64 → SerializerM β}
    (hk : k + 8 < 2 ^ 64) (h : ∀ v, v.toNat = u64At buffer k → SafeIff buffer n (K v) (k + 8) P) :
    SafeIff buffer n (applyUInt64 fieldName old >>= K) k (k + 8 ≤ n → P) :=
  scalar hsize Scalar.uint64 hk (h _ (toNat_decode_uint64 buffer k))

theorem flag (hsize : n < 2 ^ 64) {fieldName : String} {old : Bool} {K : Bool → SerializerM β}
    (hk : k + 1 < 2 ^ 64)
    (h : ∀ v, (v = true ↔ buffer k ≠ 0) → SafeIff buffer n (K v) (k + 1) P) :
    SafeIff buffer n (applyBool fieldName old >>= K) k (k + 1 ≤ n → P) := by
  refine scalar hsize Scalar.bool hk (h _ ?_)
  simp [Scalar.bool, Scalar.decode, ByteBuffer.slice, LittleEndian.ofBytes, ← UInt8.toNat_inj]

/-! ### Structs -/

theorem objectId (hsize : n < 2 ^ 64) {m : LibfabricObjectId}
    {K : LibfabricObjectId → SerializerM β} (hk : k + 16 < 2 ^ 64)
    (h : ∀ v, SafeIff buffer n (K v) (k + 16) P) :
    SafeIff buffer n (m.applySerializerDef >>= K) k (k + 16 ≤ n → P) := by
  simp only [LibfabricObjectId.applySerializerDef, bind_assoc, pure_bind]
  refine congr (int64 hsize (by omega) fun low => int64 hsize (by omega) fun high => h _) ?_
  exact ⟨fun hP hin => hP (by omega) hin, fun hP _ hin => hP hin⟩

theorem iov (hsize : n < 2 ^ 64) {m : Iov} {K : Iov → SerializerM β} (hk : k + 16 < 2 ^ 64)
    (h : ∀ v, SafeIff buffer n (K v) (k + 16) P) :
    SafeIff buffer n (m.applySerializerDef >>= K) k (k + 16 ≤ n → P) := by
  simp only [Iov.applySerializerDef, bind_assoc, pure_bind]
  refine congr (uint64 hsize (by omega) fun addr => uint64 hsize (by omega) fun key => h _) ?_
  exact ⟨fun hP hin => hP (by omega) hin, fun hP _ hin => hP hin⟩

theorem header (hsize : n < 2 ^ 64) {m : LibfabricMessageHeader}
    {K : LibfabricMessageHeader → SerializerM β} (h : ∀ v, SafeIff buffer n (K v) 32 P) :
    SafeIff buffer n (m.applySerializerDef >>= K) 0 (32 ≤ n → P) := by
  simp only [LibfabricMessageHeader.applySerializerDef, bind_assoc, pure_bind]
  refine congr (uint64 hsize (by omega) fun _ => uint64 hsize (by omega) fun _ =>
    uint64 hsize (by omega) fun _ => uint64 hsize (by omega) fun _ => h _) ?_
  exact ⟨fun hP hin => hP (by omega) (by omega) (by omega) hin, fun hP _ _ _ hin => hP hin⟩

end SafeIff

/-! ## Messages -/

theorem safeIff_ping (hsize : n < 2 ^ 64) (m : LibfabricPing) {g : LibfabricPing → β} :
    SafeIff buffer n (m.applySerializerDef >>= fun d => pure (g d)) 32
      (LengthsFit buffer n .ping) := by
  simp only [LibfabricPing.applySerializerDef, bind_assoc, pure_bind]
  refine SafeIff.congr (SafeIff.uint64 hsize (by omega) fun _ =>
    SafeIff.length hsize (by omega) fun size hlen => SafeIff.iov hsize (by omega) fun _ =>
      (SafeIff.optional hsize).congr (Q := 64 + u64At buffer 40 < 2 ^ 64) ?_) ?_
  · -- a length of 0 hands nothing out and wraps nothing
    rw [← hlen, UInt64.lt_iff_toNat_lt]
    have hlt := size.toNat_lt
    show (0 < size.toNat → 64 + size.toNat < 2 ^ 64) ↔ 64 + size.toNat < 2 ^ 64
    omega
  · show _ ↔ (64 ≤ n → 64 + u64At buffer 40 < 2 ^ 64)
    omega

theorem safeIff_readWrite (hsize : n < 2 ^ 64) (m : LibfabricObjReadWriteInfos)
    {g : LibfabricObjReadWriteInfos → β} :
    SafeIff buffer n (m.applySerializerDef >>= fun d => pure (g d)) 32
      (LengthsFit buffer n .readWrite) := by
  simp only [LibfabricObjReadWriteInfos.applySerializerDef, bind_assoc, pure_bind]
  refine SafeIff.congr (SafeIff.objectId hsize (by omega) fun _ =>
    SafeIff.iov hsize (by omega) fun _ => SafeIff.uint64 hsize (by omega) fun _ =>
      SafeIff.length hsize (by omega) fun size hlen =>
        SafeIff.flag hsize (by omega) fun has hflag =>
          (SafeIff.optional hsize).congr (Q := buffer 80 ≠ 0 → 81 + u64At buffer 72 < 2 ^ 64) ?_) ?_
  · rw [hflag, hlen]
  · show _ ↔ (81 ≤ n → buffer 80 ≠ 0 → 81 + u64At buffer 72 < 2 ^ 64)
    exact ⟨fun h hin => h (by omega) (by omega) (by omega) (by omega) hin,
      fun h _ _ _ _ hin => h hin⟩

theorem safeIff_response (hsize : n < 2 ^ 64) (m : LibfabricResponse) {g : LibfabricResponse → β} :
    SafeIff buffer n (m.applySerializerDef >>= fun d => pure (g d)) 32
      (LengthsFit buffer n .response) := by
  -- a response is decoded as one block, whatever the struct contained
  have hblock : ∀ (size : UInt64) (has : Bool) (f : Pointer → β),
      SafeIff buffer n ((if has = true then m.applyData size else pure m.optionalData) >>=
        fun p => pure (f p)) 45 (has = true → 45 + size.toNat < 2 ^ 64) := by
    intro size has f s hs
    have hone : SafeIff buffer n
        ((if has = true then serializeOrPoint "optionalData" m.optionalData size.toNat
          else pure m.optionalData) >>= fun p => pure (f p)) 45
        (has = true → 45 + size.toNat < 2 ^ 64) := SafeIff.optional hsize
    refine Iff.trans ?_ (hone s hs)
    cases has <;> simp [LibfabricResponse.applyData, hs.action]
  simp only [LibfabricResponse.applySerializerDef, bind_assoc, pure_bind]
  refine SafeIff.congr (SafeIff.length hsize (by omega) fun size hlen =>
    SafeIff.int32 hsize (by omega) fun _ => SafeIff.flag hsize (by omega) fun has hflag =>
      (hblock size has _).congr (Q := buffer 44 ≠ 0 → 45 + u64At buffer 32 < 2 ^ 64) ?_) ?_
  · rw [hflag, hlen]
  · show _ ↔ (45 ≤ n → buffer 44 ≠ 0 → 45 + u64At buffer 32 < 2 ^ 64)
    exact ⟨fun h hin => h (by omega) (by omega) hin, fun h _ _ hin => h hin⟩

theorem safeIff_body (hsize : n < 2 ^ 64) (old : MessageBody) {g : MessageBody → β} :
    SafeIff buffer n (old.applySerializerDef >>= fun body => pure (g body)) 32
      (LengthsFit buffer n old.kind) := by
  -- the structs of fixed fields end with a `pure`, which is safe
  cases old with
  | ping m =>
    simp only [MessageBody.applySerializerDef, bind_assoc, pure_bind]
    exact safeIff_ping hsize m
  | readWrite m =>
    simp only [MessageBody.applySerializerDef, bind_assoc, pure_bind]
    exact safeIff_readWrite hsize m
  | response m =>
    simp only [MessageBody.applySerializerDef, bind_assoc, pure_bind]
    exact safeIff_response hsize m
  | error m =>
    simp only [MessageBody.applySerializerDef, LibfabricErrorMessage.applySerializerDef, bind_assoc,
      pure_bind]
    exact SafeIff.string hsize
  | objectId m =>
    simp only [MessageBody.applySerializerDef, bind_assoc, pure_bind]
    exact (SafeIff.objectId hsize (by omega) fun _ => .pure _).always (by simp)
  | flush m =>
    simp only [MessageBody.applySerializerDef, LibfabricObjFlushInfos.applySerializerDef,
      bind_assoc, pure_bind]
    exact (SafeIff.objectId hsize (by omega) fun _ => .uint64 hsize (by omega) fun _ =>
      .uint64 hsize (by omega) fun _ => .pure _).always (by simp)
  | create m =>
    simp only [MessageBody.applySerializerDef, LibfabricObjCreateInfos.applySerializerDef,
      bind_assoc, pure_bind]
    exact (SafeIff.objectId hsize (by omega) fun _ => .pure _).always (by simp)
  | registerRange m =>
    simp only [MessageBody.applySerializerDef, LibfabricRegisterRange.applySerializerDef,
      bind_assoc, pure_bind]
    exact (SafeIff.objectId hsize (by omega) fun _ => .uint64 hsize (by omega) fun _ =>
      .uint64 hsize (by omega) fun _ => .bool hsize (by omega) fun _ => .pure _).always (by simp)
  | unregisterRange m =>
    simp only [MessageBody.applySerializerDef, LibfabricUnregisterRange.applySerializerDef,
      bind_assoc, pure_bind]
    exact (SafeIff.objectId hsize (by omega) fun _ => .uint64 hsize (by omega) fun _ =>
      .uint64 hsize (by omega) fun _ => .int32 hsize (by omega) fun _ =>
      .bool hsize (by omega) fun _ => .pure _).always (by simp)
  | cow m =>
    simp only [MessageBody.applySerializerDef, LibfabricObjectCow.applySerializerDef, bind_assoc,
      pure_bind]
    exact (SafeIff.objectId hsize (by omega) fun _ => .objectId hsize (by omega) fun _ =>
      .bool hsize (by omega) fun _ => .uint64 hsize (by omega) fun _ =>
      .uint64 hsize (by omega) fun _ => .pure _).always (by simp)
  | firstHandshake m =>
    simp only [MessageBody.applySerializerDef, LibfabricFirstHandshake.applySerializerDef,
      bind_assoc, pure_bind]
    exact (SafeIff.int32 hsize (by omega) fun _ => .uint64 hsize (by omega) fun _ =>
      .pure _).always (by simp)
  | firstClientMessage m =>
    simp only [MessageBody.applySerializerDef, LibfabricFirstClientMessage.applySerializerDef,
      bind_assoc, pure_bind]
    exact (SafeIff.raw hsize (by simp) (by decide) fun _ => .pure _).always (by simp)
  | empty => exact SafeIff.pure _

/-- **Decoding stays inside the message exactly when its lengths do not wrap.**
For every content and size of the message, every struct it is decoded into, and
whatever the structs contained before. -/
theorem decode_inside_iff (header : LibfabricMessageHeader) (old : MessageBody)
    (buffer : ByteBuffer) {n : Nat} (hsize : n < 2 ^ 64) :
    StaysInside (unpackMessage header old buffer n) ↔ LengthsFit buffer n old.kind := by
  have hwalk : SafeIff buffer n (applyMessage header old) 0
      (32 ≤ n → LengthsFit buffer n old.kind) :=
    SafeIff.header hsize fun _ => safeIff_body hsize old
  have hshort : (32 ≤ n → LengthsFit buffer n old.kind) ↔ LengthsFit buffer n old.kind :=
    ⟨fun h => if hin : 32 ≤ n then h hin else lengthsFit_of_short (by omega) _, fun h _ => h⟩
  rw [← hshort]
  by_cases hempty : n = 0
  · -- the constructor of the decoder asserts that there is a buffer
    subst hempty
    exact iff_of_true (by simp [unpackMessage, runSerializer, StaysInside]) fun hin => by omega
  · refine Iff.trans ?_ (hwalk _ (.new buffer n))
    unfold unpackMessage runSerializer
    rw [if_neg fun h => hempty h.1]
    unfold StaysInside Ends
    cases applyMessage header old (.new buffer n .unpack) <;> rfl

/-- An eager write of 4 bytes is decoded inside its message. -/
theorem eagerWrite_decoded_inside :
    LengthsFit (fun i => if i = 72 then 4 else if i = 80 then 1 else 0) 85 .readWrite ∧
      StaysInside (unpackMessage ⟨0, 0, 0, 0⟩ (.readWrite ⟨⟨0, 0⟩, ⟨0, 0⟩, 0, 0, false, .null⟩)
        (fun i => if i = 72 then 4 else if i = 80 then 1 else 0) 85) := by
  have hfit : LengthsFit (fun i => if i = 72 then 4 else if i = 80 then 1 else 0) 85
      .readWrite := by
    intro _ _
    decide +kernel
  exact ⟨hfit, (decode_inside_iff _ _ _ (by omega)).mpr hfit⟩

/-- A write request of 81 bytes that announces `2^64 - 1` bytes of data: the
decoder accepts it, and hands out a block that ends far behind the message. -/
theorem eagerWrite_decoded_outside :
    ¬ StaysInside (unpackMessage ⟨0, 0, 0, 0⟩ (.readWrite ⟨⟨0, 0⟩, ⟨0, 0⟩, 0, 0, false, .null⟩)
      (fun i => if i = 0 then 101 else if 72 ≤ i ∧ i < 80 then 255 else if i = 80 then 1 else 0)
      81) := by
  intro hinside
  have hrun : (unpackMessage ⟨0, 0, 0, 0⟩ (.readWrite ⟨⟨0, 0⟩, ⟨0, 0⟩, 0, 0, false, .null⟩)
      (fun i => if i = 0 then 101 else if 72 ≤ i ∧ i < 80 then 255 else if i = 80 then 1 else 0)
      81).toOption.any (fun r => r.2.size = 81 ∧ (81, 2 ^ 64 - 1) ∈ r.2.blocks) = true := by
    decide +kernel
  obtain ⟨⟨r, s⟩, hok, hs⟩ := Except.exists_ok hrun
  obtain ⟨hn, hblock⟩ := of_decide_eq_true hs
  rw [hok] at hinside
  have hend : (81, 2 ^ 64 - 1).1 + (81, 2 ^ 64 - 1).2 ≤ s.size := hinside.blocks _ hblock
  rw [show s.size = 81 from hn] at hend
  omega

end IoCatcher.Wire
