import IoCatcher.Wire.Bounds

/-!
# IO Catcher — what a decoding returns

The exact result of a decoding, as a function of the bytes it reads.

* `Reads` — the fields from one cursor to another, with their values. The
  decoding stops exactly when the buffer ends before them.
* `Takes` — the same for all buffers at once: the value depends on the bytes
  between the two cursors and on nothing else, and the last of these bytes
  matters.
* `Decodes` — a decoding that may end with a block of data.
-/

namespace IoCatcher.Wire

variable {α β : Type} {buffer buffer' : ByteBuffer} {n k k' k'' : Nat}

/-- What a decoding returns, if it returns. -/
def decoded (m : SerializerM α) (s : SerializerBase) : Option α :=
  (m s).toOption.map Prod.fst

theorem decoded_of_ends {m : SerializerM α} {s : SerializerBase} {r : Option α}
    (h : Ends m s (fun a _ => r = some a) fun _ => r = none) : decoded m s = r := by
  unfold decoded
  cases hm : m s with
  | error f => exact ((Ends.of_error hm).mp h).symm
  | ok x => exact ((Ends.of_ok hm).mp h).symm

theorem decoded_map (f : α → β) (m : SerializerM α) (s : SerializerBase) :
    decoded (m >>= fun a => pure (f a)) s = (decoded m s).map f := by
  have h : (m >>= fun a => (pure (f a) : SerializerM β)) s =
    (m s >>= fun r => .ok (f r.1, r.2)) := rfl
  unfold decoded
  rw [h]
  cases m s <;> rfl

/-- The struct is the argument of an injective function of the result. -/
theorem decoded_eq_of_map {f : α → β} (hf : Function.Injective f) {m : SerializerM α}
    {s s' : SerializerBase}
    (h : decoded (m >>= fun a => pure (f a)) s = decoded (m >>= fun a => pure (f a)) s') :
    decoded m s = decoded m s' := by
  rw [decoded_map, decoded_map] at h
  exact Option.map_injective hf h

-- ---------------------------------------------------------------------------
-- Fields
-- ---------------------------------------------------------------------------

/-- The decoding goes from cursor `k` to cursor `k'` and returns `a`; it stops
when the buffer ends before `k'`. -/
def Reads (buffer : ByteBuffer) (n : Nat) (m : SerializerM α) (k k' : Nat) (a : α) : Prop :=
  ∀ s, Walk buffer n k s → Ends m s (fun x s' => x = a ∧ Walk buffer n k' s') fun _ => n < k'

namespace Reads

theorem pure (a : α) : Reads buffer n (Pure.pure a) k k a := fun _ hs => ⟨rfl, hs⟩

theorem bind {m : SerializerM α} {K : α → SerializerM β} {a : α} {b : β}
    (h : Reads buffer n m k k' a) (hK : Reads buffer n (K a) k' k'' b) (hle : k' ≤ k'') :
    Reads buffer n (m >>= K) k k'' b := by
  intro s hs
  rw [Ends.bind_iff]
  refine (h s hs).mono ?_ fun _ hlt => by omega
  rintro _ s' ⟨rfl, hs'⟩
  exact hK s' hs'

theorem scalar (hsize : n < 2 ^ 64) (c : Scalar α) (fieldName : String) (old : α)
    (hk : k + c.width < 2 ^ 64) :
    Reads buffer n (applyScalar c fieldName old) k (k + c.width)
      (c.decode (buffer.slice k c.width)) := by
  intro s hs
  have hwalk := @hs.advance (m := c.width)
  obtain ⟨rfl, rfl, rfl, -, haction, -, -⟩ := hs
  simp only [applyScalar, Ends.bind_iff, ends_checkSize, Ends.get_iff, haction, Ends.pure_iff,
    Ends.modify_iff, ends_memcpyFrom, SizeT.add_eq hk]
  by_cases hin : s.cursor + c.width ≤ s.size
  · rw [if_pos hin, if_pos hin]
    exact ⟨trivial, hwalk hin hsize⟩
  · rw [if_neg hin]
    omega

/-- The value a decoding returns. -/
theorem decoded {m : SerializerM α} {a : α} (h : Reads buffer n m k k' a) {s : SerializerBase}
    (hs : Walk buffer n k s) : decoded m s = if k' ≤ n then some a else none := by
  refine decoded_of_ends ((h s hs).mono ?_ fun _ hlt => if_neg (by omega))
  rintro x s' ⟨rfl, hs'⟩
  exact if_pos hs'.inside

end Reads

-- ---------------------------------------------------------------------------
-- Fields of any buffer
-- ---------------------------------------------------------------------------

/-- The decoding takes the bytes from `k` to `k'`: its value is a function of
them, and of no others. -/
def Takes (m : SerializerM α) (k k' : Nat) : Prop :=
  ∃ f : ByteBuffer → α,
    (∀ buffer n, n < 2 ^ 64 → Reads buffer n m k k' (f buffer)) ∧
    ∀ buffer buffer', (∀ i, k ≤ i → i < k' → buffer i = buffer' i) → f buffer = f buffer'

/-- The decoding takes the bytes from `k` to `k'`, and the value tells whether
the last of them is 0. -/
def TakesLast (m : SerializerM α) (k k' : Nat) : Prop :=
  ∃ f : ByteBuffer → α,
    (∀ buffer n, n < 2 ^ 64 → Reads buffer n m k k' (f buffer)) ∧
    (∀ buffer buffer', (∀ i, k ≤ i → i < k' → buffer i = buffer' i) → f buffer = f buffer') ∧
    ∀ buffer buffer', (∀ i, k ≤ i → i + 1 < k' → buffer i = buffer' i) → buffer (k' - 1) = 0 →
      buffer' (k' - 1) ≠ 0 → f buffer ≠ f buffer'

/-- A scalar whose value tells whether its last byte is 0. -/
def Scalar.TellsLast (c : Scalar α) : Prop :=
  ∀ bs b, bs.length + 1 = c.width → b ≠ 0 → c.decode (bs ++ [0]) ≠ c.decode (bs ++ [b])

theorem Scalar.tellsLast_of_injOn (c : Scalar α)
    (hinj : ∀ v v', v < 256 ^ c.width → v' < 256 ^ c.width → c.ofNat v = c.ofNat v' → v = v') :
    c.TellsLast := by
  intro bs b hlen hb heq
  have hlt : ∀ b : UInt8, LittleEndian.ofBytes (bs ++ [b]) < 256 ^ c.width := by
    intro b
    have hbound := LittleEndian.ofBytes_lt (bs ++ [b])
    rwa [List.length_append, List.length_singleton, hlen] at hbound
  exact LittleEndian.ofBytes_concat_ne hb.symm (hinj _ _ (hlt 0) (hlt b) heq)

theorem tellsLast_uint64 : Scalar.uint64.TellsLast := by
  refine Scalar.tellsLast_of_injOn _ fun v v' hv hv' heq => ?_
  have htoNat := congrArg UInt64.toNat heq
  simp only [Scalar.uint64] at hv hv' htoNat
  rwa [UInt64.toNat_ofNat_of_lt' hv, UInt64.toNat_ofNat_of_lt' hv'] at htoNat

theorem tellsLast_int64 : Scalar.int64.TellsLast := by
  refine Scalar.tellsLast_of_injOn _ fun v v' hv hv' heq => ?_
  have htoNat := congrArg (fun x : Int64 => x.toUInt64.toNat) heq
  simp only [Scalar.int64, UInt64.toUInt64_toInt64] at hv hv' htoNat
  rwa [UInt64.toNat_ofNat_of_lt' hv, UInt64.toNat_ofNat_of_lt' hv'] at htoNat

theorem tellsLast_bool : Scalar.bool.TellsLast := by
  intro bs b hlen hb heq
  obtain rfl : bs = [] := List.length_eq_zero_iff.mp (by simpa [Scalar.bool] using hlen)
  refine hb (UInt8.toNat_inj.mp ?_)
  simpa [Scalar.decode, Scalar.bool, LittleEndian.ofBytes] using heq

namespace Takes

theorem scalar (c : Scalar α) (fieldName : String) (old : α) (hk : k + c.width < 2 ^ 64) :
    Takes (applyScalar c fieldName old) k (k + c.width) := by
  refine ⟨fun buffer => c.decode (buffer.slice k c.width),
    fun buffer n hsize => .scalar hsize c fieldName old hk, fun buffer buffer' h => ?_⟩
  exact congrArg c.decode (ByteBuffer.slice_congr h)

end Takes

namespace TakesLast

theorem takes {m : SerializerM α} (h : TakesLast m k k') : Takes m k k' := by
  obtain ⟨f, hreads, hlocal, -⟩ := h
  exact ⟨f, hreads, hlocal⟩

theorem scalar (c : Scalar α) (hc : c.TellsLast) (fieldName : String) (old : α)
    (hpos : 0 < c.width) (hk : k + c.width < 2 ^ 64) :
    TakesLast (applyScalar c fieldName old) k (k + c.width) := by
  refine ⟨fun buffer => c.decode (buffer.slice k c.width),
    fun buffer n hsize => .scalar hsize c fieldName old hk,
    fun buffer buffer' h => congrArg c.decode (ByteBuffer.slice_congr h), ?_⟩
  intro buffer buffer' hsame hzero hother
  obtain ⟨w, hw⟩ : ∃ w, c.width = w + 1 := Nat.exists_eq_add_of_lt hpos |>.imp fun w h => by omega
  have hlast : k + c.width - 1 = k + w := by omega
  rw [hlast] at hzero hother
  dsimp only
  rw [hw, ByteBuffer.slice_succ, ByteBuffer.slice_succ, hzero,
    ByteBuffer.slice_congr fun i hi hi' => hsame i hi (by omega)]
  exact hc _ _ (by simp [hw]) hother

theorem bind {m : SerializerM α} {K : α → SerializerM β} (h : Takes m k k')
    (hK : ∀ a, TakesLast (K a) k' k'') (hle : k ≤ k') (hlt : k' < k'') :
    TakesLast (m >>= K) k k'' := by
  obtain ⟨f, hreads, hlocal⟩ := h
  choose g hreads' hlocal' hlast using hK
  refine ⟨fun buffer => g (f buffer) buffer,
    fun buffer n hsize => (hreads buffer n hsize).bind (hreads' _ buffer n hsize) hlt.le, ?_, ?_⟩
  · intro buffer buffer' hsame
    dsimp only
    rw [hlocal buffer buffer' fun i hi hi' => hsame i hi (by omega)]
    exact hlocal' _ buffer buffer' fun i hi hi' => hsame i (by omega) hi'
  · intro buffer buffer' hsame hzero hother
    dsimp only
    rw [hlocal buffer buffer' fun i hi hi' => hsame i hi (by omega)]
    exact hlast _ buffer buffer' (fun i hi hi' => hsame i (by omega) hi') hzero hother

theorem map {m : SerializerM α} {f : α → β} (h : TakesLast m k k') (hf : Function.Injective f) :
    TakesLast (m >>= fun a => pure (f a)) k k' := by
  obtain ⟨g, hreads, hlocal, hlast⟩ := h
  exact ⟨fun buffer => f (g buffer),
    fun buffer n hsize => (hreads buffer n hsize).bind (.pure _) le_rfl,
    fun buffer buffer' hsame => congrArg f (hlocal buffer buffer' hsame),
    fun buffer buffer' hsame hzero hother heq =>
      hlast buffer buffer' hsame hzero hother (hf heq)⟩

end TakesLast

-- ---------------------------------------------------------------------------
-- Structs of fixed size
-- ---------------------------------------------------------------------------

theorem Takes.uint64 (fieldName : String) (old : UInt64) (hk : k + 8 < 2 ^ 64) :
    Takes (applyUInt64 fieldName old) k (k + 8) := .scalar Scalar.uint64 _ _ hk

theorem TakesLast.uint64 (fieldName : String) (old : UInt64) (hk : k + 8 < 2 ^ 64) :
    TakesLast (applyUInt64 fieldName old) k (k + 8) :=
  .scalar Scalar.uint64 tellsLast_uint64 _ _ (by decide) hk

theorem TakesLast.bool (fieldName : String) (old : Bool) (hk : k + 1 < 2 ^ 64) :
    TakesLast (applyBool fieldName old) k (k + 1) :=
  .scalar Scalar.bool tellsLast_bool _ _ (by decide) hk

theorem takesLast_objectId (m : LibfabricObjectId) (hk : k + 16 < 2 ^ 64) :
    TakesLast m.applySerializerDef k (k + 16) := by
  refine .bind (Takes.scalar Scalar.int64 _ _ (by simp [Scalar.int64]; omega)) (fun low => ?_)
    (by simp [Scalar.int64]) (by simp [Scalar.int64])
  exact .map (TakesLast.scalar Scalar.int64 tellsLast_int64 _ _ (by decide)
    (by simp [Scalar.int64]; omega)) fun _ _ h => (LibfabricObjectId.mk.inj h).2

theorem takesLast_create (m : LibfabricObjCreateInfos) : TakesLast m.applySerializerDef 32 48 :=
  .map (takesLast_objectId _ (by decide)) fun _ _ h => LibfabricObjCreateInfos.mk.inj h

theorem takesLast_flush (m : LibfabricObjFlushInfos) : TakesLast m.applySerializerDef 32 64 := by
  refine .bind (takesLast_objectId _ (by decide)).takes (fun objectId => ?_) (by decide) (by decide)
  refine .bind (Takes.uint64 _ _ (by decide)) (fun offset => ?_) (by decide) (by decide)
  exact .map (TakesLast.uint64 _ _ (by decide)) fun _ _ h => (LibfabricObjFlushInfos.mk.inj h).2.2

theorem takesLast_registerRange (m : LibfabricRegisterRange) :
    TakesLast m.applySerializerDef 32 65 := by
  refine .bind (takesLast_objectId _ (by decide)).takes (fun objectId => ?_) (by decide) (by decide)
  refine .bind (Takes.uint64 _ _ (by decide)) (fun offset => ?_) (by decide) (by decide)
  refine .bind (Takes.uint64 _ _ (by decide)) (fun size => ?_) (by decide) (by decide)
  exact .map (TakesLast.bool _ _ (by decide)) fun _ _ h => (LibfabricRegisterRange.mk.inj h).2.2.2

theorem takesLast_unregisterRange (m : LibfabricUnregisterRange) :
    TakesLast m.applySerializerDef 32 69 := by
  refine .bind (takesLast_objectId _ (by decide)).takes (fun objectId => ?_) (by decide) (by decide)
  refine .bind (Takes.uint64 _ _ (by decide)) (fun offset => ?_) (by decide) (by decide)
  refine .bind (Takes.uint64 _ _ (by decide)) (fun size => ?_) (by decide) (by decide)
  refine .bind (Takes.scalar Scalar.int32 _ _ (by decide)) (fun id => ?_) (by decide) (by decide)
  exact .map (TakesLast.bool _ _ (by decide))
    fun _ _ h => (LibfabricUnregisterRange.mk.inj h).2.2.2.2

theorem takesLast_cow (m : LibfabricObjectCow) : TakesLast m.applySerializerDef 32 81 := by
  refine .bind (takesLast_objectId _ (by decide)).takes (fun source => ?_) (by decide) (by decide)
  refine .bind (takesLast_objectId _ (by decide)).takes (fun dest => ?_) (by decide) (by decide)
  refine .bind (TakesLast.bool _ _ (by decide)).takes (fun exist => ?_) (by decide) (by decide)
  refine .bind (Takes.uint64 _ _ (by decide)) (fun offset => ?_) (by decide) (by decide)
  exact .map (TakesLast.uint64 _ _ (by decide)) fun _ _ h => (LibfabricObjectCow.mk.inj h).2.2.2.2

theorem reads_addr (hsize : n < 2 ^ 64) (m : LibfabricFirstClientMessage) :
    Reads buffer n m.applySerializerDef 32 64 ⟨fun i => buffer (32 + i)⟩ := by
  intro s hs
  have hwalk := @hs.advance (m := maxAddrLen)
  obtain ⟨rfl, rfl, hcursor, -, haction, -, -⟩ := hs
  have hlen : maxAddrLen ≤ (List.ofFn m.addr).length := by simp
  have hadd : SizeT.add s.cursor maxAddrLen = 64 := by rw [hcursor]; rfl
  have hsum : s.cursor + maxAddrLen = 64 := by rw [hcursor]; rfl
  simp only [LibfabricFirstClientMessage.applySerializerDef, applyRaw, Ends.bind_iff,
    ends_checkSize, Ends.get_iff, haction, ends_memcpyFrom, hadd, hsum,
    Ends.pure_iff, Ends.modify_iff, if_pos hlen, reduceCtorEq, if_false]
  by_cases hin : 64 ≤ s.size
  · rw [if_pos hin, if_pos hin]
    refine ⟨congrArg _ (funext fun i => ?_), hwalk hin hsize⟩
    have hi : (i : Nat) < (s.buffer.slice s.cursor maxAddrLen).length := by simp
    rw [addrOfBlock, List.getD_append _ _ _ _ hi, hcursor]
    simp [ByteBuffer.slice]
  · rw [if_neg hin]
    omega

theorem takesLast_firstClientMessage (m : LibfabricFirstClientMessage) :
    TakesLast m.applySerializerDef 32 64 := by
  refine ⟨fun buffer => ⟨fun i => buffer (32 + i)⟩, fun _ _ hsize => reads_addr hsize m, ?_, ?_⟩
  · intro buffer buffer' hsame
    refine congrArg _ (funext fun i => hsame _ (by omega) ?_)
    have hi : (i : Nat) < 32 := i.isLt
    omega
  · intro buffer buffer' _ hzero hother heq
    have hlast := congrFun (LibfabricFirstClientMessage.mk.inj heq) ⟨31, by decide⟩
    exact hother (hlast.symm.trans hzero)

-- ---------------------------------------------------------------------------
-- Structs that end with a block
-- ---------------------------------------------------------------------------

/-- From cursor `k` on, the decoding returns `r`. -/
def Decodes (buffer : ByteBuffer) (n : Nat) (m : SerializerM α) (k : Nat) (r : Option α) : Prop :=
  ∀ s, Walk buffer n k s → decoded m s = r

theorem Decodes.bind {m : SerializerM α} {K : α → SerializerM β} {a : α} {r : Option β}
    (h : Reads buffer n m k k' a) (hK : Decodes buffer n (K a) k' r) :
    Decodes buffer n (m >>= K) k (if k' ≤ n then r else none) := by
  intro s hs
  have hends := h s hs
  have hrun : (m >>= K) s = (m s >>= fun x => K x.1 x.2) := rfl
  cases hm : m s with
  | error f =>
    have hlt : n < k' := (Ends.of_error hm).mp hends
    rw [if_neg (by omega), decoded, hrun, hm]
    rfl
  | ok x =>
    obtain ⟨a', s'⟩ := x
    obtain ⟨rfl, hs'⟩ := (Ends.of_ok hm).mp hends
    rw [if_pos hs'.inside, ← hK s' hs', decoded, decoded, hrun, hm]
    rfl

/-- A block at the end, if there is one. -/
theorem Decodes.optional {c : Prop} [Decidable c] {fieldName : String} {old : Pointer} {len : Nat}
    {g : Pointer → β} :
    Decodes buffer n ((if c then serializeOrPoint fieldName old len else pure old) >>=
      fun p => pure (g p)) k
      (if c then if SizeT.add k len ≤ n then some (g (.message k)) else none
        else some (g old)) := by
  intro s hs
  obtain ⟨rfl, rfl, rfl, -, haction, -, -⟩ := hs
  refine decoded_of_ends ?_
  split_ifs with hc hroom
  · simp only [serializeOrPoint, Ends.bind_iff, ends_checkSize, Ends.get_iff, haction,
      Ends.pure_iff, Ends.modify_iff, if_pos hroom]
  · simp only [serializeOrPoint, Ends.bind_iff, ends_checkSize, if_neg hroom]
  · rfl

/-- The `uint64_t` of a message at an index. -/
def uint64At (buffer : ByteBuffer) (i : Nat) : UInt64 :=
  Scalar.uint64.decode (buffer.slice i Scalar.uint64.width)

/-- The `int64_t` of a message at an index. -/
def int64At (buffer : ByteBuffer) (i : Nat) : Int64 :=
  Scalar.int64.decode (buffer.slice i Scalar.int64.width)

/-- The fields of a ping, with the given data. -/
def pingFields (buffer : ByteBuffer) (eagerData : Pointer) : LibfabricPing :=
  ⟨uint64At buffer 32, uint64At buffer 40, ⟨uint64At buffer 48, uint64At buffer 56⟩, eagerData⟩

/-- The fields of a read or write request, with the given data. -/
def readWriteFields (buffer : ByteBuffer) (optionalData : Pointer) : LibfabricObjReadWriteInfos :=
  ⟨⟨int64At buffer 32, int64At buffer 40⟩, ⟨uint64At buffer 48, uint64At buffer 56⟩,
    uint64At buffer 64, uint64At buffer 72, buffer 80 ≠ 0, optionalData⟩

/-- The header of a message. -/
def headerAt (buffer : ByteBuffer) : LibfabricMessageHeader :=
  ⟨uint64At buffer 0, uint64At buffer 8, uint64At buffer 16, uint64At buffer 24⟩

theorem uint64At_congr {i : Nat} (h : ∀ j, i ≤ j → j < i + 8 → buffer j = buffer' j) :
    uint64At buffer i = uint64At buffer' i :=
  congrArg Scalar.uint64.decode (ByteBuffer.slice_congr h)

theorem int64At_congr {i : Nat} (h : ∀ j, i ≤ j → j < i + 8 → buffer j = buffer' j) :
    int64At buffer i = int64At buffer' i :=
  congrArg Scalar.int64.decode (ByteBuffer.slice_congr h)

theorem uint64At_ne {i : Nat} (h : ∀ j, i ≤ j → j < i + 7 → buffer j = buffer' j)
    (hzero : buffer (i + 7) = 0) (hother : buffer' (i + 7) ≠ 0) :
    uint64At buffer i ≠ uint64At buffer' i := by
  have hsucc : ∀ b : ByteBuffer, b.slice i Scalar.uint64.width = b.slice i 7 ++ [b (i + 7)] :=
    fun b => b.slice_succ i 7
  unfold uint64At
  rw [hsucc, hsucc, hzero, ByteBuffer.slice_congr h]
  exact tellsLast_uint64 _ _ (by simp [Scalar.uint64]) hother

theorem reads_uint64 (hsize : n < 2 ^ 64) (fieldName : String) (old : UInt64)
    (hk : k + 8 < 2 ^ 64) :
    Reads buffer n (applyUInt64 fieldName old) k (k + 8) (uint64At buffer k) :=
  .scalar hsize Scalar.uint64 fieldName old hk

theorem reads_int64 (hsize : n < 2 ^ 64) (fieldName : String) (old : Int64) (hk : k + 8 < 2 ^ 64) :
    Reads buffer n (applyInt64 fieldName old) k (k + 8) (int64At buffer k) :=
  .scalar hsize Scalar.int64 fieldName old hk

theorem reads_bool (hsize : n < 2 ^ 64) (fieldName : String) (old : Bool) (hk : k + 1 < 2 ^ 64) :
    Reads buffer n (applyBool fieldName old) k (k + 1) (decide (buffer k ≠ 0)) := by
  have hvalue : Scalar.bool.decode (buffer.slice k Scalar.bool.width) = decide (buffer k ≠ 0) := by
    simp [Scalar.bool, Scalar.decode, ByteBuffer.slice, LittleEndian.ofBytes, ← UInt8.toNat_inj]
  rw [← hvalue]
  exact .scalar hsize Scalar.bool fieldName old hk

theorem reads_iov (hsize : n < 2 ^ 64) (m : Iov) (hk : k + 16 < 2 ^ 64) :
    Reads buffer n m.applySerializerDef k (k + 16)
      ⟨uint64At buffer k, uint64At buffer (k + 8)⟩ := by
  refine .bind (reads_uint64 hsize _ _ (by omega)) ?_ (by omega : k + 8 ≤ k + 16)
  exact .bind (reads_uint64 hsize _ _ (by omega)) (.pure _) le_rfl

theorem reads_objectId (hsize : n < 2 ^ 64) (m : LibfabricObjectId) (hk : k + 16 < 2 ^ 64) :
    Reads buffer n m.applySerializerDef k (k + 16) ⟨int64At buffer k, int64At buffer (k + 8)⟩ := by
  refine .bind (reads_int64 hsize _ _ (by omega)) ?_ (by omega : k + 8 ≤ k + 16)
  exact .bind (reads_int64 hsize _ _ (by omega)) (.pure _) le_rfl

theorem reads_header (hsize : n < 2 ^ 64) (m : LibfabricMessageHeader) :
    Reads buffer n m.applySerializerDef 0 32 (headerAt buffer) := by
  refine .bind (reads_uint64 hsize _ _ (by decide)) ?_ (by decide)
  refine .bind (reads_uint64 hsize _ _ (by decide)) ?_ (by decide)
  refine .bind (reads_uint64 hsize _ _ (by decide)) ?_ (by decide)
  exact .bind (reads_uint64 hsize _ _ (by decide)) (.pure _) (by decide)

/-- What a ping is decoded to. -/
theorem decodes_ping (hsize : n < 2 ^ 64) (m : LibfabricPing) :
    Decodes buffer n m.applySerializerDef 32
      (if 64 ≤ n then
        if 0 < u64At buffer 40 then
          if SizeT.add 64 (u64At buffer 40) ≤ n then some (pingFields buffer (.message 64))
          else none
        else some (pingFields buffer m.eagerData)
      else none) := by
  have hlen : (uint64At buffer 40).toNat = u64At buffer 40 := toNat_decode_uint64 buffer 40
  have hwalk : Decodes buffer n m.applySerializerDef 32 _ :=
    .bind (reads_uint64 hsize _ _ (by decide)) (.bind (reads_uint64 hsize _ _ (by decide))
      (.bind (reads_iov hsize _ (by decide)) .optional))
  intro s hs
  rw [hwalk s hs]
  simp only [UInt64.lt_iff_toNat_lt, hlen, UInt64.toNat_zero]
  by_cases hin : 64 ≤ n
  · rw [if_pos (by omega), if_pos (by omega), if_pos (by omega), if_pos hin]
    rfl
  · rw [if_neg hin]
    split_ifs <;> rfl

/-- What a read or write request is decoded to. -/
theorem decodes_readWrite (hsize : n < 2 ^ 64) (m : LibfabricObjReadWriteInfos) :
    Decodes buffer n m.applySerializerDef 32
      (if 81 ≤ n then
        if buffer 80 ≠ 0 then
          if SizeT.add 81 (u64At buffer 72) ≤ n then some (readWriteFields buffer (.message 81))
          else none
        else some (readWriteFields buffer m.optionalData)
      else none) := by
  have hlen : (uint64At buffer 72).toNat = u64At buffer 72 := toNat_decode_uint64 buffer 72
  have hwalk : Decodes buffer n m.applySerializerDef 32 _ :=
    .bind (reads_objectId hsize _ (by decide)) (.bind (reads_iov hsize _ (by decide))
      (.bind (reads_uint64 hsize _ _ (by decide)) (.bind (reads_uint64 hsize _ _ (by decide))
        (.bind (reads_bool hsize _ _ (by decide)) .optional))))
  intro s hs
  rw [hwalk s hs]
  simp only [hlen, decide_eq_true_eq]
  by_cases hin : 81 ≤ n
  · rw [if_pos (by omega), if_pos (by omega), if_pos (by omega), if_pos (by omega),
      if_pos (by omega), if_pos hin]
    rfl
  · rw [if_neg hin]
    split_ifs <;> rfl

end IoCatcher.Wire
