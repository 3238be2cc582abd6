import IoCatcher.Network.Twins
import IoCatcher.Safety.ReceiveBuffers

/-!
# IO Catcher — what is left in a receive buffer

A receive buffer is used again and again, and a message only overwrites its
start. The decoder is given the capacity of the buffer and not the length of the
message, so a short message can be completed with what an earlier one left.

`independent_iff` says exactly for which messages this cannot be seen: those
that contain every byte of the fields and of the data they are decoded to, and
those that the decoder refuses whatever follows them.
-/

namespace IoCatcher.Network

open Wire Container

variable {μ σ : Type} {B : Backends μ σ} {c c' : Connection μ σ}

-- ---------------------------------------------------------------------------
-- What is decoded
-- ---------------------------------------------------------------------------

/-- What `onRecv` and the hook decode from a message. -/
inductive Decoded where
  /-- The decoder stops in the header. -/
  | stopped
  /-- Nothing is decoded behind the header, or only the text of an abort. -/
  | header (header : LibfabricMessageHeader)
  /-- A struct with the data that goes with it; none when the decoder stops. -/
  | body (header : LibfabricMessageHeader) (fields : Option (MessageBody × List UInt8))
  deriving DecidableEq

/-- What is decoded behind a header. -/
def Connection.decodesBody (c : Connection μ σ) (header : LibfabricMessageHeader)
    (s : SerializerBase) : Decoded :=
  if header.msgType = LibfabricMessageType.connectInit.code then
    .body header ((decoded
      (MessageBody.firstClientMessage ⟨fun _ => 0⟩).applySerializerDef s).map (·, []))
  else if header.msgType = LibfabricMessageType.badAuth.code ∨
      header.msgType = LibfabricMessageType.fatalError.code then .header header
  else if c.Accepts header then
    match findHook header.msgType with
    | some hook => .body header (hook.decodes s)
    | none => .header header
  else .header header

/-- What is decoded from the message in a receive buffer. -/
def Connection.decodes (c : Connection μ σ) (id : Nat) : Decoded :=
  match c.headerOf id with
  | .error _ => .stopped
  | .ok (header, s) => c.decodesBody header s

-- ---------------------------------------------------------------------------
-- The property
-- ---------------------------------------------------------------------------

/-- The receive buffer had this content before. -/
def Connection.withLeftover (c : Connection μ σ) (id : Nat) (leftover : ByteBuffer) :
    Connection μ σ :=
  { c with recvBuffers := fun k => if k = id then leftover else c.recvBuffers k }

/-- Two ends of a step are the same: both stop the process, or both leave the
same connection, up to the content of the receive buffers. -/
def SameEnd (r r' : Except ConnectionFault (Connection μ σ)) : Prop :=
  match r, r' with
  | .ok c, .ok c' => c.Alike c'
  | .error _, .error _ => True
  | _, _ => False

/-- The message is decoded only from its own bytes: whatever the receive buffer
contained before, the same header, fields and data are decoded, and the step
ends in the same way. -/
def Independent (B : Backends μ σ) (c : Connection μ σ) (id : Nat) (message : List UInt8)
    (outside : Outside) : Prop :=
  ∀ leftover leftover' : ByteBuffer,
    ((c.withLeftover id leftover).deliver id message).decodes id =
        ((c.withLeftover id leftover').deliver id message).decodes id ∧
      SameEnd ((c.withLeftover id leftover).exec B (.recv id message outside))
        ((c.withLeftover id leftover').exec B (.recv id message outside))

-- ---------------------------------------------------------------------------
-- The condition
-- ---------------------------------------------------------------------------

/-- A message and what follows it when the buffer was filled with one byte. -/
def padded (fill : UInt8) (message : List UInt8) : ByteBuffer :=
  ByteBuffer.put (fun _ => fill) 0 message

/-- Fields that end at `stop` are all in the message, or the buffer cannot hold
them. -/
def Whole (size stop length : Nat) : Prop := size < stop ∨ stop ≤ length

/-- The fields and the data a hook decodes are all in the message, or the
decoder refuses them whatever the buffer contained. For a ping this can be
decided by a part of `eagerSize`: the smallest value it can have is too large,
and the largest does not wrap around. -/
def Hook.Covered (hook : Hook) (size : Nat) (message : List UInt8) : Prop :=
  match hook with
  | .flush => Whole size 64 message.length
  | .rangeRegister => Whole size 65 message.length
  | .rangeUnregister => Whole size 69 message.length
  | .objectCreate => Whole size 48 message.length
  | .objectCow => Whole size 81 message.length
  | .objectRead => Whole size 81 message.length
  | .objectWrite => size < 81 ∨ (81 ≤ message.length ∧
      (padded 0 message 80 = 0 ∨ 81 + u64At (padded 0 message) 72 ≤ message.length ∨
        message.length = size ∨
        (size < 81 + u64At (padded 0 message) 72 ∧ 81 + u64At (padded 0 message) 72 < 2 ^ 64)))
  | .pingPong => size < 64 ∨
      (size < 64 + u64At (padded 0 message) 40 ∧ 64 + u64At (padded 255 message) 40 < 2 ^ 64) ∨
      (64 ≤ message.length ∧
        (64 + u64At (padded 0 message) 40 ≤ message.length ∨ message.length = size))

/-- The same behind a header. -/
def Connection.BodyCovered (c : Connection μ σ) (header : LibfabricMessageHeader)
    (message : List UInt8) : Prop :=
  if header.msgType = LibfabricMessageType.connectInit.code then
    Whole c.recvBuffersSize 64 message.length
  else if header.msgType = LibfabricMessageType.badAuth.code ∨
      header.msgType = LibfabricMessageType.fatalError.code then True
  else if c.Accepts header then
    match findHook header.msgType with
    | some hook => hook.Covered c.recvBuffersSize message
    | none => True
  else True

/-- The message contains every byte that is decoded, or is refused whatever
follows it. -/
def Connection.Covered (c : Connection μ σ) (message : List UInt8) : Prop :=
  c.recvBuffersSize < 32 ∨
    (32 ≤ message.length ∧ c.BodyCovered (headerAt (padded 0 message)) message)

-- ---------------------------------------------------------------------------
-- Bytes of a message and bytes behind it
-- ---------------------------------------------------------------------------

variable {message : List UInt8} {b b' : ByteBuffer} {s s' : SerializerBase} {n k : Nat}

theorem put_of_lt (h : k < message.length) : b.put 0 message k = b'.put 0 message k := by
  simp [ByteBuffer.put, h]

theorem put_of_le (h : message.length ≤ k) : b.put 0 message k = b k := by
  simp [ByteBuffer.put, Nat.not_lt.mpr h]

/-- A buffer that has another byte at one index. -/
def withByte (b : ByteBuffer) (i : Nat) (x : UInt8) : ByteBuffer :=
  fun k => if k = i then x else b k

theorem withByte_put {i : Nat} {x : UInt8} (h : message.length ≤ i) :
    (withByte b i x).put 0 message i = x := by
  rw [put_of_le h, withByte, if_pos rfl]

theorem withByte_put_of_ne {i : Nat} {x : UInt8} (h : k ≠ i) :
    (withByte b i x).put 0 message k = b.put 0 message k := by
  unfold ByteBuffer.put withByte
  rw [if_neg h]

/-- A number whose last byte is behind the message. -/
theorem uint64At_withByte_ne {i : Nat} (h : message.length ≤ i + 7) :
    uint64At ((withByte b (i + 7) 0).put 0 message) i ≠
      uint64At ((withByte b (i + 7) 1).put 0 message) i := by
  refine uint64At_ne (fun j _ hj => ?_) (withByte_put h) ?_
  · rw [withByte_put_of_ne (by omega), withByte_put_of_ne (by omega)]
  · rw [withByte_put h]
    decide

/-- A decoder behind the header. -/
def bodyDecoder (buffer : ByteBuffer) (n : Nat) : SerializerBase :=
  ⟨buffer, n, 32, .unpack, [], []⟩

theorem walk_bodyDecoder (buffer : ByteBuffer) (h : 32 ≤ n) :
    Walk buffer n 32 (bodyDecoder buffer n) :=
  ⟨rfl, rfl, rfl, h, rfl, fun _ hc => absurd hc List.not_mem_nil, rfl⟩

-- ---------------------------------------------------------------------------
-- Fields of fixed size
-- ---------------------------------------------------------------------------

/-- The result of a decoding behind the header does not depend on what was in
the buffer. -/
def Same {α : Type} (decode : SerializerBase → α) (n : Nat) (message : List UInt8) : Prop :=
  ∀ (b b' : ByteBuffer) (s s' : SerializerBase), Walk (b.put 0 message) n 32 s →
    Walk (b'.put 0 message) n 32 s' → decode s = decode s'

/-- Fixed fields are the same exactly when all of them are in the message, or
none can be decoded. -/
theorem same_iff_whole {α : Type} {m : SerializerM α} {stop : Nat} (h : TakesLast m 32 stop)
    (hstop : 32 < stop) (hn : n < 2 ^ 64) :
    Same (decoded m) n message ↔ Whole n stop message.length := by
  obtain ⟨f, hreads, hlocal, hlast⟩ := h
  have hvalue : ∀ {b : ByteBuffer} {s : SerializerBase}, Walk (b.put 0 message) n 32 s →
      decoded m s = if stop ≤ n then some (f (b.put 0 message)) else none := fun hs =>
    (hreads _ n hn).decoded hs
  constructor
  · intro hsame
    by_contra hnot
    obtain ⟨hroom, hshort⟩ : stop ≤ n ∧ message.length < stop := by
      simpa [Whole] using hnot
    -- the last byte of the fields is behind the message
    have hs := fun x => walk_bodyDecoder (n := n)
      ((withByte (fun _ => 0) (stop - 1) x).put 0 message) (by omega)
    have heq := hsame _ _ _ _ (hs 0) (hs 1)
    rw [hvalue (hs 0), hvalue (hs 1), if_pos hroom, if_pos hroom] at heq
    refine hlast _ _ (fun i _ hi => ?_) ?_ ?_ (Option.some.inj heq)
    · rw [withByte_put_of_ne (by omega), withByte_put_of_ne (by omega)]
    · exact withByte_put (by omega)
    · rw [withByte_put (by omega)]
      decide
  · intro hwhole b b' s s' hs hs'
    rw [hvalue hs, hvalue hs']
    obtain hshort | hlong := hwhole
    · rw [if_neg (by omega), if_neg (by omega)]
    · rw [hlocal _ _ fun i _ hi => put_of_lt (hi.trans_le hlong)]

/-- A hook without data. -/
theorem Hook.same_iff_of_fixed {hook : Hook} {stop : Nat}
    (htakes : TakesLast hook.blank.applySerializerDef 32 stop) (hstop : 32 < stop)
    (hpayload : ∀ body, hook.payload body = none) (hn : n < 2 ^ 64) :
    Same hook.decodes n message ↔ Whole n stop message.length := by
  rw [← same_iff_whole htakes hstop hn]
  have hfields : ∀ s, hook.decodes s =
      (decoded hook.blank.applySerializerDef s).map fun body => (body, []) := by
    intro s
    unfold Hook.decodes
    congr 1
    funext body
    rw [hpayload, clip]
  have hinj : Function.Injective fun body : MessageBody => (body, ([] : List UInt8)) :=
    fun _ _ h => congrArg Prod.fst h
  constructor
  · intro h b b' s s' hs hs'
    have heq := h b b' s s' hs hs'
    rw [hfields, hfields] at heq
    exact Option.map_injective hinj heq
  · intro h b b' s s' hs hs'
    rw [hfields, hfields, h b b' s s' hs hs']

-- ---------------------------------------------------------------------------
-- Data in the message
-- ---------------------------------------------------------------------------

theorem u64At_congr {i : Nat} (h : ∀ j, i ≤ j → j < i + 8 → b j = b' j) :
    u64At b i = u64At b' i :=
  congrArg LittleEndian.ofBytes (ByteBuffer.slice_congr h)

/-- A number of the message is the same whatever the buffer contained. -/
theorem u64At_put (b b' : ByteBuffer) {i : Nat} (h : i + 8 ≤ message.length) :
    u64At (b.put 0 message) i = u64At (b'.put 0 message) i :=
  u64At_congr fun _ _ hj => put_of_lt (hj.trans_le h)

theorem clip_eq_of_lt {index length : Nat}
    (h : ∀ i, index ≤ i → i < index + length → i < n → b i = b' i) :
    clip b n (some (index, length)) = clip b' n (some (index, length)) :=
  ByteBuffer.slice_congr fun i hi hi' => h i hi (by omega) (by omega)

/-- Data that goes on behind the message shows what was in the buffer. -/
theorem clip_ne {index length : Nat} (hstart : index ≤ message.length)
    (hin : message.length < index + length) (hroom : message.length < n) :
    clip ((withByte b message.length 0).put 0 message) n (some (index, length)) ≠
      clip ((withByte b message.length 1).put 0 message) n (some (index, length)) := by
  intro heq
  have hlt : message.length - index < min length (n - index) := by omega
  have hindex : index + (message.length - index) = message.length := by omega
  have hget := congrArg (fun l => l[message.length - index]?) heq
  simp only [clip, ByteBuffer.slice, List.getElem?_map, List.getElem?_range hlt, Option.map_some,
    hindex, withByte_put le_rfl] at hget
  exact absurd (Option.some.inj hget) (by decide)

theorem decodes_objectWrite (hn : n < 2 ^ 64) (hs : Walk b n 32 s) :
    Hook.objectWrite.decodes s =
      if 81 ≤ n then
        if b 80 ≠ 0 then
          if SizeT.add 81 (u64At b 72) ≤ n then
            some (.readWrite (readWriteFields b (.message 81)), clip b n (some (81, u64At b 72)))
          else none
        else some (.readWrite (readWriteFields b .null), [])
      else none := by
  have hlen : (uint64At b 72).toNat = u64At b 72 := toNat_decode_uint64 b 72
  have hbody : decoded Hook.objectWrite.blank.applySerializerDef s = _ :=
    (decoded_map MessageBody.readWrite _ s).trans
      (congrArg (Option.map MessageBody.readWrite) (decodes_readWrite hn blankReadWrite s hs))
  unfold Hook.decodes
  rw [hbody, hs.buffer, hs.size]
  split_ifs with h1 h2 h3
  · simp [Hook.payload, readWriteFields, h2, hlen]
  · rfl
  · simp [Hook.payload, readWriteFields, h2, clip, blankReadWrite]
  · rfl

theorem decodes_objectRead (hn : n < 2 ^ 64) (hs : Walk b n 32 s) :
    Hook.objectRead.decodes s =
      if 81 ≤ n then
        if b 80 ≠ 0 then
          if SizeT.add 81 (u64At b 72) ≤ n then
            some (.readWrite (readWriteFields b (.message 81)), [])
          else none
        else some (.readWrite (readWriteFields b .null), [])
      else none := by
  have hbody : decoded Hook.objectRead.blank.applySerializerDef s = _ :=
    (decoded_map MessageBody.readWrite _ s).trans
      (congrArg (Option.map MessageBody.readWrite) (decodes_readWrite hn blankReadWrite s hs))
  unfold Hook.decodes
  rw [hbody]
  split_ifs with h1 h2 h3 <;> rfl

theorem decodes_pingPong (hn : n < 2 ^ 64) (hs : Walk b n 32 s) :
    Hook.pingPong.decodes s =
      if 64 ≤ n then
        if 0 < u64At b 40 then
          if SizeT.add 64 (u64At b 40) ≤ n then
            some (.ping (pingFields b (.message 64)), clip b n (some (64, u64At b 40)))
          else none
        else some (.ping (pingFields b .null), [])
      else none := by
  have hlen : (uint64At b 40).toNat = u64At b 40 := toNat_decode_uint64 b 40
  have hbody : decoded Hook.pingPong.blank.applySerializerDef s = _ :=
    (decoded_map MessageBody.ping _ s).trans
      (congrArg (Option.map MessageBody.ping) (decodes_ping hn ⟨0, 0, ⟨0, 0⟩, .null⟩ s hs))
  unfold Hook.decodes
  rw [hbody, hs.buffer, hs.size]
  split_ifs with h1 h2 h3
  · simp [Hook.payload, pingFields, hlen]
  · rfl
  · rfl
  · rfl

theorem readWriteFields_congr (h : ∀ i, 32 ≤ i → i < 81 → b i = b' i) (p : Pointer) :
    readWriteFields b p = readWriteFields b' p := by
  unfold readWriteFields
  rw [int64At_congr fun j hj hj' => h j (by omega) (by omega),
    int64At_congr (i := 40) fun j hj hj' => h j (by omega) (by omega),
    uint64At_congr (i := 48) fun j hj hj' => h j (by omega) (by omega),
    uint64At_congr (i := 56) fun j hj hj' => h j (by omega) (by omega),
    uint64At_congr (i := 64) fun j hj hj' => h j (by omega) (by omega),
    uint64At_congr (i := 72) fun j hj hj' => h j (by omega) (by omega),
    h 80 (by decide) (by decide)]

theorem pingFields_congr (h : ∀ i, 32 ≤ i → i < 64 → b i = b' i) (p : Pointer) :
    pingFields b p = pingFields b' p := by
  unfold pingFields
  rw [uint64At_congr fun j hj hj' => h j (by omega) (by omega),
    uint64At_congr (i := 40) fun j hj hj' => h j (by omega) (by omega),
    uint64At_congr (i := 48) fun j hj hj' => h j (by omega) (by omega),
    uint64At_congr (i := 56) fun j hj hj' => h j (by omega) (by omega)]

/-- A length behind the fixed fields passes the check when it fits in the
buffer, and also when the sum wraps around. -/
theorem add_le_of_not {stop v : Nat} (hn : n < 2 ^ 64) (hroom : stop ≤ n) (hv : v < 2 ^ 64)
    (h : ¬ (n < stop + v ∧ stop + v < 2 ^ 64)) : SizeT.add stop v ≤ n := by
  unfold SizeT.add
  omega

theorem u64At_lt (b : ByteBuffer) (i : Nat) : u64At b i < 2 ^ 64 := by
  have h := LittleEndian.ofBytes_lt (b.slice i 8)
  rwa [ByteBuffer.length_slice] at h

/-- The flag of a read or write request is behind the message. -/
theorem not_same_of_flag {hook : Hook} (hroom : 81 ≤ n)
    (hshort : message.length < 81) (data : ByteBuffer → Pointer → List UInt8)
    (hvalue : ∀ {b : ByteBuffer} {s : SerializerBase}, Walk b n 32 s → hook.decodes s =
      if 81 ≤ n then
        if b 80 ≠ 0 then
          if SizeT.add 81 (u64At b 72) ≤ n then
            some (.readWrite (readWriteFields b (.message 81)), data b (.message 81))
          else none
        else some (.readWrite (readWriteFields b .null), data b .null)
      else none) : ¬ Same hook.decodes n message := by
  intro hsame
  have hs := fun x => walk_bodyDecoder (n := n)
    ((withByte (fun _ => 0) 80 x).put 0 message) (by omega)
  have hflag : ∀ x, (withByte (fun _ => 0) 80 x).put 0 message 80 = x := fun x =>
    withByte_put (by omega)
  have heq := hsame _ _ _ _ (hs 0) (hs 1)
  rw [hvalue (hs 0), hvalue (hs 1), if_pos hroom, if_pos hroom, if_neg (by simp [hflag]),
    if_pos (by rw [hflag]; decide)] at heq
  split_ifs at heq
  have hfields := MessageBody.readWrite.inj (Prod.mk.inj (Option.some.inj heq)).1
  have hhas := congrArg LibfabricObjReadWriteInfos.msgHasData hfields
  simp [readWriteFields, hflag] at hhas

theorem same_objectRead_iff (hn : n < 2 ^ 64) :
    Same Hook.objectRead.decodes n message ↔ Hook.objectRead.Covered n message := by
  constructor
  · intro hsame
    by_contra hnot
    obtain ⟨hroom, hshort⟩ : 81 ≤ n ∧ message.length < 81 := by
      simpa [Hook.Covered, Whole] using hnot
    exact not_same_of_flag hroom hshort (fun _ _ => []) (fun hs => decodes_objectRead hn hs) hsame
  · intro hcovered b b' s s' hs hs'
    rw [decodes_objectRead hn hs, decodes_objectRead hn hs']
    obtain hshort | hlong := hcovered
    · rw [if_neg (by omega), if_neg (by omega)]
    · have hbytes : ∀ i, i < 81 → b.put 0 message i = b'.put 0 message i := fun i hi =>
        put_of_lt (hi.trans_le hlong)
      rw [hbytes 80 (by decide), u64At_put b b' (by omega : 72 + 8 ≤ message.length),
        readWriteFields_congr fun i _ hi => hbytes i hi,
        readWriteFields_congr (p := .null) fun i _ hi => hbytes i hi]

theorem same_objectWrite_iff (hn : n < 2 ^ 64) (hlen : message.length ≤ n) (h32 : 32 ≤ n) :
    Same Hook.objectWrite.decodes n message ↔ Hook.objectWrite.Covered n message := by
  constructor
  · intro hsame
    by_contra hnot
    simp only [Hook.Covered, not_or, not_lt] at hnot
    obtain ⟨hroom, hnot⟩ := hnot
    by_cases hshort : message.length < 81
    · exact not_same_of_flag hroom hshort
        (fun b p => if p = .null then [] else clip b n (some (81, u64At b 72)))
        (fun hs => decodes_objectWrite hn hs) hsame
    -- the data goes on behind the message
    have hnot : ¬ (padded 0 message 80 = 0 ∨
        81 + u64At (padded 0 message) 72 ≤ message.length ∨ message.length = n ∨
        (n < 81 + u64At (padded 0 message) 72 ∧ 81 + u64At (padded 0 message) 72 < 2 ^ 64)) :=
      fun h => hnot ⟨by omega, h⟩
    push Not at hnot
    obtain ⟨hflag, hdata, hfull, hwrap⟩ := hnot
    have hsize : ∀ b : ByteBuffer, u64At (b.put 0 message) 72 = u64At (padded 0 message) 72 :=
      fun b => u64At_put _ _ (by omega)
    have hcheck : SizeT.add 81 (u64At (padded 0 message) 72) ≤ n :=
      add_le_of_not hn hroom (u64At_lt _ _) fun h => absurd (hwrap h.1) (by omega)
    have hs := fun x => walk_bodyDecoder (n := n)
      ((withByte (fun _ => 0) message.length x).put 0 message) h32
    have hvalue : ∀ b : ByteBuffer, b.put 0 message 80 = padded 0 message 80 := fun b =>
      put_of_lt (by omega)
    have heq := hsame _ _ _ _ (hs 0) (hs 1)
    rw [decodes_objectWrite hn (hs 0), decodes_objectWrite hn (hs 1), if_pos hroom, if_pos hroom,
      hvalue, hvalue, if_pos hflag, if_pos hflag, hsize, hsize, if_pos hcheck, if_pos hcheck] at heq
    exact clip_ne (by omega) hdata (by omega) (Prod.mk.inj (Option.some.inj heq)).2
  · intro hcovered b b' s s' hs hs'
    rw [decodes_objectWrite hn hs, decodes_objectWrite hn hs']
    obtain hshort | ⟨hlong, hcase⟩ := hcovered
    · rw [if_neg (by omega), if_neg (by omega)]
    · have hbytes : ∀ i, i < message.length → b.put 0 message i = b'.put 0 message i := fun i hi =>
        put_of_lt hi
      have hsize : ∀ b : ByteBuffer, u64At (b.put 0 message) 72 = u64At (padded 0 message) 72 :=
        fun b => u64At_put _ _ (by omega)
      have hflag : b'.put 0 message 80 = padded 0 message 80 := put_of_lt (by omega)
      rw [hbytes 80 (by omega), hsize, hsize, hflag,
        readWriteFields_congr fun i _ hi => hbytes i (by omega),
        readWriteFields_congr (p := .null) fun i _ hi => hbytes i (by omega)]
      obtain hzero | hin | hfull | ⟨hlarge, hlt⟩ := hcase
      · simp only [hzero, ne_eq, not_true_eq_false, if_false]
      · rw [clip_eq_of_lt fun i _ hi _ => hbytes i (by omega)]
      · rw [clip_eq_of_lt fun i _ _ hi => hbytes i (by omega)]
      · have hno : ¬ SizeT.add 81 (u64At (padded 0 message) 72) ≤ n := by
          rw [SizeT.add_eq hlt]
          omega
        simp only [hno, if_false]

/-! ### Pings -/

/-- A ping that is decoded and whose last byte is behind the message. -/
theorem not_same_of_key (hn : n < 2 ^ 64) (hroom : 64 ≤ n) (hshort : message.length < 64)
    (b : ByteBuffer) (hpass : SizeT.add 64 (u64At (b.put 0 message) 40) ≤ n) :
    ¬ Same Hook.pingPong.decodes n message := by
  intro hsame
  have hs := fun x => walk_bodyDecoder (n := n) ((withByte b 63 x).put 0 message) (by omega)
  have hother : ∀ x i, i ≠ 63 → (withByte b 63 x).put 0 message i = b.put 0 message i :=
    fun x i hi => withByte_put_of_ne hi
  have hsize : ∀ x, u64At ((withByte b 63 x).put 0 message) 40 = u64At (b.put 0 message) 40 :=
    fun x => u64At_congr fun j _ hj => hother x j (by omega)
  have hkey : uint64At ((withByte b 63 0).put 0 message) 56 ≠
      uint64At ((withByte b 63 1).put 0 message) 56 := uint64At_withByte_ne (i := 56) (by omega)
  have heq := hsame _ _ _ _ (hs 0) (hs 1)
  rw [decodes_pingPong hn (hs 0), decodes_pingPong hn (hs 1), if_pos hroom, if_pos hroom, hsize,
    hsize, if_pos hpass] at heq
  have hfields : ∀ {p p' : Pointer} {l l' : List UInt8},
      (some (MessageBody.ping (pingFields ((withByte b 63 0).put 0 message) p), l) :
        Option (MessageBody × List UInt8)) =
        some (MessageBody.ping (pingFields ((withByte b 63 1).put 0 message) p'), l') → False := by
    intro p p' l l' h
    have hping := MessageBody.ping.inj (Prod.mk.inj (Option.some.inj h)).1
    exact hkey (Iov.mk.inj (LibfabricPing.mk.inj hping).2.2.1).2
  split_ifs at heq
  · exact hfields heq
  · exact hfields heq

theorem u64At_mono {i : Nat} (h : ∀ k, (b k).toNat ≤ (b' k).toNat) : u64At b i ≤ u64At b' i := by
  refine LittleEndian.ofBytes_le (List.forall₂_iff_get.mpr ⟨by simp, fun k hk hk' => ?_⟩)
  simpa [ByteBuffer.slice] using h (i + k)

/-- A number whose first bytes are in the message is between the numbers with
the smallest and the largest bytes behind it. -/
theorem u64At_between (message : List UInt8) (b : ByteBuffer) (i : Nat) :
    u64At (padded 0 message) i ≤ u64At (b.put 0 message) i ∧
      u64At (b.put 0 message) i ≤ u64At (padded 255 message) i := by
  refine ⟨u64At_mono fun k => ?_, u64At_mono fun k => ?_⟩
  · by_cases hk : k < message.length
    · exact (congrArg UInt8.toNat (put_of_lt hk)).le
    · rw [put_of_le (not_lt.mp hk), padded, put_of_le (not_lt.mp hk)]
      exact Nat.zero_le _
  · by_cases hk : k < message.length
    · exact (congrArg UInt8.toNat (put_of_lt hk)).le
    · rw [put_of_le (not_lt.mp hk), padded, put_of_le (not_lt.mp hk)]
      exact Nat.le_of_lt_succ (b k).toNat_lt

theorem same_pingPong_iff (hn : n < 2 ^ 64) (hlen : message.length ≤ n) (h32 : 32 ≤ n) :
    Same Hook.pingPong.decodes n message ↔ Hook.pingPong.Covered n message := by
  constructor
  · intro hsame
    by_contra hnot
    simp only [Hook.Covered, not_or, not_lt] at hnot
    obtain ⟨hroom, hpass, hnot⟩ := hnot
    have hlt := u64At_lt (padded 0 message) 40
    have hlt' := u64At_lt (padded 255 message) 40
    by_cases hshort : message.length < 64
    · -- it is decoded after zeros, or after bytes that make the length wrap
      by_cases hzero : n < 64 + u64At (padded 0 message) 40
      · refine not_same_of_key hn hroom hshort (fun _ => 255) ?_ hsame
        exact add_le_of_not hn hroom hlt' fun h => hpass ⟨hzero, h.2⟩
      · refine not_same_of_key hn hroom hshort (fun _ => 0) ?_ hsame
        exact add_le_of_not hn hroom hlt fun h => hzero h.1
    -- the data goes on behind the message
    have hsize : ∀ b : ByteBuffer, u64At (b.put 0 message) 40 = u64At (padded 0 message) 40 :=
      fun b => u64At_put _ _ (by omega)
    have hsame255 : u64At (padded 255 message) 40 = u64At (padded 0 message) 40 := hsize _
    rw [hsame255] at hpass
    obtain ⟨hdata, hfull⟩ : ¬ 64 + u64At (padded 0 message) 40 ≤ message.length ∧
        ¬ message.length = n := not_or.mp fun h => hnot ⟨by omega, h⟩
    have hcheck : SizeT.add 64 (u64At (padded 0 message) 40) ≤ n := add_le_of_not hn hroom hlt hpass
    have hs := fun x => walk_bodyDecoder (n := n)
      ((withByte (fun _ => 0) message.length x).put 0 message) h32
    have hpos : 0 < u64At (padded 0 message) 40 := by omega
    have heq := hsame _ _ _ _ (hs 0) (hs 1)
    rw [decodes_pingPong hn (hs 0), decodes_pingPong hn (hs 1), hsize, hsize] at heq
    simp only [hroom, hpos, hcheck, if_true] at heq
    exact clip_ne (by omega) (by omega) (by omega) (Prod.mk.inj (Option.some.inj heq)).2
  · intro hcovered b b' s s' hs hs'
    rw [decodes_pingPong hn hs, decodes_pingPong hn hs']
    obtain hshort | ⟨hlarge, hlt⟩ | ⟨hlong, hcase⟩ := hcovered
    · rw [if_neg (by omega), if_neg (by omega)]
    · -- whatever is behind the message, the length is refused
      have hrefused : ∀ b : ByteBuffer, 64 ≤ n → 0 < u64At (b.put 0 message) 40 ∧
          ¬ SizeT.add 64 (u64At (b.put 0 message) 40) ≤ n := by
        intro b hroom
        obtain ⟨hlow, hhigh⟩ := u64At_between message b 40
        rw [SizeT.add_eq (by omega)]
        omega
      by_cases hroom : 64 ≤ n
      · simp only [hrefused b hroom, hrefused b' hroom, if_true, if_false]
      · rw [if_neg hroom, if_neg hroom]
    · have hbytes : ∀ i, i < message.length → b.put 0 message i = b'.put 0 message i := fun i hi =>
        put_of_lt hi
      have hsize : ∀ b : ByteBuffer, u64At (b.put 0 message) 40 = u64At (padded 0 message) 40 :=
        fun b => u64At_put _ _ (by omega)
      rw [hsize, hsize, pingFields_congr fun i _ hi => hbytes i (by omega),
        pingFields_congr (p := .null) fun i _ hi => hbytes i (by omega)]
      obtain hin | hfull := hcase
      · rw [clip_eq_of_lt fun i _ hi _ => hbytes i (by omega)]
      · rw [clip_eq_of_lt fun i _ _ hi => hbytes i (by omega)]

/-- Where the fixed fields of a hook without data end. -/
def Hook.fixedStop : Hook → Option Nat
  | .flush => some 64
  | .rangeRegister => some 65
  | .rangeUnregister => some 69
  | .objectCreate => some 48
  | .objectCow => some 81
  | .pingPong | .objectRead | .objectWrite => none

theorem Hook.takesLast_blank {hook : Hook} {stop : Nat} (h : hook.fixedStop = some stop) :
    TakesLast hook.blank.applySerializerDef 32 stop := by
  cases hook with
  | flush =>
    obtain rfl := Option.some.inj h
    exact .map (takesLast_flush _) fun _ _ => MessageBody.flush.inj
  | rangeRegister =>
    obtain rfl := Option.some.inj h
    exact .map (takesLast_registerRange _) fun _ _ => MessageBody.registerRange.inj
  | rangeUnregister =>
    obtain rfl := Option.some.inj h
    exact .map (takesLast_unregisterRange _) fun _ _ => MessageBody.unregisterRange.inj
  | objectCreate =>
    obtain rfl := Option.some.inj h
    exact .map (takesLast_create _) fun _ _ => MessageBody.create.inj
  | objectCow =>
    obtain rfl := Option.some.inj h
    exact .map (takesLast_cow _) fun _ _ => MessageBody.cow.inj
  | pingPong => cases h
  | objectRead => cases h
  | objectWrite => cases h

theorem Hook.payload_of_fixed {hook : Hook} {stop : Nat} (h : hook.fixedStop = some stop)
    (body : MessageBody) : hook.payload body = none := by
  cases hook <;> first | rfl | cases h

/-- **What a hook decodes is the same whatever the buffer contained** exactly
when the message covers it. -/
theorem Hook.same_iff (hook : Hook) (hn : n < 2 ^ 64) (hlen : message.length ≤ n) (h32 : 32 ≤ n) :
    Same hook.decodes n message ↔ hook.Covered n message := by
  have hfixed : ∀ {hook : Hook} {stop : Nat}, hook.fixedStop = some stop → 32 < stop →
      (Same hook.decodes n message ↔ Whole n stop message.length) := fun h hstop =>
    Hook.same_iff_of_fixed (Hook.takesLast_blank h) hstop (Hook.payload_of_fixed h) hn
  cases hook with
  | pingPong => exact same_pingPong_iff hn hlen h32
  | objectRead => exact same_objectRead_iff hn
  | objectWrite => exact same_objectWrite_iff hn hlen h32
  | _ => exact hfixed rfl (by decide)

/-- What is decoded is a function of the buffer. -/
theorem Hook.decodes_walk (hook : Hook) (hn : n < 2 ^ 64) (hs : Walk b n 32 s)
    (hs' : Walk b n 32 s') : hook.decodes s = hook.decodes s' := by
  have hfixed : ∀ {hook : Hook} {stop : Nat}, hook.fixedStop = some stop →
      hook.decodes s = hook.decodes s' := by
    intro hook stop h
    obtain ⟨f, hreads, -⟩ := Hook.takesLast_blank h
    unfold Hook.decodes
    rw [(hreads b n hn).decoded hs, (hreads b n hn).decoded hs', hs.buffer, hs.size, hs'.buffer,
      hs'.size]
  cases hook with
  | pingPong => rw [decodes_pingPong hn hs, decodes_pingPong hn hs']
  | objectRead => rw [decodes_objectRead hn hs, decodes_objectRead hn hs']
  | objectWrite => rw [decodes_objectWrite hn hs, decodes_objectWrite hn hs']
  | _ => exact hfixed rfl

-- ---------------------------------------------------------------------------
-- The header and what is behind it
-- ---------------------------------------------------------------------------

/-- The header is at the start of the receive buffer, if it has the room. -/
theorem headerOf_eq (c : Connection μ σ) (id : Nat) (hn : c.recvBuffersSize < 2 ^ 64)
    (h32 : 32 ≤ c.recvBuffersSize) :
    ∃ s, Walk (c.recvBuffers id) c.recvBuffersSize 32 s ∧
      c.headerOf id = .ok (headerAt (c.recvBuffers id), s) := by
  have hends := reads_header hn ⟨0, 0, 0, 0⟩ _ (Walk.new (c.recvBuffers id) c.recvBuffersSize)
  unfold Connection.headerOf runSerializer
  rw [if_neg (by omega)]
  cases hm : LibfabricMessageHeader.applySerializerDef ⟨0, 0, 0, 0⟩
      (.new (c.recvBuffers id) c.recvBuffersSize .unpack) with
  | error f => exact absurd ((Ends.of_error hm).mp hends) (by omega)
  | ok r =>
    obtain ⟨header, s⟩ := r
    obtain ⟨rfl, hs⟩ := (Ends.of_ok hm).mp hends
    exact ⟨s, hs, rfl⟩

theorem headerOf_error (c : Connection μ σ) (id : Nat) (h32 : c.recvBuffersSize < 32) :
    ∃ f, c.headerOf id = .error f := by
  unfold Connection.headerOf runSerializer
  split_ifs
  · exact ⟨_, rfl⟩
  · have hends := reads_header (by omega) ⟨0, 0, 0, 0⟩ _
      (Walk.new (c.recvBuffers id) c.recvBuffersSize)
    cases hm : LibfabricMessageHeader.applySerializerDef ⟨0, 0, 0, 0⟩
        (.new (c.recvBuffers id) c.recvBuffersSize .unpack) with
    | error f => exact ⟨f, rfl⟩
    | ok r =>
      obtain ⟨header, s⟩ := r
      obtain ⟨-, hs⟩ := (Ends.of_ok hm).mp hends
      exact absurd hs.inside (by omega)

theorem decodes_of_short {id : Nat} (h32 : c.recvBuffersSize < 32) : c.decodes id = .stopped := by
  obtain ⟨f, hf⟩ := headerOf_error c id h32
  unfold Connection.decodes
  rw [hf]

/-- The header is part of what is decoded. -/
def Decoded.head : Decoded → Option LibfabricMessageHeader
  | .stopped => none
  | .header h => some h
  | .body h _ => some h

theorem head_decodesBody (c : Connection μ σ) (header : LibfabricMessageHeader)
    (s : SerializerBase) : (c.decodesBody header s).head = some header := by
  unfold Connection.decodesBody
  split_ifs
  · rfl
  · rfl
  · cases findHook header.msgType <;> rfl
  · rfl

theorem decodesBody_walk (header : LibfabricMessageHeader) (hn : n < 2 ^ 64) (hs : Walk b n 32 s)
    (hs' : Walk b n 32 s') : c.decodesBody header s = c.decodesBody header s' := by
  have hinit : decoded (MessageBody.firstClientMessage ⟨fun _ => 0⟩).applySerializerDef s =
      decoded (MessageBody.firstClientMessage ⟨fun _ => 0⟩).applySerializerDef s' := by
    have hreads : Reads b n (MessageBody.firstClientMessage ⟨fun _ => 0⟩).applySerializerDef 32 64
      _ := .bind (reads_addr hn _) (.pure _) le_rfl
    rw [hreads.decoded hs, hreads.decoded hs']
  have hhook : ∀ hook : Hook, hook.decodes s = hook.decodes s' := fun hook =>
    hook.decodes_walk hn hs hs'
  simp only [Connection.decodesBody, hinit, hhook]

/-- Behind one header, the same is decoded exactly when the message covers the
body. -/
theorem sameBody_iff (header : LibfabricMessageHeader) (hn : c.recvBuffersSize < 2 ^ 64)
    (hlen : message.length ≤ c.recvBuffersSize) (h32 : 32 ≤ c.recvBuffersSize) :
    Same (c.decodesBody header) c.recvBuffersSize message ↔ c.BodyCovered header message := by
  unfold Connection.decodesBody Connection.BodyCovered
  split_ifs with hinit hcontrol haccepts
  · have htakes : TakesLast (MessageBody.firstClientMessage ⟨fun _ => 0⟩).applySerializerDef 32
        64 := .map (takesLast_firstClientMessage _) fun _ _ => MessageBody.firstClientMessage.inj
    rw [← same_iff_whole htakes (by decide) hn]
    have hinj : Function.Injective fun body : MessageBody => (body, ([] : List UInt8)) :=
      fun _ _ h => congrArg Prod.fst h
    constructor
    · intro h b b' s s' hs hs'
      exact Option.map_injective hinj (Decoded.body.inj (h b b' s s' hs hs')).2
    · intro h b b' s s' hs hs'
      exact congrArg (fun r => Decoded.body header (r.map (·, []))) (h b b' s s' hs hs')
  · exact iff_true_intro fun _ _ _ _ _ _ => rfl
  · cases findHook header.msgType with
    | none => exact iff_true_intro fun _ _ _ _ _ _ => rfl
    | some hook =>
      refine Iff.trans ?_ (Hook.same_iff hook hn hlen h32)
      constructor
      · intro h b b' s s' hs hs'
        exact (Decoded.body.inj (h b b' s s' hs hs')).2
      · intro h b b' s s' hs hs'
        exact congrArg (Decoded.body header) (h b b' s s' hs hs')
  · exact iff_true_intro fun _ _ _ _ _ _ => rfl

/-- The message in a buffer with this content. -/
theorem decodes_delivered (c : Connection μ σ) (id : Nat) (message : List UInt8)
    (leftover : ByteBuffer) (hn : c.recvBuffersSize < 2 ^ 64)
    (h32 : 32 ≤ c.recvBuffersSize) :
    ∃ s, Walk (leftover.put 0 message) c.recvBuffersSize 32 s ∧
      ((c.withLeftover id leftover).deliver id message).decodes id =
        c.decodesBody (headerAt (leftover.put 0 message)) s := by
  have hbuffer : ((c.withLeftover id leftover).deliver id message).recvBuffers id =
      leftover.put 0 message := by
    simp [Connection.deliver, Connection.withLeftover]
  obtain ⟨s, hs, hheader⟩ := headerOf_eq ((c.withLeftover id leftover).deliver id message) id
    hn h32
  rw [hbuffer] at hs hheader
  refine ⟨s, hs, ?_⟩
  unfold Connection.decodes
  rw [hheader]
  rfl

theorem headerAt_put (h : 32 ≤ message.length) (leftover : ByteBuffer) :
    headerAt (leftover.put 0 message) = headerAt (padded 0 message) := by
  unfold headerAt
  rw [uint64At_congr fun j _ hj => put_of_lt (hj.trans_le (by omega)),
    uint64At_congr (i := 8) fun j _ hj => put_of_lt (hj.trans_le (by omega)),
    uint64At_congr (i := 16) fun j _ hj => put_of_lt (hj.trans_le (by omega)),
    uint64At_congr (i := 24) fun j _ hj => put_of_lt (hj.trans_le (by omega))]
  rfl

/-- **What is decoded from a message is the same whatever its receive buffer
contained** exactly when the message covers it. -/
theorem decodes_same_iff (id : Nat) (hn : c.recvBuffersSize < 2 ^ 64)
    (hlen : message.length ≤ c.recvBuffersSize) :
    (∀ leftover leftover' : ByteBuffer,
      ((c.withLeftover id leftover).deliver id message).decodes id =
        ((c.withLeftover id leftover').deliver id message).decodes id) ↔ c.Covered message := by
  by_cases h32 : c.recvBuffersSize < 32
  · refine iff_of_true (fun leftover leftover' => ?_) (Or.inl h32)
    rw [decodes_of_short (c := (c.withLeftover id leftover).deliver id message) h32,
      decodes_of_short (c := (c.withLeftover id leftover').deliver id message) h32]
  have h32 : 32 ≤ c.recvBuffersSize := not_lt.mp h32
  by_cases hshort : message.length < 32
  · -- the last byte of the header is behind the message
    refine iff_of_false (fun hsame => ?_) fun hcovered => ?_
    · obtain ⟨s, -, hs⟩ := decodes_delivered c id message
        (withByte (fun _ => 0) 31 0) hn h32
      obtain ⟨s', -, hs'⟩ := decodes_delivered c id message
        (withByte (fun _ => 0) 31 1) hn h32
      have heq := congrArg Decoded.head (hsame (withByte (fun _ => 0) 31 0)
        (withByte (fun _ => 0) 31 1))
      rw [hs, hs', head_decodesBody, head_decodesBody] at heq
      have hne : uint64At ((withByte (fun _ => 0) 31 0).put 0 message) 24 ≠
          uint64At ((withByte (fun _ => 0) 31 1).put 0 message) 24 :=
        uint64At_withByte_ne (i := 24) (by omega)
      have hkey := congrArg LibfabricMessageHeader.tcpClientKey (Option.some.inj heq)
      simp only [headerAt] at hkey
      exact hne hkey
    · obtain hsize | ⟨hwhole, -⟩ := hcovered <;> omega
  · have hwhole : 32 ≤ message.length := not_lt.mp hshort
    unfold Connection.Covered
    rw [or_iff_right (not_lt.mpr h32), and_iff_right hwhole, ← sameBody_iff _ hn hlen h32]
    constructor
    · intro hsame b b' s s' hs hs'
      obtain ⟨t, ht, hdec⟩ := decodes_delivered c id message b hn h32
      obtain ⟨t', ht', hdec'⟩ := decodes_delivered c id message b' hn h32
      have heq := hsame b b'
      rw [hdec, hdec', headerAt_put hwhole, headerAt_put hwhole] at heq
      rw [decodesBody_walk _ hn hs ht, heq, decodesBody_walk _ hn hs' ht']
    · intro hsame leftover leftover'
      obtain ⟨s, hs, hdec⟩ := decodes_delivered c id message leftover hn h32
      obtain ⟨s', hs', hdec'⟩ := decodes_delivered c id message leftover' hn h32
      rw [hdec, hdec', headerAt_put hwhole, headerAt_put hwhole]
      exact hsame _ _ s s' hs hs'

-- ---------------------------------------------------------------------------
-- The same decoding has the same end
-- ---------------------------------------------------------------------------

variable {request : LibfabricClientRequest} {d : SerializerBase}

theorem twins_onConnInit (h : c.Alike c')
    (hpop : decoded (LibfabricFirstClientMessage.applySerializerDef ⟨fun _ => 0⟩)
      request.deserializer =
      decoded (LibfabricFirstClientMessage.applySerializerDef ⟨fun _ => 0⟩) d) :
    Twins Connection.Alike (onConnInit request) c
      (onConnInit { request with deserializer := d }) c' := by
  refine twins_pop_bind hpop fun first _ => .get_bind ?_
  obtain ⟨s, hs, f⟩ := h
  refine .ite (fun _ => .throw _ _) fun _ => ?_
  refine .bind (.modify (.of_eq hs rfl)) fun _ c₁ c₁' h₁ => ?_
  exact .bind (twins_sendMessage h₁ _ _ _ _) fun _ _ _ h₂ => twins_repostReceive h₂ _

theorem eq_of_assertThat {p : Prop} [Decidable p] {a : Unit}
    (h : assertThat p c = .ok (a, c')) : c' = c := by
  have hends : Ends (assertThat p) c (fun _ c' => c' = c) fun _ => True := by
    simp only [assertThat, Ends.ite_iff, Ends.pure_iff, Ends.throw_iff]
    split_ifs
  exact (Ends.of_ok h).mp hends

theorem twins_checkAuth (h : c.Alike c') (header : LibfabricMessageHeader) (lfClientId : UInt64) :
    Twins Connection.Alike (checkAuth header lfClientId) c (checkAuth header lfClientId) c' := by
  obtain ⟨s, hs, f⟩ := h
  refine .get_bind (.ite (fun _ => .pure _ (.mk s hs f)) fun _ => ?_)
  refine .ite (fun _ => .pure _ (.mk s hs f)) fun _ => ?_
  exact .bind (twins_sendMessage (.mk s hs f) _ _ _ _) fun _ _ _ h₁ => .pure _ h₁

/-- A request the check lets pass has valid credentials, and nothing was sent. -/
theorem accepts_of_checkAuth {header : LibfabricMessageHeader} {lfClientId : UInt64}
    (h : checkAuth header lfClientId c = .ok (true, c')) : c.Accepts header ∧ c' = c := by
  have hends : Ends (checkAuth header lfClientId) c
      (fun a c' => a = true → c.Accepts header ∧ c' = c) fun _ => True := by
    rw [ends_checkAuth]
    split_ifs with haccepts
    · exact fun _ => ⟨haccepts, rfl⟩
    · exact (moves_sendMessage _ _ _ _ _).mono (fun _ _ _ hfalse => absurd hfalse (by decide))
        fun _ _ => trivial
  exact (Ends.of_ok h).mp hends rfl

/-- The error report of a peer stops the process, whatever its text. -/
theorem fatalError_stops (c : Connection μ σ) (request : LibfabricClientRequest) :
    ∃ f, (request.pop (LibfabricErrorMessage.applySerializerDef ⟨[]⟩) >>= fun m =>
      (throw (.serverError m.errorMessage) : ConnectionM μ σ Unit)) c = .error f := by
  unfold LibfabricClientRequest.pop
  cases LibfabricErrorMessage.applySerializerDef ⟨[]⟩ request.deserializer <;> exact ⟨_, rfl⟩

/-- What is decoded behind the header is all that the dispatch uses of the
message. -/
theorem twins_dispatch (h : c.Alike c') (hwf : Wf B 1 c.server.container)
    (hon : OnBuffers request d c c')
    (hdec : c.decodesBody request.header request.deserializer = c.decodesBody request.header d)
    (outside : Outside) :
    Twins Connection.Alike (dispatch B request outside) c
      (dispatch B { request with deserializer := d } outside) c' := by
  unfold Connection.decodesBody at hdec
  unfold dispatch
  by_cases hinit : request.header.msgType = LibfabricMessageType.connectInit.code
  · rw [if_pos hinit, if_pos hinit] at hdec
    rw [if_pos hinit, if_pos hinit]
    have hinj : Function.Injective fun body : MessageBody => (body, ([] : List UInt8)) :=
      fun _ _ h => congrArg Prod.fst h
    exact twins_onConnInit h (decoded_eq_of_map (fun _ _ => MessageBody.firstClientMessage.inj)
      (Option.map_injective hinj (Decoded.body.inj hdec).2))
  rw [if_neg hinit, if_neg hinit] at hdec
  rw [if_neg hinit, if_neg hinit]
  refine .ite (fun _ => ?_) fun hbad => .ite (fun _ => ?_) fun hfatal => ?_
  · refine .get_bind ?_
    have hhook : c'.hookOnBadAuth = c.hookOnBadAuth := by
      cases h
      rfl
    rw [hhook]
    exact .ite (fun _ => twins_repostReceive h _) fun _ => .throw _ _
  · obtain ⟨f, hf⟩ := fatalError_stops c request
    obtain ⟨f', hf'⟩ := fatalError_stops c' { request with deserializer := d }
    exact .of_error hf hf'
  · refine (twins_checkAuth h _ _).bind_of_ok fun ok c₁ c₁' hok hok' h₁ => ?_
    cases ok with
    | false => exact .pure _ h₁
    | true =>
      obtain ⟨haccepts, rfl⟩ := accepts_of_checkAuth hok
      obtain ⟨-, rfl⟩ := accepts_of_checkAuth hok'
      rw [if_neg (not_or.mpr ⟨hbad, hfatal⟩), if_neg (not_or.mpr ⟨hbad, hfatal⟩), if_pos haccepts,
        if_pos haccepts] at hdec
      dsimp only
      cases hhook : findHook request.header.msgType with
      | none => exact .throw _ _
      | some hook =>
        rw [hhook] at hdec
        exact twins_hook h₁ hwf hon (Decoded.body.inj hdec).2 outside

/-- **The same decoding has the same end**, from two connections that differ
only in what their receive buffers contain. -/
theorem twins_onRecv {id : Nat} (h : c.Alike c') (hwf : Wf B 1 c.server.container)
    (hn : c.recvBuffersSize < 2 ^ 64) (hdec : c.decodes id = c'.decodes id) (outside : Outside) :
    Twins Connection.Alike (onRecv B id outside) c (onRecv B id outside) c' := by
  have hsize := h.recvBuffersSize
  have hcount : c'.recvBuffersCount = c.recvBuffersCount := by
    cases h
    rfl
  refine .get_bind (.bind_of_ok (twins_assertThat h (by rw [hcount]))
    fun _ c₁ c₁' hok hok' h₁ => ?_)
  obtain ⟨rfl, rfl⟩ : c₁ = c ∧ c₁' = c' := ⟨eq_of_assertThat hok, eq_of_assertThat hok'⟩
  show Twins _ (liftSerializer (c₁.headerOf id) >>= _) _ (liftSerializer (c₁'.headerOf id) >>= _) _
  by_cases h32 : c₁.recvBuffersSize < 32
  · obtain ⟨f, hf⟩ := headerOf_error c₁ id h32
    obtain ⟨f', hf'⟩ := headerOf_error c₁' id (hsize ▸ h32)
    have hstop : ∀ {α β : Type} (f : SerializerFault) (k : α → ConnectionM μ σ β)
        (c : Connection μ σ), (liftSerializer (.error f) >>= k) c = .error (.serializer f) :=
      fun _ _ _ => rfl
    rw [hf, hf']
    exact .of_error (hstop f _ _) (hstop f' _ _)
  obtain ⟨s, hs, hheader⟩ := headerOf_eq c₁ id hn (not_lt.mp h32)
  obtain ⟨s', hs', hheader'⟩ := headerOf_eq c₁' id (hsize ▸ hn) (hsize ▸ not_lt.mp h32)
  unfold Connection.decodes at hdec
  rw [hheader, hheader'] at hdec
  dsimp only at hdec
  have hbody : c₁'.decodesBody = c₁.decodesBody := by
    cases h
    rfl
  have hhead := congrArg Decoded.head hdec
  rw [head_decodesBody, head_decodesBody] at hhead
  have hhead := Option.some.inj hhead
  rw [hbody, ← hhead] at hdec
  rw [hheader, hheader', ← hhead]
  generalize headerAt (c₁.recvBuffers id) = header at hdec
  have hdispatch : Twins Connection.Alike (dispatch B ⟨header.lfClientId, id, header, s⟩ outside) c₁
      (dispatch B ⟨header.lfClientId, id, header, s'⟩ outside) c₁' :=
    twins_dispatch h hwf ⟨hs.buffer, hs.size, hs'.buffer, hs'.size⟩ hdec outside
  exact hdispatch

-- ---------------------------------------------------------------------------
-- The result
-- ---------------------------------------------------------------------------

theorem sameEnd_of_twins {m m' : ConnectionM μ σ Unit} {d d' : Connection μ σ}
    (h : Twins Connection.Alike m d m' d') :
    SameEnd ((m d).map Prod.snd) ((m' d').map Prod.snd) := by
  unfold Twins at h
  cases hm : m d with
  | error f =>
    cases hm' : m' d' with
    | error f' => trivial
    | ok r' =>
      rw [hm, hm'] at h
      exact h.elim
  | ok r =>
    cases hm' : m' d' with
    | error f' =>
      rw [hm, hm'] at h
      exact h.elim
    | ok r' =>
      rw [hm, hm'] at h
      exact h.2

/-- **A message is decoded only from its own bytes exactly when it covers what
is decoded.** In every state the server can reach, for every receive buffer and
every message that fits in it: whatever the buffer contained, the same header,
fields and data are decoded, and the message has the same effect. -/
theorem independent_iff {A size count msgBufferSize : Nat} {check auth : Bool} {s₀ : Server μ σ}
    (hinit : Server.Initial B A check s₀) (recvBuffers : Nat → ByteBuffer)
    (fiAvInsert : (Fin maxAddrLen → UInt8) → Bool) (hsize : size < 2 ^ 64)
    (hrun : Run (Connection.Step B) (fun _ _ => True)
      (Connection.postReceives s₀ size count msgBufferSize auth recvBuffers fiAvInsert) c)
    (id : Nat) {message : List UInt8} (hlen : message.length ≤ c.recvBuffersSize)
    (outside : Outside) :
    Independent B c id message outside ↔ c.Covered message := by
  have hn : c.recvBuffersSize < 2 ^ 64 :=
    hrun.invariant (I := fun c => c.recvBuffersSize < 2 ^ 64) hsize fun h _ hstep =>
      (recvBuffersSize_step hstep).trans_lt h
  have hwf : Wf B 1 c.server.container := Server.wf_run hinit (advances_run hrun)
  rw [← decodes_same_iff id hn hlen]
  refine ⟨fun h leftover leftover' => (h leftover leftover').1, fun h leftover leftover' =>
    ⟨h leftover leftover', ?_⟩⟩
  unfold Connection.exec
  dsimp only
  by_cases hposted : id ∈ c.posted ∧ message.length ≤ c.recvBuffersSize
  · have hin : ∀ leftover, id ∈ (c.withLeftover id leftover).posted ∧
        message.length ≤ (c.withLeftover id leftover).recvBuffersSize := fun _ => hposted
    rw [if_pos (hin leftover), if_pos (hin leftover')]
    have halike : ((c.withLeftover id leftover).deliver id message).Alike
        ((c.withLeftover id leftover').deliver id message) := .of_eq (.refl _) rfl
    exact sameEnd_of_twins (twins_onRecv halike hwf hn (h leftover leftover') outside)
  · have hout : ∀ leftover, ¬ (id ∈ (c.withLeftover id leftover).posted ∧
        message.length ≤ (c.withLeftover id leftover).recvBuffersSize) := fun _ => hposted
    rw [if_neg (hout leftover), if_neg (hout leftover')]
    trivial

/-- A server with two large receive buffers that checks no credentials. -/
def largeBuffers : Connection Malloc (ObjectId → Bytes) :=
  Connection.postReceives (.new (.new 0 (.fresh 0) fun _ _ => 0) false) 4096 2 64 false
    (fun _ _ => 0) fun _ => true

/-- A flush of the object 0:0 is independent of what was in its buffer. -/
theorem flush_independent : largeBuffers.Covered (shortMessage 103 0 0 0) ∧
    Independent localBackends largeBuffers 0 (shortMessage 103 0 0 0) noOutside := by
  have hcovered : largeBuffers.Covered (shortMessage 103 0 0 0) := by
    refine Or.inr ⟨by decide, ?_⟩
    have hhook : findHook (headerAt (padded 0 (shortMessage 103 0 0 0))).msgType = some .flush := by
      decide +kernel
    unfold Connection.BodyCovered
    rw [if_neg (by decide +kernel), if_neg (by decide +kernel), if_pos (by decide +kernel), hhook]
    exact Or.inr (by decide)
  exact ⟨hcovered, (independent_iff ⟨_, _, Memory.valid_fresh 0, rfl, rfl⟩ _ _ (by decide)
    Run.start 0 (by decide) noOutside).mpr hcovered⟩

/-- The 81 bytes of an eager write of 4 bytes, without the data. -/
def truncatedWrite : List UInt8 :=
  [101, 0, 0, 0, 0, 0, 0, 0, 0].flatMap (fun b => b :: List.replicate 7 0) ++
    [4, 0, 0, 0, 0, 0, 0, 0] ++ [1]

/-- The data of a truncated write is what an earlier message left. -/
theorem truncatedWrite_reads_leftover :
    ¬ Independent localBackends largeBuffers 0 truncatedWrite noOutside := by
  intro h
  have hsame := (h (fun _ => 7) fun _ => 8).1
  revert hsame
  decide +kernel

end IoCatcher.Network
