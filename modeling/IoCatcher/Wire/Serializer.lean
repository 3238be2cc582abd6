import IoCatcher.Lib.LittleEndian
import IoCatcher.Lib.Outcome
import IoCatcher.Model.Backends

/-!
# IO Catcher — the serializer

`SerializerBase`: one walk over the fields of a message, that writes them in
the message (`pack`), reads them from it (`unpack`) or only counts the bytes
(`size`). Every operation takes the current value of a field and returns the
value the field has afterwards.

The checks of the source are kept as they are computed: `checkSize` adds the
cursor and the size in `size_t`, so the sum may wrap. What happens after a check
that should have failed is modelled too: an access outside the message, which is
undefined in C++, is the fault `outOfBounds`, and a pointer handed out by
`serializeOrPoint` is recorded whatever its length.

`SERIALIZER_STRINGIFY` only prints the fields for the debug messages and is left
out.
-/

namespace IoCatcher.Wire

/-! ## State and faults -/

/-- What the walk does (`SerializerAction`). -/
inductive SerializerAction where
  | pack
  | unpack
  | size
  deriving DecidableEq, Repr

/-- Why a walk stops. -/
inductive SerializerFault where
  /-- "Buffer is too small to get the new entry (%1) for field %2, size is %3,
  requested is %4". -/
  | bufferTooSmall (entry : Nat) (fieldName : String) (size requested : Nat)
  /-- "Got a non null terminated string for field %1 !". -/
  | notTerminated (fieldName : String)
  /-- An `assert` of the source. -/
  | assertion
  /-- An access outside the message or outside a block given to pack. -/
  | outOfBounds
  deriving DecidableEq, Repr

/-- A `char *` of a message struct. -/
inductive Pointer where
  | null
  /-- A block of memory that is not in the message, with its bytes. -/
  | block (bytes : List UInt8)
  /-- A place in the message being decoded. -/
  | message (index : Nat)
  deriving DecidableEq, Repr

/-- The first `n` bytes of the block a pointer designates, if it has them. -/
def Pointer.load : Pointer → Nat → Option (List UInt8)
  | .null, n => if n = 0 then some [] else none
  | .block bytes, n => if n ≤ bytes.length then some (bytes.take n) else none
  | .message _, _ => none

/-- The serializer (`SerializerBase`). The last two fields are a record of the
walk: the cursors it went through, and the blocks it handed out, each as an
index and a length. -/
structure SerializerBase where
  buffer  : ByteBuffer
  size    : Nat
  cursor  : Nat
  action  : SerializerAction
  cursors : List Nat
  blocks  : List (Nat × Nat)

/-- A computation of the serializer. -/
abbrev SerializerM := StateT SerializerBase (Except SerializerFault)

namespace SerializerBase

/-- The constructor. `pack` and `unpack` assert that the buffer is not empty. -/
def new (buffer : ByteBuffer) (size : Nat) (action : SerializerAction) : SerializerBase :=
  ⟨buffer, size, 0, action, [], []⟩

/-- `cursor += n`. -/
def advance (s : SerializerBase) (n : Nat) : SerializerBase :=
  { s with
    cursor := SizeT.add s.cursor n
    cursors := s.cursors ++ [SizeT.add s.cursor n] }

end SerializerBase

/-- `SerializerBase::checkSize`. -/
def checkSize (fieldName : String) (size : Nat) : SerializerM Unit := do
  let s ← get
  let requested := SizeT.add s.cursor size
  if requested ≤ s.size then pure ()
  else throw (.bufferTooSmall size fieldName s.size requested)

/-- `memcpy` from a block to the message, at the cursor. -/
def memcpyTo (bytes : List UInt8) : SerializerM Unit := do
  let s ← get
  if s.cursor + bytes.length ≤ s.size then
    modify fun s => { s with buffer := s.buffer.put s.cursor bytes }
  else throw .outOfBounds

/-- `memcpy` of `n` bytes from the message, at the cursor. -/
def memcpyFrom (n : Nat) : SerializerM (List UInt8) := do
  let s ← get
  if s.cursor + n ≤ s.size then pure (s.buffer.slice s.cursor n)
  else throw .outOfBounds

/-- Read the first `n` bytes of a block given to pack. -/
def loadBlock (buffer : Pointer) (n : Nat) : SerializerM (List UInt8) :=
  match buffer.load n with
  | some bytes => pure bytes
  | none => throw .outOfBounds

/-! ## Scalars -/

/-- A C++ scalar as `memcpy` moves it: its size in bytes, and its bytes as a
little-endian number. -/
structure Scalar (α : Type) where
  width : Nat
  toNat : α → Nat
  ofNat : Nat → α
  toNat_lt : ∀ v, toNat v < 256 ^ width
  ofNat_toNat : ∀ v, ofNat (toNat v) = v

namespace Scalar

/-- `bool`: any byte but 0 is read as true. -/
def bool : Scalar Bool where
  width := 1
  toNat := Bool.toNat
  ofNat n := n ≠ 0
  toNat_lt v := by cases v <;> decide
  ofNat_toNat v := by cases v <;> decide

/-- `uint32_t`. -/
def uint32 : Scalar UInt32 where
  width := 4
  toNat := UInt32.toNat
  ofNat := UInt32.ofNat
  toNat_lt v := v.toNat_lt
  ofNat_toNat _ := UInt32.ofNat_toNat

/-- `int32_t`. -/
def int32 : Scalar Int32 where
  width := 4
  toNat v := v.toUInt32.toNat
  ofNat n := (UInt32.ofNat n).toInt32
  toNat_lt v := v.toUInt32.toNat_lt
  ofNat_toNat v := by simp

/-- `uint64_t`. -/
def uint64 : Scalar UInt64 where
  width := 8
  toNat := UInt64.toNat
  ofNat := UInt64.ofNat
  toNat_lt v := v.toNat_lt
  ofNat_toNat _ := UInt64.ofNat_toNat

/-- `int64_t`. -/
def int64 : Scalar Int64 where
  width := 8
  toNat v := v.toUInt64.toNat
  ofNat n := (UInt64.ofNat n).toInt64
  toNat_lt v := v.toUInt64.toNat_lt
  ofNat_toNat v := by simp

variable {α : Type}

/-- The bytes of a value. -/
def encode (c : Scalar α) (v : α) : List UInt8 := LittleEndian.toBytes c.width (c.toNat v)

/-- The value some bytes stand for. -/
def decode (c : Scalar α) (bytes : List UInt8) : α := c.ofNat (LittleEndian.ofBytes bytes)

@[simp] theorem length_encode (c : Scalar α) (v : α) : (c.encode v).length = c.width :=
  LittleEndian.length_toBytes ..

@[simp] theorem decode_encode (c : Scalar α) (v : α) : c.decode (c.encode v) = v := by
  unfold decode encode
  rw [LittleEndian.ofBytes_toBytes, Nat.mod_eq_of_lt (c.toNat_lt v), c.ofNat_toNat]

end Scalar

/-- `SerializerBase::apply` on a scalar: the five overloads are one text, with
the type of the value. -/
def applyScalar {α : Type} (c : Scalar α) (fieldName : String) (value : α) : SerializerM α := do
  checkSize fieldName c.width
  let s ← get
  let value ← match s.action with
    | .pack => do
      memcpyTo (c.encode value)
      pure value
    | .unpack => do
      let bytes ← memcpyFrom c.width
      pure (c.decode bytes)
    -- no data movement
    | .size => pure value
  modify (·.advance c.width)
  pure value

/-- `SerializerBase::apply(bool &)`. -/
def applyBool (fieldName : String) (value : Bool) : SerializerM Bool :=
  applyScalar Scalar.bool fieldName value

/-- `SerializerBase::apply(uint32_t &)`. -/
def applyUInt32 (fieldName : String) (value : UInt32) : SerializerM UInt32 :=
  applyScalar Scalar.uint32 fieldName value

/-- `SerializerBase::apply(int32_t &)`. -/
def applyInt32 (fieldName : String) (value : Int32) : SerializerM Int32 :=
  applyScalar Scalar.int32 fieldName value

/-- `SerializerBase::apply(int64_t &)`. -/
def applyInt64 (fieldName : String) (value : Int64) : SerializerM Int64 :=
  applyScalar Scalar.int64 fieldName value

/-- `SerializerBase::apply(uint64_t &)`. -/
def applyUInt64 (fieldName : String) (value : UInt64) : SerializerM UInt64 :=
  applyScalar Scalar.uint64 fieldName value

/-! ## Blocks and strings -/

/-- `SerializerBase::apply(void *, size_t)`: copy a block to or from the
message. -/
def applyRaw (fieldName : String) (buffer : Pointer) (size : Nat) : SerializerM Pointer := do
  if buffer = .null then throw .assertion
  checkSize fieldName size
  let s ← get
  let buffer ← match s.action with
    | .pack => do
      let bytes ← loadBlock buffer size
      memcpyTo bytes
      pure buffer
    | .unpack => do
      let bytes ← memcpyFrom size
      -- the block is overwritten in place, so it has to have the room
      match buffer with
      | .block old =>
        if size ≤ old.length then pure (.block (bytes ++ old.drop size)) else throw .outOfBounds
      | _ => throw .outOfBounds
    | .size => pure buffer
  modify (·.advance size)
  pure buffer

/-- `SerializerBase::serializeOrPoint`: `unpack` copies nothing and points into
the message. -/
def serializeOrPoint (fieldName : String) (buffer : Pointer) (size : Nat) :
    SerializerM Pointer := do
  checkSize fieldName size
  let s ← get
  let buffer ← match s.action with
    | .pack => do
      let bytes ← loadBlock buffer size
      memcpyTo bytes
      pure buffer
    | .unpack => do
      modify fun s => { s with blocks := s.blocks ++ [(s.cursor, size)] }
      pure (.message s.cursor)
    | .size => pure buffer
  modify (·.advance size)
  pure buffer

/-- The C string from index `i` on, looking at no more than `fuel` bytes; none
when the terminator is not among them. -/
def cString (buffer : ByteBuffer) : (i fuel : Nat) → Option (List UInt8)
  | _, 0 => none
  | i, fuel + 1 =>
    if buffer i = 0 then some [] else (cString buffer (i + 1) fuel).map (buffer i :: ·)

/-- `SerializerBase::apply(const std::string &)`: the length, terminator
included, then the characters and the terminator. -/
def packString (fieldName : String) (value : List UInt8) : SerializerM Unit := do
  let len := UInt64.ofNat (value.length + 1)
  checkSize fieldName (SizeT.add 4 len.toNat)
  let _ ← applyUInt64 fieldName len
  let _ ← applyRaw fieldName (.block (value ++ [0])) len.toNat

/-- The characters of a string of `len` bytes at the cursor. -/
def loadString (fieldName : String) (len : UInt64) : SerializerM (List UInt8) := do
  checkSize fieldName len.toNat
  let s ← get
  -- `str[len - 1]`: the index wraps around like the sum of the check
  let last := SizeT.sub (SizeT.add s.cursor len.toNat) 1
  if s.size ≤ last then throw .outOfBounds
  if s.buffer last ≠ 0 then throw (.notTerminated fieldName)
  -- `value = str` reads up to the first terminator, wherever it is
  match cString s.buffer s.cursor (s.size - s.cursor) with
  | none => throw .outOfBounds
  | some value =>
    modify (·.advance len.toNat)
    pure value

/-- `SerializerBase::apply(std::string &)`. -/
def applyString (fieldName : String) (value : List UInt8) : SerializerM (List UInt8) := do
  let s ← get
  match s.action with
  | .pack => do
    packString fieldName value
    pure value
  | .unpack => do
    let len ← applyUInt64 fieldName 0
    loadString fieldName len
  -- no data movement, and the cursor does not move either
  | .size => pure value

end IoCatcher.Wire
