import Mathlib.Algebra.Order.Ring.Nat
import Mathlib.Data.List.GetD
import Mathlib.Tactic.Common

/-!
# Little-endian numbers and byte buffers

`toBytes n v` lays a number out on `n` bytes, least significant byte first, and
`ofBytes` reads one back: `ofBytes_toBytes` says that `n` bytes hold a number
modulo `256 ^ n`.

A buffer is a function from indices to bytes; `put` stores a list of bytes at
an index and `slice` reads one. `Holds buffer i bs` says that the buffer has
the bytes `bs` at index `i`: a `put` makes it true, and a later `put` that does
not touch the range keeps it.
-/

namespace LittleEndian

/-- The `n` low bytes of `v`, least significant first. -/
def toBytes : Nat → Nat → List UInt8
  | 0, _ => []
  | n + 1, v => UInt8.ofNat v :: toBytes n (v / 256)

/-- The number a list of bytes stands for. -/
def ofBytes : List UInt8 → Nat
  | [] => 0
  | b :: bs => b.toNat + 256 * ofBytes bs

@[simp] theorem length_toBytes (n v : Nat) : (toBytes n v).length = n := by
  induction n generalizing v with
  | zero => rfl
  | succ n ih => simp [toBytes, ih]

theorem ofBytes_toBytes (n v : Nat) : ofBytes (toBytes n v) = v % 256 ^ n := by
  induction n generalizing v with
  | zero => simp [toBytes, ofBytes, Nat.mod_one]
  | succ n ih =>
    -- the low digit is a remainder, and the rest a remainder of the quotient
    have hlow : (UInt8.ofNat v).toNat = v % 256 := by simp
    rw [toBytes, ofBytes, ih, hlow, pow_succ, mul_comm (256 ^ n), Nat.mod_mul]

theorem ofBytes_lt (bs : List UInt8) : ofBytes bs < 256 ^ bs.length := by
  induction bs with
  | nil => simp [ofBytes]
  | cons b bs ih =>
    have hb : b.toNat < 256 := b.toNat_lt
    rw [ofBytes, List.length_cons, pow_succ]
    omega

theorem ofBytes_le {bs bs' : List UInt8}
    (h : List.Forall₂ (fun b b' => b.toNat ≤ b'.toNat) bs bs') : ofBytes bs ≤ ofBytes bs' := by
  induction h with
  | nil => exact le_rfl
  | cons hb _ ih =>
    rw [ofBytes, ofBytes]
    omega

theorem ofBytes_concat (bs : List UInt8) (b : UInt8) :
    ofBytes (bs ++ [b]) = ofBytes bs + 256 ^ bs.length * b.toNat := by
  induction bs with
  | nil => simp [ofBytes]
  | cons x bs ih =>
    rw [List.cons_append, ofBytes, ofBytes, ih, List.length_cons, pow_succ, mul_add, add_assoc,
      mul_comm (256 ^ bs.length) 256, mul_assoc]

/-- Another last byte makes another number. -/
theorem ofBytes_concat_ne {bs : List UInt8} {b b' : UInt8} (h : b ≠ b') :
    ofBytes (bs ++ [b]) ≠ ofBytes (bs ++ [b']) := by
  rw [ofBytes_concat, ofBytes_concat]
  intro heq
  have hpos : 0 < 256 ^ bs.length := Nat.pow_pos (by decide)
  have hmul := Nat.eq_of_mul_eq_mul_left hpos (Nat.add_left_cancel heq)
  exact h (UInt8.toNat_inj.mp hmul)

end LittleEndian

/-- A byte buffer, by index. -/
abbrev ByteBuffer := Nat → UInt8

namespace ByteBuffer

/-- Store the bytes `bs` at index `i`. -/
def put (buffer : ByteBuffer) (i : Nat) (bs : List UInt8) : ByteBuffer := fun k =>
  if i ≤ k ∧ k < i + bs.length then bs.getD (k - i) 0 else buffer k

/-- The `n` bytes from index `i` on. -/
def slice (buffer : ByteBuffer) (i n : Nat) : List UInt8 :=
  (List.range n).map fun k => buffer (i + k)

/-- The buffer has the bytes `bs` at index `i`. -/
def Holds (buffer : ByteBuffer) (i : Nat) (bs : List UInt8) : Prop :=
  buffer.slice i bs.length = bs

@[simp] theorem length_slice (buffer : ByteBuffer) (i n : Nat) :
    (buffer.slice i n).length = n := by
  simp [slice]

theorem slice_add (buffer : ByteBuffer) (i m n : Nat) :
    buffer.slice i (m + n) = buffer.slice i m ++ buffer.slice (i + m) n := by
  simp [slice, List.range_add, Function.comp_def, Nat.add_assoc]

theorem slice_congr {buffer buffer' : ByteBuffer} {i n : Nat}
    (h : ∀ k, i ≤ k → k < i + n → buffer k = buffer' k) :
    buffer.slice i n = buffer'.slice i n := by
  refine List.map_congr_left fun k hk => h _ (Nat.le_add_right i k) ?_
  exact Nat.add_lt_add_left (List.mem_range.mp hk) i

theorem slice_succ (buffer : ByteBuffer) (i n : Nat) :
    buffer.slice i (n + 1) = buffer.slice i n ++ [buffer (i + n)] := by
  rw [slice_add]
  simp [slice]

theorem holds_append {buffer : ByteBuffer} {i : Nat} {bs bs' : List UInt8} :
    buffer.Holds i (bs ++ bs') ↔ buffer.Holds i bs ∧ buffer.Holds (i + bs.length) bs' := by
  unfold Holds
  rw [List.length_append, slice_add]
  constructor
  · exact fun h => List.append_inj h (length_slice ..)
  · rintro ⟨h, h'⟩
    rw [h, h']

theorem holds_put (buffer : ByteBuffer) (i : Nat) (bs : List UInt8) :
    (buffer.put i bs).Holds i bs := by
  unfold Holds slice
  refine List.ext_getElem (by simp) fun k hk hk' => ?_
  simp [put, hk']

theorem put_nil (buffer : ByteBuffer) (i : Nat) : buffer.put i [] = buffer := by
  funext k
  have hout : ¬ (i ≤ k ∧ k < i + 0) := by omega
  exact if_neg hout

theorem put_append (buffer : ByteBuffer) (i : Nat) (bs bs' : List UInt8) :
    (buffer.put i bs).put (i + bs.length) bs' = buffer.put i (bs ++ bs') := by
  funext k
  unfold put
  rw [List.length_append]
  by_cases hfirst : k < i + bs.length
  · -- in front of the second list
    have hout : ¬ (i + bs.length ≤ k ∧ k < i + bs.length + bs'.length) := by omega
    rw [if_neg hout]
    by_cases hi : i ≤ k
    · rw [if_pos ⟨hi, hfirst⟩, if_pos (by omega), List.getD_append _ _ _ _ (by omega)]
    · rw [if_neg (by omega), if_neg (by omega)]
  · by_cases hsecond : k < i + bs.length + bs'.length
    · rw [if_pos ⟨by omega, hsecond⟩, if_pos (by omega), List.getD_append_right _ _ _ _ (by omega),
        Nat.sub_sub]
    · rw [if_neg (by omega), if_neg (by omega), if_neg (by omega)]

end ByteBuffer
