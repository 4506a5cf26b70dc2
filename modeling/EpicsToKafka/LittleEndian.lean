/-
Numbers in the memory of a little-endian machine.  A type has a layout if its
values are told apart by a code that fits into a fixed number of bytes; an
array is the bytes of its elements one after the other.
-/
import Mathlib.Algebra.Order.Ring.Nat
import Mathlib.Data.List.Basic
import Mathlib.Tactic.Ring

namespace LittleEndian

/-- The lowest `width` bytes of a number, the lowest of all first. -/
def toBytes : Nat → Nat → List UInt8
  | 0, _ => []
  | width + 1, value => UInt8.ofNat value :: toBytes width (value / 256)

def ofBytes : List UInt8 → Nat
  | [] => 0
  | byte :: bytes => byte.toNat + 256 * ofBytes bytes

@[simp] theorem length_toBytes (width value : Nat) :
    (toBytes width value).length = width := by
  induction width generalizing value with
  | zero => rfl
  | succ width ih => rw [toBytes, List.length_cons, ih]

theorem ofBytes_toBytes {width value : Nat} (hlt : value < 256 ^ width) :
    ofBytes (toBytes width value) = value := by
  induction width generalizing value with
  | zero =>
      have hzero : value = 0 := by simpa using hlt
      rw [hzero]
      rfl
  | succ width ih =>
      have hdiv : value / 256 < 256 ^ width := by
        apply Nat.div_lt_of_lt_mul
        rw [← Nat.pow_succ']
        exact hlt
      rw [toBytes, ofBytes, ih hdiv, UInt8.toNat_ofNat']
      exact Nat.mod_add_div value 256

/-- A type whose values are stored in a fixed number of bytes. -/
class Layout (τ : Type) where
  width : Nat
  code : τ → Nat
  ofCode : Nat → τ
  code_lt : ∀ value, code value < 256 ^ width
  ofCode_code : ∀ value, ofCode (code value) = value

export Layout (width)

variable {τ : Type} [Layout τ]

def encode (value : τ) : List UInt8 :=
  toBytes (width τ) (Layout.code value)

def decode (τ : Type) [Layout τ] (bytes : List UInt8) : τ :=
  Layout.ofCode (ofBytes bytes)

@[simp] theorem length_encode (value : τ) : (encode value).length = width τ :=
  length_toBytes _ _

@[simp] theorem decode_encode (value : τ) : decode τ (encode value) = value := by
  rw [decode, encode, ofBytes_toBytes (Layout.code_lt value), Layout.ofCode_code]

theorem length_flatMap_encode (values : List τ) :
    (values.flatMap encode).length = width τ * values.length := by
  induction values with
  | nil => rfl
  | cons value rest ih =>
      rw [List.flatMap_cons, List.length_append, length_encode, ih, List.length_cons]
      ring

/-- The bytes of one element of an array. -/
theorem take_drop_flatMap_encode {values : List τ} {index : Nat}
    (hindex : index < values.length) :
    ((values.flatMap encode).drop (width τ * index)).take (width τ) =
      encode values[index] := by
  induction values generalizing index with
  | nil => cases hindex
  | cons value rest ih =>
      rw [List.flatMap_cons]
      cases index with
      | zero =>
          rw [Nat.mul_zero, List.drop_zero, List.take_left' (length_encode value)]
          rfl
      | succ index =>
          have hdrop : width τ * (index + 1) = (encode value).length + width τ * index := by
            rw [length_encode]
            ring
          rw [hdrop, ← List.drop_drop, List.drop_left, ih (by simpa using hindex)]
          rfl

instance : Layout UInt8 where
  width := 1
  code := UInt8.toNat
  ofCode := UInt8.ofNat
  code_lt value := value.toNat_lt
  ofCode_code _ := UInt8.ofNat_toNat

instance : Layout UInt16 where
  width := 2
  code := UInt16.toNat
  ofCode := UInt16.ofNat
  code_lt value := value.toNat_lt
  ofCode_code _ := UInt16.ofNat_toNat

instance : Layout UInt32 where
  width := 4
  code := UInt32.toNat
  ofCode := UInt32.ofNat
  code_lt value := value.toNat_lt
  ofCode_code _ := UInt32.ofNat_toNat

instance : Layout UInt64 where
  width := 8
  code := UInt64.toNat
  ofCode := UInt64.ofNat
  code_lt value := value.toNat_lt
  ofCode_code _ := UInt64.ofNat_toNat

instance : Layout Int8 where
  width := 1
  code value := value.toUInt8.toNat
  ofCode code := (UInt8.ofNat code).toInt8
  code_lt value := value.toUInt8.toNat_lt
  ofCode_code value := by rw [UInt8.ofNat_toNat, Int8.toInt8_toUInt8]

instance : Layout Int16 where
  width := 2
  code value := value.toUInt16.toNat
  ofCode code := (UInt16.ofNat code).toInt16
  code_lt value := value.toUInt16.toNat_lt
  ofCode_code value := by rw [UInt16.ofNat_toNat, Int16.toInt16_toUInt16]

instance : Layout Int32 where
  width := 4
  code value := value.toUInt32.toNat
  ofCode code := (UInt32.ofNat code).toInt32
  code_lt value := value.toUInt32.toNat_lt
  ofCode_code value := by rw [UInt32.ofNat_toNat, Int32.toInt32_toUInt32]

instance : Layout Int64 where
  width := 8
  code value := value.toUInt64.toNat
  ofCode code := (UInt64.ofNat code).toInt64
  code_lt value := value.toUInt64.toNat_lt
  ofCode_code value := by rw [UInt64.ofNat_toNat, Int64.toInt64_toUInt64]

end LittleEndian
