/-
Fixed-width big-endian numbers: the bytes of a value, the value of a byte string,
and fields read at an offset of a longer string.
-/
import Mathlib.Algebra.Order.Ring.Nat
import Mathlib.Data.Fin.Basic
import Mathlib.Data.List.Induction

namespace BigEndian

abbrev Byte := Fin 256

instance neZero_bytes : NeZero 256 := ⟨Nat.succ_ne_zero 255⟩

/-- The lowest `width` bytes of `value`, the highest of them first. -/
def encode : ℕ → ℕ → List Byte
  | 0, _ => []
  | width + 1, value => encode width (value / 256) ++ [Fin.ofNat 256 value]

def decode (bytes : List Byte) : ℕ :=
  bytes.foldl (fun value byte => value * 256 + byte.val) 0

/-- The field of `width` bytes at `offset`; bytes past the end read as zero. -/
def read (data : List Byte) (offset width : ℕ) : ℕ :=
  decode ((data.drop offset ++ List.replicate width 0).take width)

@[simp]
theorem length_encode (width value : ℕ) : (encode width value).length = width := by
  induction width generalizing value with
  | zero => rfl
  | succ width ih => simp [encode, ih]

theorem decode_append_singleton (bytes : List Byte) (byte : Byte) :
    decode (bytes ++ [byte]) = decode bytes * 256 + byte.val := by
  simp [decode, List.foldl_append]

theorem decode_lt (bytes : List Byte) : decode bytes < 256 ^ bytes.length := by
  induction bytes using List.reverseRecOn with
  | nil => decide
  | append_singleton bytes byte ih =>
      rw [decode_append_singleton, List.length_append, List.length_singleton, pow_succ]
      have hbyte := byte.isLt
      omega

theorem decode_encode {width value : ℕ} (hvalue : value < 256 ^ width) :
    decode (encode width value) = value := by
  induction width generalizing value with
  | zero =>
      rw [pow_zero, Nat.lt_one_iff] at hvalue
      rw [hvalue]
      rfl
  | succ width ih =>
      have hquotient : value / 256 < 256 ^ width := by
        rw [pow_succ] at hvalue
        exact Nat.div_lt_of_lt_mul (by omega)
      rw [encode, decode_append_singleton, ih hquotient, Fin.val_ofNat]
      omega

theorem encode_decode (bytes : List Byte) : encode bytes.length (decode bytes) = bytes := by
  induction bytes using List.reverseRecOn with
  | nil => rfl
  | append_singleton bytes byte ih =>
      have hbyte := byte.isLt
      have hquotient : (decode bytes * 256 + byte.val) / 256 = decode bytes := by omega
      have hremainder : Fin.ofNat 256 (decode bytes * 256 + byte.val) = byte := by
        apply Fin.ext
        rw [Fin.val_ofNat]
        omega
      rw [decode_append_singleton, List.length_append, List.length_singleton, encode,
        hquotient, hremainder, ih]

/-- A field inside the string is the value of its bytes. -/
theorem read_of_le {data : List Byte} {offset width : ℕ}
    (hbound : offset + width ≤ data.length) :
    read data offset width = decode ((data.drop offset).take width) := by
  rw [read, List.take_append_of_le_length]
  rw [List.length_drop]
  omega

theorem read_lt (data : List Byte) (offset width : ℕ) :
    read data offset width < 256 ^ width := by
  have hlt := decode_lt ((data.drop offset ++ List.replicate width 0).take width)
  rw [List.length_take, List.length_append, List.length_replicate] at hlt
  rwa [Nat.min_eq_left (by omega)] at hlt

/-- The bytes of a field inside the string are those of the value read there. -/
theorem encode_read {data : List Byte} {offset width : ℕ}
    (hbound : offset + width ≤ data.length) :
    encode width (read data offset width) = (data.drop offset).take width := by
  have hlength : ((data.drop offset).take width).length = width := by
    rw [List.length_take, List.length_drop]
    omega
  have hdecode := encode_decode ((data.drop offset).take width)
  rw [hlength] at hdecode
  rw [read_of_le hbound, hdecode]

/-- Reading a field that was written at the end of `front`. -/
theorem read_append {front back : List Byte} {width value : ℕ} (hvalue : value < 256 ^ width) :
    read (front ++ (encode width value ++ back)) front.length width = value := by
  rw [read_of_le (by simp), List.drop_left, List.take_left' (length_encode width value),
    decode_encode hvalue]

end BigEndian
