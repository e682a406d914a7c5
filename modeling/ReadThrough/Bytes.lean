/-!
# Byte strings

`Bytes.overlay` is how everything that fills a buffer is described: the written bytes replace the
front of the buffer, the rest of it stays, and its length never changes. `Bytes.window` cuts a piece
out of a byte string that continues with zeros. `Bytes.littleEndian` and `Bytes.ofLittleEndian`
convert between numbers and their bytes, least significant first.
-/

namespace ReadThrough

/-- A byte string. -/
abbrev Bytes := List UInt8

namespace Bytes

/-- The byte string of `n` zeros. -/
def zeros (n : Nat) : Bytes := List.replicate n 0

@[simp] theorem length_zeros (n : Nat) : (zeros n).length = n := List.length_replicate

/-! ## Writing into a buffer -/

/-- The buffer after `written` was stored at its front; bytes that do not fit are dropped. -/
def overlay (buffer written : Bytes) : Bytes :=
  written.take buffer.length ++ buffer.drop written.length

@[simp] theorem length_overlay (buffer written : Bytes) :
    (overlay buffer written).length = buffer.length := by
  simp only [overlay, List.length_append, List.length_take, List.length_drop]
  omega

/-- Bytes that fit replace as many of the buffer. -/
theorem overlay_of_length_le {buffer written : Bytes} (h : written.length ≤ buffer.length) :
    overlay buffer written = written ++ buffer.drop written.length := by
  rw [overlay, List.take_of_length_le h]

/-! ## Reading a window -/

/-- The `count` bytes from `offset` on, where the byte string is continued by zeros. -/
def window (bytes : Bytes) (offset count : Nat) : Bytes :=
  let found := (bytes.drop offset).take count
  found ++ zeros (count - found.length)

@[simp] theorem length_window (bytes : Bytes) (offset count : Nat) :
    (window bytes offset count).length = count := by
  simp only [window, List.length_append, List.length_take, List.length_drop, length_zeros]
  omega

/-! ## Little-endian numbers -/

/-- The `width` bytes of `n`, least significant first; higher bits are dropped. -/
def littleEndian : (width n : Nat) → Bytes
  | 0, _ => []
  | width + 1, n => UInt8.ofNat n :: littleEndian width (n / 256)

/-- The number whose bytes are given, least significant first. -/
def ofLittleEndian : Bytes → Nat
  | [] => 0
  | b :: bytes => b.toNat + 256 * ofLittleEndian bytes

@[simp] theorem length_littleEndian (width n : Nat) : (littleEndian width n).length = width := by
  induction width generalizing n with
  | zero => rfl
  | succ width ih => simp [littleEndian, ih]

/-- A number that the width can hold is read back. -/
theorem ofLittleEndian_littleEndian {width n : Nat} (h : n < 1 <<< (8 * width)) :
    ofLittleEndian (littleEndian width n) = n := by
  induction width generalizing n with
  | zero =>
    rw [Nat.mul_zero, Nat.shiftLeft_zero] at h
    simp only [littleEndian, ofLittleEndian]
    omega
  | succ width ih =>
    rw [Nat.mul_succ, Nat.shiftLeft_add, Nat.shiftLeft_eq _ 8] at h
    rw [littleEndian, ofLittleEndian, ih (by omega), UInt8.toNat_ofNat']
    omega

theorem littleEndian_inj {width a b : Nat} (ha : a < 1 <<< (8 * width))
    (hb : b < 1 <<< (8 * width)) (h : littleEndian width a = littleEndian width b) : a = b := by
  rw [← ofLittleEndian_littleEndian ha, h, ofLittleEndian_littleEndian hb]

end Bytes

end ReadThrough
