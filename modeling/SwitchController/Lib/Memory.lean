import Mathlib.Data.List.Basic
import Mathlib.Data.List.TakeDrop

/-! # Byte buffers

A C byte array is the list of its cells. `memcpy` overwrites the cells from an
offset on, and the lemmas below turn a sequence of copies into a cleared buffer
into one concatenation, which is the form every layout proof works with.
-/

namespace Memory

abbrev Bytes := List UInt8

/-- A cleared buffer, as `memset(p, 0, size)` leaves it. -/
def zeros (size : Nat) : Bytes := List.replicate size 0

/-- `memcpy(dst + offset, src, len(src))`. -/
def memcpy (dst : Bytes) (offset : Nat) (src : Bytes) : Bytes :=
  dst.take offset ++ src ++ dst.drop (offset + src.length)

/-- The bytes of a string literal. -/
def ascii (text : String) : Bytes := text.toList.map (fun c => UInt8.ofNat c.toNat)

@[simp] theorem zeros_length (size : Nat) : (zeros size).length = size := by
  simp [zeros]

@[simp] theorem zeros_zero : zeros 0 = [] := rfl

@[simp] theorem zeros_drop (size n : Nat) : (zeros size).drop n = zeros (size - n) := by
  simp [zeros]

@[simp] theorem zeros_take (size n : Nat) : (zeros size).take n = zeros (min n size) := by
  simp [zeros]

theorem zeros_append (m n : Nat) : zeros m ++ zeros n = zeros (m + n) := by
  simp [zeros]

/-- A copy right behind the bytes already written extends them. -/
theorem memcpy_append (written rest src : Bytes) :
    memcpy (written ++ rest) written.length src = written ++ src ++ rest.drop src.length := by
  simp [memcpy]

/-- The cleared tail of a buffer shrinks by what a copy writes. -/
theorem memcpy_zeros (written src : Bytes) (size : Nat) {offset : Nat}
    (h : offset = written.length) :
    memcpy (written ++ zeros size) offset src = written ++ src ++ zeros (size - src.length) := by
  subst h
  rw [memcpy_append, zeros_drop]

theorem memcpy_zeros_start (src : Bytes) (size : Nat) :
    memcpy (zeros size) 0 src = src ++ zeros (size - src.length) := by
  simpa using memcpy_zeros [] src size rfl

theorem set_zeros (written : Bytes) (size : Nat) (b : UInt8) {i : Nat}
    (h : i = written.length) (hs : 0 < size) :
    (written ++ zeros size).set i b = written ++ [b] ++ zeros (size - 1) := by
  subst h
  obtain ⟨n, rfl⟩ : ∃ n, size = n + 1 := ⟨size - 1, by omega⟩
  simp [zeros, List.replicate_succ]

/-- Copying a block into the head of a buffer makes it the block's prefix. -/
theorem memcpy_take (dst src : Bytes) : (memcpy dst 0 src).take src.length = src := by
  simp [memcpy]

end Memory
