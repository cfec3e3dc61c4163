import Mathlib.Logic.Function.Iterate
import SwitchController.Lib.Memory

/-! # The reflected CRC-32

The standard checksum as the usual table-driven loop computes it, one byte at a
time, and its equality with the loop that shifts one bit at a time. The bit step
is linear, which is all a table needs.
-/

namespace Crc32

open Memory

def poly : UInt32 := 0xedb88320

/-- One bit of the reflected division. -/
def shift (crc : UInt32) : UInt32 := (crc >>> 1) ^^^ (if crc &&& 1 ≠ 0 then poly else 0)

/-- The table entry of a byte. -/
def table (b : UInt8) : UInt32 := shift^[8] b.toUInt32

def update (crc : UInt32) (b : UInt8) : UInt32 :=
  table (crc ^^^ b.toUInt32).toUInt8 ^^^ (crc >>> 8)

/-- The checksum with the customary initial value and final inversion. -/
def standard (data : Bytes) : UInt32 := data.foldl update 0xffffffff ^^^ 0xffffffff

/-! ## Linearity -/

theorem and_one (x : UInt32) : x &&& 1 = if x.toBitVec.getLsbD 0 then 1 else 0 := by
  apply UInt32.toBitVec_inj.mp
  apply BitVec.eq_of_getLsbD_eq
  intro i hi
  cases h : x.toBitVec.getLsbD 0 with
  | false =>
      cases i with
      | zero => simpa using h
      | succ i => simp [BitVec.getLsbD_one]
  | true =>
      cases i with
      | zero => simpa using h
      | succ i => simp [BitVec.getLsbD_one]

theorem shift_eq (x : UInt32) :
    shift x = (x >>> 1) ^^^ (if x.toBitVec.getLsbD 0 then poly else 0) := by
  unfold shift
  rw [and_one]
  cases x.toBitVec.getLsbD 0 <;> simp

theorem shift_xor (x y : UInt32) : shift (x ^^^ y) = shift x ^^^ shift y := by
  have hshift : (x ^^^ y) >>> 1 = (x >>> 1) ^^^ (y >>> 1) := by
    apply UInt32.toBitVec_inj.mp
    simp [BitVec.ushiftRight_xor_distrib]
  have hmask : (if (x ^^^ y).toBitVec.getLsbD 0 then poly else 0) =
      (if x.toBitVec.getLsbD 0 then poly else 0) ^^^
        (if y.toBitVec.getLsbD 0 then poly else 0) := by
    rw [UInt32.toBitVec_xor, BitVec.getLsbD_xor]
    cases x.toBitVec.getLsbD 0 <;> cases y.toBitVec.getLsbD 0 <;> rfl
  rw [shift_eq, shift_eq x, shift_eq y, hshift, hmask]
  ac_rfl

theorem iterate_shift_xor (n : Nat) (x y : UInt32) :
    shift^[n] (x ^^^ y) = shift^[n] x ^^^ shift^[n] y := by
  induction n generalizing x y with
  | zero => rfl
  | succ n ih => rw [Function.iterate_succ_apply, shift_xor, ih]; rfl

/-! ## Eight bits at once -/

/-- While the low bits are clear the polynomial never enters. -/
theorem iterate_shift_clear (n : Nat) (x : UInt32)
    (h : ∀ i < n, x.toBitVec.getLsbD i = false) (hn : n < 32) :
    (shift^[n] x).toBitVec = x.toBitVec >>> n := by
  induction n with
  | zero => simp
  | succ n ih =>
      have hprev := ih (fun i hi => h i (by omega)) (by omega)
      have hlow : (shift^[n] x).toBitVec.getLsbD 0 = false := by
        rw [hprev]
        simpa using h n (by omega)
      rw [Function.iterate_succ_apply', shift_eq, hlow]
      simp [hprev, BitVec.shiftRight_add]

/-- A register without its low byte. -/
def highPart (x : UInt32) : UInt32 := x ^^^ x.toUInt8.toUInt32

theorem highPart_clear (x : UInt32) (i : Nat) (hi : i < 8) :
    (highPart x).toBitVec.getLsbD i = false := by
  have h32 : i < 32 := by omega
  unfold highPart
  rw [UInt32.toBitVec_xor, BitVec.getLsbD_xor]
  simp only [UInt8.toBitVec_toUInt32, UInt32.toBitVec_toUInt8, BitVec.getLsbD_setWidth, hi, h32,
    decide_true, Bool.true_and, Bool.xor_self]

/-- A byte is shifted out whole. -/
theorem byte_shiftRight (b : UInt8) : b.toUInt32.toBitVec >>> 8 = 0#32 := by
  apply BitVec.eq_of_getLsbD_eq
  intro i hi
  simp [BitVec.getLsbD_setWidth]

theorem highPart_shiftRight (x : UInt32) : (highPart x).toBitVec >>> 8 = x.toBitVec >>> 8 := by
  unfold highPart
  rw [UInt32.toBitVec_xor, BitVec.ushiftRight_xor_distrib, byte_shiftRight]
  simp

/-- Eight bit steps are one table step. -/
theorem iterate_shift_byte (crc : UInt32) (b : UInt8) :
    shift^[8] (crc ^^^ b.toUInt32) = update crc b := by
  have hsplit (x : UInt32) : x = x.toUInt8.toUInt32 ^^^ highPart x := by
    unfold highPart
    rw [UInt32.xor_comm x, ← UInt32.xor_assoc, UInt32.xor_self, UInt32.zero_xor]
  have hhigh (x : UInt32) : shift^[8] (highPart x) = x >>> 8 := by
    apply UInt32.toBitVec_inj.mp
    rw [iterate_shift_clear 8 _ (highPart_clear x) (by omega), highPart_shiftRight]
    rfl
  have hbyte : (crc ^^^ b.toUInt32) >>> 8 = crc >>> 8 := by
    apply UInt32.toBitVec_inj.mp
    change (crc.toBitVec ^^^ b.toUInt32.toBitVec) >>> 8 = crc.toBitVec >>> 8
    rw [BitVec.ushiftRight_xor_distrib, byte_shiftRight]
    simp
  conv_lhs => rw [hsplit (crc ^^^ b.toUInt32)]
  rw [iterate_shift_xor, hhigh, hbyte]
  rfl

/-- The loop that shifts bit by bit computes the standard checksum. -/
theorem foldl_shift (data : Bytes) (crc : UInt32) :
    data.foldl (fun crc b => shift^[8] (crc ^^^ b.toUInt32)) crc = data.foldl update crc := by
  simp only [iterate_shift_byte]

example : standard (ascii "123456789") = 0xcbf43926 := by decide +kernel

end Crc32
