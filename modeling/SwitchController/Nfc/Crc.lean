import Mathlib.Tactic.ComputeDegree
import Mathlib.Tactic.LinearCombination
import SwitchController.Lib.Gf2
import SwitchController.Nfc.Mcu

/-! # The packet checksum as a remainder

`nfc_crc8` divides by `x^8 + x^2 + x + 1`: one pass of its inner loop multiplies the
register by `x` and takes the remainder. What a checksum of this kind promises about
damaged packets follows from the division.
-/

namespace SwitchController.Nfc

open Memory Polynomial Gf2

/-- The bits of a byte, most significant first. -/
def byteBits (b : UInt8) : List Bool := (List.range 8).map fun i => b.toNat.testBit (7 - i)

def bits (data : Bytes) : List Bool := data.flatMap byteBits

/-- The divisor. -/
noncomputable def generator : (ZMod 2)[X] := X ^ 8 + X ^ 2 + X + 1

/-- The exclusive or, byte by byte. -/
def xorBytes (left right : Bytes) : Bytes := List.zipWith (· ^^^ ·) left right

/-- A packet whose last byte is the checksum of the others. -/
def Intact (packet : Bytes) : Prop := ∃ body, packet = body ++ [nfcCrc8 body]

/-! ## Bytes -/

@[simp] theorem byteBits_length (b : UInt8) : (byteBits b).length = 8 := by simp [byteBits]

@[simp] theorem bits_length (data : Bytes) : (bits data).length = 8 * data.length := by
  induction data with
  | nil => rfl
  | cons b data ih =>
      have hcons : bits (b :: data) = byteBits b ++ bits data := rfl
      rw [hcons, List.length_append, byteBits_length, ih, List.length_cons]
      omega

theorem bits_append (left right : Bytes) : bits (left ++ right) = bits left ++ bits right :=
  List.flatMap_append ..

theorem bits_singleton (b : UInt8) : bits [b] = byteBits b := by simp [bits]

theorem byteBits_xor (a b : UInt8) :
    byteBits (a ^^^ b) = List.zipWith (· ^^ ·) (byteBits a) (byteBits b) := by
  simp [byteBits, List.range_succ]

/-- The byte of eight bits. -/
def byteOf (bits : List Bool) : UInt8 := .ofNat (bits.foldl (fun n b => 2 * n + b.toNat) 0)

theorem byteOf_byteBits (b : UInt8) : byteOf (byteBits b) = b := by
  have hall : ∀ n < 256, byteOf (byteBits (.ofNat n)) = .ofNat n := by decide +kernel
  simpa using hall b.toNat b.toNat_lt

theorem byteBits_injective : Function.Injective byteBits := by
  intro a b h
  rw [← byteOf_byteBits a, h, byteOf_byteBits]

theorem bits_xor {left right : Bytes} (hlen : left.length = right.length) :
    bits (xorBytes left right) = List.zipWith (· ^^ ·) (bits left) (bits right) := by
  induction left generalizing right with
  | nil =>
      cases right with
      | nil => rfl
      | cons b right => cases hlen
  | cons a left ih =>
      cases right with
      | nil => cases hlen
      | cons b right =>
          have hrest := ih (Nat.succ.inj hlen)
          have hleft : bits (a :: left) = byteBits a ++ bits left := rfl
          have hright : bits (b :: right) = byteBits b ++ bits right := rfl
          have hxor : bits (xorBytes (a :: left) (b :: right)) =
              byteBits (a ^^^ b) ++ bits (xorBytes left right) := rfl
          rw [hxor, hleft, hright, List.zipWith_append (by simp), hrest, byteBits_xor]

/-! ## The loop -/

/-- The register as a polynomial. -/
noncomputable def register (crc : UInt8) : (ZMod 2)[X] := ofBits (byteBits crc)

theorem register_xor (a b : UInt8) : register (a ^^^ b) = register a + register b := by
  unfold register
  rw [byteBits_xor, ofBits_xor (by simp)]

theorem register_injective : Function.Injective register := by
  intro a b h
  exact byteBits_injective (ofBits_injective (by simp) h)

/-- The divisor's terms below its leading one, if the register's highest bit is set. -/
def feedback (crc : UInt8) : List Bool :=
  [false, false, false, false, false, true, true, true].map fun b => b && crc.toNat.testBit 7

/-- One pass of the inner loop, bit by bit. -/
theorem byteBits_crcShift (crc : UInt8) :
    byteBits (crcShift crc) =
      List.zipWith (· ^^ ·) ((byteBits crc).tail ++ [false]) (feedback crc) := by
  have hall : ∀ n < 256, byteBits (crcShift (.ofNat n)) =
      List.zipWith (· ^^ ·) ((byteBits (.ofNat n)).tail ++ [false]) (feedback (.ofNat n)) := by
    decide +kernel
  simpa using hall crc.toNat crc.toNat_lt

theorem ofBits_feedback (crc : UInt8) :
    ofBits (feedback crc) = C (bit (crc.toNat.testBit 7)) * (X ^ 2 + X + 1) := by
  unfold feedback
  cases crc.toNat.testBit 7 with
  | false => simp [ofBits]
  | true =>
      simp [ofBits]
      ring

/-- One pass multiplies by `x` and takes the remainder. -/
theorem generator_dvd_crcShift (crc : UInt8) :
    generator ∣ X * register crc - register (crcShift crc) := by
  have hhead : byteBits crc = crc.toNat.testBit 7 :: (byteBits crc).tail := rfl
  have htail : (byteBits crc).tail.length = 7 := by simp
  have hbefore : register crc =
      C (bit (crc.toNat.testBit 7)) * X ^ 7 + ofBits (byteBits crc).tail := by
    have hcons : register crc = ofBits (crc.toNat.testBit 7 :: (byteBits crc).tail) := rfl
    rw [hcons, ofBits, htail]
  have hafter : register (crcShift crc) = ofBits (byteBits crc).tail * X +
      C (bit (crc.toNat.testBit 7)) * (X ^ 2 + X + 1) := by
    have hlen : ((byteBits crc).tail ++ [false]).length = (feedback crc).length := by
      simp [feedback]
    have hzero : ofBits [false] = 0 := by simp [ofBits]
    unfold register
    rw [byteBits_crcShift, ofBits_xor hlen, ofBits_append, ofBits_feedback, hzero]
    simp
  refine ⟨C (bit (crc.toNat.testBit 7)), ?_⟩
  rw [sub_eq_add, hbefore, hafter]
  have htwice := CharTwo.add_self_eq_zero (ofBits (byteBits crc).tail * X)
  unfold generator
  linear_combination htwice

theorem generator_dvd_iterate (n : Nat) (crc : UInt8) :
    generator ∣ X ^ n * register crc - register (crcShift^[n] crc) := by
  induction n with
  | zero => simp
  | succ n ih =>
      have hstep := generator_dvd_crcShift (crcShift^[n] crc)
      have hsum := dvd_add (Dvd.dvd.mul_left ih X) hstep
      rw [Function.iterate_succ_apply']
      have hsame : X * (X ^ n * register crc - register (crcShift^[n] crc)) +
          (X * register (crcShift^[n] crc) - register (crcShift (crcShift^[n] crc))) =
          X ^ (n + 1) * register crc - register (crcShift (crcShift^[n] crc)) := by ring
      rwa [hsame] at hsum

theorem nfcCrc8_append (data : Bytes) (b : UInt8) :
    nfcCrc8 (data ++ [b]) = crcShift^[8] (nfcCrc8 data ^^^ b) := by
  simp [nfcCrc8]

/-- The register is congruent to what was read, eight places up. -/
theorem generator_dvd_nfcCrc8 (data : Bytes) :
    generator ∣ ofBits (bits data) * X ^ 8 - register (nfcCrc8 data) := by
  induction data using List.reverseRecOn with
  | nil =>
      have hzero : register (nfcCrc8 []) = 0 := by
        simp [register, nfcCrc8, byteBits, ofBits, List.range_succ]
      simp [bits, ofBits, hzero]
  | append_singleton data b ih =>
      have hstep := generator_dvd_iterate 8 (nfcCrc8 data ^^^ b)
      have hsum := dvd_add (Dvd.dvd.mul_left ih (X ^ 8)) hstep
      have hbits : ofBits (bits (data ++ [b])) = ofBits (bits data) * X ^ 8 + register b := by
        rw [bits_append, ofBits_append, bits_singleton, byteBits_length]
        rfl
      rw [nfcCrc8_append, hbits]
      rw [register_xor] at hsum
      have hsame : X ^ 8 * (ofBits (bits data) * X ^ 8 - register (nfcCrc8 data)) +
          (X ^ 8 * (register (nfcCrc8 data) + register b) -
            register (crcShift^[8] (nfcCrc8 data ^^^ b))) =
          (ofBits (bits data) * X ^ 8 + register b) * X ^ 8 -
            register (crcShift^[8] (nfcCrc8 data ^^^ b)) := by ring
      rwa [hsame] at hsum

theorem generator_monic : generator.Monic ∧ generator.natDegree = 8 ∧ generator.coeff 0 ≠ 0 := by
  have hlow : (X ^ 2 + X + 1 : (ZMod 2)[X]).degree < 8 := by
    compute_degree
    decide
  have hshape : generator = X ^ 8 + (X ^ 2 + X + 1) := by
    unfold generator
    ring
  refine ⟨?_, ?_, ?_⟩
  · rw [hshape]
    exact monic_X_pow_add hlow
  · rw [hshape, natDegree_add_eq_left_of_degree_lt, natDegree_X_pow]
    rwa [degree_X_pow]
  · unfold generator
    simp

theorem register_eq (data : Bytes) :
    register (nfcCrc8 data) = (ofBits (bits data) * X ^ 8) %ₘ generator := by
  have hlen : (byteBits (nfcCrc8 data)).length = generator.natDegree := by
    rw [byteBits_length, generator_monic.2.1]
  exact ofBits_eq_modByMonic generator_monic.1 hlen (generator_dvd_nfcCrc8 data)

/-! ## What the checksum promises -/

/-- The checksum is zero exactly for what the divisor divides. -/
theorem nfcCrc8_eq_zero (data : Bytes) :
    nfcCrc8 data = 0 ↔ generator ∣ ofBits (bits data) * X ^ 8 := by
  have hzero : register 0 = 0 := by simp [register, byteBits, ofBits, List.range_succ]
  rw [← modByMonic_eq_zero_iff_dvd generator_monic.1, ← register_eq, ← hzero]
  exact register_injective.eq_iff.symm

theorem nfcCrc8_xor {left right : Bytes} (hlen : left.length = right.length) :
    nfcCrc8 (xorBytes left right) = nfcCrc8 left ^^^ nfcCrc8 right := by
  apply register_injective
  have hbits : (bits left).length = (bits right).length := by simp [hlen]
  rw [register_xor, register_eq, register_eq, register_eq, bits_xor hlen, ofBits_xor hbits,
    add_mul, add_modByMonic]

/-- Passes of the inner loop on a zero register leave it zero. -/
theorem crcShift_zero : crcShift^[8] 0 = 0 := by decide

theorem nfcCrc8_sealed (body : Bytes) : nfcCrc8 (body ++ [nfcCrc8 body]) = 0 := by
  rw [nfcCrc8_append, UInt8.xor_self, crcShift_zero]

theorem Intact.crc {packet : Bytes} (h : Intact packet) : nfcCrc8 packet = 0 := by
  rcases h with ⟨body, rfl⟩
  exact nfcCrc8_sealed body

/-- What `finish` makes of a packet. -/
theorem finish_intact {p : Bytes} (hlen : p.length = 313) : Intact (finish p) := by
  refine ⟨p.take 312, ?_⟩
  unfold finish
  rw [List.set_eq_take_append_cons_drop, if_pos (by omega), List.drop_of_length_le (by omega)]

theorem nfcCrc8_burst {error : Bytes} (hburst : Burst 8 (bits error)) (hset : true ∈ bits error) :
    nfcCrc8 error ≠ 0 := by
  rw [Ne, nfcCrc8_eq_zero]
  rw [← generator_monic.2.1] at hburst
  exact not_dvd_burst generator_monic.2.2 hburst hset 8

/-- The checksum is the remainder of the string, eight places up; it is linear, it makes a
packet's own checksum zero, and no damage within eight consecutive bits goes unseen. -/
theorem nfcCrc8_division (data : Bytes) :
    ofBits (byteBits (nfcCrc8 data)) = (ofBits (bits data) * X ^ 8) %ₘ generator ∧
      (∀ other, other.length = data.length →
        nfcCrc8 (xorBytes data other) = nfcCrc8 data ^^^ nfcCrc8 other) ∧
      nfcCrc8 (data ++ [nfcCrc8 data]) = 0 ∧
      ∀ error, error.length = data.length + 1 → true ∈ bits error → Burst 8 (bits error) →
        nfcCrc8 (xorBytes (data ++ [nfcCrc8 data]) error) ≠ 0 ∧
          ¬ Intact (xorBytes (data ++ [nfcCrc8 data]) error) := by
  refine ⟨register_eq data, fun other hlen => nfcCrc8_xor hlen.symm, nfcCrc8_sealed data, ?_⟩
  intro error hlen hset hburst
  have hxor : nfcCrc8 (xorBytes (data ++ [nfcCrc8 data]) error) = nfcCrc8 error := by
    rw [nfcCrc8_xor (by simp [hlen]), nfcCrc8_sealed, UInt8.zero_xor]
  have hne : nfcCrc8 (xorBytes (data ++ [nfcCrc8 data]) error) ≠ 0 := by
    rw [hxor]
    exact nfcCrc8_burst hburst hset
  exact ⟨hne, fun hintact => hne hintact.crc⟩

/-- The nine digits, whose checksum the source's tests name, with a flipped bit. -/
theorem nfcCrc8_division_digits :
    nfcCrc8 (ascii "123456789") = 0xf4 ∧
      ¬ Intact (xorBytes (ascii "123456789" ++ [nfcCrc8 (ascii "123456789")])
        [0, 0, 0x10, 0, 0, 0, 0, 0, 0, 0]) := by
  have hdivision := nfcCrc8_division (ascii "123456789")
  have hburst : Burst 8 (bits [0, 0, 0x10, 0, 0, 0, 0, 0, 0, 0]) := by
    refine ⟨16, ?_⟩
    intro i hi
    have hall : ∀ i < 80, (bits [0, 0, 0x10, 0, 0, 0, 0, 0, 0, 0])[i]? = some true →
        16 ≤ i ∧ i < 16 + 8 := by decide
    have hlt := (List.getElem?_eq_some_iff.mp hi).1
    exact hall i (by simpa using hlt) hi
  have herror := hdivision.2.2.2 [0, 0, 0x10, 0, 0, 0, 0, 0, 0, 0] (by decide) (by decide) hburst
  exact ⟨by decide +kernel, herror.2⟩

end SwitchController.Nfc
