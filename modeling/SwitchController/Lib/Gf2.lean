import Mathlib.Algebra.CharP.Two
import Mathlib.Algebra.Field.ZMod
import Mathlib.Algebra.Polynomial.Div
import Mathlib.Algebra.Polynomial.Degree.Domain
import Mathlib.Algebra.Polynomial.FieldDivision
import Mathlib.Data.ZMod.Basic
import Mathlib.Tactic.Ring

/-! # Bit strings as polynomials

A string of bits, most significant first, is a polynomial over the field of two
elements: appending shifts, and the exclusive or of two strings is the sum. A
divisor with a constant term cannot divide an error that is shorter than itself,
wherever the error begins.
-/

namespace Gf2

open Polynomial

/-- A bit as an element of the field. -/
def bit (b : Bool) : ZMod 2 := if b then 1 else 0

noncomputable def ofBits : List Bool → (ZMod 2)[X]
  | [] => 0
  | b :: bits => C (bit b) * X ^ bits.length + ofBits bits

/-- The bits that are set lie within `w` places. -/
def Burst (w : Nat) (bits : List Bool) : Prop :=
  ∃ start, ∀ i, bits[i]? = some true → start ≤ i ∧ i < start + w

@[simp] theorem bit_false : bit false = 0 := rfl

@[simp] theorem bit_true : bit true = 1 := rfl

theorem bit_xor (a b : Bool) : bit (a ^^ b) = bit a + bit b := by
  cases a <;> cases b <;> decide

theorem bit_injective : Function.Injective bit := by
  intro a b h
  cases a <;> cases b <;> simp_all

theorem ofBits_append (left right : List Bool) :
    ofBits (left ++ right) = ofBits left * X ^ right.length + ofBits right := by
  induction left with
  | nil => simp [ofBits]
  | cons b left ih =>
      rw [List.cons_append, ofBits, ih, List.length_append, ofBits, pow_add]
      ring

/-- The coefficients are the bits from the last one on. -/
theorem coeff_ofBits (bits : List Bool) (n : Nat) :
    (ofBits bits).coeff n = bit (bits.reverse[n]?.getD false) := by
  induction bits with
  | nil => simp [ofBits]
  | cons b bits ih =>
      rw [ofBits, coeff_add, coeff_C_mul, coeff_X_pow, ih, List.reverse_cons]
      rcases Nat.lt_trichotomy n bits.length with hlt | heq | hgt
      · rw [List.getElem?_append_left (by simpa using hlt), if_neg (by omega)]
        simp
      · subst heq
        simp
      · rw [List.getElem?_eq_none (by simp; omega), List.getElem?_eq_none (by simp; omega),
          if_neg (by omega)]
        simp

theorem degree_ofBits (bits : List Bool) : (ofBits bits).degree < bits.length := by
  rw [degree_lt_iff_coeff_zero]
  intro n hn
  rw [coeff_ofBits, List.getElem?_eq_none (by simpa using hn)]
  rfl

/-- Strings of one length are told apart by their polynomials. -/
theorem ofBits_injective {left right : List Bool} (hlen : left.length = right.length)
    (h : ofBits left = ofBits right) : left = right := by
  apply List.reverse_injective
  apply List.ext_getElem?
  intro n
  have hn := congrArg (fun p => p.coeff n) h
  simp only [coeff_ofBits] at hn
  have hbit := bit_injective hn
  by_cases hlt : n < left.length
  · rw [List.getElem?_eq_getElem (by simpa using hlt),
      List.getElem?_eq_getElem (by simpa [← hlen] using hlt)] at hbit ⊢
    simpa using hbit
  · rw [List.getElem?_eq_none (by simpa using hlt),
      List.getElem?_eq_none (by simpa [← hlen] using hlt)]

theorem ofBits_xor {left right : List Bool} (hlen : left.length = right.length) :
    ofBits (List.zipWith (· ^^ ·) left right) = ofBits left + ofBits right := by
  induction left generalizing right with
  | nil =>
      cases right with
      | nil => simp [ofBits]
      | cons b right => cases hlen
  | cons a left ih =>
      cases right with
      | nil => cases hlen
      | cons b right =>
          have hlen : left.length = right.length := Nat.succ.inj hlen
          rw [List.zipWith_cons_cons, ofBits, ofBits, ofBits, ih hlen, bit_xor,
            List.length_zipWith, hlen, Nat.min_self, C_add]
          ring

theorem ofBits_ne_zero {bits : List Bool} (h : true ∈ bits) : ofBits bits ≠ 0 := by
  intro hzero
  rcases List.getElem?_of_mem (List.mem_reverse.mpr h) with ⟨n, hn⟩
  have hcoeff := coeff_ofBits bits n
  rw [hzero, hn] at hcoeff
  simp at hcoeff

/-! ## Division -/

/-- In this field a difference is a sum. -/
theorem sub_eq_add (p q : (ZMod 2)[X]) : p - q = p + q := CharTwo.sub_eq_add p q

/-- The remainder is the one string of its length that is congruent. -/
theorem ofBits_eq_modByMonic {G P : (ZMod 2)[X]} (hG : G.Monic) {bits : List Bool}
    (hlen : bits.length = G.natDegree) (h : G ∣ P - ofBits bits) : ofBits bits = P %ₘ G := by
  rcases h with ⟨Q, hQ⟩
  have hdegree : (ofBits bits).degree < G.degree := by
    rw [degree_eq_natDegree hG.ne_zero, ← hlen]
    exact degree_ofBits bits
  have hsum : ofBits bits + G * Q = P := by
    rw [← hQ]
    ring
  exact ((div_modByMonic_unique Q (ofBits bits) hG ⟨hsum, hdegree⟩).2).symm

/-- A burst is a short string at its place. -/
theorem ofBits_burst {w : Nat} {bits : List Bool} (h : Burst w bits) :
    ∃ (n : Nat) (B : (ZMod 2)[X]), ofBits bits = X ^ n * B ∧ B.degree < w := by
  rcases h with ⟨start, hstart⟩
  have hset : ∀ n, (ofBits bits).coeff n ≠ 0 →
      n < bits.length ∧ start ≤ bits.length - 1 - n ∧ bits.length - 1 - n < start + w := by
    intro n hn
    rw [coeff_ofBits] at hn
    by_cases hlt : n < bits.length
    · rw [List.getElem?_reverse hlt] at hn
      have htrue : bits[bits.length - 1 - n]? = some true := by
        rw [List.getElem?_eq_getElem (by omega)] at hn ⊢
        by_contra hfalse
        simp_all
      exact ⟨hlt, hstart _ htrue⟩
    · rw [List.getElem?_eq_none (by simpa using hlt)] at hn
      exact absurd rfl hn
  have hdvd : X ^ (bits.length - start - w) ∣ ofBits bits := by
    rw [X_pow_dvd_iff]
    intro d hd
    by_contra hne
    have hplace := hset d hne
    omega
  rcases hdvd with ⟨B, hB⟩
  refine ⟨_, B, hB, ?_⟩
  rw [degree_lt_iff_coeff_zero]
  intro n hn
  by_contra hne
  have hshift : (ofBits bits).coeff (n + (bits.length - start - w)) ≠ 0 := by
    rw [hB, coeff_X_pow_mul]
    exact hne
  have hplace := hset _ hshift
  omega

/-- No divisor with a constant term divides a burst that is not longer than its degree. -/
theorem not_dvd_burst {G : (ZMod 2)[X]} (hG : G.coeff 0 ≠ 0) {bits : List Bool}
    (hburst : Burst G.natDegree bits) (hset : true ∈ bits) (n : Nat) :
    ¬ G ∣ ofBits bits * X ^ n := by
  have hcoprime : IsCoprime G X := by
    have hndvd : ¬ X ∣ G := fun h => hG (X_dvd_iff.mp h)
    have hirreducible : Irreducible (X : (ZMod 2)[X]) := irreducible_X
    exact (hirreducible.coprime_iff_not_dvd.mpr hndvd).symm
  rcases ofBits_burst hburst with ⟨m, B, hB, hdegree⟩
  have hne : B ≠ 0 := by
    rintro rfl
    exact ofBits_ne_zero hset (by rw [hB, mul_zero])
  have hGne : G ≠ 0 := by
    rintro rfl
    exact hG rfl
  intro hdvd
  have hshift : G ∣ X ^ m * B := by
    rw [← hB]
    exact (hcoprime.pow_right).dvd_of_dvd_mul_right hdvd
  have hsmall : G ∣ B := (hcoprime.pow_right).dvd_of_dvd_mul_left hshift
  apply hne
  apply eq_zero_of_dvd_of_degree_lt hsmall
  rwa [degree_eq_natDegree hGne]

end Gf2
