import Mathlib.Data.List.DropRight
import Mathlib.Data.List.Infix
import SwitchController.Lib.Memory

/-! # Python strings

A `str` is the list of its code points. The methods below are the ones a line
protocol needs: searching, stripping and decoding UTF-8 with replacement, where
each longest piece that could begin a character becomes one `U+FFFD`.
-/

namespace Str

open Memory

abbrev Text := List Nat

/-- The code points of a literal. -/
def text (s : String) : Text := s.toList.map Char.toNat

/-- `str.isspace` of one code point. -/
def isSpace (c : Nat) : Bool :=
  (9 ≤ c && c ≤ 13) || (28 ≤ c && c ≤ 32) || c = 0x85 || c = 0xa0 || c = 0x1680 ||
    (0x2000 ≤ c && c ≤ 0x200a) || c = 0x2028 || c = 0x2029 || c = 0x202f || c = 0x205f ||
    c = 0x3000

def lstrip (s : Text) : Text := s.dropWhile isSpace

def rstrip (s : Text) : Text := s.rdropWhile isSpace

def strip (s : Text) : Text := rstrip (lstrip s)

/-- `s.rstrip("\r")`. -/
def rstripCr (s : Text) : Text := s.rdropWhile fun c => c = 13

/-- Space at the end does not survive `strip`. -/
theorem strip_append (s : Text) {tail : Text} (h : ∀ c ∈ tail, isSpace c = true) :
    strip (s ++ tail) = strip s := by
  induction tail using List.reverseRecOn with
  | nil => rw [List.append_nil]
  | append_singleton tail c ih =>
      have hc : isSpace c = true := h c (by simp)
      have hrest := ih fun d hd => h d (List.mem_append_left _ hd)
      rw [← hrest, ← List.append_assoc]
      unfold strip lstrip
      rw [List.dropWhile_append]
      split
      case isTrue hnil =>
          have hnil : (s ++ tail).dropWhile isSpace = [] := by simpa using hnil
          rw [hnil]
          simp [hc]
      case isFalse => exact List.rdropWhile_concat_pos isSpace _ c hc

theorem strip_rstripCr (s : Text) : strip (rstripCr s) = strip s := by
  have hsplit : rstripCr s ++ s.rtakeWhile (fun c => c = 13) = s :=
    List.rdropWhile_append_rtakeWhile ..
  have hspace : ∀ c ∈ s.rtakeWhile (fun c => c = 13), isSpace c = true := by
    intro c hc
    have hcr := List.mem_rtakeWhile_imp hc
    simp only [decide_eq_true_eq] at hcr
    rw [hcr]
    rfl
  rw [← strip_append (rstripCr s) hspace, hsplit]

/-- What stands in front of the last character that is no space is kept. -/
theorem rstrip_append {c : Nat} (hc : isSpace c = false) (s : Text) {tail : Text}
    (h : ∀ d ∈ tail, isSpace d = true) : rstrip (s ++ c :: tail) = s ++ [c] := by
  induction tail using List.reverseRecOn with
  | nil => exact List.rdropWhile_concat_neg isSpace s c (by simp [hc])
  | append_singleton tail d ih =>
      have hd : isSpace d = true := h d (by simp)
      have hrest := ih fun e he => h e (List.mem_append_left _ he)
      rw [← hrest, ← List.cons_append, ← List.append_assoc]
      exact List.rdropWhile_concat_pos isSpace _ d hd

theorem lstrip_cons {c : Nat} (hc : isSpace c = false) (s : Text) :
    lstrip (c :: s) = c :: s := by
  simp [lstrip, hc]

/-- `str.find`, without its `-1`. -/
def find (pat : Text) : Text → Option Nat
  | [] => if pat = [] then some 0 else none
  | c :: s => if pat <+: c :: s then some 0 else (find pat s).map (· + 1)

/-- `s.split()`. -/
def split (s : Text) : List Text := (s.splitOnP isSpace).filter (· ≠ [])

/-! ## UTF-8 -/

/-- A character that is not complete: its bits so far, how many bytes are missing and the
range of the next one. -/
structure Partial where
  bits : Nat
  missing : Nat
  low : Nat
  high : Nat

/-- What stands for bytes that are no character. -/
def replacement : Nat := 0xfffd

/-- The first byte of a character of several. -/
def lead (b : Nat) : Option Partial :=
  if 0xc2 ≤ b ∧ b ≤ 0xdf then some ⟨b - 0xc0, 1, 0x80, 0xbf⟩
  else if b = 0xe0 then some ⟨0, 2, 0xa0, 0xbf⟩
  else if b = 0xed then some ⟨0xd, 2, 0x80, 0x9f⟩
  else if 0xe1 ≤ b ∧ b ≤ 0xef then some ⟨b - 0xe0, 2, 0x80, 0xbf⟩
  else if b = 0xf0 then some ⟨0, 3, 0x90, 0xbf⟩
  else if 0xf1 ≤ b ∧ b ≤ 0xf3 then some ⟨b - 0xf0, 3, 0x80, 0xbf⟩
  else if b = 0xf4 then some ⟨4, 3, 0x80, 0x8f⟩
  else none

/-- A byte where a character begins: what it stands for, and the character it opens. -/
def first (b : Nat) : Text × Option Partial :=
  if b < 0x80 then ([b], none)
  else match lead b with
    | some p => ([], some p)
    | none => ([replacement], none)

def decodeFrom : Option Partial → Bytes → Text
  | none, [] => []
  | some _, [] => [replacement]
  | none, b :: rest => (first b.toNat).1 ++ decodeFrom (first b.toNat).2 rest
  | some p, b :: rest =>
      if p.low ≤ b.toNat ∧ b.toNat ≤ p.high then
        let bits := 64 * p.bits + (b.toNat - 0x80)
        if p.missing = 1 then bits :: decodeFrom none rest
        else decodeFrom (some ⟨bits, p.missing - 1, 0x80, 0xbf⟩) rest
      -- the pieces so far are no character, and this byte begins anew
      else replacement :: (first b.toNat).1 ++ decodeFrom (first b.toNat).2 rest

/-- `bytes.decode("utf-8", "replace")`. -/
def decode (bytes : Bytes) : Text := decodeFrom none bytes

theorem lead_low {b : Nat} {p : Partial} (h : lead b = some p) : 0x80 ≤ p.low := by
  unfold lead at h
  split_ifs at h
  all_goals
    rw [Option.some.injEq] at h
    subst h
    simp

theorem first_low {b : Nat} {p : Partial} (h : (first b).2 = some p) : 0x80 ≤ p.low := by
  unfold first at h
  split_ifs at h
  cases hlead : lead b with
  | none => simp [hlead] at h
  | some q =>
      simp only [hlead, Option.some.injEq] at h
      subst h
      exact lead_low hlead

/-- A byte below `0x80` is a character of its own wherever it stands. -/
theorem decodeFrom_ascii {c : UInt8} (hc : c.toNat < 0x80) (pending : Option Partial)
    (left right : Bytes) (hlow : ∀ p, pending = some p → 0x80 ≤ p.low) :
    decodeFrom pending (left ++ c :: right) =
      decodeFrom pending left ++ c.toNat :: decodeFrom none right := by
  have hfirst : first c.toNat = ([c.toNat], none) := by
    unfold first
    rw [if_pos hc]
  induction left generalizing pending with
  | nil =>
      cases pending with
      | none => simp [decodeFrom, hfirst]
      | some p =>
          have hrange : ¬ (p.low ≤ c.toNat ∧ c.toNat ≤ p.high) := by
            have hp := hlow p rfl
            omega
          simp [decodeFrom, hfirst, hrange]
  | cons b left ih =>
      cases pending with
      | none => simp [decodeFrom, ih _ fun _ => first_low]
      | some p =>
          simp only [List.cons_append, decodeFrom]
          split_ifs with hrange hdone
          · rw [ih none (by simp)]
            rfl
          · apply ih
            intro q hq
            rw [Option.some.injEq] at hq
            subst hq
            simp
          · rw [ih _ fun _ => first_low]
            simp

theorem decode_ascii {c : UInt8} (hc : c.toNat < 0x80) (left right : Bytes) :
    decode (left ++ c :: right) = decode left ++ c.toNat :: decode right :=
  decodeFrom_ascii hc none left right (by simp)

/-- A text of such bytes is decoded byte by byte, wherever it stands. -/
theorem decode_ascii_append {bytes : Bytes} (h : ∀ c ∈ bytes, c.toNat < 0x80)
    (left right : Bytes) (hne : bytes ≠ []) :
    decode (left ++ bytes ++ right) = decode left ++ bytes.map UInt8.toNat ++ decode right := by
  induction bytes generalizing left with
  | nil => exact absurd rfl hne
  | cons c bytes ih =>
      have hc := h c List.mem_cons_self
      by_cases hnil : bytes = []
      · subst hnil
        simpa using decode_ascii hc left right
      · have hrest := ih (fun d hd => h d (List.mem_cons_of_mem _ hd)) [] hnil
        have htext : left ++ c :: bytes ++ right = left ++ c :: (bytes ++ right) := by simp
        rw [htext, decode_ascii hc]
        simp only [List.nil_append] at hrest
        rw [hrest]
        simp [decode, decodeFrom]

theorem decode_map {bytes : Bytes} (h : ∀ c ∈ bytes, c.toNat < 0x80) :
    decode bytes = bytes.map UInt8.toNat := by
  by_cases hnil : bytes = []
  · subst hnil
    rfl
  · simpa [decode, decodeFrom] using decode_ascii_append h [] [] hnil

/-! ## Searching -/

/-- A pattern that occurs nowhere else before is found where it stands. -/
theorem find_append {pat pre : Text} (post : Text)
    (hfirst : ∀ pre' suf, pre = pre' ++ suf → suf ≠ [] → ¬ pat <+: suf ++ pat ++ post) :
    find pat (pre ++ pat ++ post) = some pre.length := by
  induction pre with
  | nil =>
      cases pat with
      | nil => cases post <;> simp [find]
      | cons c pat => simp [find]
  | cons c pre ih =>
      have hhere := hfirst [] (c :: pre) rfl (List.cons_ne_nil _ _)
      have hrest := ih fun pre' suf hpre => hfirst (c :: pre') suf (by rw [hpre]; rfl)
      have hhere : ¬ pat <+: c :: (pre ++ (pat ++ post)) := by simpa using hhere
      simp only [List.append_assoc] at hrest
      simp [find, hhere, hrest]

theorem find_none {pat s : Text} (hne : pat ≠ []) (h : ¬ pat <:+: s) : find pat s = none := by
  induction s with
  | nil => simp [find, hne]
  | cons c s ih =>
      have hhere : ¬ pat <+: c :: s := fun hp => h hp.isInfix
      have hrest := ih fun hp => h (hp.trans (List.suffix_cons c s).isInfix)
      simp [find, hhere, hrest]

end Str
