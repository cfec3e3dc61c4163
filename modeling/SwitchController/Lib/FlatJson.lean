import Mathlib.Data.Nat.Digits.Lemmas
import Mathlib.Tactic.SplitIfs
import SwitchController.Lib.Memory

/-! # Flat JSON objects

Objects whose members are natural numbers and strings of plain characters, in
the compact notation without blanks. Such a text needs no escapes, and reading it
back gives the object it was written from.
-/

namespace FlatJson

open Memory

inductive Scalar
  | string (text : Bytes)
  | number (value : Nat)
deriving DecidableEq, Repr

abbrev Object := List (Bytes × Scalar)

/-- A character that stands for itself in a string. -/
def isPlain (c : UInt8) : Bool := 0x20 ≤ c && c < 0x7f && c ≠ 0x22 && c ≠ 0x5c

def PlainText (text : Bytes) : Prop := ∀ c ∈ text, isPlain c = true

def Scalar.Plain : Scalar → Prop
  | .string text => PlainText text
  | .number _ => True

def Plain (o : Object) : Prop := ∀ m ∈ o, PlainText m.1 ∧ m.2.Plain

/-! ## Writing -/

def digitChar (d : Nat) : UInt8 := .ofNat (48 + d)

def decimal (n : Nat) : Bytes :=
  if n = 0 then [digitChar 0] else (Nat.digits 10 n).reverse.map digitChar

def quote (text : Bytes) : Bytes := 0x22 :: text ++ [0x22]

def Scalar.dumps : Scalar → Bytes
  | .string text => quote text
  | .number n => decimal n

def dumpsMember (m : Bytes × Scalar) : Bytes := quote m.1 ++ 0x3a :: m.2.dumps

def dumpsMembers : Object → Bytes
  | [] => []
  | [m] => dumpsMember m
  | m :: n :: rest => dumpsMember m ++ 0x2c :: dumpsMembers (n :: rest)

def dumps (o : Object) : Bytes := 0x7b :: dumpsMembers o ++ [0x7d]

/-! ## Reading -/

def isDigit (c : UInt8) : Bool := 48 ≤ c && c ≤ 57

def digitsValue (ds : Bytes) : Nat := ds.foldl (fun n c => 10 * n + (c.toNat - 48)) 0

def readNumber (s : Bytes) : Option (Nat × Bytes) :=
  if s.takeWhile isDigit = [] then none
  else some (digitsValue (s.takeWhile isDigit), s.dropWhile isDigit)

def readQuoted : Bytes → Option (Bytes × Bytes)
  | 0x22 :: s =>
      match s.dropWhile isPlain with
      | 0x22 :: rest => some (s.takeWhile isPlain, rest)
      | _ => none
  | _ => none

def readScalar (s : Bytes) : Option (Scalar × Bytes) :=
  if s.head? = some 0x22 then (readQuoted s).map fun r => (.string r.1, r.2)
  else (readNumber s).map fun r => (.number r.1, r.2)

def readMember (s : Bytes) : Option ((Bytes × Scalar) × Bytes) :=
  match readQuoted s with
  | some (key, 0x3a :: s) => (readScalar s).map fun r => ((key, r.1), r.2)
  | _ => none

/-- The fuel bounds the number of members. -/
def readMembers : Nat → Bytes → Option Object
  | 0, _ => none
  | fuel + 1, s =>
      match readMember s with
      | some (m, [0x7d]) => some [m]
      | some (m, 0x2c :: s) => (readMembers fuel s).map (m :: ·)
      | _ => none

def read : Bytes → Option Object
  | 0x7b :: s => if s = [0x7d] then some [] else readMembers s.length s
  | _ => none

/-! ## Numbers -/

theorem digitChar_toNat {d : Nat} (h : d < 10) : (digitChar d).toNat = 48 + d := by
  simp only [digitChar, UInt8.toNat_ofNat']
  omega

theorem digitChar_isDigit {d : Nat} (h : d < 10) : isDigit (digitChar d) = true := by
  have hd := digitChar_toNat h
  simp only [isDigit, Bool.and_eq_true, decide_eq_true_eq, UInt8.le_iff_toNat_le, hd]
  exact ⟨Nat.le_add_right 48 d, by change 48 + d ≤ 57; omega⟩

theorem decimal_isDigit (n : Nat) : ∀ c ∈ decimal n, isDigit c = true := by
  intro c hc
  unfold decimal at hc
  split_ifs at hc
  · rw [List.mem_singleton.mp hc]
    exact digitChar_isDigit (by omega)
  · obtain ⟨d, hd, rfl⟩ := List.mem_map.mp hc
    exact digitChar_isDigit (Nat.digits_lt_base (by omega) (List.mem_reverse.mp hd))

theorem decimal_ne_nil (n : Nat) : decimal n ≠ [] := by
  unfold decimal
  split_ifs with h
  · simp
  · have hne : Nat.digits 10 n ≠ [] := Nat.digits_ne_nil_iff_ne_zero.mpr h
    simpa using hne

theorem decimal_length {n k : Nat} (h : n < 10 ^ (k + 1)) : (decimal n).length ≤ k + 1 := by
  unfold decimal
  split_ifs
  · simp
  · rw [List.length_map, List.length_reverse]
    exact (Nat.digits_length_le_iff (by omega) n).mpr h

theorem digitsValue_map (ds : List Nat) (h : ∀ d ∈ ds, d < 10) :
    digitsValue (ds.reverse.map digitChar) = Nat.ofDigits 10 ds := by
  induction ds with
  | nil => rfl
  | cons d ds ih =>
      have hd := digitChar_toNat (h d (by simp))
      have hrest := ih fun d' hd' => h d' (by simp [hd'])
      unfold digitsValue at hrest ⊢
      rw [List.reverse_cons, List.map_append, List.foldl_append, hrest, Nat.ofDigits_cons]
      simp only [List.map_cons, List.map_nil, List.foldl_cons, List.foldl_nil, hd]
      omega

theorem digitsValue_decimal (n : Nat) : digitsValue (decimal n) = n := by
  unfold decimal
  split_ifs with h
  · rw [h]
    rfl
  · rw [digitsValue_map _ fun d hd => Nat.digits_lt_base (by omega) hd, Nat.ofDigits_digits]

/-! ## Scanning -/

theorem takeWhile_stop {α : Type} {p : α → Bool} {l rest : List α} (h : ∀ c ∈ l, p c = true)
    (hr : ∀ c, rest.head? = some c → p c = false) : (l ++ rest).takeWhile p = l := by
  rw [List.takeWhile_append_of_pos h]
  cases rest with
  | nil => simp
  | cons c rest => simp [hr c rfl]

theorem dropWhile_stop {α : Type} {p : α → Bool} {l rest : List α} (h : ∀ c ∈ l, p c = true)
    (hr : ∀ c, rest.head? = some c → p c = false) : (l ++ rest).dropWhile p = rest := by
  rw [List.dropWhile_append_of_pos h]
  cases rest with
  | nil => rfl
  | cons c rest => simp [hr c rfl]

/-- What may follow a member: a comma or the closing brace. -/
def Delimited (rest : Bytes) : Prop := ∀ c, rest.head? = some c → c = 0x2c ∨ c = 0x7d

theorem readNumber_decimal (n : Nat) {rest : Bytes} (h : Delimited rest) :
    readNumber (decimal n ++ rest) = some (n, rest) := by
  have hstop : ∀ c, rest.head? = some c → isDigit c = false := by
    intro c hc
    rcases h c hc with rfl | rfl <;> rfl
  unfold readNumber
  rw [takeWhile_stop (decimal_isDigit n) hstop, dropWhile_stop (decimal_isDigit n) hstop,
    if_neg (decimal_ne_nil n), digitsValue_decimal]

theorem readQuoted_quote {text : Bytes} (h : PlainText text) (rest : Bytes) :
    readQuoted (quote text ++ rest) = some (text, rest) := by
  have hstop : ∀ c, (0x22 :: rest).head? = some c → isPlain c = false := by
    intro c hc
    cases hc
    rfl
  have hsplit : quote text ++ rest = 0x22 :: (text ++ 0x22 :: rest) := by simp [quote]
  rw [hsplit]
  unfold readQuoted
  simp only [takeWhile_stop h hstop, dropWhile_stop h hstop]

theorem readScalar_dumps {v : Scalar} (h : v.Plain) {rest : Bytes} (hr : Delimited rest) :
    readScalar (v.dumps ++ rest) = some (v, rest) := by
  cases v with
  | string text =>
      have hhead : ((quote text) ++ rest).head? = some 0x22 := rfl
      simp only [readScalar, Scalar.dumps, if_pos hhead, readQuoted_quote h, Option.map_some]
  | number n =>
      have hhead : (decimal n ++ rest).head? ≠ some 0x22 := by
        cases hd : decimal n with
        | nil => exact absurd hd (decimal_ne_nil n)
        | cons c cs =>
            have hdigit := decimal_isDigit n c (by rw [hd]; simp)
            intro heq
            cases heq
            cases hdigit
      simp only [readScalar, Scalar.dumps, if_neg hhead, readNumber_decimal n hr, Option.map_some]

theorem readMember_dumps {m : Bytes × Scalar} (hkey : PlainText m.1) (hv : m.2.Plain)
    {rest : Bytes} (hr : Delimited rest) : readMember (dumpsMember m ++ rest) = some (m, rest) := by
  have hsplit : dumpsMember m ++ rest = quote m.1 ++ 0x3a :: (m.2.dumps ++ rest) := by
    simp [dumpsMember]
  unfold readMember
  rw [hsplit, readQuoted_quote hkey]
  simp only [readScalar_dumps hv hr, Option.map_some]

theorem readMembers_dumps {o : Object} (h : Plain o) (hne : o ≠ []) {fuel : Nat}
    (hfuel : o.length ≤ fuel) : readMembers fuel (dumpsMembers o ++ [0x7d]) = some o := by
  induction o generalizing fuel with
  | nil => exact absurd rfl hne
  | cons m o ih =>
      obtain ⟨fuel, rfl⟩ : ∃ k, fuel = k + 1 := ⟨fuel - 1, by simp at hfuel; omega⟩
      obtain ⟨hkey, hv⟩ := h m (by simp)
      cases o with
      | nil =>
          have hclose : Delimited [0x7d] := by
            intro c hc
            cases hc
            exact .inr rfl
          simp only [readMembers, dumpsMembers, readMember_dumps hkey hv hclose]
      | cons n rest =>
          have hcomma : Delimited (0x2c :: (dumpsMembers (n :: rest) ++ [0x7d])) := by
            intro c hc
            cases hc
            exact .inl rfl
          have hsplit : dumpsMembers (m :: n :: rest) ++ [0x7d] =
              dumpsMember m ++ 0x2c :: (dumpsMembers (n :: rest) ++ [0x7d]) := by
            simp [dumpsMembers]
          have hrest := ih (fun m' hm' => h m' (List.mem_cons_of_mem _ hm')) (by simp)
            (Nat.le_of_succ_le_succ hfuel)
          rw [hsplit]
          simp only [readMembers, readMember_dumps hkey hv hcomma, hrest, Option.map_some]

theorem length_dumpsMembers (o : Object) : o.length ≤ (dumpsMembers o).length := by
  induction o with
  | nil => simp
  | cons m o ih =>
      cases o with
      | nil => simp [dumpsMembers, dumpsMember, quote]
      | cons n rest =>
          simp only [dumpsMembers, List.length_append, List.length_cons] at ih ⊢
          omega

/-- Reading a written object gives it back. -/
theorem read_dumps {o : Object} (h : Plain o) : read (dumps o) = some o := by
  by_cases hne : o = []
  · subst hne
    rfl
  · have hmore : dumpsMembers o ++ [0x7d] ≠ [0x7d] := by
      intro heq
      have hlen := congrArg List.length heq
      have hle := length_dumpsMembers o
      have hpos := List.length_pos_of_ne_nil hne
      simp only [List.length_append, List.length_cons, List.length_nil] at hlen
      omega
    have hfuel : o.length ≤ (dumpsMembers o ++ [0x7d]).length := by
      have hle := length_dumpsMembers o
      simp only [List.length_append, List.length_cons, List.length_nil]
      omega
    change read (0x7b :: (dumpsMembers o ++ [0x7d])) = some o
    simp only [read, if_neg hmore]
    exact readMembers_dumps h hne hfuel

/-- A written object has no control characters. -/
theorem dumps_printable {o : Object} (h : Plain o) : ∀ c ∈ dumps o, 0x20 ≤ c := by
  have hplain {text : Bytes} (ht : PlainText text) : ∀ c ∈ quote text, 0x20 ≤ c := by
    intro c hc
    simp only [quote, List.cons_append, List.mem_cons, List.mem_append, List.not_mem_nil,
      or_false] at hc
    rcases hc with rfl | hmem | rfl
    · decide
    · have hp := ht c hmem
      simp only [isPlain, Bool.and_eq_true, decide_eq_true_eq] at hp
      exact hp.1.1.1
    · decide
  have hmember {m : Bytes × Scalar} (hm : PlainText m.1 ∧ m.2.Plain) :
      ∀ c ∈ dumpsMember m, 0x20 ≤ c := by
    intro c hc
    simp only [dumpsMember, List.mem_append, List.mem_cons] at hc
    rcases hc with hkey | rfl | hvalue
    · exact hplain hm.1 c hkey
    · decide
    · cases hv : m.2 with
      | string text =>
          rw [hv] at hvalue hm
          exact hplain hm.2 c hvalue
      | number n =>
          rw [hv] at hvalue
          have hdigit := decimal_isDigit n c hvalue
          simp only [isDigit, Bool.and_eq_true, decide_eq_true_eq] at hdigit
          exact UInt8.le_trans (by decide) hdigit.1
  have hmembers : ∀ c ∈ dumpsMembers o, 0x20 ≤ c := by
    induction o with
    | nil => simp [dumpsMembers]
    | cons m o ih =>
        cases o with
        | nil => exact hmember (h m (by simp))
        | cons n rest =>
            intro c hc
            simp only [dumpsMembers, List.mem_append, List.mem_cons] at hc
            rcases hc with hfirst | rfl | hrest
            · exact hmember (h m (by simp)) c hfirst
            · decide
            · exact ih (fun m' hm' => h m' (List.mem_cons_of_mem _ hm')) c hrest
  intro c hc
  simp only [dumps, List.cons_append, List.mem_cons, List.mem_append, List.not_mem_nil,
    or_false] at hc
  rcases hc with rfl | hmem | rfl
  · decide
  · exact hmembers c hmem
  · decide

end FlatJson
