import SwitchController.Lib.FlatJson
import SwitchController.Lib.Json

/-! # Compact objects and their decoder

An object without blanks whose members are scalars, written one behind the other.
The decoder reads it back whatever follows, and no part of it that ends before the
closing brace is an object.
-/

namespace Json

open Memory Str

/-- A text that is a scalar, as long as it ends there. -/
structure Written (t : Text) (v : Value) : Prop where
  first : ∃ c, t.head? = some c ∧ isBlank c = false ∧ c ≠ 123 ∧ c ≠ 91
  read : ∀ rest, Ends continuesNumber rest → scanScalar (t ++ rest) = some (v, rest)

/-- Characters that stand for themselves between quotes. -/
def Plain (t : Text) : Prop := ∀ c ∈ t, c ≠ 34 ∧ c ≠ 92 ∧ 32 ≤ c ∧ c < 0x7f

instance (t : Text) : Decidable (Plain t) := inferInstanceAs (Decidable (∀ c ∈ t, _))

def quote (t : Text) : Text := 34 :: (t ++ [34])

/-- A member and how its value is written. -/
structure Field where
  key : Text
  written : Text
  value : Value

structure Field.WF (f : Field) : Prop where
  key : Plain f.key
  value : Written f.written f.value

def Field.text (f : Field) : Text := quote f.key ++ 58 :: f.written

/-- The members and the closing brace. -/
def fieldsText : List Field → Text
  | [] => [125]
  | [f] => f.text ++ [125]
  | f :: g :: fs => f.text ++ 44 :: fieldsText (g :: fs)

def objectText (fs : List Field) : Text := 123 :: fieldsText fs

def fieldMembers (fs : List Field) : List (Text × Value) := fs.map fun f => (f.key, f.value)

/-! ## Strings -/

theorem scanString_text {t : Text} (h : Plain t) (rest : Text) :
    scanString (t ++ 34 :: rest) = some (t, rest) := by
  induction t with
  | nil => exact scanString_quote rest
  | cons c t ih =>
      have hc := h c List.mem_cons_self
      have hrest := ih fun d hd => h d (List.mem_cons_of_mem _ hd)
      rw [List.cons_append, scanString_plain hc.1 hc.2.1 (by omega), hrest]
      rfl

theorem joinSurrogates_plain {t : Text} (h : Plain t) : joinSurrogates t = t := by
  fun_induction joinSurrogates t with
  | case1 => rfl
  | case2 => rfl
  | case3 hi lo s hpair =>
      have hlow := h hi List.mem_cons_self
      omega
  | case4 hi lo s _ ih =>
      rw [ih fun d hd => h d (List.mem_cons_of_mem _ hd)]

theorem readString_text {t : Text} (h : Plain t) (rest : Text) :
    readString (t ++ 34 :: rest) = some (t, rest) := by
  rw [readString, scanString_text h, Option.map_some, joinSurrogates_plain h]

theorem written_string {t : Text} (h : Plain t) : Written (quote t) (.string t) where
  first := ⟨34, rfl, by decide, by decide, by decide⟩
  read := by
    intro rest _
    have htext : quote t ++ rest = 34 :: (t ++ 34 :: rest) := by simp [quote]
    rw [htext]
    simp [scanScalar, readString_text h]

theorem written_boolean (b : Bool) :
    Written (if b then text "true" else text "false") (.boolean b) := by
  cases b with
  | true => exact ⟨⟨116, rfl, by decide, by decide, by decide⟩, fun _ _ => rfl⟩
  | false => exact ⟨⟨102, rfl, by decide, by decide, by decide⟩, fun _ _ => rfl⟩

/-! ## Numbers -/

/-- The decimal digits of a number as characters of a text. -/
def decimalText (n : Nat) : Text := (FlatJson.decimal n).map UInt8.toNat

theorem decimalText_isDigit (n : Nat) : ∀ c ∈ decimalText n, isDigit c = true := by
  intro c hc
  rcases List.mem_map.mp hc with ⟨b, hb, rfl⟩
  have hdigit := FlatJson.decimal_isDigit n b hb
  simp only [FlatJson.isDigit, Bool.and_eq_true, decide_eq_true_eq,
    UInt8.le_iff_toNat_le] at hdigit
  simpa [isDigit] using hdigit

theorem decimalText_ne_nil (n : Nat) : decimalText n ≠ [] := by
  simpa [decimalText] using FlatJson.decimal_ne_nil n

theorem digitsValue_decimalText (n : Nat) : digitsValue (decimalText n) = n := by
  have hvalue := FlatJson.digitsValue_decimal n
  unfold digitsValue decimalText
  rw [List.foldl_map]
  exact hvalue

/-- Only zero begins with the digit zero. -/
theorem decimalText_head {n : Nat} (h : (decimalText n).head? = some 48) :
    decimalText n = [48] := by
  by_cases hn : n = 0
  · subst hn
    rfl
  · exfalso
    have hne : Nat.digits 10 n ≠ [] := Nat.digits_ne_nil_iff_ne_zero.mpr hn
    have hlast := Nat.getLast_digit_ne_zero 10 hn
    have hsmall := Nat.digits_lt_base (by omega) (List.getLast_mem hne)
    have hhead : (decimalText n).head? =
        some (FlatJson.digitChar ((Nat.digits 10 n).getLast hne)).toNat := by
      unfold decimalText FlatJson.decimal
      rw [if_neg hn, List.head?_map, List.head?_map, List.head?_reverse,
        List.getLast?_eq_some_getLast hne]
      rfl
    rw [hhead, FlatJson.digitChar_toNat hsmall] at h
    simp only [Option.some.injEq] at h
    omega

theorem scanWhole_decimalText (n : Nat) {rest : Text} (h : Ends isDigit rest) :
    scanWhole (decimalText n ++ rest) = some (decimalText n, rest) := by
  have hne := decimalText_ne_nil n
  rcases List.exists_cons_of_ne_nil hne with ⟨c, ds, hcons⟩
  unfold scanWhole
  by_cases hzero : c = 48
  · subst hzero
    have hone := decimalText_head (n := n) (by rw [hcons]; rfl)
    rw [hone]
    rfl
  · have hhead : ¬ (decimalText n ++ rest).head? = some 48 := by
      rw [hcons]
      simpa using hzero
    rw [if_neg hhead]
    exact scanDigits_append hne (decimalText_isDigit n) h

theorem written_decimal {n : Nat} (hshort : (decimalText n).length ≤ maxDigits) :
    Written (decimalText n) (.integer n) := by
  have hne := decimalText_ne_nil n
  rcases List.exists_cons_of_ne_nil hne with ⟨c, ds, hcons⟩
  have hc : isDigit c = true := decimalText_isDigit n c (by rw [hcons]; exact List.mem_cons_self)
  have hrange : 48 ≤ c ∧ c ≤ 57 := by simpa [isDigit] using hc
  constructor
  · refine ⟨c, by rw [hcons]; rfl, ?_, by omega, by omega⟩
    simp only [isBlank, Bool.or_eq_false_iff, decide_eq_false_iff_not]
    omega
  · intro rest hrest
    have hhead : (decimalText n ++ rest).head? = some c := by
      rw [hcons]
      rfl
    have hnoQuote : ¬ (decimalText n ++ rest).head? = some 34 := by
      rw [hhead, Option.some.injEq]
      omega
    have hnoWord : scanWord words (decimalText n ++ rest) = none := by
      apply scanWord_none
      rw [hhead]
      simp only [words, List.mem_cons, List.not_mem_nil, or_false]
      rintro w (rfl | rfl | rfl)
      all_goals
        refine ⟨by decide, ?_⟩
        intro hsame
        cases hsame
        cases hc
    have hminus : scanMinus (decimalText n ++ rest) = [] := by
      unfold scanMinus
      rw [hhead, if_neg]
      rw [Option.some.injEq]
      omega
    have hpoint : Ends continuesFraction rest := hrest.mono fun d hd => by
      simp [continuesNumber, hd]
    have hdigit : Ends isDigit rest := hpoint.mono fun d hd => by simp [continuesFraction, hd]
    have hfraction : scanFraction rest = ([], rest) := by
      unfold scanFraction
      rw [if_neg]
      intro h46
      exact absurd (hrest 46 h46) (by decide)
    have hexponent : scanExponent rest = ([], rest) := by
      unfold scanExponent
      rw [if_neg]
      rintro (h101 | h69)
      · exact absurd (hrest 101 h101) (by decide)
      · exact absurd (hrest 69 h69) (by decide)
    have hnumber : scanNumber (decimalText n ++ rest) = some (.integer n, rest) := by
      simp only [scanNumber, hminus, List.length_nil, List.drop_zero,
        scanWhole_decimalText n hdigit, hfraction, hexponent]
      simp [numberValue, digitsValue_decimalText, Nat.not_lt.mpr hshort]
    unfold scanScalar
    rw [if_neg hnoQuote, hnoWord, hnumber, Option.none_or, Option.some_or]

/-! ## Objects -/

theorem Written.scanOnce {t : Text} {v : Value} (h : Written t v) {rest : Text}
    (hrest : Ends continuesNumber rest) (fuel : Nat) :
    Json.scanOnce (fuel + 1) (t ++ rest) = some (v, rest) := by
  rcases h.first with ⟨c, hc, -, hbrace, hbracket⟩
  rcases List.head?_eq_some_iff.mp hc with ⟨more, rfl⟩
  have hread := h.read rest hrest
  simpa [Json.scanOnce, hbrace, hbracket] using hread

/-- One member is read, and then what follows its value. -/
theorem scanMembers_field {f : Field} (hf : f.WF) {after : Text}
    (hend : Ends continuesNumber after) (fuel : Nat) :
    scanMembers (fuel + 2) (f.text ++ after) =
      (following 125 (scanMembers (fuel + 1)) after).map
        fun r => ((f.key, f.value) :: r.1, r.2) := by
  have hkey (t : Text) : readString (f.key ++ 34 :: t) = some (f.key, t) := readString_text hf.key t
  have hcolon (t : Text) : skipBlanks (58 :: t) = 58 :: t :=
    dropWhile_ends (ends_cons (by decide) t)
  have hvalue (t : Text) : skipBlanks (f.written ++ t) = f.written ++ t := by
    rcases hf.value.first with ⟨c, hc, hblank, -, -⟩
    rcases List.head?_eq_some_iff.mp hc with ⟨more, hmore⟩
    rw [hmore]
    exact dropWhile_ends (ends_cons hblank _)
  have hread := hf.value.scanOnce hend fuel
  have htext : f.text ++ after = 34 :: (f.key ++ 34 :: 58 :: (f.written ++ after)) := by
    simp [Field.text, quote]
  rw [htext, scanMembers]
  simp [hkey, hcolon, hvalue, hread]

theorem fieldsText_head {fs : List Field} (hne : fs ≠ []) (rest : Text) :
    (fieldsText fs ++ rest).head? = some 34 := by
  cases fs with
  | nil => exact absurd rfl hne
  | cons f fs => cases fs <;> simp [fieldsText, Field.text, quote]

theorem skipBlanks_fieldsText {fs : List Field} (hne : fs ≠ []) (rest : Text) :
    skipBlanks (fieldsText fs ++ rest) = fieldsText fs ++ rest := by
  have hhead := fieldsText_head hne rest
  apply dropWhile_ends
  intro c hc
  rw [hhead] at hc
  cases hc
  rfl

theorem scanMembers_fields (fs : List Field) (hne : fs ≠ []) (hfs : ∀ f ∈ fs, f.WF) {fuel : Nat}
    (hfuel : fs.length < fuel) (rest : Text) :
    scanMembers fuel (fieldsText fs ++ rest) = some (fieldMembers fs, rest) := by
  induction fs generalizing fuel with
  | nil => exact absurd rfl hne
  | cons f fs ih =>
      obtain ⟨fuel, rfl⟩ : ∃ n, fuel = n + 2 :=
        ⟨fuel - 2, by simp only [List.length_cons] at hfuel; omega⟩
      have hf := hfs f List.mem_cons_self
      cases fs with
      | nil =>
          have hend : Ends continuesNumber (125 :: rest) := ends_cons (by decide) rest
          have hclose : skipBlanks (125 :: rest) = 125 :: rest :=
            dropWhile_ends (ends_cons (by decide) rest)
          have htext : fieldsText [f] ++ rest = f.text ++ 125 :: rest := by simp [fieldsText]
          rw [htext, scanMembers_field hf hend]
          simp [following, hclose, fieldMembers]
      | cons g fs =>
          have hcons : g :: fs ≠ [] := List.cons_ne_nil _ _
          have hlen : (g :: fs).length < fuel + 1 := by
            simp only [List.length_cons] at hfuel ⊢
            omega
          have hmore := ih hcons (fun f' hf' => hfs f' (List.mem_cons_of_mem _ hf')) hlen
          have hend : Ends continuesNumber (44 :: (fieldsText (g :: fs) ++ rest)) :=
            ends_cons (by decide) _
          have hcomma : skipBlanks (44 :: (fieldsText (g :: fs) ++ rest)) =
              44 :: (fieldsText (g :: fs) ++ rest) := dropWhile_ends (ends_cons (by decide) _)
          have htext : fieldsText (f :: g :: fs) ++ rest =
              f.text ++ 44 :: (fieldsText (g :: fs) ++ rest) := by simp [fieldsText]
          have hfollow : following 125 (scanMembers (fuel + 1))
              (44 :: (fieldsText (g :: fs) ++ rest)) = some (fieldMembers (g :: fs), rest) := by
            unfold following
            rw [hcomma]
            simp only [List.head?_cons, List.tail_cons, skipBlanks_fieldsText hcons, hmore]
            rfl
          rw [htext, scanMembers_field hf hend, hfollow]
          rfl

theorem length_fieldsText (fs : List Field) : fs.length ≤ (fieldsText fs).length := by
  fun_induction fieldsText fs with
  | case1 => simp
  | case2 => simp
  | case3 f g fs ih =>
      simp only [List.length_cons, List.length_append] at ih ⊢
      omega

/-- Reading what was written gives the members, and leaves what follows. -/
theorem rawDecode_objectText {fs : List Field} (hne : fs ≠ []) (hfs : ∀ f ∈ fs, f.WF)
    (rest : Text) :
    rawDecode (objectText fs ++ rest) = some (.object (fieldMembers fs), rest) := by
  have hfuel : fs.length < (objectText fs ++ rest).length := by
    have hlen := length_fieldsText fs
    simp only [objectText, List.length_append, List.length_cons]
    omega
  have hread := scanMembers_fields fs hne hfs hfuel rest
  have hinside : inside 125 (scanMembers (objectText fs ++ rest).length) (fieldsText fs ++ rest) =
      some (fieldMembers fs, rest) := by
    unfold inside
    dsimp only
    rw [skipBlanks_fieldsText hne, fieldsText_head hne]
    exact hread
  have htext : objectText fs ++ rest = 123 :: (fieldsText fs ++ rest) := rfl
  unfold rawDecode scanOnce
  rw [if_pos (by rw [htext]; rfl)]
  have htail : (objectText fs ++ rest).tail = fieldsText fs ++ rest := rfl
  rw [htail, hinside]
  rfl

/-! ## The closing brace -/

theorem skipBlanks_suffix (s : Text) : skipBlanks s <:+ s := List.dropWhile_suffix _

/-- A text that begins with a character is that character and what follows it. -/
theorem cons_tail {c : Nat} {s : Text} (h : s.head? = some c) : c :: s.tail = s := by
  rcases List.head?_eq_some_iff.mp h with ⟨rest, rfl⟩
  rfl

theorem following_suffix {α : Type} {scan : Text → Option (List α × Text)} {s : Text}
    {r : List α × Text} (hscan : ∀ t r, scan t = some r → 125 :: r.2 <:+ t)
    (h : following 125 scan s = some r) : 125 :: r.2 <:+ s := by
  unfold following at h
  dsimp only at h
  split_ifs at h with hend hcomma
  · cases h
    rw [cons_tail hend]
    exact skipBlanks_suffix s
  · have hrest := (hscan _ _ h).trans (skipBlanks_suffix _)
    exact (hrest.trans (List.tail_suffix _)).trans (skipBlanks_suffix s)

theorem scanMembers_suffix (fuel : Nat) :
    ∀ s r, scanMembers fuel s = some r → 125 :: r.2 <:+ s := by
  induction fuel with
  | zero =>
      intro s r h
      cases h
  | succ fuel ih =>
      intro s r h
      unfold scanMembers at h
      split_ifs at h with hquote
      simp only [Option.bind_eq_bind, Option.bind_eq_some_iff, Prod.exists] at h
      rcases h with ⟨key, afterKey, hkey, h⟩
      split_ifs at h
      simp only [Option.bind_eq_some_iff, Option.map_eq_some_iff, Prod.exists] at h
      rcases h with ⟨value, afterValue, hvalue, more, rest, hmore, rfl⟩
      rcases readString_reads hkey with ⟨used, hused, -⟩
      rcases (scan_reads fuel).1 _ _ _ hvalue with ⟨used', hused', -⟩
      have hlast : 125 :: rest <:+ afterValue := following_suffix ih hmore
      have hcolon : afterValue <:+ skipBlanks (skipBlanks afterKey).tail := by
        rw [hused']
        exact List.suffix_append _ _
      have hafter : skipBlanks (skipBlanks afterKey).tail <:+ afterKey :=
        ((skipBlanks_suffix _).trans (List.tail_suffix _)).trans (skipBlanks_suffix _)
      have hstring : afterKey <:+ s.tail := by
        rw [hused]
        exact List.suffix_append _ _
      exact (((hlast.trans hcolon).trans hafter).trans hstring).trans (List.tail_suffix s)

/-- What is read of an object ends with its brace. -/
theorem rawDecode_suffix {s rest : Text} {members : List (Text × Value)}
    (h : rawDecode s = some (.object members, rest)) :
    s.head? = some 123 ∧ 125 :: rest <:+ s.tail := by
  unfold rawDecode scanOnce at h
  split_ifs at h with hobject harray
  · refine ⟨hobject, ?_⟩
    simp only [Option.map_eq_some_iff, Prod.mk.injEq, Prod.exists] at h
    rcases h with ⟨_, _, hinside, -, rfl⟩
    unfold inside at hinside
    dsimp only at hinside
    split_ifs at hinside with hend
    · cases hinside
      rw [cons_tail hend]
      exact skipBlanks_suffix _
    · exact (scanMembers_suffix _ _ _ hinside).trans (skipBlanks_suffix _)
  · simp only [Option.map_eq_some_iff, Prod.mk.injEq, reduceCtorEq, false_and, and_false,
      exists_const] at h
  · exact absurd h scanScalar_ne_object

theorem rawDecode_mem {s rest : Text} {members : List (Text × Value)}
    (h : rawDecode s = some (.object members, rest)) : 125 ∈ s :=
  List.mem_of_mem_tail ((rawDecode_suffix h).2.mem List.mem_cons_self)

/-- An object is read up to its brace, whatever follows. -/
theorem rawDecode_append {s rest : Text} {members : List (Text × Value)}
    (h : rawDecode s = some (.object members, rest)) :
    ∃ body, s = body ++ 125 :: rest ∧
      ∀ after, rawDecode (body ++ 125 :: after) = some (.object members, after) := by
  rcases (scan_reads _).1 _ _ _ h with ⟨used, hs, hread⟩
  rcases (rawDecode_suffix h).2.trans (List.tail_suffix s) with ⟨body, hbody⟩
  have hused : used = body ++ [125] := by
    have hends : used ++ rest = body ++ [125] ++ rest := by
      rw [← hs, ← hbody, List.append_cons]
    exact List.append_cancel_right hends
  refine ⟨body, hbody.symm, ?_⟩
  intro after
  have hagain := hread.read ((body ++ 125 :: after).length + 1)
    (by simp only [hused, List.length_append, List.length_cons, List.length_nil]; omega) after
    (.inr ⟨members, rfl⟩)
  rw [hused, ← List.append_cons] at hagain
  exact hagain

theorem rawDecode_head {s rest : Text} {members : List (Text × Value)}
    (h : rawDecode s = some (.object members, rest)) : s.head? = some 123 := (rawDecode_suffix h).1

/-- `loads` of an object leaves blanks behind the brace and nothing else. -/
theorem loads_object {t : Text} {members : List (Text × Value)}
    (h : loads t = some (.object members)) :
    ∃ body rest, skipBlanks t = body ++ 125 :: rest ∧ skipBlanks rest = [] ∧
      (skipBlanks t).head? = some 123 ∧
      ∀ after, rawDecode (body ++ 125 :: after) = some (.object members, after) := by
  unfold loads at h
  split at h
  case h_1 v rest hread =>
      split_ifs at h with hblank
      cases h
      rcases rawDecode_append hread with ⟨body, hbody, hagain⟩
      exact ⟨body, rest, hbody, hblank, rawDecode_head hread, hagain⟩
  case h_2 => cases h

/-- The closing brace is the only one if no member has any. -/
theorem fieldsText_body {fs : List Field} (h : ∀ f ∈ fs, 125 ∉ f.text) :
    ∃ body, fieldsText fs = body ++ [125] ∧ 125 ∉ body := by
  fun_induction fieldsText fs with
  | case1 => exact ⟨[], rfl, List.not_mem_nil⟩
  | case2 f => exact ⟨f.text, rfl, h f List.mem_cons_self⟩
  | case3 f g fs ih =>
      rcases ih (fun f' hf' => h f' (List.mem_cons_of_mem _ hf')) with ⟨body, hbody, hnone⟩
      refine ⟨f.text ++ 44 :: body, by rw [hbody]; simp, ?_⟩
      simp [h f List.mem_cons_self, hnone]

/-- A beginning of an object that is not all of it has no brace that closes it. -/
theorem objectText_cut {fs : List Field} (h : ∀ f ∈ fs, 125 ∉ f.text) {n : Nat}
    (hn : n < (objectText fs).length) : 125 ∉ (objectText fs).take n := by
  rcases fieldsText_body h with ⟨body, hbody, hnone⟩
  have hall : objectText fs = 123 :: body ++ [125] := by rw [objectText, hbody]; rfl
  rw [hall, List.length_append, List.length_singleton] at hn
  rw [hall, List.take_append_of_le_length (by omega)]
  intro hmem
  have hbody := List.mem_of_mem_take hmem
  simp [hnone] at hbody

end Json
