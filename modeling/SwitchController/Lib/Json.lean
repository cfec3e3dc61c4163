import SwitchController.Lib.Str

/-! # Reading JSON

The decoder of Python's `json` module. `rawDecode` reads one value from the start of
a text and gives back what follows it; `loads` allows blanks around the value and
nothing else. A text that is no value is `none`, for the `ValueError` it raises, and so
is one with an integer that is too long for `int`. The recursion limit of the
interpreter is left out: nesting is bounded by the text alone.
-/

namespace Json

open Str

/-- A value; of a number with a fraction or an exponent only its literal is kept. -/
inductive Value
  | null
  | boolean (value : Bool)
  | integer (value : Int)
  | float (literal : Text)
  | string (value : Text)
  | array (items : List Value)
  | object (members : List (Text × Value))

/-- `dict.get`: of members with one name the last counts. -/
def get (members : List (Text × Value)) (key : Text) : Option Value :=
  (members.reverse.find? fun m => m.1 = key).map Prod.snd

/-! ## Scanning -/

def isBlank (c : Nat) : Bool := c = 32 || c = 9 || c = 10 || c = 13

def skipBlanks (s : Text) : Text := s.dropWhile isBlank

def isDigit (c : Nat) : Bool := 48 ≤ c && c ≤ 57

def digitsValue (ds : Text) : Nat := ds.foldl (fun n c => 10 * n + (c - 48)) 0

def scanDigits (s : Text) : Option (Text × Text) :=
  if s.takeWhile isDigit = [] then none else some (s.takeWhile isDigit, s.dropWhile isDigit)

/-- `0`, or digits that do not begin with one. -/
def scanWhole (s : Text) : Option (Text × Text) :=
  if s.head? = some 48 then some ([48], s.tail) else scanDigits s

/-- A point and digits, if they follow. -/
def scanFraction (s : Text) : Text × Text :=
  if s.head? = some 46 then
    match scanDigits s.tail with
    | some (ds, rest) => (46 :: ds, rest)
    | none => ([], s)
  else ([], s)

def scanSign (s : Text) : Text × Text :=
  if s.head? = some 43 ∨ s.head? = some 45 then (s.take 1, s.tail) else ([], s)

/-- `e` or `E` with a sign and digits, if they follow. -/
def scanExponent (s : Text) : Text × Text :=
  if s.head? = some 101 ∨ s.head? = some 69 then
    match scanDigits (scanSign s.tail).2 with
    | some (ds, rest) => (s.take 1 ++ (scanSign s.tail).1 ++ ds, rest)
    | none => ([], s)
  else ([], s)

def scanMinus (s : Text) : Text := if s.head? = some 45 then [45] else []

/-- The digits `int` takes before it raises its `ValueError`. -/
def maxDigits : Nat := 4300

/-- The number of these parts: an `int` only without a fraction and an exponent. -/
def numberValue (minus whole fraction exponent : Text) : Option Value :=
  if fraction = [] ∧ exponent = [] then
    if whole.length > maxDigits then none
    else some (.integer (if minus = [] then digitsValue whole else -digitsValue whole))
  else some (.float (minus ++ whole ++ fraction ++ exponent))

def scanNumber (s : Text) : Option (Value × Text) :=
  let minus := scanMinus s
  match scanWhole (s.drop minus.length) with
  | none => none
  | some (whole, rest) =>
      let fraction := scanFraction rest
      let exponent := scanExponent fraction.2
      (numberValue minus whole fraction.1 exponent.1).map fun v => (v, exponent.2)

def hexValue (c : Nat) : Option Nat :=
  if isDigit c then some (c - 48)
  else if 97 ≤ c ∧ c ≤ 102 then some (c - 87)
  else if 65 ≤ c ∧ c ≤ 70 then some (c - 55)
  else none

def hexUnit (digits : Text) : Option Nat :=
  digits.foldlM (fun n c => (hexValue c).map (16 * n + ·)) 0

/-- The characters a backslash takes besides `u`. -/
def escape (c : Nat) : Option Nat :=
  if c = 34 ∨ c = 92 ∨ c = 47 then some c
  else if c = 98 then some 8
  else if c = 102 then some 12
  else if c = 110 then some 10
  else if c = 114 then some 13
  else if c = 116 then some 9
  else none

def scanString : Text → Option (Text × Text)
  | [] => none
  | c :: s =>
      if c = 34 then some ([], s)
      else if c = 92 then
        match s with
        | 117 :: h₁ :: h₂ :: h₃ :: h₄ :: s =>
            match hexUnit [h₁, h₂, h₃, h₄] with
            | some u => (scanString s).map fun r => (u :: r.1, r.2)
            | none => none
        | e :: s =>
            match escape e with
            | some u => (scanString s).map fun r => (u :: r.1, r.2)
            | none => none
        | [] => none
      else if c < 32 then none
      else (scanString s).map fun r => (c :: r.1, r.2)

/-- Two surrogates that follow one another are one character. -/
def joinSurrogates : Text → Text
  | [] => []
  | [u] => [u]
  | hi :: lo :: s =>
      if (0xd800 ≤ hi ∧ hi ≤ 0xdbff) ∧ 0xdc00 ≤ lo ∧ lo ≤ 0xdfff then
        (0x10000 + 0x400 * (hi - 0xd800) + (lo - 0xdc00)) :: joinSurrogates s
      else hi :: joinSurrogates (lo :: s)

/-- A string behind its opening quote. -/
def readString (s : Text) : Option (Text × Text) :=
  (scanString s).map fun r => (joinSurrogates r.1, r.2)

def words : List (Text × Value) :=
  [(text "null", .null), (text "true", .boolean true), (text "false", .boolean false)]

/-- The words Python reads as numbers besides. -/
def floatWords : List (Text × Value) :=
  [(text "NaN", .float (text "NaN")), (text "Infinity", .float (text "Infinity")),
    (text "-Infinity", .float (text "-Infinity"))]

/-- A word of the list, if the text begins with one. -/
def scanWord (table : List (Text × Value)) (s : Text) : Option (Value × Text) :=
  (table.find? fun w => w.1.isPrefixOf s).map fun w => (w.2, s.drop w.1.length)

def scanScalar (s : Text) : Option (Value × Text) :=
  if s.head? = some 34 then (readString s.tail).map fun r => (.string r.1, r.2)
  else (scanWord words s).or ((scanNumber s).or (scanWord floatWords s))

/-- What stands between an opening and a closing character. -/
def inside {α : Type} (close : Nat) (scan : Text → Option (List α × Text)) (s : Text) :
    Option (List α × Text) :=
  let inner := skipBlanks s
  if inner.head? = some close then some ([], inner.tail) else scan inner

/-- What follows an element: the closing character, or a comma and more elements. -/
def following {α : Type} (close : Nat) (scan : Text → Option (List α × Text)) (s : Text) :
    Option (List α × Text) :=
  let s := skipBlanks s
  if s.head? = some close then some ([], s.tail)
  else if s.head? = some 44 then scan (skipBlanks s.tail)
  else none

mutual

/-- `scan_once`. The fuel bounds the depth and the number of members. -/
def scanOnce : Nat → Text → Option (Value × Text)
  | 0, _ => none
  | fuel + 1, s =>
      if s.head? = some 123 then
        (inside 125 (scanMembers fuel) s.tail).map fun r => (.object r.1, r.2)
      else if s.head? = some 91 then
        (inside 93 (scanItems fuel) s.tail).map fun r => (.array r.1, r.2)
      else scanScalar s

def scanMembers : Nat → Text → Option (List (Text × Value) × Text)
  | 0, _ => none
  | fuel + 1, s =>
      if s.head? = some 34 then do
        let (key, s) ← readString s.tail
        let s := skipBlanks s
        if s.head? = some 58 then
          let (value, s) ← scanOnce fuel (skipBlanks s.tail)
          (following 125 (scanMembers fuel) s).map fun r => ((key, value) :: r.1, r.2)
        else none
      else none

def scanItems : Nat → Text → Option (List Value × Text)
  | 0, _ => none
  | fuel + 1, s => do
      let (value, s) ← scanOnce fuel s
      (following 93 (scanItems fuel) s).map fun r => (value :: r.1, r.2)

end

/-- `JSONDecoder().raw_decode`. -/
def rawDecode (s : Text) : Option (Value × Text) := scanOnce (s.length + 1) s

/-- `json.loads`. -/
def loads (s : Text) : Option Value :=
  match rawDecode (skipBlanks s) with
  | some (value, rest) => if skipBlanks rest = [] then some value else none
  | none => none

/-! ## Where a scanner stops -/

/-- The text does not begin with such a character. -/
def Ends (p : Nat → Bool) (s : Text) : Prop := ∀ c, s.head? = some c → p c = false

theorem ends_nil (p : Nat → Bool) : Ends p [] := by
  intro c hc
  cases hc

theorem ends_cons {p : Nat → Bool} {c : Nat} (h : p c = false) (s : Text) : Ends p (c :: s) := by
  intro d hd
  cases hd
  exact h

theorem Ends.append {p : Nat → Bool} {used rest : Text} (hne : used ≠ [])
    (h : Ends p (used ++ rest)) (rest' : Text) : Ends p (used ++ rest') := by
  cases used with
  | nil => exact absurd rfl hne
  | cons c used => exact ends_cons (h c rfl) _

theorem Ends.mono {p q : Nat → Bool} {s : Text} (h : Ends q s)
    (hpq : ∀ c, p c = true → q c = true) : Ends p s := by
  intro c hc
  have hq := h c hc
  by_contra hp
  rw [hpq c (by simpa using hp)] at hq
  cases hq

theorem dropWhile_ends {p : Nat → Bool} {s : Text} (h : Ends p s) : s.dropWhile p = s := by
  cases s with
  | nil => rfl
  | cons c s => simp [h c rfl]

theorem takeWhile_ends {p : Nat → Bool} {s : Text} (h : Ends p s) : s.takeWhile p = [] := by
  cases s with
  | nil => rfl
  | cons c s => simp [h c rfl]

theorem ends_dropWhile (p : Nat → Bool) (s : Text) : Ends p (s.dropWhile p) := by
  intro c hc
  have hne : s.dropWhile p ≠ [] := by
    intro hnil
    rw [hnil] at hc
    cases hc
  rw [List.head?_eq_some_head hne] at hc
  cases hc
  exact List.head_dropWhile_not p hne

/-- The blanks a text begins with are skipped before anything else that is no blank. -/
theorem skipBlanks_split (s : Text) :
    ∃ blanks, s = blanks ++ skipBlanks s ∧ (∀ c ∈ blanks, isBlank c = true) ∧
      ∀ t, Ends isBlank t → skipBlanks (blanks ++ t) = t := by
  have hall : ∀ c ∈ s.takeWhile isBlank, isBlank c = true := fun c hc => List.mem_takeWhile_imp hc
  refine ⟨s.takeWhile isBlank, List.takeWhile_append_dropWhile.symm, hall, ?_⟩
  intro t ht
  unfold skipBlanks
  rw [List.dropWhile_append_of_pos hall]
  exact dropWhile_ends ht

/-! ## Numbers

A scanner that succeeds has read a part of its text, and it reads that part the same
whatever follows, as long as what follows does not continue it.
-/

/-- The characters that could continue the digits before a point, the digits behind it and
a whole number. -/
def continuesFraction (c : Nat) : Bool := isDigit c || c = 46

def continuesNumber (c : Nat) : Bool := continuesFraction c || c = 101 || c = 69

theorem scanDigits_append {ds rest : Text} (hne : ds ≠ []) (hds : ∀ c ∈ ds, isDigit c = true)
    (hrest : Ends isDigit rest) : scanDigits (ds ++ rest) = some (ds, rest) := by
  unfold scanDigits
  rw [List.takeWhile_append_of_pos hds, List.dropWhile_append_of_pos hds, takeWhile_ends hrest,
    dropWhile_ends hrest, List.append_nil, if_neg hne]

theorem scanDigits_reads {s ds rest : Text} (h : scanDigits s = some (ds, rest)) :
    s = ds ++ rest ∧ ds ≠ [] ∧ ∀ c ∈ ds, isDigit c = true := by
  unfold scanDigits at h
  split_ifs at h with hne
  cases h
  exact ⟨List.takeWhile_append_dropWhile.symm, hne, fun c hc => List.mem_takeWhile_imp hc⟩

theorem scanWhole_reads {s whole rest : Text} (h : scanWhole s = some (whole, rest)) :
    s = whole ++ rest ∧ (∃ c, whole.head? = some c ∧ isDigit c = true) ∧
      ∀ rest', Ends isDigit rest' → scanWhole (whole ++ rest') = some (whole, rest') := by
  unfold scanWhole at h
  split_ifs at h with hzero
  · cases h
    rcases List.head?_eq_some_iff.mp hzero with ⟨rest, rfl⟩
    exact ⟨rfl, ⟨48, rfl, rfl⟩, fun _ _ => rfl⟩
  · rcases scanDigits_reads h with ⟨rfl, hne, hds⟩
    rcases List.exists_cons_of_ne_nil hne with ⟨c, ds, rfl⟩
    have hc : (c :: ds ++ rest).head? = some c := rfl
    refine ⟨rfl, ⟨c, rfl, hds c List.mem_cons_self⟩, ?_⟩
    intro rest' hrest'
    have hsame : ¬ (c :: ds ++ rest').head? = some 48 := by
      rw [hc] at hzero
      exact hzero
    unfold scanWhole
    rw [if_neg hsame]
    exact scanDigits_append hne hds hrest'

theorem scanFraction_reads {s fraction rest : Text} (h : scanFraction s = (fraction, rest)) :
    s = fraction ++ rest ∧ Ends isDigit fraction ∧
      ∀ rest', Ends continuesFraction rest' →
        scanFraction (fraction ++ rest') = (fraction, rest') := by
  have hempty : ∀ rest', Ends continuesFraction rest' → scanFraction rest' = ([], rest') := by
    intro rest' hrest'
    unfold scanFraction
    rw [if_neg]
    intro hpoint
    exact absurd (hrest' 46 hpoint) (by decide)
  unfold scanFraction at h
  split at h
  case isTrue hpoint =>
      rcases List.head?_eq_some_iff.mp hpoint with ⟨s, rfl⟩
      split at h
      case h_1 ds rest' hscan =>
          cases h
          rcases scanDigits_reads hscan with ⟨htail, hne, hds⟩
          rw [List.tail_cons] at htail
          refine ⟨by rw [htail]; rfl, ends_cons (by decide) _, ?_⟩
          intro rest'' hrest''
          have hdigits := scanDigits_append hne hds (hrest''.mono fun c hc => by
            simp [continuesFraction, hc])
          simp [scanFraction, hdigits]
      case h_2 =>
          cases h
          exact ⟨rfl, ends_nil _, hempty⟩
  case isFalse =>
      cases h
      exact ⟨rfl, ends_nil _, hempty⟩

theorem scanSign_reads (s : Text) :
    s = (scanSign s).1 ++ (scanSign s).2 ∧
      ∀ c s', isDigit c = true →
        scanSign ((scanSign s).1 ++ c :: s') = ((scanSign s).1, c :: s') := by
  by_cases hsign : s.head? = some 43 ∨ s.head? = some 45
  · rcases hsign with hplus | hminus
    · rcases List.head?_eq_some_iff.mp hplus with ⟨s, rfl⟩
      exact ⟨rfl, fun _ _ _ => rfl⟩
    · rcases List.head?_eq_some_iff.mp hminus with ⟨s, rfl⟩
      exact ⟨rfl, fun _ _ _ => rfl⟩
  · have hnone : scanSign s = ([], s) := if_neg hsign
    rw [hnone]
    refine ⟨rfl, ?_⟩
    intro c s' hc
    apply if_neg
    rintro (h | h)
    · cases h
      cases hc
    · cases h
      cases hc

theorem scanExponent_reads {s exponent rest : Text} (h : scanExponent s = (exponent, rest)) :
    s = exponent ++ rest ∧ Ends continuesFraction exponent ∧
      ∀ rest', Ends continuesNumber rest' →
        scanExponent (exponent ++ rest') = (exponent, rest') := by
  have hempty : ∀ rest', Ends continuesNumber rest' → scanExponent rest' = ([], rest') := by
    intro rest' hrest'
    unfold scanExponent
    rw [if_neg]
    rintro (he | he)
    · exact absurd (hrest' 101 he) (by decide)
    · exact absurd (hrest' 69 he) (by decide)
  unfold scanExponent at h
  split at h
  case isTrue hmark =>
      have hcons : ∃ e tail, s = e :: tail ∧ (e = 101 ∨ e = 69) := by
        rcases hmark with he | he
        · rcases List.head?_eq_some_iff.mp he with ⟨tail, rfl⟩
          exact ⟨101, tail, rfl, .inl rfl⟩
        · rcases List.head?_eq_some_iff.mp he with ⟨tail, rfl⟩
          exact ⟨69, tail, rfl, .inr rfl⟩
      rcases hcons with ⟨e, tail, rfl, he⟩
      have hends : ∀ t, Ends continuesFraction (e :: t) := by
        rcases he with rfl | rfl
        · exact ends_cons (by decide)
        · exact ends_cons (by decide)
      simp only [List.tail_cons] at h
      split at h
      case h_1 ds rest' hscan =>
          cases h
          have hsign := scanSign_reads tail
          rcases scanDigits_reads hscan with ⟨hdigits, hne, hds⟩
          rcases List.exists_cons_of_ne_nil hne with ⟨d, more, rfl⟩
          refine ⟨?_, hends _, ?_⟩
          · have htail := hsign.1
            rw [hdigits] at htail
            simpa using htail
          · intro rest'' hrest''
            have hread := scanDigits_append hne hds (hrest''.mono fun c hc => by
              simp [continuesNumber, continuesFraction, hc])
            have hsame := hsign.2 d (more ++ rest'') (hds d List.mem_cons_self)
            have htext : (e :: tail).take 1 ++ (scanSign tail).1 ++ d :: more ++ rest'' =
                e :: ((scanSign tail).1 ++ d :: (more ++ rest'')) := by simp
            rw [htext]
            unfold scanExponent
            rw [if_pos (by rcases he with rfl | rfl <;> simp)]
            simp only [List.tail_cons, hsame]
            rw [← List.cons_append, hread]
            rfl
      case h_2 =>
          cases h
          exact ⟨rfl, ends_nil _, hempty⟩
  case isFalse =>
      cases h
      exact ⟨rfl, ends_nil _, hempty⟩

theorem scanMinus_reads (s : Text) :
    s = scanMinus s ++ s.drop (scanMinus s).length ∧
      ∀ c t, isDigit c = true → scanMinus (scanMinus s ++ c :: t) = scanMinus s := by
  by_cases hneg : s.head? = some 45
  · rcases List.head?_eq_some_iff.mp hneg with ⟨s, rfl⟩
    exact ⟨rfl, fun _ _ _ => rfl⟩
  · have hnone : scanMinus s = [] := if_neg hneg
    rw [hnone]
    refine ⟨rfl, ?_⟩
    intro c t hc
    apply if_neg
    intro h45
    cases h45
    cases hc

theorem scanNumber_reads {s rest : Text} {v : Value} (h : scanNumber s = some (v, rest)) :
    ∃ used, s = used ++ rest ∧ (∃ c, used.head? = some c ∧ (c = 45 ∨ isDigit c = true)) ∧
      ∀ rest', Ends continuesNumber rest' → scanNumber (used ++ rest') = some (v, rest') := by
  have hminus := scanMinus_reads s
  unfold scanNumber at h
  dsimp only at h
  split at h
  case h_1 => cases h
  case h_2 whole rest₀ hwhole =>
      simp only [Option.map_eq_some_iff, Prod.mk.injEq] at h
      rcases h with ⟨v, hvalue, rfl, rfl⟩
      rcases scanWhole_reads hwhole with ⟨hw, ⟨c, hc, hdigit⟩, hwread⟩
      rcases List.head?_eq_some_iff.mp hc with ⟨more, rfl⟩
      have hfraction := scanFraction_reads (Prod.eta (scanFraction rest₀)).symm
      have hexponent := scanExponent_reads
        (Prod.eta (scanExponent (scanFraction rest₀).2)).symm
      generalize scanFraction rest₀ = fraction at hfraction hexponent hvalue
      generalize scanExponent fraction.2 = exponent at hexponent hvalue
      have hhead : ∃ d, (scanMinus s ++ c :: more ++ fraction.1 ++ exponent.1).head? = some d ∧
          (d = 45 ∨ isDigit d = true) := by
        unfold scanMinus
        split
        · exact ⟨45, rfl, .inl rfl⟩
        · exact ⟨c, rfl, .inr hdigit⟩
      refine ⟨scanMinus s ++ c :: more ++ fraction.1 ++ exponent.1, ?_, hhead, ?_⟩
      · rw [List.append_assoc, List.append_assoc, List.append_assoc, ← hexponent.1,
          ← hfraction.1, ← hw]
        exact hminus.1
      · intro rest' hrest'
        have hpoint : Ends continuesFraction (exponent.1 ++ rest') := by
          by_cases hnil : exponent.1 = []
          · rw [hnil]
            exact hrest'.mono fun d hd => by simp [continuesNumber, hd]
          · have hself := hexponent.2.1
            rw [← List.append_nil exponent.1] at hself
            exact hself.append hnil _
        have hend : Ends isDigit (fraction.1 ++ (exponent.1 ++ rest')) := by
          by_cases hnil : fraction.1 = []
          · rw [hnil]
            exact hpoint.mono fun d hd => by simp [continuesFraction, hd]
          · have hself := hfraction.2.1
            rw [← List.append_nil fraction.1] at hself
            exact hself.append hnil _
        have hsign := hminus.2 c (more ++ (fraction.1 ++ (exponent.1 ++ rest'))) hdigit
        have htext : scanMinus s ++ c :: more ++ fraction.1 ++ exponent.1 ++ rest' =
            scanMinus s ++ c :: (more ++ (fraction.1 ++ (exponent.1 ++ rest'))) := by simp
        rw [htext]
        unfold scanNumber
        dsimp only
        rw [hsign, List.drop_left, ← List.cons_append, hwread _ hend]
        dsimp only
        rw [hfraction.2.2 _ hpoint]
        dsimp only
        rw [hexponent.2.2 _ hrest', hvalue, Option.map_some]

/-! ## Strings -/

theorem scanString_quote (s : Text) : scanString (34 :: s) = some ([], s) := by
  unfold scanString
  simp

theorem scanString_unit {h₁ h₂ h₃ h₄ u : Nat} (hu : hexUnit [h₁, h₂, h₃, h₄] = some u) (s : Text) :
    scanString (92 :: 117 :: h₁ :: h₂ :: h₃ :: h₄ :: s) =
      (scanString s).map fun r => (u :: r.1, r.2) := by
  rw [scanString]
  simp [hu]

theorem scanString_escape {e u : Nat} (hu : escape e = some u) (s : Text) :
    scanString (92 :: e :: s) = (scanString s).map fun r => (u :: r.1, r.2) := by
  have hne : e ≠ 117 := by
    rintro rfl
    cases hu
  rw [scanString.eq_def]
  simp [hne, hu]

theorem scanString_plain {c : Nat} (hquote : c ≠ 34) (hback : c ≠ 92) (hctrl : ¬ c < 32)
    (s : Text) : scanString (c :: s) = (scanString s).map fun r => (c :: r.1, r.2) := by
  rw [scanString.eq_def]
  simp [hquote, hback, hctrl]

/-- A character in front of a string that is read the same whatever follows. -/
theorem scanString_cons (head : Text) {s v rest : Text} {u : Nat}
    (hmap : ∀ t, scanString (head ++ t) = (scanString t).map fun r => (u :: r.1, r.2))
    (hread : ∀ v', scanString s = some (v', rest) →
      ∃ used, s = used ++ rest ∧ ∀ rest', scanString (used ++ rest') = some (v', rest'))
    (h : (scanString s).map (fun r => (u :: r.1, r.2)) = some (v, rest)) :
    ∃ used, head ++ s = used ++ rest ∧ ∀ rest', scanString (used ++ rest') = some (v, rest') := by
  simp only [Option.map_eq_some_iff, Prod.mk.injEq, Prod.exists] at h
  rcases h with ⟨v', _, hscan, rfl, rfl⟩
  rcases hread v' hscan with ⟨used, rfl, hagain⟩
  refine ⟨head ++ used, (List.append_assoc ..).symm, ?_⟩
  intro rest'
  rw [List.append_assoc, hmap, hagain, Option.map_some]

theorem scanString_reads {s v rest : Text} (h : scanString s = some (v, rest)) :
    ∃ used, s = used ++ rest ∧ ∀ rest', scanString (used ++ rest') = some (v, rest') := by
  fun_induction scanString s generalizing v with
  | case1 => cases h
  | case2 s =>
      cases h
      exact ⟨[34], rfl, scanString_quote⟩
  | case3 h₁ h₂ h₃ h₄ s u hu _ ih =>
      exact scanString_cons [92, 117, h₁, h₂, h₃, h₄] (scanString_unit hu)
        (fun _ hscan => ih hscan) h
  | case4 => cases h
  | case5 e s _ u hu _ ih =>
      exact scanString_cons [92, e] (scanString_escape hu) (fun _ hscan => ih hscan) h
  | case6 => cases h
  | case7 => cases h
  | case8 => cases h
  | case9 c s hquote hback hctrl ih =>
      exact scanString_cons [c] (scanString_plain hquote hback hctrl)
        (fun _ hscan => ih hscan) h

theorem readString_reads {s v rest : Text} (h : readString s = some (v, rest)) :
    ∃ used, s = used ++ rest ∧ ∀ rest', readString (used ++ rest') = some (v, rest') := by
  simp only [readString, Option.map_eq_some_iff, Prod.mk.injEq, Prod.exists] at h
  rcases h with ⟨units, _, hscan, rfl, rfl⟩
  rcases scanString_reads hscan with ⟨used, rfl, hread⟩
  refine ⟨used, rfl, ?_⟩
  intro rest'
  rw [readString, hread, Option.map_some]

/-! ## Words and scalars -/

theorem scanWord_reads {table : List (Text × Value)} {s rest : Text} {v : Value}
    (hfree : table.Pairwise fun w w' => ¬ w.1 <+: w'.1 ∧ ¬ w'.1 <+: w.1)
    (h : scanWord table s = some (v, rest)) :
    ∃ w ∈ table, s = w.1 ++ rest ∧ ∀ rest', scanWord table (w.1 ++ rest') = some (v, rest') := by
  simp only [scanWord, Option.map_eq_some_iff, Prod.mk.injEq] at h
  rcases h with ⟨w, hfind, rfl, rfl⟩
  have hmem := List.mem_of_find?_eq_some hfind
  have hprefix : w.1 <+: s := by simpa using List.find?_some hfind
  refine ⟨w, hmem, (List.prefix_iff_eq_append.mp hprefix).symm, ?_⟩
  intro rest'
  -- no other word begins the new text, since it would begin this word or go on from it
  have hagain : (table.find? fun w' => w'.1.isPrefixOf (w.1 ++ rest')) = some w := by
    clear hfind
    induction table with
    | nil => cases hmem
    | cons w₀ table ih =>
        rw [List.pairwise_cons] at hfree
        rcases List.mem_cons.mp hmem with rfl | htail
        · exact List.find?_cons_of_pos (by simp)
        · have hapart := hfree.1 w htail
          rw [List.find?_cons_of_neg, ih hfree.2 htail]
          intro hboth
          have hboth : w₀.1 <+: w.1 ++ rest' := by simpa using hboth
          rcases List.prefix_or_prefix_of_prefix hboth (List.prefix_append w.1 rest') with h | h
          · exact hapart.1 h
          · exact hapart.2 h
  simp [scanWord, hagain]

theorem scanWord_mem {table : List (Text × Value)} {s rest : Text} {v : Value}
    (h : scanWord table s = some (v, rest)) : ∃ t, (t, v) ∈ table := by
  simp only [scanWord, Option.map_eq_some_iff, Prod.mk.injEq] at h
  rcases h with ⟨w, hfind, rfl, -⟩
  exact ⟨w.1, List.mem_of_find?_eq_some hfind⟩

theorem scanWord_none {table : List (Text × Value)} {s : Text}
    (h : ∀ w ∈ table, w.1 ≠ [] ∧ w.1.head? ≠ s.head?) : scanWord table s = none := by
  have hnone : (table.find? fun w => w.1.isPrefixOf s) = none := by
    rw [List.find?_eq_none]
    intro w hw hprefix
    have hprefix : w.1 <+: s := by simpa using hprefix
    rcases hprefix with ⟨rest, rfl⟩
    apply (h w hw).2
    cases hw' : w.1 with
    | nil => exact absurd hw' (h w hw).1
    | cons c cs => rfl
  simp [scanWord, hnone]

theorem scanScalar_reads {s rest : Text} {v : Value} (h : scanScalar s = some (v, rest)) :
    ∃ used, s = used ++ rest ∧ used ≠ [] ∧
      ∀ rest', Ends continuesNumber rest' → scanScalar (used ++ rest') = some (v, rest') := by
  unfold scanScalar at h
  split_ifs at h with hquote
  · rcases List.head?_eq_some_iff.mp hquote with ⟨s, rfl⟩
    simp only [List.tail_cons, Option.map_eq_some_iff, Prod.mk.injEq, Prod.exists] at h
    rcases h with ⟨t, _, hread, rfl, rfl⟩
    rcases readString_reads hread with ⟨used, rfl, hagain⟩
    refine ⟨34 :: used, rfl, List.cons_ne_nil _ _, ?_⟩
    intro rest' _
    simp [scanScalar, hagain]
  · rcases Option.or_eq_some_iff.mp h with hword | ⟨hnone, hmore⟩
    · rcases scanWord_reads (by decide) hword with ⟨w, hw, rfl, hagain⟩
      have hheads : ∀ w ∈ words, w.1 ≠ [] ∧ ∀ t, (w.1 ++ t).head? ≠ some 34 := by
        simp [words, text]
      refine ⟨w.1, rfl, (hheads w hw).1, ?_⟩
      intro rest' _
      unfold scanScalar
      rw [if_neg ((hheads w hw).2 rest'), hagain, Option.some_or]
    · rcases Option.or_eq_some_iff.mp hmore with hnumber | ⟨hnoNumber, hfloat⟩
      · rcases scanNumber_reads hnumber with ⟨used, rfl, ⟨c, hc, hstart⟩, hagain⟩
        rcases List.head?_eq_some_iff.mp hc with ⟨more, rfl⟩
        refine ⟨c :: more, rfl, List.cons_ne_nil _ _, ?_⟩
        intro rest' hrest'
        have hnoQuote : ¬ (c :: more ++ rest').head? = some 34 := hquote
        have hword : scanWord words (c :: more ++ rest') = none := by
          have hheads : ∀ w ∈ words, w.1 ≠ [] ∧
              ∀ c, c = 45 ∨ isDigit c = true → w.1.head? ≠ some c := by
            simp only [words, List.mem_cons, List.not_mem_nil, or_false]
            rintro w (rfl | rfl | rfl)
            all_goals
              refine ⟨by decide, ?_⟩
              intro d hd hsame
              cases hsame
              exact absurd hd (by decide)
          apply scanWord_none
          intro w hw
          exact ⟨(hheads w hw).1, (hheads w hw).2 c hstart⟩
        unfold scanScalar
        rw [if_neg hnoQuote, hword, Option.none_or, hagain rest' hrest', Option.some_or]
      · rcases scanWord_reads (by decide) hfloat with ⟨w, hw, rfl, hagain⟩
        have hothers : ∀ w ∈ floatWords, w.1 ≠ [] ∧ ∀ t, ¬ (w.1 ++ t).head? = some 34 ∧
            scanWord words (w.1 ++ t) = none ∧ scanNumber (w.1 ++ t) = none := by
          simp only [floatWords, List.mem_cons, List.not_mem_nil, or_false]
          rintro w (rfl | rfl | rfl)
          · exact ⟨by decide, fun t => ⟨by simp [text], rfl, rfl⟩⟩
          · exact ⟨by decide, fun t => ⟨by simp [text], rfl, rfl⟩⟩
          · exact ⟨by decide, fun t => ⟨by simp [text], rfl, rfl⟩⟩
        refine ⟨w.1, rfl, (hothers w hw).1, ?_⟩
        intro rest' _
        rcases (hothers w hw).2 rest' with ⟨hq, hword, hnumber⟩
        unfold scanScalar
        rw [if_neg hq, hword, hnumber, hagain, Option.none_or, Option.none_or]

/-! ## Objects and arrays -/

theorem isBlank_end {c : Nat} (h : isBlank c = true) : continuesNumber c = false := by
  simp only [isBlank, Bool.or_eq_true, decide_eq_true_eq] at h
  rcases h with ((rfl | rfl) | rfl) | rfl <;> rfl

/-- Behind a value come blanks and a character that is no part of a number. -/
theorem ends_blanks {blanks : Text} {c : Nat} (hc : continuesNumber c = false) (rest : Text)
    (h : ∀ d ∈ blanks, isBlank d = true) : Ends continuesNumber (blanks ++ c :: rest) := by
  cases blanks with
  | nil => exact ends_cons hc rest
  | cons d blanks => exact ends_cons (isBlank_end (h d List.mem_cons_self)) _

/-- With enough fuel, `a` is read from `used` whatever follows. -/
structure Reads {α : Type} (scan : Nat → Text → Option (α × Text)) (used : Text) (a : α) :
    Prop where
  ne_nil : used ≠ []
  read : ∀ fuel, used.length ≤ fuel → ∀ rest, scan fuel (used ++ rest) = some (a, rest)

/-- With enough fuel, the value is read from `used` as long as it ends there. -/
structure ReadsValue (used : Text) (v : Value) : Prop where
  ne_nil : used ≠ []
  read : ∀ fuel, used.length ≤ fuel → ∀ rest,
    Ends continuesNumber rest ∨ (∃ members, v = .object members) →
      scanOnce fuel (used ++ rest) = some (v, rest)

section

variable {α : Type} {scan : Nat → Text → Option (List α × Text)} {close fuel : Nat}
  (hclose : isBlank close = false ∧ continuesNumber close = false)
  (hscan : ∀ s xs rest, scan fuel s = some (xs, rest) →
    ∃ used, s = used ++ rest ∧ Reads scan used xs)
include hclose hscan

theorem inside_reads {s rest : Text} {xs : List α}
    (h : inside close (scan fuel) s = some (xs, rest)) :
    ∃ used, s = used ++ rest ∧ Reads (fun fuel => inside close (scan fuel)) used xs := by
  rcases skipBlanks_split s with ⟨blanks, hs, -, hskip⟩
  unfold inside at h
  dsimp only at h
  split_ifs at h with hend
  · cases h
    rcases List.head?_eq_some_iff.mp hend with ⟨rest, hrest⟩
    rw [hrest] at hs ⊢
    refine ⟨blanks ++ [close], by simpa using hs, by simp, ?_⟩
    intro fuel' _ rest'
    have hagain := hskip (close :: rest') (ends_cons hclose.1 _)
    rw [List.append_assoc, List.singleton_append]
    unfold inside
    rw [hagain]
    exact if_pos rfl
  · rcases hscan _ _ _ h with ⟨used, hused, hread⟩
    have hsolid : Ends isBlank (used ++ rest) := by
      rw [← hused]
      exact ends_dropWhile isBlank s
    have hopen : Ends (fun c => decide (c = close)) (used ++ rest) := by
      rw [← hused]
      intro c hc
      rw [hc] at hend
      simpa using hend
    rw [hused] at hs
    refine ⟨blanks ++ used, by simpa using hs, by simp [hread.ne_nil], ?_⟩
    intro fuel' hfuel rest'
    have hagain := hskip _ (hsolid.append hread.ne_nil rest')
    have hstill : ¬ (used ++ rest').head? = some close := by
      intro hc
      simpa using hopen.append hread.ne_nil rest' close hc
    rw [List.length_append] at hfuel
    rw [List.append_assoc]
    unfold inside
    rw [hagain, if_neg hstill]
    exact hread.read fuel' (by omega) rest'

theorem following_reads {s rest : Text} {xs : List α}
    (h : following close (scan fuel) s = some (xs, rest)) :
    ∃ used, s = used ++ rest ∧ Reads (fun fuel => following close (scan fuel)) used xs ∧
      ∀ rest', Ends continuesNumber (used ++ rest') := by
  rcases skipBlanks_split s with ⟨blanks, hs, hblank, hskip⟩
  unfold following at h
  dsimp only at h
  split_ifs at h with hend hcomma
  · cases h
    rcases List.head?_eq_some_iff.mp hend with ⟨rest, hrest⟩
    rw [hrest] at hs ⊢
    refine ⟨blanks ++ [close], by simpa using hs, ⟨by simp, ?_⟩, ?_⟩
    · intro fuel' _ rest'
      have hagain := hskip (close :: rest') (ends_cons hclose.1 _)
      rw [List.append_assoc, List.singleton_append]
      unfold following
      rw [hagain]
      exact if_pos rfl
    · intro rest'
      rw [List.append_assoc, List.singleton_append]
      exact ends_blanks hclose.2 rest' hblank
  · rcases List.head?_eq_some_iff.mp hcomma with ⟨after, hafter⟩
    rw [hafter] at hs hend h
    rw [List.tail_cons] at h
    rcases hscan _ _ _ h with ⟨used, hused, hread⟩
    rcases skipBlanks_split after with ⟨blanks', hs', -, hskip'⟩
    have hsolid : Ends isBlank (used ++ rest) := by
      rw [← hused]
      exact ends_dropWhile isBlank after
    rw [hused] at hs'
    have hclosed : ¬ close = 44 := fun hc => hend (by rw [hc]; rfl)
    refine ⟨blanks ++ 44 :: (blanks' ++ used), by rw [hs, hs']; simp, ⟨by simp, ?_⟩, ?_⟩
    · intro fuel' hfuel rest'
      have hagain := hskip (44 :: (blanks' ++ (used ++ rest'))) (ends_cons (by decide) _)
      have hagain' := hskip' _ (hsolid.append hread.ne_nil rest')
      have htext : blanks ++ 44 :: (blanks' ++ used) ++ rest' =
          blanks ++ 44 :: (blanks' ++ (used ++ rest')) := by simp
      simp only [List.length_append, List.length_cons] at hfuel
      have hother : ¬ (44 :: (blanks' ++ (used ++ rest'))).head? = some close := by
        intro hc
        cases hc
        exact hclosed rfl
      rw [htext]
      unfold following
      rw [hagain, if_neg hother, if_pos List.head?_cons, List.tail_cons, hagain']
      exact hread.read fuel' (by omega) rest'
    · intro rest'
      rw [List.append_assoc, List.cons_append]
      exact ends_blanks (by decide) _ hblank

end

theorem scanScalar_ne_object {s rest : Text} {members : List (Text × Value)} :
    scanScalar s ≠ some (.object members, rest) := by
  intro h
  unfold scanScalar at h
  split_ifs at h with hquote
  · simp at h
  · rcases Option.or_eq_some_iff.mp h with hword | ⟨-, hmore⟩
    · rcases scanWord_mem hword with ⟨t, hw⟩
      simp [words] at hw
    · rcases Option.or_eq_some_iff.mp hmore with hnumber | ⟨-, hfloat⟩
      · unfold scanNumber at hnumber
        dsimp only at hnumber
        split at hnumber
        · cases hnumber
        · unfold numberValue at hnumber
          split_ifs at hnumber <;> simp at hnumber
      · rcases scanWord_mem hfloat with ⟨t, hw⟩
        simp [floatWords] at hw

theorem scanOnce_reads {fuel : Nat}
    (hmembers : ∀ s members rest, scanMembers fuel s = some (members, rest) →
      ∃ used, s = used ++ rest ∧ Reads scanMembers used members)
    (hitems : ∀ s items rest, scanItems fuel s = some (items, rest) →
      ∃ used, s = used ++ rest ∧ Reads scanItems used items)
    {s rest : Text} {v : Value} (h : scanOnce (fuel + 1) s = some (v, rest)) :
    ∃ used, s = used ++ rest ∧ ReadsValue used v := by
  unfold scanOnce at h
  by_cases hobject : s.head? = some 123
  · rw [if_pos hobject] at h
    rcases List.head?_eq_some_iff.mp hobject with ⟨inner, rfl⟩
    simp only [List.tail_cons, Option.map_eq_some_iff, Prod.mk.injEq, Prod.exists] at h
    rcases h with ⟨members, _, hinside, rfl, rfl⟩
    rcases inside_reads (by decide) hmembers hinside with ⟨used, rfl, hread⟩
    refine ⟨123 :: used, rfl, List.cons_ne_nil _ _, ?_⟩
    intro fuel' hfuel rest' _
    rw [List.length_cons] at hfuel
    obtain ⟨fuel', rfl⟩ : ∃ n, fuel' = n + 1 := ⟨fuel' - 1, by omega⟩
    have hagain := hread.read fuel' (by omega) rest'
    simp [scanOnce, hagain]
  rw [if_neg hobject] at h
  by_cases harray : s.head? = some 91
  · rw [if_pos harray] at h
    rcases List.head?_eq_some_iff.mp harray with ⟨inner, rfl⟩
    simp only [List.tail_cons, Option.map_eq_some_iff, Prod.mk.injEq, Prod.exists] at h
    rcases h with ⟨items, _, hinside, rfl, rfl⟩
    rcases inside_reads (by decide) hitems hinside with ⟨used, rfl, hread⟩
    refine ⟨91 :: used, rfl, List.cons_ne_nil _ _, ?_⟩
    intro fuel' hfuel rest' _
    rw [List.length_cons] at hfuel
    obtain ⟨fuel', rfl⟩ : ∃ n, fuel' = n + 1 := ⟨fuel' - 1, by omega⟩
    have hagain := hread.read fuel' (by omega) rest'
    simp [scanOnce, hagain]
  · rw [if_neg harray] at h
    rcases scanScalar_reads h with ⟨used, rfl, hne, hread⟩
    refine ⟨used, rfl, hne, ?_⟩
    intro fuel' hfuel rest' hend
    have hlen := List.length_pos_of_ne_nil hne
    obtain ⟨fuel', rfl⟩ : ∃ n, fuel' = n + 1 := ⟨fuel' - 1, by omega⟩
    have hhead : (used ++ rest').head? = (used ++ rest).head? := by
      cases used with
      | nil => exact absurd rfl hne
      | cons c used => rfl
    unfold scanOnce
    rw [hhead, if_neg hobject, if_neg harray]
    rcases hend with hend | ⟨members, rfl⟩
    · exact hread rest' hend
    · exact absurd h scanScalar_ne_object

theorem scanMembers_reads {fuel : Nat}
    (hvalue : ∀ s v rest, scanOnce fuel s = some (v, rest) →
      ∃ used, s = used ++ rest ∧ ReadsValue used v)
    (hmembers : ∀ s members rest, scanMembers fuel s = some (members, rest) →
      ∃ used, s = used ++ rest ∧ Reads scanMembers used members)
    {s rest : Text} {members : List (Text × Value)}
    (h : scanMembers (fuel + 1) s = some (members, rest)) :
    ∃ used, s = used ++ rest ∧ Reads scanMembers used members := by
  unfold scanMembers at h
  split_ifs at h with hquote
  rcases List.head?_eq_some_iff.mp hquote with ⟨s, rfl⟩
  simp only [List.tail_cons, Option.bind_eq_bind, Option.bind_eq_some_iff, Prod.exists] at h
  rcases h with ⟨key, afterKey, hkey, h⟩
  split_ifs at h with hcolon
  simp only [Option.bind_eq_some_iff, Option.map_eq_some_iff, Prod.mk.injEq, Prod.exists] at h
  rcases h with ⟨value, afterValue, hscan, more, rest, hmore, rfl, rfl⟩
  rcases readString_reads hkey with ⟨usedKey, rfl, hkeyAgain⟩
  rcases skipBlanks_split afterKey with ⟨blanks, hblanks, -, hskip⟩
  rcases List.head?_eq_some_iff.mp hcolon with ⟨afterColon, hafter⟩
  rw [hafter, List.tail_cons] at hscan
  rw [hafter] at hblanks
  rcases skipBlanks_split afterColon with ⟨blanks', hblanks', -, hskip'⟩
  rcases hvalue _ _ _ hscan with ⟨usedValue, husedValue, hreadValue⟩
  rcases following_reads (by decide) hmembers hmore with ⟨usedMore, rfl, hreadMore, hends⟩
  have hsolid : Ends isBlank (usedValue ++ (usedMore ++ rest)) := by
    rw [← husedValue]
    exact ends_dropWhile isBlank afterColon
  rw [husedValue] at hblanks'
  refine ⟨34 :: (usedKey ++ (blanks ++ 58 :: (blanks' ++ (usedValue ++ usedMore)))), ?_,
    List.cons_ne_nil _ _, ?_⟩
  · rw [hblanks, hblanks']
    simp
  · intro fuel' hfuel rest'
    simp only [List.length_cons, List.length_append] at hfuel
    obtain ⟨fuel', rfl⟩ : ∃ n, fuel' = n + 1 := ⟨fuel' - 1, by omega⟩
    have htext :
        34 :: (usedKey ++ (blanks ++ 58 :: (blanks' ++ (usedValue ++ usedMore)))) ++ rest' =
          34 :: (usedKey ++ (blanks ++ 58 :: (blanks' ++ (usedValue ++ (usedMore ++ rest'))))) := by
      simp
    have hcolonAgain := hskip (58 :: (blanks' ++ (usedValue ++ (usedMore ++ rest'))))
      (ends_cons (by decide) _)
    have hvalueAgain := hskip' _ (hsolid.append hreadValue.ne_nil (usedMore ++ rest'))
    have hread := hreadValue.read fuel' (by omega) (usedMore ++ rest') (.inl (hends rest'))
    have hrest := hreadMore.read fuel' (by omega) rest'
    rw [htext]
    simp [scanMembers, hkeyAgain, hcolonAgain, hvalueAgain, hread, hrest]

theorem scanItems_reads {fuel : Nat}
    (hvalue : ∀ s v rest, scanOnce fuel s = some (v, rest) →
      ∃ used, s = used ++ rest ∧ ReadsValue used v)
    (hitems : ∀ s items rest, scanItems fuel s = some (items, rest) →
      ∃ used, s = used ++ rest ∧ Reads scanItems used items)
    {s rest : Text} {items : List Value} (h : scanItems (fuel + 1) s = some (items, rest)) :
    ∃ used, s = used ++ rest ∧ Reads scanItems used items := by
  unfold scanItems at h
  simp only [Option.bind_eq_bind, Option.bind_eq_some_iff, Option.map_eq_some_iff, Prod.mk.injEq,
    Prod.exists] at h
  rcases h with ⟨value, afterValue, hscan, more, rest, hmore, rfl, rfl⟩
  rcases hvalue _ _ _ hscan with ⟨usedValue, rfl, hreadValue⟩
  rcases following_reads (by decide) hitems hmore with ⟨usedMore, rfl, hreadMore, hends⟩
  have hpos := List.length_pos_of_ne_nil hreadMore.ne_nil
  have hposValue := List.length_pos_of_ne_nil hreadValue.ne_nil
  refine ⟨usedValue ++ usedMore, (List.append_assoc ..).symm, by simp [hreadValue.ne_nil], ?_⟩
  intro fuel' hfuel rest'
  rw [List.length_append] at hfuel
  obtain ⟨fuel', rfl⟩ : ∃ n, fuel' = n + 1 := ⟨fuel' - 1, by omega⟩
  have hread := hreadValue.read fuel' (by omega) (usedMore ++ rest') (.inl (hends rest'))
  have hrest := hreadMore.read fuel' (by omega) rest'
  rw [List.append_assoc]
  simp [scanItems, hread, hrest]

/-- A scan that succeeds has read a part of its text, the same whatever follows it. -/
theorem scan_reads (fuel : Nat) :
    (∀ s v rest, scanOnce fuel s = some (v, rest) → ∃ used, s = used ++ rest ∧ ReadsValue used v) ∧
      (∀ s members rest, scanMembers fuel s = some (members, rest) →
        ∃ used, s = used ++ rest ∧ Reads scanMembers used members) ∧
      (∀ s items rest, scanItems fuel s = some (items, rest) →
        ∃ used, s = used ++ rest ∧ Reads scanItems used items) := by
  induction fuel with
  | zero =>
      refine ⟨?_, ?_, ?_⟩ <;> intro s a rest h <;> cases h
  | succ fuel ih =>
      rcases ih with ⟨hvalue, hmembers, hitems⟩
      exact ⟨fun _ _ _ h => scanOnce_reads hmembers hitems h,
        fun _ _ _ h => scanMembers_reads hvalue hmembers h,
        fun _ _ _ h => scanItems_reads hvalue hitems h⟩

end Json
