import SwitchController.Host.Reply
import SwitchController.Host.SerialLink

/-! # One line, three tests

The window looks for the mark anywhere in a line and reads one object behind it. The
session wants the mark at the start and JSON text up to the end, and the one-shot
client wants the same of the line without the space around it. They take a line for
the same reply when it is a reply from its start to its end, or when there is
nothing in it for any of them.
-/

namespace SwitchController.Host

open Memory Device Str

/-- What a line puts on the session's queue of replies. -/
def sessionReply (line : Text) : Option Json.Value :=
  if mark <+: line then Json.loads (line.drop 4) else none

/-- What one `readline` gives the one-shot client's loop to compare with its id. -/
def cliReply (piece : Bytes) : Option Json.Value :=
  let line := strip (decode piece)
  if mark <+: line then Json.loads (line.drop 4) else none

/-! ## Lines -/

/-- The mark, JSON text of a well-formed reply, and nothing else. -/
def Answers (line : Text) : Prop :=
  ∃ reply, mark <+: line ∧ Json.loads (line.drop 4) = some (.object reply) ∧
    wellFormed reply = true

/-- No well-formed reply begins behind the first mark of the line. -/
def NoObject (line : Text) : Prop :=
  ∀ start reply rest, find mark line = some start →
    Json.rawDecode (lstrip (line.drop (start + 4))) = some (.object reply, rest) →
    wellFormed reply = false

/-- The line is not a mark with JSON text up to its end. -/
def NoText (line : Text) : Prop := mark <+: line → Json.loads (line.drop 4) = none

structure Noise (line : Text) : Prop where
  object : NoObject line
  text : NoText line
  stripped : NoText (strip line)

/-- Such is every line without a mark, as most of the log is. -/
theorem noise_of_unmarked {line : Text} (h : ¬ mark <:+: line) : Noise line where
  object := by
    intro start reply rest hfind
    rw [find_none (by decide) h] at hfind
    cases hfind
  text := fun hmark => absurd hmark.isInfix h
  stripped := by
    intro hmark
    have hright : strip line <:+: lstrip line := (List.rdropWhile_prefix isSpace _).isInfix
    have hleft : lstrip line <:+: line := (List.dropWhile_suffix isSpace).isInfix
    exact absurd ((hmark.isInfix.trans hright).trans hleft) h

theorem replyOf_eq_none {r : Option (Json.Value × Text)} :
    replyOf r = none ↔
      ∀ reply rest, r = some (.object reply, rest) → wellFormed reply = false := by
  constructor
  · rintro h reply rest rfl
    by_contra hw
    rw [replyOf, if_pos (by simpa using hw)] at h
    cases h
  · intro h
    unfold replyOf
    split
    case h_1 reply rest => simp [h reply rest rfl]
    case h_2 => rfl

theorem parseReply_eq_none {line : Text} : parseReply line = none ↔ NoObject line := by
  unfold parseReply NoObject
  cases find mark line with
  | none => simp
  | some start =>
      dsimp only
      rw [replyOf_eq_none]
      constructor
      · rintro h _ reply rest ⟨⟩ hread
        exact h reply rest hread
      · intro h reply rest hread
        exact h start reply rest rfl hread

theorem parseReply_wellFormed {line : Text} {reply : Dict} (h : parseReply line = some reply) :
    wellFormed reply = true := by
  unfold parseReply at h
  split at h
  case h_1 => cases h
  case h_2 start _ =>
      unfold replyOf at h
      split at h
      case h_1 =>
          split_ifs at h with hw
          cases h
          exact hw
      case h_2 => cases h

theorem sessionReply_eq_none {line : Text} : sessionReply line = none ↔ NoText line := by
  unfold sessionReply NoText
  split <;> simp [*]

theorem cliReply_eq_none {piece : Bytes} :
    cliReply piece = none ↔ NoText (strip (decode piece)) := sessionReply_eq_none

/-- A line read to its end gives the one-shot client the stripped line. -/
theorem cliReply_line (raw : Bytes) :
    cliReply (raw ++ [newline]) = sessionReply (strip (decodeLine raw)) := by
  have hend : decode (raw ++ [newline]) = decode raw ++ [10] :=
    decode_ascii (c := newline) (by decide) raw []
  have hstrip : strip (decode (raw ++ [newline])) = strip (decodeLine raw) := by
    rw [hend, strip_append _ (by decide), decodeLine, strip_rstripCr]
  unfold cliReply sessionReply
  rw [hstrip]

/-! ## Objects behind the mark -/

theorem blank_isSpace {c : Nat} (h : Json.isBlank c = true) : isSpace c = true := by
  simp only [Json.isBlank, Bool.or_eq_true, decide_eq_true_eq] at h
  rcases h with ((rfl | rfl) | rfl) | rfl <;> rfl

theorem lstrip_blanks {blanks s : Text} (h : ∀ c ∈ blanks, Json.isBlank c = true)
    (hs : s.head? = some 123) : lstrip (blanks ++ s) = s := by
  have hspace : ∀ c ∈ blanks, isSpace c = true := fun c hc => blank_isSpace (h c hc)
  rcases List.head?_eq_some_iff.mp hs with ⟨rest, rfl⟩
  unfold lstrip
  rw [List.dropWhile_append_of_pos hspace]
  exact lstrip_cons (by decide) rest

theorem rawDecode_lstrip {t : Text} {reply : Dict} (h : Json.loads t = some (.object reply))
    (after : Text) : ∃ rest, Json.rawDecode (lstrip (t ++ after)) = some (.object reply, rest) := by
  rcases Json.loads_object h with ⟨body, rest, hbody, -, hhead, hread⟩
  rcases Json.skipBlanks_split t with ⟨blanks, ht, hblanks, -⟩
  have hopen : (body ++ 125 :: (rest ++ after)).head? = some 123 := by
    rw [hbody] at hhead
    cases body with
    | nil => cases hhead
    | cons c body => exact hhead
  have htext : t ++ after = blanks ++ (body ++ 125 :: (rest ++ after)) := by
    rw [ht, hbody]
    simp
  rw [htext, lstrip_blanks hblanks hopen]
  exact ⟨_, hread _⟩

theorem parseReply_loads {pre t : Text} {reply : Dict} (hpre : ¬ mark <:+: pre)
    (h : Json.loads t = some (.object reply)) (hw : wellFormed reply = true) (after : Text) :
    parseReply (pre ++ mark ++ (t ++ after)) = some reply := by
  rcases rawDecode_lstrip h after with ⟨rest, hread⟩
  rw [parseReply_mark hpre, hread]
  exact if_pos hw

theorem sessionReply_some {line : Text} {v : Json.Value} (h : sessionReply line = some v) :
    ∃ t, line = mark ++ t ∧ Json.loads t = some v := by
  unfold sessionReply at h
  split_ifs at h with hmark
  rcases hmark with ⟨t, rfl⟩
  exact ⟨t, rfl, h⟩

theorem sessionReply_parse {line : Text} {reply : Dict}
    (h : sessionReply line = some (.object reply)) (hw : wellFormed reply = true) :
    parseReply line = some reply := by
  rcases sessionReply_some h with ⟨t, rfl, hloads⟩
  have hempty : ¬ mark <:+: [] := by decide
  have hread := parseReply_loads hempty hloads hw []
  rw [List.append_nil] at hread
  exact hread

theorem stripped_parse {line : Text} {reply : Dict}
    (h : sessionReply (strip line) = some (.object reply)) (hw : wellFormed reply = true) :
    parseReply line = some reply := by
  rcases sessionReply_some h with ⟨t, hstrip, hloads⟩
  have hleft : line.takeWhile isSpace ++ lstrip line = line := List.takeWhile_append_dropWhile
  have hright : strip line ++ (lstrip line).rtakeWhile isSpace = lstrip line :=
    List.rdropWhile_append_rtakeWhile ..
  have hpre : ¬ mark <:+: line.takeWhile isSpace := by
    intro hinfix
    have hmem : 64 ∈ line.takeWhile isSpace := hinfix.subset (by decide)
    exact absurd (List.mem_takeWhile_imp hmem) (by decide)
  rw [← hleft, ← hright, hstrip, List.append_assoc mark, ← List.append_assoc]
  exact parseReply_loads hpre hloads hw _

theorem answers_stripped {line : Text} {reply : Dict}
    (h : sessionReply line = some (.object reply)) :
    sessionReply (strip line) = some (.object reply) := by
  rcases sessionReply_some h with ⟨t, rfl, hloads⟩
  rcases Json.loads_object hloads with ⟨body, rest, hbody, hrest, hhead, hread⟩
  rcases Json.skipBlanks_split t with ⟨blanks, ht, -, hskip⟩
  have hspace : ∀ c ∈ rest, isSpace c = true := by
    intro c hc
    exact blank_isSpace (List.dropWhile_eq_nil_iff.mp hrest c hc)
  have hopen : (body ++ [125]).head? = some 123 := by
    rw [hbody] at hhead
    cases body with
    | nil => cases hhead
    | cons c body => exact hhead
  have hmark : lstrip (mark ++ t) = mark ++ t := lstrip_cons (c := 64) (by decide) _
  have hstrip : strip (mark ++ t) = mark ++ (blanks ++ (body ++ [125])) := by
    have htext : mark ++ t = mark ++ (blanks ++ body) ++ 125 :: rest := by
      rw [ht, hbody]
      simp
    unfold strip
    rw [hmark, htext, rstrip_append (by decide) _ hspace]
    simp
  have hblanks : Json.skipBlanks (blanks ++ (body ++ [125])) = body ++ [125] := by
    apply hskip
    intro c hc
    rw [hopen] at hc
    cases hc
    rfl
  have hagain : Json.loads (blanks ++ (body ++ [125])) = some (.object reply) := by
    unfold Json.loads
    rw [hblanks, hread []]
    exact if_pos rfl
  rw [hstrip]
  unfold sessionReply
  rw [if_pos (List.prefix_append _ _)]
  exact hagain

/-! ## Agreement on a line -/

/-- The three take a line for the same, and for no more than the window does, exactly when
it is a reply and nothing else or nothing of that kind at all. -/
theorem line_agrees (line : Text) :
    (sessionReply line = (parseReply line).map .object ∧
      sessionReply (strip line) = (parseReply line).map .object) ↔
      Answers line ∨ Noise line := by
  constructor
  · rintro ⟨hsession, hcli⟩
    cases hreply : parseReply line with
    | none =>
        rw [hreply] at hsession hcli
        exact .inr ⟨parseReply_eq_none.mp hreply, sessionReply_eq_none.mp hsession,
          sessionReply_eq_none.mp hcli⟩
    | some reply =>
        rw [hreply] at hsession
        rcases sessionReply_some hsession with ⟨t, rfl, hloads⟩
        exact .inl ⟨reply, List.prefix_append _ _, hloads, parseReply_wellFormed hreply⟩
  · rintro (⟨reply, hmark, hloads, hw⟩ | hnoise)
    · have hsession : sessionReply line = some (.object reply) := by
        rw [sessionReply, if_pos hmark, hloads]
      rw [sessionReply_parse hsession hw]
      exact ⟨hsession, answers_stripped hsession⟩
    · rw [parseReply_eq_none.mpr hnoise.object, sessionReply_eq_none.mpr hnoise.text,
        sessionReply_eq_none.mpr hnoise.stripped]
      exact ⟨rfl, rfl⟩

/-- What the firmware prints as an answer is such a reply. -/
theorem answers_printed {a : Answer} (h : a.Printable) : Answers (decode (printAnswer a)) := by
  have hsome : answerFields a ≠ [] := List.cons_ne_nil _ _
  have hread := Json.rawDecode_objectText hsome (answerFields_wf h) []
  have hskip : Json.skipBlanks (Json.objectText (answerFields a)) =
      Json.objectText (answerFields a) := rfl
  have hloads : Json.loads (Json.objectText (answerFields a)) = some (.object (answerDict a)) := by
    rw [List.append_nil] at hread
    unfold Json.loads
    rw [hskip, hread]
    rfl
  rw [printAnswer_text h]
  exact ⟨answerDict a, List.prefix_append _ _, hloads, answerDict_wellFormed a⟩

end SwitchController.Host
