import SwitchController.Device.Print
import SwitchController.Host.App
import SwitchController.Lib.JsonText

/-! # Recovering replies

`parse_reply` of `serial_link.py`: a reply may share its line with log text on both
sides. What the firmware prints as an answer is read back as the dictionary of that
answer, and what is cut off before its end is read as nothing.
-/

namespace SwitchController.Host

open Memory Device Str

/-- A dictionary decoded from JSON. -/
abbrev Dict := List (Text × Json.Value)

/-- What a reply begins with. -/
def mark : Text := text "@PC "

def isInteger : Option Json.Value → Bool
  | some (.integer _) => true
  | _ => false

def isBoolean : Option Json.Value → Bool
  | some (.boolean _) => true
  | _ => false

/-- The fields `parse_reply` insists on. -/
def wellFormed (reply : Dict) : Bool :=
  isInteger (Json.get reply (text "id")) &&
    [text "ok", text "connected", text "loaded"].all fun key => isBoolean (Json.get reply key)

/-- The object a text begins with, if it is a reply. -/
def replyOf : Option (Json.Value × Text) → Option Dict
  | some (.object members, _) => if wellFormed members then some members else none
  | _ => none

def parseReply (line : Text) : Option Dict :=
  match find mark line with
  | none => none
  | some start => replyOf (Json.rawDecode (lstrip (line.drop (start + 4))))

/-! ## The mark -/

/-- The mark is found where it stands, if it does not occur before. -/
theorem find_mark {pre : Text} (h : ¬ mark <:+: pre) (post : Text) :
    find mark (pre ++ mark ++ post) = some pre.length := by
  apply find_append
  rintro pre' suf rfl hne hprefix
  have hmark : mark = [64, 80, 67, 32] := rfl
  rw [hmark] at h hprefix
  -- an earlier occurrence would end inside this one, but no end of the mark begins it
  match suf with
  | [] => exact hne rfl
  | [_] => simp [List.cons_prefix_cons] at hprefix
  | [_, _] => simp [List.cons_prefix_cons] at hprefix
  | [_, _, _] => simp [List.cons_prefix_cons] at hprefix
  | a :: b :: c :: d :: suf =>
      simp only [List.cons_append, List.cons_prefix_cons, List.nil_prefix, and_true] at hprefix
      rcases hprefix with ⟨rfl, rfl, rfl, rfl⟩
      exact h ⟨pre', suf, by simp⟩

/-- Cut off within the mark, a line has none. -/
theorem find_mark_cut {pre : Text} (h : ¬ mark <:+: pre) {n : Nat} (hn : n < 4) :
    find mark (pre ++ mark.take n) = none := by
  apply find_none (by decide)
  rintro ⟨left, right, heq⟩
  rcases List.append_eq_append_iff.mp heq with ⟨rest, hpre, -⟩ | ⟨cut, hleft, hcut⟩
  · exact h ⟨left, rest, hpre.symm⟩
  · by_cases hnil : cut = []
    · rw [hnil, List.append_nil] at hleft
      exact h ⟨left, [], by rw [List.append_nil, hleft]⟩
    · -- the mark's last character would stand in what is left of it
      have hlast : cut.getLast hnil = 32 := by
        have hsame := congrArg List.getLast? hleft
        rw [List.getLast?_append_of_ne_nil _ (by decide), List.getLast?_append_of_ne_nil _ hnil,
          List.getLast?_eq_some_getLast hnil] at hsame
        exact (Option.some.inj hsame).symm
      have hmem : 32 ∈ mark.take n := by
        rw [hcut, ← hlast]
        exact List.mem_append_left _ (List.getLast_mem hnil)
      have hnone : ∀ n < 4, 32 ∉ mark.take n := by decide
      exact hnone n hn hmem

theorem parseReply_mark {pre : Text} (h : ¬ mark <:+: pre) (post : Text) :
    parseReply (pre ++ mark ++ post) = replyOf (Json.rawDecode (lstrip post)) := by
  have hdrop : (pre ++ mark ++ post).drop (pre.length + 4) = post := by
    rw [List.drop_append_of_le_length (by simp [mark, text]), List.drop_of_length_le] <;>
      simp [mark, text]
  unfold parseReply
  rw [find_mark h]
  dsimp only
  rw [hdrop]

/-! ## Answers -/

/-- How a flag is written. -/
def flagText (b : Bool) : Text := if b then text "true" else text "false"

def flagField (key : String) (b : Bool) : Json.Field := ⟨text key, flagText b, .boolean b⟩

def numberField (key : String) (n : Nat) : Json.Field :=
  ⟨text key, Json.decimalText n, .integer n⟩

def stringField (key value : String) : Json.Field :=
  ⟨text key, Json.quote (text value), .string (text value)⟩

/-- The members of a printed answer. -/
def answerFields (a : Answer) : List Json.Field :=
  [numberField "id" a.id, flagField "ok" a.ok, stringField "message" a.message,
    flagField "connected" a.connected, flagField "loaded" a.loaded, flagField "nfc_ready" true,
    flagField "nfc_write" false, numberField "crc" a.crc.toNat,
    numberField "mcu_power" a.diagnostics.power.toNat,
    numberField "nfc_poll" a.diagnostics.poll.toNat,
    numberField "nfc_queue" a.diagnostics.pending.toNat,
    numberField "nfc_rx" a.diagnostics.received.toNat,
    numberField "nfc_rejected" a.diagnostics.rejected.toNat,
    numberField "nfc_last_cmd" a.diagnostics.lastCmd.toNat,
    numberField "nfc_last_sub" a.diagnostics.lastSub.toNat]

/-- The messages of answers stand for themselves in a string, byte by byte. -/
theorem message_plain {a : Answer} (h : a.Printable) :
    Json.Plain (text a.message) ∧ (∀ c ∈ ascii a.message, c.toNat < 0x80) ∧
      (ascii a.message).map UInt8.toNat = text a.message := by
  have hall : ∀ m ∈ commandAnswers, Json.Plain (text m.2) ∧ (∀ c ∈ ascii m.2, c.toNat < 0x80) ∧
      (ascii m.2).map UInt8.toNat = text m.2 := by
    decide +kernel
  exact hall _ h.text

theorem flagField_wf {key : String} (h : Json.Plain (text key)) (b : Bool) :
    (flagField key b).WF := ⟨h, Json.written_boolean b⟩

theorem numberField_wf {key : String} (h : Json.Plain (text key)) {n : Nat} (hn : n < 2 ^ 32) :
    (numberField key n).WF := by
  have hlen : (FlatJson.decimal n).length ≤ 10 := FlatJson.decimal_length (by omega)
  have hshort : (Json.decimalText n).length ≤ Json.maxDigits := by
    unfold Json.maxDigits Json.decimalText
    rw [List.length_map]
    omega
  exact ⟨h, Json.written_decimal hshort⟩

theorem answerFields_wf {a : Answer} (h : a.Printable) : ∀ f ∈ answerFields a, f.WF := by
  have hmessage : (stringField "message" a.message).WF :=
    ⟨show Json.Plain (text "message") by decide, Json.written_string (message_plain h).1⟩
  have hid : a.id < 2 ^ 32 := Nat.lt_of_le_of_lt h.id (by decide)
  have hbyte (b : UInt8) : b.toNat < 2 ^ 32 := Nat.lt_trans b.toNat_lt (by decide)
  simp only [answerFields, List.forall_mem_cons, List.not_mem_nil, false_implies, implies_true,
    and_true]
  exact ⟨numberField_wf (by decide) hid, flagField_wf (by decide) _, hmessage,
    flagField_wf (by decide) _, flagField_wf (by decide) _, flagField_wf (by decide) _,
    flagField_wf (by decide) _, numberField_wf (by decide) (UInt32.toNat_lt _),
    numberField_wf (by decide) (hbyte _), numberField_wf (by decide) (hbyte _),
    numberField_wf (by decide) (UInt32.toNat_lt _), numberField_wf (by decide) (UInt32.toNat_lt _),
    numberField_wf (by decide) (UInt32.toNat_lt _), numberField_wf (by decide) (hbyte _),
    numberField_wf (by decide) (hbyte _)⟩

theorem printFlag_text (b : Bool) :
    (∀ c ∈ printFlag b, c.toNat < 0x80) ∧ (printFlag b).map UInt8.toNat = flagText b := by
  cases b <;> exact ⟨by decide +kernel, rfl⟩

theorem decimal_text (n : Nat) : ∀ c ∈ FlatJson.decimal n, c.toNat < 0x80 := by
  intro c hc
  have hdigit := FlatJson.decimal_isDigit n c hc
  simp only [FlatJson.isDigit, Bool.and_eq_true, decide_eq_true_eq,
    UInt8.le_iff_toNat_le] at hdigit
  have h57 : (57 : UInt8).toNat = 57 := rfl
  omega

/-- Every character an answer is printed with is ASCII. -/
theorem printAnswer_ascii {a : Answer} (h : a.Printable) :
    ∀ c ∈ printAnswer a, c.toNat < 0x80 := by
  have hmessage := (message_plain h).2.1
  have hflag (b : Bool) := (printFlag_text b).1
  unfold printAnswer
  simp only [List.forall_mem_append]
  and_intros
  all_goals first
  | decide +kernel
  | exact decimal_text _
  | exact hflag _
  | exact hmessage

set_option maxRecDepth 4000 in
theorem printAnswer_text {a : Answer} (h : a.Printable) :
    decode (printAnswer a) = mark ++ Json.objectText (answerFields a) := by
  have hmessage := (message_plain h).2.2
  have hflag (b : Bool) := (printFlag_text b).2
  have hdecimal (n : Nat) : (FlatJson.decimal n).map UInt8.toNat = Json.decimalText n := rfl
  rw [decode_map (printAnswer_ascii h)]
  unfold printAnswer
  simp only [List.map_append, hmessage, hflag, hdecimal, List.append_assoc]
  simp only [answerFields, Json.objectText, Json.fieldsText, Json.Field.text, Json.quote,
    numberField, flagField, stringField, List.append_assoc, List.cons_append]
  rfl

/-! ## Reading an answer -/

/-- The reply has the fields of the answer. -/
structure Shows (a : Answer) (reply : Dict) : Prop where
  id : Json.get reply (text "id") = some (.integer a.id)
  ok : Json.get reply (text "ok") = some (.boolean a.ok)
  connected : Json.get reply (text "connected") = some (.boolean a.connected)
  loaded : Json.get reply (text "loaded") = some (.boolean a.loaded)
  crc : Json.get reply (text "crc") = some (.integer a.crc.toNat)

/-- The dictionary of an answer. -/
def answerDict (a : Answer) : Dict := Json.fieldMembers (answerFields a)

theorem answerDict_shows (a : Answer) : Shows a (answerDict a) := ⟨rfl, rfl, rfl, rfl, rfl⟩

theorem answerDict_wellFormed (a : Answer) : wellFormed (answerDict a) = true := rfl

/-- A flat value of the application as the decoder gives it. -/
def Value.decoded : Value → Json.Value
  | .bool b => .boolean b
  | .int n => .integer n
  | .str s => .string (text s)
  | _ => .null

/-- It is the dictionary the application works with. -/
theorem answerDict_reply (a : Answer) :
    answerDict a = (App.answerReply a).map fun m => (text m.1, m.2.decoded) := by
  simp only [answerDict, Json.fieldMembers, answerFields, App.answerReply, List.map_cons,
    List.map_nil, numberField, flagField, stringField, Value.decoded]

theorem parseReply_answerDict {a : Answer} (h : a.Printable) {pre : Text} (hpre : ¬ mark <:+: pre)
    (post : Text) : parseReply (pre ++ decode (printAnswer a) ++ post) = some (answerDict a) := by
  have hsome : answerFields a ≠ [] := List.cons_ne_nil _ _
  have hread := Json.rawDecode_objectText hsome (answerFields_wf h) post
  have hstrip : lstrip (Json.objectText (answerFields a) ++ post) =
      Json.objectText (answerFields a) ++ post := rfl
  rw [printAnswer_text h, ← List.append_assoc, List.append_assoc _ _ post,
    parseReply_mark hpre, hstrip, hread]
  unfold replyOf
  exact if_pos (answerDict_wellFormed a)

/-- Text without a closing brace is no reply. -/
theorem replyOf_cut {t : Text} (h : 125 ∉ t) : replyOf (Json.rawDecode (lstrip t)) = none := by
  cases hread : Json.rawDecode (lstrip t) with
  | none => rfl
  | some r =>
      rcases r with ⟨v, rest⟩
      cases v with
      | object members =>
          have hmem := Json.rawDecode_mem hread
          exact absurd ((List.dropWhile_sublist _).mem hmem) h
      | _ => rfl

theorem answerFields_brace {a : Answer} (h : a.Printable) :
    ∀ f ∈ answerFields a, 125 ∉ f.text := by
  have hplain : ∀ {key : String} {t : Text}, 125 ∉ text key → 125 ∉ t →
      125 ∉ Json.quote (text key) ++ 58 :: t := by
    intro key t hkey ht hmem
    simp [Json.quote, hkey, ht] at hmem
  have hnumber : ∀ (key : String) (n : Nat), 125 ∉ text key → 125 ∉ (numberField key n).text := by
    intro key n hkey
    apply hplain hkey
    intro hmem
    exact absurd (Json.decimalText_isDigit n 125 hmem) (by decide)
  have hflag : ∀ (key : String) (b : Bool), 125 ∉ text key → 125 ∉ (flagField key b).text := by
    intro key b hkey
    have hword : 125 ∉ flagText b := by cases b <;> decide
    exact hplain hkey hword
  have hmessage : 125 ∉ (stringField "message" a.message).text := by
    have hall : ∀ m ∈ commandAnswers, 125 ∉ Json.quote (text m.2) := by decide +kernel
    exact hplain (by decide) (hall _ h.text)
  simp only [answerFields, List.forall_mem_cons, List.not_mem_nil, false_implies, implies_true,
    and_true]
  exact ⟨hnumber _ _ (by decide), hflag _ _ (by decide), hmessage, hflag _ _ (by decide),
    hflag _ _ (by decide), hflag _ _ (by decide), hflag _ _ (by decide), hnumber _ _ (by decide),
    hnumber _ _ (by decide), hnumber _ _ (by decide), hnumber _ _ (by decide),
    hnumber _ _ (by decide), hnumber _ _ (by decide), hnumber _ _ (by decide),
    hnumber _ _ (by decide)⟩

theorem parseReply_cut {a : Answer} (h : a.Printable) {pre : Text} (hpre : ¬ mark <:+: pre)
    {n : Nat} (hn : n < (decode (printAnswer a)).length) :
    parseReply (pre ++ (decode (printAnswer a)).take n) = none := by
  have hmark : mark.length = 4 := rfl
  rw [printAnswer_text h] at hn ⊢
  by_cases hinside : n < 4
  · rw [List.take_append_of_le_length (by omega)]
    unfold parseReply
    rw [find_mark_cut hpre hinside]
  · have hcut : (mark ++ Json.objectText (answerFields a)).take n =
        mark ++ (Json.objectText (answerFields a)).take (n - 4) := by
      rw [List.take_append, List.take_of_length_le (by omega), hmark]
    rw [List.length_append] at hn
    have hbrace := Json.objectText_cut (answerFields_brace h) (n := n - 4) (by omega)
    rw [hcut, ← List.append_assoc, parseReply_mark hpre]
    exact replyOf_cut hbrace

/-- Every answer is read back from its line, whatever text surrounds it, and no part of
it that ends before the closing brace is read as a reply. -/
theorem parseReply_answer (a : Answer) (h : a.Printable) (pre : Text) (hpre : ¬ mark <:+: pre) :
    (∀ post, ∃ reply, parseReply (pre ++ decode (printAnswer a) ++ post) = some reply ∧
      Shows a reply) ∧
      ∀ n < (decode (printAnswer a)).length,
        parseReply (pre ++ (decode (printAnswer a)).take n) = none := by
  constructor
  · intro post
    exact ⟨answerDict a, parseReply_answerDict h hpre post, answerDict_shows a⟩
  · intro n hn
    exact parseReply_cut h hpre hn

/-- The answer to an `unload` right after the start. -/
def unloadedAnswer : Answer where
  id := 7
  ok := true
  message := "BIN removed"
  connected := true
  loaded := false
  crc := 0
  diagnostics := Nfc.nfcDiagnostics Nfc.Mcu.boot

/-- That answer behind a log line's beginning and in front of its end. -/
theorem parseReply_answer_unloaded :
    ∃ reply, parseReply (text "I (123) LOG: " ++ decode (printAnswer unloadedAnswer) ++
      text "extra log") = some reply ∧ Shows unloadedAnswer reply := by
  have hread := parseReply_answer unloadedAnswer ⟨by decide, by decide⟩ (text "I (123) LOG: ")
    (by decide)
  exact hread.1 (text "extra log")

end SwitchController.Host
