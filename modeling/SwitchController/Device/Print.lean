import SwitchController.Device.Control
import SwitchController.Lib.FlatJson

/-! # Printed answers

What `answer` prints, and the answers `command` has: the texts are fixed, only the id
and the state vary.
-/

namespace SwitchController.Device

open Memory FlatJson

/-- The conversion of a flag. -/
def printFlag (b : Bool) : Bytes := if b then ascii "true" else ascii "false"

/-- The line `answer` prints, without its line end. -/
def printAnswer (a : Answer) : Bytes :=
  ascii "@PC \x7b\"id\":" ++ decimal a.id ++ ascii ",\"ok\":" ++ printFlag a.ok ++
    ascii ",\"message\":\"" ++ ascii a.message ++ ascii "\",\"connected\":" ++
    printFlag a.connected ++ ascii ",\"loaded\":" ++ printFlag a.loaded ++
    ascii ",\"nfc_ready\":true,\"nfc_write\":false,\"crc\":" ++ decimal a.crc.toNat ++
    ascii ",\"mcu_power\":" ++ decimal a.diagnostics.power.toNat ++
    ascii ",\"nfc_poll\":" ++ decimal a.diagnostics.poll.toNat ++
    ascii ",\"nfc_queue\":" ++ decimal a.diagnostics.pending.toNat ++
    ascii ",\"nfc_rx\":" ++ decimal a.diagnostics.received.toNat ++
    ascii ",\"nfc_rejected\":" ++ decimal a.diagnostics.rejected.toNat ++
    ascii ",\"nfc_last_cmd\":" ++ decimal a.diagnostics.lastCmd.toNat ++
    ascii ",\"nfc_last_sub\":" ++ decimal a.diagnostics.lastSub.toNat ++ ascii "\x7d"

/-- The result and the text of every answer. -/
def commandAnswers : List (Bool × String) :=
  [(false, "Invalid JSON or id"), (false, "Missing cmd"), (true, "PC controller v1"),
    (true, "Released"), (false, "Invalid controller state"), (false, "Switch disconnected"),
    (true, "State applied"), (false, "Expected 540-byte raw BIN and CRC32"),
    (false, "Invalid hex"), (false, "CRC mismatch"), (false, "Invalid NTAG UID/BCC"),
    (true, "BIN presented; NFC read experimental"), (true, "BIN removed"),
    (false, "Unknown command")]

/-- An answer `command` could give. -/
structure Answer.Printable (a : Answer) : Prop where
  id : a.id ≤ 2147483647
  text : (a.ok, a.message) ∈ commandAnswers

theorem answer_printable {id : Nat} {ok : Bool} {message : String} {c : Core} {a : Answer}
    (hid : id ≤ 2147483647) (htext : (ok, message) ∈ commandAnswers)
    (h : Effect.answer a = answer id ok message c) : a.Printable := by
  cases h
  exact ⟨hid, htext⟩

theorem commandState_printable {o : CJson} {id : Nat} {now : Int} {c : Core} {a : Answer}
    (hid : id ≤ 2147483647) (h : .answer a ∈ (commandState o id now c).2) : a.Printable := by
  unfold commandState at h
  split at h
  · exact answer_printable hid (by decide) (List.mem_singleton.mp h)
  · split at h
    · simp only [List.mem_cons, reduceCtorEq, List.not_mem_nil, or_false, false_or] at h
      exact answer_printable hid (by decide) h
    · simp only [release, List.cons_append, List.nil_append, List.mem_cons, reduceCtorEq,
        List.not_mem_nil, or_false, false_or] at h
      exact answer_printable hid (by decide) h

theorem commandLoad_printable {o : CJson} {id : Nat} {c : Core} {a : Answer}
    (hid : id ≤ 2147483647) (h : .answer a ∈ (commandLoad o id c).2) : a.Printable := by
  unfold commandLoad at h
  split at h
  · exact answer_printable hid (by decide) (List.mem_singleton.mp h)
  split at h
  · exact answer_printable hid (by decide) (List.mem_singleton.mp h)
  dsimp only at h
  split_ifs at h
  · exact answer_printable hid (by decide) (List.mem_singleton.mp h)
  · exact answer_printable hid (by decide) (List.mem_singleton.mp h)
  · simp only [List.mem_cons, reduceCtorEq, List.not_mem_nil, or_false, false_or] at h
    exact answer_printable hid (by decide) h

/-- Every answer a command prints is one of those. -/
theorem command_printable {parse : Bytes → Option CJson} {line : Bytes} {now : Int} {c : Core}
    {a : Answer} (h : .answer a ∈ (command parse line now c).2) : a.Printable := by
  unfold command at h
  split at h
  · exact answer_printable (by decide) (by decide) (List.mem_singleton.mp h)
  split at h
  · exact answer_printable (by decide) (by decide) (List.mem_singleton.mp h)
  rename_i id hid
  have hid := number_le hid
  split at h
  · unfold runCommand at h
    split_ifs at h
    · exact answer_printable hid (by decide) (List.mem_singleton.mp h)
    · simp only [release, List.cons_append, List.nil_append, List.mem_cons, reduceCtorEq,
        List.not_mem_nil, or_false, false_or] at h
      exact answer_printable hid (by decide) h
    · exact commandState_printable hid h
    · exact commandLoad_printable hid h
    · simp only [commandUnload, List.mem_cons, reduceCtorEq, List.not_mem_nil, or_false,
        false_or] at h
      exact answer_printable hid (by decide) h
    · exact answer_printable hid (by decide) (List.mem_singleton.mp h)
  · exact answer_printable hid (by decide) (List.mem_singleton.mp h)

end SwitchController.Device
