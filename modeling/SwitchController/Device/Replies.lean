import SwitchController.Device.Watchdog

/-! # One reply for each subcommand

A report that carries a subcommand is answered by exactly one complete report
unless its MCU request is declined; every other report is silent. The stream
mode only moves by subcommand 0x03 and on a connection.
-/

namespace SwitchController.Device

open Memory Nfc

/-- The replies handed to the transport: subcommand, payload and report. -/
def replies (log : List Effect) : List (UInt8 × Bytes × Bytes) :=
  log.filterMap fun
    | .reply subcmdId payload report => some (subcmdId, payload, report)
    | _ => none

/-- A whole reply to this subcommand in this state. -/
structure Complete (c : Core) (subcmdId : UInt8) (payload report : Bytes) : Prop where
  length : report.length = 49
  reportId : report[0]? = some 0x21
  timer : report[1]? = some c.timer
  header : report.take 13 = headerBytes 0x21 c.timer c.ctrl c.virtualGrip
  subcmd : report[14]? = some subcmdId
  fits : payload.length ≤ 34
  payload : report.drop 15 = payload ++ zeros (34 - payload.length)

theorem replyReport_complete (c : Core) (subcmdId : UInt8) {payload : Bytes}
    (hfit : payload.length ≤ 34) :
    Complete c subcmdId payload (replyReport c subcmdId payload) := by
  have hhead := headerBytes_length 0x21 c.timer c.ctrl c.virtualGrip
  refine ⟨replyReport_length c subcmdId hfit, rfl, rfl, ?_, ?_, hfit, ?_⟩
  · simp only [replyReport, List.append_assoc]
    exact List.take_left' hhead
  · simp only [replyReport, List.append_assoc]
    rw [List.getElem?_append_right (by rw [hhead]; omega), hhead]
    rfl
  · simp only [replyReport, List.append_assoc]
    rw [List.drop_append, List.drop_eq_nil_of_le (by rw [hhead]; omega), hhead]
    rfl

/-- Preparing a reply changes nothing the reply shows. -/
theorem prepared_frame {c c₁ : Core} {subcmdId : UInt8} {calls : List Effect}
    (h : Prepared c subcmdId c₁ calls) :
    c₁.timer = c.timer ∧ c₁.ctrl = c.ctrl ∧ c₁.virtualGrip = c.virtualGrip ∧
      replies calls = [] := by
  cases h with
  | plain => exact ⟨rfl, rfl, rfl, rfl⟩
  | mode => exact ⟨rfl, rfl, rfl, rfl⟩
  | mcu => exact ⟨rfl, rfl, rfl, rfl⟩

theorem replied_once {c : Core} {subcmdId : UInt8} {r : Core × List Effect}
    (h : Replied c subcmdId r) :
    ∃ payload report, replies r.2 = [(subcmdId, payload, report)] ∧
      Complete c subcmdId payload report ∧ r.1.timer = c.timer + 1 := by
  obtain ⟨c₁, calls, payload, hp, hfit, rfl⟩ := h.reply
  obtain ⟨htimer, hctrl, hgrip, hcalls⟩ := prepared_frame hp
  have hreport : replyReport c₁ subcmdId payload = replyReport c subcmdId payload := by
    simp only [replyReport, htimer, hctrl, hgrip]
  refine ⟨payload, replyReport c subcmdId payload, ?_, replyReport_complete c subcmdId hfit, ?_⟩
  · change replies (calls ++ _) = _
    unfold replies at hcalls ⊢
    rw [List.filterMap_append, hcalls]
    simp [Core.replied, hreport]
  · simp only [Core.replied, htimer]

/-! ## Stream mode -/

/-- A mode the console can be in. -/
def StreamMode.Live (mode : StreamMode) : Prop := mode = .x30 ∨ mode = .x31 ∨ mode = .x3F

/-- The mode after a report is the old one or the choice of a set-mode subcommand. -/
theorem handled_mode {data : Bytes} {c c' : Core} {log : List Effect}
    (h : Handled data c c' log) :
    c'.streamMode = c.streamMode ∨ (subcommand data = some 0x03 ∧ c'.streamMode.Live) := by
  cases h with
  | ignored => exact .inl rfl
  | command => exact .inl rfl
  | declined => exact .inl rfl
  | replied hid hd hr =>
      obtain ⟨c₁, calls, payload, hp, -, rfl⟩ := hr.reply
      cases hp with
      | plain => exact .inl rfl
      | mode mode hm => exact .inr ⟨hid, hm⟩
      | mcu => exact .inl rfl

theorem commanded_mode {now : Int} {c c' : Core} {log : List Effect}
    (h : Commanded now c c' log) : c'.streamMode = c.streamMode := by
  cases h <;> rfl

theorem poll_mode (parse : Bytes → Option CJson) (lines : List (Bytes × Int)) (now : Int)
    (c : Core) : (pcControlPoll parse lines now c).1.streamMode = c.streamMode := by
  apply poll_rule (P := fun c _ c' => c'.streamMode = c.streamMode)
  · exact fun c => rfl
  · exact fun c c₁ c' log log' h h' => h'.trans h
  · exact fun now c c' log h => commanded_mode h
  · exact fun c => rfl

section Runs

variable {p : Platform} {parse : Bytes → Option CJson}

theorem step_mode {e : Call} {c c' : Core} {log : List Effect} (hrep : ∃ a, Rep c.nfc a)
    (hs : step p parse e c = some (c', log)) :
    c'.streamMode = c.streamMode ∨ (c'.streamMode.Live ∧
      (e = .protoInit ∨ ∃ data, e = .output data ∧ subcommand data = some 0x03)) := by
  cases e with
  | output data =>
      obtain ⟨a, ha⟩ := hrep
      obtain ⟨c₁, log₁, hr, hh⟩ := handleOutput_handled p data ha.tag_length
      cases hs.symm.trans hr
      exact (handled_mode hh).imp_right fun h => ⟨h.2, .inr ⟨data, rfl, h.1⟩⟩
  | protoInit => cases hs; exact .inr ⟨.inl rfl, .inl rfl⟩
  | command line now =>
      have hc := command_spec parse line now c
      rw [show command parse line now c = (c', log) from Option.some.inj hs] at hc
      exact .inl (commanded_mode hc)
  | poll lines now =>
      cases hs
      exact .inl (poll_mode parse lines now c)
  | nextTimer | grip | connection | peek | commit => cases hs; exact .inl rfl

theorem reachable_live {c : Core} (h : (device p parse).Reachable c) : c.streamMode.Live := by
  have hinv := h.invariant (fun c => (∃ a, Rep c.nfc a) ∧ c.streamMode.Live)
    ⟨⟨Model.boot, Rep.boot⟩, .inl rfl⟩ ?_
  · exact hinv.2
  · intro e c c' log ⟨⟨a, ha⟩, hlive⟩ hs
    refine ⟨(step_trace ha hs).rep ha, ?_⟩
    rcases step_mode ⟨a, ha⟩ hs with hsame | hnew
    · rw [hsame]
      exact hlive
    · exact hnew.1

end Runs

/-- Every output report is handled without reading past it: a subcommand gets one
complete reply or, when its MCU request is declined, none and no change at all. -/
theorem subcommands_answered (p : Platform) (parse : Bytes → Option CJson) :
    (∀ c, (device p parse).Reachable c → ∀ data, ∃ c' log,
      switchProtoHandleOutput p data c = some (c', log) ∧
      (∀ subcmdId, subcommand data = some subcmdId →
        (Declines subcmdId (data.drop 11) c.nfc → c' = c ∧ replies log = []) ∧
        (¬ Declines subcmdId (data.drop 11) c.nfc → ∃ payload report,
          replies log = [(subcmdId, payload, report)] ∧ Complete c subcmdId payload report ∧
            c'.timer = c.timer + 1)) ∧
      (subcommand data = none →
        replies log = [] ∧ c'.timer = c.timer ∧ c'.streamMode = c.streamMode)) ∧
    (∀ c, (device p parse).Reachable c → c.streamMode.Live) ∧
    (∀ c, (device p parse).Reachable c → ∀ e c' log, step p parse e c = some (c', log) →
      c'.streamMode ≠ c.streamMode →
        e = .protoInit ∨ ∃ data, e = .output data ∧ subcommand data = some 0x03) := by
  refine ⟨?_, fun c h => reachable_live h, ?_⟩
  · intro c h data
    obtain ⟨a, ha⟩ := reachable_rep h
    obtain ⟨c', log, hr, hh⟩ := handleOutput_handled p data ha.tag_length
    refine ⟨c', log, hr, ?_⟩
    cases hh with
    | ignored hnone hmcu => simp [hnone, replies]
    | command h11 hs =>
        have hnone : subcommand data = none := by simp [subcommand, h11]
        simp [hnone, replies]
    | declined hid hd hlog =>
        have hsilent : replies log = [] := by
          rcases hlog with rfl | ⟨op, r, -, -, rfl⟩ <;> rfl
        refine ⟨fun id hid' => ?_, fun hnone => ?_⟩
        · cases hid.symm.trans hid'
          exact ⟨fun _ => ⟨rfl, hsilent⟩, fun hn => absurd hd hn⟩
        · cases hid.symm.trans hnone
    | replied hid hd hr' =>
        refine ⟨fun id hid' => ?_, fun hnone => ?_⟩
        · cases hid.symm.trans hid'
          exact ⟨fun hdec => absurd hdec hd, fun _ => replied_once hr'⟩
        · cases hid.symm.trans hnone
  · intro c h e c' log hs hmoved
    rcases step_mode (reachable_rep h) hs with hsame | hnew
    · exact absurd hsame hmoved
    · exact hnew.2

/-- A power request without its argument byte: eleven bytes, never seen by the MCU. -/
def barePower : Bytes := [0x01] ++ zeros 9 ++ [0x22]

theorem barePower_unanswered :
    barePower.length = 11 ∧ subcommand barePower = some 0x22 ∧
      switchProtoHandleOutput blankPlatform barePower Core.boot = some (Core.boot, []) :=
  ⟨rfl, rfl, rfl⟩

/-- A set-mode request right after the start. -/
theorem subcommands_answered_mode :
    ∃ c' log payload report,
      switchProtoHandleOutput blankPlatform ([0x01] ++ zeros 9 ++ [0x03, 0x31]) Core.boot =
        some (c', log) ∧
      replies log = [(0x03, payload, report)] ∧ Complete Core.boot 0x03 payload report := by
  have hstart : (device blankPlatform fun _ => none).Reachable Core.boot := .start _
  obtain ⟨c', log, hr, hsub, -⟩ :=
    (subcommands_answered blankPlatform fun _ => none).1 _ hstart
      ([0x01] ++ zeros 9 ++ [0x03, 0x31])
  have hkept : ¬ Declines 0x03 [0x31] Core.boot.nfc := by simp [Declines]
  obtain ⟨payload, report, hreply, hcomplete, -⟩ := (hsub 0x03 rfl).2 hkept
  exact ⟨c', log, payload, report, hr, hreply, hcomplete⟩

end SwitchController.Device
