import SwitchController.Device.Replies
import SwitchController.Nfc.Currency

/-! # Cores that report alike

Two cores that agree on what reports show, on the stream mode, on the watchdog and on
the MCU as its packets tell it answer every console report with the same bytes and stay
in agreement under every PC command. Counters and the reported checksum may differ.
-/

namespace SwitchController.Device

open Memory Nfc

structure Core.Alike (c d : Core) : Prop where
  ctrl : c.ctrl = d.ctrl
  virtualGrip : c.virtualGrip = d.virtualGrip
  nfc : c.nfc.Alike d.nfc
  streamMode : c.streamMode = d.streamMode
  timer : c.timer = d.timer
  linked : c.linked = d.linked
  lastState : c.lastState = d.lastState

/-- Alike cores, and the same replies on the way. -/
def AlikeRun (r s : Core × List Effect) : Prop := r.1.Alike s.1 ∧ replies r.2 = replies s.2

/-- Both sides of a call succeed alike, when the first does. -/
def Follows (r s : Option (Core × List Effect)) : Prop :=
  ∀ x, r = some x → ∃ y, s = some y ∧ AlikeRun x y

theorem Follows.some {x y : Core × List Effect} (h : AlikeRun x y) :
    Follows (some x) (some y) := by
  intro z hz
  cases hz
  exact ⟨y, rfl, h⟩

theorem Follows.none {s : Option (Core × List Effect)} : Follows none s := by
  intro x hx
  cases hx

/-- The results of one call into alike MCUs. -/
theorem alike_results {m n m' n' : Mcu} {op : Op} {r s : List Nfc.Result} (h : m.Alike n)
    (hm : Nfc.step op m = some (m', r)) (hn : Nfc.step op n = some (n', s)) :
    m'.Alike n' ∧ r = s := by
  rcases alike_step op m n m' r h hm with ⟨n'', hn'', halike⟩
  cases hn.symm.trans hn''
  exact ⟨halike, rfl⟩

section Calls

variable {c d : Core}

theorem Core.Alike.withNfc (h : c.Alike d) {m n : Mcu} (hnfc : m.Alike n) :
    Core.Alike { c with nfc := m } { d with nfc := n } :=
  ⟨h.ctrl, h.virtualGrip, hnfc, h.streamMode, h.timer, h.linked, h.lastState⟩

/-! ## Console reports -/

theorem send_alike (h : c.Alike d) (subcmdId : UInt8) (payload : Bytes) (payloadLen : Nat) :
    AlikeRun (sendSubcmdReply subcmdId payload payloadLen c)
      (sendSubcmdReply subcmdId payload payloadLen d) := by
  have htimer : c.timer + 1 = d.timer + 1 := by rw [h.timer]
  have hreport : inputReportBuild0x21 c.timer c.ctrl c.virtualGrip subcmdId payload payloadLen =
      inputReportBuild0x21 d.timer d.ctrl d.virtualGrip subcmdId payload payloadLen := by
    rw [h.timer, h.ctrl, h.virtualGrip]
  constructor
  · exact ⟨h.ctrl, h.virtualGrip, h.nfc, h.streamMode, htimer, h.linked, h.lastState⟩
  · simp only [sendSubcmdReply, replies, List.filterMap_cons, List.filterMap_nil, hreport]

theorem setMode_alike (h : c.Alike d) (arg : UInt8) :
    AlikeRun (handleSubcmd03SetMode arg c) (handleSubcmd03SetMode arg d) := by
  have hmode : (c.withMode arg).Alike (d.withMode arg) := by
    unfold Core.withMode
    split
    · exact ⟨h.ctrl, h.virtualGrip, h.nfc, rfl, h.timer, h.linked, h.lastState⟩
    · exact ⟨h.ctrl, h.virtualGrip, h.nfc, rfl, h.timer, h.linked, h.lastState⟩
    · exact ⟨h.ctrl, h.virtualGrip, h.nfc, rfl, h.timer, h.linked, h.lastState⟩
    · exact h
  exact send_alike hmode 0x03 [0x03] 1

theorem replied_alike (h : c.Alike d) (subcmdId : UInt8) (payload : Bytes) :
    AlikeRun (c.replied subcmdId payload) (d.replied subcmdId payload) := by
  have htimer : c.timer + 1 = d.timer + 1 := by rw [h.timer]
  have hreport : replyReport c subcmdId payload = replyReport d subcmdId payload := by
    simp only [replyReport, h.timer, h.ctrl, h.virtualGrip]
  constructor
  · exact ⟨h.ctrl, h.virtualGrip, h.nfc, h.streamMode, htimer, h.linked, h.lastState⟩
  · simp only [Core.replied, replies, List.filterMap_cons, List.filterMap_nil, hreport]

theorem spiRead_alike (p : Platform) (h : c.Alike d) {args : Bytes} (hlen : args.length ≥ 5) :
    Follows (handleSubcmd10SpiRead p args c) (handleSubcmd10SpiRead p args d) := by
  match args, hlen with
  | a0 :: a1 :: a2 :: a3 :: lenByte :: rest, _ =>
      rw [spiRead_eq p a0 a1 a2 a3 lenByte rest c rfl, spiRead_eq p a0 a1 a2 a3 lenByte rest d rfl]
      exact .some (replied_alike h 0x10 _)

theorem config_alike (h : c.Alike d) (args : Bytes) :
    Follows (handleSubcmd21McuConfig args c) (handleSubcmd21McuConfig args d) := by
  unfold handleSubcmd21McuConfig
  cases hm : nfcConfig args c.nfc with
  | none => exact .none
  | some r =>
      rcases r with ⟨reply, m⟩
      have hc : Nfc.step (.config args) c.nfc = some (m, [.reply reply]) := by
        simp [Nfc.step, hm]
      rcases alike_step _ _ _ _ _ h.nfc hc with ⟨n, hd, halike⟩
      have hn : nfcConfig args d.nfc = some (reply, n) := by
        rcases Option.map_eq_some_iff.mp hd with ⟨⟨reply', n'⟩, hn, heq⟩
        simp only [Prod.mk.injEq, List.cons.injEq, Nfc.Result.reply.injEq, and_true] at heq
        rw [hn, heq.1, heq.2]
      rw [hn]
      cases reply with
      | none => exact .some ⟨h.withNfc halike, rfl⟩
      | some payload =>
          have hsend := send_alike (h.withNfc halike) 0x21 payload payload.length
          exact .some ⟨hsend.1, hsend.2⟩

theorem power_alike (h : c.Alike d) (args : Bytes) :
    Follows (handleSubcmd22McuState args c) (handleSubcmd22McuState args d) := by
  unfold handleSubcmd22McuState
  by_cases hlen : args.length = 0
  · rw [if_pos hlen, if_pos hlen]
    exact .some ⟨h, rfl⟩
  · rw [if_neg hlen, if_neg hlen]
    cases args[0]? with
    | none => exact .none
    | some value =>
        have hc : Nfc.step (.power value) c.nfc = some (_, _) := rfl
        have hd : Nfc.step (.power value) d.nfc = some (_, _) := rfl
        have hpower := alike_results h.nfc hc hd
        have hok : (nfcPower value c.nfc).1 = (nfcPower value d.nfc).1 := by
          have hresult := hpower.2
          simpa using hresult
        have halike := h.withNfc hpower.1
        simp only [Option.bind_eq_bind, Option.bind_some, hok]
        by_cases ht : (nfcPower value d.nfc).1 = true
        · rw [if_pos ht, if_pos ht]
          have hsend := send_alike halike 0x22 [] 0
          exact .some ⟨hsend.1, hsend.2⟩
        · rw [if_neg ht, if_neg ht]
          exact .some ⟨halike, rfl⟩

theorem dispatch_alike (p : Platform) (h : c.Alike d) (subcmdId : UInt8) (args : Bytes) :
    Follows (dispatchSubcommand p subcmdId args c) (dispatchSubcommand p subcmdId args d) := by
  unfold dispatchSubcommand
  simp only [firstArg_eq]
  split
  case h_3 => exact .some (setMode_alike h _)
  case h_9 =>
      by_cases hlen : args.length ≥ 5
      · rw [if_pos hlen, if_pos hlen]
        exact spiRead_alike p h hlen
      · rw [if_neg hlen, if_neg hlen]
        exact .some (send_alike h _ _ _)
  case h_13 => exact config_alike h args
  case h_14 => exact power_alike h args
  all_goals exact .some (send_alike h _ _ _)

/-- A console report finds alike cores and leaves alike cores, with the same replies. -/
theorem output_alike (p : Platform) (h : c.Alike d) (data : Bytes) :
    Follows (switchProtoHandleOutput p data c) (switchProtoHandleOutput p data d) := by
  unfold switchProtoHandleOutput
  by_cases hempty : data.length < 1
  · rw [if_pos hempty, if_pos hempty]
    exact .some ⟨h, rfl⟩
  rw [if_neg hempty, if_neg hempty]
  cases data[0]? with
  | none => exact .none
  | some reportId =>
      simp only [Option.bind_eq_bind, Option.bind_some]
      split_ifs
      · exact .some ⟨h, rfl⟩
      · cases data[10]? with
        | none => exact .none
        | some subcmdId => exact dispatch_alike p h subcmdId (data.drop 11)
      · exact .some ⟨h, rfl⟩
      · cases hm : nfcCommand data c.nfc with
        | none => exact .none
        | some r =>
            have hc : Nfc.step (.command data) c.nfc = some (r.2, [.accepted r.1]) := by
              simp [Nfc.step, hm]
            rcases alike_step _ _ _ _ _ h.nfc hc with ⟨n, hd, halike⟩
            rcases Option.map_eq_some_iff.mp hd with ⟨r', hn, heq⟩
            rw [hn]
            have hnfc : r'.2 = n := congrArg Prod.fst heq
            rw [← hnfc] at halike
            exact .some ⟨h.withNfc halike, rfl⟩
      · exact .some ⟨h, rfl⟩

/-! ## Connections and PC commands -/

theorem release_alike (h : c.Alike d) : (release c).1.Alike (release d).1 :=
  ⟨rfl, rfl, h.nfc, h.streamMode, h.timer, h.linked, rfl⟩

theorem commandState_alike (h : c.Alike d) (o : CJson) (id : Nat) (now : Int) :
    (commandState o id now c).1.Alike (commandState o id now d).1 := by
  unfold commandState
  cases readState o with
  | none => exact h
  | some state =>
      dsimp only
      by_cases hl : c.linked = true
      · have hl' : d.linked = true := h.linked.symm.trans hl
        rw [if_pos hl, if_pos hl']
        exact ⟨rfl, h.virtualGrip, h.nfc, h.streamMode, h.timer, h.linked, rfl⟩
      · have hl' : ¬ d.linked = true := fun hc => hl (h.linked.trans hc)
        rw [if_neg hl, if_neg hl']
        exact release_alike h

theorem commandLoad_alike (h : c.Alike d) (o : CJson) (id : Nat) :
    (commandLoad o id c).1.Alike (commandLoad o id d).1 := by
  unfold commandLoad
  cases loadFields o with
  | none => exact h
  | some fields =>
      rcases fields with ⟨hex, expected⟩
      dsimp only
      cases decodeHex hex with
      | none => exact h
      | some candidate =>
          dsimp only
          split_ifs
          · exact h
          · exact h
          · have hc : Nfc.step (.load candidate) c.nfc = some (_, _) := rfl
            have hd : Nfc.step (.load candidate) d.nfc = some (_, _) := rfl
            have hload := alike_results h.nfc hc hd
            exact ⟨h.ctrl, h.virtualGrip, hload.1, h.streamMode, h.timer, h.linked, h.lastState⟩

theorem runCommand_alike (h : c.Alike d) (o : CJson) (cmd : Bytes) (id : Nat) (now : Int) :
    (runCommand o cmd id now c).1.Alike (runCommand o cmd id now d).1 := by
  unfold runCommand
  split_ifs
  · exact h
  · exact release_alike h
  · exact commandState_alike h o id now
  · exact commandLoad_alike h o id
  · have hc : Nfc.step .unload c.nfc = some (_, _) := rfl
    have hd : Nfc.step .unload d.nfc = some (_, _) := rfl
    have hunload := alike_results h.nfc hc hd
    exact ⟨h.ctrl, h.virtualGrip, hunload.1, h.streamMode, h.timer, h.linked, h.lastState⟩
  · exact h

theorem command_alike (parse : Bytes → Option CJson) (h : c.Alike d) (line : Bytes) (now : Int) :
    (command parse line now c).1.Alike (command parse line now d).1 := by
  unfold command
  cases parse (cString line) with
  | none => exact h
  | some o =>
      dsimp only
      cases number o "id" 2147483647 with
      | none => exact h
      | some id =>
          dsimp only
          split
          · exact runCommand_alike h o _ id now
          · exact h

theorem commands_alike (parse : Bytes → Option CJson) (lines : List (Bytes × Int))
    (h : c.Alike d) : (commands parse lines c).1.Alike (commands parse lines d).1 := by
  induction lines generalizing c d with
  | nil => exact h
  | cons line lines ih => exact ih (command_alike parse h line.1 line.2)

theorem watchdog_alike (h : c.Alike d) (now : Int) :
    (watchdog now c).1.Alike (watchdog now d).1 := by
  unfold watchdog
  rw [← h.lastState]
  split
  · exact release_alike h
  · exact h

theorem poll_alike (parse : Bytes → Option CJson) (h : c.Alike d) (lines : List (Bytes × Int))
    (now : Int) :
    (pcControlPoll parse lines now c).1.Alike (pcControlPoll parse lines now d).1 :=
  watchdog_alike (commands_alike parse (lines.take 4) h) now

end Calls

end SwitchController.Device
