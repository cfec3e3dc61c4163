import SwitchController.Device.Watchdog

/-! # One answer for each command line

A line is answered exactly once, whatever it holds, and a negative answer means
that nothing happened. The one failing path that writes, a `state` command without
a Switch, releases controls that a disconnected device keeps neutral anyway.
-/

namespace SwitchController.Device

open Memory Nfc

/-- The answers printed, in order. -/
def answers (log : List Effect) : List Answer :=
  log.filterMap fun
    | .answer a => some a
    | _ => none

/-- Without a Switch the controls are neutral and the watchdog is off. -/
def Core.Resting (c : Core) : Prop :=
  c.linked = false → c.ctrl = controllerStateInit ∧ c.lastState = 0

/-- Controls, watchdog, tag, reported checksum and MCU are the same. -/
structure SameDevice (c c' : Core) : Prop where
  ctrl : c'.ctrl = c.ctrl
  lastState : c'.lastState = c.lastState
  tagLoaded : c'.tagLoaded = c.tagLoaded
  tagCrc : c'.tagCrc = c.tagCrc
  nfc : c'.nfc = c.nfc

theorem SameDevice.refl (c : Core) : SameDevice c c := ⟨rfl, rfl, rfl, rfl, rfl⟩

/-- A release finds nothing to do on a device without a Switch. -/
theorem release_resting {c : Core} (h : c.Resting) (hl : c.linked = false) :
    SameDevice c (release c).1 := by
  have hrest := h hl
  exact ⟨hrest.1.symm, hrest.2.symm, rfl, rfl, rfl⟩

/-! ## Reachable devices -/

theorem SamePc.resting {c c' : Core} (h : SamePc c c') (hr : c.Resting) : c'.Resting := by
  unfold Core.Resting
  rw [h.linked, h.ctrl, h.lastState]
  exact hr

theorem resting_release (c : Core) : (release c).1.Resting := fun _ => ⟨rfl, rfl⟩

theorem commanded_resting {now : Int} {c c' : Core} {log : List Effect}
    (h : Commanded now c c' log) (hr : c.Resting) : c'.Resting := by
  cases h with
  | answered a => exact hr
  | released a => exact resting_release c
  | applied a hl hb =>
      intro hf
      exact absurd (hl.symm.trans hf) (by decide)
  | loaded a hlen hv => exact hr
  | unloaded a => exact hr

theorem poll_resting (parse : Bytes → Option CJson) (lines : List (Bytes × Int)) (now : Int)
    {c : Core} (hr : c.Resting) : (pcControlPoll parse lines now c).1.Resting := by
  revert hr
  apply poll_rule (P := fun c _ c' => c.Resting → c'.Resting)
  · exact fun c hr => hr
  · exact fun c c₁ c' log log' h h' hr => h' (h hr)
  · exact fun now c c' log h hr => commanded_resting h hr
  · exact fun c hr => resting_release c

section Runs

variable {p : Platform} {parse : Bytes → Option CJson}

theorem step_resting {e : Call} {c c' : Core} {log : List Effect} (hrep : ∃ a, Rep c.nfc a)
    (hr : c.Resting) (hs : step p parse e c = some (c', log)) : c'.Resting := by
  cases e with
  | output data =>
      rcases hrep with ⟨a, ha⟩
      rcases handleOutput_handled p data ha.tag_length with ⟨c₁, log₁, hrun, hh⟩
      cases hs.symm.trans hrun
      exact (handled_samePc hh).1.resting hr
  | connection connected =>
      cases hs
      exact resting_release _
  | command line now =>
      have hc := command_spec parse line now c
      rw [show command parse line now c = (c', log) from Option.some.inj hs] at hc
      exact commanded_resting hc hr
  | poll lines now =>
      cases hs
      exact poll_resting parse lines now hr
  | nextTimer | protoInit | grip | peek | commit =>
      cases hs
      exact hr

theorem reachable_resting {c : Core} (h : (device p parse).Reachable c) : c.Resting := by
  have hinv : (∃ a, Rep c.nfc a) ∧ c.Resting := by
    apply h.invariant (fun c => (∃ a, Rep c.nfc a) ∧ c.Resting)
    · exact ⟨⟨Model.boot, Rep.boot⟩, fun _ => ⟨rfl, rfl⟩⟩
    · intro e c c' log hc hs
      rcases hc with ⟨⟨a, ha⟩, hr⟩
      exact ⟨(step_trace ha hs).rep ha, step_resting ⟨a, ha⟩ hr hs⟩
  exact hinv.2

end Runs

/-! ## Answers -/

/-- One answer with this id, and a failure leaves the device alone. -/
def AnsweredOnce (id : Nat) (c : Core) (r : Core × List Effect) : Prop :=
  ∃ a, answers r.2 = [a] ∧ a.id = id ∧ (a.ok = false → SameDevice c r.1)

/-- An answer on its own, whatever it says. -/
theorem answered_alone (id : Nat) (ok : Bool) (message : String) (c : Core) :
    AnsweredOnce id c (c, [answer id ok message c]) :=
  ⟨_, rfl, rfl, fun _ => .refl c⟩

/-- A success may change the device. -/
theorem answered_success (id : Nat) (message : String) (c c' : Core) {call : Effect}
    (hcall : answers [call] = []) :
    AnsweredOnce id c (c', [call, answer id true message c']) := by
  have hlog : answers [call, answer id true message c'] =
      answers [call] ++ answers [answer id true message c'] :=
    List.filterMap_append (l := [call])
  rw [hcall] at hlog
  refine ⟨_, hlog, rfl, ?_⟩
  intro h
  cases h

theorem commandState_answered (o : CJson) (id : Nat) (now : Int) {c : Core} (hr : c.Resting) :
    AnsweredOnce id c (commandState o id now c) := by
  unfold commandState
  cases readState o with
  | none => exact answered_alone id false _ c
  | some state =>
      by_cases hl : c.linked = true
      · simp only [hl, if_true]
        exact answered_success id _ c _ rfl
      · have hoff : c.linked = false := by simpa using hl
        simp only [hoff, Bool.false_eq_true, if_false]
        exact ⟨_, rfl, rfl, fun _ => release_resting hr hoff⟩

theorem commandLoad_answered (o : CJson) (id : Nat) (c : Core) :
    AnsweredOnce id c (commandLoad o id c) := by
  unfold commandLoad
  cases loadFields o with
  | none => exact answered_alone id false _ c
  | some fields =>
      rcases fields with ⟨hex, expected⟩
      dsimp only
      cases decodeHex hex with
      | none => exact answered_alone id false _ c
      | some candidate =>
          dsimp only
          split_ifs
          · exact answered_alone id false _ c
          · exact answered_alone id false _ c
          · exact answered_success id _ c _ rfl

theorem runCommand_answered (o : CJson) (cmd : Bytes) (id : Nat) (now : Int) {c : Core}
    (hr : c.Resting) : AnsweredOnce id c (runCommand o cmd id now c) := by
  unfold runCommand
  split_ifs
  · exact answered_alone id true _ c
  · exact answered_success id _ c _ rfl
  · exact commandState_answered o id now hr
  · exact commandLoad_answered o id c
  · exact answered_success id _ c _ rfl
  · exact answered_alone id false _ c

/-- The id a line is answered with. -/
def requestId (parse : Bytes → Option CJson) (line : Bytes) : Nat :=
  ((parse (cString line)).bind fun o => number o "id" 2147483647).getD 0

theorem command_answered (parse : Bytes → Option CJson) (line : Bytes) (now : Int) {c : Core}
    (hr : c.Resting) : AnsweredOnce (requestId parse line) c (command parse line now c) := by
  unfold command requestId
  cases parse (cString line) with
  | none => exact answered_alone 0 false _ c
  | some o =>
      dsimp only [Option.bind_some]
      cases number o "id" 2147483647 with
      | none => exact answered_alone 0 false _ c
      | some id =>
          dsimp only [Option.getD_some]
          split
          · exact runCommand_answered o _ id now hr
          · exact answered_alone id false _ c

/-- Every line is answered once, under its id if it has a usable one, and a line that
fails leaves the device as it was. -/
theorem command_answered_once (p : Platform) (parse : Bytes → Option CJson) {c : Core}
    (h : (device p parse).Reachable c) (line : Bytes) (now : Int) :
    ∃ a, answers (command parse line now c).2 = [a] ∧
      (∀ o, parse (cString line) = some o → ∀ n : Nat, n ≤ 2147483647 →
        getObjectItem o "id" = some (.number (.finite n)) → a.id = n) ∧
      ((∀ o, parse (cString line) = some o → ∀ n : Nat, n ≤ 2147483647 →
        getObjectItem o "id" ≠ some (.number (.finite n))) → a.id = 0) ∧
      (a.ok = false → SameDevice c (command parse line now c).1) := by
  rcases command_answered parse line now (reachable_resting h) with ⟨a, hlog, hid, hfail⟩
  refine ⟨a, hlog, ?_, ?_, hfail⟩
  · intro o ho n hn hitem
    have hnumber := number_eq_some.mpr ⟨hn, hitem⟩
    rw [hid]
    simp [requestId, ho, hnumber]
  · intro hnone
    rw [hid]
    unfold requestId
    cases ho : parse (cString line) with
    | none => rfl
    | some o =>
        cases hnumber : number o "id" 2147483647 with
        | none => simp [hnumber]
        | some n =>
            have hitem := number_eq_some.mp hnumber
            exact absurd hitem.2 (hnone o ho n hitem.1)

/-- A `state` command before any connection: refused, and nothing moves. -/
theorem command_answered_once_unlinked :
    ∃ a, answers (command parseFlat holdLine 5 Core.boot).2 = [a] ∧
      a.id = 1 ∧ a.ok = false := by
  have hreach : (device blankPlatform parseFlat).Reachable Core.boot := .start _
  rcases command_answered_once _ _ hreach holdLine 5 with ⟨a, hlog, hid, -, -⟩
  have hok : (answers (command parseFlat holdLine 5 Core.boot).2).map Answer.ok = [false] := by
    decide +kernel
  rw [hlog] at hok
  have hparse : ((parseFlat (cString holdLine)).map fun o => number o "id" 2147483647) =
      some (some 1) := by
    decide +kernel
  rcases Option.map_eq_some_iff.mp hparse with ⟨o, ho, hnumber⟩
  rcases number_eq_some.mp hnumber with ⟨hmax, hitem⟩
  exact ⟨a, hlog, hid o ho 1 hmax hitem, by simpa using hok⟩

end SwitchController.Device
