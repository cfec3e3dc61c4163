import SwitchController.Device.Parser
import SwitchController.Device.System

/-! # The dead-man switch

Buttons and sticks leave neutral only through a `state` command that arms the
watchdog, and everything that ends a command's authority (a release, a timeout,
a connection edge) is logged as a release. The invariant ties the controller
state to the newest `state` command of the log.
-/

namespace SwitchController.Device

open Memory Nfc

/-- The fields of the PC side, which the console side never writes. -/
structure SamePc (c c' : Core) : Prop where
  ctrl : c'.ctrl = c.ctrl
  linked : c'.linked = c.linked
  lastState : c'.lastState = c.lastState
  tagLoaded : c'.tagLoaded = c.tagLoaded
  tagCrc : c'.tagCrc = c.tagCrc

/-- Neither a `state` command taking effect nor a release. -/
def Effect.Quiet : Effect → Prop
  | .applied _ _ | .released => False
  | _ => True

theorem prepared_samePc {c c₁ : Core} {subcmdId : UInt8} {calls : List Effect}
    (h : Prepared c subcmdId c₁ calls) : SamePc c c₁ ∧ ∀ e ∈ calls, e.Quiet := by
  cases h with
  | plain => exact ⟨⟨rfl, rfl, rfl, rfl, rfl⟩, by simp⟩
  | mode => exact ⟨⟨rfl, rfl, rfl, rfl, rfl⟩, by simp⟩
  | mcu => exact ⟨⟨rfl, rfl, rfl, rfl, rfl⟩, by simp [Effect.Quiet]⟩

theorem handled_samePc {data : Bytes} {c c' : Core} {log : List Effect}
    (h : Handled data c c' log) : SamePc c c' ∧ ∀ e ∈ log, e.Quiet := by
  cases h with
  | ignored => exact ⟨⟨rfl, rfl, rfl, rfl, rfl⟩, by simp⟩
  | command => exact ⟨⟨rfl, rfl, rfl, rfl, rfl⟩, by simp [Effect.Quiet]⟩
  | declined hid hd hlog =>
      refine ⟨⟨rfl, rfl, rfl, rfl, rfl⟩, ?_⟩
      rcases hlog with rfl | ⟨op, r, -, -, rfl⟩
      · simp
      · simp [Effect.Quiet]
  | replied hid hd hr =>
      obtain ⟨c₁, calls, payload, hp, -, rfl⟩ := hr.reply
      obtain ⟨hsame, hquiet⟩ := prepared_samePc hp
      refine ⟨⟨hsame.ctrl, hsame.linked, hsame.lastState, hsame.tagLoaded, hsame.tagCrc⟩, ?_⟩
      intro e he
      rcases List.mem_append.mp he with hcall | hreply
      · exact hquiet e hcall
      · obtain rfl := List.mem_singleton.mp hreply
        trivial

/-! ## The invariant -/

structure Safe (c : Core) (log : List Effect) : Prop where
  bounded : c.ctrl.Bounded
  unlinked : c.linked = false → c.lastState = 0
  disarmed : c.lastState = 0 → c.ctrl = controllerStateInit
  armed : c.lastState ≠ 0 → ∃ pre post,
    log = pre ++ .applied c.ctrl c.lastState :: post ∧ ∀ e ∈ post, e.Quiet

namespace Safe

variable {c c' : Core} {past log : List Effect}

theorem neutral_bounded : controllerStateInit.Bounded := by
  constructor <;> decide

theorem frame (h : Safe c past) (hsame : SamePc c c') (hquiet : ∀ e ∈ log, e.Quiet) :
    Safe c' (past ++ log) where
  bounded := by rw [hsame.ctrl]; exact h.bounded
  unlinked := by rw [hsame.linked, hsame.lastState]; exact h.unlinked
  disarmed := by rw [hsame.ctrl, hsame.lastState]; exact h.disarmed
  armed := by
    rw [hsame.ctrl, hsame.lastState]
    intro hne
    obtain ⟨pre, post, rfl, hpost⟩ := h.armed hne
    refine ⟨pre, post ++ log, by simp, ?_⟩
    intro e he
    rcases List.mem_append.mp he with hold | hnew
    · exact hpost e hold
    · exact hquiet e hnew

theorem released (c : Core) (log : List Effect) : Safe (release c).1 log where
  bounded := neutral_bounded
  unlinked := fun _ => rfl
  disarmed := fun _ => rfl
  armed := fun hne => absurd rfl hne

theorem commanded {now : Int} (h : Safe c past) (hnow : 0 < now)
    (hc : Commanded now c c' log) : Safe c' (past ++ log) := by
  cases hc with
  | answered a => exact h.frame ⟨rfl, rfl, rfl, rfl, rfl⟩ (by simp [Effect.Quiet])
  | released a => exact released c _
  | applied a hl hb =>
      refine ⟨hb, fun hf => ?_, fun hz => ?_, fun _ => ⟨past, [.answer a], rfl, ?_⟩⟩
      · exact absurd (hl.symm.trans hf) (by decide)
      · exact absurd hz (by dsimp only; omega)
      · simp [Effect.Quiet]
  | loaded a hlen hv =>
      exact ⟨h.bounded, h.unlinked, h.disarmed,
        (h.frame ⟨rfl, rfl, rfl, rfl, rfl⟩ (by simp [Effect.Quiet])).armed⟩
  | unloaded a =>
      exact ⟨h.bounded, h.unlinked, h.disarmed,
        (h.frame ⟨rfl, rfl, rfl, rfl, rfl⟩ (by simp [Effect.Quiet])).armed⟩

theorem commands (parse : Bytes → Option CJson) {lines : List (Bytes × Int)} (h : Safe c past)
    (hnow : ∀ line ∈ lines, 0 < line.2) :
    Safe (Device.commands parse lines c).1 (past ++ (Device.commands parse lines c).2) := by
  induction lines generalizing c past with
  | nil => simpa [Device.commands] using h
  | cons line lines ih =>
      have h₁ := h.commanded (hnow line (by simp)) (command_spec parse line.1 line.2 c)
      have hrest := ih h₁ fun l hl => hnow l (by simp [hl])
      simpa [Device.commands] using hrest

theorem watchdog (now : Int) (h : Safe c past) :
    Safe (Device.watchdog now c).1 (past ++ (Device.watchdog now c).2) := by
  unfold Device.watchdog
  split_ifs
  · exact released c _
  · simpa using h

end Safe

/-- A poll that leaves the watchdog armed has checked the age of its command. -/
theorem poll_age (parse : Bytes → Option CJson) (lines : List (Bytes × Int)) (now : Int)
    (c : Core) (h : (pcControlPoll parse lines now c).1.lastState ≠ 0) :
    now - (pcControlPoll parse lines now c).1.lastState ≤ stateTimeout := by
  unfold pcControlPoll watchdog at h ⊢
  dsimp only at h ⊢
  by_cases hold : (commands parse (lines.take 4) c).1.lastState ≠ 0 ∧
      now - (commands parse (lines.take 4) c).1.lastState > stateTimeout
  · rw [if_pos hold] at h
    exact absurd rfl h
  · rw [if_neg hold] at h ⊢
    by_contra hc
    exact hold ⟨h, not_le.mp hc⟩

/-! ## Runs -/

/-- The clock readings a call makes, in order. -/
def Call.readings : Call → List Int
  | .command _ now => [now]
  | .poll lines now => lines.map Prod.snd ++ [now]
  | _ => []

section Runs

variable {p : Platform} {parse : Bytes → Option CJson}

theorem safe_step {e : Call} {c c' : Core} {past log : List Effect}
    (hclock : ∀ now ∈ e.readings, 0 < now) (hrep : ∃ a, Rep c.nfc a) (h : Safe c past)
    (hs : step p parse e c = some (c', log)) : Safe c' (past ++ log) := by
  have hsame : SamePc c c := ⟨rfl, rfl, rfl, rfl, rfl⟩
  cases e with
  | output data =>
      obtain ⟨a, ha⟩ := hrep
      obtain ⟨c₁, log₁, hr, hh⟩ := handleOutput_handled p data ha.tag_length
      cases hs.symm.trans hr
      exact h.frame (handled_samePc hh).1 (handled_samePc hh).2
  | nextTimer => cases hs; exact h.frame ⟨rfl, rfl, rfl, rfl, rfl⟩ (by simp)
  | protoInit => cases hs; exact h.frame ⟨rfl, rfl, rfl, rfl, rfl⟩ (by simp [Effect.Quiet])
  | grip pressed => cases hs; exact h.frame ⟨rfl, rfl, rfl, rfl, rfl⟩ (by simp)
  | connection connected => cases hs; exact .released _ _
  | command line now =>
      have hc := command_spec parse line now c
      rw [show command parse line now c = (c', log) from Option.some.inj hs] at hc
      exact h.commanded (hclock now (by simp [Call.readings])) hc
  | poll lines now =>
      cases hs
      have hlines : ∀ line ∈ lines.take 4, 0 < line.2 := by
        intro line hl
        refine hclock line.2 (List.mem_append_left _ ?_)
        exact List.mem_map_of_mem (List.mem_of_mem_take hl)
      have hafter := (h.commands parse hlines).watchdog now
      rw [List.append_assoc] at hafter
      exact hafter
  | peek => cases hs; exact h.frame hsame (by simp [Effect.Quiet])
  | commit => cases hs; exact h.frame ⟨rfl, rfl, rfl, rfl, rfl⟩ (by simp [Effect.Quiet])

theorem safe_boot : Safe Core.boot [] where
  bounded := Safe.neutral_bounded
  unlinked := fun _ => rfl
  disarmed := fun _ => rfl
  armed := fun h => absurd rfl h

theorem safe_run {es : List Call} {c : Core} {log : List Effect}
    (hclock : ∀ e ∈ es, ∀ now ∈ e.readings, 0 < now)
    (hr : (device p parse).run es Core.boot = some (c, log)) : Safe c log := by
  have hrun := Transition.System.run_history_on (M := device p parse)
    (fun c log => (∃ a, Rep c.nfc a) ∧ Safe c log) (fun e => ∀ now ∈ e.readings, 0 < now)
    (fun e c c' log past hok h hs => by
      obtain ⟨⟨a, ha⟩, hsafe⟩ := h
      exact ⟨(step_trace ha hs).rep ha, safe_step hok ⟨a, ha⟩ hsafe hs⟩)
    hclock ⟨⟨Model.boot, Rep.boot⟩, safe_boot⟩ hr
  exact hrun.2

end Runs

/-- Whatever the PC, the console and the clock do: no Switch means neutral controls,
held controls are those of a recent `state` command nothing has ended, and every
value stays in range. -/
theorem controls_fail_safe (p : Platform) (parse : Bytes → Option CJson) (es : List Call)
    (hclock : ∀ e ∈ es, ∀ now ∈ e.readings, 0 < now) {c : Core} {log : List Effect}
    (hr : (device p parse).run es Core.boot = some (c, log)) :
    (c.linked = false → c.ctrl = controllerStateInit ∧ c.lastState = 0) ∧
    (∀ before lines now, es = before ++ [.poll lines now] → c.ctrl ≠ controllerStateInit →
      c.linked = true ∧ ∃ pre time post, log = pre ++ .applied c.ctrl time :: post ∧
        now - time ≤ 500000 ∧ ∀ e ∈ post, e.Quiet) ∧
    c.ctrl.Bounded := by
  have hsafe := safe_run hclock hr
  refine ⟨fun hl => ⟨hsafe.disarmed (hsafe.unlinked hl), hsafe.unlinked hl⟩, ?_, hsafe.bounded⟩
  intro before lines now hes hheld
  have harmed : c.lastState ≠ 0 := fun hz => hheld (hsafe.disarmed hz)
  have hlinked : c.linked = true := by
    by_contra hc
    exact harmed (hsafe.unlinked (by simpa using hc))
  obtain ⟨pre, post, hlog, hpost⟩ := hsafe.armed harmed
  refine ⟨hlinked, pre, c.lastState, post, hlog, ?_, hpost⟩
  rw [hes] at hr
  obtain ⟨c₁, past, last, -, hlast, -⟩ := Transition.System.run_append_some.mp hr
  have hpoll := Transition.System.run_singleton_some.mp hlast
  have hstate : pcControlPoll parse lines now c₁ = (c, last) := Option.some.inj hpoll
  have hage := poll_age parse lines now c₁
  rw [hstate] at hage
  exact hage harmed

/-! ## A held button -/

/-- The line of a `state` command that holds A with the left stick down. -/
def holdLine : Bytes :=
  ascii "\x7b\"cmd\":\"state\",\"r\":8,\"s\":0,\"l\":0,\"lx\":2048,\"ly\":0," ++
    ascii "\"rx\":2048,\"ry\":2048,\"id\":1\x7d" ++ [0]

theorem controls_fail_safe_held :
    ∃ c log, (device blankPlatform parseFlat).run [.connection true, .poll [(holdLine, 5)] 10]
        Core.boot = some (c, log) ∧
      c.ctrl.rightButtons = 8 ∧ c.linked = true := by
  have hrun : (((device blankPlatform parseFlat).run
      [.connection true, .poll [(holdLine, 5)] 10] Core.boot).map
        fun r => r.1.ctrl.rightButtons) = some 8 := by decide +kernel
  obtain ⟨⟨c, log⟩, hr, hb⟩ := Option.map_eq_some_iff.mp hrun
  have hheld : c.ctrl ≠ controllerStateInit := by
    intro hc
    rw [hc] at hb
    cases hb
  have hsafe := controls_fail_safe _ _ _ (by decide) hr
  exact ⟨c, log, hr, hb, (hsafe.2.1 [.connection true] _ 10 rfl hheld).1⟩

end SwitchController.Device
