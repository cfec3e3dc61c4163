import SwitchController.Device.Control
import SwitchController.Device.Dispatch

/-! # The device as a system

Every entry point of the console side, the PC side and the sending side, in any
order. Console reports, sends and connections never touch the tag, and the log
records every call into the MCU with the state it was made in.
-/

namespace SwitchController.Device

open Memory Nfc

inductive Call
  /-- An output report of the console. -/
  | output (data : Bytes)
  | nextTimer
  | protoInit
  | grip (pressed : Bool)
  | connection (connected : Bool)
  /-- One pass of the loop in `pc_control_poll`. -/
  | command (line : Bytes) (now : Int)
  | poll (lines : List (Bytes × Int)) (now : Int)
  | peek
  | commit

def step (p : Platform) (parse : Bytes → Option CJson) :
    Call → Core → Option (Core × List Effect)
  | .output data, c => switchProtoHandleOutput p data c
  | .nextTimer, c => some ((switchProtoNextTimer c).2, [])
  | .protoInit, c => some (switchProtoInit c)
  | .grip pressed, c => some ({ c with virtualGrip := pressed }, [])
  | .connection connected, c => some (pcControlConnection connected c)
  | .command line now, c => some (command parse line now c)
  | .poll lines now, c => some (pcControlPoll parse lines now c)
  | .peek, c => some (c, [.nfc .peek c.nfc])
  | .commit, c => some ({ c with nfc := nfcCommit c.nfc }, [.nfc .commit c.nfc])

def device (p : Platform) (parse : Bytes → Option CJson) : Transition.System Core Call Effect where
  init := Core.boot
  step := step p parse

/-! ## The log and the MCU -/

/-- The logged calls lead from one MCU state to the other. -/
inductive McuTrace : Mcu → List Effect → Mcu → Prop
  | nil (m : Mcu) : McuTrace m [] m
  | skip {m m' : Mcu} {e : Effect} {log : List Effect} (h : ∀ op before, e ≠ .nfc op before)
      (ht : McuTrace m log m') : McuTrace m (e :: log) m'
  | call {m m₁ m' : Mcu} {op : Nfc.Op} {r : Nfc.Result} {log : List Effect}
      (hs : Nfc.step op m = some (m₁, [r])) (ht : McuTrace m₁ log m') :
      McuTrace m (.nfc op m :: log) m'

namespace McuTrace

variable {m m₁ m' : Mcu} {log log' : List Effect}

theorem append (h : McuTrace m log m₁) (h' : McuTrace m₁ log' m') :
    McuTrace m (log ++ log') m' := by
  induction h with
  | nil => exact h'
  | skip he _ ih => exact .skip he (ih h')
  | call hs _ ih => exact .call hs (ih h')

theorem single {op : Nfc.Op} {r : Nfc.Result} (hs : Nfc.step op m = some (m', [r])) :
    McuTrace m [.nfc op m] m' := .call hs (.nil m')

/-- A log without calls leaves the MCU alone. -/
theorem quiet (m : Mcu) (h : ∀ e ∈ log, ∀ op before, e ≠ .nfc op before) : McuTrace m log m := by
  induction log with
  | nil => exact .nil m
  | cons e log ih =>
      exact .skip (h e (by simp)) (ih fun e' he => h e' (by simp [he]))

theorem rep (h : McuTrace m log m') {a : Model} (ha : Rep m a) : ∃ a', Rep m' a' := by
  induction h generalizing a with
  | nil => exact ⟨a, ha⟩
  | skip _ _ ih => exact ih ha
  | call hs _ ih =>
      obtain ⟨m₂, hs', ha'⟩ := step_refines ha _
      cases hs.symm.trans hs'
      exact ih ha'

end McuTrace

theorem commanded_trace {now : Int} {c c' : Core} {log : List Effect}
    (h : Commanded now c c' log) : McuTrace c.nfc log c'.nfc := by
  cases h with
  | answered a => exact .quiet _ (by simp)
  | released a => exact .quiet _ (by simp)
  | applied a hl hb => exact .quiet _ (by simp)
  | loaded a hlen hv => exact .call rfl (.quiet _ (by simp))
  | unloaded a => exact .call rfl (.quiet _ (by simp))

theorem commands_trace (parse : Bytes → Option CJson) (lines : List (Bytes × Int)) (c : Core) :
    McuTrace c.nfc (commands parse lines c).2 (commands parse lines c).1.nfc := by
  induction lines generalizing c with
  | nil => exact .nil _
  | cons line lines ih =>
      exact (commanded_trace (command_spec parse line.1 line.2 c)).append (ih _)

theorem watchdog_trace (now : Int) (c : Core) :
    McuTrace c.nfc (watchdog now c).2 (watchdog now c).1.nfc := by
  unfold watchdog
  split_ifs
  · exact .quiet _ (by simp [release])
  · exact .nil _

theorem prepared_trace {c c₁ : Core} {subcmdId : UInt8} {calls : List Effect}
    (h : Prepared c subcmdId c₁ calls) : McuTrace c.nfc calls c₁.nfc := by
  cases h with
  | plain => exact .nil _
  | mode => exact .nil _
  | mcu hop hs => exact .single hs

theorem handled_trace {data : Bytes} {c c' : Core} {log : List Effect}
    (h : Handled data c c' log) : McuTrace c.nfc log c'.nfc := by
  cases h with
  | ignored => exact .nil _
  | command hid hs => exact .single hs
  | declined hid hd hlog =>
      rcases hlog with rfl | ⟨op, r, -, hs, rfl⟩
      · exact .nil _
      · exact .single hs
  | replied hid hd hr =>
      obtain ⟨c₁, calls, payload, hp, -, rfl⟩ := hr.reply
      exact (prepared_trace hp).append (.quiet _ (by simp [Core.replied]))

section Runs

variable {p : Platform} {parse : Bytes → Option CJson}

theorem step_trace {e : Call} {c c' : Core} {log : List Effect} {a : Model} (ha : Rep c.nfc a)
    (hs : step p parse e c = some (c', log)) : McuTrace c.nfc log c'.nfc := by
  cases e with
  | output data =>
      obtain ⟨c₁, log₁, hr, hh⟩ := handleOutput_handled p data ha.tag_length
      cases hs.symm.trans hr
      exact handled_trace hh
  | nextTimer => cases hs; exact .nil _
  | protoInit => cases hs; exact .single rfl
  | grip pressed => cases hs; exact .nil _
  | connection connected => cases hs; exact .quiet _ (by simp)
  | command line now =>
      have hc := command_spec parse line now c
      rw [show command parse line now c = (c', log) from Option.some.inj hs] at hc
      exact commanded_trace hc
  | poll lines now =>
      cases hs
      exact (commands_trace parse _ c).append (watchdog_trace now _)
  | peek => cases hs; exact .single rfl
  | commit => cases hs; exact .single rfl

/-- No call faults, whatever came before. -/
theorem step_total (e : Call) {c : Core} (h : ∃ a, Rep c.nfc a) :
    ∃ c' log, step p parse e c = some (c', log) := by
  obtain ⟨a, ha⟩ := h
  cases e with
  | output data =>
      obtain ⟨c', log, hr, -⟩ := handleOutput_handled p data ha.tag_length
      exact ⟨c', log, hr⟩
  | nextTimer | protoInit | grip | connection | command | poll | peek | commit =>
      exact ⟨_, _, rfl⟩

theorem run_trace {calls : List Call} {c c' : Core} {log : List Effect} {a : Model}
    (ha : Rep c.nfc a) (hr : (device p parse).run calls c = some (c', log)) :
    McuTrace c.nfc log c'.nfc := by
  have hrun := Transition.System.run_history (M := device p parse)
    (fun c' log => McuTrace c.nfc log c'.nfc) (fun e c₁ c₂ o past ht hs => by
      obtain ⟨a₁, ha₁⟩ := ht.rep ha
      exact ht.append (step_trace ha₁ hs)) (McuTrace.nil c.nfc) hr
  simpa using hrun

theorem reachable_rep {c : Core} (h : (device p parse).Reachable c) : ∃ a, Rep c.nfc a := by
  refine h.invariant (fun c => ∃ a, Rep c.nfc a) ⟨Model.boot, Rep.boot⟩ ?_
  intro e c c' log ⟨a, ha⟩ hs
  exact (step_trace ha hs).rep ha

end Runs

end SwitchController.Device
