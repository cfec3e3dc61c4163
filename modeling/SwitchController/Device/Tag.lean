import SwitchController.Device.Watchdog
import SwitchController.Nfc.Currency

/-! # The tag and what is said about it

The PC side stores the presence and the checksum of the tag a second time. Both
copies follow the same log: the tag is that of the newest load with no removal
after it, and nothing the console does is in between.
-/

namespace SwitchController.Device

open Memory Nfc

theorem crc32_eq_standard (bytes : Bytes) : crc32 bytes = Crc32.standard bytes :=
  congrArg (· ^^^ 0xffffffff) (Crc32.foldl_shift bytes 0xffffffff)

/-! ## Held tag -/

/-- The tag after a call into the MCU. -/
def tagAfter (tag : Option Bytes) : Nfc.Op → Option Bytes
  | .load data => if data.length = tagSize then some data else tag
  | .unload => none
  | _ => tag

def Effect.tagAfter (tag : Option Bytes) : Effect → Option Bytes
  | .nfc op _ => Device.tagAfter tag op
  | _ => tag

/-- The bytes of the newest accepted load with no removal after it. -/
def heldTag (log : List Effect) : Option Bytes := log.foldl Effect.tagAfter none

/-- A call that leaves the tag where it is. -/
def keepsTag : Nfc.Op → Bool
  | .load _ | .unload => false
  | _ => true

def Effect.keepsTag : Effect → Bool
  | .nfc op _ => Device.keepsTag op
  | _ => true

theorem foldl_keepsTag {log : List Effect} (h : ∀ e ∈ log, e.keepsTag = true)
    (tag : Option Bytes) : log.foldl Effect.tagAfter tag = tag := by
  induction log generalizing tag with
  | nil => rfl
  | cons e log ih =>
      have he : e.tagAfter tag = tag := by
        have hk := h e (by simp)
        cases e with
        | nfc op before => cases op <;> first | rfl | cases hk
        | reply | answer | applied | released => rfl
      rw [List.foldl_cons, he]
      exact ih (fun e' he' => h e' (by simp [he'])) tag

theorem poll_tag (a : Model) : a.poll.tag = a.tag := by
  by_cases hroom : a.pending.length < queueSize
  · by_cases hbare : a.tag = none ∨ a.polling = 0
    · rw [Model.poll_bare hroom hbare]
    · obtain ⟨tag, ht⟩ := Option.ne_none_iff_exists'.mp (not_or.mp hbare).1
      rw [Model.poll_found hroom ht (not_or.mp hbare).2]
  · rw [Model.poll_full hroom]

theorem model_tag (op : Nfc.Op) (a : Model) : (Model.step op a).1.tag = tagAfter a.tag op := by
  cases op with
  | reset => rfl
  | unload =>
      simp only [Model.step, Model.unload, tagAfter]
      split_ifs <;> rfl
  | load data =>
      simp only [Model.step, Model.load, tagAfter]
      by_cases hlen : data.length = tagSize
      · rw [if_neg (not_not.mpr hlen), if_pos hlen]
        split_ifs <;> rfl
      · rw [if_pos hlen, if_neg hlen]
  | power value =>
      simp only [Model.step, Model.setPower, tagAfter]
      split_ifs <;> rfl
  | config args =>
      simp only [Model.step, Model.config, tagAfter]
      split
      · rfl
      · split_ifs <;> rfl
  | command packet =>
      simp only [Model.step, tagAfter]
      cases a.request packet with
      | reject | startPoll | stop => rfl
      | status =>
          simp only [Model.perform, Model.status, Model.enqueue]
          split_ifs <;> rfl
      | poll => exact poll_tag a
      | read =>
          simp only [Model.perform]
          split
          · rename_i ht
            exact ht ▸ rfl
          · rfl
  | peek => rfl
  | commit => rfl

theorem trace_tag {m m' : Mcu} {log : List Effect} (h : McuTrace m log m') {a : Model}
    (ha : Rep m a) : m'.presentTag = log.foldl Effect.tagAfter m.presentTag := by
  induction h generalizing a with
  | nil => rfl
  | @skip m m' e log he _ ih =>
      have hkeep : Effect.tagAfter m.presentTag e = m.presentTag := by
        cases e with
        | nfc op before => exact absurd rfl (he op before)
        | reply | answer | applied | released => rfl
      rw [List.foldl_cons, hkeep]
      exact ih ha
  | @call m m₁ m' op r log hs _ ih =>
      obtain ⟨m₂, hs', ha'⟩ := step_refines ha op
      cases hs.symm.trans hs'
      rw [List.foldl_cons, ih ha']
      congr 1
      change _ = tagAfter m.presentTag op
      rw [Mcu.presentTag, ← ha'.tag, model_tag, ha.tag]
      rfl

/-! ## The second copy -/

structure Truth (c : Core) (log : List Effect) : Prop where
  rep : ∃ a, Rep c.nfc a
  held : c.nfc.presentTag = heldTag log
  loaded : c.tagLoaded = (heldTag log).isSome
  crc : c.tagCrc = match heldTag log with
    | some tag => crc32 tag
    | none => 0

theorem heldTag_append (past log : List Effect) :
    heldTag (past ++ log) = log.foldl Effect.tagAfter (heldTag past) :=
  List.foldl_append

namespace Truth

variable {c c' : Core} {past log : List Effect}

theorem boot : Truth Core.boot [] where
  rep := ⟨Model.boot, Rep.boot⟩
  held := rfl
  loaded := rfl
  crc := rfl

/-- Steps that keep the tag and leave the PC side alone. -/
theorem frame (h : Truth c past) (ht : McuTrace c.nfc log c'.nfc)
    (hkeep : ∀ e ∈ log, e.keepsTag = true) (hloaded : c'.tagLoaded = c.tagLoaded)
    (hcrc : c'.tagCrc = c.tagCrc) : Truth c' (past ++ log) := by
  obtain ⟨a, ha⟩ := h.rep
  have hheld : heldTag (past ++ log) = heldTag past := by
    rw [heldTag_append, foldl_keepsTag hkeep]
  refine ⟨ht.rep ha, ?_, ?_, ?_⟩
  · rw [trace_tag ht ha, foldl_keepsTag hkeep, hheld]
    exact h.held
  · rw [hheld, hloaded]
    exact h.loaded
  · rw [hheld, hcrc]
    exact h.crc

theorem commanded {now : Int} (h : Truth c past) (hc : Commanded now c c' log) :
    Truth c' (past ++ log) := by
  have ht := commanded_trace hc
  obtain ⟨a, ha⟩ := h.rep
  have htag := trace_tag ht ha
  cases hc with
  | answered a => exact h.frame ht (by simp [Effect.keepsTag]) rfl rfl
  | released a => exact h.frame ht (by simp [Effect.keepsTag]) rfl rfl
  | applied a hl hb => exact h.frame ht (by simp [Effect.keepsTag]) rfl rfl
  | loaded a hlen hv =>
      have hheld : ∀ tag, List.foldl Effect.tagAfter tag
          [.nfc (.load _) c.nfc, .answer a] = some _ := fun tag => if_pos hlen
      rw [hheld] at htag
      refine ⟨ht.rep ha, ?_, ?_, ?_⟩
      all_goals rw [heldTag_append, hheld]
      · exact htag
      · rfl
  | unloaded a =>
      refine ⟨ht.rep ha, ?_, ?_, ?_⟩
      all_goals rw [heldTag_append]
      · exact htag
      · rfl
      · rfl

theorem commands (parse : Bytes → Option CJson) (lines : List (Bytes × Int)) (h : Truth c past) :
    Truth (Device.commands parse lines c).1 (past ++ (Device.commands parse lines c).2) := by
  induction lines generalizing c past with
  | nil => simpa [Device.commands] using h
  | cons line lines ih =>
      have h₁ := h.commanded (command_spec parse line.1 line.2 c)
      simpa [Device.commands] using ih h₁

theorem watchdog (now : Int) (h : Truth c past) :
    Truth (Device.watchdog now c).1 (past ++ (Device.watchdog now c).2) := by
  have ht := watchdog_trace now c
  unfold Device.watchdog at ht ⊢
  split_ifs at ht ⊢
  · exact h.frame ht (by simp [release, Effect.keepsTag]) rfl rfl
  · simpa using h

end Truth

/-! ## Runs -/

section Runs

variable {p : Platform} {parse : Bytes → Option CJson}

theorem handled_keepsTag {data : Bytes} {c c' : Core} {log : List Effect}
    (h : Handled data c c' log) : ∀ e ∈ log, e.keepsTag = true := by
  have hop (op : Nfc.Op) (before : Mcu) (hc : consoleOp op = true) :
      (Effect.nfc op before).keepsTag = true := by
    cases op <;> first | rfl | cases hc
  cases h with
  | ignored => simp
  | command hid hs => simp [Effect.keepsTag, keepsTag]
  | declined hid hd hlog =>
      rcases hlog with rfl | ⟨op, r, hc, -, rfl⟩
      · simp
      · simpa using hop op _ hc
  | replied hid hd hr =>
      obtain ⟨c₁, calls, payload, hp, -, rfl⟩ := hr.reply
      cases hp with
      | plain => simp [Core.replied, Effect.keepsTag]
      | mode => simp [Core.replied, Effect.keepsTag]
      | mcu hc hs => simpa [Core.replied, Effect.keepsTag] using hop _ c.nfc hc

/-- A call that is not a line from the PC. -/
def Call.console : Call → Bool
  | .command _ _ | .poll _ _ => false
  | _ => true

/-- Console reports, sends and connections keep the tag and both copies of its state. -/
theorem console_step {e : Call} {c c' : Core} {log : List Effect} (he : e.console = true)
    (hrep : ∃ a, Rep c.nfc a) (hs : step p parse e c = some (c', log)) :
    (∀ e ∈ log, e.keepsTag = true) ∧ c'.tagLoaded = c.tagLoaded ∧ c'.tagCrc = c.tagCrc := by
  cases e with
  | output data =>
      obtain ⟨a, ha⟩ := hrep
      obtain ⟨c₁, log₁, hr, hh⟩ := handleOutput_handled p data ha.tag_length
      cases hs.symm.trans hr
      exact ⟨handled_keepsTag hh, (handled_samePc hh).1.tagLoaded, (handled_samePc hh).1.tagCrc⟩
  | command | poll => cases he
  | nextTimer | grip => cases hs; exact ⟨by simp, rfl, rfl⟩
  | protoInit | connection | peek | commit =>
      cases hs
      exact ⟨by simp [Effect.keepsTag, keepsTag], rfl, rfl⟩

theorem truth_step {e : Call} {c c' : Core} {past log : List Effect} (h : Truth c past)
    (hs : step p parse e c = some (c', log)) : Truth c' (past ++ log) := by
  by_cases he : e.console = true
  · obtain ⟨hkeep, hloaded, hcrc⟩ := console_step he h.rep hs
    obtain ⟨a, ha⟩ := h.rep
    exact h.frame (step_trace ha hs) hkeep hloaded hcrc
  · cases e with
    | command line now =>
        have hc := command_spec parse line now c
        rw [show command parse line now c = (c', log) from Option.some.inj hs] at hc
        exact h.commanded hc
    | poll lines now =>
        cases hs
        have hafter := (h.commands parse (lines.take 4)).watchdog now
        rw [List.append_assoc] at hafter
        exact hafter
    | output | nextTimer | protoInit | grip | connection | peek | commit => exact absurd rfl he

theorem reaches_truth {c : Core} {log : List Effect} (h : (device p parse).Reaches c log) :
    Truth c log :=
  h.history Truth Truth.boot fun _ _ _ _ _ ht hs => truth_step ht hs

end Runs

/-- What the device reports about the tag is true, and only the PC changes it. -/
theorem status_truthful (p : Platform) (parse : Bytes → Option CJson) :
    (∀ c log, (device p parse).Reaches c log →
      c.tagLoaded = c.nfc.present ∧
      (c.tagLoaded = true → c.nfc.tag.length = 540 ∧ c.tagCrc = Crc32.standard c.nfc.tag ∧
        heldTag log = some c.nfc.tag) ∧
      (c.tagLoaded = false → c.tagCrc = 0 ∧ c.nfc.tag = zeros 540 ∧ heldTag log = none)) ∧
    (∀ c, (device p parse).Reachable c → ∀ e c' log, e.console = true →
      step p parse e c = some (c', log) →
      c'.nfc.tag = c.nfc.tag ∧ c'.nfc.present = c.nfc.present ∧
        c'.tagLoaded = c.tagLoaded ∧ c'.tagCrc = c.tagCrc) := by
  have hstate : ∀ c log, Truth c log →
      (c.nfc.present = true → heldTag log = some c.nfc.tag) ∧
      (c.nfc.present = false → heldTag log = none ∧ c.nfc.tag = zeros tagSize) := by
    intro c log h
    obtain ⟨a, ha⟩ := h.rep
    rw [← h.held]
    exact ⟨fun hp => by simp [Mcu.presentTag, hp], fun hp => ⟨by simp [Mcu.presentTag, hp],
      ha.absent hp⟩⟩
  constructor
  · intro c log hr
    have h := reaches_truth hr
    have hcrc := h.crc
    obtain ⟨hthere, hgone⟩ := hstate c log h
    obtain ⟨a, ha⟩ := h.rep
    cases hp : c.nfc.present with
    | true =>
        have hl := h.loaded
        rw [hthere hp] at hl hcrc
        refine ⟨hl, fun _ => ⟨ha.tag_length, ?_, hthere hp⟩, fun hf => ?_⟩
        · rw [← crc32_eq_standard]
          exact hcrc
        · cases hl.symm.trans hf
    | false =>
        have hl := h.loaded
        rw [(hgone hp).1] at hl hcrc
        refine ⟨hl, fun ht => ?_, fun _ => ⟨hcrc, (hgone hp).2, (hgone hp).1⟩⟩
        cases hl.symm.trans ht
  · intro c hr e c' log he hs
    obtain ⟨past, hpast⟩ := hr
    have h := reaches_truth hpast
    obtain ⟨hkeep, hloaded, hcrc⟩ := console_step he h.rep hs
    have h' := truth_step h hs
    have hsame : heldTag (past ++ log) = heldTag past := by
      rw [heldTag_append, foldl_keepsTag hkeep]
    obtain ⟨hthere, hgone⟩ := hstate c past h
    obtain ⟨hthere', hgone'⟩ := hstate c' _ h'
    rw [hsame] at hthere' hgone'
    cases hp : c.nfc.present with
    | true =>
        have hp' : c'.nfc.present = true := by
          by_contra hf
          have hnone := (hgone' (by simpa using hf)).1
          rw [hthere hp] at hnone
          cases hnone
        exact ⟨Option.some.inj ((hthere' hp').symm.trans (hthere hp)), hp', hloaded, hcrc⟩
    | false =>
        have hp' : c'.nfc.present = false := by
          by_contra ht
          have hsome := hthere' (by simpa using ht)
          rw [(hgone hp).1] at hsome
          cases hsome
        exact ⟨(hgone' hp').2.trans (hgone hp).2.symm, hp', hloaded, hcrc⟩

/-! ## A loaded tag -/

/-- A structurally valid tag that is zero past its check bytes. -/
def plainTag : Bytes := [0x04, 0, 0, 0x8c] ++ zeros 536

/-- The line of the `load` command for it. -/
def loadLine : Bytes :=
  ascii "\x7b\"cmd\":\"load\",\"hex\":\"0400008c" ++ List.replicate 1072 0x30 ++
    ascii "\",\"crc\":1878337666,\"id\":1\x7d" ++ [0]

theorem status_truthful_loaded :
    ∃ c log, (device blankPlatform parseFlat).Reaches c log ∧
      c.nfc.present = true ∧ c.tagCrc = Crc32.standard c.nfc.tag := by
  have hrun : (((device blankPlatform parseFlat).run [.poll [(loadLine, 1)] 1] Core.boot).map
      fun r => r.1.tagLoaded) = some true := by
    decide +kernel
  obtain ⟨⟨c, log⟩, hr, hl⟩ := Option.map_eq_some_iff.mp hrun
  have htrue := (status_truthful _ _).1 c log ⟨_, hr⟩
  exact ⟨c, log, ⟨_, hr⟩, htrue.1.symm.trans hl, (htrue.2.1 hl).2.1⟩

end SwitchController.Device
