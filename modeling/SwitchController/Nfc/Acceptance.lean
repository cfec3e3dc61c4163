import SwitchController.Nfc.Refinement

/-! # Which MCU requests are accepted

A console packet is accepted exactly when its length, its bytes and the mode fit,
and a refused call of any entry point leaves the tag, the mode and the queue alone.
-/

namespace SwitchController.Nfc

open Memory

/-- Bytes 18..24 are all there and all zero. -/
def SetupClear (packet : Bytes) : Prop := ∀ i, 18 ≤ i → i ≤ 24 → packet[i]? = some 0

def SupportedSub (m : Mcu) (packet : Bytes) : Prop :=
  (packet[11]? = some 1 ∨ packet[11]? = some 2 ∨ packet[11]? = some 4) ∨
    (packet[11]? = some 6 ∧ 25 ≤ packet.length ∧ m.present = true ∧ SetupClear packet)

def Supported (m : Mcu) (packet : Bytes) : Prop :=
  11 ≤ packet.length ∧ packet[0]? = some 0x11 ∧
    (packet[10]? = some 1 ∨
      (packet[10]? = some 2 ∧ 12 ≤ packet.length ∧ m.powerState = 4 ∧ SupportedSub m packet))

theorem setupClear_iff (packet : Bytes) :
    SetupClear packet ↔ (packet.drop 18).take 7 = zeros 7 := by
  constructor
  · intro h
    refine List.ext_getElem? fun i => ?_
    by_cases hi : i < 7
    · have hbyte := h (18 + i) (by omega) (by omega)
      rw [List.getElem?_take_of_lt hi, List.getElem?_drop, hbyte, zeros, List.getElem?_replicate,
        if_pos hi]
    · rw [List.getElem?_eq_none, List.getElem?_eq_none]
      · simp only [zeros_length]
        omega
      · simp only [List.length_take, List.length_drop]
        omega
  · intro h i hlow hhigh
    have hbyte := congrArg (fun l : Bytes => l[i - 18]?) h
    simp only [List.getElem?_take_of_lt (show i - 18 < 7 by omega), List.getElem?_drop] at hbyte
    rw [show 18 + (i - 18) = i by omega] at hbyte
    rw [hbyte, zeros, List.getElem?_replicate, if_pos (by omega)]

/-- The classification of a packet, read as the list of what is supported. -/
theorem accepted_iff (m : Mcu) (packet : Bytes) :
    (m.request packet).accepted = true ↔ Supported m packet := by
  unfold Mcu.request classify Supported
  by_cases hhead : packet.length < 11 ∨ packet[0]? ≠ some 0x11
  · rw [if_pos hhead]
    simp only [Request.accepted, Bool.false_eq_true, false_iff]
    rintro ⟨hlen, hid, -⟩
    rcases hhead with h | h
    · omega
    · exact h hid
  obtain ⟨hlen, hid⟩ := not_or.mp hhead
  rw [if_neg hhead]
  by_cases hstatus : packet[10]? = some 1
  · rw [if_pos hstatus]
    simp only [Request.accepted, true_iff]
    exact ⟨by omega, not_not.mp hid, .inl hstatus⟩
  rw [if_neg hstatus]
  by_cases hmode : packet[10]? ≠ some 2 ∨ packet.length < 12 ∨ m.powerState ≠ 4
  · rw [if_pos hmode]
    simp only [Request.accepted, Bool.false_eq_true, false_iff]
    rintro ⟨-, -, h | ⟨hcmd, hlong, hpower, -⟩⟩
    · exact hstatus h
    · rcases hmode with h | h | h
      · exact h hcmd
      · omega
      · exact h hpower
  rw [if_neg hmode]
  obtain ⟨hcmd, hrest⟩ := not_or.mp hmode
  obtain ⟨hlong, hpower⟩ := not_or.mp hrest
  have hsub : Supported m packet ↔ SupportedSub m packet := by
    constructor
    · rintro ⟨-, -, h | ⟨-, -, -, h⟩⟩
      · exact absurd h hstatus
      · exact h
    · intro h
      exact ⟨by omega, not_not.mp hid,
        .inr ⟨not_not.mp hcmd, by omega, not_not.mp hpower, h⟩⟩
  refine Iff.trans ?_ hsub.symm
  unfold SupportedSub
  by_cases h1 : packet[11]? = some 1
  · simp [h1, Request.accepted]
  by_cases h2 : packet[11]? = some 2
  · simp [h2, Request.accepted]
  by_cases h4 : packet[11]? = some 4
  · simp [h4, Request.accepted]
  simp only [h1, h2, h4, if_false, or_self, false_or]
  by_cases hread : packet[11]? = some 6 ∧ 25 ≤ packet.length ∧ m.present = true ∧
      (packet.drop 18).take 7 = zeros 7
  · rw [if_pos hread]
    simp only [Request.accepted, true_iff]
    exact ⟨hread.1, hread.2.1, hread.2.2.1, (setupClear_iff packet).mpr hread.2.2.2⟩
  · rw [if_neg hread]
    simp only [Request.accepted, Bool.false_eq_true, false_iff]
    rintro ⟨h6, h25, hpresent, hclear⟩
    exact hread ⟨h6, h25, hpresent, (setupClear_iff packet).mp hclear⟩

/-- A rejected packet performs nothing. -/
theorem perform_rejected {r : Request} (h : r.accepted = false) (m : Mcu) : r.perform m = m := by
  cases r with
  | reject => rfl
  | status | startPoll | stop | poll | read => cases h

theorem nfcPower_rejected {value : UInt8} {m : Mcu} (h : (nfcPower value m).1 = false) :
    (nfcPower value m).2 = m := by
  rw [nfcPower_eq] at h ⊢
  by_cases hv : value > 1
  · rw [if_pos hv]
  · rw [if_neg hv] at h
    cases h

theorem nfcConfig_rejected {args : Bytes} {m m' : Mcu} (h : nfcConfig args m = some (none, m')) :
    m' = m := by
  rw [nfcConfig_eq] at h
  cases hc : configMode args with
  | none =>
      simp only [hc, Option.some.injEq, Prod.mk.injEq] at h
      exact h.2.symm
  | some mode =>
      simp only [hc, Option.some.injEq, Prod.mk.injEq] at h
      cases h.1

theorem nfcLoad_rejected {data : Bytes} {m : Mcu} (h : (nfcLoad data m).1 = false) :
    (nfcLoad data m).2 = m := by
  by_cases hlen : data.length = tagSize
  · rw [nfcLoad_body hlen] at h
    by_cases hpoll : m.powerState = 4 ∧ m.pollState ≠ 0
    · rw [if_pos hpoll] at h
      cases h
    · rw [if_neg hpoll] at h
      by_cases hpower : m.powerState ≠ 0
      · rw [if_pos hpower] at h
        cases h
      · rw [if_neg hpower] at h
        cases h
  · rw [nfcLoad_short hlen]

/-- Requests are accepted exactly when supported, no byte outside the packet is read,
and what is refused leaves no trace but the diagnostic record of a packet. -/
theorem requests_exact {m : Mcu} (h : machine.Reachable m) :
    (∀ packet, ∃ ok m', nfcCommand packet m = some (ok, m') ∧
      (ok = true ↔ Supported m packet) ∧
      (ok = false → m' = { m with
        received := m.received + 1, rejected := m.rejected + 1,
        lastCmd := packet.getD 10 0, lastSub := packet.getD 11 0 })) ∧
    (∀ value, (nfcPower value m).1 = false → (nfcPower value m).2 = m) ∧
    (∀ args, ∃ reply m', nfcConfig args m = some (reply, m') ∧ (reply = none → m' = m)) ∧
    (∀ data, (nfcLoad data m).1 = false → (nfcLoad data m).2 = m) := by
  obtain ⟨a, ha⟩ := reachable_rep h
  refine ⟨fun packet => ?_, fun _ => nfcPower_rejected, fun args => ?_, fun _ => nfcLoad_rejected⟩
  · refine ⟨_, _, nfcCommand_eq ha.tag_length packet, accepted_iff m packet, fun hno => ?_⟩
    rw [perform_rejected hno, hno]
    rfl
  · obtain ⟨reply, m', hrun⟩ : ∃ reply m', nfcConfig args m = some (reply, m') :=
      ⟨_, _, nfcConfig_eq args m⟩
    refine ⟨reply, m', hrun, ?_⟩
    rintro rfl
    exact nfcConfig_rejected hrun

def unknownCommand : Bytes := [0x11] ++ zeros 9 ++ [0x03]

/-- A rejected packet is recorded, not only counted. -/
theorem unknownCommand_recorded :
    ¬ ∀ m, machine.Reachable m → ∀ packet m', nfcCommand packet m = some (false, m') →
      m' = { m with received := m.received + 1, rejected := m.rejected + 1 } := by
  intro hall
  obtain ⟨m', hrun, hlast⟩ : ∃ m', nfcCommand unknownCommand Mcu.boot = some (false, m') ∧
      m'.lastCmd = 3 := ⟨_, rfl, rfl⟩
  have heq := hall Mcu.boot (.start machine) unknownCommand m' hrun
  rw [heq] at hlast
  cases hlast

theorem requests_exact_boot :
    (∃ m', nfcCommand unknownCommand Mcu.boot = some (false, m')) ∧
      ¬ Supported Mcu.boot unknownCommand ∧ (nfcLoad [] Mcu.boot).2 = Mcu.boot := by
  obtain ⟨hcommand, -, -, hload⟩ := requests_exact (.start machine)
  obtain ⟨ok, m', hrun, hok, -⟩ := hcommand unknownCommand
  have hrejected : nfcCommand unknownCommand Mcu.boot = some (false, _) := rfl
  cases hrejected.symm.trans hrun
  exact ⟨⟨_, rfl⟩, fun hs => Bool.noConfusion (hok.mpr hs), hload [] rfl⟩

end SwitchController.Nfc
