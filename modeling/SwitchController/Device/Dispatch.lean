import Mathlib.Tactic.Tauto
import SwitchController.Device.Console

/-! # What an output report does

Every report is either ignored, passed to the MCU, declined, or answered by one
reply, and no byte past its end is read. `Handled` lists these cases with the
state each of them leaves; later modules use it instead of the dispatcher.
-/

namespace SwitchController.Device

open Memory Nfc

/-! ## Replies -/

/-- The report a reply consists of, in full. -/
def replyReport (c : Core) (subcmdId : UInt8) (payload : Bytes) : Bytes :=
  headerBytes 0x21 c.timer c.ctrl c.virtualGrip ++ [getSubcmdAck subcmdId, subcmdId] ++
    payload ++ zeros (34 - payload.length)

/-- The timer moves on and one report goes out. -/
def Core.replied (c : Core) (subcmdId : UInt8) (payload : Bytes) : Core × List Effect :=
  ({ c with timer := c.timer + 1 }, [.reply subcmdId payload (replyReport c subcmdId payload)])

theorem replyReport_length (c : Core) (subcmdId : UInt8) {payload : Bytes}
    (hfit : payload.length ≤ 34) :
    (replyReport c subcmdId payload).length = inputReportSize := by
  simp only [replyReport, List.length_append, headerBytes_length, List.length_cons,
    List.length_nil, zeros_length, inputReportSize]
  omega

theorem sendSubcmdReply_eq (subcmdId : UInt8) {payload : Bytes} {payloadLen : Nat}
    (hfit : payloadLen ≤ 34) (hlen : payloadLen ≤ payload.length) (c : Core) :
    sendSubcmdReply subcmdId payload payloadLen c =
      c.replied subcmdId (payload.take payloadLen) := by
  unfold sendSubcmdReply Core.replied replyReport
  rw [inputReportBuild0x21_eq _ _ _ _ hfit hlen, List.length_take_of_le hlen]

/-- A complete payload answers the subcommand. -/
def Replies (c : Core) (subcmdId : UInt8) (r : Core × List Effect) : Prop :=
  ∃ payload, payload.length ≤ 34 ∧ r = c.replied subcmdId payload

theorem replies_send (subcmdId : UInt8) {payload : Bytes} {payloadLen : Nat}
    (hfit : payloadLen ≤ 34) (hlen : payloadLen ≤ payload.length) (c : Core) :
    Replies c subcmdId (sendSubcmdReply subcmdId payload payloadLen c) := by
  refine ⟨payload.take payloadLen, ?_, sendSubcmdReply_eq subcmdId hfit hlen c⟩
  rw [List.length_take_of_le hlen]
  exact hfit

theorem firstArg_eq (args : Bytes) (default : UInt8) :
    firstArg args default = some (args.headD default) := by
  cases args with
  | nil => rfl
  | cons a rest => simp [firstArg]

/-! ## Handlers -/

/-- The little-endian address of a flash read. -/
def spiAddr (a0 a1 a2 a3 : UInt8) : UInt32 :=
  a0.toUInt32 ||| (a1.toUInt32 <<< 8) ||| (a2.toUInt32 <<< 16) ||| (a3.toUInt32 <<< 24)

/-- The length of a flash read, cut to what a reply holds. -/
def spiLen (lenByte : UInt8) : UInt8 := if lenByte > spiReadMax then spiReadMax else lenByte

theorem spiLen_le (lenByte : UInt8) : (spiLen lenByte).toNat ≤ 29 := by
  unfold spiLen
  split_ifs with hbig
  · decide
  · exact UInt8.le_iff_toNat_le.mp (UInt8.not_lt.mp hbig)

/-- A flash read answers with the request, the length and the bytes read. -/
theorem spiRead_eq (p : Platform) (a0 a1 a2 a3 lenByte : UInt8) (rest : Bytes) (c : Core)
    {data : Bytes}
    (hdata : data = (p.spiFlashRead (spiAddr a0 a1 a2 a3) (spiLen lenByte)).take
      (spiLen lenByte).toNat) :
    handleSubcmd10SpiRead p (a0 :: a1 :: a2 :: a3 :: lenByte :: rest) c =
      some (c.replied 0x10 ([a0, a1, a2, a3, spiLen lenByte] ++
        (data ++ List.replicate (29 - data.length) 0xff).take (spiLen lenByte).toNat)) := by
  have hmax := spiLen_le lenByte
  have hhead : memcpy (List.replicate (5 + spiReadMax.toNat) 0xff) 0
      [a0, a1, a2, a3, spiLen lenByte] =
      [a0, a1, a2, a3, spiLen lenByte] ++ List.replicate 29 0xff := by
    have hfill : 5 + spiReadMax.toNat = 34 := by decide
    simp [memcpy, hfill]
  have hpayload : memcpy (memcpy (List.replicate (5 + spiReadMax.toNat) 0xff) 0
      [a0, a1, a2, a3, spiLen lenByte]) 5 data =
      [a0, a1, a2, a3, spiLen lenByte] ++
        (data ++ List.replicate (29 - data.length) 0xff) := by
    rw [hhead]
    have hcopy := memcpy_append [a0, a1, a2, a3, spiLen lenByte] (List.replicate 29 0xff) data
    rw [List.drop_replicate, List.append_assoc] at hcopy
    exact hcopy
  have hsend : sendSubcmdReply 0x10 ([a0, a1, a2, a3, spiLen lenByte] ++
      (data ++ List.replicate (29 - data.length) 0xff)) (5 + (spiLen lenByte).toNat) c =
      c.replied 0x10 (([a0, a1, a2, a3, spiLen lenByte] ++
        (data ++ List.replicate (29 - data.length) 0xff)).take (5 + (spiLen lenByte).toNat)) := by
    apply sendSubcmdReply_eq 0x10 (by omega)
    simp only [List.length_append, List.length_replicate, List.length_cons, List.length_nil]
    omega
  have htake (xs : Bytes) : ([a0, a1, a2, a3, spiLen lenByte] ++ xs).take
      (5 + (spiLen lenByte).toNat) =
      [a0, a1, a2, a3, spiLen lenByte] ++ xs.take (spiLen lenByte).toNat := by
    rw [Nat.add_comm]
    rfl
  rw [htake, ← hpayload, hdata] at hsend
  rw [hdata]
  exact congrArg some hsend

/-- Five argument bytes are enough for a flash read, and the reply holds it. -/
theorem spiRead_replies (p : Platform) {args : Bytes} (h : 5 ≤ args.length) (c : Core) :
    ∃ r, handleSubcmd10SpiRead p args c = some r ∧ Replies c 0x10 r := by
  match args, h with
  | a0 :: a1 :: a2 :: a3 :: lenByte :: rest, _ =>
      have hmax := spiLen_le lenByte
      refine ⟨_, spiRead_eq p a0 a1 a2 a3 lenByte rest c rfl, _, ?_, rfl⟩
      simp only [List.length_append, List.length_take, List.length_cons, List.length_nil]
      omega

/-- The state a set-mode request leaves: unknown modes are ignored. -/
def Core.withMode (c : Core) (arg : UInt8) : Core :=
  match arg with
  | 0x30 => { c with streamMode := .x30, streamEnabled := true }
  | 0x31 => { c with streamMode := .x31, streamEnabled := true }
  | 0x3f => { c with streamMode := .x3F, streamEnabled := true }
  | _ => c

theorem setMode_replies (arg : UInt8) (c : Core) :
    Replies (c.withMode arg) 0x03 (handleSubcmd03SetMode arg c) := by
  change Replies _ _ (sendSubcmdReply 0x03 [0x03] 1 (c.withMode arg))
  exact replies_send 0x03 (by decide) (by decide) _

/-- An MCU request the device declines without a reply: the module rejects it, or a
power request names no value. -/
def Declines (subcmdId : UInt8) (args : Bytes) (m : Mcu) : Prop :=
  (subcmdId = 0x21 ∧ (nfcConfig args m).map Prod.fst = some none) ∨
  (subcmdId = 0x22 ∧ (args = [] ∨ ∃ value, args[0]? = some value ∧ (nfcPower value m).1 = false))

theorem declines_config {args : Bytes} {m : Mcu} :
    Declines 0x21 args m ↔ configMode args = none := by
  unfold Declines
  rw [nfcConfig_eq]
  cases configMode args <;> simp

theorem declines_power {args : Bytes} {m : Mcu} :
    Declines 0x22 args m ↔ args = [] ∨ ∃ value, args[0]? = some value ∧ value > 1 := by
  have hmodule (value : UInt8) : (nfcPower value m).1 = false ↔ value > 1 := by
    rw [nfcPower_eq]
    by_cases hbig : value > 1 <;> simp [hbig]
  have hid : ¬ (0x22 : UInt8) = 0x21 := by decide
  simp only [Declines, hmodule, hid, false_and, false_or, true_and]

/-! ## Dispatch -/

/-- Calls the console makes into the MCU. -/
def consoleOp : Nfc.Op → Bool
  | .power _ | .config _ | .command _ => true
  | _ => false

/-- What a handler does before it replies. -/
inductive Prepared (c : Core) : UInt8 → Core → List Effect → Prop
  | plain (subcmdId : UInt8) : Prepared c subcmdId c []
  | mode (mode : StreamMode) (h : mode = .x30 ∨ mode = .x31 ∨ mode = .x3F) :
      Prepared c 0x03 { c with streamMode := mode, streamEnabled := true } []
  | mcu {op : Nfc.Op} {nfc : Mcu} {r : Nfc.Result} {subcmdId : UInt8} (hop : consoleOp op = true)
      (hs : Nfc.step op c.nfc = some (nfc, [r])) :
      Prepared c subcmdId { c with nfc } [.nfc op c.nfc]

theorem prepared_mode (c : Core) (arg : UInt8) : Prepared c 0x03 (c.withMode arg) [] := by
  unfold Core.withMode
  split
  · exact .mode .x30 (by simp)
  · exact .mode .x31 (by simp)
  · exact .mode .x3F (by simp)
  · exact .plain 0x03

/-- A subcommand that is not declined gets its one reply. -/
structure Replied (c : Core) (subcmdId : UInt8) (r : Core × List Effect) : Prop where
  reply : ∃ c₁ calls payload, Prepared c subcmdId c₁ calls ∧ payload.length ≤ 34 ∧
    r = ((c₁.replied subcmdId payload).1, calls ++ (c₁.replied subcmdId payload).2)

theorem Replies.replied {c c₁ : Core} {subcmdId : UInt8} {r : Core × List Effect}
    (h : Replies c₁ subcmdId r) (hp : Prepared c subcmdId c₁ []) : Replied c subcmdId r := by
  obtain ⟨payload, hfit, rfl⟩ := h
  exact ⟨c₁, [], payload, hp, hfit, rfl⟩

theorem config_spec (p : Platform) (args : Bytes) (c : Core) :
    ∃ r, dispatchSubcommand p 0x21 args c = some r ∧
      (Declines 0x21 args c.nfc → r = (c, [.nfc (.config args) c.nfc])) ∧
      (¬ Declines 0x21 args c.nfc → Replied c 0x21 r) := by
  rw [declines_config]
  change ∃ r, handleSubcmd21McuConfig args c = some r ∧ _
  have hrun := nfcConfig_eq args c.nfc
  unfold handleSubcmd21McuConfig
  cases hm : configMode args with
  | none =>
      simp only [hm] at hrun
      simp [hrun]
  | some mode =>
      simp only [hm] at hrun
      have hlen : configReply.length = 34 := by decide
      simp only [hrun, Option.bind_eq_bind, Option.bind_some,
        sendSubcmdReply_eq 0x21 (Nat.le_of_eq hlen) (Nat.le_refl _)]
      have hcall : Nfc.step (.config args) c.nfc = some
          (if c.nfc.powerState ≠ 0 ∧ mode ≠ 0 then c.nfc.enterMode mode else c.nfc,
            [.reply (some configReply)]) := by
        simp only [Nfc.step, hrun, Option.map_some]
      exact ⟨_, rfl, by simp, fun _ => ⟨_, _, _, .mcu rfl hcall, by simp [hlen], rfl⟩⟩

theorem power_spec (p : Platform) (args : Bytes) (c : Core) :
    ∃ r, dispatchSubcommand p 0x22 args c = some r ∧
      (Declines 0x22 args c.nfc → r.1 = c ∧
        (r.2 = [] ∨ ∃ value, r.2 = [.nfc (.power value) c.nfc] ∧ value > 1)) ∧
      (¬ Declines 0x22 args c.nfc → Replied c 0x22 r) := by
  rw [declines_power]
  change ∃ r, handleSubcmd22McuState args c = some r ∧ _
  unfold handleSubcmd22McuState
  cases args with
  | nil => exact ⟨_, rfl, fun _ => ⟨rfl, .inl rfl⟩, fun h => absurd (.inl rfl) h⟩
  | cons value rest =>
      by_cases hbig : value > 1
      · simp [nfcPower_eq, hbig]
      · have hcall : Nfc.step (.power value) c.nfc =
            some (c.nfc.enterMode value, [.accepted true]) := by
          simp only [Nfc.step, nfcPower_eq, if_neg hbig]
        have hsend (c : Core) : sendSubcmdReply 0x22 [] 0 c = c.replied 0x22 [] :=
          sendSubcmdReply_eq 0x22 (Nat.zero_le _) (Nat.zero_le _) c
        refine ⟨_, by simp [nfcPower_eq, hbig, hsend], by simp [hbig],
          fun _ => ⟨_, _, [], .mcu rfl hcall, by simp, rfl⟩⟩

/-- Every other subcommand is answered. -/
theorem dispatch_other (p : Platform) {subcmdId : UInt8} (h21 : subcmdId ≠ 0x21)
    (h22 : subcmdId ≠ 0x22) (args : Bytes) (c : Core) :
    ∃ r, dispatchSubcommand p subcmdId args c = some r ∧ Replied c subcmdId r := by
  have hplain {id : UInt8} {payload : Bytes} {n : Nat} (hfit : n ≤ 34) (hlen : n ≤ payload.length) :
      Replied c id (sendSubcmdReply id payload n c) :=
    (replies_send id hfit hlen c).replied (.plain id)
  unfold dispatchSubcommand
  split
  case h_2 => exact ⟨_, rfl, hplain (by decide) (by simp [p.mac_length])⟩
  case h_3 =>
    rw [firstArg_eq]
    exact ⟨_, rfl, (setMode_replies _ c).replied (prepared_mode c _)⟩
  case h_9 =>
    split_ifs with hlen
    · obtain ⟨r, hr, hrep⟩ := spiRead_replies p hlen c
      exact ⟨r, hr, hrep.replied (.plain 0x10)⟩
    · exact ⟨_, rfl, hplain (by decide) (by decide)⟩
  case h_13 => exact absurd rfl h21
  case h_14 => exact absurd rfl h22
  all_goals
    try rw [firstArg_eq]
    exact ⟨_, rfl, hplain (by decide) (by decide)⟩

/-! ## Output reports -/

/-- The subcommand of an output report 0x01 that is long enough to carry one. -/
def subcommand (data : Bytes) : Option UInt8 :=
  if data[0]? = some 0x01 then data[10]? else none

inductive Handled (data : Bytes) (c : Core) : Core → List Effect → Prop
  | ignored (h : subcommand data = none) (hmcu : data[0]? ≠ some 0x11) : Handled data c c []
  | command {nfc : Mcu} {r : Nfc.Result} (h : data[0]? = some 0x11)
      (hs : Nfc.step (.command data) c.nfc = some (nfc, [r])) :
      Handled data c { c with nfc } [.nfc (.command data) c.nfc]
  | declined {subcmdId : UInt8} {log : List Effect} (h : subcommand data = some subcmdId)
      (hd : Declines subcmdId (data.drop 11) c.nfc)
      (hlog : log = [] ∨ ∃ op r, consoleOp op = true ∧ Nfc.step op c.nfc = some (c.nfc, [r]) ∧
        log = [.nfc op c.nfc]) : Handled data c c log
  | replied {subcmdId : UInt8} {r : Core × List Effect} (h : subcommand data = some subcmdId)
      (hd : ¬ Declines subcmdId (data.drop 11) c.nfc) (hr : Replied c subcmdId r) :
      Handled data c r.1 r.2

theorem dispatch_handled (p : Platform) {data : Bytes} {subcmdId : UInt8} (c : Core)
    (h : subcommand data = some subcmdId) :
    ∃ c' log, dispatchSubcommand p subcmdId (data.drop 11) c = some (c', log) ∧
      Handled data c c' log := by
  by_cases h21 : subcmdId = 0x21
  · subst h21
    obtain ⟨⟨c', log⟩, hr, hd, hn⟩ := config_spec p (data.drop 11) c
    refine ⟨c', log, hr, ?_⟩
    by_cases hdec : Declines 0x21 (data.drop 11) c.nfc
    · cases hd hdec
      refine .declined h hdec (.inr ⟨_, .reply none, rfl, ?_, rfl⟩)
      have hmode := declines_config.mp hdec
      simp only [Nfc.step, nfcConfig_eq, hmode, Option.map_some]
    · exact .replied h hdec (hn hdec)
  by_cases h22 : subcmdId = 0x22
  · subst h22
    obtain ⟨⟨c', log⟩, hr, hd, hn⟩ := power_spec p (data.drop 11) c
    refine ⟨c', log, hr, ?_⟩
    by_cases hdec : Declines 0x22 (data.drop 11) c.nfc
    · obtain ⟨rfl, hlog⟩ := hd hdec
      refine .declined h hdec (hlog.imp_right ?_)
      intro hvalue
      rcases hvalue with ⟨value, hlog, hbig⟩
      refine ⟨_, .accepted false, rfl, ?_, hlog⟩
      simp only [Nfc.step, nfcPower_eq, if_pos hbig]
    · exact .replied h hdec (hn hdec)
  · obtain ⟨⟨c', log⟩, hr, hrep⟩ := dispatch_other p h21 h22 (data.drop 11) c
    refine ⟨c', log, hr, .replied h ?_ hrep⟩
    unfold Declines
    tauto

/-- No output report makes the device read past it, and each is handled one way. -/
theorem handleOutput_handled (p : Platform) (data : Bytes) {c : Core}
    (htag : c.nfc.tag.length = tagSize) :
    ∃ c' log, switchProtoHandleOutput p data c = some (c', log) ∧ Handled data c c' log := by
  by_cases hempty : data.length < 1
  · have hnil : data = [] := List.length_eq_zero_iff.mp (by omega)
    subst hnil
    exact ⟨c, [], rfl, .ignored rfl (by simp)⟩
  have h0 : data[0]? = some data[0] := List.getElem?_eq_getElem (by omega)
  unfold switchProtoHandleOutput
  simp only [if_neg hempty, h0, Option.bind_eq_bind, Option.bind_some]
  by_cases h01 : data[0] = 0x01
  · by_cases hshort : data.length < 11
    · refine ⟨c, [], by simp [h01, hshort], .ignored ?_ (by simp [h0, h01])⟩
      simp only [subcommand, h0, h01, if_true]
      exact List.getElem?_eq_none (by omega)
    · have h10 : data[10]? = some data[10] := List.getElem?_eq_getElem (by omega)
      have hsub : subcommand data = some data[10] := by simp [subcommand, h0, h01, h10]
      simp only [if_pos h01, if_neg hshort, h10, Option.bind_some]
      exact dispatch_handled p c hsub
  have hnone : subcommand data = none := by simp [subcommand, h0, h01]
  by_cases h10 : data[0] = 0x10
  · exact ⟨c, [], by simp [h10], .ignored hnone (by simp [h0, h10])⟩
  by_cases h11 : data[0] = 0x11
  · have hrun := nfcCommand_eq htag data
    have hcall : Nfc.step (.command data) c.nfc = some
        (((c.nfc.request data).perform c.nfc).counted data (c.nfc.request data).accepted,
          [.accepted (c.nfc.request data).accepted]) := by
      simp only [Nfc.step, hrun, Option.map_some]
    exact ⟨_, _, by simp [h11, hrun], .command (by rw [h0, h11]) hcall⟩
  · exact ⟨c, [], by simp [h01, h10, h11], .ignored hnone (by simp [h0, h11])⟩

end SwitchController.Device
