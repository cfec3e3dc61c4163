import Mathlib.Tactic.SplitIfs
import SwitchController.Nfc.Packets

/-! # What each call of the MCU module does

A console packet is first classified, reading only bytes inside it, and then
performed on the state. Every other entry point is described by one equation in
terms of the queued packets. These equations are what all later proofs use: the
bodies in `nfc_mcu.c` are not unfolded again.
-/

namespace SwitchController.Nfc

open Memory

/-! ## Classification of console packets -/

inductive Request
  | reject
  | status
  | startPoll
  | stop
  | poll
  | read
deriving DecidableEq, Repr

/-- The requests the MCU supports, by length, position and mode. -/
def classify (power : UInt8) (present : Bool) (packet : Bytes) : Request :=
  if packet.length < 11 ∨ packet[0]? ≠ some 0x11 then .reject
  else if packet[10]? = some 1 then .status
  else if packet[10]? ≠ some 2 ∨ packet.length < 12 ∨ power ≠ 4 then .reject
  else if packet[11]? = some 1 then .startPoll
  else if packet[11]? = some 2 then .stop
  else if packet[11]? = some 4 then .poll
  else if packet[11]? = some 6 ∧ 25 ≤ packet.length ∧ present = true ∧
      (packet.drop 18).take 7 = zeros 7 then .read
  else .reject

def Mcu.request (m : Mcu) (packet : Bytes) : Request := classify m.powerState m.present packet

/-- A read names a present tag and leaves the write setup bytes clear. -/
theorem classify_read {power : UInt8} {present : Bool} {packet : Bytes}
    (h : classify power present packet = .read) :
    packet[11]? = some 6 ∧ 25 ≤ packet.length ∧ present = true ∧
      (packet.drop 18).take 7 = zeros 7 := by
  unfold classify at h
  split_ifs at h with _ _ _ _ _ _ hread
  exact hread

/-- Only rejected and status packets are handled outside the NFC mode. -/
theorem classify_mode {power : UInt8} {present : Bool} {packet : Bytes}
    (hr : classify power present packet ≠ .reject)
    (hs : classify power present packet ≠ .status) : power = 4 := by
  unfold classify at hr hs
  by_contra hp
  split_ifs at hr hs <;> simp_all

def Request.accepted : Request → Bool
  | .reject => false
  | _ => true

def Request.perform : Request → Mcu → Mcu
  | .reject, m => m
  | .status, m => Nfc.status m
  | .startPoll, m => { m with pollState := 1 }
  | .stop, m => flush { m with pollState := 0, seen := false }
  | .poll, m => Nfc.poll m
  | .read, m => m.afterRead

/-- The setup loop looks at exactly the bytes it is given and finds a set one. -/
theorem writeSetup_eq (data : Bytes) (i n : Nat) (h : i + n ≤ data.length) :
    writeSetup data i n = some (decide ((data.drop i).take n ≠ zeros n)) := by
  induction n generalizing i with
  | zero => simp [writeSetup]
  | succ n ih =>
      have hi : i < data.length := by omega
      have hrest := ih (i + 1) (by omega)
      have hcons : data.drop i = data[i] :: data.drop (i + 1) := List.drop_eq_getElem_cons hi
      have hz : zeros (n + 1) = 0 :: zeros n := rfl
      simp only [writeSetup, List.getElem?_eq_getElem hi, Option.bind_eq_bind, Option.bind_some,
        hrest, hcons, List.take_succ_cons, hz, List.cons.injEq, ne_eq, Option.pure_def]
      by_cases hb : data[i] = 0
      · simp [hb]
      · simp [hb]

theorem handleSub_eq {m : Mcu} (htag : m.tag.length = tagSize) {packet : Bytes} (sub : UInt8)
    (hlen : 12 ≤ packet.length) :
    handleSub sub (packet.drop 12) m =
      let r : Request :=
        if sub = 1 then .startPoll
        else if sub = 2 then .stop
        else if sub = 4 then .poll
        else if sub = 6 ∧ 25 ≤ packet.length ∧ m.present = true ∧
            (packet.drop 18).take 7 = zeros 7 then .read
        else .reject
      some (r.accepted, r.perform m) := by
  unfold handleSub
  split
  · rfl
  · rfl
  · rfl
  · by_cases hshort : (packet.drop 12).length < 13 ∨ m.present = false
    · have hno : ¬ (25 ≤ packet.length ∧ m.present = true ∧
          (packet.drop 18).take 7 = zeros 7) := by
        rintro ⟨hl, hp, -⟩
        simp only [List.length_drop, hp] at hshort
        rcases hshort with hs | hs
        · omega
        · cases hs
      rw [if_pos hshort]
      simp [hno, Request.accepted, Request.perform]
    · have hl : 25 ≤ packet.length := by
        simp only [List.length_drop] at hshort
        omega
      have hp : m.present = true := by simpa using (not_or.mp hshort).2
      have hloop := writeSetup_eq (packet.drop 12) 6 7 (by simp only [List.length_drop]; omega)
      rw [List.drop_drop] at hloop
      simp only [if_neg hshort, hloop, Option.bind_eq_bind, Option.bind_some]
      by_cases hz : (packet.drop 18).take 7 = zeros 7
      · simp [hz, hl, hp, readTag_eq htag, Request.accepted, Request.perform]
      · simp [hz, Request.accepted, Request.perform]
  · rename_i h1 h2 h4 h6
    simp only [if_neg h1, if_neg h2, if_neg h4]
    rw [if_neg (fun h => h6 h.1)]
    rfl

theorem handleCommand_eq {m : Mcu} (htag : m.tag.length = tagSize) (packet : Bytes) :
    handleCommand packet m =
      some ((m.request packet).accepted, (m.request packet).perform m) := by
  by_cases h11 : packet.length < 11
  · simp [handleCommand, Mcu.request, classify, h11, Request.accepted, Request.perform]
  have h0 : packet[0]? = some packet[0] := List.getElem?_eq_getElem (by omega)
  have h10 : packet[10]? = some packet[10] := List.getElem?_eq_getElem (by omega)
  by_cases hid : packet[0] = 0x11
  swap
  · simp [handleCommand, Mcu.request, classify, h11, h0, hid, Request.accepted, Request.perform]
  by_cases hstatus : packet[10] = 1
  · simp [handleCommand, Mcu.request, classify, h11, h0, h10, hid, hstatus, Request.accepted,
      Request.perform]
  by_cases hmode : packet[10] ≠ 2 ∨ packet.length < 12 ∨ m.powerState ≠ 4
  · simp only [handleCommand, Mcu.request, classify, h11, h0, h10, hid, if_false,
      Option.bind_eq_bind, Option.bind_some]
    simp [hstatus, hmode, Request.accepted, Request.perform]
  have h12 : 12 ≤ packet.length := by
    by_contra hc
    exact hmode (.inr (.inl (by omega)))
  have hsub : packet[11]? = some packet[11] := List.getElem?_eq_getElem (by omega)
  have hswitch := handleSub_eq htag packet[11] h12
  simp only [handleCommand, Mcu.request, classify, h11, h0, h10, hid, hsub, if_false,
    Option.bind_eq_bind, Option.bind_some, hswitch]
  simp [hstatus, hmode]

/-! ## Commands with their counters -/

def Mcu.counted (m : Mcu) (packet : Bytes) (ok : Bool) : Mcu :=
  { m with
    received := m.received + 1
    rejected := if ok then m.rejected else m.rejected + 1
    lastCmd := packet.getD 10 0
    lastSub := packet.getD 11 0 }

theorem commandByte_eq (packet : Bytes) (i : Nat) :
    commandByte packet i = some (packet.getD i 0) := by
  by_cases h : packet.length > i
  · simp [commandByte, h]
  · simp [commandByte, h, List.getD]

/-- Counting and performing a request do not see each other. -/
theorem perform_counted (r : Request) (m : Mcu) (packet : Bytes) (ok : Bool)
    (htag : m.tag.length = tagSize) :
    r.perform (m.counted packet ok) = (r.perform m).counted packet ok := by
  cases r with
  | reject => rfl
  | startPoll => rfl
  | stop => rfl
  | read => rfl
  | status =>
      simp only [Request.perform]
      by_cases h : m.queue.count = queueSize
      · rw [status_full h, status_full (m := m.counted packet ok) h]
      · rw [status_eq h, status_eq (m := m.counted packet ok) h]
        rfl
  | poll =>
      simp only [Request.perform]
      by_cases h : m.queue.count = queueSize
      · rw [poll_full h, poll_full (m := m.counted packet ok) h]
      · rw [poll_eq htag h, poll_eq (m := m.counted packet ok) htag h]
        by_cases hf : m.present = true ∧ m.pollState ≠ 0
        · simp [Mcu.announce, Mcu.pollPacket, Mcu.counted, hf, Mcu.enqueue]
        · simp [Mcu.announce, Mcu.pollPacket, Mcu.counted, hf, Mcu.enqueue]

theorem nfcCommand_eq {m : Mcu} (htag : m.tag.length = tagSize) (packet : Bytes) :
    nfcCommand packet m =
      some ((m.request packet).accepted,
        ((m.request packet).perform m).counted packet (m.request packet).accepted) := by
  have hstart : { m with
      received := m.received + 1, lastCmd := packet.getD 10 0, lastSub := packet.getD 11 0 } =
      m.counted packet true := rfl
  have hreq : (m.counted packet true).request packet = m.request packet := rfl
  have hrun := handleCommand_eq (m := m.counted packet true) htag packet
  rw [hreq, perform_counted _ m packet true htag] at hrun
  simp only [nfcCommand, commandByte_eq, Option.bind_eq_bind, Option.bind_some, hstart, hrun]
  cases (m.request packet).accepted with
  | true => rfl
  | false => rfl

/-! ## The remaining entry points -/

/-- Which configuration mode an argument string selects, if it is acceptable. -/
def configMode (args : Bytes) : Option UInt8 :=
  match args[2]? with
  | none => none
  | some mode => if mode = 0 ∨ mode = 1 ∨ mode = 4 then some mode else none

/-- The state after a change of mode. -/
def Mcu.enterMode (m : Mcu) (mode : UInt8) : Mcu :=
  status (flush { m with powerState := mode, pollState := 0, seen := false })

theorem enterMode_eq (m : Mcu) (mode : UInt8) :
    m.enterMode mode =
      (flush { m with powerState := mode, pollState := 0, seen := false }).enqueue
        (Packet.status mode).encode := by
  unfold Mcu.enterMode
  rw [status_eq (by simp [queueSize])]
  rfl

theorem nfcConfig_eq (args : Bytes) (m : Mcu) :
    nfcConfig args m = some (match configMode args with
      | none => (none, m)
      | some mode =>
          (some configReply, if m.powerState ≠ 0 ∧ mode ≠ 0 then m.enterMode mode else m)) := by
  by_cases hlen : args.length < 3
  · have hnone : args[2]? = none := List.getElem?_eq_none (by omega)
    simp [nfcConfig, configMode, hlen, hnone]
  · have hsome : args[2]? = some args[2] := List.getElem?_eq_getElem (by omega)
    simp only [nfcConfig, if_neg hlen, configMode, hsome, Option.bind_eq_bind, Option.bind_some]
    by_cases hmode : args[2] = 0 ∨ args[2] = 1 ∨ args[2] = 4
    · have hok : ¬ (args[2] ≠ 0 ∧ args[2] ≠ 1 ∧ args[2] ≠ 4) := by tauto
      simp only [if_neg hok, if_pos hmode]
      by_cases heff : m.powerState ≠ 0 ∧ args[2] ≠ 0
      · simp only [if_pos heff]
        rfl
      · simp only [if_neg heff]
        rfl
    · have hbad : args[2] ≠ 0 ∧ args[2] ≠ 1 ∧ args[2] ≠ 4 := by tauto
      simp only [if_pos hbad, if_neg hmode]
      rfl

theorem nfcPower_eq (value : UInt8) (m : Mcu) :
    nfcPower value m = if value > 1 then (false, m) else (true, m.enterMode value) := rfl

/-- The tag buffer and its flags after an accepted load, queue flushed. -/
def Mcu.withTag (m : Mcu) (data : Bytes) : Mcu :=
  flush { m with tag := data, present := true, seen := false }

def Mcu.withoutTag (m : Mcu) : Mcu :=
  flush { m with tag := zeros m.tag.length, present := false, seen := false }

theorem nfcLoad_short {data : Bytes} (h : data.length ≠ tagSize) (m : Mcu) :
    nfcLoad data m = (false, m) := by
  simp [nfcLoad, h]

theorem nfcLoad_body {data : Bytes} (h : data.length = tagSize) (m : Mcu) :
    nfcLoad data m =
      if m.powerState = 4 ∧ m.pollState ≠ 0 then (true, poll { m.withTag data with pollState := 1 })
      else if m.powerState ≠ 0 then (true, status (m.withTag data))
      else (true, m.withTag data) := by
  unfold nfcLoad
  rw [if_neg (not_not.mpr h)]
  rfl

theorem nfcLoad_polling {data : Bytes} (h : data.length = tagSize) {m : Mcu}
    (hp : m.powerState = 4) (hs : m.pollState ≠ 0) :
    nfcLoad data m = (true,
      { m.withTag data with pollState := 1, seen := true }.enqueue
        (Packet.found 1 data).encode) := by
  have hpoll := poll_eq (m := { m.withTag data with pollState := 1 }) h (by
    simp [Mcu.withTag, flush, RingBuffer.clear, queueSize])
  rw [nfcLoad_body h, if_pos ⟨hp, hs⟩, hpoll]
  rfl

theorem nfcLoad_idle {data : Bytes} (h : data.length = tagSize) {m : Mcu}
    (hidle : ¬ (m.powerState = 4 ∧ m.pollState ≠ 0)) (hp : m.powerState ≠ 0) :
    nfcLoad data m =
      (true, (m.withTag data).enqueue (Packet.status m.powerState).encode) := by
  rw [nfcLoad_body h, if_neg hidle, if_pos hp, status_eq (by simp [Mcu.withTag, queueSize])]
  rfl

theorem nfcLoad_off {data : Bytes} (h : data.length = tagSize) {m : Mcu}
    (hp : m.powerState = 0) : nfcLoad data m = (true, m.withTag data) := by
  rw [nfcLoad_body h]
  simp [hp]

theorem nfcUnload_body (m : Mcu) :
    nfcUnload m =
      if m.pollState ≠ 0 then
        if m.powerState = 4 then poll { m.withoutTag with pollState := 1 }
        else { m.withoutTag with pollState := 1 }
      else m.withoutTag := rfl

theorem nfcUnload_polling {m : Mcu} (htag : m.tag.length = tagSize)
    (hs : m.pollState ≠ 0) (hp : m.powerState = 4) :
    nfcUnload m = { m.withoutTag with pollState := 1 }.enqueue (Packet.poll 1).encode := by
  have hpoll := poll_eq (m := { m.withoutTag with pollState := 1 })
    (by simpa [Mcu.withoutTag, flush] using htag) (by
      simp [Mcu.withoutTag, flush, RingBuffer.clear, queueSize])
  rw [nfcUnload_body, if_pos hs, if_pos hp, hpoll]
  rfl

theorem nfcUnload_idle {m : Mcu} (hs : m.pollState = 0) : nfcUnload m = m.withoutTag := by
  rw [nfcUnload_body]
  simp [hs]

/-! ## Peek and commit -/

theorem nfcPeek_empty {m : Mcu} (h : m.pending = []) : nfcPeek m = Packet.idle.encode := by
  have hcount : m.queue.count = 0 := (RingBuffer.contents_eq_nil_iff m.queue).mp h
  have hidle := status_body 0
  simp only [if_true] at hidle
  simp only [nfcPeek, hcount, ne_eq, not_true_eq_false, if_false]
  exact hidle

theorem nfcCommit_empty {m : Mcu} (h : m.pending = []) : nfcCommit m = m := by
  have hcount : m.queue.count = 0 := (RingBuffer.contents_eq_nil_iff m.queue).mp h
  simp [nfcCommit, hcount]

/-- A peek at a queue that is not empty shows its head, and a commit removes it. -/
theorem peek_commit {m : Mcu} (hw : m.queue.WF queueSize) (h : m.pending ≠ []) :
    m.pending = nfcPeek m :: (nfcCommit m).pending := by
  have hcount : m.queue.count ≠ 0 := fun h0 =>
    h ((RingBuffer.contents_eq_nil_iff m.queue).mpr h0)
  simp only [nfcPeek, nfcCommit, if_pos hcount, Mcu.slot]
  exact RingBuffer.contents_eq_cons hw hcount

end SwitchController.Nfc
