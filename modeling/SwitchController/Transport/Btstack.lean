import SwitchController.Device.System

/-! # The BTstack transport

`btstack_hid.c`: connection events, the reply ring, the input timer and the send
slot. Everything runs in one loop, so each callback is one step. A send slot that
opens while it is being requested is the next event here: its callers do nothing
after the request. Whether a send succeeds is part of the event.
-/

namespace SwitchController.Transport

open Memory Device

/-- Slots of the reply ring. -/
def replyQueueSize : Nat := 8

structure Reply where
  data : Bytes
  len : Nat

/-- The bytes a slot stands for. -/
def Reply.bytes (r : Reply) : Bytes := r.data.take r.len

structure Firmware where
  core : Core
  hidCid : UInt16
  connected : Bool
  sendPending : Bool
  ring : RingBuffer Reply

def Firmware.boot : Firmware where
  core := Core.boot
  hidCid := 0
  connected := false
  sendPending := false
  ring := { slots := fun _ => { data := zeros inputReportSize, len := 0 }, head := 0, count := 0 }

inductive Action
  | core (e : Effect)
  | opened
  | closed
  /-- A reply entered the ring. -/
  | accepted (data : Bytes)
  /-- `none` is a null pointer. -/
  | refused (data : Option Bytes)
  | request (cid : UInt16)
  /-- The message of a successful interrupt send. -/
  | sent (isReply : Bool) (msg : Bytes)
  | failed (msg : Bytes)

/-! ## Replies -/

def btstackHidSendInputReport (data : Option Bytes) (f : Firmware) : Firmware × List Action :=
  match data with
  | none => (f, [.refused none])
  | some data =>
      if f.connected = false ∨ data.length = 0 then (f, [.refused (some data)])
      else if data.length > inputReportSize ∨ f.ring.count = replyQueueSize then
        (f, [.refused (some data)])
      else
        let tail := (f.ring.head + f.ring.count) % replyQueueSize
        let slot : Reply := { data := memcpy (f.ring.slots tail).data 0 data, len := data.length }
        let f := { f with ring := { f.ring.store tail slot with count := f.ring.count + 1 } }
        if f.sendPending then (f, [.accepted data])
        else ({ f with sendPending := true }, [.accepted data, .request f.hidCid])

/-- The effects of the core in order, each reply passed to the ring as it is built. -/
def deliver : List Effect → Firmware → Firmware × List Action
  | [], f => (f, [])
  | e :: log, f =>
      let (f, queued) :=
        match e with
        | .reply _ _ report => btstackHidSendInputReport (some report) f
        | _ => (f, [])
      let (f, rest) := deliver log f
      (f, .core e :: queued ++ rest)

/-! ## Sending -/

/-- The cleared message buffer with its first byte. -/
def messageBuffer : Bytes := (zeros (inputReport0x31Size + 1)).set 0 0xa1

/-- The message of a report is the report behind the first byte. -/
theorem message_eq (report : Bytes) :
    (memcpy messageBuffer 1 report).take (report.length + 1) = 0xa1 :: report := by
  have hbuffer : messageBuffer = [0xa1] ++ zeros 362 := rfl
  have hstart : 1 = ([0xa1] : Bytes).length := rfl
  have hlen : ([0xa1] ++ report).length = report.length + 1 := by simp
  rw [hbuffer, memcpy_zeros _ _ _ hstart, List.take_left' hlen]
  rfl

def sendReply (ok : Bool) (f : Firmware) : Firmware × List Action :=
  let r := f.ring.slots f.ring.head
  let msg := (memcpy messageBuffer 1 (r.data.take r.len)).take (r.len + 1)
  if ok then ({ f with ring := f.ring.pop replyQueueSize }, [.sent true msg])
  else (f, [.failed msg])

/-- The message with a report copied behind its first byte. -/
def streamMessage (report : Bytes) : Bytes :=
  (memcpy messageBuffer 1 report).take (report.length + 1)

/-- The full report of MCU mode: its id is changed and the packet is copied behind it. -/
def mcuMessage (report packet : Bytes) : Bytes :=
  (memcpy ((memcpy messageBuffer 1 report).set 1 0x31) (1 + inputReportSize) packet).take
    (inputReport0x31Size + 1)

def sendResult (ok : Bool) (msg : Bytes) : Action := if ok then .sent false msg else .failed msg

/-- The stream report of the current mode. Only MCU mode carries a packet, which stays
queued when the send fails. -/
def sendStream (ok : Bool) (f : Firmware) : Firmware × List Action :=
  let c := { f.core with virtualGrip := false }
  match c.streamMode with
  | .x3F =>
      ({ f with core := c },
        [sendResult ok (streamMessage (inputReportBuild0x3F c.ctrl c.virtualGrip))])
  | .x30 =>
      let report := inputReportBuild0x30 (switchProtoNextTimer c).1 c.ctrl c.virtualGrip
      ({ f with core := (switchProtoNextTimer c).2 }, [sendResult ok (streamMessage report)])
  | .x31 =>
      let report := inputReportBuild0x30 (switchProtoNextTimer c).1 c.ctrl c.virtualGrip
      let c := (switchProtoNextTimer c).2
      let sent := [.core (.nfc .peek c.nfc), sendResult ok (mcuMessage report (Nfc.nfcPeek c.nfc))]
      if ok then
        ({ f with core := { c with nfc := Nfc.nfcCommit c.nfc } },
          sent ++ [.core (.nfc .commit c.nfc)])
      else ({ f with core := c }, sent)
  | .none => ({ f with core := c }, [])

def sendNextReport (ok : Bool) (f : Firmware) : Firmware × List Action :=
  let f := { f with sendPending := false }
  if f.ring.count ≠ 0 then sendReply ok f else sendStream ok f

def inputTimerHandler (f : Firmware) : Firmware × List Action :=
  if f.connected = true ∧ f.sendPending = false then
    ({ f with sendPending := true }, [.request f.hidCid])
  else (f, [])

/-! ## Events -/

inductive Event
  | opened (status : UInt8) (cid : UInt16)
  | closed
  /-- A send slot, and whether the interrupt send made in it succeeds. -/
  | canSendNow (ok : Bool)
  | inputTimer
  /-- Interrupt data with its report id. -/
  | reportData (reportId : UInt16) (report : Bytes)
  | setReport (report : Bytes)
  | pcTimer (lines : List (Bytes × Int)) (now : Int)

/-- What a connection event and a disconnection event share. -/
def resetSending (f : Firmware) : Firmware :=
  { f with
    sendPending := false, ring := f.ring.clear, core := { f.core with virtualGrip := false } }

def connectionOpened (status : UInt8) (cid : UInt16) (f : Firmware) : Firmware × List Action :=
  if status ≠ 0 then (f, [])
  else
    let f := resetSending { f with hidCid := cid, connected := true }
    let (core, released) := pcControlConnection true f.core
    let (core, reset) := switchProtoInit core
    ({ f with core }, .opened :: (released ++ reset).map .core)

def connectionClosed (f : Firmware) : Firmware × List Action :=
  let f := resetSending { f with connected := false, hidCid := 0 }
  let (core, released) := pcControlConnection false f.core
  ({ f with core }, .closed :: released.map .core)

def trackOutput (p : Platform) (packet : Bytes) (f : Firmware) :
    Option (Firmware × List Action) := do
  let (core, log) ← switchProtoHandleOutput p packet f.core
  some (deliver log { f with core })

/-- The report id and at most 64 bytes. -/
def reportDataCallback (p : Platform) (reportId : UInt16) (report : Bytes) (f : Firmware) :
    Option (Firmware × List Action) :=
  if report.length > 0 then trackOutput p (reportId.toUInt8 :: report.take 64) f
  else some (f, [])

def setReportCallback (p : Platform) (report : Bytes) (f : Firmware) :
    Option (Firmware × List Action) :=
  if report.length < 1 then some (f, []) else trackOutput p (report.take 65) f

def step (p : Platform) (parse : Bytes → Option CJson) :
    Event → Firmware → Option (Firmware × List Action)
  | .opened status cid, f => some (connectionOpened status cid f)
  | .closed, f => some (connectionClosed f)
  | .canSendNow ok, f =>
      if f.connected = true ∧ f.sendPending = true then some (sendNextReport ok f)
      else some (f, [])
  | .inputTimer, f => some (inputTimerHandler f)
  | .reportData reportId report, f => reportDataCallback p reportId report f
  | .setReport report, f => setReportCallback p report f
  | .pcTimer lines now, f =>
      let (core, log) := pcControlPoll parse lines now f.core
      some ({ f with core }, log.map .core)

def firmware (p : Platform) (parse : Bytes → Option CJson) :
    Transition.System Firmware Event Action where
  init := Firmware.boot
  step := step p parse

/-- The packet an event hands to the console side. -/
def Event.output : Event → Option Bytes
  | .reportData reportId report =>
      if report.length > 0 then some (reportId.toUInt8 :: report.take 64) else none
  | .setReport report => if report.length < 1 then none else some (report.take 65)
  | .opened _ _ | .closed | .canSendNow _ | .inputTimer | .pcTimer _ _ => none

theorem output_step {p : Platform} {parse : Bytes → Option CJson} {e : Event} {packet : Bytes}
    (h : e.output = some packet) (f : Firmware) : step p parse e f = trackOutput p packet f := by
  cases e with
  | reportData reportId report =>
      simp only [Event.output] at h
      split_ifs at h with hlen
      cases h
      simp only [step, reportDataCallback, if_pos hlen]
  | setReport report =>
      simp only [Event.output] at h
      split_ifs at h with hlen
      cases h
      simp only [step, setReportCallback, if_neg hlen]
  | opened | closed | canSendNow | inputTimer | pcTimer => cases h

/-! ## The device inside -/

/-- What the core did. -/
def coreLog (actions : List Action) : List Effect :=
  actions.filterMap fun
    | .core e => some e
    | _ => none

@[simp] theorem coreLog_nil : coreLog [] = [] := rfl

theorem coreLog_append (left right : List Action) :
    coreLog (left ++ right) = coreLog left ++ coreLog right := List.filterMap_append

theorem coreLog_map (log : List Effect) : coreLog (log.map .core) = log := by
  unfold coreLog
  rw [List.filterMap_map]
  exact List.filterMap_some

/-- Queueing a reply is invisible to the core. -/
theorem send_core (data : Option Bytes) (f : Firmware) :
    (btstackHidSendInputReport data f).1.core = f.core ∧
      coreLog (btstackHidSendInputReport data f).2 = [] := by
  unfold btstackHidSendInputReport
  split
  · exact ⟨rfl, rfl⟩
  · dsimp only
    split_ifs <;> exact ⟨rfl, rfl⟩

theorem deliver_core (log : List Effect) (f : Firmware) :
    (deliver log f).1.core = f.core ∧ coreLog (deliver log f).2 = log := by
  induction log generalizing f with
  | nil => exact ⟨rfl, rfl⟩
  | cons e log ih =>
      have hqueued : (match e with
          | .reply _ _ report => btstackHidSendInputReport (some report) f
          | _ => (f, [])).1.core = f.core ∧ coreLog (match e with
          | .reply _ _ report => btstackHidSendInputReport (some report) f
          | _ => (f, [])).2 = [] := by
        cases e with
        | reply subcmdId payload report => exact send_core _ f
        | nfc | answer | applied | released => exact ⟨rfl, rfl⟩
      refine ⟨(ih _).1.trans hqueued.1, ?_⟩
      change coreLog ((.core e :: _) ++ _) = _
      rw [coreLog_append, (ih _).2]
      change e :: coreLog _ ++ log = _
      rw [hqueued.2]
      rfl

section Projection

variable {p : Platform} {parse : Bytes → Option CJson}

open Transition.System

theorem sendStream_device (ok : Bool) (f : Firmware) :
    ∃ calls, (device p parse).run calls f.core =
      some ((sendStream ok f).1.core, coreLog (sendStream ok f).2) := by
  unfold sendStream
  dsimp only
  split
  · exact ⟨[.grip false], by cases ok <;> rfl⟩
  · exact ⟨[.grip false, .nextTimer], by cases ok <;> rfl⟩
  · cases ok with
    | false => exact ⟨[.grip false, .nextTimer, .peek], rfl⟩
    | true => exact ⟨[.grip false, .nextTimer, .peek, .commit], rfl⟩
  · exact ⟨[.grip false], rfl⟩

theorem sendNextReport_device (ok : Bool) (f : Firmware) :
    ∃ calls, (device p parse).run calls f.core =
      some ((sendNextReport ok f).1.core, coreLog (sendNextReport ok f).2) := by
  unfold sendNextReport
  dsimp only
  split_ifs
  · exact ⟨[], by cases ok <;> rfl⟩
  · exact sendStream_device ok { f with sendPending := false }

theorem connectionOpened_device (status : UInt8) (cid : UInt16) (f : Firmware) :
    ∃ calls, (device p parse).run calls f.core =
      some ((connectionOpened status cid f).1.core, coreLog (connectionOpened status cid f).2) := by
  unfold connectionOpened
  split_ifs
  · exact ⟨[], rfl⟩
  · exact ⟨[.grip false, .connection true, .protoInit], rfl⟩

theorem trackOutput_device {packet : Bytes} {f f' : Firmware} {actions : List Action}
    (hs : trackOutput p packet f = some (f', actions)) :
    (device p parse).run [.output packet] f.core = some (f'.core, coreLog actions) := by
  unfold trackOutput at hs
  obtain ⟨⟨core, log⟩, hr, hd⟩ := Option.bind_eq_some_iff.mp hs
  have hcore := deliver_core log { f with core }
  rw [show deliver log { f with core } = (f', actions) from Option.some.inj hd] at hcore
  rw [run_singleton_some, hcore.1, hcore.2]
  exact hr

/-- Each step of the transport is a run of the device. -/
theorem step_device {e : Event} {f f' : Firmware} {actions : List Action}
    (hs : step p parse e f = some (f', actions)) :
    ∃ calls, (device p parse).run calls f.core = some (f'.core, coreLog actions) := by
  have hpair {r : Firmware × List Action} (hr : some r = some (f', actions))
      (h : ∃ calls, (device p parse).run calls f.core = some (r.1.core, coreLog r.2)) :
      ∃ calls, (device p parse).run calls f.core = some (f'.core, coreLog actions) := by
    cases hr
    exact h
  cases e with
  | opened status cid => exact hpair hs (connectionOpened_device status cid f)
  | closed => exact hpair hs ⟨[.grip false, .connection false], rfl⟩
  | canSendNow ok =>
      simp only [step] at hs
      split_ifs at hs
      · exact hpair hs (sendNextReport_device ok f)
      · exact hpair hs ⟨[], rfl⟩
  | inputTimer =>
      refine hpair hs ⟨[], ?_⟩
      unfold inputTimerHandler
      split_ifs <;> rfl
  | reportData reportId report =>
      simp only [step, reportDataCallback] at hs
      split_ifs at hs
      · exact ⟨_, trackOutput_device hs⟩
      · exact hpair hs ⟨[], rfl⟩
  | setReport report =>
      simp only [step, setReportCallback] at hs
      split_ifs at hs
      · exact hpair hs ⟨[], rfl⟩
      · exact ⟨_, trackOutput_device hs⟩
  | pcTimer lines now =>
      refine hpair hs ⟨[.poll lines now], ?_⟩
      rw [coreLog_map]
      exact run_singleton_some.mpr rfl

/-- A run of the firmware is a run of the device under its own log. -/
theorem reaches_device {f : Firmware} {actions : List Action}
    (h : (firmware p parse).Reaches f actions) :
    (device p parse).Reaches f.core (coreLog actions) := by
  refine h.history (fun f actions => (device p parse).Reaches f.core (coreLog actions))
    ⟨[], rfl⟩ ?_
  intro e f f' actions past ⟨calls, hpast⟩ hs
  obtain ⟨more, hmore⟩ := step_device hs
  refine ⟨calls ++ more, run_append_some.mpr ⟨f.core, _, _, hpast, hmore, ?_⟩⟩
  exact coreLog_append past actions

theorem reachable_rep {f : Firmware} (h : (firmware p parse).Reachable f) :
    ∃ a, Nfc.Rep f.core.nfc a := by
  obtain ⟨actions, hr⟩ := h
  exact Device.reachable_rep ⟨_, reaches_device hr⟩

theorem step_rep {e : Event} {f f' : Firmware} {actions : List Action}
    (h : ∃ a, Nfc.Rep f.core.nfc a) (hs : step p parse e f = some (f', actions)) :
    ∃ a, Nfc.Rep f'.core.nfc a := by
  rcases h with ⟨a, ha⟩
  rcases step_device hs with ⟨calls, hcalls⟩
  exact (run_trace ha hcalls).rep ha

theorem trackOutput_total (packet : Bytes) {f : Firmware} (h : ∃ a, Nfc.Rep f.core.nfc a) :
    ∃ f' actions, trackOutput p packet f = some (f', actions) := by
  rcases h with ⟨a, ha⟩
  rcases handleOutput_handled p packet ha.tag_length with ⟨core, log, hr, -⟩
  refine ⟨(deliver log { f with core }).1, (deliver log { f with core }).2, ?_⟩
  rw [trackOutput, hr]
  rfl

/-- No event faults, whatever came before. -/
theorem step_total (e : Event) {f : Firmware} (h : ∃ a, Nfc.Rep f.core.nfc a) :
    ∃ f' actions, step p parse e f = some (f', actions) := by
  cases hout : e.output with
  | some packet =>
      rw [output_step hout]
      exact trackOutput_total packet h
  | none =>
      cases e with
      | canSendNow ok =>
          simp only [step]
          split_ifs
          · exact ⟨_, _, rfl⟩
          · exact ⟨_, _, rfl⟩
      | reportData reportId report =>
          have hempty : ¬ report.length > 0 := fun hc => by simp [Event.output, hc] at hout
          exact ⟨f, [], by simp only [step, reportDataCallback, if_neg hempty]⟩
      | setReport report =>
          have hempty : report.length < 1 := by
            by_contra hc
            simp [Event.output, hc] at hout
          exact ⟨f, [], by simp only [step, setReportCallback, if_pos hempty]⟩
      | opened | closed | inputTimer | pcTimer => exact ⟨_, _, rfl⟩

theorem run_total (es : List Event) {f : Firmware} (h : ∃ a, Nfc.Rep f.core.nfc a) :
    ∃ f' actions, (firmware p parse).run es f = some (f', actions) := by
  have hrun := Transition.System.run_total (M := firmware p parse)
    (fun f => ∃ a, Nfc.Rep f.core.nfc a) ?_ es h
  · rcases hrun with ⟨f', actions, hr, -⟩
    exact ⟨f', actions, hr⟩
  · intro e f hf
    have hnext : ∃ f' actions, step p parse e f = some (f', actions) := step_total e hf
    rcases hnext with ⟨f', actions, hs⟩
    exact ⟨f', actions, hs, step_rep hf hs⟩

end Projection

end SwitchController.Transport
