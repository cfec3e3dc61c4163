import Mathlib.Logic.Function.Basic
import SwitchController.Transport.ReplyQueue

/-! # The HID device layer

`hid_device.c` between L2CAP and the firmware. It pairs the control and the
interrupt channel of one device, answers the control messages of the host, passes
send slots on when the firmware asked for one, and tells the firmware only about
both channels together. L2CAP is modelled by the channels it has; its events change
them first. The firmware turns boot mode off, so the protocol mode is always that of
reports, and lets reports be shorter than declared. An answer is one message in the
first slot there is, whichever channel that is for; its bytes are left out.
-/

namespace SwitchController.Transport

open Memory Device

/-! ## L2CAP -/

inductive Psm
  | control
  | interrupt
deriving DecidableEq, Repr

/-- A channel from its request on. -/
structure Channel where
  psm : Psm
  opened : Bool
  waitingForCanSendNow : Bool
deriving DecidableEq, Repr

abbrev L2cap := UInt16 → Option Channel

/-- A local id for a new channel: not zero and not in use. -/
def L2cap.Fresh (l : L2cap) (cid : UInt16) : Prop := cid ≠ 0 ∧ l cid = none

instance (l : L2cap) (cid : UInt16) : Decidable (l.Fresh cid) :=
  inferInstanceAs (Decidable (_ ∧ _))

def L2cap.add (l : L2cap) (cid : UInt16) (psm : Psm) : L2cap :=
  Function.update l cid (some { psm := psm, opened := false, waitingForCanSendNow := false })

def L2cap.remove (l : L2cap) (cid : UInt16) : L2cap := Function.update l cid none

def l2capRequestCanSendNowEvent (cid : UInt16) (l : L2cap) : L2cap :=
  match l cid with
  | none => l
  | some ch => Function.update l cid (some { ch with waitingForCanSendNow := true })

/-! ## The device -/

def hciConHandleInvalid : UInt16 := 0xffff

/-- What `hid_device_state_t` is set to. -/
inductive HidDeviceState
  | idle
  | w2GetReport
  | w2SetReport
  | w2GetProtocol
  | w2SetProtocol
  | w2SendUnsupportedRequest
deriving DecidableEq, Repr

structure HidDevice where
  cid : UInt16
  conHandle : UInt16
  incoming : Bool
  controlCid : UInt16
  interruptCid : UInt16
  connected : Bool
  state : HidDeviceState
  userRequestCanSendNow : Bool
  lastCid : UInt16
deriving DecidableEq, Repr

def HidDevice.boot : HidDevice where
  cid := 0
  conHandle := 0
  incoming := false
  controlCid := 0
  interruptCid := 0
  connected := false
  state := .idle
  userRequestCanSendNow := false
  lastCid := 0

inductive HidEvent
  | connectionOpened (cid : UInt16) (status : UInt8)
  | connectionClosed
  | canSendNow
deriving DecidableEq, Repr

def hidDeviceGetNextCid (d : HidDevice) : UInt16 :=
  if d.lastCid + 1 = 0 then 1 else d.lastCid + 1

def hidDeviceSetupInstance (d : HidDevice) : HidDevice :=
  { HidDevice.boot with
    cid := hidDeviceGetNextCid d, lastCid := hidDeviceGetNextCid d,
    conHandle := hciConHandleInvalid }

def hidDeviceProvideInstance (d : HidDevice) : HidDevice :=
  if d.cid = 0 then hidDeviceSetupInstance d else d

def HidDevice.Owns (d : HidDevice) (cid : UInt16) : Prop :=
  d.controlCid = cid ∨ d.interruptCid = cid

instance (d : HidDevice) (cid : UInt16) : Decidable (d.Owns cid) :=
  inferInstanceAs (Decidable (_ ∨ _))

def HidDevice.Admits (d : HidDevice) (handle : UInt16) : Prop :=
  d.conHandle = hciConHandleInvalid ∨ handle = d.conHandle

instance (d : HidDevice) (handle : UInt16) : Decidable (d.Admits handle) :=
  inferInstanceAs (Decidable (_ ∨ _))

def HidDevice.storeCid (d : HidDevice) (psm : Psm) (cid : UInt16) : HidDevice :=
  match psm with
  | .control => { d with controlCid := cid }
  | .interrupt => { d with interruptCid := cid }

/-- `L2CAP_EVENT_INCOMING_CONNECTION`: is the channel accepted? -/
def incomingConnection (psm : Psm) (handle cid : UInt16) (d : HidDevice) : Bool × HidDevice :=
  let d := hidDeviceProvideInstance d
  if d.Admits handle then
    (true, { d with conHandle := handle, incoming := true }.storeCid psm cid)
  else (false, d)

/-- A control channel that opened while no incoming connection is under way makes the
device open the interrupt channel. -/
def HidDevice.Connects (d : HidDevice) (status : UInt8) (psm : Psm) (cid : UInt16) : Prop :=
  d.Owns cid ∧ status = 0 ∧ d.incoming = false ∧ psm = .control

instance (d : HidDevice) (status : UInt8) (psm : Psm) (cid : UInt16) :
    Decidable (d.Connects status psm cid) := inferInstanceAs (Decidable (_ ∧ _))

/-- `L2CAP_EVENT_CHANNEL_OPENED`, with the id of the channel the device then creates, if
`l2cap_create_channel` has room for one. -/
def channelOpened (status : UInt8) (psm : Psm) (handle cid : UInt16) (created : Option UInt16)
    (d : HidDevice) : HidDevice × Option HidEvent :=
  if ¬ d.Owns cid then (d, none)
  else if status ≠ 0 then
    (d, if d.incoming = false then some (.connectionOpened d.cid status) else none)
  else
    let d := if d.conHandle = hciConHandleInvalid then { d with conHandle := handle } else d
    let d := d.storeCid psm cid
    if d.incoming = false ∧ psm = .control then
      ({ d with interruptCid := created.getD d.interruptCid }, none)
    else if d.connected = false ∧ d.controlCid ≠ 0 ∧ d.interruptCid ≠ 0 then
      ({ d with connected := true }, some (.connectionOpened d.cid 0))
    else (d, none)

/-- `L2CAP_EVENT_CHANNEL_CLOSED`: only the second channel disconnects. -/
def channelClosed (cid : UInt16) (d : HidDevice) : HidDevice × Option HidEvent :=
  if ¬ d.Owns cid then (d, none)
  else
    let d := { d with incoming := false }
    let d := if cid = d.interruptCid then { d with interruptCid := 0 } else d
    let d := if cid = d.controlCid then { d with controlCid := 0 } else d
    if d.interruptCid = 0 ∧ d.controlCid = 0 then
      ({ d with connected := false, conHandle := hciConHandleInvalid, cid := 0 },
        some .connectionClosed)
    else (d, none)

/-- `L2CAP_EVENT_CAN_SEND_NOW`. An answer that is due takes any slot; a request of the
firmware then stays pending and is made again on the control channel. -/
def canSendNow (cid : UInt16) (d : HidDevice) : HidDevice × Option HidEvent × Bool :=
  if ¬ d.Owns cid then (d, none, false)
  else if d.state ≠ .idle then ({ d with state := .idle }, none, d.userRequestCanSendNow)
  else if d.userRequestCanSendNow = true then
    ({ d with userRequestCanSendNow := false }, some .canSendNow, false)
  else (d, none, false)

/-- The device and the L2CAP channel it asks for a slot; the request is dropped without a
word when there is no interrupt channel. -/
def hidDeviceRequestCanSendNowEvent (hidCid : UInt16) (d : HidDevice) :
    HidDevice × Option UInt16 :=
  if d.cid ≠ hidCid ∨ d.interruptCid = 0 then (d, none)
  else ({ d with userRequestCanSendNow := true }, some d.interruptCid)

/-- Whether the message is sent, when L2CAP would say `ok`. A slot is passed on with the
request cleared, so nothing is asked for again here. -/
def hidDeviceSendInterruptMessage (hidCid : UInt16) (ok : Bool) (d : HidDevice) : Bool :=
  if d.cid ≠ hidCid ∨ d.interruptCid = 0 then false else ok

/-! ## Data packets -/

/-- What `btstack_hid_parser.c` reads of the report descriptor: are there report ids, does
it parse when an id is looked up, and the size of a report by its id and type. -/
structure Descriptor where
  reportIdDeclared : Bool
  reportIdValid : UInt8 → Bool
  reportSizeForId : UInt8 → UInt8 → Nat

/-- `hid_descriptor` of the firmware, read by that parser. -/
def switchDescriptor : Descriptor where
  reportIdDeclared := true
  reportIdValid _ := true
  reportSizeForId reportId reportType :=
    if reportType = 1 then
      if reportId = 0x21 ∨ reportId = 0x30 then 48
      else if reportId = 0x31 then 361
      else if reportId = 0x3f then 11
      else 0
    else if reportType = 2 ∧ (reportId = 0x01 ∨ reportId = 0x10 ∨ reportId = 0x11) then 48
    else 0

def hidReportSizeValid (descriptor : Descriptor) (reportId reportType : UInt8)
    (reportSize : Nat) : Bool :=
  reportSize ≠ 0 && descriptor.reportSizeForId reportId reportType ≠ 0 &&
    reportSize ≤ descriptor.reportSizeForId reportId reportType

def hidDeviceSetReportCmdIsValid (descriptor : Descriptor) (reportType : UInt8) :
    Bytes → Bool
  | [] => false
  | reportId :: report =>
      if descriptor.reportIdDeclared then
        descriptor.reportIdValid reportId &&
          hidReportSizeValid descriptor reportId reportType report.length
      else hidReportSizeValid descriptor 0 reportType (report.length + 1)

/-- `HID_MESSAGE_TYPE_DATA`, which is never answered. -/
def dataReport (descriptor : Descriptor) (reportType : UInt8) : Bytes → Option Event
  | [] => none
  | first :: rest =>
      let (reportId, report) :=
        if descriptor.reportIdDeclared then (first, rest) else (0, first :: rest)
      if descriptor.reportIdValid reportId &&
          hidReportSizeValid descriptor reportId reportType report.length then
        some (.reportData reportId.toUInt16 report)
      else none

/-- `L2CAP_DATA_PACKET` on a channel of the device: the callback it makes, and whether a
slot is then asked for on the control channel. Suspending, resuming and unplugging only
emit events that the firmware ignores. -/
def dataPacket (descriptor : Descriptor) (packet : Bytes) (d : HidDevice) :
    HidDevice × Option Event × Bool :=
  match packet with
  | [] => (d, none, false)
  | header :: body =>
      match (header >>> 4).toNat with
      | 4 => ({ d with state := .w2GetReport }, none, true)
      | 5 =>
          let valid := hidDeviceSetReportCmdIsValid descriptor (header &&& 0x03) body
          ({ d with state := .w2SetReport }, if valid then some (.setReport body) else none, true)
      -- A malformed message leaves its answer to the next slot, whoever asks for one.
      | 6 => ({ d with state := .w2GetProtocol }, none, body.isEmpty)
      | 7 => ({ d with state := .w2SetProtocol }, none, body.isEmpty && header &&& 0x01 = 1)
      | 1 =>
          if header &&& 0x0f = 3 ∨ header &&& 0x0f = 4 ∨ header &&& 0x0f = 5 then (d, none, false)
          else ({ d with state := .w2SendUnsupportedRequest }, none, true)
      | 10 => (d, dataReport descriptor (header &&& 0x03) body, false)
      | _ => ({ d with state := .w2SendUnsupportedRequest }, none, true)

/-! ## The stack -/

structure Stack where
  l2cap : L2cap
  device : HidDevice
  firmware : Firmware

def Stack.boot : Stack where
  l2cap := fun _ => none
  device := HidDevice.boot
  firmware := Firmware.boot

inductive LinkEvent
  | incoming (psm : Psm) (handle cid : UInt16)
  | channelOpened (status : UInt8) (handle cid : UInt16) (created : Option UInt16)
  | channelClosed (cid : UInt16)
  /-- A send slot for a channel, and whether L2CAP takes the message sent in it. -/
  | canSendNow (cid : UInt16) (ok : Bool)
  | dataPacket (cid : UInt16) (packet : Bytes)
  | inputTimer
  | pcTimer (lines : List (Bytes × Int)) (now : Int)

def Stack.request (cid : UInt16) (s : Stack) : Stack :=
  let (device, channel) := hidDeviceRequestCanSendNowEvent cid s.device
  match channel with
  | none => { s with device }
  | some channel => { s with device, l2cap := l2capRequestCanSendNowEvent channel s.l2cap }

def Stack.requestControl (s : Stack) : Stack :=
  { s with l2cap := l2capRequestCanSendNowEvent s.device.controlCid s.l2cap }

def requests (log : List Action) : List UInt16 :=
  log.filterMap fun
    | .request cid => some cid
    | _ => none

/-- An event of the firmware, and then the requests it made. -/
def Stack.firmwareStep (p : Platform) (parse : Bytes → Option CJson) (e : Event) (s : Stack) :
    Option (Stack × List Action) :=
  (Transport.step p parse e s.firmware).map fun r =>
    ((requests r.2).foldl (fun s cid => s.request cid) { s with firmware := r.1 }, r.2)

def Stack.hidEvent (s : Stack) (ok : Bool) : HidEvent → Event
  | .connectionOpened cid status => .opened status cid
  | .connectionClosed => .closed
  | .canSendNow => .canSendNow (hidDeviceSendInterruptMessage s.firmware.hidCid ok s.device)

/-- The firmware's packet handler on what the device emitted. -/
def Stack.notify (p : Platform) (parse : Bytes → Option CJson) (ok : Bool)
    (event : Option HidEvent) (s : Stack) : Option (Stack × List Action) :=
  match event with
  | none => some (s, [])
  | some event => s.firmwareStep p parse (s.hidEvent ok event)

def Stack.incoming (psm : Psm) (handle cid : UInt16) (s : Stack) : Stack :=
  let (accepted, device) := incomingConnection psm handle cid s.device
  { s with device, l2cap := if accepted then s.l2cap.add cid psm else s.l2cap }

def Stack.openedChannels (status : UInt8) (cid : UInt16) (ch : Channel)
    (created : Option UInt16) (s : Stack) : L2cap :=
  let l : L2cap :=
    if status ≠ 0 then s.l2cap.remove cid
    else Function.update s.l2cap cid (some { ch with opened := true })
  match created with
  | some new => if s.device.Connects status ch.psm cid then l.add new .interrupt else l
  | none => l

def Stack.callback (p : Platform) (parse : Bytes → Option CJson) (event : Option Event)
    (s : Stack) : Option (Stack × List Action) :=
  match event with
  | none => some (s, [])
  | some event => s.firmwareStep p parse event

/-- Events L2CAP cannot emit in a state, such as a slot for a channel that does not wait,
change nothing. A slot that opens while it is being asked for is an event of its own. -/
def Stack.step (p : Platform) (parse : Bytes → Option CJson) (descriptor : Descriptor) :
    LinkEvent → Stack → Option (Stack × List Action)
  | .incoming psm handle cid, s =>
      if s.l2cap.Fresh cid then some (s.incoming psm handle cid, []) else some (s, [])
  | .channelOpened status handle cid created, s =>
      match s.l2cap cid with
      | none => some (s, [])
      | some ch =>
          if ch.opened = true ∨ created.any (fun new => ¬ s.l2cap.Fresh new) then some (s, [])
          else
            let (device, event) :=
              Transport.channelOpened status ch.psm handle cid created s.device
            { s with device, l2cap := s.openedChannels status cid ch created }.notify
              p parse true event
  | .channelClosed cid, s =>
      if s.l2cap cid = none then some (s, [])
      else
        let (device, event) := Transport.channelClosed cid s.device
        { s with device, l2cap := s.l2cap.remove cid }.notify p parse true event
  | .canSendNow cid ok, s =>
      match s.l2cap cid with
      | none => some (s, [])
      | some ch =>
          if ch.opened = false ∨ ch.waitingForCanSendNow = false then some (s, [])
          else
            let (device, event, again) := Transport.canSendNow cid s.device
            let l2cap :=
              Function.update s.l2cap cid (some { ch with waitingForCanSendNow := false })
            let s : Stack := { s with device, l2cap }
            (if again then s.requestControl else s).notify p parse ok event
  | .dataPacket cid packet, s =>
      match s.l2cap cid with
      | none => some (s, [])
      | some ch =>
          if ch.opened = false ∨ ¬ s.device.Owns cid then some (s, [])
          else
            let (device, event, answer) := Transport.dataPacket descriptor packet s.device
            let s : Stack := { s with device }
            (s.callback p parse event).map fun r =>
              (if answer then r.1.requestControl else r.1, r.2)
  | .inputTimer, s => s.firmwareStep p parse .inputTimer
  | .pcTimer lines now, s => s.firmwareStep p parse (.pcTimer lines now)

def stack (p : Platform) (parse : Bytes → Option CJson) (descriptor : Descriptor) :
    Transition.System Stack LinkEvent Action where
  init := Stack.boot
  step := Stack.step p parse descriptor

end SwitchController.Transport
