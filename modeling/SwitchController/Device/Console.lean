import SwitchController.Device.State
import SwitchController.Nfc.Refinement

/-! # Console protocol

`switch_proto.c`: output reports of the console are dispatched to one handler
per subcommand, and most handlers answer with one report. Reading an argument
byte that was not received is the value `none`.
-/

namespace SwitchController.Device

open Memory Nfc

/-! ## Replies -/

/-- `payload` is the handler's buffer, of which `payloadLen` bytes are sent. -/
def sendSubcmdReply (subcmdId : UInt8) (payload : Bytes) (payloadLen : Nat) (c : Core) :
    Core × List Effect :=
  let report := inputReportBuild0x21 c.timer c.ctrl c.virtualGrip subcmdId payload payloadLen
  ({ c with timer := c.timer + 1 }, [.reply subcmdId (payload.take payloadLen) report])

def sendGenericAck (subcmdId : UInt8) (c : Core) : Core × List Effect :=
  sendSubcmdReply subcmdId [0x03] 1 c

/-! ## Handlers -/

def handleSubcmd01Pairing (c : Core) : Core × List Effect := sendGenericAck 0x01 c

def handleSubcmd02DeviceInfo (p : Platform) (c : Core) : Core × List Effect :=
  sendSubcmdReply 0x02 ([0x03, 0x48, 0x03, 0x02] ++ p.mac ++ [0x01, 0x01]) 12 c

def handleSubcmd03SetMode (modeArg : UInt8) (c : Core) : Core × List Effect :=
  let c :=
    match modeArg with
    | 0x30 => { c with streamMode := .x30, streamEnabled := true }
    | 0x31 => { c with streamMode := .x31, streamEnabled := true }
    | 0x3f => { c with streamMode := .x3F, streamEnabled := true }
    | _ => c
  sendSubcmdReply 0x03 [0x03] 1 c

def handleSubcmd04TriggerElapsed (c : Core) : Core × List Effect :=
  sendSubcmdReply 0x04 (zeros 14) 14 c

def handleSubcmd05PageList (c : Core) : Core × List Effect := sendSubcmdReply 0x05 [0x01] 1 c

def handleSubcmd08Shipment (c : Core) : Core × List Effect := sendSubcmdReply 0x08 [] 0 c

/-- The longest read the protocol allows. -/
def spiReadMax : UInt8 := 0x1d

def handleSubcmd10SpiRead (p : Platform) (args : Bytes) (c : Core) :
    Option (Core × List Effect) := do
  let a0 ← args[0]?
  let a1 ← args[1]?
  let a2 ← args[2]?
  let a3 ← args[3]?
  let a4 ← args[4]?
  let addr := a0.toUInt32 ||| (a1.toUInt32 <<< 8) ||| (a2.toUInt32 <<< 16) ||| (a3.toUInt32 <<< 24)
  let len := if a4 > spiReadMax then spiReadMax else a4
  let payload : Bytes := List.replicate (5 + spiReadMax.toNat) 0xff
  let payload := memcpy payload 0 [a0, a1, a2, a3, len]
  let payload := memcpy payload 5 ((p.spiFlashRead addr len).take len.toNat)
  some (sendSubcmdReply 0x10 payload (5 + len.toNat) c)

def handleSubcmd21McuConfig (args : Bytes) (c : Core) : Option (Core × List Effect) := do
  let (reply, nfc) ← nfcConfig args c.nfc
  let call := Effect.nfc (.config args) c.nfc
  match reply with
  | none => some ({ c with nfc }, [call])
  | some payload =>
      let (c, sent) := sendSubcmdReply 0x21 payload payload.length { c with nfc }
      some (c, call :: sent)

def handleSubcmd22McuState (args : Bytes) (c : Core) : Option (Core × List Effect) :=
  if args.length = 0 then some (c, [])
  else do
    let value ← args[0]?
    let (ok, nfc) := nfcPower value c.nfc
    let call := Effect.nfc (.power value) c.nfc
    if ok then
      let (c, sent) := sendSubcmdReply 0x22 [] 0 { c with nfc }
      some (c, call :: sent)
    else some ({ c with nfc }, [call])

def handleSubcmd30PlayerLights (c : Core) : Core × List Effect := sendSubcmdReply 0x30 [] 0 c
def handleSubcmd31PlayerLights (c : Core) : Core × List Effect := sendSubcmdReply 0x31 [0x00] 1 c
def handleSubcmd38HomeLight (c : Core) : Core × List Effect := sendSubcmdReply 0x38 [] 0 c
def handleSubcmd40Imu (c : Core) : Core × List Effect := sendSubcmdReply 0x40 [] 0 c
def handleSubcmd48Vibration (c : Core) : Core × List Effect := sendSubcmdReply 0x48 [] 0 c

/-! ## Dispatcher -/

/-- `args_len > 0 ? args[0] : default`. -/
def firstArg (args : Bytes) (default : UInt8) : Option UInt8 :=
  if args.length > 0 then args[0]? else some default

/-- The argument of the light and vibration handlers is read and only logged. -/
def dispatchSubcommand (p : Platform) (subcmdId : UInt8) (args : Bytes) (c : Core) :
    Option (Core × List Effect) :=
  match subcmdId with
  | 0x01 => some (handleSubcmd01Pairing c)
  | 0x02 => some (handleSubcmd02DeviceInfo p c)
  | 0x03 => (firstArg args 0x3f).map fun mode => handleSubcmd03SetMode mode c
  | 0x04 => some (handleSubcmd04TriggerElapsed c)
  | 0x05 => some (handleSubcmd05PageList c)
  | 0x06 => some (sendGenericAck 0x06 c)
  | 0x07 => some (sendGenericAck 0x07 c)
  | 0x08 => (firstArg args 0).map fun _ => handleSubcmd08Shipment c
  | 0x10 =>
      if args.length ≥ 5 then handleSubcmd10SpiRead p args c
      else some (sendGenericAck 0x10 c)
  | 0x11 => some (sendGenericAck 0x11 c)
  | 0x12 => some (sendGenericAck 0x12 c)
  | 0x20 => some (sendGenericAck 0x20 c)
  | 0x21 => handleSubcmd21McuConfig args c
  | 0x22 => handleSubcmd22McuState args c
  | 0x30 => (firstArg args 0).map fun _ => handleSubcmd30PlayerLights c
  | 0x31 => some (handleSubcmd31PlayerLights c)
  | 0x38 => some (handleSubcmd38HomeLight c)
  | 0x40 => (firstArg args 0).map fun _ => handleSubcmd40Imu c
  | 0x41 => some (sendGenericAck 0x41 c)
  | 0x42 => some (sendGenericAck 0x42 c)
  | 0x43 => some (sendGenericAck 0x43 c)
  | 0x48 => (firstArg args 0).map fun _ => handleSubcmd48Vibration c
  | id => some (sendGenericAck id c)

def switchProtoInit (c : Core) : Core × List Effect :=
  ({ c with
      nfc := nfcReset c.nfc, streamMode := .x30, timer := 0, streamEnabled := false },
    [.nfc .reset c.nfc])

def switchProtoHandleOutput (p : Platform) (data : Bytes) (c : Core) :
    Option (Core × List Effect) :=
  if data.length < 1 then some (c, [])
  else do
    let reportId ← data[0]?
    if reportId = 0x01 then
      if data.length < 11 then some (c, [])
      else do
        let subcmdId ← data[10]?
        dispatchSubcommand p subcmdId (data.drop 11) c
    else if reportId = 0x10 then some (c, [])
    else if reportId = 0x11 then do
      let (_, nfc) ← nfcCommand data c.nfc
      some ({ c with nfc }, [.nfc (.command data) c.nfc])
    else some (c, [])

def switchProtoNextTimer (c : Core) : UInt8 × Core :=
  (c.timer, { c with timer := c.timer + 1 })

end SwitchController.Device
