import SwitchController.Device.Report
import SwitchController.Nfc.Mcu

/-! # Device state

The statics the console side, the PC side and the MCU share, as one record, and
the log of what the device does: calls into the MCU, replies handed to the
transport, answers printed to the PC and changes of the controller state.
-/

namespace SwitchController.Device

open Memory Nfc

inductive StreamMode
  | none
  | x3F
  | x30
  | x31
deriving DecidableEq, Repr

structure Core where
  ctrl : ControllerState
  virtualGrip : Bool
  nfc : Mcu
  -- switch_proto.c
  streamMode : StreamMode
  timer : UInt8
  streamEnabled : Bool
  -- pc_control.c
  linked : Bool
  lastState : Int
  tagLoaded : Bool
  tagCrc : UInt32

/-- After `app_main` initialised the controller state. -/
def Core.boot : Core where
  ctrl := controllerStateInit
  virtualGrip := false
  nfc := Mcu.boot
  streamMode := .x30
  timer := 0
  streamEnabled := false
  linked := false
  lastState := 0
  tagLoaded := false
  tagCrc := 0

structure Answer where
  id : Nat
  ok : Bool
  message : String
  connected : Bool
  loaded : Bool
  crc : UInt32
  diagnostics : Diagnostics
deriving DecidableEq, Repr

inductive Effect
  /-- A call into the MCU and the state it was made in. -/
  | nfc (op : Nfc.Op) (before : Mcu)
  | reply (subcmdId : UInt8) (payload report : Bytes)
  | answer (a : Answer)
  | applied (state : ControllerState) (time : Int)
  | released

/-- What the firmware takes from outside: the Bluetooth address and the flash image. -/
structure Platform where
  mac : Bytes
  mac_length : mac.length = 6
  spiFlashRead : UInt32 → UInt8 → Bytes

def blankPlatform : Platform where
  mac := zeros 6
  mac_length := rfl
  spiFlashRead := fun _ len => List.replicate len.toNat 0xff

end SwitchController.Device
