import SwitchController.Lib.Memory

/-! # Controller state and input reports

The state of the emulated buttons and sticks, and the reports `input_report.c`
builds from it. A builder fills the caller's buffer; here it returns the filled
buffer. The virtual grip flag of the module is passed in.
-/

namespace SwitchController.Device

open Memory

structure ControllerState where
  rightButtons : UInt8
  sharedButtons : UInt8
  leftButtons : UInt8
  leftStickX : UInt16
  leftStickY : UInt16
  rightStickX : UInt16
  rightStickY : UInt16
deriving DecidableEq, Repr

/-- No buttons, sticks centred. -/
def controllerStateInit : ControllerState where
  rightButtons := 0
  sharedButtons := 0
  leftButtons := 0
  leftStickX := 0x800
  leftStickY := 0x800
  rightStickX := 0x800
  rightStickY := 0x800

/-! ## Button masks -/

def btnY : UInt8 := 0x01
def btnX : UInt8 := 0x02
def btnB : UInt8 := 0x04
def btnA : UInt8 := 0x08
def btnRSr : UInt8 := 0x10
def btnRSl : UInt8 := 0x20
def btnR : UInt8 := 0x40
def btnZR : UInt8 := 0x80

def btnMinus : UInt8 := 0x01
def btnPlus : UInt8 := 0x02
def btnStickR : UInt8 := 0x04
def btnStickL : UInt8 := 0x08
def btnHome : UInt8 := 0x10
def btnCapture : UInt8 := 0x20

def btnDown : UInt8 := 0x01
def btnUp : UInt8 := 0x02
def btnRight : UInt8 := 0x04
def btnLeft : UInt8 := 0x08
def btnLSr : UInt8 := 0x10
def btnLSl : UInt8 := 0x20
def btnL : UInt8 := 0x40
def btnZL : UInt8 := 0x80

/-! ## Reports -/

def inputReportSize : Nat := 49
def inputReport0x31Size : Nat := 362

def getSubcmdAck (subcmdId : UInt8) : UInt8 :=
  match subcmdId with
  | 0x02 => 0x82
  | 0x04 => 0x83
  | 0x10 => 0x90
  | 0x20 | 0x21 => 0xa0
  | _ => 0x80

def packStick (x y : UInt16) : Bytes :=
  let x := x &&& 0x0fff
  let y := y &&& 0x0fff
  [(x &&& 0xff).toUInt8, ((x >>> 8) ||| ((y &&& 0x0f) <<< 4)).toUInt8, (y >>> 4).toUInt8]

/-- The thirteen bytes every full report starts with. -/
def headerBytes (reportId timer : UInt8) (state : ControllerState) (grip : Bool) : Bytes :=
  [reportId, timer, 0x8e,
    state.rightButtons ||| (if grip then btnR else 0),
    state.sharedButtons,
    state.leftButtons ||| (if grip then btnL else 0)] ++
  packStick state.leftStickX state.leftStickY ++
  packStick state.rightStickX state.rightStickY ++ [0]

def inputReportFillHeader (buf : Bytes) (reportId timer : UInt8) (state : ControllerState)
    (grip : Bool) : Bytes :=
  memcpy buf 0 (headerBytes reportId timer state grip)

def fillImuFrameNeutral (buf : Bytes) (offset : Nat) : Bytes :=
  memcpy buf offset [0, 0, 0, 0, 0x00, 0x10, 0, 0, 0, 0, 0, 0]

/-- The sixteen button bits of a simple report. -/
def simpleButtons (state : ControllerState) (grip : Bool) : UInt16 :=
  let bit (pressed : Bool) (n : UInt16) : UInt16 := if pressed then 1 <<< n else 0
  bit (state.rightButtons &&& btnY ≠ 0) 0 |||
  bit (state.rightButtons &&& btnB ≠ 0) 1 |||
  bit (state.rightButtons &&& btnA ≠ 0) 2 |||
  bit (state.rightButtons &&& btnX ≠ 0) 3 |||
  bit (grip || state.leftButtons &&& btnL ≠ 0) 4 |||
  bit (grip || state.rightButtons &&& btnR ≠ 0) 5 |||
  bit (state.leftButtons &&& btnZL ≠ 0) 6 |||
  bit (state.rightButtons &&& btnZR ≠ 0) 7 |||
  bit (state.sharedButtons &&& btnMinus ≠ 0) 8 |||
  bit (state.sharedButtons &&& btnPlus ≠ 0) 9 |||
  bit (state.sharedButtons &&& btnStickL ≠ 0) 10 |||
  bit (state.sharedButtons &&& btnStickR ≠ 0) 11 |||
  bit (state.sharedButtons &&& btnHome ≠ 0) 12 |||
  bit (state.sharedButtons &&& btnCapture ≠ 0) 13

/-- The hat switch: opposite directions cancel and 8 is neutral. -/
def hatSwitch (leftButtons : UInt8) : UInt8 :=
  let axis (plus minus : UInt8) : Int :=
    (if leftButtons &&& plus ≠ 0 then 1 else 0) - (if leftButtons &&& minus ≠ 0 then 1 else 0)
  let x := axis btnRight btnLeft
  let y := axis btnDown btnUp
  if y < 0 then (if x < 0 then 7 else if x > 0 then 1 else 0)
  else if y > 0 then (if x < 0 then 5 else if x > 0 then 3 else 4)
  else (if x < 0 then 6 else if x > 0 then 2 else 8)

/-- A stick axis of a simple report, little-endian. -/
def simpleAxis (value : UInt16) : Bytes :=
  let value := (value &&& 0x0fff) <<< 4
  [value.toUInt8, (value >>> 8).toUInt8]

def inputReportBuild0x3F (state : ControllerState) (grip : Bool) : Bytes :=
  let btns := simpleButtons state grip
  [0x3f, (btns &&& 0xff).toUInt8, (btns >>> 8).toUInt8, hatSwitch state.leftButtons] ++
  simpleAxis state.leftStickX ++ simpleAxis state.leftStickY ++
  simpleAxis state.rightStickX ++ simpleAxis state.rightStickY

/-- `payload` holds at least the `payloadLen` bytes it is said to. -/
def inputReportBuild0x21 (timer : UInt8) (state : ControllerState) (grip : Bool)
    (subcmdId : UInt8) (payload : Bytes) (payloadLen : Nat) : Bytes :=
  let buf := inputReportFillHeader (zeros inputReportSize) 0x21 timer state grip
  let buf := (buf.set 13 (getSubcmdAck subcmdId)).set 14 subcmdId
  if payloadLen > 0 then
    let copyLen := if payloadLen > inputReportSize - 15 then inputReportSize - 15 else payloadLen
    memcpy buf 15 (payload.take copyLen)
  else buf

def inputReportBuild0x30 (timer : UInt8) (state : ControllerState) (grip : Bool) : Bytes :=
  let buf := inputReportFillHeader (zeros inputReportSize) 0x30 timer state grip
  fillImuFrameNeutral (fillImuFrameNeutral (fillImuFrameNeutral buf 13) 25) 37

/-! ## Layout -/

@[simp] theorem headerBytes_length (reportId timer : UInt8) (state : ControllerState)
    (grip : Bool) : (headerBytes reportId timer state grip).length = 13 := by
  simp [headerBytes, packStick]

/-- Header, acknowledge class, subcommand, payload and zeros: nothing is cut off a
payload of at most 34 bytes. -/
theorem inputReportBuild0x21_eq (timer : UInt8) (state : ControllerState) (grip : Bool)
    (subcmdId : UInt8) {payload : Bytes} {payloadLen : Nat} (hfit : payloadLen ≤ 34)
    (hlen : payloadLen ≤ payload.length) :
    inputReportBuild0x21 timer state grip subcmdId payload payloadLen =
      headerBytes 0x21 timer state grip ++ [getSubcmdAck subcmdId, subcmdId] ++
        payload.take payloadLen ++ zeros (34 - payloadLen) := by
  have hhead : ((inputReportFillHeader (zeros inputReportSize) 0x21 timer state grip).set 13
      (getSubcmdAck subcmdId)).set 14 subcmdId =
      headerBytes 0x21 timer state grip ++ [getSubcmdAck subcmdId, subcmdId] ++ zeros 34 := by
    unfold inputReportFillHeader
    rw [memcpy_zeros_start, set_zeros, set_zeros]
    · simp [inputReportSize]
    all_goals simp [inputReportSize]
  unfold inputReportBuild0x21
  simp only [hhead]
  by_cases hpos : payloadLen > 0
  · have hcap : ¬ payloadLen > inputReportSize - 15 := by
      simp only [inputReportSize]
      omega
    rw [if_pos hpos, if_neg hcap, memcpy_zeros]
    · rw [List.length_take_of_le hlen]
    · simp
  · have hzero : payloadLen = 0 := by omega
    simp [hzero]

/-- A full report keeps the header and carries three neutral frames. -/
theorem inputReportBuild0x30_eq (timer : UInt8) (state : ControllerState) (grip : Bool) :
    inputReportBuild0x30 timer state grip =
      headerBytes 0x30 timer state grip ++
        (List.replicate 3 [0, 0, 0, 0, 0x00, 0x10, 0, 0, 0, 0, 0, 0]).flatten := by
  unfold inputReportBuild0x30 fillImuFrameNeutral inputReportFillHeader
  simp only [memcpy_zeros_start]
  rw [memcpy_zeros, memcpy_zeros, memcpy_zeros]
  · simp [inputReportSize, List.replicate]
  all_goals simp

theorem inputReportBuild0x30_length (timer : UInt8) (state : ControllerState) (grip : Bool) :
    (inputReportBuild0x30 timer state grip).length = inputReportSize := by
  rw [inputReportBuild0x30_eq]
  simp [List.replicate, inputReportSize]

end SwitchController.Device
