import SwitchController.Device.Report

/-! # What a report says is pressed

The console reads the controls off the full header with the masks of
`controller_state.h`, and off a simple report by bit number, hat value and
16-bit axes. Both readings give the same controls.
-/

namespace SwitchController.Device

open Memory

inductive Button
  | y | x | b | a | rSr | rSl | r | zr
  | minus | plus | stickR | stickL | home | capture
  | down | up | right | left | lSr | lSl | l | zl
deriving DecidableEq, Repr

inductive Axis
  | leftX | leftY | rightX | rightY
deriving DecidableEq, Repr

/-! ## Controls of a state -/

/-- The byte of a full header a button is in. -/
def Button.byte : Button → Nat
  | .y | .x | .b | .a | .rSr | .rSl | .r | .zr => 3
  | .minus | .plus | .stickR | .stickL | .home | .capture => 4
  | .down | .up | .right | .left | .lSr | .lSl | .l | .zl => 5

def Button.mask : Button → UInt8
  | .y => btnY
  | .x => btnX
  | .b => btnB
  | .a => btnA
  | .rSr => btnRSr
  | .rSl => btnRSl
  | .r => btnR
  | .zr => btnZR
  | .minus => btnMinus
  | .plus => btnPlus
  | .stickR => btnStickR
  | .stickL => btnStickL
  | .home => btnHome
  | .capture => btnCapture
  | .down => btnDown
  | .up => btnUp
  | .right => btnRight
  | .left => btnLeft
  | .lSr => btnLSr
  | .lSl => btnLSl
  | .l => btnL
  | .zl => btnZL

def ControllerState.buttonByte (state : ControllerState) (i : Nat) : UInt8 :=
  if i = 3 then state.rightButtons else if i = 4 then state.sharedButtons else state.leftButtons

def ControllerState.pressed (state : ControllerState) (btn : Button) : Bool :=
  state.buttonByte btn.byte &&& btn.mask ≠ 0

def ControllerState.axis (state : ControllerState) : Axis → UInt16
  | .leftX => state.leftStickX
  | .leftY => state.leftStickY
  | .rightX => state.rightStickX
  | .rightY => state.rightStickY

/-- The virtual grip holds both shoulder buttons down. -/
def gripped (grip : Bool) (btn : Button) : Bool := grip && (btn = .l || btn = .r)

/-! ## Full header -/

def fullPressed (report : Bytes) (btn : Button) : Bool :=
  report.getD btn.byte 0 &&& btn.mask ≠ 0

/-- The low and the high axis of three packed bytes. -/
def unpackX (b0 b1 : UInt8) : Nat := b0.toNat + 256 * (b1.toNat % 16)
def unpackY (b1 b2 : UInt8) : Nat := b1.toNat / 16 + 16 * b2.toNat

def fullAxis (report : Bytes) : Axis → Nat
  | .leftX => unpackX (report.getD 6 0) (report.getD 7 0)
  | .leftY => unpackY (report.getD 7 0) (report.getD 8 0)
  | .rightX => unpackX (report.getD 9 0) (report.getD 10 0)
  | .rightY => unpackY (report.getD 10 0) (report.getD 11 0)

theorem low12_toNat (v : UInt16) : (v &&& 0x0fff).toNat = v.toNat % 4096 := by
  have hmask : (0x0fff : UInt16).toNat = 2 ^ 12 - 1 := rfl
  rw [UInt16.toNat_and, hmask, Nat.and_two_pow_sub_one_eq_mod]

/-- Packing two 12-bit axes into three bytes loses nothing. -/
theorem packStick_eq (x y : UInt16) :
    ∃ b0 b1 b2, packStick x y = [b0, b1, b2] ∧
      unpackX b0 b1 = x.toNat % 4096 ∧ unpackY b1 b2 = y.toNat % 4096 := by
  have hx := low12_toNat x
  have hy := low12_toNat y
  generalize hx' : x &&& 0x0fff = x' at hx
  generalize hy' : y &&& 0x0fff = y' at hy
  have hlow : (x' &&& 0xff).toUInt8.toNat = x'.toNat % 256 := by
    have hmask : (0xff : UInt16).toNat = 2 ^ 8 - 1 := rfl
    rw [UInt16.toNat_toUInt8, UInt16.toNat_and, hmask, Nat.and_two_pow_sub_one_eq_mod]
    omega
  have hmid : ((x' >>> 8) ||| ((y' &&& 0x0f) <<< 4)).toUInt8.toNat =
      x'.toNat / 256 + 16 * (y'.toNat % 16) := by
    have hmask : (0x0f : UInt16).toNat = 2 ^ 4 - 1 := rfl
    have hhigh : (x' >>> 8).toNat = x'.toNat / 256 := by
      rw [UInt16.toNat_shiftRight]
      exact Nat.shiftRight_eq_div_pow _ 8
    have hnibble : ((y' &&& 0x0f) <<< 4).toNat = (y'.toNat % 16) <<< 4 := by
      rw [UInt16.toNat_shiftLeft, UInt16.toNat_and, hmask, Nat.and_two_pow_sub_one_eq_mod]
      show (y'.toNat % 16) <<< 4 % 65536 = _
      rw [Nat.shiftLeft_eq]
      omega
    rw [UInt16.toNat_toUInt8, UInt16.toNat_or, hhigh, hnibble, Nat.or_comm,
      ← Nat.shiftLeft_add_eq_or_of_lt (by omega), Nat.shiftLeft_eq]
    omega
  have htop : (y' >>> 4).toUInt8.toNat = y'.toNat / 16 := by
    have hshift : (y' >>> 4).toNat = y'.toNat / 16 := by
      rw [UInt16.toNat_shiftRight]
      exact Nat.shiftRight_eq_div_pow _ 4
    rw [UInt16.toNat_toUInt8, hshift]
    omega
  refine ⟨(x' &&& 0xff).toUInt8, ((x' >>> 8) ||| ((y' &&& 0x0f) <<< 4)).toUInt8,
    (y' >>> 4).toUInt8, ?_, ?_, ?_⟩
  · simp only [packStick, hx', hy']
  · unfold unpackX
    rw [hlow, hmid]
    omega
  · unfold unpackY
    rw [hmid, htop]
    omega

/-- Reading the axes back from a full header. -/
theorem header_axis (reportId timer : UInt8) (state : ControllerState) (grip : Bool)
    (rest : Bytes) (ax : Axis) :
    fullAxis (headerBytes reportId timer state grip ++ rest) ax =
      (state.axis ax).toNat % 4096 := by
  rcases packStick_eq state.leftStickX state.leftStickY with ⟨l0, l1, l2, hl, hlx, hly⟩
  rcases packStick_eq state.rightStickX state.rightStickY with ⟨r0, r1, r2, hr, hrx, hry⟩
  unfold headerBytes
  rw [hl, hr]
  cases ax with
  | leftX => exact hlx
  | leftY => exact hly
  | rightX => exact hrx
  | rightY => exact hry

theorem or_and_mask (v m n : UInt8) : (v ||| m) &&& n = (v &&& n) ||| (m &&& n) := by
  apply UInt8.toNat_inj.mp
  simp only [UInt8.toNat_and, UInt8.toNat_or, Nat.and_or_distrib_right]

/-- Reading the buttons back from a full header. -/
theorem header_pressed (reportId timer : UInt8) (state : ControllerState) (grip : Bool)
    (rest : Bytes) (btn : Button) :
    fullPressed (headerBytes reportId timer state grip ++ rest) btn =
      (state.pressed btn || gripped grip btn) := by
  have hheld (v m : UInt8) (hm : m ≠ 0) : (v ||| m) &&& m ≠ 0 := by
    intro hzero
    rw [or_and_mask, UInt8.and_self, UInt8.or_eq_zero_iff] at hzero
    exact hm hzero.2
  have hother (v m n : UInt8) (hm : m &&& n = 0) : (v ||| m) &&& n = v &&& n := by
    rw [or_and_mask, hm, UInt8.or_zero]
  cases grip with
  | false =>
      cases btn <;>
        simp [fullPressed, headerBytes, ControllerState.pressed, ControllerState.buttonByte,
          Button.byte, Button.mask, gripped]
  | true =>
      have hR := hheld state.rightButtons btnR (by decide)
      have hL := hheld state.leftButtons btnL (by decide)
      cases btn <;>
        simp [fullPressed, headerBytes, ControllerState.pressed, ControllerState.buttonByte,
          Button.byte, Button.mask, gripped, hR, hL] <;>
        rw [hother _ _ _ (by decide)]

/-! ## Simple report -/

/-- The bit of a simple report's button word, for the buttons that have one. -/
def simpleBit : Button → Option Nat
  | .y => some 0
  | .b => some 1
  | .a => some 2
  | .x => some 3
  | .l => some 4
  | .r => some 5
  | .zl => some 6
  | .zr => some 7
  | .minus => some 8
  | .plus => some 9
  | .stickL => some 10
  | .stickR => some 11
  | .home => some 12
  | .capture => some 13
  | .down | .up | .right | .left | .rSr | .rSl | .lSr | .lSl => none

/-- A little-endian word of a report. -/
def word (report : Bytes) (i : Nat) : Nat :=
  (report.getD i 0).toNat + 256 * (report.getD (i + 1) 0).toNat

def simplePressed (report : Bytes) (bit : Nat) : Bool := (word report 1).testBit bit

def simpleHat (report : Bytes) : UInt8 := report.getD 3 0

def simpleValue (report : Bytes) : Axis → Nat
  | .leftX => word report 4
  | .leftY => word report 6
  | .rightX => word report 8
  | .rightY => word report 10

/-- The eight directions clockwise from up; 8 when opposite keys leave none. -/
def direction (up right down left : Bool) : UInt8 :=
  match up && !down, right && !left, down && !up, left && !right with
  | true, false, _, false => 0
  | true, true, _, _ => 1
  | false, true, false, _ => 2
  | false, true, true, _ => 3
  | false, false, true, false => 4
  | false, false, true, true => 5
  | false, false, false, true => 6
  | true, false, _, true => 7
  | false, false, false, false => 8

theorem direction_neutral (up right down left : Bool) :
    direction up right down left = 8 ↔ up = down ∧ right = left := by
  cases up <;> cases right <;> cases down <;> cases left <;> decide

theorem split_word (v : UInt16) :
    (v &&& 0xff).toUInt8.toNat + 256 * (v >>> 8).toUInt8.toNat = v.toNat := by
  have hmask : (0xff : UInt16).toNat = 2 ^ 8 - 1 := rfl
  have hlow : (v &&& 0xff).toUInt8.toNat = v.toNat % 256 := by
    rw [UInt16.toNat_toUInt8, UInt16.toNat_and, hmask, Nat.and_two_pow_sub_one_eq_mod]
    omega
  have hhigh : (v >>> 8).toNat = v.toNat / 256 := by
    rw [UInt16.toNat_shiftRight]
    exact Nat.shiftRight_eq_div_pow _ 8
  have hlt := UInt16.toNat_lt v
  rw [hlow, UInt16.toNat_toUInt8, hhigh]
  omega

theorem testBit_place (held : Bool) (n : UInt16) (hn : n.toNat < 16) (bit : Nat) :
    (if held then (1 : UInt16) <<< n else 0).toNat.testBit bit = (held && n.toNat == bit) := by
  cases held with
  | false => simp
  | true =>
      have hone : ((1 : UInt16) <<< n).toNat = 2 ^ n.toNat := by
        rw [UInt16.toNat_shiftLeft, Nat.mod_eq_of_lt hn]
        have hpow : 2 ^ n.toNat < 2 ^ 16 := Nat.pow_lt_pow_right (by decide) hn
        rw [show (1 : UInt16).toNat = 1 from rfl, Nat.shiftLeft_eq, Nat.one_mul]
        exact Nat.mod_eq_of_lt hpow
      rw [if_pos rfl, hone, Nat.testBit_two_pow]
      simp [beq_eq_decide]

/-- Reading the buttons back from a simple report. -/
theorem simple_pressed (state : ControllerState) (grip : Bool) {btn : Button} {bit : Nat}
    (h : simpleBit btn = some bit) :
    simplePressed (inputReportBuild0x3F state grip) bit =
      (state.pressed btn || gripped grip btn) := by
  have hword : word (inputReportBuild0x3F state grip) 1 = (simpleButtons state grip).toNat :=
    split_word (simpleButtons state grip)
  unfold simplePressed
  rw [hword]
  simp (disch := decide) only [simpleButtons, UInt16.toNat_or, Nat.testBit_or, testBit_place]
  cases btn <;> cases h <;>
    simp [ControllerState.pressed, ControllerState.buttonByte, Button.byte, Button.mask, gripped,
      Bool.or_comm]

theorem hatSwitch_eq (left : UInt8) :
    hatSwitch left =
      direction (left &&& btnUp ≠ 0) (left &&& btnRight ≠ 0) (left &&& btnDown ≠ 0)
        (left &&& btnLeft ≠ 0) := by
  unfold hatSwitch
  by_cases hu : left &&& btnUp = 0 <;> by_cases hr : left &&& btnRight = 0 <;>
    by_cases hd : left &&& btnDown = 0 <;> by_cases hl : left &&& btnLeft = 0 <;>
    simp [direction, hu, hr, hd, hl]

/-- The hat follows the four direction buttons of the state. -/
theorem simple_hat (state : ControllerState) (grip : Bool) :
    simpleHat (inputReportBuild0x3F state grip) =
      direction (state.pressed .up) (state.pressed .right) (state.pressed .down)
        (state.pressed .left) :=
  hatSwitch_eq state.leftButtons

/-- Reading the axes back from a simple report. -/
theorem simple_value (state : ControllerState) (grip : Bool) (ax : Axis) :
    simpleValue (inputReportBuild0x3F state grip) ax = 16 * ((state.axis ax).toNat % 4096) := by
  have haxis (v : UInt16) : ((v &&& 0x0fff) <<< 4).toUInt8.toNat +
      256 * (((v &&& 0x0fff) <<< 4) >>> 8).toUInt8.toNat = 16 * (v.toNat % 4096) := by
    have hlow := low12_toNat v
    have hshift : ((v &&& 0x0fff) <<< 4).toNat = 16 * (v.toNat % 4096) := by
      rw [UInt16.toNat_shiftLeft, hlow]
      show (v.toNat % 4096) <<< 4 % 65536 = _
      rw [Nat.shiftLeft_eq]
      omega
    have hhigh : (((v &&& 0x0fff) <<< 4) >>> 8).toNat = 16 * (v.toNat % 4096) / 256 := by
      rw [UInt16.toNat_shiftRight, hshift]
      exact Nat.shiftRight_eq_div_pow _ 8
    rw [UInt16.toNat_toUInt8, UInt16.toNat_toUInt8, hhigh, hshift]
    omega
  cases ax with
  | leftX => exact haxis state.leftStickX
  | leftY => exact haxis state.leftStickY
  | rightX => exact haxis state.rightStickX
  | rightY => exact haxis state.rightStickY

/-! ## Agreement -/

theorem fillHeader_eq (buf : Bytes) (reportId timer : UInt8) (state : ControllerState)
    (grip : Bool) :
    inputReportFillHeader buf reportId timer state grip =
      headerBytes reportId timer state grip ++ buf.drop 13 := by
  simp [inputReportFillHeader, memcpy]

/-- The two reports describe the same controls of a state. -/
structure SameControls (state : ControllerState) (grip : Bool) (full simple : Bytes) : Prop where
  buttons : ∀ btn bit, simpleBit btn = some bit →
    simplePressed simple bit = fullPressed full btn
  held : ∀ btn, fullPressed full btn = (state.pressed btn || gripped grip btn)
  hat : simpleHat simple =
    direction (fullPressed full .up) (fullPressed full .right) (fullPressed full .down)
      (fullPressed full .left)
  neutral : simpleHat simple = 8 ↔
    fullPressed full .up = fullPressed full .down ∧
      fullPressed full .right = fullPressed full .left
  axes : ∀ ax, simpleValue simple ax = 16 * fullAxis full ax
  sticks : ∀ ax, fullAxis full ax = (state.axis ax).toNat % 4096

/-- The simple and the full encoding of every state agree. -/
theorem encodings_agree (buf : Bytes) (reportId timer : UInt8) (state : ControllerState)
    (grip : Bool) :
    SameControls state grip (inputReportFillHeader buf reportId timer state grip)
      (inputReportBuild0x3F state grip) := by
  rw [fillHeader_eq]
  have hheld := header_pressed reportId timer state grip (buf.drop 13)
  have hplain (btn : Button) (h : gripped grip btn = false) :
      fullPressed (headerBytes reportId timer state grip ++ buf.drop 13) btn =
        state.pressed btn := by
    rw [hheld, h, Bool.or_false]
  have hhat := simple_hat state grip
  rw [← hplain .up (by simp [gripped]), ← hplain .right (by simp [gripped]),
    ← hplain .down (by simp [gripped]), ← hplain .left (by simp [gripped])] at hhat
  constructor
  case buttons =>
      intro btn bit hbit
      rw [simple_pressed state grip hbit, hheld]
  case held => exact hheld
  case hat => exact hhat
  case neutral =>
      rw [hhat]
      exact direction_neutral _ _ _ _
  case axes =>
      intro ax
      rw [simple_value, header_axis]
  case sticks =>
      intro ax
      exact header_axis reportId timer state grip (buf.drop 13) ax

end SwitchController.Device
