import SwitchController.Device.Encodings
import SwitchController.Host.Protocol
import SwitchController.Transport.Headers

/-! # What is pressed is what the console sees

`BUTTONS` and `state_for` of `protocol.py`, the `state` command of the firmware and
the header of its reports. The table of the PC and the masks of the firmware name the
same bits, and from a `state` command to the next change every report of the stream and
every reply that is built decodes to the buttons and axes of that command. A reply that
had to wait still shows what was in force when it was built.
-/

namespace SwitchController.Host

open Memory Device Transport FlatJson

/-! ## The PC side -/

/-- The keys of `BUTTONS`. -/
inductive ButtonName
  | y | x | b | a | r | zr | l | zl
  | down | up | right | left
  | minus | plus | rs | ls | home | capture
deriving DecidableEq, Repr

inductive Field
  | r | s | l
deriving DecidableEq, Repr

def buttons : ButtonName → Field × Nat
  | .y => (.r, 1)
  | .x => (.r, 2)
  | .b => (.r, 4)
  | .a => (.r, 8)
  | .r => (.r, 64)
  | .zr => (.r, 128)
  | .l => (.l, 64)
  | .zl => (.l, 128)
  | .down => (.l, 1)
  | .up => (.l, 2)
  | .right => (.l, 4)
  | .left => (.l, 8)
  | .minus => (.s, 1)
  | .plus => (.s, 2)
  | .rs => (.s, 4)
  | .ls => (.s, 8)
  | .home => (.s, 16)
  | .capture => (.s, 32)

structure Axes where
  lx : Nat
  ly : Nat
  rx : Nat
  ry : Nat
deriving DecidableEq, Repr

structure Axes.InRange (axes : Axes) : Prop where
  lx : axes.lx ≤ 4095
  ly : axes.ly ≤ 4095
  rx : axes.rx ≤ 4095
  ry : axes.ry ≤ 4095

/-- The dictionary `state_for` returns. -/
structure StateDict where
  r : Nat
  s : Nat
  l : Nat
  axes : Axes

def StateDict.get (state : StateDict) : Field → Nat
  | .r => state.r
  | .s => state.s
  | .l => state.l

/-- `state[field] |= bit`. -/
def StateDict.press (state : StateDict) (name : ButtonName) : StateDict :=
  match buttons name with
  | (.r, bit) => { state with r := state.r ||| bit }
  | (.s, bit) => { state with s := state.s ||| bit }
  | (.l, bit) => { state with l := state.l ||| bit }

/-- The set is passed in the order it is iterated in. -/
def stateFor (pressed : List ButtonName) (axes : Axes) : StateDict :=
  pressed.foldl StateDict.press { r := 0, s := 0, l := 0, axes }

/-- `dict(cmd="state", **state)`. -/
def StateDict.object (state : StateDict) : Object :=
  [(ascii "cmd", .string (ascii "state")),
    (ascii "r", .number state.r), (ascii "s", .number state.s), (ascii "l", .number state.l),
    (ascii "lx", .number state.axes.lx), (ascii "ly", .number state.axes.ly),
    (ascii "rx", .number state.axes.rx), (ascii "ry", .number state.axes.ry)]

/-! ## The table and the masks -/

/-- The button of the firmware a name stands for. -/
def ButtonName.button : ButtonName → Button
  | .y => .y
  | .x => .x
  | .b => .b
  | .a => .a
  | .r => .r
  | .zr => .zr
  | .l => .l
  | .zl => .zl
  | .down => .down
  | .up => .up
  | .right => .right
  | .left => .left
  | .minus => .minus
  | .plus => .plus
  | .rs => .stickR
  | .ls => .stickL
  | .home => .home
  | .capture => .capture

def buttonField (btn : Button) : Field :=
  if btn.byte = 3 then .r else if btn.byte = 4 then .s else .l

/-- The bit of a name is in the mask of a button exactly when it stands for the button. -/
theorem buttons_mask (name : ButtonName) (btn : Button) :
    ((buttons name).1 = buttonField btn ∧ (buttons name).2 &&& btn.mask.toNat ≠ 0) ↔
      name.button = btn := by
  cases name <;> cases btn <;> decide

theorem press_get (state : StateDict) (name : ButtonName) (field : Field) :
    (state.press name).get field =
      state.get field ||| (if (buttons name).1 = field then (buttons name).2 else 0) := by
  unfold StateDict.press
  split <;> rename_i bit hbit <;> cases field <;> simp [StateDict.get, hbit]

theorem press_axes (state : StateDict) (name : ButtonName) :
    (state.press name).axes = state.axes := by
  unfold StateDict.press
  split <;> rfl

theorem foldl_press_axes (pressed : List ButtonName) (state : StateDict) :
    (pressed.foldl StateDict.press state).axes = state.axes := by
  induction pressed generalizing state with
  | nil => rfl
  | cons name pressed ih => exact (ih (state.press name)).trans (press_axes state name)

/-- Pressing is or-ing: a mask meets a field when it met it before or meets a bit pressed. -/
theorem foldl_press_and (pressed : List ButtonName) (state : StateDict) (field : Field)
    (mask : Nat) :
    (pressed.foldl StateDict.press state).get field &&& mask ≠ 0 ↔
      state.get field &&& mask ≠ 0 ∨
        ∃ name ∈ pressed, (buttons name).1 = field ∧ (buttons name).2 &&& mask ≠ 0 := by
  induction pressed generalizing state with
  | nil => simp
  | cons name pressed ih =>
      have hpress : (state.press name).get field &&& mask ≠ 0 ↔
          state.get field &&& mask ≠ 0 ∨
            ((buttons name).1 = field ∧ (buttons name).2 &&& mask ≠ 0) := by
        rw [press_get, Nat.and_or_distrib_right]
        by_cases hf : (buttons name).1 = field
        · simp only [hf, if_true, true_and, ne_eq, Nat.or_eq_zero_iff]
          tauto
        · simp [hf]
      rw [List.foldl_cons, ih, hpress]
      simp only [List.mem_cons, exists_eq_or_imp, or_assoc]

/-- The values a field can take. -/
def Field.limit : Field → Nat
  | .r => 256
  | .s => 64
  | .l => 256

theorem foldl_press_lt (pressed : List ButtonName) (state : StateDict) (field : Field)
    (h : state.get field < field.limit) :
    (pressed.foldl StateDict.press state).get field < field.limit := by
  have hlimit : ∃ n, field.limit = 2 ^ n := by
    cases field with
    | r => exact ⟨8, rfl⟩
    | s => exact ⟨6, rfl⟩
    | l => exact ⟨8, rfl⟩
  have hbit (name : ButtonName) :
      (if (buttons name).1 = field then (buttons name).2 else 0) < field.limit := by
    cases name <;> cases field <;> decide
  induction pressed generalizing state with
  | nil => exact h
  | cons name pressed ih =>
      apply ih
      rcases hlimit with ⟨n, hn⟩
      have hname := hbit name
      rw [press_get, hn]
      rw [hn] at h hname
      exact Nat.or_lt_two_pow h hname

/-! ## The state of a command -/

/-- What the firmware makes of the dictionary. -/
def StateDict.controllerState (state : StateDict) : ControllerState where
  rightButtons := .ofNat state.r
  sharedButtons := .ofNat state.s
  leftButtons := .ofNat state.l
  leftStickX := .ofNat state.axes.lx
  leftStickY := .ofNat state.axes.ly
  rightStickX := .ofNat state.axes.rx
  rightStickY := .ofNat state.axes.ry

theorem ofNat_and (v : Nat) (mask : UInt8) (h : v < 256) :
    UInt8.ofNat v &&& mask ≠ 0 ↔ v &&& mask.toNat ≠ 0 := by
  have hv : (UInt8.ofNat v).toNat = v := UInt8.toNat_ofNat_of_lt' h
  rw [ne_eq, ← UInt8.toNat_inj, UInt8.toNat_and, hv]
  rfl

theorem buttonByte_eq (state : StateDict) (btn : Button) :
    state.controllerState.buttonByte btn.byte = UInt8.ofNat (state.get (buttonField btn)) := by
  cases btn <;> rfl

/-- A button is pressed exactly when a name of the set stands for it. -/
theorem stateFor_pressed (pressed : List ButtonName) (axes : Axes) (btn : Button) :
    (stateFor pressed axes).controllerState.pressed btn = true ↔
      ∃ name ∈ pressed, name.button = btn := by
  have hzero : StateDict.get { r := 0, s := 0, l := 0, axes } (buttonField btn) = 0 := by
    cases buttonField btn <;> rfl
  have hlt : (stateFor pressed axes).get (buttonField btn) < 256 := by
    have hlimit : 0 < (buttonField btn).limit ∧ (buttonField btn).limit ≤ 256 := by
      cases buttonField btn <;> decide
    rw [← hzero] at hlimit
    exact Nat.lt_of_lt_of_le (foldl_press_lt pressed _ _ hlimit.1) hlimit.2
  have hfold := foldl_press_and pressed { r := 0, s := 0, l := 0, axes } (buttonField btn)
    btn.mask.toNat
  rw [hzero] at hfold
  unfold ControllerState.pressed
  rw [buttonByte_eq, decide_eq_true_iff, ofNat_and _ _ hlt]
  apply hfold.trans
  simp only [Nat.zero_and, ne_eq, not_true_eq_false, false_or]
  simp only [← ne_eq, buttons_mask]

def Axes.get (axes : Axes) : Axis → Nat
  | .leftX => axes.lx
  | .leftY => axes.ly
  | .rightX => axes.rx
  | .rightY => axes.ry

theorem stateFor_axis (pressed : List ButtonName) {axes : Axes} (h : axes.InRange) (ax : Axis) :
    ((stateFor pressed axes).controllerState.axis ax).toNat = axes.get ax := by
  have haxes : (stateFor pressed axes).axes = axes := foldl_press_axes pressed _
  have hnat (n : Nat) (hn : n ≤ 4095) : (UInt16.ofNat n).toNat = n :=
    UInt16.toNat_ofNat_of_lt' (show n < 65536 by omega)
  cases ax with
  | leftX =>
      show (UInt16.ofNat (stateFor pressed axes).axes.lx).toNat = axes.lx
      rw [haxes]
      exact hnat _ h.lx
  | leftY =>
      show (UInt16.ofNat (stateFor pressed axes).axes.ly).toNat = axes.ly
      rw [haxes]
      exact hnat _ h.ly
  | rightX =>
      show (UInt16.ofNat (stateFor pressed axes).axes.rx).toNat = axes.rx
      rw [haxes]
      exact hnat _ h.rx
  | rightY =>
      show (UInt16.ofNat (stateFor pressed axes).axes.ry).toNat = axes.ry
      rw [haxes]
      exact hnat _ h.ry

/-! ## Acceptance -/

theorem stateObject_plain (state : StateDict) (id : Nat) : Plain (withId state.object id) := by
  have hkey {text : Bytes} (h : text.all isPlain = true) : PlainText text := by
    intro c hc
    exact List.all_eq_true.mp h c hc
  intro m hm
  simp only [withId, StateDict.object, List.cons_append, List.nil_append, List.mem_cons,
    List.not_mem_nil, or_false] at hm
  rcases hm with rfl | rfl | rfl | rfl | rfl | rfl | rfl | rfl | rfl
  · exact ⟨hkey rfl, hkey rfl⟩
  all_goals exact ⟨hkey rfl, trivial⟩

/-- The fields of a state are within what the firmware reads. -/
structure StateDict.InRange (state : StateDict) : Prop where
  r : state.r ≤ 255
  s : state.s ≤ 63
  l : state.l ≤ 255
  axes : state.axes.InRange

theorem stateFor_inRange (pressed : List ButtonName) {axes : Axes} (h : axes.InRange) :
    (stateFor pressed axes).InRange := by
  have hlt (field : Field) : (stateFor pressed axes).get field < field.limit := by
    apply foldl_press_lt
    cases field <;> simp [StateDict.get, Field.limit]
  refine ⟨Nat.lt_succ_iff.mp (hlt .r), Nat.lt_succ_iff.mp (hlt .s), Nat.lt_succ_iff.mp (hlt .l), ?_⟩
  have haxes : (stateFor pressed axes).axes = axes := foldl_press_axes pressed _
  rw [haxes]
  exact h

theorem stateObject_numbers {state : StateDict} (h : state.InRange) {id : Nat}
    (hid : id ≤ 2147483647) (key : Bytes) (n : Nat)
    (hm : (key, .number n) ∈ withId state.object id) : n < 2 ^ 53 := by
  have haxes := h.axes
  have hbounds := And.intro h.r (And.intro h.s h.l)
  have haxis := And.intro haxes.lx (And.intro haxes.ly (And.intro haxes.rx haxes.ry))
  simp only [withId, StateDict.object, List.cons_append, List.nil_append, List.mem_cons,
    Prod.mk.injEq, reduceCtorEq, and_false, Scalar.number.injEq, List.not_mem_nil, or_false,
    false_or] at hm
  omega

theorem readState_tree {state : StateDict} (h : state.InRange) (id : Nat) :
    readState (tree (withId state.object id)) = some state.controllerState := by
  have hr : number (tree (withId state.object id)) "r" 255 = some state.r := number_nat rfl h.r
  have hs : number (tree (withId state.object id)) "s" 63 = some state.s := number_nat rfl h.s
  have hl : number (tree (withId state.object id)) "l" 255 = some state.l := number_nat rfl h.l
  have hlx : number (tree (withId state.object id)) "lx" 4095 = some state.axes.lx :=
    number_nat rfl h.axes.lx
  have hly : number (tree (withId state.object id)) "ly" 4095 = some state.axes.ly :=
    number_nat rfl h.axes.ly
  have hrx : number (tree (withId state.object id)) "rx" 4095 = some state.axes.rx :=
    number_nat rfl h.axes.rx
  have hry : number (tree (withId state.object id)) "ry" 4095 = some state.axes.ry :=
    number_nat rfl h.axes.ry
  unfold readState
  simp only [hr, hs, hl, hlx, hly, hrx, hry, Option.bind_eq_bind, Option.bind_some]
  rfl

/-- A linked firmware accepts the command and takes over its state. -/
theorem command_state {parse : Bytes → Option CJson} (hparse : ParsesFlat parse)
    {state : StateDict} (h : state.InRange) {id : Nat} (hid : id ≤ 2147483647) {item : Bytes}
    (hitem : cString item = dumps (withId state.object id)) (now : Int) {c : Core}
    (hl : c.linked = true) :
    ∃ a, command parse item now c =
        ({ c with ctrl := state.controllerState, lastState := now },
          [.applied state.controllerState now, .answer a]) ∧ a.ok = true ∧ a.id = id := by
  have htree := hparse _ (stateObject_plain state id) (stateObject_numbers h hid)
  have hnumber : number (tree (withId state.object id)) "id" 2147483647 = some id :=
    number_nat rfl hid
  have hcmd : getObjectItem (tree (withId state.object id)) "cmd" =
      some (.string (ascii "state")) := rfl
  have hrun : runCommand (tree (withId state.object id)) (cString (ascii "state")) id now c =
      commandState (tree (withId state.object id)) id now c := rfl
  unfold command
  simp only [hitem, htree, hnumber, hcmd, hrun]
  unfold commandState
  simp only [readState_tree h, hl, if_true]
  exact ⟨_, rfl, rfl, rfl⟩

/-- A poll that gets to the command takes it over, whatever came before it. -/
theorem poll_takes {parse : Bytes → Option CJson} (hparse : ParsesFlat parse)
    {state : StateDict} (h : state.InRange) {id : Nat} (hid : id ≤ 2147483647) {item : Bytes}
    (hitem : cString item = dumps (withId state.object id)) {before : List (Bytes × Int)}
    (hturn : before.length < 4) (now : Int) (after : List (Bytes × Int)) (polled : Int) {c : Core}
    (hl : c.linked = true) :
    ∃ c' past a rest, pcControlPoll parse (before ++ (item, now) :: after) polled c =
        (c', past ++ .applied state.controllerState now :: .answer a :: rest) ∧
      a.ok = true ∧ a.id = id := by
  have htake : (before ++ (item, now) :: after).take 4 =
      before ++ (item, now) :: after.take (3 - before.length) := by
    rw [List.take_append, List.take_of_length_le (by omega)]
    have hroom : 4 - before.length = (3 - before.length) + 1 := by omega
    rw [hroom, List.take_succ_cons]
  have hlinked := (commands_linked parse before c).trans hl
  rcases command_state hparse h hid hitem now hlinked with ⟨a, hcommand, hok, ha⟩
  generalize ({ (commands parse before c).1 with
    ctrl := state.controllerState, lastState := now } : Core) = c₁ at hcommand
  rcases hlater : commands parse (after.take (3 - before.length)) c₁ with ⟨c₂, later⟩
  rcases hdog : watchdog polled c₂ with ⟨c', timeout⟩
  refine ⟨c', (commands parse before c).2, a, later ++ timeout, ?_, hok, ha⟩
  unfold pcControlPoll
  rw [htake, commands_append, commands, hcommand]
  simp only [hlater, hdog, List.append_assoc, List.cons_append, List.nil_append]

/-! ## From the PC to the console -/

/-- The report reads as exactly these buttons and these axes. -/
structure Decodes (report : Bytes) (pressed : List ButtonName) (axes : Axes) : Prop where
  buttons : ∀ btn, fullPressed report btn = true ↔ ∃ name ∈ pressed, name.button = btn
  axes : ∀ ax, fullAxis report ax = axes.get ax

theorem header_decodes (reportId timer : UInt8) (pressed : List ButtonName) {axes : Axes}
    (haxes : axes.InRange) (rest : Bytes) :
    Decodes (headerBytes reportId timer (stateFor pressed axes).controllerState false ++ rest)
      pressed axes := by
  constructor
  case buttons =>
      intro btn
      rw [header_pressed]
      simp only [gripped, Bool.false_and, Bool.or_false]
      exact stateFor_pressed pressed axes btn
  case axes =>
      intro ax
      have hle : axes.get ax ≤ 4095 := by
        cases ax with
        | leftX => exact haxes.lx
        | leftY => exact haxes.ly
        | rightX => exact haxes.rx
        | rightY => exact haxes.ry
      rw [header_axis, stateFor_axis pressed haxes]
      omega

theorem button_injective {name other : ButtonName} (h : name.button = other.button) :
    name = other := by
  revert h
  cases name <;> cases other <;> decide

/-- What a report reads as is in the bytes behind its id, timer and connection byte. -/
theorem decodes_tail {report other : Bytes} {pressed : List ButtonName} {axes : Axes}
    (htail : report.drop 3 = other.drop 3) (h : Decodes report pressed axes) :
    Decodes other pressed axes := by
  have hget (i : Nat) : report.getD (3 + i) 0 = other.getD (3 + i) 0 := by
    rw [List.getD_eq_getElem?_getD, List.getD_eq_getElem?_getD, ← List.getElem?_drop,
      ← List.getElem?_drop, htail]
  constructor
  case buttons =>
      intro btn
      have hbyte : report.getD btn.byte 0 = other.getD btn.byte 0 := by
        cases btn <;> first | exact hget 0 | exact hget 1 | exact hget 2
      have hsame : fullPressed other btn = fullPressed report btn := by
        unfold fullPressed
        rw [hbyte]
      rw [hsame]
      exact h.buttons btn
  case axes =>
      intro ax
      rw [← h.axes ax]
      cases ax with
      | leftX => simp only [fullAxis, hget 3, hget 4]
      | leftY => simp only [fullAxis, hget 4, hget 5]
      | rightX => simp only [fullAxis, hget 6, hget 7]
      | rightY => simp only [fullAxis, hget 7, hget 8]

/-- One report reads as one set and one position of the sticks. -/
theorem decodes_unique {report : Bytes} {pressed pressed' : List ButtonName} {axes axes' : Axes}
    (h : Decodes report pressed axes) (h' : Decodes report pressed' axes') :
    (∀ name, name ∈ pressed ↔ name ∈ pressed') ∧ axes = axes' := by
  have hmem {names : List ButtonName} (name : ButtonName) :
      (∃ other ∈ names, other.button = name.button) ↔ name ∈ names := by
    constructor
    · intro hex
      rcases hex with ⟨other, hother, hb⟩
      rw [← button_injective hb]
      exact hother
    · intro hname
      exact ⟨name, hname, rfl⟩
  constructor
  · intro name
    rw [← hmem name, ← hmem name, ← h.buttons, ← h'.buttons]
  · have hax (ax : Axis) : axes.get ax = axes'.get ax := (h.axes ax).symm.trans (h'.axes ax)
    rcases axes with ⟨lx, ly, rx, ry⟩
    rcases axes' with ⟨lx', ly', rx', ry'⟩
    have hlx : lx = lx' := hax .leftX
    have hly : ly = ly' := hax .leftY
    have hrx : rx = rx' := hax .rightX
    have hry : ry = ry' := hax .rightY
    rw [hlx, hly, hrx, hry]

/-- What is pressed on the PC is what the console sees. A linked firmware accepts the
command, and from the poll that takes it until the next change every report of the stream
that is sent and every reply that is built reads as it. A reply that is sent reads as the
controls of the moment it was built, and no two commands that differ read alike. -/
theorem pressed_is_seen (p : Platform) (parse : Bytes → Option CJson) (hparse : ParsesFlat parse)
    (pressed : List ButtonName) (axes : Axes) (haxes : axes.InRange) :
    (∀ id ≤ 2147483647, ∀ item,
      cString item = dumps (withId (stateFor pressed axes).object id) →
      ∀ now c, c.linked = true → ∃ a, command parse item now c =
        ({ c with ctrl := (stateFor pressed axes).controllerState, lastState := now },
          [.applied (stateFor pressed axes).controllerState now, .answer a]) ∧
        a.ok = true ∧ a.id = id) ∧
    (∀ id ≤ 2147483647, ∀ item,
      cString item = dumps (withId (stateFor pressed axes).object id) →
      ∀ f, (firmware p parse).Reachable f → f.core.linked = true →
      ∀ before now after polled, before.length < 4 →
      ∃ f' past a rest,
        Transport.step p parse (.pcTimer (before ++ (item, now) :: after) polled) f =
          some (f', past ++ .core (.applied (stateFor pressed axes).controllerState now) ::
            .core (.answer a) :: rest) ∧
        a.ok = true ∧ a.id = id ∧
        ∀ es f'' log, (firmware p parse).run es f' = some (f'', log) →
          (∀ e ∈ rest ++ log, e.isChange = false) →
          ∀ e ∈ log, ∀ report, filledReport e = some report → Decodes report pressed axes) ∧
    (∀ f before msg after, (firmware p parse).Reaches f (before ++ .sent true msg :: after) →
      ∃ earlier subcmdId payload report later, msg = 0xa1 :: report ∧
        before = earlier ++ .core (.reply subcmdId payload report) :: later ∧
        Shows 0x21 report (controlsAfter earlier) ∧
        (controlsAfter earlier = (stateFor pressed axes).controllerState →
          Decodes report pressed axes)) ∧
    (∀ pressed' axes', axes'.InRange → ∀ reportId timer reportId' timer',
      (headerBytes reportId timer (stateFor pressed axes).controllerState false).drop 3 =
        (headerBytes reportId' timer' (stateFor pressed' axes').controllerState false).drop 3 →
      (∀ name, name ∈ pressed ↔ name ∈ pressed') ∧ axes = axes') := by
  refine ⟨?_, ?_, ?_, ?_⟩
  · intro id hid item hitem now c hl
    exact command_state hparse (stateFor_inRange pressed haxes) hid hitem now hl
  · intro id hid item hitem f hf hl before now after polled hturn
    rcases poll_takes hparse (stateFor_inRange pressed haxes) hid hitem hturn now after polled hl
      with ⟨core, past, a, rest, hpoll, hok, ha⟩
    have hs : Transport.step p parse (.pcTimer (before ++ (item, now) :: after) polled) f =
        some ({ f with core }, past.map .core ++
          .core (.applied (stateFor pressed axes).controllerState now) ::
            .core (.answer a) :: rest.map .core) := by
      simp only [Transport.step, hpoll, List.map_append, List.map_cons]
    refine ⟨_, _, a, _, hs, hok, ha, ?_⟩
    intro es f'' log hr hsame e he report hfilled
    rcases hf with ⟨log₀, es₀, h₀⟩
    rcases List.append_of_mem he with ⟨first, last, rfl⟩
    have hreach : (firmware p parse).Reaches f'' (((log₀ ++ past.map .core) ++
        .core (.applied (stateFor pressed axes).controllerState now) ::
          (.core (.answer a) :: rest.map .core ++ first)) ++ e :: last) := by
      refine ⟨es₀ ++ .pcTimer (before ++ (item, now) :: after) polled :: es, ?_⟩
      refine Transition.System.run_append_some.mpr ⟨f, log₀, _, h₀,
        Transition.System.run_cons_some.mpr ⟨_, _, _, hs, hr, rfl⟩, by simp⟩
    rcases filled_shows hreach hfilled with ⟨reportId, timer, tail, rfl⟩
    have hstill : ∀ e ∈ Action.core (.answer a) :: rest.map .core ++ first,
        e.isChange = false := by
      intro e he
      rcases List.mem_cons.mp he with rfl | he
      · rfl
      · apply hsame
        rcases List.mem_append.mp he with hrest | hfirst
        · exact List.mem_append_left _ hrest
        · exact List.mem_append_right _ (List.mem_append_left _ hfirst)
    rw [controlsAfter_applied _ _ now hstill]
    exact header_decodes reportId timer pressed haxes tail
  · intro f before msg after hreach
    rcases sent_reply_shows hreach with
      ⟨earlier, subcmdId, payload, report, later, hmsg, hbefore, hshows⟩
    refine ⟨earlier, subcmdId, payload, report, later, hmsg, hbefore, hshows, fun hforce => ?_⟩
    rcases hshows with ⟨timer, tail, rfl⟩
    rw [hforce]
    exact header_decodes 0x21 timer pressed haxes tail
  · intro pressed' axes' haxes' reportId timer reportId' timer' htail
    have hfirst := header_decodes reportId timer pressed haxes []
    have hsecond := header_decodes reportId' timer' pressed' haxes' []
    rw [List.append_nil] at hfirst hsecond
    exact decodes_unique (decodes_tail htail hfirst) hsecond

/-- The sticks at rest. -/
def centred : Axes := { lx := 2048, ly := 2048, rx := 2048, ry := 2048 }

/-- What the PC writes to press A, as an item of the queue. -/
def pressLine : Bytes := dumps (withId (stateFor [.a] centred).object 1) ++ [0]

/-- A connected console asks for the device info, and its reply has to wait for a send slot
while the PC presses A. -/
def waitingReply : List Transport.Event :=
  [.opened 0 0x41, .reportData 1 (zeros 9 ++ [0x02]), .pcTimer [(pressLine, 5)] 6]

/-- The command is applied and nothing changes after it, yet the next report that is sent
shows A released. -/
theorem waitingReply_stale :
    ∃ f log f' log' report, (firmware blankPlatform parseFlat).run waitingReply Firmware.boot =
        some (f, log) ∧
      controlsAfter log = (stateFor [.a] centred).controllerState ∧
      Transport.step blankPlatform parseFlat (.canSendNow true) f = some (f', log') ∧
      (∀ a ∈ log', a.isChange = false) ∧ delivered log' = [report] ∧
      report.head? = some 0x21 ∧ ¬ Decodes report [.a] centred := by
  have hrun : ((firmware blankPlatform parseFlat).run waitingReply Firmware.boot).bind (fun r =>
      (Transport.step blankPlatform parseFlat (.canSendNow true) r.1).map fun s =>
        (controlsAfter r.2, s.2.any Action.isChange,
          (delivered s.2).map fun report => (report.head?, fullPressed report .a))) =
      some ((stateFor [.a] centred).controllerState, false, [(some 0x21, false)]) := by
    decide +kernel
  rcases Option.bind_eq_some_iff.mp hrun with ⟨⟨f, log⟩, hr, hsent⟩
  rcases Option.map_eq_some_iff.mp hsent with ⟨⟨f', log'⟩, hs, hvalues⟩
  simp only [Prod.mk.injEq, List.any_eq_false] at hvalues
  rcases hvalues with ⟨hforce, hsame, hdelivered⟩
  rcases List.map_eq_singleton_iff.mp hdelivered with ⟨report, hreport, hread⟩
  rcases Prod.mk.inj hread with ⟨hid, hup⟩
  refine ⟨f, log, f', log', report, hr, hforce, hs, ?_, hreport, hid, fun hdecodes => ?_⟩
  · intro a ha
    simpa using hsame a ha
  · have hpressed := (hdecodes.buttons .a).mpr ⟨.a, List.mem_singleton_self _, rfl⟩
    rw [hup] at hpressed
    cases hpressed

theorem pressed_is_seen_grip :
    ∃ a c, command parseFlat (dumps (withId (stateFor [.l, .r] centred).object 1)) 5
        { Core.boot with linked := true } = (c, [.applied c.ctrl 5, .answer a]) ∧ a.ok = true ∧
      c.ctrl.leftButtons = btnL ∧ c.ctrl.rightButtons = btnR := by
  have hcentred : centred.InRange := by constructor <;> decide
  have hself := cString_text (dumps_printable (stateObject_plain (stateFor [.l, .r] centred) 1))
  have hseen := pressed_is_seen blankPlatform parseFlat parseFlat_parses [.l, .r] centred hcentred
  rcases hseen.1 1 (by decide) _ hself 5 { Core.boot with linked := true } rfl with
    ⟨a, hrun, hok, -⟩
  exact ⟨a, _, hrun, hok, by decide, by decide⟩

end SwitchController.Host
