import SwitchController.Device.Answers
import SwitchController.Device.Tag
import SwitchController.Host.Buttons
import SwitchController.Host.Presenter

/-! # The window, its serial link and the device

`App` of `controller.py` and `SerialLink`, with the presenter on one side and the
firmware on the other. Lines travel in order and may be lost on the way, in both
directions and across connections; the clock moves between callbacks. The fields and
entries under `record` are read by no operation: they say which command a reply answers
and what the device held when it answered.
-/

namespace SwitchController.Host.App

open Memory Device FlatJson

/-! ## Commands -/

inductive Request
  | status
  | release
  | state (dict : StateDict)
  | tag (command : Command)

/-- `command["cmd"]`. -/
inductive Kind
  | status | release | state | load | unload
deriving DecidableEq, Repr

def Request.kind : Request → Kind
  | .status => .status
  | .release => .release
  | .state _ => .state
  | .tag .unload => .unload
  | .tag (.load _) => .load

def Kind.name : Kind → String
  | .status => "status"
  | .release => "release"
  | .state => "state"
  | .load => "load"
  | .unload => "unload"

/-- Seconds a command may go without a reply. -/
def Kind.limit : Kind → Rat
  | .state => 1 / 4
  | .release => 1 / 4
  | .status => 1
  | .load => 3
  | .unload => 3

def Request.object : Request → Object
  | .status => [(ascii "cmd", .string (ascii "status"))]
  | .release => [(ascii "cmd", .string (ascii "release"))]
  | .state dict => dict.object
  | .tag .unload => [(ascii "cmd", .string (ascii "unload"))]
  | .tag (.load command) => command.object

/-- A line on its way: a command with its place among all commands and its id, or what the
thread of a link writes at its end. -/
inductive Line
  | sent (number id : Nat) (request : Request)
  | closing

def Line.object : Line → Object
  | .sent _ id request => withId request.object id
  | .closing => [(ascii "id", .number 0), (ascii "cmd", .string (ascii "release"))]

/-- Ids run from 1 to here and start again. -/
def lastId : Nat := 2147483646

def Line.number : Line → Nat
  | .sent number _ _ => number
  | .closing => 0

structure Echo where
  answer : Answer
  -- record
  number : Nat
  changes : Nat
  newest : Nat
  tag : Option Bytes

/-- The dictionary `parse_reply` reads from the line of an answer. -/
def answerReply (a : Answer) : Reply :=
  [("id", .int a.id), ("ok", .bool a.ok), ("message", .str a.message),
    ("connected", .bool a.connected), ("loaded", .bool a.loaded), ("nfc_ready", .bool true),
    ("nfc_write", .bool false), ("crc", .int a.crc.toNat),
    ("mcu_power", .int a.diagnostics.power.toNat), ("nfc_poll", .int a.diagnostics.poll.toNat),
    ("nfc_queue", .int a.diagnostics.pending.toNat), ("nfc_rx", .int a.diagnostics.received.toNat),
    ("nfc_rejected", .int a.diagnostics.rejected.toNat),
    ("nfc_last_cmd", .int a.diagnostics.lastCmd.toNat),
    ("nfc_last_sub", .int a.diagnostics.lastSub.toNat)]

/-! ## State -/

/-- A `SerialLink` with its `outgoing` queue; `alive` while its thread runs. -/
structure Link where
  id : Nat
  alive : Bool
  outgoing : List Line

/-- `maxsize` of `outgoing`. -/
def outgoingSize : Nat := 16

inductive Item
  | line (echo : Echo)
  | exception

structure Pending where
  kind : Kind
  sent : Rat
  callback : Option Callback
  -- record
  number : Nat

inductive Entry
  | presented (path : String) (file : Except String Bytes)
  /-- A reply the presenter observed, and how many commands had been sent by then. -/
  | observed (echo : Echo) (sends : Nat)
  | answered (callback : Callback) (echo : Echo)

abbrev Sliders := { axes : Axes // axes.InRange }

def centered : Sliders := ⟨⟨2048, 2048, 2048, 2048⟩, by decide, by decide, by decide, by decide⟩

structure World where
  now : Rat
  -- controller.py
  link : Option Link
  events : List (Nat × Item)
  pending : List (Nat × Pending)
  seq : Nat
  connected : Bool
  ready : Bool
  pressed : List ButtonName
  axes : Sliders
  lastStatus : Rat
  lastReply : Rat
  lastRetryLog : Rat
  closed : Bool
  presenter : Presenter
  timers : List (Rat × Job)
  -- the links opened so far and the lines on the way
  links : Nat
  wire : List Line
  incoming : List Echo
  core : Core
  -- record
  sends : Nat
  changes : Nat
  newest : Nat
  history : List Entry

def World.boot : World where
  now := 0
  link := none
  events := []
  pending := []
  seq := 0
  connected := false
  ready := false
  pressed := []
  axes := centered
  lastStatus := 0
  lastReply := 0
  lastRetryLog := 0
  closed := false
  presenter := .init
  timers := []
  links := 0
  wire := []
  incoming := []
  core := Core.boot
  sends := 0
  changes := 0
  newest := 0
  history := []

namespace World

/-! ## Sending -/

/-- `pending[seq] = entry`: a key that is there keeps its place. -/
def setPending (seq : Nat) (entry : Pending) (pending : List (Nat × Pending)) :
    List (Nat × Pending) :=
  if pending.any (·.1 = seq) then pending.map fun m => if m.1 = seq then (seq, entry) else m
  else pending ++ [(seq, entry)]

def popPending (seq : Nat) (pending : List (Nat × Pending)) : List (Nat × Pending) :=
  pending.filter (·.1 ≠ seq)

def closingLines : Option Link → List Line
  | some link => if link.alive then [.closing] else []
  | none => []

def disconnect (w : World) : World :=
  { w with
    link := none, ready := false, connected := false, pending := [], pressed := [],
    axes := centered, presenter := w.presenter.reset.1, wire := w.wire ++ closingLines w.link }

def scheduled (now : Rat) (log : List Effect) : List (Rat × Job) :=
  log.filterMap fun
    | .schedule milliseconds job => some (now + milliseconds / 1000, job)
    | _ => none

/-- A callback of the presenter; none of them sends. -/
def call (callback : Callback) (reply : Reply) (w : World) : World :=
  let r := w.presenter.answer callback reply
  { w with presenter := r.1, timers := w.timers ++ scheduled w.now r.2 }

def unlinkedReply : Reply :=
  [("ok", .bool false), ("message", .str "Conecta primero el ESP32.")]

def send (request : Request) (callback : Option Callback) (w : World) : World :=
  match w.link with
  | none =>
      match callback with
      | some callback => w.call callback unlinkedReply
      | none => w
  | some link =>
      let seq := w.seq % lastId + 1
      let number := w.sends + 1
      let w := { w with seq, sends := number }
      if link.outgoing.length < outgoingSize then
        { w with
          link := some { link with outgoing := link.outgoing ++ [.sent number seq request] }
          pending := setPending seq { kind := request.kind, sent := w.now, callback, number }
            w.pending }
      else w.disconnect

def perform (log : List Effect) (w : World) : World :=
  log.foldl (fun w e =>
    match e with
    | .send command callback => w.send (.tag command) (some callback)
    | .schedule milliseconds job =>
        { w with timers := w.timers ++ [(w.now + milliseconds / 1000, job)] }
    | .changed | .error _ => w) w

/-! ## Actions of the user -/

def connect (opens : Bool) (w : World) : World :=
  let w := w.disconnect
  if opens then
    let w := { w with
      link := some { id := w.links, alive := true, outgoing := [] }
      links := w.links + 1, lastReply := w.now }
    w.send .status none
  else w.disconnect

def releaseAll (w : World) : World :=
  let w := { w with pressed := [], axes := centered }
  if w.link.isSome then w.send .release none else w

def present (resolve : String → String) (path : String) (file : Except String Bytes)
    (w : World) : World :=
  if w.ready = false ∨ w.presenter.busy = true then w
  else
    match w.presenter.present resolve path file with
    | (.ok true, p, log) =>
        { w with
          presenter := p
          history := w.history ++ [Entry.presented (resolve path) file] }.perform log
    | (_, p, log) => { w with presenter := p }.perform log

def remove (w : World) : World :=
  if w.ready then
    let r := w.presenter.remove.2
    { w with presenter := r.1 }.perform r.2
  else w

/-! ## Replies -/

def handleReply (echo : Echo) (w : World) : World :=
  match w.pending.find? (·.1 = echo.answer.id) with
  | none => w
  | some (_, entry) =>
      let reply := answerReply echo.answer
      let sends := w.sends
      let w := { w with
        pending := popPending echo.answer.id w.pending, lastReply := w.now, ready := true }
      let w := if w.connected && !echo.answer.connected then w.releaseAll else w
      let w := { w with
        connected := echo.answer.connected, presenter := (w.presenter.observe reply).1
        history := w.history ++ [Entry.observed echo sends] }
      match entry.callback with
      | some callback =>
          { w with history := w.history ++ [Entry.answered callback echo] }.call callback reply
      | none => w

/-- Items of a link that is not the current one are skipped. -/
def handleEvent (item : Nat × Item) (w : World) : World :=
  if w.link.map Link.id = some item.1 then
    match item.2 with
    | .line echo => w.handleReply echo
    | .exception => w.disconnect
  else w

def drain : Nat → World → World
  | 0, w => w
  | n + 1, w =>
      match w.events with
      | [] => w
      | item :: rest => drain n (handleEvent item { w with events := rest })

/-! ## The timer -/

def noConfirmation (kind : Kind) (seq : Nat) : Reply :=
  [("ok", .bool false), ("message", .str
    ("Sin confirmación de " ++ kind.name ++ " #" ++ toString seq ++
      ". Consulta el archivo presentado antes de intentarlo de nuevo."))]

def timeout (m : Nat × Pending) (w : World) : World :=
  if w.now - m.2.sent ≤ m.2.kind.limit then w
  else
    let w := { w with pending := popPending m.1 w.pending }
    match m.2.callback with
    | some callback =>
        let w := w.call callback (noConfirmation m.2.kind m.1)
        if w.link.isSome then w.send .status none else w
    | none =>
        if w.now - w.lastRetryLog > 2 then { w with lastRetryLog := w.now } else w

def heartbeat (w : World) : World :=
  if w.link.isSome then
    if w.connected = true ∧ w.pending.all (·.2.kind ≠ .state) then
      w.send (.state (stateFor w.pressed w.axes)) none
    else if w.connected = false ∧ w.now - w.lastStatus ≥ 1 / 2 ∧
        w.pending.all (·.2.kind ≠ .status) then
      { w.send .status none with lastStatus := w.now }
    else w
  else w

def tick (w : World) : World :=
  if w.closed then w
  else
    let w := drain 150 w
    let w := w.pending.foldl (fun w m => timeout m w) w
    let w := if w.link.isSome = true ∧ w.now - w.lastReply > 3 then w.disconnect else w
    w.heartbeat

def fire (i : Nat) (w : World) : World :=
  match w.timers[i]? with
  | none => w
  | some (due, job) =>
      if due ≤ w.now then
        let r := w.presenter.fire job
        { w with timers := w.timers.eraseIdx i, presenter := r.1 }.perform r.2
      else w

/-! ## The link and the device -/

def write (w : World) : World :=
  match w.link with
  | some link =>
      match link.outgoing with
      | line :: rest =>
          if link.alive then
            { w with link := some { link with outgoing := rest }, wire := w.wire ++ [line] }
          else w
      | [] => w
  | none => w

def breakLink (w : World) : World :=
  match w.link with
  | some link =>
      if link.alive then
        { w with
          link := some { link with alive := false }
          events := w.events ++ [(link.id, .exception)], wire := w.wire ++ [.closing] }
      else w
  | none => w

def deliver (w : World) : World :=
  match w.link, w.incoming with
  | some link, echo :: rest =>
      if link.alive then { w with events := w.events ++ [(link.id, .line echo)], incoming := rest }
      else w
  | _, _ => w

def isLoad : Device.Effect → Bool
  | .nfc (.load _) _ => true
  | _ => false

def execute (parse : Bytes → Option CJson) (now : Int) (w : World) : World :=
  match w.wire with
  | [] => w
  | line :: rest =>
      let r := Device.command parse (dumps line.object) now w.core
      let changes := w.changes + (r.2.filter fun e => !e.keepsTag).length
      let newest := if r.2.any isLoad then line.number else w.newest
      { w with
        wire := rest, core := r.1, changes, newest
        incoming := w.incoming ++ (answers r.2).map fun answer =>
          { answer, number := line.number, changes, newest, tag := r.1.nfc.presentTag } }

end World

/-! ## Events -/

inductive Event
  | connect (opens : Bool)
  | disconnect
  | present (path : String) (file : Except String Bytes)
  | remove
  | input (pressed : List ButtonName) (axes : Sliders)
  | releaseAll
  | tick
  | fire (i : Nat)
  | close
  | elapse (seconds : Rat)
  | write
  | breakLink
  | deliver
  | loseLine
  | loseReply
  | execute (now : Int)
  /-- Anything else that happens to the device. -/
  | console (e : Call)
  | watchdog (now : Int)

def step (p : Platform) (parse : Bytes → Option CJson) (resolve : String → String) :
    Event → World → Option World
  | .connect opens, w => some (w.connect opens)
  | .disconnect, w => some w.disconnect
  | .present path file, w => some (w.present resolve path file)
  | .remove, w => some w.remove
  | .input pressed axes, w => some { w with pressed, axes }
  | .releaseAll, w => some w.releaseAll
  | .tick, w => some w.tick
  | .fire i, w => some (w.fire i)
  | .close, w => some { w.disconnect with closed := true }
  | .elapse seconds, w => some { w with now := w.now + seconds }
  | .write, w => some w.write
  | .breakLink, w => some w.breakLink
  | .deliver, w => some w.deliver
  | .loseLine, w => some { w with wire := w.wire.tail }
  | .loseReply, w => some { w with incoming := w.incoming.tail }
  | .execute now, w => some (w.execute parse now)
  | .console e, w =>
      if e.console then (Device.step p parse e w.core).map fun r => { w with core := r.1 } else none
  | .watchdog now, w => some { w with core := (Device.watchdog now w.core).1 }

/-- The window with one device, from the start of both. -/
def window (p : Platform) (parse : Bytes → Option CJson) (resolve : String → String) :
    Transition.System World Event Empty where
  init := .boot
  step e w := (step p parse resolve e w).map fun w => (w, [])

end SwitchController.Host.App
