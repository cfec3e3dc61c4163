import SwitchController.Host.Protocol
import SwitchController.Lib.Transition

/-! # The presentation workflow

`Presenter` of `library.py`. A workflow is a chain of closures: each is handed to
`send` or to `schedule` and remembers the generation it was made in. Here a closure
is a constructor with what it captured. The caller owes every callback at most one
reply and may call the closures in any order; a closure of `schedule` waits for its
delay.
-/

namespace SwitchController.Host

open Device

/-! ## Replies -/

/-- A decoded JSON value. -/
inductive Value
  | none
  | bool (b : Bool)
  | int (n : Int)
  | float (v : Double)
  | str (s : String)
  | list (items : List Value)
  | dict (members : List (String × Value))

/-- `bool(value)`. -/
def Value.truthy : Value → Bool
  | .none => false
  | .bool b => b
  | .int n => n ≠ 0
  | .float v => v ≠ .finite 0
  | .str s => s ≠ ""
  | .list items => !items.isEmpty
  | .dict members => !members.isEmpty

/-- `value is False`. -/
def Value.isFalse : Value → Bool
  | .bool b => !b
  | _ => false

/-- `value == n`: booleans and floats compare as numbers. -/
def Value.equals (n : Int) : Value → Bool
  | .bool b => b.toInt = n
  | .int m => m = n
  | .float v => v = .finite n
  | _ => false

abbrev Reply := List (String × Value)

def Reply.get? (reply : Reply) (key : String) : Option Value :=
  (reply.find? fun m => m.1 = key).map Prod.snd

def Reply.get (reply : Reply) (key : String) (default : Value := .none) : Value :=
  (reply.get? key).getD default

/-- `reply.get("crc") == crc`, where no checksum is `None`. -/
def Reply.hasCrc (reply : Reply) : Option Nat → Bool
  | some crc => (reply.get "crc").equals crc
  | none => match reply.get "crc" with
    | .none => true
    | _ => false

/-! ## Closures -/

inductive Command
  | unload
  | load (command : LoadCommand)
deriving DecidableEq, Repr

/-- The closures handed to `send`: `removed` and `loaded` of `present`, `removed` of
`remove`. -/
inductive Callback
  | presentRemoved (generation : Nat) (command : LoadCommand) (candidate : String)
  | presentLoaded (generation : Nat) (command : LoadCommand) (candidate : String)
  | removeRemoved (generation : Nat)
deriving DecidableEq, Repr

def Callback.generation : Callback → Nat
  | presentRemoved generation _ _ => generation
  | presentLoaded generation _ _ => generation
  | removeRemoved generation => generation

/-- The closure handed to `schedule`: `load` of `present`. -/
structure Job where
  generation : Nat
  command : LoadCommand
  candidate : String
deriving DecidableEq, Repr

inductive Effect
  | send (command : Command) (callback : Callback)
  | schedule (milliseconds : Nat) (job : Job)
  | changed
  | error (message : Value)

/-! ## Operations -/

structure Presenter where
  busy : Bool
  phase : String
  path : Option String
  lastPath : Option String
  crc : Option Nat
  loaded : Value
  generation : Nat

namespace Presenter

def init : Presenter :=
  { busy := false, phase := "", path := none, lastPath := none, crc := none, loaded := .none,
    generation := 0 }

def reset (p : Presenter) : Presenter × List Effect :=
  ({ p with
    generation := p.generation + 1, busy := false, phase := "", path := none, crc := none,
    loaded := .none }, [.changed])

def observe (reply : Reply) (p : Presenter) : Presenter × List Effect :=
  let p := { p with loaded := reply.get "loaded" }
  if !p.loaded.truthy || !reply.hasCrc p.crc then
    ({ p with path := none, crc := none }, [.changed])
  else (p, [.changed])

def start (phase : String) (p : Presenter) : Presenter × List Effect :=
  ({ p with generation := p.generation + 1, busy := true, phase := phase }, [.changed])

def finish (p : Presenter) : Presenter × List Effect :=
  ({ p with busy := false, phase := "" }, [.changed])

def fail (message : Value) (p : Presenter) : Presenter × List Effect :=
  (p.finish.1, p.finish.2 ++ [.error message])

/-- The load command of a file, or what reading it or `load_bin` raises. -/
def readBin (file : Except String Memory.Bytes) : Except String LoadCommand := file.bind loadBin

theorem readBin_ok (data : Memory.Bytes) : readBin (.ok data) = loadBin data := rfl

/-- The result is what `present` returns or raises; `file` is what reading `path` gives. -/
def present (resolve : String → String) (path : String) (file : Except String Memory.Bytes)
    (p : Presenter) : Except String Bool × Presenter × List Effect :=
  if p.busy then (.ok false, p, [])
  else
    match readBin file with
    | .error text => (.error text, p, [])
    | .ok command =>
        let candidate := resolve path
        let (p, log) := p.start "Retirando antes de presentar…"
        (.ok true, p, log ++ [.send .unload (.presentRemoved p.generation command candidate)])

def remove (p : Presenter) : Except String Bool × Presenter × List Effect :=
  if p.busy then (.ok false, p, [])
  else
    let (p, log) := p.start "Retirando…"
    (.ok true, p, log ++ [.send .unload (.removeRemoved p.generation)])

def notRemoved (p : Presenter) : Presenter × List Effect :=
  p.fail (.str "El ESP32 no confirmó la retirada.")

/-- What each callback of `send` does with a reply `_accept` lets through. -/
def accepted (reply : Reply) (p : Presenter) : Callback → Presenter × List Effect
  | .presentRemoved generation command candidate =>
      if !(reply.get "loaded").isFalse then p.notRemoved
      else
        ({ p with
          loaded := .bool false, path := none, crc := none,
          phase := "Esperando para volver a presentar…" },
          [.changed, .schedule 500 { generation, command, candidate }])
  | .presentLoaded _ command candidate =>
      if !(reply.get "loaded").truthy || !reply.hasCrc (some command.crc) then
        p.fail (.str "El ESP32 no confirmó el archivo esperado.")
      else
        finish { p with
          path := some candidate, lastPath := some candidate, loaded := .bool true,
          crc := some command.crc }
  | .removeRemoved _ =>
      if !(reply.get "loaded").isFalse then p.notRemoved
      else finish { p with path := none, crc := none, loaded := .bool false }

/-- A callback of `send`: each starts with `_accept`. -/
def answer (callback : Callback) (reply : Reply) (p : Presenter) : Presenter × List Effect :=
  if callback.generation ≠ p.generation then (p, [])
  else if !(reply.get "ok").truthy then
    p.fail (reply.get "message" (.str "No se pudo completar la operación."))
  else p.accepted reply callback

/-- `load`, called by the event loop. -/
def fire (job : Job) (p : Presenter) : Presenter × List Effect :=
  if job.generation ≠ p.generation then (p, [])
  else
    ({ p with phase := "Presentando…" },
      [.changed,
        .send (.load job.command) (.presentLoaded job.generation job.command job.candidate)])

end Presenter

/-! ## Callers -/

structure Timer where
  due : Nat
  job : Job
deriving DecidableEq, Repr

/-- A presenter, the callbacks that still wait for a reply and the jobs that wait. -/
structure Desk where
  presenter : Presenter
  now : Nat
  calls : List Callback
  timers : List Timer

inductive Event
  | present (path : String) (file : Except String Memory.Bytes)
  | remove
  | reset
  | observe (reply : Reply)
  | reply (i : Nat) (reply : Reply)
  | fire (i : Nat)
  | elapse (milliseconds : Nat)

/-- What happened: calls that start a workflow with its generation, calls that start
none with what they return or raise, and everything the presenter does. -/
inductive Entry
  | presented (generation : Nat) (path : String) (file : Except String Memory.Bytes)
  | removed (generation : Nat)
  | refused (result : Except String Bool)
  | reset
  | observed (reply : Reply)
  | answered (callback : Callback) (reply : Reply) (now : Nat)
  | fired (job : Job) (now : Nat)
  | effect (e : Effect)

namespace Desk

def init : Desk := { presenter := .init, now := 0, calls := [], timers := [] }

/-- Whoever called the presenter keeps the closures it hands out. -/
def settle (log : List Effect) (d : Desk) : Desk :=
  log.foldl (fun d e =>
    match e with
    | .send _ callback => { d with calls := d.calls ++ [callback] }
    | .schedule milliseconds job =>
        { d with timers := d.timers ++ [{ due := d.now + milliseconds, job }] }
    | _ => d) d

/-- One call of the presenter, under the entry that names it. -/
def perform (entry : Entry) (result : Presenter × List Effect) (d : Desk) :
    Desk × List Entry :=
  (({ d with presenter := result.1 } : Desk).settle result.2, entry :: result.2.map .effect)

/-- A call that starts a workflow is entered as `started`, any other with its result. -/
def call (started : Nat → Entry) (result : Except String Bool × Presenter × List Effect)
    (d : Desk) : Desk × List Entry :=
  match result with
  | (.ok true, p, log) => d.perform (started p.generation) (p, log)
  | (outcome, p, log) => d.perform (.refused outcome) (p, log)

def step (resolve : String → String) : Event → Desk → Option (Desk × List Entry)
  | .present path file, d =>
      some (d.call (.presented · path file) (d.presenter.present resolve path file))
  | .remove, d => some (d.call .removed d.presenter.remove)
  | .reset, d => some (d.perform .reset d.presenter.reset)
  | .observe reply, d => some (d.perform (.observed reply) (d.presenter.observe reply))
  | .reply i reply, d => do
      let callback ← d.calls[i]?
      let d := { d with calls := d.calls.eraseIdx i }
      some (d.perform (.answered callback reply d.now) (d.presenter.answer callback reply))
  | .fire i, d => do
      let timer ← d.timers[i]?
      if timer.due ≤ d.now then
        let d := { d with timers := d.timers.eraseIdx i }
        some (d.perform (.fired timer.job d.now) (d.presenter.fire timer.job))
      else none
  | .elapse milliseconds, d => some ({ d with now := d.now + milliseconds }, [])

end Desk

/-- A presenter and any caller of it. -/
def desk (resolve : String → String) : Transition.System Desk Event Entry :=
  { init := .init, step := Desk.step resolve }

end SwitchController.Host
