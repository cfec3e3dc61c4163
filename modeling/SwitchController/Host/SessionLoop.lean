import SwitchController.Host.Session
import SwitchController.Lib.Monitor

/-! # What a session survives

The loop of `run_session` is meant to go on after every failed order. It does as long as
no order names a file that cannot be opened and no reply is taken that is not an object;
`press` gives `release` as its last command in every case.
-/

namespace SwitchController.Host.Session

open Memory Device Str

/-! ## What is promised -/

def isRelease : App.Request → Bool
  | .release => true
  | _ => false

def pressNext : Effect → Option Bool → Option Bool
  | .pressBegan, _ => some false
  | .pressOver, _ => none
  | .sent _ request, some _ => some (isRelease request)
  | _, last => last

def pressOk : Effect → Option Bool → Prop
  | .pressBegan, last => last = none
  | .pressOver, last => last = some true
  | _, _ => True

/-- Follows the press in progress: whether its last command so far is `release`, which it has
to be when the press is over. -/
def presses : Transition.Monitor (Option Bool) Effect where
  start := none
  next := pressNext
  Ok := pressOk

/-- What an order prints when it is done. -/
def Effect.isResult : Effect → Bool
  | .printed _ => true
  | .told _ => true
  | _ => false

def dueNext : Effect → List Effect → List Effect
  | .returned reply, _ => [.printed reply, .asked]
  | .pressOver, _ => [.told released, .asked]
  | .raised exc, _ => [.reported exc, .asked]
  | .sent _ _, _ => []
  | _, due => due.tail

/-- An exception may come in the place of a result, or an interrupt with its `release`. -/
def dueOk : Effect → List Effect → Prop
  | _, [] => True
  | .raised _, next :: _ => next.isResult
  | .sent _ request, next :: _ => next.isResult ∧ isRelease request
  | e, next :: _ => e = next

/-- Follows what is due: the result of an order is printed, an exception at the `except`
clause is reported, and the next line is asked for. -/
def reports : Transition.Monitor (List Effect) Effect where
  start := []
  next := dueNext
  Ok := dueOk

def Mode.Pressing : Mode → Prop
  | .pressing _ => True
  | .waiting (.pressing _) => True
  | .waiting (.releasing _) => True
  | _ => False

def Exit.isEscape : Exit → Bool
  | .escaped _ => true
  | _ => false

/-- The loop is left, and not in one of the ways meant for it. -/
def Mode.isBroken : Mode → Bool
  | .waiting (.closing exit) => exit.isEscape
  | .left exit => exit.isEscape
  | _ => false

/-- No exception has ended the loop. Each that arrived there was reported, the result of every
order that was done was printed, and the next line was asked for. Every press is over with
`release` as its last command or still goes on. -/
structure Kept (s : State) (log : List Effect) : Prop where
  stays : s.mode.isBroken = false
  reported : reports.Accepts log [] ∧ reports.after log [] = []
  released : presses.Accepts log none
  pressing : presses.after log none ≠ none → s.mode.Pressing

/-! ## When it holds -/

def reportable (w : World) (exc : Raised) : Bool := (w.report exc).isNone

/-- An exception the loop reports, or an interrupt. -/
def tolerable (w : World) (exc : Raised) : Bool :=
  exc.type = .keyboardInterrupt || (exc.caught && reportable w exc)

variable {w : World} {s : State} {exc : Raised}

/-- The exception a `press` carries can be reported, and the loop is not left by one. -/
def Awaiting.Sound (w : World) : Awaiting → Prop
  | .releasing (some exc) => tolerable w exc = true
  | .closing exit => exit.isEscape = false
  | _ => True

def Mode.Sound (w : World) : Mode → Prop
  | .waiting waiter => waiter.Sound w
  | .left exit => exit.isEscape = false
  | _ => True

/-- Nothing is due, or a result an exception may come for. -/
def Open : List Effect → Prop
  | [] => True
  | next :: _ => next.isResult = true

/-- What the last command of the press in progress is, where the session is. -/
def Mode.Follows : Mode → Option Bool → Prop
  | .pressing _, last => last ≠ none
  | .waiting (.pressing _), last => last ≠ none
  | .waiting (.releasing _), last => last = some true
  | _, last => last = none

theorem Mode.Follows.pressing {mode : Mode} {last : Option Bool} (h : mode.Follows last)
    (hlast : last ≠ none) : mode.Pressing := by
  cases mode with
  | pressing state => exact trivial
  | waiting waiter =>
      cases waiter with
      | pressing state => exact trivial
      | releasing pending => exact trivial
      | _ => exact absurd h hlast
  | _ => exact absurd h hlast

end SwitchController.Host.Session
