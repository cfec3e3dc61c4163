import SwitchController.Host.Clients
import SwitchController.Lib.Transition

/-! # A capture session

`session.py`: the loop that reads orders, sends commands and waits for their replies,
with a reader beside it that queues what arrives. An exception is followed to the
`except` clause that takes it. Orders, replies and the clock come in any order; the port
takes every line written to it.
-/

namespace SwitchController.Host.Session

open Memory Device Str

/-! ## Exceptions -/

/-- Classes of exceptions; the decoding and encoding errors are `ValueError`s. -/
inductive ExceptionType
  | valueError | keyError | runtimeError | timeoutError | osError | attributeError
  | keyboardInterrupt
deriving DecidableEq, Repr

structure Raised where
  type : ExceptionType
  argument : Json.Value

def Raised.ofText (type : ExceptionType) (message : Text) : Raised := ⟨type, .string message⟩

def Raised.caught (exc : Raised) : Bool :=
  exc.type = .valueError || exc.type = .keyError || exc.type = .runtimeError ||
    exc.type = .timeoutError

structure World where
  /-- `float` of a text, or the message of its `ValueError`. -/
  float : Text → Except Text Double
  /-- The order a set of these is iterated in. -/
  set : List Text → List Text
  /-- What opening a file and reading it gives. -/
  file : Text → Except Raised Bytes
  /-- The exception printing a reply raises, if any. -/
  print : Json.Value → Option Raised
  report : Raised → Option Raised

/-! ## Orders -/

def loadCommand (w : World) (path : Text) : Except Raised App.Request :=
  match w.file path with
  | .error exc => .error exc
  | .ok data =>
      match loadBin data with
      | .error message => .error (.ofText .valueError (text message))
      | .ok command => .ok (.tag (.load command))

/-! ## Replies -/

def equals (w : World) (n : Nat) : Option Json.Value → Bool
  | some (.boolean b) => b.toNat = n
  | some (.integer m) => m = n
  | some (.float literal) =>
      match w.float literal with
      | .ok v => v = .finite n
      | .error _ => false
  | _ => false

/-- `bool(value)`, where a missing value is `None`. -/
def truthy (w : World) : Option Json.Value → Bool
  | none => false
  | some .null => false
  | some (.boolean b) => b
  | some (.integer n) => n ≠ 0
  | some (.float literal) =>
      match w.float literal with
      | .ok v => v ≠ .finite 0
      | .error _ => true
  | some (.string s) => s ≠ []
  | some (.array items) => !items.isEmpty
  | some (.object members) => !members.isEmpty

def interrupt : Raised := ⟨.keyboardInterrupt, .null⟩

/-- How a session ends; `refused` when its first command fails, before the loop. -/
inductive Exit
  | quit
  | endOfInput
  | interrupted
  | refused (exc : Raised)
  | escaped (exc : Raised)

inductive Awaiting
  | opening
  | order
  | pressing (state : StateDict)
  /-- The `finally` of `press`, with the exception that is on its way. -/
  | releasing (pending : Option Raised)
  /-- The `finally` of `run_session`. -/
  | closing (exit : Exit)

inductive Mode
  | prompt
  | waiting (waiter : Awaiting)
  | pressing (state : StateDict)
  | left (exit : Exit)

structure State where
  seq : Nat
  reader : SessionReader
  replies : List Json.Value
  error : Option Text
  mode : Mode

inductive Event
  /-- The reader reads a chunk, or its thread ends with an exception. -/
  | received (chunk : Bytes)
  | failed (error : Text)
  | line (line : Text)
  | endOfInput
  | interrupt
  /-- `send` looks for a reply, or its three seconds are over. -/
  | looked
  | expired
  /-- The duration of a `press` goes on, or it is over. -/
  | again
  | elapsed

inductive Effect
  | sent (id : Nat) (request : App.Request)
  | asked
  /-- `send` returns to an order that prints its reply. -/
  | returned (reply : Json.Value)
  | printed (reply : Json.Value)
  | told (message : Text)
  /-- An exception arrives at the `except` clause of the loop, and is printed there. -/
  | raised (exc : Raised)
  | reported (exc : Raised)
  | pressBegan
  | pressOver

def released : Text := text "Botones liberados."

/-- `maxsize` of `replies`. -/
def repliesSize : Nat := 128

/-- A full queue loses its oldest reply. -/
def enqueue (replies : List Json.Value) (reply : Json.Value) : List Json.Value :=
  if replies.length < repliesSize then replies ++ [reply] else replies.tail ++ [reply]

namespace State

def send (request : App.Request) (waiter : Awaiting) (s : State) : State × List Effect :=
  ({ s with seq := s.seq + 1, mode := .waiting waiter }, [.sent (s.seq + 1) request])

def ask (s : State) : State × List Effect := ({ s with mode := .prompt }, [.asked])

def close (exit : Exit) (s : State) : State × List Effect := s.send .release (.closing exit)

/-- Where an exception goes that the loop does not catch. -/
def escape (exc : Raised) (s : State) : State × List Effect :=
  s.close (if exc.type = .keyboardInterrupt then .interrupted else .escaped exc)

def refuse (exc : Raised) (s : State) : State × List Effect :=
  s.close (if exc.type = .keyboardInterrupt then .interrupted else .refused exc)

def emit (effects : List Effect) (r : State × List Effect) : State × List Effect :=
  (r.1, effects ++ r.2)

def raise (w : World) (exc : Raised) (s : State) : State × List Effect :=
  if exc.type = .keyboardInterrupt then s.escape exc
  else emit [.raised exc]
    (if exc.caught then
      match w.report exc with
      | none => emit [.reported exc] s.ask
      | some exc => s.escape exc
    else s.escape exc)

/-- `send` returns or raises to the one who waits. -/
def settle (w : World) (result : Except Raised Json.Value) (s : State) :
    Awaiting → State × List Effect
  | .opening =>
      match result with
      | .ok reply =>
          match w.print reply with
          | none => emit [.printed reply] s.ask
          | some exc => s.refuse exc
      | .error exc => s.refuse exc
  | .order =>
      match result with
      | .ok reply =>
          emit [.returned reply]
            (match w.print reply with
            | none => emit [.printed reply] s.ask
            | some exc => s.raise w exc)
      | .error exc => s.raise w exc
  | .pressing state =>
      match result with
      | .ok _ => ({ s with mode := .pressing state }, [])
      | .error exc => s.send .release (.releasing (some exc))
  | .releasing pending =>
      match result, pending with
      -- an exception of the release takes the place of the one on its way
      | .error exc, _ => emit [.pressOver] (s.raise w exc)
      | .ok _, some exc => emit [.pressOver] (s.raise w exc)
      | .ok _, none => emit [.pressOver, .told released] s.ask
  | .closing exit => ({ s with mode := .left exit }, [])

end State

end SwitchController.Host.Session
