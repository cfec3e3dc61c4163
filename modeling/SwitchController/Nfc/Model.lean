import SwitchController.Nfc.Command

/-! # The MCU as a bounded queue of typed packets

The purpose of `nfc_mcu.c` without its ring, slots and buffers: a tag that is
there or not, a mode, and at most four packets waiting for the console. Every
call of the module is shown to do to this model what it does to the statics and
to hand back the same results, so whatever only speaks of packets and results
is proved on the model.
-/

namespace SwitchController.Nfc

open Memory

structure Model where
  tag : Option Bytes
  seen : Bool
  power : UInt8
  polling : UInt8
  pending : List Packet
deriving DecidableEq, Repr

namespace Model

def boot : Model := { tag := none, seen := false, power := 0, polling := 0, pending := [] }

/-- A full queue drops the packet. -/
def enqueue (a : Model) (p : Packet) : Model :=
  if a.pending.length < queueSize then { a with pending := a.pending ++ [p] } else a

def status (a : Model) : Model := a.enqueue (.status a.power)

/-- A poll answer announces a present tag, unless the queue has no room for it. -/
def poll (a : Model) : Model :=
  if a.pending.length < queueSize then
    match a.tag with
    | some tag =>
        if a.polling ≠ 0 then
          let state := if a.seen then 9 else 1
          { a with
            polling := state, seen := true, pending := a.pending ++ [.found state tag] }
        else { a with pending := a.pending ++ [.poll a.polling] }
    | none => { a with pending := a.pending ++ [.poll a.polling] }
  else a

def enterMode (a : Model) (mode : UInt8) : Model :=
  { a with power := mode, polling := 0, seen := false, pending := [.status mode] }

def reset (a : Model) : Model :=
  { a with power := 0, polling := 0, seen := false, pending := [] }

def load (data : Bytes) (a : Model) : Bool × Model :=
  if data.length ≠ tagSize then (false, a)
  else if a.power = 4 ∧ a.polling ≠ 0 then
    (true, { a with
      tag := some data, seen := true, polling := 1, pending := [.found 1 data] })
  else
    (true, { a with
      tag := some data, seen := false,
      pending := if a.power ≠ 0 then [.status a.power] else [] })

def unload (a : Model) : Model :=
  let a := { a with tag := none, seen := false, pending := [] }
  if a.polling ≠ 0 then
    { a with polling := 1, pending := if a.power = 4 then [.poll 1] else [] }
  else a

def setPower (value : UInt8) (a : Model) : Bool × Model :=
  if value > 1 then (false, a) else (true, a.enterMode value)

def config (args : Bytes) (a : Model) : Option Bytes × Model :=
  match configMode args with
  | none => (none, a)
  | some mode => (some configReply, if a.power ≠ 0 ∧ mode ≠ 0 then a.enterMode mode else a)

def perform : Request → Model → Model
  | .reject, a => a
  | .status, a => a.status
  | .startPoll, a => { a with polling := 1 }
  | .stop, a => { a with polling := 0, seen := false, pending := [] }
  | .poll, a => a.poll
  | .read, a =>
      match a.tag with
      | some tag => { a with pending := readPackets tag }
      | none => a

def request (a : Model) (packet : Bytes) : Request := classify a.power a.tag.isSome packet

def peek (a : Model) : Packet := a.pending.headD .idle

def commit (a : Model) : Model := { a with pending := a.pending.tail }

def step : Op → Model → Model × Result
  | .reset, a => (a.reset, .done)
  | .load data, a => ((a.load data).2, .accepted (a.load data).1)
  | .unload, a => (a.unload, .done)
  | .power value, a => ((a.setPower value).2, .accepted (a.setPower value).1)
  | .config args, a => ((a.config args).2, .reply (a.config args).1)
  | .command packet, a =>
      (perform (a.request packet) a, .accepted (a.request packet).accepted)
  | .peek, a => (a, .packet a.peek.encode)
  | .commit, a => (a.commit, .done)

/-! ## What a poll answer does -/

theorem poll_full {a : Model} (h : ¬ a.pending.length < queueSize) : a.poll = a := by
  rw [poll, if_neg h]

/-- The announced state byte of a present tag. -/
def foundState (a : Model) : UInt8 := if a.seen then 9 else 1

theorem poll_found {a : Model} {tag : Bytes} (hroom : a.pending.length < queueSize)
    (ht : a.tag = some tag) (hp : a.polling ≠ 0) :
    a.poll = { a with
      polling := a.foundState, seen := true,
      pending := a.pending ++ [.found a.foundState tag] } := by
  simp only [poll, if_pos hroom, ht, if_pos hp]
  rfl

theorem poll_bare {a : Model} (hroom : a.pending.length < queueSize)
    (h : a.tag = none ∨ a.polling = 0) :
    a.poll = { a with pending := a.pending ++ [.poll a.polling] } := by
  rw [poll, if_pos hroom]
  rcases h with ht | hp
  · simp only [ht]
  · cases ht : a.tag <;> simp [hp]

theorem read_some {a : Model} {tag : Bytes} (ht : a.tag = some tag) :
    perform .read a = { a with pending := readPackets tag } := by
  simp only [perform, ht]

end Model

end SwitchController.Nfc
