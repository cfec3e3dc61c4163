import SwitchController.Host.App
import SwitchController.Lib.Transition

/-! # What the window does with its commands

The operations of `App` with a note of every command they send, every reply they handle
and every closure they call. What comes out of the queue of events is free here: any
reply, any exception, from any link there ever was. Commands are sent from outside in any
order, with any closure of the presenter.
-/

namespace SwitchController.Host.App

inductive Note
  /-- A command goes to the link; `answerable` when it has a closure. -/
  | sent (number link id : Nat) (request : Request) (answerable : Bool) (time : Rat)
  /-- A closure is called at once because there is no link. -/
  | unlinked
  /-- A reply of the current link is looked up. -/
  | handled (link : Nat) (echo : Echo)
  /-- The closure of a command is called with a reply. -/
  | replied (number link : Nat) (echo : Echo)
  /-- The closure of a command is called because no reply came. -/
  | expired (number : Nat)
  /-- The link is given up after three seconds without a reply. -/
  | silent
  | disconnected

namespace World

/-! ## Notes of the operations -/

def sendNotes (request : Request) (callback : Option Callback) (w : World) : List Note :=
  match w.link with
  | none => if callback.isSome then [.unlinked] else []
  | some link =>
      if link.outgoing.length < outgoingSize then
        [.sent (w.sends + 1) link.id (w.seq % lastId + 1) request callback.isSome w.now]
      else [.disconnected]

def connectNotes (opens : Bool) (w : World) : List Note :=
  if opens then .disconnected :: sendNotes .status none
    { w.disconnect with
      link := some { id := w.links, alive := true, outgoing := [] }
      links := w.links + 1, lastReply := w.now }
  else [.disconnected, .disconnected]

def releaseNotes (w : World) : List Note :=
  if w.link.isSome then sendNotes .release none { w with pressed := [], axes := centered } else []

/-- The closure of a pending command is called, if it has one. -/
def answerNotes (entry : Pending) (note : Note) : List Note :=
  if entry.callback.isSome then [note] else []

/-- A reply takes its command out of the table. -/
def matched (echo : Echo) (w : World) : World :=
  { w with pending := popPending echo.answer.id w.pending, lastReply := w.now, ready := true }

/-- Buttons are released when the console is gone. -/
def relieved (echo : Echo) (w : World) : World :=
  if w.connected && !echo.answer.connected then w.releaseAll else w

def relievedNotes (echo : Echo) (w : World) : List Note :=
  if w.connected && !echo.answer.connected then w.releaseNotes else []

/-- The reply is shown to the presenter and passed to the closure. -/
def passed (entry : Pending) (echo : Echo) (sends : Nat) (w : World) : World :=
  let reply := answerReply echo.answer
  let w := { w with
    connected := echo.answer.connected, presenter := (w.presenter.observe reply).1
    history := w.history ++ [Entry.observed echo sends] }
  match entry.callback with
  | some callback =>
      { w with history := w.history ++ [Entry.answered callback echo] }.call callback reply
  | none => w

def replyNotes (link : Nat) (echo : Echo) (w : World) : List Note :=
  match w.pending.find? (·.1 = echo.answer.id) with
  | none => []
  | some (_, entry) =>
      relievedNotes echo (w.matched echo) ++ answerNotes entry (.replied entry.number link echo)

theorem handleReply_unknown {echo : Echo} {w : World}
    (h : w.pending.find? (·.1 = echo.answer.id) = none) (link : Nat) :
    w.handleReply echo = w ∧ w.replyNotes link echo = [] := by
  unfold handleReply replyNotes
  rw [h]
  exact ⟨rfl, rfl⟩

theorem handleReply_known {echo : Echo} {w : World} {k : Nat} {entry : Pending}
    (h : w.pending.find? (·.1 = echo.answer.id) = some (k, entry)) (link : Nat) :
    w.handleReply echo = ((w.matched echo).relieved echo).passed entry echo w.sends ∧
      w.replyNotes link echo = relievedNotes echo (w.matched echo) ++
        answerNotes entry (.replied entry.number link echo) := by
  unfold handleReply replyNotes
  rw [h]
  exact ⟨rfl, rfl⟩

def eventNotes (item : Nat × Item) (w : World) : List Note :=
  if w.link.map Link.id = some item.1 then
    match item.2 with
    | .line echo => .handled item.1 echo :: replyNotes item.1 echo w
    | .exception => [.disconnected]
  else []

def drainNotes : Nat → World → List Note
  | 0, _ => []
  | n + 1, w =>
      match w.events with
      | [] => []
      | item :: rest =>
          eventNotes item { w with events := rest } ++
            drainNotes n (handleEvent item { w with events := rest })

def timeoutNotes (m : Nat × Pending) (w : World) : List Note :=
  if w.now - m.2.sent ≤ m.2.kind.limit then []
  else
    match m.2.callback with
    | some callback =>
        let w := { w with pending := popPending m.1 w.pending }.call callback
          (noConfirmation m.2.kind m.1)
        .expired m.2.number :: (if w.link.isSome then sendNotes .status none w else [])
    | none => []

def expiryNotes : List (Nat × Pending) → World → List Note
  | [], _ => []
  | m :: ms, w => timeoutNotes m w ++ expiryNotes ms (timeout m w)

def heartbeatNotes (w : World) : List Note :=
  if w.link.isSome then
    if w.connected = true ∧ w.pending.all (·.2.kind ≠ .state) then
      sendNotes (.state (stateFor w.pressed w.axes)) none w
    else if w.connected = false ∧ w.now - w.lastStatus ≥ 1 / 2 ∧
        w.pending.all (·.2.kind ≠ .status) then
      sendNotes .status none w
    else []
  else []

/-- Has the link been silent for more than three seconds? -/
def isSilent (w : World) : Bool := w.link.isSome && decide (w.now - w.lastReply > 3)

def expire (w : World) : World := w.pending.foldl (fun w m => timeout m w) w

def giveUp (w : World) : World :=
  if w.link.isSome = true ∧ w.now - w.lastReply > 3 then w.disconnect else w

def tickNotes (w : World) : List Note :=
  if w.closed then []
  else
    let drained := drain 150 w
    let expired := drained.expire
    drainNotes 150 w ++ expiryNotes drained.pending drained ++
      (if isSilent expired then [.silent, .disconnected] else []) ++
      heartbeatNotes expired.giveUp

theorem tick_eq {w : World} (h : w.closed = false) :
    w.tick = (drain 150 w).expire.giveUp.heartbeat := by
  unfold tick
  rw [h]
  rfl

/-! ## The thread of the link -/

/-- Writing concerns the queue of the link and the wire. -/
theorem write_eq (w : World) : ∃ link wire,
    w.write = { w with link, wire } ∧ link.map Link.id = w.link.map Link.id := by
  unfold write
  split
  case h_1 link hlink =>
      split
      · split
        · refine ⟨_, _, rfl, ?_⟩
          rw [hlink]
          rfl
        · exact ⟨w.link, w.wire, rfl, rfl⟩
      · exact ⟨w.link, w.wire, rfl, rfl⟩
  case h_2 => exact ⟨w.link, w.wire, rfl, rfl⟩

/-- The end of the thread leaves the link in place until the exception is handled. -/
theorem breakLink_eq (w : World) : ∃ link events wire,
    w.breakLink = { w with link, events, wire } ∧ link.map Link.id = w.link.map Link.id := by
  unfold breakLink
  split
  case h_1 link hlink =>
      split
      · refine ⟨_, _, _, rfl, ?_⟩
        rw [hlink]
        rfl
      · exact ⟨w.link, w.events, w.wire, rfl, rfl⟩
  case h_2 => exact ⟨w.link, w.events, w.wire, rfl, rfl⟩

end World

/-! ## The system -/

inductive Act
  | connect (opens : Bool)
  | disconnect
  | send (request : Request) (callback : Option Callback)
  | releaseAll
  | tick
  | elapse (seconds : Rat)
  | write
  | breakLink
  /-- Something is put into the queue of events in the name of a link. -/
  | arrive (link : Nat) (item : Item)

def Act.next : Act → World → World
  | .connect opens, w => w.connect opens
  | .disconnect, w => w.disconnect
  | .send request callback, w => w.send request callback
  | .releaseAll, w => w.releaseAll
  | .tick, w => w.tick
  | .elapse seconds, w => { w with now := w.now + seconds }
  | .write, w => w.write
  | .breakLink, w => w.breakLink
  | .arrive link item, w => { w with events := w.events ++ [(link, item)] }

def Act.notes : Act → World → List Note
  | .connect opens, w => w.connectNotes opens
  | .disconnect, _ => [.disconnected]
  | .send request callback, w => w.sendNotes request callback
  | .releaseAll, w => w.releaseNotes
  | .tick, w => w.tickNotes
  | _, _ => []

def desk : Transition.System World Act Note where
  init := .boot
  step e w := some (e.next w, e.notes w)

end SwitchController.Host.App
