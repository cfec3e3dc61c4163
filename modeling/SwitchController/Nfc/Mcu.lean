import SwitchController.Lib.Memory
import SwitchController.Lib.RingBuffer
import SwitchController.Lib.Transition

/-! # The NFC microcontroller

The module statics of `nfc_mcu.c` are one record and every function maps it to
the next one. Packets are built in place: `reserve` clears a slot of the ring
and hands out its index, the caller fills the slot through it and `finish` sets
the checksum byte. A read of a received buffer past its end, or a use of the
null pointer `reserve` returns on a full ring, is the value `none`.
-/

namespace SwitchController.Nfc

open Memory

def mcuSize : Nat := 313
def tagSize : Nat := 540

/-- Slots of the packet ring. -/
def queueSize : Nat := 4

structure Mcu where
  tag : Bytes
  present : Bool
  seen : Bool
  powerState : UInt8
  pollState : UInt8
  queue : RingBuffer Bytes
  received : UInt32
  rejected : UInt32
  lastCmd : UInt8
  lastSub : UInt8

/-- The statics before anything ran. -/
def Mcu.boot : Mcu where
  tag := zeros tagSize
  present := false
  seen := false
  powerState := 0
  pollState := 0
  queue := { slots := fun _ => zeros mcuSize, head := 0, count := 0 }
  received := 0
  rejected := 0
  lastCmd := 0
  lastSub := 0

structure Diagnostics where
  power : UInt8
  poll : UInt8
  lastCmd : UInt8
  lastSub : UInt8
  pending : UInt32
  received : UInt32
  rejected : UInt32
  present : Bool
deriving DecidableEq, Repr

def nfcDiagnostics (m : Mcu) : Diagnostics :=
  { power := m.powerState, poll := m.pollState, lastCmd := m.lastCmd, lastSub := m.lastSub,
    pending := .ofNat m.queue.count, received := m.received, rejected := m.rejected,
    present := m.present }

/-- One pass of the inner loop of `nfc_crc8`. -/
def crcShift (crc : UInt8) : UInt8 :=
  if crc &&& 0x80 ≠ 0 then (crc <<< 1) ^^^ 7 else crc <<< 1

def nfcCrc8 (data : Bytes) : UInt8 :=
  data.foldl (fun crc b => crcShift^[8] (crc ^^^ b)) 0

/-! ## Slots -/

def flush (m : Mcu) : Mcu := { m with queue := m.queue.clear }

/-- `none` is the null pointer of a full ring. -/
def reserve (m : Mcu) : Option (Nat × Mcu) :=
  if m.queue.count = queueSize then none
  else
    let slot := (m.queue.head + m.queue.count) % queueSize
    some (slot, { m with
      queue := { m.queue.store slot (zeros mcuSize) with count := m.queue.count + 1 } })

/-- What the pointer handed out by `reserve` points at. -/
def Mcu.slot (m : Mcu) (slot : Nat) : Bytes := m.queue.slots slot

def Mcu.store (m : Mcu) (slot : Nat) (p : Bytes) : Mcu :=
  { m with queue := m.queue.store slot p }

def finish (p : Bytes) : Bytes := p.set 312 (nfcCrc8 (p.take 312))

/-- `uid(out)` with `out = p + offset`. -/
def uid (m : Mcu) (p : Bytes) (offset : Nat) : Bytes :=
  memcpy (memcpy p offset (m.tag.take 3)) (offset + 3) ((m.tag.drop 4).take 4)

/-! ## Packet builders -/

def status (m : Mcu) : Mcu :=
  match reserve m with
  | none => m
  | some (slot, m) =>
      let p := m.slot slot
      let p :=
        if m.powerState = 0 then p.set 0 0xff
        else (memcpy p 0 [1, 0, 0, 0, 8, 0, 0x1b]).set 7 m.powerState
      m.store slot (finish p)

def poll (m : Mcu) : Mcu :=
  match reserve m with
  | none => m
  | some (slot, m) =>
      let p := memcpy (m.slot slot) 0 [0x2a, 0, 5, 0, 0, 9, 0x31]
      let (m, p) :=
        if m.present = true ∧ m.pollState ≠ 0 then
          let m := { m with pollState := if m.seen then 9 else 1, seen := true }
          (m, uid m (memcpy p 8 [0, 0, 0, 1, 1, 2, 0, 7]) 16)
        else (m, p)
      m.store slot (finish (p.set 7 m.pollState))

/-- Header and metadata of the first read fragment. -/
def readWire : Bytes :=
  [0x3a, 0x00, 0x07, 0x01, 0x00, 0x01, 0x31, 0x02, 0x00, 0x00, 0x00, 0x01, 0x02, 0x00, 0x07]

def readMeta : Bytes :=
  [0, 0, 0, 0, 0x7d, 0xfd, 0xf0, 0x79, 0x36, 0x51, 0xab, 0xd7, 0x46, 0x6e,
   0x39, 0xc1, 0x91, 0xba, 0xbe, 0xb8, 0x56, 0xce, 0xed, 0xf1, 0xce, 0x44,
   0xcc, 0x75, 0xea, 0xfb, 0x27, 9, 0x4d, 8, 0x7a, 0xe8, 3, 0, 0x3b, 0x3c,
   0x77, 0x78, 0x86, 0, 0]

def readSecond : Bytes := [0x3a, 0, 7, 2, 0, 9, 0x27]

def readTail : Bytes := [0x2a, 0, 5, 0, 0, 9, 0x31, 4, 0, 0, 0, 1, 1, 2, 0, 7]

/-- The three `reserve` results are used unchecked. -/
def readTag (m : Mcu) : Option Mcu := do
  let m := flush m
  let (slot, m) ← reserve m
  let p := memcpy (m.slot slot) 0 readWire
  let p := uid m p readWire.length
  let p := memcpy p (readWire.length + 7) readMeta
  let p := memcpy p (readWire.length + 7 + readMeta.length) (m.tag.take 245)
  let m := m.store slot (finish p)
  let (slot, m) ← reserve m
  let p := memcpy (m.slot slot) 0 readSecond
  let p := memcpy p 7 ((m.tag.drop 245).take 295)
  let m := m.store slot (finish p)
  let (slot, m) ← reserve m
  let p := memcpy (m.slot slot) 0 readTail
  let p := uid m p readTail.length
  pure (m.store slot (finish p))

/-! ## Entry points -/

def nfcReset (m : Mcu) : Mcu :=
  { flush m with
    powerState := 0, pollState := 0, seen := false, received := 0, rejected := 0,
    lastCmd := 0, lastSub := 0 }

def nfcLoad (data : Bytes) (m : Mcu) : Bool × Mcu :=
  if data.length ≠ tagSize then (false, m)
  else
    let m := flush { m with tag := data, present := true, seen := false }
    if m.powerState = 4 ∧ m.pollState ≠ 0 then (true, poll { m with pollState := 1 })
    else if m.powerState ≠ 0 then (true, status m)
    else (true, m)

def nfcUnload (m : Mcu) : Mcu :=
  let m := flush { m with present := false, seen := false, tag := zeros m.tag.length }
  if m.pollState ≠ 0 then
    let m := { m with pollState := 1 }
    if m.powerState = 4 then poll m else m
  else m

def nfcPower (value : UInt8) (m : Mcu) : Bool × Mcu :=
  if value > 1 then (false, m)
  else (true, status { flush m with powerState := value, pollState := 0, seen := false })

/-- The reply handed back by `nfc_config`, 34 bytes with the checksum last. -/
def configReply : Bytes :=
  let reply := memcpy (zeros 34) 0 [1, 0, 0xff, 0, 8, 0, 0x1b, 1]
  reply.set 33 (nfcCrc8 (reply.take 33))

/-- The inner `none` is a rejected request. -/
def nfcConfig (args : Bytes) (m : Mcu) : Option (Option Bytes × Mcu) :=
  if args.length < 3 then some (none, m)
  else do
    let mode ← args[2]?
    if mode ≠ 0 ∧ mode ≠ 1 ∧ mode ≠ 4 then pure (none, m)
    else if m.powerState ≠ 0 ∧ mode ≠ 0 then
      pure (some configReply,
        status (flush { m with powerState := mode, pollState := 0, seen := false }))
    else pure (some configReply, m)

/-- The loop over the write setup bytes `data[6..12]`: is any of them set? -/
def writeSetup (data : Bytes) : Nat → Nat → Option Bool
  | _, 0 => some false
  | i, n + 1 => do
      let b ← data[i]?
      if b ≠ 0 then pure true else writeSetup data (i + 1) n

/-- The switch of `handle_command` on `packet[11]`, with `data = packet + 12`. -/
def handleSub (sub : UInt8) (data : Bytes) (m : Mcu) : Option (Bool × Mcu) :=
  match sub with
  | 1 => some (true, { m with pollState := 1 })
  | 2 => some (true, flush { m with pollState := 0, seen := false })
  | 4 => some (true, poll m)
  | 6 =>
      if data.length < 13 ∨ m.present = false then some (false, m)
      else do
        let unsupported ← writeSetup data 6 7
        if unsupported then some (false, m)
        else (readTag m).map fun m => (true, m)
  | _ => some (false, m)

def handleCommand (packet : Bytes) (m : Mcu) : Option (Bool × Mcu) :=
  if packet.length < 11 then some (false, m)
  else do
    let report ← packet[0]?
    if report ≠ 0x11 then some (false, m)
    else do
      let cmd ← packet[10]?
      if cmd = 1 then some (true, status m)
      else if cmd ≠ 2 ∨ packet.length < 12 ∨ m.powerState ≠ 4 then some (false, m)
      else do
        let sub ← packet[11]?
        handleSub sub (packet.drop 12) m

/-- The diagnostic bytes `nfc_command` records: zero when the packet is too short. -/
def commandByte (packet : Bytes) (i : Nat) : Option UInt8 :=
  if packet.length > i then packet[i]? else some 0

def nfcCommand (packet : Bytes) (m : Mcu) : Option (Bool × Mcu) := do
  let cmd ← commandByte packet 10
  let sub ← commandByte packet 11
  let (ok, m) ← handleCommand packet
    { m with received := m.received + 1, lastCmd := cmd, lastSub := sub }
  if ok then pure (ok, m) else pure (ok, { m with rejected := m.rejected + 1 })

def nfcPeek (m : Mcu) : Bytes :=
  if m.queue.count ≠ 0 then m.slot m.queue.head
  else finish ((zeros mcuSize).set 0 0xff)

def nfcCommit (m : Mcu) : Mcu :=
  if m.queue.count ≠ 0 then { m with queue := m.queue.pop queueSize } else m

/-! ## The module as a system -/

/-- Calls of the module's interface. -/
inductive Op
  | reset
  | load (data : Bytes)
  | unload
  | power (value : UInt8)
  | config (args : Bytes)
  | command (packet : Bytes)
  | peek
  | commit
deriving DecidableEq, Repr

/-- What a call hands back. -/
inductive Result
  | done
  | accepted (ok : Bool)
  | reply (payload : Option Bytes)
  | packet (p : Bytes)
deriving DecidableEq, Repr

def step : Op → Mcu → Option (Mcu × List Result)
  | .reset, m => some (nfcReset m, [.done])
  | .load data, m => some ((nfcLoad data m).2, [.accepted (nfcLoad data m).1])
  | .unload, m => some (nfcUnload m, [.done])
  | .power value, m => some ((nfcPower value m).2, [.accepted (nfcPower value m).1])
  | .config args, m => (nfcConfig args m).map fun r => (r.2, [.reply r.1])
  | .command packet, m => (nfcCommand packet m).map fun r => (r.2, [.accepted r.1])
  | .peek, m => some (m, [.packet (nfcPeek m)])
  | .commit, m => some (nfcCommit m, [.done])

/-- The MCU under any sequence of calls. -/
def machine : Transition.System Mcu Op Result where
  init := Mcu.boot
  step := step

end SwitchController.Nfc
