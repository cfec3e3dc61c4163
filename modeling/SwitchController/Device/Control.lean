import SwitchController.Device.State
import SwitchController.Lib.Crc32

/-! # PC control

`pc_control.c`: one JSON object a line, answered by one `@PC` line. The JSON
parser is cJSON, which this development takes as a parameter; what it returns is
a tree whose numbers are doubles and whose strings end at their first NUL. The
commands `pc_control_poll` receives come with the clock readings they meet.
-/

namespace SwitchController.Device

open Memory Nfc

/-! ## JSON trees -/

inductive Double
  | nan
  | infinite (negative : Bool)
  | finite (value : Rat)
deriving DecidableEq

inductive CJson
  | null
  | boolean (value : Bool)
  | number (valuedouble : Double)
  | string (valuestring : Bytes)
  | array (items : List CJson)
  | object (members : List (Bytes × CJson))

/-- What `strlen` and `strcmp` see of a buffer. -/
def cString (s : Bytes) : Bytes := s.takeWhile (· ≠ 0)

/-- `cJSON_GetObjectItemCaseSensitive`: the first member of that name. -/
def getObjectItem (o : CJson) (key : String) : Option CJson :=
  match o with
  | .object members => (members.find? fun m => cString m.1 = ascii key).map Prod.snd
  | _ => none

/-- An integer in `0..max`, whatever notation it was written in. -/
def number (o : CJson) (key : String) (max : Nat) : Option Nat :=
  match getObjectItem o key with
  | some (.number (.finite v)) =>
      if v < 0 ∨ v > max ∨ v ≠ v.floor then none else some v.floor.toNat
  | _ => none

/-! ## Hexadecimal and checksum -/

/-- `none` is the negative result for a character that is no digit. -/
def nibble (c : UInt8) : Option UInt8 :=
  if 0x30 ≤ c ∧ c ≤ 0x39 then some (c - 0x30)
  else if 0x61 ≤ c ∧ c ≤ 0x66 then some (c - 0x61 + 10)
  else if 0x41 ≤ c ∧ c ≤ 0x46 then some (c - 0x41 + 10)
  else none

/-- The decoding loop, two characters a byte. -/
def decodeHex : Bytes → Option Bytes
  | hi :: lo :: rest =>
      match nibble hi, nibble lo with
      | some hi, some lo => (decodeHex rest).map fun bytes => ((hi <<< 4) ||| lo) :: bytes
      | _, _ => none
  | _ => some []

def crc32 (bytes : Bytes) : UInt32 :=
  bytes.foldl (fun crc b =>
    (fun crc : UInt32 => (crc >>> 1) ^^^ (if crc &&& 1 ≠ 0 then 0xedb88320 else 0))^[8]
      (crc ^^^ b.toUInt32)) 0xffffffff ^^^ 0xffffffff

/-- The structural check of a candidate: manufacturer byte and both check bytes. -/
def ntagValid (candidate : Bytes) : Bool :=
  let b (i : Nat) : UInt8 := candidate.getD i 0
  b 0 = 0x04 ∧ b 3 = 0x88 ^^^ b 0 ^^^ b 1 ^^^ b 2 ∧ b 8 = b 4 ^^^ b 5 ^^^ b 6 ^^^ b 7

/-! ## Commands -/

def answer (id : Nat) (ok : Bool) (message : String) (c : Core) : Effect :=
  .answer {
    id := id, ok := ok, message := message, connected := c.linked, loaded := c.tagLoaded,
    crc := c.tagCrc, diagnostics := nfcDiagnostics c.nfc }

def release (c : Core) : Core × List Effect :=
  ({ c with ctrl := controllerStateInit, virtualGrip := false, lastState := 0 }, [.released])

def pcControlConnection (connected : Bool) (c : Core) : Core × List Effect :=
  release { c with linked := connected }

/-- The seven fields of a `state` command. -/
def readState (o : CJson) : Option ControllerState := do
  let r ← number o "r" 255
  let s ← number o "s" 63
  let l ← number o "l" 255
  let lx ← number o "lx" 4095
  let ly ← number o "ly" 4095
  let rx ← number o "rx" 4095
  let ry ← number o "ry" 4095
  some {
    rightButtons := .ofNat r, sharedButtons := .ofNat s, leftButtons := .ofNat l,
    leftStickX := .ofNat lx, leftStickY := .ofNat ly,
    rightStickX := .ofNat rx, rightStickY := .ofNat ry }

def commandState (o : CJson) (id : Nat) (now : Int) (c : Core) : Core × List Effect :=
  match readState o with
  | none => (c, [answer id false "Invalid controller state" c])
  | some state =>
      if c.linked then
        let c := { c with ctrl := state, lastState := now }
        (c, [.applied state now, answer id true "State applied" c])
      else
        let (c, log) := release c
        (c, log ++ [answer id false "Switch disconnected" c])

/-- The string and checksum fields of a `load` command, if both are acceptable. -/
def loadFields (o : CJson) : Option (Bytes × Nat) :=
  match getObjectItem o "hex" with
  | some (.string hex) =>
      if (cString hex).length ≠ 1080 then none
      else (number o "crc" 0xffffffff).map fun expected => (cString hex, expected)
  | _ => none

def commandLoad (o : CJson) (id : Nat) (c : Core) : Core × List Effect :=
  match loadFields o with
  | none => (c, [answer id false "Expected 540-byte raw BIN and CRC32" c])
  | some (hex, expected) =>
      match decodeHex hex with
      | none => (c, [answer id false "Invalid hex" c])
      | some candidate =>
          let actual := crc32 candidate
          if actual.toNat ≠ expected then (c, [answer id false "CRC mismatch" c])
          else if ntagValid candidate = false then
            (c, [answer id false "Invalid NTAG UID/BCC" c])
          else
            let call := Effect.nfc (.load candidate) c.nfc
            let c := { c with
              nfc := (nfcLoad candidate c.nfc).2, tagCrc := actual, tagLoaded := true }
            (c, [call, answer id true "BIN presented; NFC read experimental" c])

def commandUnload (id : Nat) (c : Core) : Core × List Effect :=
  let call := Effect.nfc .unload c.nfc
  let c := { c with nfc := nfcUnload c.nfc, tagLoaded := false, tagCrc := 0 }
  (c, [call, answer id true "BIN removed" c])

/-- The chain of comparisons with the command name. -/
def runCommand (o : CJson) (cmd : Bytes) (id : Nat) (now : Int) (c : Core) :
    Core × List Effect :=
  if cmd = ascii "status" then (c, [answer id true "PC controller v1" c])
  else if cmd = ascii "release" then
    let (c, log) := release c
    (c, log ++ [answer id true "Released" c])
  else if cmd = ascii "state" then commandState o id now c
  else if cmd = ascii "load" then commandLoad o id c
  else if cmd = ascii "unload" then commandUnload id c
  else (c, [answer id false "Unknown command" c])

def command (parse : Bytes → Option CJson) (line : Bytes) (now : Int) (c : Core) :
    Core × List Effect :=
  match parse (cString line) with
  | none => (c, [answer 0 false "Invalid JSON or id" c])
  | some o =>
      match number o "id" 2147483647 with
      | none => (c, [answer 0 false "Invalid JSON or id" c])
      | some id =>
          match getObjectItem o "cmd" with
          | some (.string cmd) => runCommand o (cString cmd) id now c
          | _ => (c, [answer id false "Missing cmd" c])

/-! ## Polling -/

/-- The lines received in turn, each with the time its command reads. -/
def commands (parse : Bytes → Option CJson) : List (Bytes × Int) → Core → Core × List Effect
  | [], c => (c, [])
  | (line, now) :: lines, c =>
      let (c, log) := command parse line now c
      let (c, rest) := commands parse lines c
      (c, log ++ rest)

/-- The watchdog limit in microseconds. -/
def stateTimeout : Int := 500000

def watchdog (now : Int) (c : Core) : Core × List Effect :=
  if c.lastState ≠ 0 ∧ now - c.lastState > stateTimeout then release c else (c, [])

/-- Up to four waiting lines, then the watchdog. -/
def pcControlPoll (parse : Bytes → Option CJson) (lines : List (Bytes × Int)) (now : Int)
    (c : Core) : Core × List Effect :=
  let (c, log) := commands parse (lines.take 4) c
  let (c, timeout) := watchdog now c
  (c, log ++ timeout)

/-! ## What a command does -/

/-- A state within the ranges the PC may send. -/
structure ControllerState.Bounded (state : ControllerState) : Prop where
  shared : state.sharedButtons ≤ 63
  leftX : state.leftStickX ≤ 4095
  leftY : state.leftStickY ≤ 4095
  rightX : state.rightStickX ≤ 4095
  rightY : state.rightStickY ≤ 4095

/-- Everything one line can do. -/
inductive Commanded (now : Int) (c : Core) : Core → List Effect → Prop
  | answered (a : Answer) : Commanded now c c [.answer a]
  | released (a : Answer) : Commanded now c (release c).1 [.released, .answer a]
  | applied {state : ControllerState} (a : Answer) (hl : c.linked = true) (hb : state.Bounded) :
      Commanded now c { c with ctrl := state, lastState := now } [.applied state now, .answer a]
  | loaded {candidate : Bytes} (a : Answer) (hlen : candidate.length = tagSize)
      (hv : ntagValid candidate = true) :
      Commanded now c { c with
          nfc := (nfcLoad candidate c.nfc).2, tagCrc := crc32 candidate, tagLoaded := true }
        [.nfc (.load candidate) c.nfc, .answer a]
  | unloaded (a : Answer) :
      Commanded now c { c with nfc := nfcUnload c.nfc, tagLoaded := false, tagCrc := 0 }
        [.nfc .unload c.nfc, .answer a]

/-- What `number` reads is a whole number in range, and it reads every such number. -/
theorem number_eq_some {o : CJson} {key : String} {max n : Nat} :
    number o key max = some n ↔
      n ≤ max ∧ getObjectItem o key = some (.number (.finite n)) := by
  have hfloor : (n : Rat).floor = n := Rat.floor_intCast n
  constructor
  · intro h
    unfold number at h
    split at h
    case h_1 v hitem =>
        split_ifs at h with hbad
        cases h
        have hneg : ¬ v < 0 := fun hc => hbad (.inl hc)
        have hmax : ¬ v > max := fun hc => hbad (.inr (.inl hc))
        have hwhole : v = v.floor := by
          by_contra hc
          exact hbad (.inr (.inr hc))
        have hpos : 0 ≤ v.floor := Rat.le_floor_iff.mpr (Rat.not_lt.mp hneg)
        have hnat : v = ((v.floor.toNat : Nat) : Rat) := by
          have hcast : ((v.floor.toNat : Nat) : Int) = v.floor := Int.toNat_of_nonneg hpos
          rw [← Rat.intCast_natCast, hcast]
          exact hwhole
        refine ⟨?_, by rw [hitem, ← hnat]⟩
        have hle := Rat.not_lt.mp hmax
        rw [hnat] at hle
        exact Rat.natCast_le_natCast.mp hle
    case h_2 => cases h
  · intro h
    have hneg : ¬ (n : Rat) < 0 := Rat.not_lt.mpr (Rat.natCast_nonneg)
    have hmax : ¬ (n : Rat) > max := Rat.not_lt.mpr (Rat.natCast_le_natCast.mpr h.1)
    have hwhole : ¬ (n : Rat) ≠ ((n : Int) : Rat) := not_not.mpr (Rat.intCast_natCast n).symm
    unfold number
    simp only [h.2, hfloor, hneg, hmax, hwhole, false_or, if_false, Int.toNat_natCast]

theorem number_le {o : CJson} {key : String} {max n : Nat} (h : number o key max = some n) :
    n ≤ max := (number_eq_some.mp h).1

theorem readState_bounded {o : CJson} {state : ControllerState} (h : readState o = some state) :
    state.Bounded := by
  unfold readState at h
  simp only [Option.bind_eq_bind, Option.bind_eq_some_iff, Option.some.injEq] at h
  obtain ⟨r, hr, s, hs, l, hl, lx, hlx, ly, hly, rx, hrx, ry, hry, rfl⟩ := h
  have hs := number_le hs
  have hlx := number_le hlx
  have hly := number_le hly
  have hrx := number_le hrx
  have hry := number_le hry
  constructor
  · rw [UInt8.le_iff_toNat_le, UInt8.toNat_ofNat']
    exact Nat.le_trans (Nat.mod_le _ _) hs
  all_goals
    rw [UInt16.le_iff_toNat_le, UInt16.toNat_ofNat']
    exact Nat.le_trans (Nat.mod_le _ _) (by assumption)

theorem decodeHex_length (hex : Bytes) {bytes : Bytes} (h : decodeHex hex = some bytes) :
    bytes.length = hex.length / 2 := by
  fun_induction decodeHex hex generalizing bytes with
  | case1 hi lo rest hi' hhi lo' hlo ih =>
      obtain ⟨tail, ht, rfl⟩ := Option.map_eq_some_iff.mp h
      have := ih ht
      simp only [List.length_cons]
      omega
  | case2 => cases h
  | case3 hex hshort =>
      cases h
      match hex, hshort with
      | [], _ => rfl
      | [_], _ => simp
      | hi :: lo :: rest, hshort => exact absurd rfl (hshort hi lo rest)

theorem commandState_spec (o : CJson) (id : Nat) (now : Int) (c : Core) :
    Commanded now c (commandState o id now c).1 (commandState o id now c).2 := by
  unfold commandState
  split
  · exact .answered _
  · rename_i state hs
    by_cases hl : c.linked = true
    · rw [if_pos hl]
      exact .applied _ hl (readState_bounded hs)
    · rw [if_neg hl]
      exact .released _

theorem loadFields_length {o : CJson} {hex : Bytes} {expected : Nat}
    (h : loadFields o = some (hex, expected)) : hex.length = 1080 := by
  unfold loadFields at h
  split at h
  · split_ifs at h with hlen
    obtain ⟨_, -, heq⟩ := Option.map_eq_some_iff.mp h
    cases heq
    exact not_not.mp hlen
  · cases h

theorem commandLoad_spec (o : CJson) (id : Nat) (now : Int) (c : Core) :
    Commanded now c (commandLoad o id c).1 (commandLoad o id c).2 := by
  unfold commandLoad
  split
  · exact .answered _
  · rename_i hex expected hf
    split
    · exact .answered _
    · rename_i candidate hd
      have hlen : candidate.length = tagSize := by
        rw [decodeHex_length hex hd, loadFields_length hf]
        rfl
      dsimp only
      split_ifs with hcrc hv
      · exact .answered _
      · exact .answered _
      · exact .loaded _ hlen (by simpa using hv)

theorem command_spec (parse : Bytes → Option CJson) (line : Bytes) (now : Int) (c : Core) :
    Commanded now c (command parse line now c).1 (command parse line now c).2 := by
  unfold command
  split
  · exact .answered _
  split
  · exact .answered _
  split
  · unfold runCommand
    split_ifs
    · exact .answered _
    · exact .released _
    · exact commandState_spec _ _ now c
    · exact commandLoad_spec _ _ now c
    · exact .unloaded _
    · exact .answered _
  · exact .answered _

/-! ## What a poll does -/

theorem Commanded.linked {now : Int} {c c' : Core} {log : List Effect}
    (h : Commanded now c c' log) : c'.linked = c.linked := by
  cases h <;> rfl

theorem commands_append (parse : Bytes → Option CJson) (before lines : List (Bytes × Int))
    (c : Core) :
    commands parse (before ++ lines) c =
      ((commands parse lines (commands parse before c).1).1,
        (commands parse before c).2 ++ (commands parse lines (commands parse before c).1).2) := by
  induction before generalizing c with
  | nil => rfl
  | cons line before ih =>
      simp only [List.cons_append, commands, ih, List.append_assoc]

theorem commands_linked (parse : Bytes → Option CJson) (lines : List (Bytes × Int)) (c : Core) :
    (commands parse lines c).1.linked = c.linked := by
  induction lines generalizing c with
  | nil => rfl
  | cons line lines ih => exact (ih _).trans (command_spec parse line.1 line.2 c).linked

/-- The rule for polls: a relation that holds of every command and of a timeout, and
composes, holds of a whole poll. -/
theorem poll_rule {P : Core → List Effect → Core → Prop} (nil : ∀ c, P c [] c)
    (append : ∀ c c₁ c' log log', P c log c₁ → P c₁ log' c' → P c (log ++ log') c')
    (command : ∀ now c c' log, Commanded now c c' log → P c log c')
    (timeout : ∀ c, P c (release c).2 (release c).1)
    (parse : Bytes → Option CJson) (lines : List (Bytes × Int)) (now : Int) (c : Core) :
    P c (pcControlPoll parse lines now c).2 (pcControlPoll parse lines now c).1 := by
  have hlines : ∀ (lines : List (Bytes × Int)) (c : Core),
      P c (commands parse lines c).2 (commands parse lines c).1 := by
    intro lines
    induction lines with
    | nil => exact nil
    | cons line lines ih =>
        intro c
        exact append _ _ _ _ _ (command _ _ _ _ (command_spec parse line.1 line.2 c)) (ih _)
  have hwatch (c : Core) : P c (watchdog now c).2 (watchdog now c).1 := by
    unfold watchdog
    split
    · exact timeout c
    · exact nil c
  exact append _ _ _ _ _ (hlines (lines.take 4) c) (hwatch _)

end SwitchController.Device
