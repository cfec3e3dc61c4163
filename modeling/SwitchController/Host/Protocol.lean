import Mathlib.Data.List.TakeWhile
import SwitchController.Device.Parser
import SwitchController.Device.Tag
import SwitchController.Device.Uart

/-! # The line protocol

`protocol.py` and the writing side of `serial_link.py`. A dump the PC accepts
travels as one line of JSON; the firmware stores that line whole and ends up with
the bytes of the file, and it accepts no dump the PC would have refused.
-/

namespace SwitchController.Host

open Memory Device FlatJson

/-! ## Dumps -/

def hexDigit (n : Nat) : UInt8 := if n < 10 then .ofNat (48 + n) else .ofNat (87 + n)

/-- `bytes.hex`. -/
def hex (data : Bytes) : Bytes :=
  data.flatMap fun b => [hexDigit (b.toNat / 16), hexDigit (b.toNat % 16)]

/-- The dictionary of a `load` command. -/
structure LoadCommand where
  hex : Bytes
  crc : Nat
deriving DecidableEq, Repr

/-- The first 541 bytes of the file decide, and the check bytes are compared as integers. -/
def loadBin (file : Bytes) : Except String LoadCommand :=
  let data := file.take 541
  if data.length ≠ 540 then
    .error "Se requiere un dump raw de 540 bytes; no se recorta ni convierte."
  else
    let b (i : Nat) : Nat := (data.getD i 0).toNat
    if b 0 ≠ 4 ∨ b 3 ≠ 0x88 ^^^ b 0 ^^^ b 1 ^^^ b 2 ∨ b 8 ≠ b 4 ^^^ b 5 ^^^ b 6 ^^^ b 7 then
      .error "UID/BCC del archivo NTAG inválido."
    else .ok { hex := hex data, crc := (Crc32.standard data).toNat }

/-! ## Lines -/

def LoadCommand.object (command : LoadCommand) : Object :=
  [(ascii "cmd", .string (ascii "load")), (ascii "hex", .string command.hex),
    (ascii "crc", .number command.crc)]

/-- `dict(command, id=seq)`. -/
def withId (command : Object) (id : Nat) : Object := command ++ [(ascii "id", .number id)]

/-- What `SerialLink.send` queues for the port. -/
def linkLine (command : Object) : Bytes := dumps command ++ [0x0a]

/-! ## Hexadecimal -/

theorem nibble_hexDigit {n : Nat} (h : n < 16) : nibble (hexDigit n) = some (.ofNat n) := by
  have hall : ∀ n < 16, nibble (hexDigit n) = some (.ofNat n) := by decide
  exact hall n h

theorem hexDigit_plain {n : Nat} (h : n < 16) : isPlain (hexDigit n) = true := by
  have hall : ∀ n < 16, isPlain (hexDigit n) = true := by decide
  exact hall n h

theorem nibbles_byte (b : UInt8) :
    (UInt8.ofNat (b.toNat / 16) <<< 4) ||| UInt8.ofNat (b.toNat % 16) = b := by
  have hall : ∀ n < 256, (UInt8.ofNat (n / 16) <<< 4) ||| UInt8.ofNat (n % 16) = .ofNat n := by
    decide +kernel
  rw [hall b.toNat b.toNat_lt]
  exact UInt8.ofNat_toNat

theorem hex_cons (b : UInt8) (data : Bytes) :
    hex (b :: data) = hexDigit (b.toNat / 16) :: hexDigit (b.toNat % 16) :: hex data := rfl

theorem hex_length (data : Bytes) : (hex data).length = 2 * data.length := by
  induction data with
  | nil => rfl
  | cons b data ih =>
      rw [hex_cons]
      simp only [List.length_cons, ih]
      omega

theorem hex_plain (data : Bytes) : PlainText (hex data) := by
  induction data with
  | nil => simp [hex, PlainText]
  | cons b data ih =>
      intro c hc
      have hb := b.toNat_lt
      rw [hex_cons] at hc
      rcases List.mem_cons.mp hc with rfl | hc
      · exact hexDigit_plain (by omega)
      rcases List.mem_cons.mp hc with rfl | hc
      · exact hexDigit_plain (by omega)
      · exact ih c hc

/-- The firmware reads back what the PC wrote. -/
theorem decodeHex_hex (data : Bytes) : decodeHex (hex data) = some data := by
  induction data with
  | nil => rfl
  | cons b data ih =>
      have hb := b.toNat_lt
      rw [hex_cons, decodeHex, nibble_hexDigit (by omega), nibble_hexDigit (by omega)]
      simp only [ih, Option.map_some, nibbles_byte]

/-! ## The two checks -/

/-- The same condition on a byte, written with integers and with bytes. -/
theorem ntagValid_iff (data : Bytes) :
    ntagValid data = true ↔
      (data.getD 0 0).toNat = 4 ∧
      (data.getD 3 0).toNat = 0x88 ^^^ (data.getD 0 0).toNat ^^^ (data.getD 1 0).toNat ^^^
        (data.getD 2 0).toNat ∧
      (data.getD 8 0).toNat = (data.getD 4 0).toNat ^^^ (data.getD 5 0).toNat ^^^
        (data.getD 6 0).toNat ^^^ (data.getD 7 0).toNat := by
  have hfour : (4 : UInt8).toNat = 4 := rfl
  have hcascade : (0x88 : UInt8).toNat = 0x88 := rfl
  unfold ntagValid
  simp only [decide_eq_true_eq, ← UInt8.toNat_inj, UInt8.toNat_xor, hfour, hcascade]

theorem loadBin_ok_iff {file : Bytes} {command : LoadCommand} :
    loadBin file = .ok command ↔ file.length = 540 ∧ ntagValid file = true ∧
      command = { hex := hex file, crc := (Crc32.standard file).toNat } := by
  unfold loadBin
  by_cases hlen : file.length = 540
  · have htake : file.take 541 = file := List.take_of_length_le (by omega)
    have hvalid := ntagValid_iff file
    rw [htake]
    simp only [hlen, ne_eq, not_true_eq_false, if_false, true_and]
    by_cases hv : ntagValid file = true
    · have hgood := hvalid.mp hv
      rw [if_neg (by tauto)]
      simp [hv, eq_comm]
    · have hbad := mt hvalid.mpr hv
      rw [if_pos (by tauto)]
      simp [hv]
  · have hshort : (file.take 541).length ≠ 540 := by
      rw [List.length_take]
      omega
    rw [if_pos hshort]
    simp [hlen]

/-! ## From line to tag -/

theorem crc_lt (data : Bytes) : (Crc32.standard data).toNat < 2 ^ 32 :=
  (Crc32.standard data).toNat_lt

/-- The command of an accepted dump with an id of the PC. -/
def loadObject (file : Bytes) (id : Nat) : Object :=
  withId (LoadCommand.object { hex := hex file, crc := (Crc32.standard file).toNat }) id

theorem loadObject_plain (file : Bytes) (id : Nat) : Plain (loadObject file id) := by
  have hkey {text : Bytes} (h : text.all isPlain = true) : PlainText text := by
    intro c hc
    exact List.all_eq_true.mp h c hc
  intro m hm
  simp only [loadObject, withId, LoadCommand.object, List.cons_append, List.nil_append,
    List.mem_cons, List.not_mem_nil, or_false] at hm
  rcases hm with rfl | rfl | rfl | rfl
  · exact ⟨hkey rfl, hkey rfl⟩
  · exact ⟨hkey rfl, hex_plain file⟩
  · exact ⟨hkey rfl, trivial⟩
  · exact ⟨hkey rfl, trivial⟩

theorem loadObject_numbers (file : Bytes) {id : Nat} (hid : id ≤ 2147483647) (key : Bytes)
    (n : Nat) (h : (key, .number n) ∈ loadObject file id) : n < 2 ^ 53 := by
  have hcrc := crc_lt file
  simp only [loadObject, withId, LoadCommand.object, List.cons_append, List.nil_append,
    List.mem_cons, Prod.mk.injEq, reduceCtorEq, and_false, Scalar.number.injEq,
    List.not_mem_nil, or_false, false_or] at h
  omega

/-- The longest such line has 1136 characters. -/
theorem loadObject_fits {file : Bytes} (hlen : file.length = 540) {id : Nat}
    (hid : id ≤ 2147483647) : (dumps (loadObject file id)).length ≤ 1136 := by
  have hcrc : (decimal (Crc32.standard file).toNat).length ≤ 10 :=
    decimal_length (Nat.lt_of_lt_of_le (crc_lt file) (by decide))
  have hseq : (decimal id).length ≤ 10 := decimal_length (by omega)
  have hhex := hex_length file
  simp only [loadObject, withId, LoadCommand.object, dumps, dumpsMembers, dumpsMember, quote,
    Scalar.dumps, List.cons_append, List.nil_append, List.length_cons, List.length_append,
    List.length_nil, hhex, hlen]
  simp only [show (ascii "cmd").length = 3 from rfl, show (ascii "load").length = 4 from rfl,
    show (ascii "hex").length = 3 from rfl, show (ascii "crc").length = 3 from rfl,
    show (ascii "id").length = 2 from rfl]
  omega

theorem number_nat {o : CJson} {key : String} {max n : Nat}
    (h : getObjectItem o key = some (.number (.finite n))) (hn : n ≤ max) :
    number o key max = some n :=
  number_eq_some.mpr ⟨hn, h⟩

theorem cString_text {text : Bytes} (h : ∀ c ∈ text, 0x20 ≤ c) : cString text = text := by
  refine List.takeWhile_eq_self_iff.mpr fun c hc => ?_
  have hpos := h c hc
  have hz : c ≠ 0 := by
    rintro rfl
    exact absurd hpos (by decide)
  simpa using hz

theorem hex_printable (data : Bytes) : ∀ c ∈ hex data, 0x20 ≤ c := by
  intro c hc
  have hp := hex_plain data c hc
  simp only [isPlain, Bool.and_eq_true, decide_eq_true_eq] at hp
  exact hp.1.1.1

/-- The firmware on the tree of an accepted dump. -/
theorem commandLoad_tree {file : Bytes} (hlen : file.length = 540) (hv : ntagValid file = true)
    (id : Nat) (c : Core) :
    ∃ c' a, commandLoad (tree (loadObject file id)) id c =
        (c', [.nfc (.load file) c.nfc, .answer a]) ∧ a.ok = true ∧ a.id = id ∧
      c'.nfc = (Nfc.nfcLoad file c.nfc).2 ∧ c'.tagLoaded = true ∧
      c'.tagCrc = Crc32.standard file := by
  have hitem : getObjectItem (tree (loadObject file id)) "hex" = some (.string (hex file)) := rfl
  have hcrc : number (tree (loadObject file id)) "crc" 0xffffffff =
      some (Crc32.standard file).toNat := by
    have hbound := crc_lt file
    exact number_nat rfl (by omega)
  have htext := cString_text (hex_printable file)
  have hfields : loadFields (tree (loadObject file id)) =
      some (hex file, (Crc32.standard file).toNat) := by
    unfold loadFields
    simp only [hitem, htext, hex_length, hlen, hcrc]
    rfl
  unfold commandLoad
  simp only [hfields, decodeHex_hex, crc32_eq_standard, hv, ne_eq, not_true_eq_false, if_false,
    Bool.true_eq_false, answer, List.cons.injEq, Prod.mk.injEq, Effect.answer.injEq]
  refine ⟨_, _, ⟨rfl, trivial, rfl, trivial⟩, rfl, rfl, rfl, rfl, rfl⟩

theorem loadObject_cmd (file : Bytes) (id : Nat) :
    getObjectItem (tree (loadObject file id)) "cmd" = some (.string (ascii "load")) := rfl

theorem command_load {parse : Bytes → Option CJson} (hparse : ParsesFlat parse) {file : Bytes}
    (hlen : file.length = 540) (hv : ntagValid file = true) {id : Nat} (hid : id ≤ 2147483647)
    {item : Bytes} (hitem : cString item = dumps (loadObject file id)) (now : Int) (c : Core) :
    ∃ c' a, command parse item now c = (c', [.nfc (.load file) c.nfc, .answer a]) ∧
      a.ok = true ∧ a.id = id ∧ c'.nfc = (Nfc.nfcLoad file c.nfc).2 ∧ c'.tagLoaded = true ∧
      c'.tagCrc = Crc32.standard file := by
  have htree := hparse _ (loadObject_plain file id) (loadObject_numbers file hid)
  have hnumber : number (tree (loadObject file id)) "id" 2147483647 = some id :=
    number_nat rfl hid
  have hcmd := loadObject_cmd file id
  have hload : runCommand (tree (loadObject file id)) (cString (ascii "load")) id now c =
      commandLoad (tree (loadObject file id)) id c := rfl
  unfold command
  simp only [hitem, htree, hnumber, hcmd, hload]
  exact commandLoad_tree hlen hv id c

theorem nfcLoad_tag {data : Bytes} (h : data.length = 540) (m : Nfc.Mcu) :
    (Nfc.nfcLoad data m).2.tag = data ∧ (Nfc.nfcLoad data m).2.present = true := by
  by_cases hpoll : m.powerState = 4 ∧ m.pollState ≠ 0
  · rw [Nfc.nfcLoad_polling h hpoll.1 hpoll.2]
    exact ⟨rfl, rfl⟩
  · by_cases hpower : m.powerState = 0
    · rw [Nfc.nfcLoad_off h hpower]
      exact ⟨rfl, rfl⟩
    · rw [Nfc.nfcLoad_idle h hpoll hpower]
      exact ⟨rfl, rfl⟩

/-- What an accepted `load` command carried. -/
theorem commandLoad_accepted {o : CJson} {id : Nat} {c c' : Core} {log : List Effect}
    (hrun : commandLoad o id c = (c', log)) {a : Answer} (ha : .answer a ∈ log)
    (hok : a.ok = true) :
    ∃ text candidate, getObjectItem o "hex" = some (.string text) ∧
      decodeHex (cString text) = some candidate ∧ candidate.length = 540 ∧
      ntagValid candidate = true ∧
      number o "crc" 0xffffffff = some (Crc32.standard candidate).toNat ∧
      c'.nfc = (Nfc.nfcLoad candidate c.nfc).2 := by
  have hno {message : String} {c₁ : Core} (h : .answer a ∈ [answer id false message c₁]) :
      False := by
    cases List.mem_singleton.mp h
    cases hok
  unfold commandLoad at hrun
  cases hf : loadFields o with
  | none =>
      simp only [hf] at hrun
      cases hrun
      exact (hno ha).elim
  | some fields =>
      obtain ⟨text, expected⟩ := fields
      have hlen := loadFields_length hf
      unfold loadFields at hf
      split at hf
      · rename_i hexText hitem
        split_ifs at hf
        obtain ⟨n, hn, heq⟩ := Option.map_eq_some_iff.mp hf
        cases heq
        have hfields : loadFields o = some (cString hexText, expected) := by
          unfold loadFields
          simp only [hitem, hn, hlen]
          rfl
        simp only [hfields] at hrun
        cases hd : decodeHex (cString hexText) with
        | none =>
            simp only [hd] at hrun
            cases hrun
            exact (hno ha).elim
        | some candidate =>
            simp only [hd] at hrun
            have hsize : candidate.length = 540 := by
              rw [decodeHex_length _ hd, hlen]
            split_ifs at hrun with hcrc hv
            · cases hrun
              exact (hno ha).elim
            · cases hrun
              exact (hno ha).elim
            · cases hrun
              refine ⟨hexText, candidate, hitem, hd, hsize, by simpa using hv, ?_, rfl⟩
              rw [hn, ← not_not.mp hcrc, crc32_eq_standard]
      · cases hf

/-- PC and firmware accept the same dumps, and loading one is exact: read at the start of a
line, with any gaps, its line waits whole in the queue if that has room, is received in its
turn, and `command` then leaves the file in the tag. -/
theorem load_round_trip :
    (∀ file, (∃ command, loadBin file = .ok command) ↔
      file.length = 540 ∧ ntagValid file = true) ∧
    (∀ parse, ParsesFlat parse → ∀ (Q : Type) (q : CommandQueue Q) items, q.Documented items →
      ∀ line, line.length = lineSize → ∀ file command, loadBin file = .ok command →
      ∀ id, 1 ≤ id → id ≤ 2147483647 →
      ∀ u, (uart q line).Reachable u → u.reader.Fresh →
      ∀ es, (readsOf es).reduceOption = linkLine (withId command.object id) →
      ∃ u' received item, (uart q line).run es u = some (u', received) ∧ u'.reader.Fresh ∧
        cString item = dumps (withId command.object id) ∧
        ((items u.commands).length < commandQueueSize →
          received ++ items u'.commands = items u.commands ++ [item] ∧
          ∀ es' u'' later, (uart q line).run es' u' = some (u'', later) →
            (items u.commands).length < (received ++ later).length →
            (received ++ later)[(items u.commands).length]? = some item) ∧
        ∀ now c, ∃ c' a,
          Device.command parse item now c = (c', [.nfc (.load file) c.nfc, .answer a]) ∧
          a.ok = true ∧ a.id = id ∧ c'.nfc.tag = file ∧ c'.nfc.present = true ∧
          c'.tagLoaded = true ∧ c'.tagCrc.toNat = command.crc) ∧
    (∀ parse line now c c' log o cmd a, parse (cString line) = some o →
      getObjectItem o "cmd" = some (.string cmd) → cString cmd = ascii "load" →
      Device.command parse line now c = (c', log) → .answer a ∈ log → a.ok = true →
      ∃ text candidate, getObjectItem o "hex" = some (.string text) ∧
        decodeHex (cString text) = some candidate ∧ candidate.length = 540 ∧
        (∃ command, loadBin candidate = .ok command) ∧
        number o "crc" 0xffffffff = some (Crc32.standard candidate).toNat ∧
        c'.nfc.tag = candidate) := by
  refine ⟨fun file => ?_, ?_, ?_⟩
  · constructor
    · rintro ⟨command, h⟩
      obtain ⟨hlen, hv, -⟩ := loadBin_ok_iff.mp h
      exact ⟨hlen, hv⟩
    · rintro ⟨hlen, hv⟩
      exact ⟨_, loadBin_ok_iff.mpr ⟨hlen, hv, rfl⟩⟩
  · intro parse hparse Q q items hq line hline file command hload id _ hid u hu hf es hes
    obtain ⟨hlen, hv, rfl⟩ := loadBin_ok_iff.mp hload
    have hprintable := dumps_printable (loadObject_plain file id)
    have hfit := loadObject_fits hlen hid
    have hfits : Fits (dumps (loadObject file id)) :=
      ⟨by simp [dumps], Nat.le_trans hfit (by decide)⟩
    obtain ⟨u', received, item, hr, hf', hitem, hstored⟩ :=
      uart_stores hq hline hprintable hfits hu hf hes
    refine ⟨u', received, item, hr, hf', hitem, fun hroom => ?_, fun now c => ?_⟩
    · refine ⟨hstored hroom, fun es' u'' later hr' hturn => ?_⟩
      exact uart_turn hq (hstored hroom) hr' hturn
    · obtain ⟨c', a, hrun, hok, ha, hnfc, hloaded, hcrc⟩ :=
        command_load hparse hlen hv hid hitem now c
      refine ⟨c', a, hrun, hok, ha, ?_, ?_, hloaded, congrArg UInt32.toNat hcrc⟩
      · rw [hnfc]
        exact (nfcLoad_tag hlen c.nfc).1
      · rw [hnfc]
        exact (nfcLoad_tag hlen c.nfc).2
  · intro parse line now c c' log o cmd a hparse hcmd hname hrun ha hok
    unfold Device.command at hrun
    simp only [hparse] at hrun
    cases hid : number o "id" 2147483647 with
    | none =>
        simp only [hid] at hrun
        cases hrun
        cases List.mem_singleton.mp ha
        cases hok
    | some id =>
        simp only [hid, hcmd] at hrun
        have hdispatch : runCommand o (cString cmd) id now c = commandLoad o id c := by
          rw [hname]
          rfl
        rw [hdispatch] at hrun
        obtain ⟨text, candidate, hhex, hd, hlen, hv, hcrc, hnfc⟩ := commandLoad_accepted hrun ha hok
        refine ⟨text, candidate, hhex, hd, hlen, ⟨_, loadBin_ok_iff.mpr ⟨hlen, hv, rfl⟩⟩, hcrc, ?_⟩
        rw [hnfc]
        exact (nfcLoad_tag hlen c.nfc).1

/-- The first line after the start, from the port through the queue into the tag. -/
theorem load_round_trip_plain :
    ∃ u' received item c' log text,
      (uart listQueue (zeros lineSize)).run
          ((linkLine (loadObject plainTag 7)).map fun c => .read (some c))
          (uart listQueue (zeros lineSize)).init = some (u', received) ∧
      received ++ u'.commands = [item] ∧
      Device.command parseFlat item 0 Core.boot = (c', log) ∧ c'.nfc.tag = plainTag ∧
      decodeHex (cString text) = some plainTag := by
  obtain ⟨command, hload⟩ := (load_round_trip.1 plainTag).mpr
    ⟨by decide +kernel, by decide +kernel⟩
  obtain ⟨hlen, hv, rfl⟩ := loadBin_ok_iff.mp hload
  obtain ⟨u', received, item, hr, -, hitem, hstored, hcommand⟩ := load_round_trip.2.1 parseFlat
    parseFlat_parses _ listQueue id listQueue_documented (zeros lineSize) (zeros_length _)
    plainTag _ hload 7 (by decide) (by decide) _ ⟨[], [], rfl⟩ ⟨rfl, rfl⟩ _ (readsOf_bytes _)
  obtain ⟨hwaiting, -⟩ := hstored (by decide)
  obtain ⟨c', a, hrun, hok, -, htag, -⟩ := hcommand 0 Core.boot
  have hparse : parseFlat (cString item) = some (tree (loadObject plainTag 7)) := by
    rw [hitem]
    exact parseFlat_parses _ (loadObject_plain plainTag 7) (loadObject_numbers plainTag (by decide))
  have hcmd := loadObject_cmd plainTag 7
  have hname : cString (ascii "load") = ascii "load" := rfl
  have ha : Effect.answer a ∈ [.nfc (.load plainTag) Core.boot.nfc, .answer a] :=
    List.mem_cons_of_mem _ List.mem_cons_self
  obtain ⟨text, candidate, -, hd, -, -, -, hcandidate⟩ :=
    load_round_trip.2.2 _ _ _ _ _ _ _ _ a hparse hcmd hname hrun ha hok
  exact ⟨u', received, item, c', _, text, hr, hwaiting, hrun, htag,
    by rw [hd, ← htag, hcandidate]⟩

end SwitchController.Host
