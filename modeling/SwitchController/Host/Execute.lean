import SwitchController.Host.Track

/-! # What the device does with a line of the window

Every line is understood and answered under the id of its command, with what the device
holds afterwards. Only the line of a load brings a tag, and it brings the file that was
read.
-/

namespace SwitchController.Host.App

open Memory Device FlatJson

/-! ## Lines that are understood -/

def Line.cmd : Line → String
  | .sent _ _ request => request.kind.name
  | .closing => "release"

/-- The firmware reads an object of the window as it was written. -/
theorem command_tree {parse : Bytes → Option CJson} (hparse : ParsesFlat parse) {o : Object}
    (hplain : Plain o) (hnumbers : ∀ key n, (key, .number n) ∈ o → n < 2 ^ 53) {id : Nat}
    (hid : id ≤ 2147483647) (hgetId : getObjectItem (tree o) "id" = some (.number (.finite id)))
    {cmd : Bytes} (hgetCmd : getObjectItem (tree o) "cmd" = some (.string cmd)) (now : Int)
    (c : Core) : command parse (dumps o) now c = runCommand (tree o) (cString cmd) id now c := by
  have hself := cString_text (dumps_printable hplain)
  have htree := hparse o hplain hnumbers
  have hnumber : number (tree o) "id" 2147483647 = some id := number_nat hgetId hid
  unfold command
  simp only [hself, htree, hnumber, hgetCmd]

theorem idOf_fits (n : Nat) : idOf n ≤ 2147483647 :=
  Nat.le_trans (idOf_le n) (by decide)

theorem named_tree {parse : Bytes → Option CJson} (hparse : ParsesFlat parse) {o : Object}
    {cmd : Bytes} (hcmd : cmd.all isPlain = true) {id : Nat} (hid : id ≤ 2147483647)
    (ho : o = [(ascii "cmd", .string cmd), (ascii "id", .number id)] ∨
      o = [(ascii "id", .number id), (ascii "cmd", .string cmd)]) (now : Int) (c : Core) :
    command parse (dumps o) now c = runCommand (tree o) (cString cmd) id now c := by
  have hmem : ∀ m ∈ o, m = (ascii "cmd", .string cmd) ∨ m = (ascii "id", .number id) := by
    intro m hm
    rcases ho with rfl | rfl
    · simpa using hm
    · simpa [or_comm] using hm
  have htext {text : Bytes} (h : text.all isPlain = true) : PlainText text := by
    intro c hc
    exact List.all_eq_true.mp h c hc
  have hplain : Plain o := by
    intro m hm
    rcases hmem m hm with rfl | rfl
    · exact ⟨htext rfl, htext hcmd⟩
    · exact ⟨htext rfl, trivial⟩
  have hnumbers : ∀ key n, (key, .number n) ∈ o → n < 2 ^ 53 := by
    intro key n hm
    rcases hmem _ hm with hc | hc
    · cases hc
    · cases hc
      omega
  rcases ho with rfl | rfl
  · exact command_tree hparse hplain hnumbers hid rfl rfl now c
  · exact command_tree hparse hplain hnumbers hid rfl rfl now c

/-- Every line of the window is run under the id of its command. -/
theorem line_command {parse : Bytes → Option CJson} (hparse : ParsesFlat parse) {l : Line}
    (hv : l.Valid) (now : Int) (c : Core) :
    command parse (dumps l.object) now c =
      runCommand (tree l.object) (cString (ascii l.cmd)) (idOf l.number) now c := by
  cases l with
  | closing => exact named_tree hparse rfl (Nat.zero_le _) (.inr rfl) now c
  | sent number id request =>
      rcases hv with ⟨-, rfl, hrequest⟩
      have hid := idOf_fits number
      cases request with
      | status => exact named_tree hparse rfl hid (.inl rfl) now c
      | release => exact named_tree hparse rfl hid (.inl rfl) now c
      | state dict =>
          exact command_tree hparse (stateObject_plain dict _) (stateObject_numbers hrequest hid)
            hid rfl rfl now c
      | tag tagCommand =>
          cases tagCommand with
          | unload => exact named_tree hparse rfl hid (.inl rfl) now c
          | load loadCommand =>
              rcases hrequest with ⟨file, hload⟩
              rcases loadBin_ok_iff.mp hload with ⟨-, -, rfl⟩
              exact command_tree hparse (loadObject_plain file _) (loadObject_numbers file hid) hid
                rfl rfl now c

/-! ## Answers and the tag -/

/-- Answers with this id that say what the device holds. -/
def Reporting (id : Nat) (r : Core × List Device.Effect) : Prop :=
  ∀ a ∈ answers r.2, a.id = id ∧ a.loaded = r.1.tagLoaded ∧ a.crc = r.1.tagCrc

theorem reporting_last {id : Nat} {c : Core} (calls : List Device.Effect)
    (hcalls : answers calls = []) (ok : Bool) (message : String) :
    Reporting id (c, calls ++ [answer id ok message c]) := by
  intro a ha
  have hlog : answers (calls ++ [answer id ok message c]) =
      answers calls ++ answers [answer id ok message c] := List.filterMap_append
  rw [hlog, hcalls, List.nil_append] at ha
  rw [List.mem_singleton.mp ha]
  exact ⟨rfl, rfl, rfl⟩

theorem runCommand_reporting (o : CJson) (cmd : Bytes) (id : Nat) (now : Int) (c : Core) :
    Reporting id (runCommand o cmd id now c) := by
  unfold runCommand
  split_ifs
  · exact reporting_last [] rfl _ _
  · exact reporting_last [.released] rfl _ _
  · unfold commandState
    split
    · exact reporting_last [] rfl _ _
    · split
      · exact reporting_last [.applied _ _] rfl _ _
      · exact reporting_last [.released] rfl _ _
  · unfold commandLoad
    split
    · exact reporting_last [] rfl _ _
    · split
      · exact reporting_last [] rfl _ _
      · dsimp only
        split_ifs
        · exact reporting_last [] rfl _ _
        · exact reporting_last [] rfl _ _
        · exact reporting_last [.nfc _ _] rfl _ _
  · exact reporting_last [.nfc _ _] rfl _ _
  · exact reporting_last [] rfl _ _

/-- A command that is no `load` loads nothing. -/
theorem runCommand_unloading {o : CJson} {cmd : Bytes} (h : cmd ≠ ascii "load") (id : Nat)
    (now : Int) (c : Core) : (runCommand o cmd id now c).2.any World.isLoad = false := by
  unfold runCommand
  split_ifs
  · rfl
  · rfl
  · unfold commandState
    split
    · rfl
    · split <;> rfl
  · rfl
  · rfl

theorem foldl_unloading {log : List Device.Effect} (h : log.any World.isLoad = false)
    (tag : Option Bytes) :
    log.foldl Device.Effect.tagAfter tag = tag ∨ log.foldl Device.Effect.tagAfter tag = none := by
  induction log generalizing tag with
  | nil => exact .inl rfl
  | cons e log ih =>
      rw [List.any_cons, Bool.or_eq_false_iff] at h
      have hone : e.tagAfter tag = tag ∨ e.tagAfter tag = none := by
        cases e with
        | nfc op before =>
            cases op with
            | load => cases h.1
            | unload => exact .inr rfl
            | _ => exact .inl rfl
        | reply | answer | applied | released => exact .inl rfl
      rw [List.foldl_cons]
      rcases hone with hone | hone
      · rw [hone]
        exact ih h.2 tag
      · rw [hone]
        rcases ih h.2 none with hnone | hnone
        · exact .inr hnone
        · exact .inr hnone

/-! ## A line on the device -/

/-- What executing a line leaves: the tag it brings, if it is a load, and answers that say
what the device holds. -/
structure Ran (l : Line) (c : Core) (r : Core × List Device.Effect) : Prop where
  truth : ∃ log, Truth r.1 log
  reporting : Reporting (idOf l.number) r
  load : ∀ x, l.point = some x →
    r.2.any World.isLoad = true ∧ x = (l.number, r.1.nfc.presentTag)
  other : l.point = none → r.2.any World.isLoad = false ∧
    (r.1.nfc.presentTag = c.nfc.presentTag ∨ r.1.nfc.presentTag = none)
  kept : (r.2.filter fun e => !e.keepsTag) = [] → r.1.nfc.presentTag = c.nfc.presentTag

theorem line_cases {l : Line} (hv : l.Valid) :
    (∃ number file, 0 < number ∧ file.length = 540 ∧ ntagValid file = true ∧
      l.object = loadObject file (idOf number) ∧ l.point = some (number, some file) ∧
      l.number = number) ∨
    l.point = none ∧ cString (ascii l.cmd) ≠ ascii "load" := by
  have hname (kind : Kind) (hkind : kind ≠ .load) :
      cString (ascii kind.name) ≠ ascii "load" := by
    cases kind with
    | load => exact absurd rfl hkind
    | status | release | state | unload => decide
  cases l with
  | closing => exact .inr ⟨rfl, by decide⟩
  | sent number id request =>
      rcases hv with ⟨hpos, rfl, hrequest⟩
      cases request with
      | status => exact .inr ⟨rfl, hname .status (by decide)⟩
      | release => exact .inr ⟨rfl, hname .release (by decide)⟩
      | state => exact .inr ⟨rfl, hname .state (by decide)⟩
      | tag tagCommand =>
          cases tagCommand with
          | unload => exact .inr ⟨rfl, hname .unload (by decide)⟩
          | load loadCommand =>
              left
              rcases hrequest with ⟨file, hload⟩
              rcases loadBin_ok_iff.mp hload with ⟨hlen, hvalid, rfl⟩
              refine ⟨number, file, hpos, hlen, hvalid, rfl, ?_, rfl⟩
              show some (number, decodeHex (hex file)) = _
              rw [decodeHex_hex]

theorem line_ran {parse : Bytes → Option CJson} (hparse : ParsesFlat parse) {l : Line}
    (hv : l.Valid) (now : Int) {c : Core} (ht : ∃ log, Truth c log) :
    Ran l c (command parse (dumps l.object) now c) := by
  rcases ht with ⟨past, ht⟩
  have hspec := command_spec parse (dumps l.object) now c
  rcases ht.rep with ⟨a, ha⟩
  have htag := trace_tag (commanded_trace hspec) ha
  have hrun := line_command hparse hv now c
  constructor
  case truth => exact ⟨_, ht.commanded hspec⟩
  case reporting =>
      rw [hrun]
      exact runCommand_reporting _ _ _ now c
  case load =>
      intro x hx
      rcases line_cases hv with ⟨number, file, -, hlen, hvalid, hobject, hpoint, rfl⟩ | ⟨hnone, -⟩
      · have hself := cString_text (dumps_printable (loadObject_plain file (idOf l.number)))
        rcases command_load hparse hlen hvalid (idOf_fits l.number) hself now c with
          ⟨c', answered, hload, -, -, hnfc, -, -⟩
        rw [hobject, hload]
        cases hpoint.symm.trans hx
        have hfile := nfcLoad_tag hlen c.nfc
        have hpresent : c'.nfc.presentTag = some file := by
          unfold Nfc.Mcu.presentTag
          rw [hnfc, hfile.1, hfile.2]
          rfl
        exact ⟨rfl, by rw [hpresent]⟩
      · cases hnone.symm.trans hx
  case other =>
      intro hnone
      rcases line_cases hv with ⟨number, file, -, -, -, -, hpoint, -⟩ | ⟨-, hcmd⟩
      · cases hpoint.symm.trans hnone
      · have hno : (command parse (dumps l.object) now c).2.any World.isLoad = false := by
          rw [hrun]
          exact runCommand_unloading hcmd _ now c
        refine ⟨hno, ?_⟩
        rw [htag]
        exact foldl_unloading hno _
  case kept =>
      intro hnone
      have hkeep : ∀ e ∈ (command parse (dumps l.object) now c).2, e.keepsTag = true := by
        intro e he
        have hnot := List.filter_eq_nil_iff.mp hnone e he
        simpa using hnot
      rw [htag]
      exact foldl_keepsTag hkeep _

end SwitchController.Host.App
