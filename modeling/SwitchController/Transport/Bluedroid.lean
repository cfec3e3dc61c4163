import SwitchController.Device.Replies

/-! # The Bluedroid transport

`bt_hid.c`: stream reports, replies and the answers to `GET_REPORT` are handed to one
send function of the stack, and a flag keeps a second report off the interrupt channel
until the first is done. Each callback is one step. Whether the stack takes a report is
part of the event, and so is which report it says is done.
-/

namespace SwitchController.Transport.Bluedroid

open Memory Device

/-- The report types a `GET_REPORT` can ask for. -/
inductive ControlType
  | other | input | output | feature
deriving DecidableEq, Repr

/-- `esp_hidd_report_type_t`. -/
inductive ReportType
  | control (type : ControlType)
  | intrData
deriving DecidableEq, Repr

structure BtHid where
  core : Core
  connected : Bool
  sendInProgress : Bool
  -- record: the reports handed to the stack and the ones it is not done with
  submissions : Nat
  unfinished : List (Nat × ReportType)

def BtHid.boot : BtHid where
  core := Core.boot
  connected := false
  sendInProgress := false
  submissions := 0
  unfinished := []

inductive Action
  | core (e : Effect)
  | opened
  | closed
  /-- A call of `esp_bt_hid_device_send_report` and whether it returned `ESP_OK`. -/
  | submitted (number : Nat) (type : ReportType) (id : UInt8) (data : Bytes) (ok : Bool)
  | discarded (report : Bytes)
  | completed (number : Nat)

/-! ## Sending -/

/-- `esp_bt_hid_device_send_report`. -/
def sendReport (type : ReportType) (id : UInt8) (data : Bytes) (ok : Bool) (f : BtHid) :
    BtHid × List Action :=
  ({ f with
      submissions := f.submissions + 1
      unfinished := if ok then f.unfinished ++ [(f.submissions, type)] else f.unfinished },
    [.submitted f.submissions type id data ok])

def btHidSendInputReport (report : Bytes) (ok : Bool) (f : BtHid) : BtHid × List Action :=
  if f.connected = false then (f, [])
  else if f.sendInProgress then (f, [.discarded report])
  else
    let f := { f with sendInProgress := true }
    match report with
    | [] => (f, [])
    | id :: data =>
        let (f, log) := sendReport .intrData id data ok f
        (if ok then f else { f with sendInProgress := false }, log)

/-- The effects of the core in order, each reply sent as it is built. -/
def deliver (ok : Bool) : List Effect → BtHid → BtHid × List Action
  | [], f => (f, [])
  | .reply subcmdId payload report :: log, f =>
      let (f, sent) := btHidSendInputReport report ok f
      let (f, rest) := deliver ok log f
      (f, .core (.reply subcmdId payload report) :: sent ++ rest)
  | e :: log, f =>
      let (f, rest) := deliver ok log f
      (f, .core e :: rest)

/-- MCU mode streams full reports too. -/
def inputReportTimerCb (ok : Bool) (f : BtHid) : BtHid × List Action :=
  if f.connected = false then (f, [])
  else
    let (timer, core) := switchProtoNextTimer f.core
    let f := { f with core }
    match core.streamMode with
    | .x3F => btHidSendInputReport (inputReportBuild0x3F core.ctrl core.virtualGrip) ok f
    | .x30 => btHidSendInputReport (inputReportBuild0x30 timer core.ctrl core.virtualGrip) ok f
    | .x31 => btHidSendInputReport (inputReportBuild0x30 timer core.ctrl core.virtualGrip) ok f
    | .none => (f, [])

/-! ## Events -/

inductive Event
  | opened
  | closed
  | inputTimer (ok : Bool)
  /-- The stack is done with a report. -/
  | sendReport (number : Nat)
  | intrData (reportId : UInt8) (data : Bytes) (ok : Bool)
  | setReport (reportId : UInt8) (data : Bytes) (ok : Bool)
  | getReport (type : ControlType) (reportId : UInt8) (ok : Bool)

def openEvt (f : BtHid) : BtHid × List Action :=
  let (core, reset) := switchProtoInit f.core
  ({ f with
      connected := true, sendInProgress := false
      core := { core with ctrl := controllerStateInit } },
    .opened :: reset.map .core)

def closeEvt (f : BtHid) : BtHid × List Action :=
  ({ f with connected := false, sendInProgress := false }, [.closed])

def sendReportEvt (number : Nat) (f : BtHid) : BtHid × List Action :=
  ({ f with
      sendInProgress := false, unfinished := f.unfinished.filter (·.1 ≠ number) },
    [.completed number])

/-- An output report is the id and as many bytes as the buffer of the callback takes. -/
def outputEvt (p : Platform) (packet : Bytes) (ok : Bool) (f : BtHid) :
    Option (BtHid × List Action) := do
  let (core, log) ← switchProtoHandleOutput p packet f.core
  some (deliver ok log { f with core })

/-- The report is built in full and sent without its id. -/
def getReportEvt (type : ControlType) (reportId : UInt8) (ok : Bool) (f : BtHid) :
    BtHid × List Action :=
  sendReport (.control type) reportId
    ((inputReportBuild0x3F f.core.ctrl f.core.virtualGrip).drop 1) ok f

def step (p : Platform) : Event → BtHid → Option (BtHid × List Action)
  | .opened, f => some (openEvt f)
  | .closed, f => some (closeEvt f)
  | .inputTimer ok, f => some (inputReportTimerCb ok f)
  | .sendReport number, f => some (sendReportEvt number f)
  | .intrData reportId data ok, f => outputEvt p (reportId :: data.take 64) ok f
  | .setReport reportId data ok, f => outputEvt p (reportId :: data.take 63) ok f
  | .getReport type reportId ok, f => some (getReportEvt type reportId ok f)

def bluedroid (p : Platform) : Transition.System BtHid Event Action where
  init := BtHid.boot
  step := step p

/-! ## The interrupt channel -/

/-- What the log says of the interrupt channel: it is busy from a report the stack took to
the next completion of any report. -/
structure Channel where
  connected : Bool
  busy : Bool
deriving DecidableEq, Repr

def Channel.next : Action → Channel → Channel
  | .opened, _ => ⟨true, false⟩
  | .closed, _ => ⟨false, false⟩
  | .submitted _ .intrData _ _ true, c => { c with busy := true }
  | .completed _, c => { c with busy := false }
  | _, c => c

def Channel.after (log : List Action) (c : Channel) : Channel :=
  log.foldl (fun c a => c.next a) c

/-- A reply built on a connection, and whether the channel is free for it. -/
def Channel.offer (c : Channel) : Action → List (Bytes × Bool)
  | .core (.reply _ _ report) => if c.connected then [(report, !c.busy)] else []
  | _ => []

def Channel.offered : List Action → Channel → List (Bytes × Bool)
  | [], _ => []
  | a :: log, c => c.offer a ++ Channel.offered log (c.next a)

/-- The replies built while connected. -/
def builtReplies (log : List Action) : List Bytes :=
  (Channel.offered log ⟨false, false⟩).map Prod.fst

/-- The ones among them for which the channel was free. -/
def unhinderedReplies (log : List Action) : List Bytes :=
  ((Channel.offered log ⟨false, false⟩).filter (·.2)).map Prod.fst

def replyOf : Action → Option Bytes
  | .submitted _ .intrData id data _ => if id = 0x21 then some (id :: data) else none
  | _ => none

/-- The replies handed to the stack. -/
def submittedReplies (log : List Action) : List Bytes := log.filterMap replyOf

/-- Sending leaves the core alone. -/
theorem send_core (report : Bytes) (ok : Bool) (f : BtHid) :
    (btHidSendInputReport report ok f).1.core = f.core := by
  unfold btHidSendInputReport
  split
  · rfl
  · split
    · rfl
    · dsimp only
      split
      · rfl
      · cases ok <;> rfl

theorem deliver_core (ok : Bool) (log : List Effect) (f : BtHid) :
    (deliver ok log f).1.core = f.core := by
  induction log generalizing f with
  | nil => rfl
  | cons e log ih =>
      cases e with
      | reply subcmdId payload report => exact (ih _).trans (send_core report ok f)
      | nfc | answer | applied | released => exact ih f

/-! ## Logs under append -/

theorem Channel.after_append (past log : List Action) (c : Channel) :
    c.after (past ++ log) = (c.after past).after log := List.foldl_append

theorem Channel.offered_append (past log : List Action) (c : Channel) :
    c.offered (past ++ log) = c.offered past ++ (c.after past).offered log := by
  induction past generalizing c with
  | nil => rfl
  | cons a past ih =>
      have hrest := ih (c.next a)
      show c.offer a ++ Channel.offered (past ++ log) (c.next a) = _
      rw [hrest, ← List.append_assoc]
      rfl

theorem submittedReplies_append (past log : List Action) :
    submittedReplies (past ++ log) = submittedReplies past ++ submittedReplies log :=
  List.filterMap_append

/-! ## What a part of a step does to the channel -/

def BtHid.channel (f : BtHid) : Channel := ⟨f.connected, f.sendInProgress⟩

/-- The flag stands for a report on the interrupt channel that is not done. -/
def BtHid.Honest (f : BtHid) : Prop :=
  f.sendInProgress = true → ∃ number, (number, .intrData) ∈ f.unfinished

/-- A reply is handed on exactly when the channel is free for it, the log says where the
channel is, and the flag stays honest. -/
structure Faithful (f : BtHid) (r : BtHid × List Action) : Prop where
  channel : f.channel.after r.2 = r.1.channel
  replies : submittedReplies r.2 = ((f.channel.offered r.2).filter (·.2)).map Prod.fst
  honest : f.Honest → r.1.Honest

namespace Faithful

variable {f f' : BtHid} {log rest : List Action}

theorem idle (h : f'.channel = f.channel) (hunfinished : f'.unfinished = f.unfinished) :
    Faithful f (f', []) where
  channel := h.symm
  replies := rfl
  honest := by
    intro hf hbusy
    have hsame : f'.sendInProgress = f.sendInProgress := congrArg Channel.busy h
    rw [hunfinished]
    exact hf (hsame.symm.trans hbusy)

theorem append (h : Faithful f (f', log)) {r : BtHid × List Action} (h' : Faithful f' r) :
    Faithful f (r.1, log ++ r.2) where
  channel := by
    rw [Channel.after_append, h.channel]
    exact h'.channel
  replies := by
    rw [submittedReplies_append, Channel.offered_append, h.channel, h.replies, h'.replies,
      List.filter_append, List.map_append]
  honest := fun hf => h'.honest (h.honest hf)

/-- An effect of the core that is no reply. -/
theorem core {e : Effect} (he : ∀ subcmdId payload report, e ≠ .reply subcmdId payload report) :
    Faithful f (f, [.core e]) where
  channel := rfl
  replies := by
    cases e with
    | reply subcmdId payload report => exact absurd rfl (he subcmdId payload report)
    | _ => rfl
  honest := id

/-- Handing a report to the interrupt channel, from where it is free. -/
theorem submit (id : UInt8) (data : Bytes) (ok : Bool) (hfree : f.sendInProgress = false)
    (hconnected : f.connected = true) :
    btHidSendInputReport (id :: data) ok f =
      ({ f with
          sendInProgress := ok, submissions := f.submissions + 1
          unfinished := if ok then f.unfinished ++ [(f.submissions, .intrData)]
            else f.unfinished },
        [.submitted f.submissions .intrData id data ok]) := by
  unfold btHidSendInputReport sendReport
  rw [if_neg (by rw [hconnected]; decide), hfree]
  cases ok <;> rfl

theorem submit_channel (id : UInt8) (data : Bytes) (ok : Bool) (hfree : f.sendInProgress = false)
    (hconnected : f.connected = true) :
    f.channel.after (btHidSendInputReport (id :: data) ok f).2 =
        (btHidSendInputReport (id :: data) ok f).1.channel ∧
      (f.Honest → (btHidSendInputReport (id :: data) ok f).1.Honest) := by
  rw [submit id data ok hfree hconnected]
  cases ok with
  | false => exact ⟨by rw [BtHid.channel, hfree]; rfl, fun _ => nofun⟩
  | true => exact ⟨rfl, fun _ _ => ⟨f.submissions, by simp⟩⟩

/-- A report that is no reply. -/
theorem stream {report : Bytes} {id : UInt8} {data : Bytes} (hreport : report = id :: data)
    (hid : id ≠ 0x21) (ok : Bool) : Faithful f (btHidSendInputReport report ok f) := by
  subst hreport
  by_cases hconnected : f.connected = true
  · by_cases hfree : f.sendInProgress = false
    · have hsubmit := submit_channel id data ok hfree hconnected
      refine ⟨hsubmit.1, ?_, hsubmit.2⟩
      rw [submit id data ok hfree hconnected]
      simp [submittedReplies, replyOf, hid, Channel.offered, Channel.offer]
    · have hbusy : btHidSendInputReport (id :: data) ok f = (f, [.discarded (id :: data)]) := by
        unfold btHidSendInputReport
        rw [if_neg (by rw [hconnected]; decide), if_pos (by simpa using hfree)]
      rw [hbusy]
      exact ⟨rfl, rfl, fun h => h⟩
  · unfold btHidSendInputReport
    rw [if_pos (by simpa using hconnected)]
    exact idle rfl rfl

/-- A reply with what is sent of it. -/
theorem reply {report data : Bytes} (hreport : report = 0x21 :: data) (subcmdId : UInt8)
    (payload : Bytes) (ok : Bool) :
    Faithful f ((btHidSendInputReport report ok f).1,
      .core (.reply subcmdId payload report) :: (btHidSendInputReport report ok f).2) := by
  subst hreport
  by_cases hconnected : f.connected = true
  · by_cases hfree : f.sendInProgress = false
    · have hsubmit := submit_channel 0x21 data ok hfree hconnected
      refine ⟨hsubmit.1, ?_, hsubmit.2⟩
      rw [submit 0x21 data ok hfree hconnected]
      show [0x21 :: data] = _
      simp [Channel.offered, Channel.offer, BtHid.channel, hfree, hconnected]
    · have hbusy : btHidSendInputReport (0x21 :: data) ok f =
          (f, [.discarded (0x21 :: data)]) := by
        unfold btHidSendInputReport
        rw [if_neg (by rw [hconnected]; decide), if_pos (by simpa using hfree)]
      rw [hbusy]
      refine ⟨rfl, ?_, fun h => h⟩
      simp only [Bool.not_eq_false] at hfree
      simp [submittedReplies, replyOf, Channel.offered, Channel.offer, BtHid.channel, hfree,
        hconnected]
  · have hoff : f.connected = false := by simpa using hconnected
    unfold btHidSendInputReport
    rw [if_pos hoff]
    refine ⟨rfl, ?_, fun h => h⟩
    simp [submittedReplies, replyOf, Channel.offered, Channel.offer, BtHid.channel, hoff]

theorem deliver (ok : Bool) (log : List Effect)
    (h : ∀ subcmdId payload report, .reply subcmdId payload report ∈ log →
      ∃ data, report = 0x21 :: data) (f : BtHid) : Faithful f (deliver ok log f) := by
  induction log generalizing f with
  | nil => exact idle rfl rfl
  | cons e log ih =>
      have hlater := ih fun subcmdId payload report hmem =>
        h subcmdId payload report (List.mem_cons_of_mem _ hmem)
      cases e with
      | reply subcmdId payload report =>
          rcases h subcmdId payload report List.mem_cons_self with ⟨data, hreport⟩
          have hreply := reply (f := f) hreport subcmdId payload ok
          exact hreply.append (hlater _)
      | nfc op before =>
          have hfirst : Faithful f (f, [.core (.nfc op before)]) := core nofun
          exact hfirst.append (hlater f)
      | answer a =>
          have hfirst : Faithful f (f, [.core (.answer a)]) := core nofun
          exact hfirst.append (hlater f)
      | applied state time =>
          have hfirst : Faithful f (f, [.core (.applied state time)]) := core nofun
          exact hfirst.append (hlater f)
      | released =>
          have hfirst : Faithful f (f, [.core .released]) := core nofun
          exact hfirst.append (hlater f)

/-- The core of the device does not show on the channel. -/
theorem withCore {c : Core} {r : BtHid × List Action} (h : Faithful { f with core := c } r) :
    Faithful f r := ⟨h.channel, h.replies, h.honest⟩

theorem tick (ok : Bool) (f : BtHid) : Faithful f (inputReportTimerCb ok f) := by
  unfold inputReportTimerCb
  split
  · exact idle rfl rfl
  · apply withCore (c := (switchProtoNextTimer f.core).2)
    dsimp only
    split
    · exact stream rfl (by decide) ok
    · exact stream (by rw [inputReportBuild0x30_eq]; rfl) (by decide) ok
    · exact stream (by rw [inputReportBuild0x30_eq]; rfl) (by decide) ok
    · exact idle rfl rfl

end Faithful

/-! ## Runs -/

/-- Every reply the dispatcher builds is a report 0x21. -/
theorem handled_reply {data : Bytes} {c c' : Core} {log : List Effect}
    (h : Handled data c c' log) {subcmdId : UInt8} {payload report : Bytes}
    (hmem : .reply subcmdId payload report ∈ log) : ∃ rest, report = 0x21 :: rest := by
  cases h with
  | ignored => cases hmem
  | command => simp at hmem
  | declined _ _ hlog =>
      rcases hlog with rfl | ⟨op, r, -, -, rfl⟩
      · cases hmem
      · simp at hmem
  | replied _ _ hr =>
      rcases replied_once hr with ⟨built, complete, hreplies, hcomplete, -⟩
      have hin : (subcmdId, payload, report) ∈ replies _ :=
        List.mem_filterMap.mpr ⟨_, hmem, rfl⟩
      rw [hreplies, List.mem_singleton] at hin
      cases hin
      have hid := hcomplete.reportId
      cases report with
      | nil => cases hid
      | cons id rest =>
          cases hid
          exact ⟨rest, rfl⟩

variable {p : Platform}

/-- The invariant of a run: the MCU is well formed, and the log is faithful from the start. -/
structure Inv (f : BtHid) (log : List Action) : Prop where
  mcu : ∃ a, Nfc.Rep f.core.nfc a
  faithful : Faithful BtHid.boot (f, log)

theorem output_step {packet : Bytes} {ok : Bool} {f f' : BtHid} {log : List Action}
    (hrep : ∃ a, Nfc.Rep f.core.nfc a) (hs : outputEvt p packet ok f = some (f', log)) :
    Faithful f (f', log) ∧ ∃ a, Nfc.Rep f'.core.nfc a := by
  rcases hrep with ⟨a, ha⟩
  rcases handleOutput_handled p packet ha.tag_length with ⟨c, effects, hr, hh⟩
  unfold outputEvt at hs
  rw [hr] at hs
  have hdeliver : deliver ok effects { f with core := c } = (f', log) := Option.some.inj hs
  have hfaithful := Faithful.deliver ok effects (fun _ _ _ => handled_reply hh) { f with core := c }
  have hcore := deliver_core ok effects { f with core := c }
  rw [hdeliver] at hfaithful hcore
  refine ⟨hfaithful.withCore, ?_⟩
  rw [hcore]
  exact (handled_trace hh).rep ha

theorem tick_mcu (ok : Bool) (f : BtHid) : (inputReportTimerCb ok f).1.core.nfc = f.core.nfc := by
  unfold inputReportTimerCb
  split
  · rfl
  · dsimp only
    split
    · rw [send_core]
      rfl
    · rw [send_core]
      rfl
    · rw [send_core]
      rfl
    · rfl

/-- One step of the transport keeps the MCU well formed and is faithful. -/
theorem step_faithful {e : Event} {f f' : BtHid} {log : List Action}
    (hrep : ∃ a, Nfc.Rep f.core.nfc a) (hs : step p e f = some (f', log)) :
    Faithful f (f', log) ∧ ∃ a, Nfc.Rep f'.core.nfc a := by
  cases e with
  | opened =>
      cases hs
      rcases hrep with ⟨a, ha⟩
      exact ⟨⟨rfl, rfl, fun _ => nofun⟩, a.reset, ha.reset⟩
  | closed =>
      cases hs
      exact ⟨⟨rfl, rfl, fun _ => nofun⟩, hrep⟩
  | inputTimer ok =>
      have htick : inputReportTimerCb ok f = (f', log) := Option.some.inj hs
      have hfaithful := Faithful.tick ok f
      have hmcu := tick_mcu ok f
      rw [htick] at hfaithful hmcu
      rw [hmcu]
      exact ⟨hfaithful, hrep⟩
  | sendReport number =>
      cases hs
      exact ⟨⟨rfl, rfl, fun _ => nofun⟩, hrep⟩
  | intrData reportId data ok => exact output_step hrep hs
  | setReport reportId data ok => exact output_step hrep hs
  | getReport type reportId ok =>
      cases hs
      refine ⟨⟨rfl, rfl, ?_⟩, hrep⟩
      intro hhonest hbusy
      rcases hhonest hbusy with ⟨number, hmem⟩
      refine ⟨number, ?_⟩
      show _ ∈ if ok = true then _ else _
      split
      · exact List.mem_append_left _ hmem
      · exact hmem

theorem run_faithful {f : BtHid} {log : List Action} (h : (bluedroid p).Reaches f log) :
    Faithful BtHid.boot (f, log) := by
  have hinv : Inv f log := by
    apply h.history Inv
    · exact ⟨⟨Nfc.Model.boot, Nfc.Rep.boot⟩, Faithful.idle rfl rfl⟩
    · intro e f f' effects past hpast hs
      have hstep := step_faithful hpast.mcu hs
      exact ⟨hstep.2, hpast.faithful.append hstep.1⟩
  exact hinv.faithful

/-- The channel is free for every reply exactly when none of them is left out. -/
theorem unhindered_iff (offered : List (Bytes × Bool)) :
    ((offered.filter (·.2)).map Prod.fst = offered.map Prod.fst) ↔ ∀ r ∈ offered, r.2 = true := by
  constructor
  · intro h
    have hlen := congrArg List.length h
    rw [List.length_map, List.length_map] at hlen
    exact List.length_filter_eq_length_iff.mp hlen
  · intro h
    rw [List.filter_eq_self.mpr h]

/-- Each reply built on a connection is handed to the stack once, in the order they are
built, when the channel is free for it, and not at all otherwise; none is lost exactly when
it always is. The flag is up only while a report on the interrupt channel is not done. -/
theorem replies_submitted (p : Platform) {f : BtHid} {log : List Action}
    (h : (bluedroid p).Reaches f log) :
    submittedReplies log = unhinderedReplies log ∧
      (submittedReplies log = builtReplies log ↔
        ∀ r ∈ Channel.offered log ⟨false, false⟩, r.2 = true) ∧
      f.Honest := by
  have hrun := run_faithful h
  have hreplies : submittedReplies log = unhinderedReplies log := hrun.replies
  refine ⟨hreplies, ?_, hrun.honest nofun⟩
  rw [hreplies]
  exact unhindered_iff _

/-- A tick whose report is not done when the console asks for the device information, and
the same question again when it is. -/
def askedTwice : List Event :=
  [.opened, .inputTimer true, .intrData 0x01 (zeros 9 ++ [0x02]) true, .sendReport 0,
    .intrData 0x01 (zeros 9 ++ [0x02]) true]

theorem askedTwice_run :
    (((bluedroid blankPlatform).run askedTwice BtHid.boot).map fun r =>
      ((submittedReplies r.2).length, (builtReplies r.2).length)) = some (1, 2) := by
  decide +kernel

/-- The first reply is lost. -/
theorem askedTwice_loses :
    ∃ f log, (bluedroid blankPlatform).Reaches f log ∧ submittedReplies log ≠ builtReplies log := by
  rcases Option.map_eq_some_iff.mp askedTwice_run with ⟨⟨f, log⟩, hr, hlen⟩
  refine ⟨f, log, ⟨_, hr⟩, ?_⟩
  intro hsame
  have hone : (submittedReplies log).length = 1 := congrArg Prod.fst hlen
  have htwo : (builtReplies log).length = 2 := congrArg Prod.snd hlen
  rw [hsame, htwo] at hone
  cases hone

theorem replies_submitted_askedTwice :
    ∃ f log, (bluedroid blankPlatform).Reaches f log ∧ (unhinderedReplies log).length = 1 ∧
      submittedReplies log = unhinderedReplies log := by
  rcases Option.map_eq_some_iff.mp askedTwice_run with ⟨⟨f, log⟩, hr, hlen⟩
  have hsubmitted := replies_submitted blankPlatform ⟨_, hr⟩
  refine ⟨f, log, ⟨_, hr⟩, ?_, hsubmitted.1⟩
  rw [← hsubmitted.1]
  exact congrArg Prod.fst hlen

end SwitchController.Transport.Bluedroid
