import SwitchController.Transport.Reports

/-! # The controls a report shows

The controls in force are those of the last `state` command since the last release. Every
report of the stream shows the ones it is sent with. A reply is filled when it is built and
goes out as it is, so what it shows is older when it had to wait.
-/

namespace SwitchController.Transport

open Memory Device

/-! ## Controls in force -/

/-- The controls after an action: those of a `state` command, or none after a release. -/
def controlsNext (a : Action) (controls : ControllerState) : ControllerState :=
  match a with
  | .core (.applied state _) => state
  | .core .released => controllerStateInit
  | _ => controls

def controlsAfter (log : List Action) : ControllerState :=
  log.foldl (fun controls a => controlsNext a controls) controllerStateInit

def Action.isChange : Action → Bool
  | .core (.applied _ _) | .core .released => true
  | _ => false

theorem controlsNext_unchanged {a : Action} (h : a.isChange = false) (controls : ControllerState) :
    controlsNext a controls = controls := by
  cases a with
  | core e =>
      cases e with
      | applied | released => cases h
      | nfc | reply | answer => rfl
  | opened | closed | accepted | refused | request | sent | failed => rfl

theorem controlsAfter_append (before log : List Action) :
    controlsAfter (before ++ log) =
      log.foldl (fun controls a => controlsNext a controls) (controlsAfter before) :=
  List.foldl_append

theorem controlsAfter_unchanged (before : List Action) {log : List Action}
    (h : ∀ a ∈ log, a.isChange = false) : controlsAfter (before ++ log) = controlsAfter before := by
  induction log generalizing before with
  | nil => rw [List.append_nil]
  | cons a log ih =>
      have hsplit : before ++ a :: log = (before ++ [a]) ++ log := by simp
      rw [hsplit, ih (before ++ [a]) fun b hb => h b (List.mem_cons_of_mem _ hb),
        controlsAfter_append]
      exact controlsNext_unchanged (h a List.mem_cons_self) _

/-- A command stays in force until the next change. -/
theorem controlsAfter_applied (before : List Action) (state : ControllerState) (now : Int)
    {log : List Action} (h : ∀ a ∈ log, a.isChange = false) :
    controlsAfter (before ++ .core (.applied state now) :: log) = state := by
  have hsplit : before ++ .core (.applied state now) :: log =
      (before ++ [.core (.applied state now)]) ++ log := by simp
  rw [hsplit, controlsAfter_unchanged _ h, controlsAfter_append]
  rfl

/-! ## Reports -/

/-- The report begins with the header of these controls. -/
def Shows (reportId : UInt8) (report : Bytes) (controls : ControllerState) : Prop :=
  ∃ timer rest, report = headerBytes reportId timer controls false ++ rest

/-- The controls in force, and the replies built so far with the controls of their time. -/
structure Seen where
  controls : ControllerState
  built : List (Bytes × ControllerState)

/-- A reply shows the controls when it is built, a report of the stream when it is sent;
a reply that is sent was built before. -/
def headers : Transition.Monitor Seen Action where
  start := { controls := controllerStateInit, built := [] }
  next a h :=
    { controls := controlsNext a h.controls
      built := match a with
        | .core (.reply _ _ report) => h.built ++ [(report, h.controls)]
        | _ => h.built }
  Ok
    | .core (.reply _ _ report), h => Shows 0x21 report h.controls
    | .sent true msg, h => ∃ report controls, (report, controls) ∈ h.built ∧ msg = 0xa1 :: report
    | .sent false msg, h => msg[1]? = some 0x3f ∨
        ∃ reportId, (reportId = 0x30 ∨ reportId = 0x31) ∧ Shows reportId msg.tail h.controls
    | _, _ => True

/-- The device has the controls in force, and every waiting reply was built. -/
structure Showing (f : Firmware) (h : Seen) : Prop where
  ctrl : f.core.ctrl = h.controls
  grip : f.core.virtualGrip = false
  queued : ∀ report ∈ f.queue, ∃ controls, (report, controls) ∈ h.built

theorem Showing.sameQueue {f f' : Firmware} {h : Seen} (hf : Showing f h)
    (hring : f'.ring = f.ring) (hctrl : f'.core.ctrl = f.core.ctrl)
    (hgrip : f'.core.virtualGrip = false) : Showing f' h where
  ctrl := hctrl.trans hf.ctrl
  grip := hgrip
  queued := by
    have hqueue : f'.queue = f.queue := by
      rw [Firmware.queue, hring]
      rfl
    rw [hqueue]
    exact hf.queued

/-- After a connection event nothing waits and nothing is held. -/
theorem Showing.cleared {f : Firmware} {built : List (Bytes × ControllerState)}
    (hring : f.ring.count = 0) (hctrl : f.core.ctrl = controllerStateInit)
    (hgrip : f.core.virtualGrip = false) :
    Showing f { controls := controllerStateInit, built } where
  ctrl := hctrl
  grip := hgrip
  queued := by
    have hempty : f.queue = [] := by
      apply List.length_eq_zero_iff.mp
      rw [Firmware.queue, List.length_map, RingBuffer.contents_length, hring]
    rw [hempty]
    intro report hr
    cases hr

theorem calls_keep {calls : List Device.Effect} (hcalls : replies calls = [])
    (hquiet : ∀ e ∈ calls, e.Quiet) (h : Seen) :
    headers.Accepts (calls.map .core) h ∧ headers.after (calls.map .core) h = h := by
  induction calls with
  | nil => exact ⟨trivial, rfl⟩
  | cons e calls ih =>
      have hrest := ih (by
        cases e with
        | reply => cases hcalls
        | nfc | answer | applied | released => exact hcalls)
        fun e' he => hquiet e' (List.mem_cons_of_mem _ he)
      cases e with
      | reply => cases hcalls
      | applied | released =>
          exact absurd (hquiet _ List.mem_cons_self) (by simp [Device.Effect.Quiet])
      | nfc | answer => exact ⟨⟨trivial, hrest.1⟩, hrest.2⟩

theorem poll_shows (parse : Bytes → Option CJson) (lines : List (Bytes × Int)) (now : Int)
    (c : Core) (hgrip : c.virtualGrip = false) (built : List (Bytes × ControllerState)) :
    headers.Accepts ((pcControlPoll parse lines now c).2.map .core) ⟨c.ctrl, built⟩ ∧
      headers.after ((pcControlPoll parse lines now c).2.map .core) ⟨c.ctrl, built⟩ =
        ⟨(pcControlPoll parse lines now c).1.ctrl, built⟩ ∧
      (pcControlPoll parse lines now c).1.virtualGrip = false := by
  revert hgrip
  apply poll_rule (P := fun c log c' => c.virtualGrip = false →
    headers.Accepts (log.map .core) ⟨c.ctrl, built⟩ ∧
      headers.after (log.map .core) ⟨c.ctrl, built⟩ = ⟨c'.ctrl, built⟩ ∧ c'.virtualGrip = false)
  · intro c hgrip
    exact ⟨trivial, rfl, hgrip⟩
  · intro c c₁ c' log log' hfirst hsecond hgrip
    rcases hfirst hgrip with ⟨haccepts, hafter, hgrip₁⟩
    rcases hsecond hgrip₁ with ⟨haccepts', hafter', hgrip'⟩
    rw [List.map_append, Transition.Monitor.accepts_append, Transition.Monitor.after_append,
      hafter]
    exact ⟨⟨haccepts, haccepts'⟩, hafter', hgrip'⟩
  · intro now c c' log hcommand hgrip
    cases hcommand with
    | answered a => exact ⟨⟨trivial, trivial⟩, rfl, hgrip⟩
    | released a => exact ⟨⟨trivial, trivial, trivial⟩, rfl, rfl⟩
    | applied a hl hb => exact ⟨⟨trivial, trivial, trivial⟩, rfl, hgrip⟩
    | loaded a hlen hv => exact ⟨⟨trivial, trivial, trivial⟩, rfl, hgrip⟩
    | unloaded a => exact ⟨⟨trivial, trivial, trivial⟩, rfl, hgrip⟩
  · intro c hgrip
    exact ⟨⟨trivial, trivial⟩, rfl, rfl⟩

/-- A reply that was built may enter the queue, whatever became of the ones before it. -/
theorem send_shows {f : Firmware} {past : List Action} {h : Seen} (hl : Lossless f past)
    (hf : Showing f h) {report : Bytes} {controls : ControllerState}
    (hbuilt : (report, controls) ∈ h.built) :
    headers.Accepts (btstackHidSendInputReport (some report) f).2 h ∧
      headers.after (btstackHidSendInputReport (some report) f).2 h = h ∧
      Showing (btstackHidSendInputReport (some report) f).1 h := by
  by_cases hr : Refuses f (some report)
  · rw [send_refused hr]
    exact ⟨⟨trivial, trivial⟩, rfl, hf⟩
  · have hqueue := (send_accepted hl.ring hr).1
    have hcore := (send_core (some report) f).1
    have hshowing : Showing (btstackHidSendInputReport (some report) f).1 h := by
      refine ⟨by rw [hcore]; exact hf.ctrl, by rw [hcore]; exact hf.grip, ?_⟩
      intro waiting hw
      rw [hqueue, List.mem_append, List.mem_singleton] at hw
      rcases hw with hold | rfl
      · exact hf.queued waiting hold
      · exact ⟨controls, hbuilt⟩
    rw [send_stored hr] at hshowing ⊢
    split at hshowing
    · rename_i hp
      rw [if_pos hp]
      exact ⟨⟨trivial, trivial⟩, rfl, hshowing⟩
    · rename_i hp
      rw [if_neg hp]
      exact ⟨⟨trivial, trivial, trivial⟩, rfl, hshowing⟩

theorem sendResult_keeps (ok : Bool) (msg : Bytes) (h : Seen) :
    headers.next (sendResult ok msg) h = h := by
  cases ok <;> rfl

theorem stream_ok (ok : Bool) {reportId : UInt8} (hid : reportId = 0x30 ∨ reportId = 0x31)
    (timer : UInt8) (h : Seen) (rest : Bytes) :
    headers.Ok (sendResult ok (0xa1 :: (headerBytes reportId timer h.controls false ++ rest)))
      h := by
  cases ok with
  | false => exact trivial
  | true => exact .inr ⟨reportId, hid, timer, rest, rfl⟩

theorem simple_ok (ok : Bool) (h : Seen) (controls : ControllerState) :
    headers.Ok (sendResult ok (0xa1 :: inputReportBuild0x3F controls false)) h := by
  cases ok with
  | false => exact trivial
  | true => exact .inl rfl

theorem streamed_shows {ok : Bool} {c c' : Core} {log : List Action} {h : Seen}
    (hctrl : c.ctrl = h.controls) (hs : Streamed ok c c' log) :
    headers.Accepts log h ∧ headers.after log h = h ∧ c'.ctrl = c.ctrl ∧
      c'.virtualGrip = false := by
  cases hs with
  | none => exact ⟨trivial, rfl, rfl, rfl⟩
  | simple hmode =>
      rw [Transition.Monitor.accepts_cons, Transition.Monitor.after_cons, sendResult_keeps]
      exact ⟨⟨simple_ok ok _ _, trivial⟩, rfl, rfl, rfl⟩
  | full rest hmode =>
      rw [Transition.Monitor.accepts_cons, Transition.Monitor.after_cons, sendResult_keeps, hctrl]
      exact ⟨⟨stream_ok ok (.inl rfl) _ _ _, trivial⟩, rfl, rfl, rfl⟩
  | mcu rest nfc done hmode hdone =>
      have hpeek : headers.next (.core (.nfc .peek c.nfc)) h = h := rfl
      rw [Transition.Monitor.accepts_cons, Transition.Monitor.accepts_cons,
        Transition.Monitor.after_cons, Transition.Monitor.after_cons, hpeek, sendResult_keeps,
        hctrl]
      have hok := stream_ok ok (.inr rfl) c.timer h rest
      rcases hdone with rfl | rfl
      · exact ⟨⟨trivial, hok, trivial⟩, rfl, rfl, rfl⟩
      · exact ⟨⟨trivial, hok, trivial, trivial⟩, rfl, rfl, rfl⟩

theorem stepped_shows {parse : Bytes → Option CJson} {f f' : Firmware} {past log : List Action}
    {h : Seen} (hl : Lossless f past) (hf : Showing f h) (hs : Stepped parse f f' log) :
    headers.Accepts log h ∧ Showing f' (headers.after log h) := by
  cases hs with
  | idle => exact ⟨trivial, hf⟩
  | requested => exact ⟨⟨trivial, trivial⟩, hf.sameQueue rfl rfl hf.grip⟩
  | opened cid => exact ⟨⟨trivial, trivial, trivial, trivial⟩, .cleared rfl rfl rfl⟩
  | closed => exact ⟨⟨trivial, trivial, trivial⟩, .cleared rfl rfl rfl⟩
  | polled lines now =>
      have hpoll := poll_shows parse lines now f.core hf.grip h.built
      have hseen : (⟨f.core.ctrl, h.built⟩ : Seen) = h := by rw [hf.ctrl]
      rw [hseen] at hpoll
      rw [hpoll.2.1]
      exact ⟨hpoll.1, rfl, hpoll.2.2, hf.queued⟩
  | silent hsame hcalls hquiet =>
      have hkeep := calls_keep hcalls hquiet h
      rw [hkeep.2]
      exact ⟨hkeep.1, hf.sameQueue rfl hsame.ctrl (hsame.virtualGrip.trans hf.grip)⟩
  | @replied subcmdId core calls payload report hctrl htimer hgrip hcalls hquiet hfit hreport =>
      have hkeep := calls_keep hcalls hquiet h
      have hok : headers.Ok (.core (.reply subcmdId payload report)) h := by
        refine ⟨f.core.timer, [getSubcmdAck subcmdId, subcmdId] ++ payload ++
          zeros (34 - payload.length), ?_⟩
        rw [hreport, replyReport, hf.ctrl, hf.grip]
        simp only [List.append_assoc]
      have hnext : Showing { f with core }
          (headers.next (.core (.reply subcmdId payload report)) h) := by
        refine ⟨hctrl.trans hf.ctrl, hgrip.trans hf.grip, fun waiting hw => ?_⟩
        rcases hf.queued waiting hw with ⟨controls, hbuilt⟩
        exact ⟨controls, List.mem_append_left _ hbuilt⟩
      have hlossless : Lossless { f with core } past :=
        ⟨hl.ring, hl.slots, hl.fifo, hl.framed, hl.idle⟩
      have hbuilt : (report, h.controls) ∈
          (headers.next (.core (.reply subcmdId payload report)) h).built :=
        List.mem_append_right _ (List.mem_singleton_self _)
      rcases send_shows hlossless hnext hbuilt with ⟨haccepts, hafter, hshowing⟩
      rw [Transition.Monitor.accepts_append, Transition.Monitor.after_append, hkeep.2,
        Transition.Monitor.accepts_cons, Transition.Monitor.after_cons, hafter]
      exact ⟨⟨hkeep.1, hok, haccepts⟩, hshowing⟩
  | retried => exact ⟨⟨trivial, trivial⟩, hf.sameQueue rfl rfl hf.grip⟩
  | @delivered data waiting f' hc hqueue hcore hrest =>
      rcases hf.queued data (by rw [hqueue]; exact List.mem_cons_self) with ⟨controls, hbuilt⟩
      refine ⟨⟨⟨data, controls, hbuilt, rfl⟩, trivial⟩, ?_⟩
      refine ⟨by rw [hcore]; exact hf.ctrl, by rw [hcore]; exact hf.grip, fun report hr => ?_⟩
      rw [hrest] at hr
      exact hf.queued report (by rw [hqueue]; exact List.mem_cons_of_mem _ hr)
  | streamed hc hempty hstream =>
      rcases streamed_shows hf.ctrl hstream with ⟨haccepts, hafter, hctrl, hgrip⟩
      rw [hafter]
      exact ⟨haccepts, hf.sameQueue rfl hctrl hgrip⟩

theorem headers_reaches {p : Platform} {parse : Bytes → Option CJson} {f : Firmware}
    {log : List Action} (h : (firmware p parse).Reaches f log) :
    headers.Accepts log headers.start :=
  (accepts_stepped headers Showing (.cleared rfl rfl rfl)
    (fun _ _ _ _ _ hl hf hs => stepped_shows hl hf hs) h).1

theorem headers_controls (log : List Action) :
    (headers.after log headers.start).controls = controlsAfter log := by
  induction log using List.reverseRecOn with
  | nil => rfl
  | append_singleton log a ih =>
      rw [Transition.Monitor.after_append, controlsAfter_append]
      exact congrArg (controlsNext a) ih

theorem headers_built {log : List Action} {report : Bytes} {controls : ControllerState}
    (h : (report, controls) ∈ (headers.after log headers.start).built) :
    ∃ earlier subcmdId payload later,
      log = earlier ++ .core (.reply subcmdId payload report) :: later ∧
      controls = controlsAfter earlier := by
  induction log using List.reverseRecOn with
  | nil => cases h
  | append_singleton log a ih =>
      have hearlier (h : (report, controls) ∈ (headers.after log headers.start).built) :
          ∃ earlier subcmdId payload later,
            log ++ [a] = earlier ++ .core (.reply subcmdId payload report) :: later ∧
            controls = controlsAfter earlier := by
        rcases ih h with ⟨earlier, subcmdId, payload, later, rfl, hcontrols⟩
        exact ⟨earlier, subcmdId, payload, later ++ [a], by simp, hcontrols⟩
      rw [Transition.Monitor.after_append] at h
      cases a with
      | core e =>
          cases e with
          | reply subcmdId payload built =>
              rcases List.mem_append.mp h with hold | hnew
              · exact hearlier hold
              · cases List.mem_singleton.mp hnew
                exact ⟨log, subcmdId, payload, [], rfl, headers_controls log⟩
          | nfc | answer | applied | released => exact hearlier h
      | opened | closed | accepted | refused | request | sent | failed => exact hearlier h

/-- What is required of an entry holds where it stands in a run. -/
theorem headers_ok {p : Platform} {parse : Bytes → Option CJson} {f : Firmware}
    {before after : List Action} {a : Action}
    (h : (firmware p parse).Reaches f (before ++ a :: after)) :
    headers.Ok a (headers.after before headers.start) := by
  have hrun := headers_reaches h
  rw [Transition.Monitor.accepts_append, Transition.Monitor.accepts_cons] at hrun
  exact hrun.2.1

/-- The full report an action fills with the controls in force: a reply as it is built, a
report of the stream as it is sent. -/
def filledReport : Action → Option Bytes
  | .core (.reply _ _ report) => some report
  | .sent false msg => if msg[1]? = some 0x3f then none else some msg.tail
  | _ => none

theorem filled_shows {p : Platform} {parse : Bytes → Option CJson} {f : Firmware}
    {before after : List Action} {a : Action} {report : Bytes}
    (h : (firmware p parse).Reaches f (before ++ a :: after)) (hr : filledReport a = some report) :
    ∃ reportId, Shows reportId report (controlsAfter before) := by
  have hok := headers_ok h
  rw [← headers_controls]
  cases a with
  | core e =>
      cases e with
      | reply =>
          cases hr
          exact ⟨0x21, hok⟩
      | nfc | answer | applied | released => cases hr
  | sent isReply msg =>
      cases isReply with
      | true => cases hr
      | false =>
          simp only [filledReport] at hr
          split_ifs at hr with hsimple
          cases hr
          rcases hok with hsimple' | ⟨reportId, -, hshows⟩
          · exact absurd hsimple' hsimple
          · exact ⟨reportId, hshows⟩
  | opened | closed | accepted | refused | request | failed => cases hr

/-- A reply that is sent was built before, and shows the controls of that moment. -/
theorem sent_reply_shows {p : Platform} {parse : Bytes → Option CJson} {f : Firmware}
    {before after : List Action} {msg : Bytes}
    (h : (firmware p parse).Reaches f (before ++ .sent true msg :: after)) :
    ∃ earlier subcmdId payload report later, msg = 0xa1 :: report ∧
      before = earlier ++ .core (.reply subcmdId payload report) :: later ∧
      Shows 0x21 report (controlsAfter earlier) := by
  rcases headers_ok h with ⟨report, controls, hbuilt, rfl⟩
  rcases headers_built hbuilt with ⟨earlier, subcmdId, payload, later, rfl, rfl⟩
  rw [List.append_assoc, List.cons_append] at h
  have hok := headers_ok h
  refine ⟨earlier, subcmdId, payload, report, later, rfl, rfl, ?_⟩
  rw [← headers_controls]
  exact hok

end SwitchController.Transport
