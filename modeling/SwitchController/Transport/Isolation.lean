import SwitchController.Device.Alike
import SwitchController.Transport.Reports

/-! # Connections do not see each other

After a connection has opened, two firmware states with the same tag agree on
everything a message can depend on, however different their histories were. Any
further events keep that agreement, so the console gets the same messages.
-/

namespace SwitchController.Transport

open Memory Device

/-- The interrupt messages handed to the stack, each with whether it was sent. -/
def messages (log : List Action) : List (Bool × Bytes) :=
  log.filterMap fun
    | .sent _ msg => some (true, msg)
    | .failed msg => some (false, msg)
    | _ => none

theorem messages_append (left right : List Action) :
    messages (left ++ right) = messages left ++ messages right := List.filterMap_append

theorem messages_core (effects : List Effect) : messages (effects.map .core) = [] := by
  unfold messages
  rw [List.filterMap_map]
  exact List.filterMap_eq_nil_iff.mpr fun _ _ => rfl

/-- States no console can tell apart. -/
structure Firmware.Alike (f g : Firmware) : Prop where
  core : f.core.Alike g.core
  connected : f.connected = g.connected
  sendPending : f.sendPending = g.sendPending
  queue : f.queue = g.queue

namespace Firmware.Alike

variable {f g : Firmware}

theorem count (h : f.Alike g) : f.ring.count = g.ring.count := by
  have hlen := congrArg List.length h.queue
  simpa [Firmware.queue] using hlen

theorem withCore (h : f.Alike g) {c d : Core} (hcore : c.Alike d) :
    Firmware.Alike { f with core := c } { g with core := d } :=
  ⟨hcore, h.connected, h.sendPending, h.queue⟩

theorem refuses (h : f.Alike g) (data : Option Bytes) : Refuses f data ↔ Refuses g data := by
  cases data with
  | none => exact Iff.rfl
  | some data => simp only [Refuses, h.connected, h.count]

/-! ## Queueing -/

theorem send (h : f.Alike g) (hf : f.ring.WF replyQueueSize) (hg : g.ring.WF replyQueueSize)
    (data : Bytes) :
    Firmware.Alike (btstackHidSendInputReport (some data) f).1
      (btstackHidSendInputReport (some data) g).1 := by
  by_cases hrefuse : Refuses f (some data)
  · have hrefuse' := (h.refuses _).mp hrefuse
    rw [send_refused hrefuse, send_refused hrefuse']
    exact h
  · have hrefuse' : ¬ Refuses g (some data) := fun hc => hrefuse ((h.refuses _).mpr hc)
    have hacc := send_accepted hf hrefuse
    have hacc' := send_accepted hg hrefuse'
    refine ⟨?_, ?_, ?_, ?_⟩
    · rw [(send_core (some data) f).1, (send_core (some data) g).1]
      exact h.core
    · rw [hacc.2.2.1, hacc'.2.2.1]
      exact h.connected
    · rw [send_stored hrefuse, send_stored hrefuse', ← h.sendPending]
      split
      · exact h.sendPending
      · rfl
    · rw [hacc.1, hacc'.1, h.queue]

theorem send_wf (hf : f.ring.WF replyQueueSize) (data : Bytes) :
    (btstackHidSendInputReport (some data) f).1.ring.WF replyQueueSize := by
  by_cases hr : Refuses f (some data)
  · rw [send_refused hr]
    exact hf
  · exact (send_accepted hf hr).2.1

theorem deliver_messages (log : List Effect) (f : Firmware) :
    messages (Transport.deliver log f).2 = [] := by
  have hsend (data : Bytes) (f : Firmware) :
      messages (btstackHidSendInputReport (some data) f).2 = [] := by
    by_cases hr : Refuses f (some data)
    · rw [send_refused hr]
      rfl
    · rw [send_stored hr]
      split <;> rfl
  induction log generalizing f with
  | nil => rfl
  | cons e log ih =>
      cases e with
      | reply subcmdId payload report =>
          have hrest := ih (btstackHidSendInputReport (some report) f).1
          rw [deliver_cons_reply, messages_append, hrest, List.append_nil]
          exact hsend report f
      | nfc | answer | applied | released => exact ih f

/-- The firmware after a delivery depends on the replies alone. -/
theorem deliver_replies (log : List Effect) (f : Firmware) :
    (Transport.deliver log f).1 =
      (replies log).foldl (fun f r => (btstackHidSendInputReport (some r.2.2) f).1) f := by
  induction log generalizing f with
  | nil => rfl
  | cons e log ih =>
      cases e with
      | reply subcmdId payload report => exact ih _
      | nfc | answer | applied | released => exact ih f

theorem deliver (h : f.Alike g) (hf : f.ring.WF replyQueueSize)
    (hg : g.ring.WF replyQueueSize) {log log' : List Effect} (hlog : replies log = replies log') :
    Firmware.Alike (Transport.deliver log f).1 (Transport.deliver log' g).1 := by
  rw [deliver_replies, deliver_replies, ← hlog]
  generalize replies log = sent
  induction sent generalizing f g with
  | nil => exact h
  | cons r sent ih => exact ih (h.send hf hg r.2.2) (send_wf hf r.2.2) (send_wf hg r.2.2)

/-! ## Sending -/

/-- The stream report of alike states is the same message. -/
theorem stream (h : f.Alike g) (ok : Bool) :
    Firmware.Alike (sendStream ok f).1 (sendStream ok g).1 ∧
      messages (sendStream ok f).2 = messages (sendStream ok g).2 := by
  have hc := h.core
  have hmode : g.core.streamMode = f.core.streamMode := hc.streamMode.symm
  have htimer : f.core.timer + 1 = g.core.timer + 1 := by rw [hc.timer]
  have hpeek : Nfc.nfcPeek f.core.nfc = Nfc.nfcPeek g.core.nfc := by
    have hf : Nfc.step .peek f.core.nfc = some (_, _) := rfl
    have hg : Nfc.step .peek g.core.nfc = some (_, _) := rfl
    have hresult := (alike_results hc.nfc hf hg).2
    simpa using hresult
  have hcommit : (Nfc.nfcCommit f.core.nfc).Alike (Nfc.nfcCommit g.core.nfc) := by
    have hf : Nfc.step .commit f.core.nfc = some (_, _) := rfl
    have hg : Nfc.step .commit g.core.nfc = some (_, _) := rfl
    exact (alike_results hc.nfc hf hg).1
  unfold sendStream
  dsimp only
  rw [hmode]
  cases hm : f.core.streamMode with
  | none =>
      exact ⟨h.withCore ⟨hc.ctrl, rfl, hc.nfc, rfl, hc.timer, hc.linked, hc.lastState⟩, rfl⟩
  | x3F =>
      refine ⟨h.withCore ?_, ?_⟩
      · exact ⟨hc.ctrl, rfl, hc.nfc, rfl, hc.timer, hc.linked, hc.lastState⟩
      · simp only [hc.ctrl]
  | x30 =>
      refine ⟨h.withCore ?_, ?_⟩
      · exact ⟨hc.ctrl, rfl, hc.nfc, rfl, htimer, hc.linked, hc.lastState⟩
      · simp only [switchProtoNextTimer, hc.ctrl, hc.timer]
  | x31 =>
      have hreport : inputReportBuild0x30 f.core.timer f.core.ctrl false =
          inputReportBuild0x30 g.core.timer g.core.ctrl false := by
        rw [hc.timer, hc.ctrl]
      simp only [switchProtoNextTimer, hpeek, hreport]
      cases ok with
      | false =>
          refine ⟨h.withCore ?_, rfl⟩
          exact ⟨hc.ctrl, rfl, hc.nfc, rfl, htimer, hc.linked, hc.lastState⟩
      | true =>
          refine ⟨h.withCore ?_, rfl⟩
          exact ⟨hc.ctrl, rfl, hcommit, rfl, htimer, hc.linked, hc.lastState⟩

theorem reply (h : f.Alike g) (ok : Bool) {past past' : List Action} (hf : Lossless f past)
    (hg : Lossless g past') (hne : f.ring.count ≠ 0) :
    Firmware.Alike (sendReply ok { f with sendPending := false }).1
        (sendReply ok { g with sendPending := false }).1 ∧
      messages (sendReply ok { f with sendPending := false }).2 =
        messages (sendReply ok { g with sendPending := false }).2 := by
  rcases sendReply_eq ok hf hne with ⟨data, waiting, hqueue, hrest, hrun⟩
  rcases sendReply_eq ok hg (by rw [← h.count]; exact hne) with
    ⟨data', waiting', hqueue', hrest', hrun'⟩
  have hsame := h.queue
  rw [hqueue, hqueue', List.cons.injEq] at hsame
  rw [hrun, hrun', hsame.1]
  cases ok with
  | false => exact ⟨⟨h.core, h.connected, rfl, h.queue⟩, rfl⟩
  | true =>
      refine ⟨⟨h.core, h.connected, rfl, ?_⟩, rfl⟩
      exact hrest.trans (hsame.2.trans hrest'.symm)

/-! ## Steps -/

section Steps

variable {p : Platform} {parse : Bytes → Option CJson} {past past' : List Action}

theorem sendNext (h : f.Alike g) (ok : Bool) (hf : Lossless f past) (hg : Lossless g past') :
    Firmware.Alike (sendNextReport ok f).1 (sendNextReport ok g).1 ∧
      messages (sendNextReport ok f).2 = messages (sendNextReport ok g).2 := by
  unfold sendNextReport
  dsimp only
  by_cases hne : f.ring.count ≠ 0
  · have hne' : g.ring.count ≠ 0 := by rwa [← h.count]
    rw [if_pos hne, if_pos hne']
    exact h.reply ok hf hg hne
  · have hne' : ¬ g.ring.count ≠ 0 := by rwa [← h.count]
    rw [if_neg hne, if_neg hne']
    have hidle : Firmware.Alike { f with sendPending := false } { g with sendPending := false } :=
      ⟨h.core, h.connected, rfl, h.queue⟩
    exact hidle.stream ok

theorem output (h : f.Alike g) (hf : Lossless f past) (hg : Lossless g past') {packet : Bytes}
    {f' : Firmware} {log : List Action} (hs : trackOutput p packet f = some (f', log)) :
    ∃ g' log', trackOutput p packet g = some (g', log') ∧ f'.Alike g' ∧
      messages log = messages log' := by
  unfold trackOutput at hs ⊢
  rcases Option.bind_eq_some_iff.mp hs with ⟨⟨core, effects⟩, hr, hd⟩
  rcases output_alike p h.core packet _ hr with ⟨⟨core', effects'⟩, hr', hcore, hreplies⟩
  have hdeliver := (h.withCore hcore).deliver hf.ring hg.ring hreplies
  have hlog : log = (Transport.deliver effects { f with core }).2 :=
    (congrArg Prod.snd (Option.some.inj hd)).symm
  have hf' : f' = (Transport.deliver effects { f with core }).1 :=
    (congrArg Prod.fst (Option.some.inj hd)).symm
  rw [hr', hlog, hf']
  refine ⟨_, _, rfl, hdeliver, ?_⟩
  rw [deliver_messages, deliver_messages]

/-- A connection event leaves nothing to differ but the reset MCU. -/
theorem opened (hnfc : (Nfc.nfcReset f.core.nfc).Alike (Nfc.nfcReset g.core.nfc))
    (cid cid' : UInt16) :
    (connectionOpened 0 cid f).1.Alike (connectionOpened 0 cid' g).1 where
  core := ⟨rfl, rfl, hnfc, rfl, rfl, rfl, rfl⟩
  connected := rfl
  sendPending := rfl
  queue := by simp [connectionOpened, resetSending, Firmware.queue]

theorem closed (hnfc : f.core.nfc.Alike g.core.nfc) (hmode : f.core.streamMode = g.core.streamMode)
    (htimer : f.core.timer = g.core.timer) :
    (connectionClosed f).1.Alike (connectionClosed g).1 where
  core := ⟨rfl, rfl, hnfc, hmode, htimer, rfl, rfl⟩
  connected := rfl
  sendPending := rfl
  queue := by simp [connectionClosed, resetSending, Firmware.queue]

theorem inputTimer (h : f.Alike g) :
    (inputTimerHandler f).1.Alike (inputTimerHandler g).1 ∧
      messages (inputTimerHandler f).2 = messages (inputTimerHandler g).2 := by
  unfold inputTimerHandler
  rw [← h.connected, ← h.sendPending]
  split
  · exact ⟨⟨h.core, rfl, rfl, h.queue⟩, rfl⟩
  · exact ⟨h, rfl⟩

/-- Alike states take every event alike. -/
theorem step (h : f.Alike g) (hf : Lossless f past) (hg : Lossless g past') {e : Event}
    {f' : Firmware} {log : List Action} (hs : Transport.step p parse e f = some (f', log)) :
    ∃ g' log', Transport.step p parse e g = some (g', log') ∧ f'.Alike g' ∧
      messages log = messages log' := by
  have hpair {r r' : Firmware × List Action} (hr : some r = some (f', log))
      (ht : r.1.Alike r'.1 ∧ messages r.2 = messages r'.2) :
      ∃ g' log', some r' = some (g', log') ∧ f'.Alike g' ∧ messages log = messages log' := by
    cases hr
    exact ⟨r'.1, r'.2, rfl, ht⟩
  cases hout : e.output with
  | some packet =>
      rw [output_step hout] at hs ⊢
      exact h.output hf hg hs
  | none =>
      cases e with
      | opened status cid =>
          apply hpair hs
          by_cases hstatus : status = 0
          · have hc : Nfc.step .reset f.core.nfc = some (_, _) := rfl
            have hd : Nfc.step .reset g.core.nfc = some (_, _) := rfl
            rw [hstatus]
            refine ⟨opened (alike_results h.core.nfc hc hd).1 cid cid, ?_⟩
            exact (messages_core _).trans (messages_core _).symm
          · have hrefused (f : Firmware) : connectionOpened status cid f = (f, []) := if_pos hstatus
            rw [hrefused, hrefused]
            exact ⟨h, rfl⟩
      | closed =>
          exact hpair hs ⟨closed h.core.nfc h.core.streamMode h.core.timer, rfl⟩
      | canSendNow ok =>
          by_cases hready : f.connected = true ∧ f.sendPending = true
          · have hready' : g.connected = true ∧ g.sendPending = true := by
              rwa [← h.connected, ← h.sendPending]
            simp only [Transport.step, if_pos hready, if_pos hready'] at hs ⊢
            exact hpair hs (h.sendNext ok hf hg)
          · have hready' : ¬ (g.connected = true ∧ g.sendPending = true) := by
              rwa [← h.connected, ← h.sendPending]
            simp only [Transport.step, if_neg hready, if_neg hready'] at hs ⊢
            exact hpair hs ⟨h, rfl⟩
      | inputTimer => exact hpair hs h.inputTimer
      | reportData reportId report =>
          have hempty : ¬ report.length > 0 := fun hc => by simp [Event.output, hc] at hout
          simp only [Transport.step, reportDataCallback, if_neg hempty] at hs ⊢
          exact hpair hs ⟨h, rfl⟩
      | setReport report =>
          have hempty : report.length < 1 := by
            by_contra hc
            simp [Event.output, hc] at hout
          simp only [Transport.step, setReportCallback, if_pos hempty] at hs ⊢
          exact hpair hs ⟨h, rfl⟩
      | pcTimer lines now =>
          refine hpair hs ⟨h.withCore (poll_alike parse h.core lines now), ?_⟩
          exact (messages_core _).trans (messages_core _).symm

end Steps

end Firmware.Alike

/-! ## Runs -/

/-- The tag that is loaded, if one is. -/
def Firmware.loadedTag (f : Firmware) : Option Bytes :=
  if f.core.nfc.present then some f.core.nfc.tag else none

section Runs

variable {p : Platform} {parse : Bytes → Option CJson}

theorem run_alike {past past' : List Action} {f g f' : Firmware} (h : f.Alike g)
    (hf : Lossless f past) (hg : Lossless g past') {es : List Event} {out : List Action}
    (hr : (firmware p parse).run es f = some (f', out)) :
    ∃ g' out', (firmware p parse).run es g = some (g', out') ∧ messages out = messages out' := by
  have hrun := Transition.System.run_simulated (N := firmware p parse)
    (fun f g => (∃ past, Lossless f past) ∧ (∃ past, Lossless g past) ∧ f.Alike g)
    (fun out out' => messages out = messages out') rfl ?_ ?_ ⟨⟨_, hf⟩, ⟨_, hg⟩, h⟩ hr
  · rcases hrun with ⟨g', out', hg', -, hout⟩
    exact ⟨g', out', hg', hout⟩
  · intro o os o' os' ho hos
    rw [messages_append, messages_append, ho, hos]
  · intro e f g f' log hinv hs
    rcases hinv with ⟨⟨past, hf⟩, ⟨past', hg⟩, halike⟩
    rcases halike.step hf hg hs with ⟨g', log', hs', hnext, hmsg⟩
    exact ⟨g', log', hs', ⟨⟨_, hf.step hs⟩, ⟨_, hg.step hs'⟩, hnext⟩, hmsg⟩

/-- A history that ends in a connection is one that ran before it. -/
theorem opened_after {hist : List Event} {cid : UInt16} {f : Firmware} {log : List Action}
    (hr : (firmware p parse).run (hist ++ [.opened 0 cid]) Firmware.boot = some (f, log)) :
    ∃ before, (firmware p parse).Reachable before ∧ f = (connectionOpened 0 cid before).1 := by
  rcases Transition.System.run_append_some.mp hr with ⟨before, past, rest, hpast, hopen, -⟩
  have hs := Transition.System.run_singleton_some.mp hopen
  cases hs
  exact ⟨before, ⟨past, hist, hpast⟩, rfl⟩

/-- What the console is sent in a connection is fixed by the tag that was loaded when it
opened and by what happens in it. -/
theorem connections_isolated (p : Platform) (parse : Bytes → Option CJson)
    (hist hist' : List Event) (cid cid' : UInt16) {f g : Firmware} {log log' : List Action}
    (hf : (firmware p parse).run (hist ++ [.opened 0 cid]) Firmware.boot = some (f, log))
    (hg : (firmware p parse).run (hist' ++ [.opened 0 cid']) Firmware.boot = some (g, log'))
    (htag : f.loadedTag = g.loadedTag) (es : List Event) :
    ∃ f' g' out out', (firmware p parse).run es f = some (f', out) ∧
      (firmware p parse).run es g = some (g', out') ∧ messages out = messages out' := by
  have hreach : (firmware p parse).Reaches f log := ⟨_, hf⟩
  have hreach' : (firmware p parse).Reaches g log' := ⟨_, hg⟩
  have halike : f.Alike g := by
    rcases opened_after hf with ⟨before, hbefore, rfl⟩
    rcases opened_after hg with ⟨before', hbefore', rfl⟩
    rcases reachable_rep hbefore with ⟨a, ha⟩
    rcases reachable_rep hbefore' with ⟨b, hb⟩
    have hsame : a.tag = b.tag := ha.tag.trans (htag.trans hb.tag.symm)
    have hreset : a.reset = b.reset := by rw [Nfc.Model.reset, Nfc.Model.reset, hsame]
    exact .opened ⟨a.reset, ha.reset, hreset ▸ hb.reset⟩ cid cid'
  rcases run_total es (reachable_rep ⟨_, hreach⟩) with ⟨f', out, hout⟩
  rcases run_alike halike (reaches_lossless hreach) (reaches_lossless hreach') hout with
    ⟨g', out', hout', hmsg⟩
  exact ⟨f', g', out, out', hout, hout', hmsg⟩

end Runs

/-- A session in another stream mode that ends with a powered MCU and two replies queued. -/
def busySession : List Event :=
  [.opened 0 1, .inputTimer, .canSendNow true, .reportData 1 (zeros 9 ++ [0x03, 0x31]),
    .reportData 1 (zeros 9 ++ [0x22, 0x01])]

theorem connections_isolated_busy :
    ∃ f g log log', (firmware blankPlatform fun _ => none).run [.opened 0 1] Firmware.boot =
        some (f, log) ∧
      (firmware blankPlatform fun _ => none).run (busySession ++ [.opened 0 2]) Firmware.boot =
        some (g, log') ∧
      ∃ f' g' out out',
        (firmware blankPlatform fun _ => none).run [.inputTimer, .canSendNow true] f =
          some (f', out) ∧
        (firmware blankPlatform fun _ => none).run [.inputTimer, .canSendNow true] g =
          some (g', out') ∧
        messages out = messages out' := by
  have hfresh : (((firmware blankPlatform fun _ => none).run [.opened 0 1] Firmware.boot).map
      fun r => r.1.loadedTag) = some none := by decide +kernel
  have hbusy : (((firmware blankPlatform fun _ => none).run (busySession ++ [.opened 0 2])
      Firmware.boot).map fun r => r.1.loadedTag) = some none := by decide +kernel
  rcases Option.map_eq_some_iff.mp hfresh with ⟨⟨f, log⟩, hf, htag⟩
  rcases Option.map_eq_some_iff.mp hbusy with ⟨⟨g, log'⟩, hg, htag'⟩
  have hsame := connections_isolated _ _ [] busySession 1 2 hf hg (htag.trans htag'.symm)
    [.inputTimer, .canSendNow true]
  exact ⟨f, g, log, log', hf, hg, hsame⟩

end SwitchController.Transport
