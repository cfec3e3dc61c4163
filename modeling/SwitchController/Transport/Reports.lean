import SwitchController.Device.Replies
import SwitchController.Lib.Monitor
import SwitchController.Transport.ReplyQueue

/-! # What one step of the transport does

`Stepped` lists everything a step can do, with the reports it builds written as
concatenations: an output report gets at most one reply, which goes to the queue, and
a send slot takes the oldest reply or, when there is none, a report of the stream.
-/

namespace SwitchController.Transport

open Memory Device

/-! ## Output reports -/

theorem deliver_cons_reply (subcmdId : UInt8) (payload report : Bytes) (log : List Effect)
    (f : Firmware) :
    deliver (.reply subcmdId payload report :: log) f =
      ((deliver log (btstackHidSendInputReport (some report) f).1).1,
        .core (.reply subcmdId payload report) ::
          (btstackHidSendInputReport (some report) f).2 ++
            (deliver log (btstackHidSendInputReport (some report) f).1).2) := rfl

theorem deliver_append (calls log : List Effect) (f : Firmware) (h : replies calls = []) :
    deliver (calls ++ log) f =
      ((deliver log f).1, calls.map .core ++ (deliver log f).2) := by
  induction calls with
  | nil => rfl
  | cons e calls ih =>
      cases e with
      | reply subcmdId payload report => cases h
      | nfc op before =>
          have hrest := ih h
          simp only [List.cons_append, deliver, hrest, List.map_cons, List.nil_append]
      | answer a =>
          have hrest := ih h
          simp only [List.cons_append, deliver, hrest, List.map_cons, List.nil_append]
      | applied state time =>
          have hrest := ih h
          simp only [List.cons_append, deliver, hrest, List.map_cons, List.nil_append]
      | released =>
          have hrest := ih h
          simp only [List.cons_append, deliver, hrest, List.map_cons, List.nil_append]

theorem deliver_calls (calls : List Effect) (f : Firmware) (h : replies calls = []) :
    deliver calls f = (f, calls.map .core) := by
  have hnil := deliver_append calls [] f h
  simpa [deliver] using hnil

theorem deliver_single (subcmdId : UInt8) (payload report : Bytes) (f : Firmware) :
    deliver [.reply subcmdId payload report] f =
      ((btstackHidSendInputReport (some report) f).1,
        .core (.reply subcmdId payload report) ::
          (btstackHidSendInputReport (some report) f).2) := by
  rw [deliver_cons_reply]
  simp [deliver]

/-! ## Stream reports -/

theorem streamMessage_eq (report : Bytes) : streamMessage report = 0xa1 :: report :=
  message_eq report

/-- An MCU report is a full report under another id with the packet behind it. -/
theorem mcuMessage_eq {report packet : Bytes} (hr : report.length = inputReportSize)
    (hp : packet.length = Nfc.mcuSize) :
    mcuMessage report packet = [0xa1] ++ report.set 0 0x31 ++ packet := by
  have hbuffer : memcpy messageBuffer 1 report = [0xa1] ++ report ++ zeros 313 := by
    have hstart : 1 = ([0xa1] : Bytes).length := rfl
    rw [show messageBuffer = [0xa1] ++ zeros 362 from rfl, memcpy_zeros _ _ _ hstart, hr]
    rfl
  have hset : (memcpy messageBuffer 1 report).set 1 0x31 =
      [0xa1] ++ report.set 0 0x31 ++ zeros 313 := by
    rw [hbuffer]
    cases report with
    | nil => cases hr
    | cons b rest => rfl
  have hlen : ([0xa1] ++ report.set 0 0x31).length = 1 + inputReportSize := by
    simp [hr, Nat.add_comm]
  unfold mcuMessage
  rw [hset, memcpy_zeros _ _ _ hlen.symm, hp]
  refine (List.take_of_length_le ?_).trans (List.append_nil _)
  simp [hr, hp, inputReportSize, Nfc.mcuSize, inputReport0x31Size]

/-- What the send slot of a stream mode logs and leaves, given the packet peeked. -/
inductive Streamed (ok : Bool) (c : Core) : Core → List Action → Prop
  | none (h : c.streamMode = .none) : Streamed ok c { c with virtualGrip := false } []
  | simple (h : c.streamMode = .x3F) : Streamed ok c { c with virtualGrip := false }
      [sendResult ok (0xa1 :: inputReportBuild0x3F c.ctrl false)]
  | full (rest : Bytes) (h : c.streamMode = .x30) :
      Streamed ok c { c with virtualGrip := false, timer := c.timer + 1 }
        [sendResult ok (0xa1 :: (headerBytes 0x30 c.timer c.ctrl false ++ rest))]
  | mcu (rest : Bytes) (nfc : Nfc.Mcu) (done : List Action) (h : c.streamMode = .x31)
      (hdone : done = [] ∨ done = [.core (.nfc .commit c.nfc)]) :
      Streamed ok c { c with virtualGrip := false, timer := c.timer + 1, nfc }
        (.core (.nfc .peek c.nfc) ::
          sendResult ok (0xa1 :: (headerBytes 0x31 c.timer c.ctrl false ++ rest)) :: done)

theorem sendStream_streamed (ok : Bool) {f : Firmware} (hrep : ∃ a, Nfc.Rep f.core.nfc a) :
    ∃ core, (sendStream ok f).1 = { f with core } ∧
      Streamed ok f.core core (sendStream ok f).2 := by
  rcases hrep with ⟨a, ha⟩
  have hreport := inputReportBuild0x30_eq f.core.timer f.core.ctrl false
  have hpacket : (Nfc.nfcPeek f.core.nfc).length = Nfc.mcuSize := by
    rw [ha.peek]
    exact Nfc.encode_length _
  have hmcu : mcuMessage (inputReportBuild0x30 f.core.timer f.core.ctrl false)
      (Nfc.nfcPeek f.core.nfc) = 0xa1 :: (headerBytes 0x31 f.core.timer f.core.ctrl false ++
        ((List.replicate 3 [0, 0, 0, 0, 0x00, 0x10, 0, 0, 0, 0, 0, 0]).flatten ++
          Nfc.nfcPeek f.core.nfc)) := by
    rw [mcuMessage_eq (inputReportBuild0x30_length ..) hpacket, hreport]
    rfl
  unfold sendStream
  dsimp only
  split
  case h_1 h =>
      rw [streamMessage_eq]
      exact ⟨_, rfl, .simple h⟩
  case h_2 h =>
      refine ⟨_, rfl, ?_⟩
      simp only [switchProtoNextTimer, streamMessage_eq, hreport]
      exact .full _ h
  case h_3 h =>
      simp only [switchProtoNextTimer, hmcu]
      cases ok with
      | false => exact ⟨_, rfl, .mcu _ f.core.nfc [] h (.inl rfl)⟩
      | true => exact ⟨_, rfl, .mcu _ _ _ h (.inr rfl)⟩
  case h_4 h => exact ⟨_, rfl, .none h⟩

/-! ## Steps -/

/-- The fields a full report shows. -/
structure SameShown (c c' : Core) : Prop where
  ctrl : c'.ctrl = c.ctrl
  timer : c'.timer = c.timer
  virtualGrip : c'.virtualGrip = c.virtualGrip

/-- Everything an event can do. -/
inductive Stepped (parse : Bytes → Option CJson) (f : Firmware) : Firmware → List Action → Prop
  | idle : Stepped parse f f []
  | requested : Stepped parse f { f with sendPending := true } [.request f.hidCid]
  | opened (cid : UInt16) :
      Stepped parse f (connectionOpened 0 cid f).1 (connectionOpened 0 cid f).2
  | closed : Stepped parse f (connectionClosed f).1 (connectionClosed f).2
  | polled (lines : List (Bytes × Int)) (now : Int) :
      Stepped parse f { f with core := (pcControlPoll parse lines now f.core).1 }
        ((pcControlPoll parse lines now f.core).2.map .core)
  | silent {core : Core} {calls : List Effect} (hsame : SameShown f.core core)
      (hcalls : replies calls = []) (hquiet : ∀ e ∈ calls, e.Quiet) :
      Stepped parse f { f with core } (calls.map .core)
  | replied {subcmdId : UInt8} {core : Core} {calls : List Effect} {payload report : Bytes}
      (hctrl : core.ctrl = f.core.ctrl) (htimer : core.timer = f.core.timer + 1)
      (hgrip : core.virtualGrip = f.core.virtualGrip) (hcalls : replies calls = [])
      (hquiet : ∀ e ∈ calls, e.Quiet) (hfit : payload.length ≤ 34)
      (hreport : report = replyReport f.core subcmdId payload) :
      Stepped parse f (btstackHidSendInputReport (some report) { f with core }).1
        (calls.map .core ++ .core (.reply subcmdId payload report) ::
          (btstackHidSendInputReport (some report) { f with core }).2)
  | retried {data : Bytes} {waiting : List Bytes} (hc : f.connected = true)
      (hqueue : f.queue = data :: waiting) :
      Stepped parse f { f with sendPending := false } [.failed (0xa1 :: data)]
  | delivered {data : Bytes} {waiting : List Bytes} {f' : Firmware} (hc : f.connected = true)
      (hqueue : f.queue = data :: waiting) (hcore : f'.core = f.core)
      (hrest : f'.queue = waiting) : Stepped parse f f' [.sent true (0xa1 :: data)]
  | streamed {ok : Bool} {core : Core} {log : List Action} (hc : f.connected = true)
      (hempty : f.queue = []) (h : Streamed ok f.core core log) :
      Stepped parse f { f with sendPending := false, core } log

section Cases

variable {p : Platform} {parse : Bytes → Option CJson} {f f' : Firmware} {past log : List Action}

theorem handled_cases {data : Bytes} {c c' : Core} {effects : List Effect}
    (h : Handled data c c' effects) :
    (SameShown c c' ∧ replies effects = [] ∧ ∀ e ∈ effects, e.Quiet) ∨
    ∃ subcmdId calls payload, c'.ctrl = c.ctrl ∧ c'.timer = c.timer + 1 ∧
      c'.virtualGrip = c.virtualGrip ∧ replies calls = [] ∧ (∀ e ∈ calls, e.Quiet) ∧
      payload.length ≤ 34 ∧
      effects = calls ++ [.reply subcmdId payload (replyReport c subcmdId payload)] := by
  cases h with
  | ignored => exact .inl ⟨⟨rfl, rfl, rfl⟩, rfl, by simp⟩
  | command => exact .inl ⟨⟨rfl, rfl, rfl⟩, rfl, by simp [Effect.Quiet]⟩
  | declined hid hd hlog =>
      rcases hlog with rfl | ⟨op, r, -, -, rfl⟩
      · exact .inl ⟨⟨rfl, rfl, rfl⟩, rfl, by simp⟩
      · exact .inl ⟨⟨rfl, rfl, rfl⟩, rfl, by simp [Effect.Quiet]⟩
  | @replied subcmdId _ hid hd hr =>
      rcases hr.reply with ⟨c₁, calls, payload, hp, hfit, rfl⟩
      rcases prepared_frame hp with ⟨htimer, hctrl, hgrip, hcalls⟩
      refine .inr ⟨subcmdId, calls, payload, hctrl, ?_, hgrip, hcalls,
        (prepared_samePc hp).2, hfit, ?_⟩
      · simp only [Core.replied, htimer]
      · simp only [Core.replied, replyReport, htimer, hctrl, hgrip]

theorem trackOutput_stepped {packet : Bytes} (hrep : ∃ a, Nfc.Rep f.core.nfc a)
    (hs : trackOutput p packet f = some (f', log)) : Stepped parse f f' log := by
  rcases hrep with ⟨a, ha⟩
  unfold trackOutput at hs
  rcases handleOutput_handled p packet ha.tag_length with ⟨core, effects, hr, hh⟩
  rw [hr] at hs
  have hd : deliver effects { f with core } = (f', log) := Option.some.inj hs
  rcases handled_cases hh with ⟨hsame, hcalls, hquiet⟩ |
      ⟨subcmdId, calls, payload, hctrl, htimer, hgrip, hcalls, hquiet, hfit, rfl⟩
  · rw [deliver_calls effects _ hcalls] at hd
    cases hd
    exact .silent hsame hcalls hquiet
  · rw [deliver_append calls _ _ hcalls, deliver_single] at hd
    cases hd
    exact .replied hctrl htimer hgrip hcalls hquiet hfit rfl

/-- The oldest reply goes out, and leaves the queue when the send succeeds. -/
theorem sendReply_eq (ok : Bool) (h : Lossless f past) (hne : f.ring.count ≠ 0) :
    ∃ data waiting, f.queue = data :: waiting ∧
      ((f.ring.pop replyQueueSize).contents replyQueueSize).map Reply.bytes = waiting ∧
      sendReply ok { f with sendPending := false } =
        if ok then ({ f with sendPending := false, ring := f.ring.pop replyQueueSize },
          [.sent true (0xa1 :: data)])
        else ({ f with sendPending := false }, [.failed (0xa1 :: data)]) := by
  have hcons := RingBuffer.contents_eq_cons h.ring hne
  have hqueue : f.queue = (f.ring.slots f.ring.head).bytes ::
      ((f.ring.pop replyQueueSize).contents replyQueueSize).map Reply.bytes := by
    rw [Firmware.queue, hcons, List.map_cons]
  have hslot := h.slots (f.ring.slots f.ring.head) (by rw [hcons]; exact List.mem_cons_self ..)
  have hmsg := message_eq (f.ring.slots f.ring.head).bytes
  rw [hslot] at hmsg
  refine ⟨_, _, hqueue, rfl, ?_⟩
  rw [← hmsg]
  rfl

theorem sendReply_stepped (ok : Bool) (h : Lossless f past) (hc : f.connected = true)
    (hne : f.ring.count ≠ 0) :
    Stepped parse f (sendReply ok { f with sendPending := false }).1
      (sendReply ok { f with sendPending := false }).2 := by
  rcases sendReply_eq ok h hne with ⟨data, waiting, hqueue, hrest, hrun⟩
  rw [hrun]
  cases ok with
  | false => exact .retried hc hqueue
  | true => exact .delivered hc hqueue rfl hrest

theorem step_stepped {e : Event} (h : Lossless f past) (hrep : ∃ a, Nfc.Rep f.core.nfc a)
    (hs : step p parse e f = some (f', log)) : Stepped parse f f' log := by
  have hpair {r : Firmware × List Action} (hr : some r = some (f', log))
      (ht : Stepped parse f r.1 r.2) : Stepped parse f f' log := by
    cases hr
    exact ht
  cases e with
  | opened status cid =>
      apply hpair hs
      by_cases hstatus : status = 0
      · rw [hstatus]
        exact .opened cid
      · simp only [connectionOpened, ne_eq, hstatus, not_false_eq_true, if_true]
        exact .idle
  | closed => exact hpair hs .closed
  | canSendNow ok =>
      simp only [step] at hs
      split_ifs at hs with hready
      · apply hpair hs
        unfold sendNextReport
        dsimp only
        by_cases hne : f.ring.count ≠ 0
        · rw [if_pos hne]
          exact sendReply_stepped ok h hready.1 hne
        · rw [if_neg hne]
          have hzero : f.ring.count = 0 := not_not.mp hne
          have hempty : f.queue = [] := by
            apply List.length_eq_zero_iff.mp
            rw [Firmware.queue, List.length_map, RingBuffer.contents_length]
            exact hzero
          rcases sendStream_streamed ok (f := { f with sendPending := false }) hrep with
            ⟨core, hf', hlog⟩
          rw [hf']
          exact .streamed hready.1 hempty hlog
      · exact hpair hs .idle
  | inputTimer =>
      apply hpair hs
      unfold inputTimerHandler
      split_ifs
      · exact .requested
      · exact .idle
  | reportData reportId report =>
      simp only [step, reportDataCallback] at hs
      split_ifs at hs
      · exact trackOutput_stepped hrep hs
      · exact hpair hs .idle
  | setReport report =>
      simp only [step, setReportCallback] at hs
      split_ifs at hs
      · exact hpair hs .idle
      · exact trackOutput_stepped hrep hs
  | pcTimer lines now => exact hpair hs (.polled lines now)

/-- The run rule: a monitor whose state every `Stepped` case keeps related accepts every
run of the firmware. -/
theorem accepts_stepped {μ : Type} (W : Transition.Monitor μ Action) (R : Firmware → μ → Prop)
    (init : R Firmware.boot W.start)
    (step : ∀ f f' past log w, Lossless f past → R f w → Stepped parse f f' log →
      W.Accepts log w ∧ R f' (W.after log w))
    (h : (firmware p parse).Reaches f log) :
    W.Accepts log W.start ∧ R f (W.after log W.start) := by
  have hrun := Transition.Monitor.accepts_reaches (M := firmware p parse) (W := W)
    (fun f w => (∃ past, Lossless f past) ∧ (∃ a, Nfc.Rep f.core.nfc a) ∧ R f w)
    ⟨⟨[], .boot⟩, ⟨_, Nfc.Rep.boot⟩, init⟩ ?_ h
  · exact ⟨hrun.1, hrun.2.2.2⟩
  · intro e f f' log w hinv hs
    rcases hinv with ⟨⟨past, hl⟩, hrep, hr⟩
    have hnext := step f f' past log w hl hr (step_stepped hl hrep hs)
    exact ⟨hnext.1, ⟨_, hl.step hs⟩, step_rep hrep hs, hnext.2⟩

end Cases

end SwitchController.Transport
