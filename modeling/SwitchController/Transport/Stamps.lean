import Mathlib.Data.List.Forall2
import SwitchController.Lib.StampLedger
import SwitchController.Transport.Reports

/-! # Reports leave in the order they were stamped

Replies are stamped when a request is handled and wait in the ring; stream reports
are stamped in their send slot, which they only get while the ring is empty. The
ledger numbers the stamps of a connection, and the timer byte of a report is its
number modulo 256.
-/

namespace SwitchController.Transport

open Memory Device

/-! ## Numbering -/

/-- A stream message that carries a stamp. -/
def streamStamped (msg : Bytes) : Bool := msg[1]? = some 0x30 || msg[1]? = some 0x31

/-- Every timer value handed out gets the next number, within a connection. -/
def Action.number (a : Action) (l : StampLedger Bytes) : StampLedger Bytes :=
  match a with
  | .opened => .empty
  | .closed => l.forget
  | .core (.reply _ _ _) => l.stamp
  | .accepted _ => l.enqueue
  | .sent true msg => l.sendOldest msg
  | .sent false msg => if streamStamped msg then l.sendNew msg else l
  | .failed msg => if streamStamped msg then l.stamp else l
  | _ => l

def ledger (log : List Action) : StampLedger Bytes :=
  log.foldl (fun l a => a.number l) .empty

def timerByte (n : Nat) : UInt8 := .ofNat n

/-- What the numbers have to do with the bytes of a report. -/
def Stamps (a : Action) (l : StampLedger Bytes) : Prop :=
  match a with
  | .core (.reply _ _ report) => report[0]? = some 0x21 ∧ report[1]? = some (timerByte l.next)
  | .sent true msg => msg[1]? = some 0x21 ∧
      ∃ n waiting, l.waiting = n :: waiting ∧ msg[2]? = some (timerByte n)
  | .sent false msg => msg[1]? = some 0x3f ∨
      (streamStamped msg = true ∧ msg[2]? = some (timerByte l.next))
  | .failed msg => msg[1]? = some 0x3f ∨
      (msg[1]? = some 0x21 ∧
        ∃ n waiting, l.waiting = n :: waiting ∧ msg[2]? = some (timerByte n)) ∨
      (streamStamped msg = true ∧ msg[2]? = some (timerByte l.next))
  | _ => True

def stamps : Transition.Monitor (StampLedger Bytes) Action where
  start := .empty
  next := Action.number
  Ok := Stamps

def stampedSent (log : List Action) : List Bytes :=
  log.filterMap fun
    | .sent _ msg => if msg[1]? = some 0x3f then none else some msg
    | _ => none

/-! ## One step -/

/-- The ledger follows the timer and the ring. -/
structure Numbered (f : Firmware) (l : StampLedger Bytes) : Prop where
  ordered : l.Ordered
  timer : f.core.timer = timerByte l.next
  queue : List.Forall₂ (fun data n => data[0]? = some 0x21 ∧ data[1]? = some (timerByte n))
    f.queue l.waiting
  carried : ∀ s ∈ l.sent, s.2[2]? = some (timerByte s.1)

theorem timerByte_succ (n : Nat) : timerByte n + 1 = timerByte (n + 1) := by
  simp [timerByte, UInt8.ofNat_add]

/-- Calls into the core other than replies leave the ledger alone. -/
theorem after_calls (calls : List Effect) (h : replies calls = []) (l : StampLedger Bytes) :
    stamps.Accepts (calls.map .core) l ∧ stamps.after (calls.map .core) l = l := by
  induction calls with
  | nil => exact ⟨trivial, rfl⟩
  | cons e calls ih =>
      cases e with
      | reply subcmdId payload report => cases h
      | nfc | answer | applied | released => exact ⟨⟨trivial, (ih h).1⟩, (ih h).2⟩

theorem poll_replies (parse : Bytes → Option CJson) (lines : List (Bytes × Int)) (now : Int)
    (c : Core) :
    replies (pcControlPoll parse lines now c).2 = [] ∧
      (pcControlPoll parse lines now c).1.timer = c.timer := by
  apply poll_rule (P := fun c log c' => replies log = [] ∧ c'.timer = c.timer)
  · exact fun c => ⟨rfl, rfl⟩
  · intro c c₁ c' log log' h h'
    refine ⟨?_, h'.2.trans h.2⟩
    have happ : replies (log ++ log') = replies log ++ replies log' := List.filterMap_append
    rw [happ, h.1, h'.1]
    rfl
  · intro now c c' log h
    cases h <;> exact ⟨rfl, rfl⟩
  · exact fun c => ⟨rfl, rfl⟩

namespace Numbered

variable {f f' : Firmware} {l : StampLedger Bytes}

theorem frame (h : Numbered f l) (htimer : f'.core.timer = f.core.timer)
    (hqueue : f'.queue = f.queue) : Numbered f' l where
  ordered := h.ordered
  timer := htimer.trans h.timer
  queue := by
    rw [hqueue]
    exact h.queue
  carried := h.carried

theorem stamp (h : Numbered f l) (htimer : f'.core.timer = f.core.timer + 1)
    (hqueue : f'.queue = f.queue) : Numbered f' l.stamp where
  ordered := h.ordered.stamp
  timer := by
    rw [htimer, h.timer]
    exact timerByte_succ l.next
  queue := by
    rw [hqueue]
    exact h.queue
  carried := h.carried

theorem enqueue (h : Numbered f l) {data : Bytes} (hid : data[0]? = some 0x21)
    (hbyte : data[1]? = some (timerByte l.next)) (htimer : f'.core.timer = f.core.timer + 1)
    (hqueue : f'.queue = f.queue ++ [data]) : Numbered f' l.stamp.enqueue where
  ordered := h.ordered.enqueue
  timer := by
    rw [htimer, h.timer]
    exact timerByte_succ l.next
  queue := by
    rw [hqueue]
    exact List.rel_append h.queue (.cons ⟨hid, hbyte⟩ .nil)
  carried := h.carried

theorem oldest (h : Numbered f l) {data : Bytes} {waiting : List Bytes}
    (hqueue : f.queue = data :: waiting) :
    ∃ n numbers, l.waiting = n :: numbers ∧ data[0]? = some 0x21 ∧
      data[1]? = some (timerByte n) ∧
      List.Forall₂ (fun data n => data[0]? = some 0x21 ∧ data[1]? = some (timerByte n))
        waiting numbers := by
  have hmatch := h.queue
  rw [hqueue, List.forall₂_cons_left_iff] at hmatch
  rcases hmatch with ⟨n, numbers, ⟨hid, hbyte⟩, htail, hwaiting⟩
  exact ⟨n, numbers, hwaiting, hid, hbyte, htail⟩

theorem sendOldest (h : Numbered f l) {data : Bytes} {waiting : List Bytes}
    (hqueue : f.queue = data :: waiting) (htimer : f'.core.timer = f.core.timer)
    (hrest : f'.queue = waiting) :
    Stamps (.sent true (0xa1 :: data)) l ∧ Numbered f' (l.sendOldest (0xa1 :: data)) := by
  rcases h.oldest hqueue with ⟨n, numbers, hwaiting, hid, hbyte, htail⟩
  have hsend : l.sendOldest (0xa1 :: data) =
      { l with waiting := numbers, sent := l.sent ++ [(n, 0xa1 :: data)] } := by
    simp only [StampLedger.sendOldest, hwaiting]
  have hordered := h.ordered.sendOldest (0xa1 :: data)
  refine ⟨⟨hid, n, numbers, hwaiting, hbyte⟩, ?_⟩
  rw [hsend] at hordered ⊢
  refine ⟨hordered, htimer.trans h.timer, ?_, ?_⟩
  · rw [hrest]
    exact htail
  · intro s hs
    rcases List.mem_append.mp hs with hold | hnew
    · exact h.carried s hold
    · rw [List.mem_singleton.mp hnew]
      exact hbyte

theorem sendNew (h : Numbered f l) {msg : Bytes} (hempty : f.queue = [])
    (hbyte : msg[2]? = some (timerByte l.next)) (htimer : f'.core.timer = f.core.timer + 1)
    (hqueue : f'.queue = f.queue) : Numbered f' (l.sendNew msg) where
  ordered := by
    have hwaiting := h.queue
    rw [hempty, List.forall₂_nil_left_iff] at hwaiting
    exact h.ordered.sendNew hwaiting msg
  timer := by
    rw [htimer, h.timer]
    exact timerByte_succ l.next
  queue := by
    rw [hqueue]
    exact h.queue
  carried := by
    intro s hs
    rcases List.mem_append.mp hs with hold | hnew
    · exact h.carried s hold
    · rw [List.mem_singleton.mp hnew]
      exact hbyte

theorem send (h : Numbered f l) {past : List Action} (hl : Lossless f past) {core : Core}
    {report : Bytes} (hid : report[0]? = some 0x21)
    (hbyte : report[1]? = some (timerByte l.next)) (htimer : core.timer = f.core.timer + 1) :
    stamps.Accepts (btstackHidSendInputReport (some report) { f with core }).2 l.stamp ∧
      Numbered (btstackHidSendInputReport (some report) { f with core }).1
        (stamps.after (btstackHidSendInputReport (some report) { f with core }).2 l.stamp) := by
  by_cases hr : Refuses { f with core } (some report)
  · rw [send_refused hr]
    exact ⟨⟨trivial, trivial⟩, h.stamp htimer rfl⟩
  · have hacc := send_accepted (f := { f with core }) hl.ring hr
    have hnext : Numbered (btstackHidSendInputReport (some report) { f with core }).1
        l.stamp.enqueue := by
      have hcore := (send_core (some report) { f with core }).1
      exact h.enqueue hid hbyte (by rw [hcore]; exact htimer) hacc.1
    rw [send_stored hr] at hnext ⊢
    split_ifs at hnext ⊢
    · exact ⟨⟨trivial, trivial⟩, hnext⟩
    · exact ⟨⟨trivial, trivial, trivial⟩, hnext⟩

/-- A stream report takes the newest stamp whether it is sent or lost. -/
theorem stream (h : Numbered f l) (hempty : f.queue = []) (ok : Bool) {msg : Bytes}
    (hstamped : streamStamped msg = true) (hbyte : msg[2]? = some (timerByte l.next))
    (htimer : f'.core.timer = f.core.timer + 1) (hqueue : f'.queue = f.queue) :
    Numbered f' ((sendResult ok msg).number l) := by
  cases ok with
  | false =>
      have hlost : (sendResult false msg).number l = l.stamp := if_pos hstamped
      rw [hlost]
      exact h.stamp htimer hqueue
  | true =>
      have hsent : (sendResult true msg).number l = l.sendNew msg := if_pos hstamped
      rw [hsent]
      exact h.sendNew hempty hbyte htimer hqueue

theorem stream_stamps (ok : Bool) {msg : Bytes} (hstamped : streamStamped msg = true)
    (hbyte : msg[2]? = some (timerByte l.next)) : Stamps (sendResult ok msg) l := by
  cases ok with
  | false => exact .inr (.inr ⟨hstamped, hbyte⟩)
  | true => exact .inr ⟨hstamped, hbyte⟩

theorem stepped (parse : Bytes → Option CJson) {past log : List Action} (hl : Lossless f past)
    (h : Numbered f l) (hs : Stepped parse f f' log) :
    stamps.Accepts log l ∧ Numbered f' (stamps.after log l) := by
  cases hs with
  | idle => exact ⟨trivial, h⟩
  | requested => exact ⟨⟨trivial, trivial⟩, h.frame rfl rfl⟩
  | opened cid =>
      have hcalls := after_calls [.released, .nfc .reset f.core.nfc] rfl .empty
      have hqueue : (connectionOpened 0 cid f).1.queue = [] := by
        show (f.ring.clear.contents replyQueueSize).map Reply.bytes = []
        rw [RingBuffer.clear_contents]
        rfl
      refine ⟨⟨trivial, hcalls.1⟩, .empty, rfl, ?_, ?_⟩
      · rw [hqueue]
        exact .nil
      · intro s hs
        exact absurd hs List.not_mem_nil
  | closed =>
      have hqueue : (connectionClosed f).1.queue = [] := by
        show (f.ring.clear.contents replyQueueSize).map Reply.bytes = []
        rw [RingBuffer.clear_contents]
        rfl
      refine ⟨⟨trivial, trivial, trivial⟩, .forget, h.timer, ?_, ?_⟩
      · rw [hqueue]
        exact .nil
      · intro s hs
        exact absurd hs List.not_mem_nil
  | polled lines now =>
      have hpoll := poll_replies parse lines now f.core
      have hcalls := after_calls _ hpoll.1 l
      rw [hcalls.2]
      exact ⟨hcalls.1, h.frame hpoll.2 rfl⟩
  | silent hsame hcalls hquiet =>
      have hafter := after_calls _ hcalls l
      rw [hafter.2]
      exact ⟨hafter.1, h.frame hsame.timer rfl⟩
  | @replied subcmdId core calls payload report hctrl htimer hgrip hcalls hquiet hfit hreport =>
      have hafter := after_calls _ hcalls l
      have hid := (replyReport_complete f.core subcmdId hfit).reportId
      have hbyte := (replyReport_complete f.core subcmdId hfit).timer
      rw [← hreport] at hid hbyte
      rw [h.timer] at hbyte
      have hsend := h.send hl hid hbyte htimer
      rw [Transition.Monitor.accepts_append, Transition.Monitor.after_append, hafter.2]
      exact ⟨⟨hafter.1, ⟨hid, hbyte⟩, hsend.1⟩, hsend.2⟩
  | @retried data waiting hc hqueue =>
      rcases h.oldest hqueue with ⟨n, numbers, hwaiting, hid, hbyte, -⟩
      have hkeep : (Action.failed (0xa1 :: data)).number l = l := by
        have hplain : ¬ streamStamped (0xa1 :: data) = true := by
          simp [streamStamped, hid]
        exact if_neg hplain
      rw [Transition.Monitor.after_cons]
      show _ ∧ Numbered _ ((Action.failed (0xa1 :: data)).number l)
      rw [hkeep]
      exact ⟨⟨.inr (.inl ⟨hid, n, numbers, hwaiting, hbyte⟩), trivial⟩, h.frame rfl rfl⟩
  | delivered hc hqueue hcore hrest =>
      have hsent := h.sendOldest hqueue (congrArg Core.timer hcore) hrest
      exact ⟨⟨hsent.1, trivial⟩, hsent.2⟩
  | @streamed ok core log hc hempty hstream =>
      have hbyte : some f.core.timer = some (timerByte l.next) := congrArg some h.timer
      cases hstream with
      | none => exact ⟨trivial, h.frame rfl rfl⟩
      | simple hmode =>
          cases ok with
          | false => exact ⟨⟨.inl rfl, trivial⟩, h.frame rfl rfl⟩
          | true => exact ⟨⟨.inl rfl, trivial⟩, h.frame rfl rfl⟩
      | full rest hmode =>
          exact ⟨⟨stream_stamps ok rfl hbyte, trivial⟩, h.stream hempty ok rfl hbyte rfl rfl⟩
      | mcu rest nfc done hmode hdone =>
          have hnext : Stamps (sendResult ok
              (0xa1 :: (headerBytes 0x31 f.core.timer f.core.ctrl false ++ rest))) l :=
            stream_stamps ok rfl hbyte
          rcases hdone with rfl | rfl
          · exact ⟨⟨trivial, hnext, trivial⟩, h.stream hempty ok rfl hbyte rfl rfl⟩
          · exact ⟨⟨trivial, hnext, trivial, trivial⟩, h.stream hempty ok rfl hbyte rfl rfl⟩

end Numbered

/-! ## Runs -/

theorem stampedSent_append (left right : List Action) :
    stampedSent (left ++ right) = stampedSent left ++ stampedSent right := List.filterMap_append

theorem ledger_sent (log : List Action) (h : stamps.Accepts log stamps.start) :
    (ledger log).sent.map Prod.snd = stampedSent (session log) := by
  induction log using List.reverseRecOn with
  | nil => rfl
  | append_singleton log a ih =>
      rw [Transition.Monitor.accepts_append] at h
      have hrest := ih h.1
      have hok : Stamps a (ledger log) := h.2.1
      have hledger : ledger (log ++ [a]) = a.number (ledger log) := by
        simp [ledger]
      have hkeep (hsent : (a.number (ledger log)).sent = (ledger log).sent)
          (hedge : a.isEdge = false) (hnone : stampedSent [a] = []) :
          (ledger (log ++ [a])).sent.map Prod.snd = stampedSent (session (log ++ [a])) := by
        rw [hledger, hsent, hrest, session_append _ _ (by simpa using hedge),
          stampedSent_append, hnone, List.append_nil]
      cases a with
      | core e => cases e <;> exact hkeep rfl rfl rfl
      | accepted | refused | request => exact hkeep rfl rfl rfl
      | opened =>
          have hcut : session (log ++ [.opened]) = [] := session_edge log rfl [] (by simp)
          rw [hledger, hcut]
          rfl
      | closed =>
          have hcut : session (log ++ [.closed]) = [] := session_edge log rfl [] (by simp)
          rw [hledger, hcut]
          rfl
      | failed msg =>
          by_cases hs : streamStamped msg = true
          · exact hkeep (by simp [Action.number, hs, StampLedger.stamp]) rfl rfl
          · exact hkeep (by simp [Action.number, hs]) rfl rfl
      | sent isReply msg =>
          have hadd (n : Nat) (hsent : (Action.number (.sent isReply msg) (ledger log)).sent =
              (ledger log).sent ++ [(n, msg)]) (hid : msg[1]? ≠ some 0x3f) :
              (ledger (log ++ [.sent isReply msg])).sent.map Prod.snd =
                stampedSent (session (log ++ [.sent isReply msg])) := by
            rw [hledger, hsent, List.map_append, hrest,
              session_append _ _ (by simp [Action.isEdge]), stampedSent_append]
            simp [stampedSent, hid]
          cases isReply with
          | true =>
              rcases hok with ⟨hid, n, waiting, hwaiting, -⟩
              apply hadd n
              · simp [Action.number, StampLedger.sendOldest, hwaiting]
              · rw [hid]
                decide
          | false =>
              rcases hok with hsimple | ⟨hstamped, -⟩
              · apply hkeep
                · simp [Action.number, streamStamped, hsimple]
                · rfl
                · simp [stampedSent, hsimple]
              · apply hadd (ledger log).next
                · simp [Action.number, hstamped, StampLedger.sendNew]
                · intro hc
                  simp [streamStamped, hc] at hstamped

/-- Numbered by an unbounded counter whose low 8 bits are the timer byte, the reports
sent in a connection carry strictly increasing numbers. -/
theorem reports_in_stamp_order (p : Platform) (parse : Bytes → Option CJson) {f : Firmware}
    {log : List Action} (h : (firmware p parse).Reaches f log) :
    f.core.timer = timerByte (ledger log).next ∧
    stamps.Accepts log stamps.start ∧
    (ledger log).sent.map Prod.snd = stampedSent (session log) ∧
    (∀ s ∈ (ledger log).sent, s.2[2]? = some (timerByte s.1)) ∧
    ((ledger log).sent.map Prod.fst).Pairwise (· < ·) := by
  have hboot : Numbered Firmware.boot stamps.start := by
    refine ⟨.empty, rfl, ?_, ?_⟩
    · have hqueue : Firmware.boot.queue = [] := rfl
      rw [hqueue]
      exact .nil
    · intro s hs
      exact absurd hs List.not_mem_nil
  have hrun := accepts_stepped stamps Numbered hboot
    (fun f f' past log l hl hn hs => hn.stepped parse hl hs) h
  exact ⟨hrun.2.timer, hrun.1, ledger_sent log hrun.1, hrun.2.carried,
    hrun.2.ordered.sent_increasing⟩

/-- Two requests around a failed reply, then a lost and a sent stream report. -/
def delayedReplies : List Event :=
  [.opened 0 1, .reportData 1 (zeros 9 ++ [0x02]), .canSendNow false, .inputTimer,
    .reportData 1 (zeros 9 ++ [0x08]), .canSendNow true, .inputTimer, .canSendNow true,
    .inputTimer, .canSendNow false, .inputTimer, .canSendNow true]

theorem reports_in_stamp_order_delayed :
    ∃ f log, (firmware blankPlatform fun _ => none).Reaches f log ∧
      (ledger log).sent.map Prod.fst = [0, 1, 3] ∧ f.core.timer = 4 ∧
      ((ledger log).sent.map Prod.fst).Pairwise (· < ·) := by
  have hrun : (((firmware blankPlatform fun _ => none).run delayedReplies Firmware.boot).map
      fun r => ((ledger r.2).sent.map Prod.fst, r.1.core.timer)) = some ([0, 1, 3], 4) := by
    decide +kernel
  rcases Option.map_eq_some_iff.mp hrun with ⟨⟨f, log⟩, hr, hsent⟩
  rw [Prod.mk.injEq] at hsent
  have hordered := reports_in_stamp_order _ _ ⟨_, hr⟩
  exact ⟨f, log, ⟨_, hr⟩, hsent.1, hsent.2, hordered.2.2.2.2⟩

end SwitchController.Transport
