import SwitchController.Lib.Monitor
import SwitchController.Nfc.Currency

/-! # A tag is announced once

`poll` says of a present tag that it is new, and from then on that it is known. What
it has said is kept in two flags that many calls reset; a run of any length keeps
them consistent, so between two resets the first answer announces and all later ones
repeat.
-/

namespace SwitchController.Nfc

open Memory Transition

/-! ## Where poll is called -/

/-- The state in which a call reaches `poll`, if it does. -/
def Mcu.pollCall (m : Mcu) : Op → Option Mcu
  | .load data =>
      if data.length = tagSize ∧ m.powerState = 4 ∧ m.pollState ≠ 0 then
        some { m.withTag data with pollState := 1 }
      else none
  | .unload =>
      if m.pollState ≠ 0 ∧ m.powerState = 4 then some { m.withoutTag with pollState := 1 }
      else none
  | .command packet =>
      if m.request packet = .poll then some (m.counted packet true) else none
  | .reset | .power _ | .config _ | .peek | .commit => none

/-- What `poll` queues: nothing on a full ring. -/
def Mcu.polled (m : Mcu) : Option Packet :=
  if m.queue.count = queueSize then none else some m.pollPacket

/-- Calls after which a present tag is new again. -/
def Mcu.renews (m : Mcu) : Op → Bool
  | .reset | .unload => true
  | .load data => data.length = tagSize
  | .power value => ¬ value > 1
  | .config args => m.powerState ≠ 0 ∧ (configMode args).any (· ≠ 0)
  | .command packet => m.request packet = .stop
  | .peek | .commit => false

/-- An answer of `poll`. -/
def Packet.Response : Packet → Prop
  | .poll _ | .found _ _ => True
  | .status _ | .first _ | .second _ | .trailer _ => False

/-- The calls that reach `poll`, each with the state it meets. -/
inductive PollCalled (m : Mcu) : Op → Mcu → Prop
  | load {data : Bytes} (hlen : data.length = tagSize)
      (hpolls : m.powerState = 4 ∧ m.pollState ≠ 0) :
      PollCalled m (.load data) { m.withTag data with pollState := 1 }
  | unload (hpolls : m.pollState ≠ 0) (hpower : m.powerState = 4) :
      PollCalled m .unload { m.withoutTag with pollState := 1 }
  | command {packet : Bytes} (hask : m.request packet = .poll) :
      PollCalled m (.command packet) (m.counted packet true)

theorem pollCall_cases {m n : Mcu} {op : Op} (hn : m.pollCall op = some n) :
    PollCalled m op n := by
  cases op with
  | reset | power | config | peek | commit => cases hn
  | load data =>
      simp only [Mcu.pollCall] at hn
      split_ifs at hn with hc
      cases hn
      exact .load hc.1 hc.2
  | unload =>
      simp only [Mcu.pollCall] at hn
      split_ifs at hn with hc
      cases hn
      exact .unload hc.1 hc.2
  | command packet =>
      simp only [Mcu.pollCall] at hn
      split_ifs at hn with hc
      cases hn
      exact .command hc

/-- A call that reaches `poll` is a call of `poll` in that state. -/
theorem pollCall_step {m n : Mcu} {a : Model} (h : Rep m a) {op : Op}
    (hn : m.pollCall op = some n) : ∃ r, step op m = some (poll n, r) := by
  cases pollCall_cases hn with
  | load hlen hpolls =>
      refine ⟨[.accepted true], ?_⟩
      rw [step, nfcLoad_body hlen, if_pos hpolls]
  | unload hpolls hpower =>
      refine ⟨[.done], ?_⟩
      rw [step, nfcUnload_body, if_pos hpolls, if_pos hpower]
  | @command packet hask =>
      have hrun := nfcCommand_eq h.tag_length packet
      have hcounted := perform_counted .poll m packet true h.tag_length
      rw [hask] at hrun
      refine ⟨[.accepted true], ?_⟩
      rw [step, hrun]
      exact congrArg (fun s => some (s, [Result.accepted true])) hcounted.symm

/-! ## The flags -/

structure Model.Flags (a : Model) : Prop where
  polling : a.polling = 0 ∨ a.polling = 1 ∨ a.polling = 9
  seen : a.seen = true → a.tag.isSome = true
  again : a.polling = 9 → a.seen = true

namespace Model.Flags

variable {a : Model}

theorem boot : Model.boot.Flags := ⟨.inl rfl, by simp [Model.boot], by simp [Model.boot]⟩

/-- A queue says nothing about the flags. -/
theorem requeue (h : a.Flags) (qs : List Packet) : ({ a with pending := qs } : Model).Flags :=
  ⟨h.polling, h.seen, h.again⟩

theorem enterMode (a : Model) (mode : UInt8) : (a.enterMode mode).Flags :=
  ⟨.inl rfl, by simp [Model.enterMode], by simp [Model.enterMode]⟩

theorem status (h : a.Flags) : a.status.Flags := by
  unfold Model.status Model.enqueue
  split_ifs
  · exact h.requeue _
  · exact h

theorem poll (h : a.Flags) : a.poll.Flags := by
  by_cases hroom : a.pending.length < queueSize
  · by_cases hbare : a.tag = none ∨ a.polling = 0
    · rw [poll_bare hroom hbare]
      exact h.requeue _
    · obtain ⟨tag, ht⟩ := Option.ne_none_iff_exists'.mp (not_or.mp hbare).1
      rw [poll_found hroom ht (not_or.mp hbare).2]
      refine ⟨?_, fun _ => by simp [ht], fun _ => rfl⟩
      change a.foundState = 0 ∨ a.foundState = 1 ∨ a.foundState = 9
      unfold foundState
      split_ifs
      · exact .inr (.inr rfl)
      · exact .inr (.inl rfl)
  · rw [poll_full hroom]
    exact h

theorem load (h : a.Flags) (hi : a.Inv) (data : Bytes) : (a.load data).2.Flags := by
  unfold Model.load
  by_cases hlen : data.length = tagSize
  swap
  · rw [if_pos hlen]
    exact h
  rw [if_neg (not_not.mpr hlen)]
  by_cases hpoll : a.power = 4 ∧ a.polling ≠ 0
  · rw [if_pos hpoll]
    exact ⟨.inr (.inl rfl), fun _ => rfl, fun hc => absurd hc (by dsimp only; decide)⟩
  · rw [if_neg hpoll]
    have hidle : a.polling = 0 := by
      by_contra hc
      exact hpoll ⟨hi.polling hc, hc⟩
    exact ⟨h.polling, fun hc => absurd hc (by simp), fun hc => absurd hc (by simp [hidle])⟩

theorem unload (h : a.Flags) : a.unload.Flags := by
  unfold Model.unload
  by_cases hpoll : a.polling ≠ 0
  · simp only [if_pos hpoll]
    exact ⟨.inr (.inl rfl), fun hc => absurd hc (by simp),
      fun hc => absurd hc (by dsimp only; decide)⟩
  · simp only [if_neg hpoll]
    exact ⟨h.polling, fun hc => absurd hc (by simp),
      fun hc => absurd hc (by simp [not_not.mp hpoll])⟩

theorem perform (h : a.Flags) (r : Request) : (Model.perform r a).Flags := by
  cases r with
  | reject => exact h
  | status => exact h.status
  | startPoll =>
      exact ⟨.inr (.inl rfl), h.seen,
        fun hc => absurd hc (by dsimp only [Model.perform]; decide)⟩
  | stop => exact ⟨.inl rfl, by simp [Model.perform], by simp [Model.perform]⟩
  | poll => exact h.poll
  | read =>
      cases ht : a.tag with
      | none => simpa [Model.perform, ht] using h
      | some tag =>
          rw [read_some ht]
          exact h.requeue _

theorem step (h : a.Flags) (hi : a.Inv) (op : Op) : (Model.step op a).1.Flags := by
  cases op with
  | reset => exact ⟨.inl rfl, by simp [Model.step, Model.reset], by simp [Model.step, Model.reset]⟩
  | load data => exact h.load hi data
  | unload => exact h.unload
  | power value =>
      simp only [Model.step, Model.setPower]
      split_ifs
      · exact h
      · exact enterMode a value
  | config args =>
      simp only [Model.step, Model.config]
      cases configMode args with
      | none => exact h
      | some mode =>
          dsimp only
          split_ifs
          · exact enterMode a mode
          · exact h
  | command packet => exact h.perform _
  | peek => exact h
  | commit => exact h.requeue _

end Model.Flags

/-- What every reachable state stands for. -/
theorem reachable_flags {m : Mcu} (h : machine.Reachable m) :
    ∃ a, Rep m a ∧ a.Inv ∧ a.Flags := by
  refine h.invariant (fun m => ∃ a, Rep m a ∧ a.Inv ∧ a.Flags)
    ⟨Model.boot, Rep.boot, Model.Inv.boot, Model.Flags.boot⟩ ?_
  rintro op m m' r ⟨a, ha, hi, hf⟩ hs
  obtain ⟨m'', hs', hrep⟩ := step_refines ha op
  cases hs.symm.trans hs'
  exact ⟨_, hrep, hi.step op, hf.step hi op⟩

/-! ## What is heard -/

inductive Heard
  | renewed
  | response (p : Packet)
deriving DecidableEq

def Mcu.heard (m : Mcu) (op : Op) : List Heard :=
  (if m.renews op then [.renewed] else []) ++
    ((m.pollCall op).bind Mcu.polled).toList.map .response

/-- The MCU, heard from outside. -/
def announcer : System Mcu Op Heard where
  init := Mcu.boot
  step := fun op m => (step op m).map fun r => (r.1, m.heard op)

/-- Remembers whether the tag was announced, and expects the next answer to say so. -/
def announcements : Monitor Bool Heard where
  start := false
  next := fun
    | .renewed, _ => false
    | .response (.found _ _), _ => true
    | .response _, seen => seen
  Ok := fun
    | .response (.found state _), seen => state = if seen then 9 else 1
    | _, _ => True

theorem heard_polled {m n : Mcu} {op : Op} (hn : m.pollCall op = some n) :
    m.heard op = (if m.renews op then [.renewed] else []) ++ n.polled.toList.map .response := by
  simp [Mcu.heard, hn]

/-- An answer of `poll` is what the monitor expects after the flags it was made with. -/
theorem polled_accepted {n : Mcu} (htag : n.tag.length = tagSize) :
    announcements.Accepts (n.polled.toList.map .response) n.seen ∧
      (poll n).seen = announcements.after (n.polled.toList.map .response) n.seen := by
  by_cases hfull : n.queue.count = queueSize
  · rw [poll_full hfull, Mcu.polled, if_pos hfull]
    exact ⟨trivial, rfl⟩
  · rw [poll_eq htag hfull, Mcu.polled, if_neg hfull]
    by_cases hf : n.present = true ∧ n.pollState ≠ 0
    · have hpacket : n.pollPacket = .found (if n.seen then 9 else 1) n.tag := if_pos hf
      have hseen : (n.announce.enqueue n.pollPacket.encode).seen = true := by
        simp [Mcu.announce, Mcu.enqueue, hf]
      rw [hseen, hpacket]
      exact ⟨⟨rfl, trivial⟩, rfl⟩
    · have hpacket : n.pollPacket = .poll n.pollState := if_neg hf
      have hseen : (n.announce.enqueue n.pollPacket.encode).seen = n.seen := by
        simp [Mcu.announce, Mcu.enqueue, hf]
      rw [hseen, hpacket]
      exact ⟨⟨trivial, trivial⟩, rfl⟩

theorem status_seen (m : Mcu) : (status m).seen = m.seen := by
  by_cases hfull : m.queue.count = queueSize
  · rw [status_full hfull]
  · rw [status_eq hfull]
    rfl

/-- The state `poll` meets knows of the tag what the renewal left. -/
theorem pollCall_seen {m n : Mcu} {op : Op} (hn : m.pollCall op = some n) :
    n.seen = if m.renews op then false else m.seen := by
  cases pollCall_cases hn with
  | load hlen hpolls => simp [Mcu.renews, hlen, Mcu.withTag, flush]
  | unload hpolls hpower => rfl
  | command hask => simp [Mcu.renews, hask, Mcu.counted]

/-- Calls that do not reach `poll` only ever forget. -/
theorem quiet_seen {m m' : Mcu} {a : Model} (h : Rep m a) (hi : a.Inv) {op : Op}
    {r : List Result} (hn : m.pollCall op = none) (hs : step op m = some (m', r)) :
    m'.seen = if m.renews op then false else m.seen := by
  cases op with
  | reset => cases hs; rfl
  | load data =>
      simp only [step, Option.some.injEq, Prod.mk.injEq] at hs
      rw [← hs.1]
      by_cases hlen : data.length = tagSize
      · have hidle : ¬ (m.powerState = 4 ∧ m.pollState ≠ 0) := by
          intro hc
          simp [Mcu.pollCall, hlen, hc] at hn
        rw [nfcLoad_body hlen, if_neg hidle]
        have hrenews : m.renews (.load data) = true := by simp [Mcu.renews, hlen]
        rw [hrenews]
        by_cases hpower : m.powerState ≠ 0
        · rw [if_pos hpower]
          exact status_seen _
        · rw [if_neg hpower]
          rfl
      · rw [nfcLoad_short hlen]
        simp [Mcu.renews, hlen]
  | unload =>
      cases hs
      rw [nfcUnload_body]
      have hidle : m.pollState = 0 := by
        by_contra hc
        have hmode : m.powerState = 4 := by
          rw [← h.power]
          exact hi.polling (by rw [h.polling]; exact hc)
        simp [Mcu.pollCall, hc, hmode] at hn
      rw [if_neg (not_not.mpr hidle)]
      rfl
  | power value =>
      simp only [step, Option.some.injEq, Prod.mk.injEq] at hs
      rw [← hs.1, nfcPower_eq]
      by_cases hv : value > 1
      · simp [Mcu.renews, hv]
      · rw [if_neg hv]
        simp only [Mcu.renews, hv]
        exact status_seen _
  | config args =>
      simp only [step, nfcConfig_eq, Option.map_some, Option.some.injEq, Prod.mk.injEq] at hs
      rw [← hs.1]
      cases hc : configMode args with
      | none => simp [Mcu.renews, hc]
      | some mode =>
          dsimp only
          by_cases heff : m.powerState ≠ 0 ∧ mode ≠ 0
          · rw [if_pos heff]
            have hrenews : m.renews (.config args) = true := by simpa [Mcu.renews, hc] using heff
            rw [hrenews]
            exact status_seen _
          · rw [if_neg heff]
            have hkeeps : m.renews (.config args) = false := by
              simpa [Mcu.renews, hc] using heff
            rw [hkeeps]
            rfl
  | command packet =>
      simp only [step, nfcCommand_eq h.tag_length, Option.map_some, Option.some.injEq,
        Prod.mk.injEq] at hs
      rw [← hs.1]
      have hpoll : m.request packet ≠ .poll := fun hc => by simp [Mcu.pollCall, hc] at hn
      have hperform : ∀ q : Request, q ≠ .poll →
          (q.perform m).seen = if q = .stop then false else m.seen := by
        intro q hq
        cases q with
        | poll => exact absurd rfl hq
        | status => exact status_seen m
        | reject | startPoll | stop | read => rfl
      change ((m.request packet).perform m).seen = _
      rw [hperform _ hpoll]
      simp [Mcu.renews]
  | peek => cases hs; rfl
  | commit =>
      cases hs
      change (nfcCommit m).seen = m.seen
      unfold nfcCommit
      split_ifs <;> rfl

theorem pollCall_tag {m n : Mcu} {a : Model} (h : Rep m a) {op : Op}
    (hn : m.pollCall op = some n) : n.tag.length = tagSize := by
  cases pollCall_cases hn with
  | load hlen hpolls => exact hlen
  | unload hpolls hpower => exact (zeros_length _).trans h.tag_length
  | command hask => exact h.tag_length

theorem pollCall_count {m n : Mcu} {a : Model} (h : Rep m a) {op : Op}
    (hn : m.pollCall op = some n) : n.queue.count ≤ queueSize := by
  cases pollCall_cases hn with
  | load hlen hpolls => exact Nat.zero_le _
  | unload hpolls hpower => exact Nat.zero_le _
  | command hask => exact h.queue.count_le

/-- One call: what is heard of it is what the flags lead one to expect. -/
theorem heard_accepted {m m' : Mcu} {a : Model} (h : Rep m a) (hi : a.Inv) {op : Op}
    {r : List Result} (hs : step op m = some (m', r)) :
    announcements.Accepts (m.heard op) m.seen ∧
      m'.seen = announcements.after (m.heard op) m.seen := by
  have hrenewed : announcements.Accepts (if m.renews op then [.renewed] else []) m.seen ∧
      announcements.after (if m.renews op then [.renewed] else []) m.seen =
        if m.renews op then false else m.seen := by
    cases m.renews op with
    | true => exact ⟨⟨trivial, trivial⟩, rfl⟩
    | false => exact ⟨trivial, rfl⟩
  cases hn : m.pollCall op with
  | none =>
      have hquiet := quiet_seen h hi hn hs
      have hheard : m.heard op = if m.renews op then [.renewed] else [] := by
        simp [Mcu.heard, hn]
      rw [hheard, hrenewed.2]
      exact ⟨hrenewed.1, hquiet⟩
  | some n =>
      obtain ⟨r', hpoll⟩ := pollCall_step h hn
      cases hs.symm.trans hpoll
      obtain ⟨haccepts, hafter⟩ := polled_accepted (pollCall_tag h hn)
      rw [heard_polled hn, Monitor.accepts_append, Monitor.after_append, hrenewed.2,
        ← pollCall_seen hn]
      exact ⟨⟨hrenewed.1, haccepts⟩, hafter⟩

/-! ## What the packets say -/

/-- The length byte of the identifier. -/
def CarriesUid (p : Bytes) : Prop := p[15]? = some 7

theorem found_encode (state : UInt8) {tag : Bytes} (htag : tag.length = tagSize) :
    (Packet.found state tag).encode[7]? = some state ∧
      CarriesUid (Packet.found state tag).encode ∧
      ((Packet.found state tag).encode.drop 16).take 7 = uidBytes tag := by
  have huid := uidBytes_length htag
  have hlen : (Packet.found state tag).body.length = 23 := by
    simp [Packet.body, pollHeader, foundHeader, huid]
  have hbody : (Packet.found state tag).body =
      pollHeader ++ [state] ++ foundHeader ++ uidBytes tag := rfl
  refine ⟨?_, ?_, ?_⟩
  · rw [Packet.encode, sealPacket_getElem? (by omega)]
    rfl
  · rw [CarriesUid, Packet.encode, sealPacket_getElem? (by omega)]
    rfl
  · rw [List.take_drop, Packet.encode, sealPacket_take (by omega),
      List.take_of_length_le (by omega), hbody]
    rfl

theorem poll_encode (state : UInt8) :
    (Packet.poll state).encode[7]? = some state ∧ ¬ CarriesUid (Packet.poll state).encode := by
  constructor
  · rfl
  · have hzero : (Packet.poll state).encode[15]? = some 0 := rfl
    rw [CarriesUid, hzero]
    decide

/-- The tag is described exactly when it is there and polled for. -/
theorem pollPacket_uid {n : Mcu} (htag : n.tag.length = tagSize) :
    (CarriesUid n.pollPacket.encode ↔ n.present = true ∧ n.pollState ≠ 0) ∧
      (CarriesUid n.pollPacket.encode →
        (n.pollPacket.encode.drop 16).take 7 = uidBytes n.tag) := by
  by_cases hf : n.present = true ∧ n.pollState ≠ 0
  · have hpacket : n.pollPacket = .found (if n.seen then 9 else 1) n.tag := if_pos hf
    obtain ⟨-, hcarries, huid⟩ := found_encode (if n.seen then 9 else 1) htag
    rw [hpacket]
    exact ⟨⟨fun _ => hf, fun _ => hcarries⟩, fun _ => huid⟩
  · have hpacket : n.pollPacket = .poll n.pollState := if_neg hf
    have hno := (poll_encode n.pollState).2
    rw [hpacket]
    exact ⟨⟨fun h => absurd h hno, fun h => absurd h hf⟩, fun h => absurd h hno⟩

/-- Other calls queue no answer of `poll`. -/
theorem quiet_responses {m : Mcu} {a : Model} (h : Rep m a) {op : Op}
    (hn : m.pollCall op = none) :
    ∀ p ∈ (Model.step op a).1.pending, p.Response → p ∈ a.pending := by
  cases op with
  | reset => simp [Model.step, Model.reset]
  | load data =>
      intro p hp hresponse
      simp only [Model.step, Model.load] at hp
      by_cases hlen : data.length = tagSize
      · have hidle : ¬ (a.power = 4 ∧ a.polling ≠ 0) := by
          rw [h.power, h.polling]
          intro hc
          simp [Mcu.pollCall, hlen, hc] at hn
        rw [if_neg (not_not.mpr hlen), if_neg hidle] at hp
        dsimp only at hp
        split_ifs at hp
        · cases List.mem_singleton.mp hp
          exact hresponse.elim
        · cases hp
      · rw [if_pos hlen] at hp
        exact hp
  | unload =>
      intro p hp hresponse
      simp only [Model.step, Model.unload] at hp
      by_cases hpoll : a.polling ≠ 0
      · have hmode : a.power ≠ 4 := by
          rw [h.polling] at hpoll
          rw [h.power]
          intro hc
          simp [Mcu.pollCall, hpoll, hc] at hn
        simp only [if_pos hpoll, if_neg hmode] at hp
        cases hp
      · simp only [if_neg hpoll] at hp
        cases hp
  | power value =>
      intro p hp hresponse
      simp only [Model.step, Model.setPower] at hp
      split_ifs at hp
      · exact hp
      · cases List.mem_singleton.mp hp
        exact hresponse.elim
  | config args =>
      intro p hp hresponse
      simp only [Model.step, Model.config] at hp
      cases hc : configMode args with
      | none =>
          rw [hc] at hp
          exact hp
      | some mode =>
          rw [hc] at hp
          dsimp only at hp
          split_ifs at hp
          · cases List.mem_singleton.mp hp
            exact hresponse.elim
          · exact hp
  | command packet =>
      intro p hp hresponse
      change p ∈ (Model.perform (a.request packet) a).pending at hp
      have hpoll : a.request packet ≠ .poll := by
        rw [h.request]
        intro hc
        simp [Mcu.pollCall, hc] at hn
      cases hr : a.request packet with
      | poll => exact absurd hr hpoll
      | reject | startPoll =>
          rw [hr] at hp
          exact hp
      | stop =>
          rw [hr] at hp
          cases hp
      | status =>
          rw [hr] at hp
          simp only [Model.perform, Model.status, Model.enqueue] at hp
          split_ifs at hp
          · rcases List.mem_append.mp hp with hold | hnew
            · exact hold
            · cases List.mem_singleton.mp hnew
              exact hresponse.elim
          · exact hp
      | read =>
          rw [hr] at hp
          cases ht : a.tag with
          | none =>
              simp only [Model.perform, ht] at hp
              exact hp
          | some tag =>
              rw [Model.read_some ht] at hp
              simp only [readPackets, List.mem_cons, List.not_mem_nil, or_false] at hp
              rcases hp with rfl | rfl | rfl
              all_goals exact hresponse.elim
  | peek => exact fun p hp _ => hp
  | commit => exact fun p hp _ => List.mem_of_mem_tail hp

/-! ## Announcements -/

/-- The state bytes of the answers that carry an identifier. -/
def states (log : List Heard) : List UInt8 :=
  log.filterMap fun
    | .response (.found state _) => some state
    | _ => none

/-- After an announcement the tag is known until a renewal. -/
theorem states_known {segment : List Heard} (hno : ∀ e ∈ segment, e ≠ .renewed)
    (h : announcements.Accepts segment true) : ∃ n, states segment = List.replicate n 9 := by
  induction segment with
  | nil => exact ⟨0, rfl⟩
  | cons e segment ih =>
      have hrest : ∀ e ∈ segment, e ≠ .renewed := fun e he => hno e (List.mem_cons_of_mem _ he)
      obtain ⟨hok, haccepts⟩ := h
      cases e with
      | renewed => exact absurd rfl (hno _ List.mem_cons_self)
      | response p =>
          cases p with
          | found state tag =>
              obtain ⟨n, hn⟩ := ih hrest haccepts
              have hstate : state = 9 := hok
              refine ⟨n + 1, ?_⟩
              rw [hstate]
              exact congrArg (List.cons 9) hn
          | status | poll | first | second | trailer => exact ih hrest haccepts

/-- The first answer after a renewal announces, the others repeat. -/
theorem states_announced {segment : List Heard} (hno : ∀ e ∈ segment, e ≠ .renewed)
    (h : announcements.Accepts segment false) :
    states segment = [] ∨ ∃ n, states segment = 1 :: List.replicate n 9 := by
  induction segment with
  | nil => exact .inl rfl
  | cons e segment ih =>
      have hrest : ∀ e ∈ segment, e ≠ .renewed := fun e he => hno e (List.mem_cons_of_mem _ he)
      obtain ⟨hok, haccepts⟩ := h
      cases e with
      | renewed => exact absurd rfl (hno _ List.mem_cons_self)
      | response p =>
          cases p with
          | found state tag =>
              obtain ⟨n, hn⟩ := states_known hrest haccepts
              have hstate : state = 1 := hok
              refine .inr ⟨n, ?_⟩
              rw [hstate]
              exact congrArg (List.cons 1) hn
          | status | poll | first | second | trailer => exact ih hrest haccepts

theorem announcer_accepted {m : Mcu} {log : List Heard} (h : announcer.Reaches m log) :
    announcements.Accepts log false := by
  refine (Monitor.accepts_reaches (W := announcements)
    (fun m seen => m.seen = seen ∧ ∃ a, Rep m a ∧ a.Inv)
    ⟨rfl, Model.boot, Rep.boot, Model.Inv.boot⟩ ?_ h).1
  rintro op m m' heard seen ⟨rfl, a, ha, hi⟩ hs
  obtain ⟨m'', hrun, hrep⟩ := step_refines ha op
  obtain ⟨⟨m₁, r⟩, hrun', heq⟩ := Option.map_eq_some_iff.mp hs
  cases heq
  cases hrun.symm.trans hrun'
  obtain ⟨haccepts, hseen⟩ := heard_accepted ha hi hrun'
  exact ⟨haccepts, hseen, _, hrep, hi.step op⟩

/-- Between two renewals a present tag is announced as new by the first answer that
carries its identifier and by no other, and a dropped answer announces nothing. -/
theorem tag_announced_once :
    (∀ m, machine.Reachable m →
      (m.powerState = 0 ∨ m.powerState = 1 ∨ m.powerState = 4) ∧
      (m.pollState = 0 ∨ m.pollState = 1 ∨ m.pollState = 9) ∧
      (m.pollState ≠ 0 → m.powerState = 4) ∧ (m.seen = true → m.present = true) ∧
      (m.pollState = 9 → m.seen = true)) ∧
    (∀ m log, announcer.Reaches m log → ∀ pre segment post,
      log = pre ++ .renewed :: (segment ++ post) → (∀ e ∈ segment, e ≠ .renewed) →
      states segment = [] ∨ ∃ n, states segment = 1 :: List.replicate n 9) ∧
    (∀ m, machine.Reachable m → ∀ op,
      (∀ n, m.pollCall op = some n → ∃ r, step op m = some (poll n, r) ∧
        (n.queue.count = queueSize → poll n = n) ∧
        (n.queue.count ≠ queueSize →
          (poll n).pending = n.pending ++ [n.pollPacket.encode] ∧
          (CarriesUid n.pollPacket.encode ↔ n.present = true ∧ n.pollState ≠ 0) ∧
          (CarriesUid n.pollPacket.encode →
            (n.pollPacket.encode.drop 16).take 7 = uidBytes n.tag))) ∧
      (m.pollCall op = none → ∃ a a' m' r, Rep m a ∧ Rep m' a' ∧ step op m = some (m', r) ∧
        ∀ p ∈ a'.pending, p.Response → p ∈ a.pending)) := by
  refine ⟨fun m h => ?_, fun m log h pre segment post hlog hno => ?_, fun m h op => ?_⟩
  · obtain ⟨a, ha, hi, hf⟩ := reachable_flags h
    rw [← ha.power, ← ha.polling, ← ha.seen, ← ha.isSome]
    exact ⟨hi.power, hf.polling, hi.polling, hf.seen, hf.again⟩
  · have haccepts := announcer_accepted h
    rw [hlog, Monitor.accepts_append] at haccepts
    have hafter := (Monitor.accepts_append announcements segment post _).mp haccepts.2.2
    exact states_announced hno hafter.1
  · obtain ⟨a, ha, hi⟩ := reachable_inv h
    refine ⟨fun n hn => ?_, fun hn => ?_⟩
    · obtain ⟨r, hs⟩ := pollCall_step ha hn
      have htag := pollCall_tag ha hn
      refine ⟨r, hs, fun hfull => poll_full hfull, fun hroom => ?_⟩
      have hcount := Nat.lt_of_le_of_ne (pollCall_count ha hn) hroom
      have hqueue : n.announce.queue = n.queue := by
        unfold Mcu.announce
        split_ifs <;> rfl
      refine ⟨?_, pollPacket_uid htag⟩
      rw [poll_eq htag hroom, enqueue_pending _ (by rw [hqueue]; exact hcount), Mcu.pending, hqueue]
      rfl
    · obtain ⟨m', hs, hrep⟩ := step_refines ha op
      exact ⟨a, _, m', _, ha, hrep, hs, quiet_responses ha hn⟩

/-- The MCU is brought into NFC mode, polled, given a tag and polled again. -/
def presentation : List Op :=
  [.power 1, .config [0, 0, 4], .command ([0x11] ++ zeros 9 ++ [2, 1]), .load (zeros tagSize),
    .command ([0x11] ++ zeros 9 ++ [2, 4])]

theorem tag_announced_once_presentation :
    ∃ m segment, announcer.Reaches m ([.renewed, .renewed] ++ .renewed :: (segment ++ [])) ∧
      (states segment = [] ∨ ∃ n, states segment = 1 :: List.replicate n 9) ∧
      states segment = [1, 9] := by
  let segment : List Heard :=
    [.response (.found 1 (zeros tagSize)), .response (.found 9 (zeros tagSize))]
  have hrun : (announcer.run presentation Mcu.boot).map Prod.snd =
      some ([.renewed, .renewed] ++ .renewed :: (segment ++ [])) := by decide +kernel
  obtain ⟨⟨m, log⟩, hr, hlog⟩ := Option.map_eq_some_iff.mp hrun
  have hreach : announcer.Reaches m log := ⟨presentation, hr⟩
  rw [show log = _ from hlog] at hreach
  have hstates := tag_announced_once.2.1 m _ hreach _ segment [] rfl (by simp [segment])
  exact ⟨m, segment, hreach, hstates, rfl⟩

end SwitchController.Nfc
