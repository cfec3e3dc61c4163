import Mathlib.Tactic.Linarith
import SwitchController.Host.Matching

/-! # A device that keeps answering

The window gives a link up when no reply counted for three seconds, and a reply counts only
while its command is pending. Below, the window is watched together with the commands whose
replies are still to be handled and the time of the last tick. Replies within the limits of
their commands always keep the link; replies within three seconds need not.
-/

namespace SwitchController.Host.App

/-! ## Watching the window -/

/-- A command of the current link whose reply has not been handled. -/
structure Waiting where
  id : Nat
  kind : Kind
  sent : Rat

def Note.heard (waiting : List Waiting) : Note → List Waiting
  | .sent _ _ id request _ time => waiting ++ [{ id, kind := request.kind, sent := time }]
  | .handled _ echo => waiting.eraseP (·.id = echo.answer.id)
  | .disconnected => []
  | _ => waiting

def awaited (waiting : List Waiting) (notes : List Note) : List Waiting :=
  notes.foldl Note.heard waiting

structure Watch where
  world : World
  waiting : List Waiting
  ticked : Rat

def Act.isTick : Act → Bool
  | .tick => true
  | _ => false

def Watch.next (e : Act) (s : Watch) : Watch where
  world := e.next s.world
  waiting := awaited s.waiting (e.notes s.world)
  ticked := if e.isTick then s.world.now else s.ticked

def watched : Transition.System Watch Act Note where
  init := { world := .boot, waiting := [], ticked := 0 }
  step e s := some (s.next e, e.notes s.world)

/-- Time passes only as long as the last tick is at most 100 ms ago and no command has
waited for its reply longer than `limit`. -/
def Prompt (limit : Kind → Rat) (s : Watch) : Act → Prop
  | .elapse seconds => 0 ≤ seconds ∧ s.world.now + seconds ≤ s.ticked + 1 / 10 ∧
      ∀ c ∈ s.waiting, s.world.now + seconds ≤ c.sent + limit c.kind
  | _ => True

instance (limit : Kind → Rat) (s : Watch) : DecidablePred (Prompt limit s)
  | .elapse _ => by unfold Prompt; infer_instance
  | .connect _ | .disconnect | .send _ _ | .releaseAll | .tick | .write | .breakLink
  | .arrive _ _ => isTrue trivial

/-- Is every step of the run prompt? -/
def promptly (limit : Kind → Rat) : List Act → Watch → Bool
  | [], _ => true
  | e :: es, s => decide (Prompt limit s e) && promptly limit es (s.next e)

theorem along_promptly {limit : Kind → Rat} {es : List Act} {s : Watch}
    (h : promptly limit es s = true) : watched.Along (Prompt limit) es s := by
  induction es generalizing s with
  | nil => trivial
  | cons e es ih =>
      unfold promptly at h
      rw [Bool.and_eq_true, decide_eq_true_eq] at h
      refine ⟨h.1, ?_⟩
      intro s' notes hs
      cases hs
      exact ih h.2

/-! ## The next sign of life -/

namespace World

/-- The kind of command the timer keeps pending. -/
def beat (w : World) : Kind := if w.connected then .state else .status

/-- How long after a reply the timer may be without it. -/
def pause (w : World) : Rat := if w.connected then 0 else 1 / 2

theorem pause_nonneg (w : World) : 0 ≤ w.pause := by
  unfold pause
  split <;> norm_num

/-- From the last reply to the limit of the next command. -/
theorem beat_limit (w : World) : w.pause + 1 / 10 + w.beat.limit ≤ 3 := by
  unfold pause beat
  split <;> norm_num [Kind.limit]

end World

/-- A command of the timer's kind is waited for, and its reply will count. -/
def Fed (w : World) (waiting : List Waiting) : Prop :=
  ∃ c ∈ waiting, c.kind = w.beat ∧ c.sent ≤ w.lastReply + w.pause + 1 / 10 ∧
    c.id ∈ w.pending.map Prod.fst

/-- There is none, but one of the next ticks sends it in time. -/
structure Rested (ticked : Rat) (w : World) : Prop where
  idle : ∀ m ∈ w.pending, m.2.kind ≠ w.beat
  asked : w.lastStatus ≤ w.lastReply
  ticked : ticked ≤ w.lastReply + w.pause

/-- The table and the clocks. -/
structure Tracked (ticked : Rat) (w : World) (waiting : List Waiting) : Prop where
  awake : w.closed = false
  keys : (w.pending.map Prod.fst).Nodup
  waits : ∀ m ∈ w.pending, { id := m.1, kind := m.2.kind, sent := m.2.sent } ∈ waiting
  ages : ∀ c ∈ waiting, c.sent ≤ w.now ∧ w.now ≤ c.sent + c.kind.limit
  replied : w.lastReply ≤ w.now
  asked : w.lastStatus ≤ w.now
  due : ticked ≤ w.now ∧ w.now ≤ ticked + 1 / 10

structure Alive (ticked : Rat) (w : World) (waiting : List Waiting) : Prop
    extends Tracked ticked w waiting where
  beats : w.link.isSome = true → Fed w waiting ∨ Rested ticked w

variable {ticked : Rat} {w w' : World} {waiting : List Waiting}

theorem awaited_append (left right : List Note) :
    awaited waiting (left ++ right) = awaited (awaited waiting left) right :=
  List.foldl_append

theorem awaited_answer (entry : Pending) (number link : Nat) (echo : Echo) :
    awaited waiting (World.answerNotes entry (.replied number link echo)) = waiting := by
  unfold World.answerNotes
  split <;> rfl

namespace Tracked

theorem table (h : Tracked ticked w waiting) (hpending : w'.pending = w.pending)
    (hclosed : w'.closed = w.closed) (hnow : w'.now = w.now)
    (hreply : w'.lastReply = w.lastReply) (hstatus : w'.lastStatus = w.lastStatus) :
    Tracked ticked w' waiting where
  awake := hclosed.trans h.awake
  keys := by rw [hpending]; exact h.keys
  waits := by rw [hpending]; exact h.waits
  ages := by rw [hnow]; exact h.ages
  replied := by rw [hreply, hnow]; exact h.replied
  asked := by rw [hstatus, hnow]; exact h.asked
  due := by rw [hnow]; exact h.due

/-- Once nothing is pending, nothing is waited for. -/
theorem empty (h : Tracked ticked w waiting) (hpending : w'.pending = [])
    (hclosed : w'.closed = w.closed) (hnow : w'.now = w.now)
    (hreply : w'.lastReply ≤ w.now) (hstatus : w'.lastStatus = w.lastStatus) :
    Tracked ticked w' [] where
  awake := hclosed.trans h.awake
  keys := by rw [hpending]; exact List.nodup_nil
  waits := by rw [hpending]; exact nofun
  ages := nofun
  replied := by rw [hnow]; exact hreply
  asked := by rw [hstatus, hnow]; exact h.asked
  due := by rw [hnow]; exact h.due

theorem queued (h : Tracked ticked w waiting) (link : Link) (request : Request)
    (callback : Option Callback) :
    Tracked ticked (w.queued link request callback)
      (waiting ++ [{ id := w.seq % lastId + 1, kind := request.kind, sent := w.now }]) where
  awake := h.awake
  keys := queued_keys h.keys link request callback
  waits := by
    intro m hm
    rcases (mem_queued_pending h.keys link request callback m).mp hm with rfl | ⟨hm, -⟩
    · exact List.mem_append_right _ (List.mem_singleton_self _)
    · exact List.mem_append_left _ (h.waits m hm)
  ages := by
    intro c hc
    rcases List.mem_append.mp hc with hc | hc
    · exact h.ages c hc
    · rw [List.mem_singleton.mp hc]
      have hlimit := request.kind.limit_nonneg
      show w.now ≤ w.now ∧ w.now ≤ w.now + request.kind.limit
      constructor
      · exact le_refl _
      · linarith
  replied := h.replied
  asked := h.asked
  due := h.due

/-- Right after a reply the link is alive, whatever is pending. -/
theorem beats (h : Tracked ticked w waiting) (hnow : w.lastReply = w.now) :
    Fed w waiting ∨ Rested ticked w := by
  have hpause := w.pause_nonneg
  by_cases hbeat : ∃ m ∈ w.pending, m.2.kind = w.beat
  · rcases hbeat with ⟨m, hm, hkind⟩
    left
    refine ⟨_, h.waits m hm, hkind, ?_, List.mem_map_of_mem hm⟩
    have hsent := (h.ages _ (h.waits m hm)).1
    rw [hnow]
    linarith
  · right
    refine ⟨?_, ?_, ?_⟩
    · intro m hm hkind
      exact hbeat ⟨m, hm, hkind⟩
    · rw [hnow]
      exact h.asked
    · have hdue := h.due.1
      rw [hnow]
      linarith

end Tracked

/-! ## Operations -/

/-- While the link takes it, a command is pending. -/
theorem send_pends (hkeys : (w.pending.map Prod.fst).Nodup) (request : Request)
    (callback : Option Callback) (hopen : (w.send request callback).link.isSome = true) :
    (∃ m ∈ (w.send request callback).pending, m.2.kind = request.kind) ∧
      (w.send request callback).connected = w.connected := by
  unfold World.send at hopen ⊢
  cases hlink : w.link with
  | none =>
      rw [hlink] at hopen
      cases callback with
      | none => exact absurd hopen (by simp [hlink])
      | some callback => exact absurd hopen (by simp [World.call, hlink])
  | some link =>
      rw [hlink] at hopen
      dsimp only at hopen ⊢
      split at hopen
      case isTrue hroom =>
          rw [if_pos hroom]
          have hnew := (mem_queued_pending hkeys link request callback _).mpr (.inl rfl)
          exact ⟨⟨_, hnew, rfl⟩, rfl⟩
      case isFalse => cases hopen

namespace Alive

theorem table (h : Alive ticked w waiting) (hlink : w'.link.isSome = w.link.isSome)
    (hpending : w'.pending = w.pending) (hconnected : w'.connected = w.connected)
    (hclosed : w'.closed = w.closed) (hnow : w'.now = w.now)
    (hreply : w'.lastReply = w.lastReply) (hstatus : w'.lastStatus = w.lastStatus) :
    Alive ticked w' waiting where
  toTracked := h.toTracked.table hpending hclosed hnow hreply hstatus
  beats := by
    have hbeat : w'.beat = w.beat := by unfold World.beat; rw [hconnected]
    have hpause : w'.pause = w.pause := by unfold World.pause; rw [hconnected]
    intro hopen
    rw [hlink] at hopen
    rcases h.beats hopen with hfed | hrested
    · left
      unfold Fed
      rw [hbeat, hpause, hreply, hpending]
      exact hfed
    · right
      refine ⟨?_, ?_, ?_⟩
      · rw [hpending, hbeat]
        exact hrested.idle
      · rw [hstatus, hreply]
        exact hrested.asked
      · rw [hreply, hpause]
        exact hrested.ticked

/-- Without a link there is nothing to keep. -/
theorem unlinked (h : Tracked ticked w waiting) (hlink : w.link = none) :
    Alive ticked w waiting := by
  refine ⟨h, ?_⟩
  intro hopen
  rw [hlink] at hopen
  cases hopen

theorem disconnect (h : Tracked ticked w waiting) : Alive ticked w.disconnect [] :=
  unlinked (h.empty rfl rfl rfl h.replied rfl) rfl

theorem queued (h : Alive ticked w waiting) {link : Link} (hlink : w.link = some link)
    (request : Request) (callback : Option Callback) :
    Alive ticked (w.queued link request callback)
      (waiting ++ [{ id := w.seq % lastId + 1, kind := request.kind, sent := w.now }]) where
  toTracked := h.toTracked.queued link request callback
  beats := by
    have hmem := mem_queued_pending h.keys link request callback
    have hnew := List.mem_map_of_mem (f := Prod.fst) ((hmem _).mpr (.inl rfl))
    intro _
    rcases h.beats (by rw [hlink]; rfl) with ⟨c, hc, hkind, hsent, hkey⟩ | hrested
    · left
      refine ⟨c, List.mem_append_left _ hc, hkind, hsent, ?_⟩
      by_cases hsame : c.id = w.seq % lastId + 1
      · rw [hsame]
        exact hnew
      · rcases List.mem_map.mp hkey with ⟨m, hm, hm1⟩
        rw [← hm1] at hsame ⊢
        exact List.mem_map_of_mem ((hmem m).mpr (.inr ⟨hm, hsame⟩))
    · by_cases hbeat : request.kind = w.beat
      · left
        refine ⟨_, List.mem_append_right _ (List.mem_singleton_self _), hbeat, ?_, hnew⟩
        have hdue := h.due.2
        have hticked := hrested.ticked
        show w.now ≤ w.lastReply + w.pause + 1 / 10
        linarith
      · right
        refine ⟨?_, hrested.asked, hrested.ticked⟩
        intro m hm
        rcases (hmem m).mp hm with rfl | ⟨hm, -⟩
        · exact hbeat
        · exact hrested.idle m hm

theorem send (h : Alive ticked w waiting) (request : Request) (callback : Option Callback) :
    Alive ticked (w.send request callback)
      (awaited waiting (w.sendNotes request callback)) := by
  unfold World.send World.sendNotes
  cases hlink : w.link with
  | none =>
      cases callback with
      | none => exact h
      | some callback => exact h.table rfl rfl rfl rfl rfl rfl rfl
  | some link =>
      dsimp only
      split
      · exact h.queued hlink request callback
      · exact (disconnect h.toTracked).table rfl rfl rfl rfl rfl rfl rfl

theorem release (h : Alive ticked w waiting) :
    Alive ticked w.releaseAll (awaited waiting w.releaseNotes) := by
  unfold World.releaseAll World.releaseNotes
  have hcentered : Alive ticked { w with pressed := [], axes := centered } waiting :=
    h.table rfl rfl rfl rfl rfl rfl rfl
  dsimp only
  split
  · exact hcentered.send .release none
  · exact hcentered

theorem relieved (h : Alive ticked w waiting) (echo : Echo) :
    Alive ticked (w.relieved echo) (awaited waiting (World.relievedNotes echo w)) := by
  unfold World.relieved World.relievedNotes
  split
  · exact h.release
  · exact h

/-- A reply counts when it is the one of a pending command. -/
theorem reply (h : Alive ticked w waiting) (link : Nat) (echo : Echo) :
    Alive ticked (w.handleReply echo)
      (awaited waiting (.handled link echo :: w.replyNotes link echo)) := by
  have hkept {c : Waiting} (hid : c.id ≠ echo.answer.id) :
      c ∈ waiting.eraseP (·.id = echo.answer.id) ↔ c ∈ waiting :=
    List.mem_eraseP_of_neg (by simpa using hid)
  have hages : ∀ c ∈ waiting.eraseP (·.id = echo.answer.id),
      c.sent ≤ w.now ∧ w.now ≤ c.sent + c.kind.limit :=
    fun c hc => h.ages c (List.mem_of_mem_eraseP hc)
  show Alive ticked (w.handleReply echo)
    (awaited (waiting.eraseP (·.id = echo.answer.id)) (w.replyNotes link echo))
  cases hfind : w.pending.find? (·.1 = echo.answer.id) with
  | none =>
      have hreply := World.handleReply_unknown hfind link
      have hother : ∀ m ∈ w.pending, m.1 ≠ echo.answer.id := by
        simpa using List.find?_eq_none.mp hfind
      rw [hreply.1, hreply.2]
      refine ⟨⟨h.awake, h.keys, ?_, hages, h.replied, h.asked, h.due⟩, ?_⟩
      · intro m hm
        exact (hkept (hother m hm)).mpr (h.waits m hm)
      · intro hopen
        rcases h.beats hopen with ⟨c, hc, hkind, hsent, hkey⟩ | hrested
        · left
          refine ⟨c, (hkept ?_).mpr hc, hkind, hsent, hkey⟩
          rcases List.mem_map.mp hkey with ⟨m, hm, hm1⟩
          rw [← hm1]
          exact hother m hm
        · exact .inr hrested
  | some found =>
      rcases found with ⟨k, entry⟩
      have hreply := World.handleReply_known hfind link
      have hmatched : Tracked ticked (w.matched echo)
          (waiting.eraseP (·.id = echo.answer.id)) := by
        refine ⟨h.awake, h.keys.sublist (List.filter_sublist.map Prod.fst), ?_, hages, le_refl _,
          h.asked, h.due⟩
        intro m hm
        rcases Ledger.mem_popPending.mp hm with ⟨hm, hkey⟩
        exact (hkept hkey).mpr (h.waits m hm)
      have hrelieved := Alive.relieved ⟨hmatched, fun _ => hmatched.beats rfl⟩ echo
      have hclocks := relieved_clocks echo (w.matched echo)
      have hpassed (sends : Nat) : Tracked ticked
          (((w.matched echo).relieved echo).passed entry echo sends)
          (awaited (waiting.eraseP (·.id = echo.answer.id))
            (World.relievedNotes echo (w.matched echo))) := by
        unfold World.passed
        dsimp only
        split
        · exact hrelieved.toTracked.table rfl rfl rfl rfl rfl
        · exact hrelieved.toTracked.table rfl rfl rfl rfl rfl
      have hcounted (sends : Nat) :
          (((w.matched echo).relieved echo).passed entry echo sends).lastReply =
            (((w.matched echo).relieved echo).passed entry echo sends).now := by
        have hsame : ((w.matched echo).relieved echo).lastReply =
            ((w.matched echo).relieved echo).now := by rw [hclocks.1, hclocks.2]; rfl
        unfold World.passed
        dsimp only
        split
        · exact hsame
        · exact hsame
      rw [hreply.1, hreply.2, awaited_append, awaited_answer]
      exact ⟨hpassed w.sends, fun _ => (hpassed w.sends).beats (hcounted w.sends)⟩

theorem event (h : Alive ticked w waiting) (item : Nat × Item) :
    Alive ticked (World.handleEvent item w) (awaited waiting (World.eventNotes item w)) := by
  rcases item with ⟨link, item⟩
  unfold World.handleEvent World.eventNotes
  split
  · cases item with
    | line echo => exact h.reply link echo
    | exception => exact disconnect h.toTracked
  · exact h

theorem drain (n : Nat) (h : Alive ticked w waiting) :
    Alive ticked (World.drain n w) (awaited waiting (World.drainNotes n w)) := by
  induction n generalizing w waiting with
  | zero => exact h
  | succ n ih =>
      unfold World.drain World.drainNotes
      cases hevents : w.events with
      | nil => exact h
      | cons item rest =>
          have htaken : Alive ticked { w with events := rest } waiting :=
            h.table rfl rfl rfl rfl rfl rfl rfl
          dsimp only
          rw [awaited_append]
          exact ih (htaken.event item)

end Alive

/-! ## The timer -/

/-- What is within its limit stays in the table. -/
theorem expiry_early (ms : List (Nat × Pending)) (w : World)
    (h : ∀ m ∈ ms, w.now - m.2.sent ≤ m.2.kind.limit) :
    ms.foldl (fun w m => World.timeout m w) w = w ∧ World.expiryNotes ms w = [] := by
  induction ms with
  | nil => exact ⟨rfl, rfl⟩
  | cons m ms ih =>
      have hearly := h m List.mem_cons_self
      have hkept : World.timeout m w = w := if_pos hearly
      have hnone : World.timeoutNotes m w = [] := if_pos hearly
      have hrest := ih fun m' hm' => h m' (List.mem_cons_of_mem _ hm')
      unfold World.expiryNotes
      rw [List.foldl_cons, hkept, hnone, hrest.2]
      exact ⟨hrest.1, rfl⟩

namespace Alive

theorem expire (h : Alive ticked w waiting) :
    w.expire = w ∧ World.expiryNotes w.pending w = [] := by
  apply expiry_early
  intro m hm
  have hage := (h.ages _ (h.waits m hm)).2
  show w.now - m.2.sent ≤ m.2.kind.limit
  linarith

/-- The last reply that counted is not long ago. -/
theorem heard (h : Alive ticked w waiting) (hopen : w.link.isSome = true) :
    w.now - w.lastReply ≤ 3 := by
  have hbeat := w.beat_limit
  have hpause := w.pause_nonneg
  have hlimit := w.beat.limit_nonneg
  rcases h.beats hopen with ⟨c, hc, hkind, hsent, -⟩ | hrested
  · have hage := (h.ages c hc).2
    rw [hkind] at hage
    linarith
  · have hticked := hrested.ticked
    have hdue := h.due.2
    linarith

theorem giveUp (h : Alive ticked w waiting) : w.giveUp = w ∧ w.isSilent = false := by
  have hheard : ¬ (w.link.isSome = true ∧ w.now - w.lastReply > 3) := by
    rintro ⟨hopen, hlong⟩
    exact absurd hlong (not_lt.mpr (h.heard hopen))
  refine ⟨if_neg hheard, ?_⟩
  unfold World.isSilent
  rw [Bool.and_eq_false_iff, decide_eq_false_iff_not]
  by_cases hopen : w.link.isSome = true
  · exact .inr fun hlong => hheard ⟨hopen, hlong⟩
  · exact .inl (Bool.eq_false_of_not_eq_true hopen)

/-- What is pending of the timer's kind is waited for. -/
theorem fed (h : Alive ticked w waiting) (hopen : w.link.isSome = true)
    (hbeat : ∃ m ∈ w.pending, m.2.kind = w.beat) : Fed w waiting := by
  rcases h.beats hopen with hfed | hrested
  · exact hfed
  · rcases hbeat with ⟨m, hm, hkind⟩
    exact absurd hkind (hrested.idle m hm)

theorem renewed (h : Tracked ticked w waiting) : Tracked w.now w waiting :=
  { h with due := ⟨le_refl _, by linarith⟩ }

/-- The timer asks for the status of the device. -/
theorem ask (h : Alive ticked w waiting) (hconnected : w.connected = false) :
    Alive w.now { w.send .status none with lastStatus := w.now }
      (awaited waiting (w.sendNotes .status none)) := by
  have hsent := h.send .status none
  have hnow := (send_clocks .status none w).1
  have hrenewed := renewed hsent.toTracked
  rw [hnow] at hrenewed
  refine ⟨{ hrenewed with asked := hnow.ge }, ?_⟩
  intro hopen
  rcases send_pends h.keys .status none hopen with ⟨hpends, hsame⟩
  left
  apply hsent.fed hopen
  unfold World.beat
  rw [hsame, hconnected]
  exact hpends

theorem heartbeat (h : Alive ticked w waiting) :
    Alive w.now w.heartbeat (awaited waiting w.heartbeatNotes) := by
  have hkept : (∃ m ∈ w.pending, m.2.kind = w.beat) → Alive w.now w waiting :=
    fun hbeat => ⟨renewed h.toTracked, fun hopen => .inl (h.fed hopen hbeat)⟩
  unfold World.heartbeat World.heartbeatNotes
  split
  case isTrue hopen =>
      split
      case isTrue hidle =>
          have hsent := h.send (.state (stateFor w.pressed w.axes)) none
          have hrenewed := renewed hsent.toTracked
          rw [(send_clocks _ none w).1] at hrenewed
          refine ⟨hrenewed, ?_⟩
          intro hopen'
          rcases send_pends h.keys _ none hopen' with ⟨hpends, hsame⟩
          left
          apply hsent.fed hopen'
          unfold World.beat
          rw [hsame, hidle.1]
          exact hpends
      case isFalse hbusy =>
          split
          case isTrue hdue => exact h.ask hdue.1
          case isFalse hearly =>
              show Alive w.now w waiting
              cases hconnected : w.connected with
              | true =>
                  apply hkept
                  have hstate := mt (And.intro hconnected) hbusy
                  simpa [World.beat, hconnected] using hstate
              | false =>
                  by_cases hidle : w.pending.all (·.2.kind ≠ .status) = true
                  · refine ⟨renewed h.toTracked, ?_⟩
                    intro hopen
                    rcases h.beats hopen with hfed | hrested
                    · exact .inl hfed
                    · -- the timer asked less than half a second ago
                      have hasked : w.now - w.lastStatus < 1 / 2 :=
                        not_le.mp fun hlong => hearly ⟨hconnected, hlong, hidle⟩
                      have hlast := hrested.asked
                      refine .inr ⟨hrested.idle, hlast, ?_⟩
                      unfold World.pause
                      rw [hconnected, if_neg Bool.false_ne_true]
                      linarith
                  · apply hkept
                    simpa [World.beat, hconnected] using hidle
  case isFalse hclosed =>
      exact ⟨renewed h.toTracked, fun hopen => absurd hopen hclosed⟩

theorem tick_eq (h : Alive ticked w waiting) :
    w.tick = (World.drain 150 w).heartbeat ∧
      w.tickNotes = World.drainNotes 150 w ++ (World.drain 150 w).heartbeatNotes := by
  have hdrained := h.drain 150
  rcases hdrained.expire with ⟨hexpire, hnotes⟩
  rcases hdrained.giveUp with ⟨hkept, hheard⟩
  constructor
  · rw [World.tick_eq h.awake, hexpire, hkept]
  · unfold World.tickNotes
    rw [h.awake]
    simp only [Bool.false_eq_true, if_false, hexpire, hkept, hnotes, hheard, List.append_nil]

theorem tick (h : Alive ticked w waiting) :
    Alive w.now w.tick (awaited waiting w.tickNotes) := by
  have hbeat := (h.drain 150).heartbeat
  rw [drain_now] at hbeat
  rw [h.tick_eq.1, h.tick_eq.2, awaited_append]
  exact hbeat

/-- A new link is alive: the time of its opening counts as a reply. -/
theorem connect (h : Alive ticked w waiting) (opens : Bool) :
    Alive ticked (w.connect opens) (awaited waiting (w.connectNotes opens)) := by
  unfold World.connect World.connectNotes
  cases opens with
  | true =>
      have hopened : Tracked ticked { w.disconnect with
          link := some { id := w.links, alive := true, outgoing := [] }
          links := w.links + 1, lastReply := w.now } [] :=
        h.toTracked.empty rfl rfl rfl (le_refl _) rfl
      have halive : Alive ticked _ [] := ⟨hopened, fun _ => hopened.beats rfl⟩
      exact halive.send .status none
  | false => exact disconnect (disconnect h.toTracked).toTracked

theorem isSome_of_id {link link' : Option Link} (h : link'.map Link.id = link.map Link.id) :
    link'.isSome = link.isSome := by
  have hsome := congrArg Option.isSome h
  rwa [Option.isSome_map, Option.isSome_map] at hsome

/-- Every act of the window keeps the link alive while replies are within their limits. -/
theorem next {s : Watch} (h : Alive s.ticked s.world s.waiting) {e : Act}
    (hprompt : Prompt Kind.limit s e) :
    Alive (s.next e).ticked (s.next e).world (s.next e).waiting := by
  cases e with
  | connect opens => exact h.connect opens
  | disconnect => exact disconnect h.toTracked
  | send request callback => exact h.send request callback
  | releaseAll => exact h.release
  | tick => exact h.tick
  | elapse seconds =>
      rcases hprompt with ⟨hforward, hdue, hages⟩
      have hticked := h.due.1
      have hreplied := h.replied
      have hasked := h.asked
      refine ⟨⟨h.awake, h.keys, h.waits, ?_, ?_, ?_, ?_, hdue⟩, ?_⟩
      · intro c hc
        have hsent := (h.ages c hc).1
        refine ⟨?_, hages c hc⟩
        show c.sent ≤ s.world.now + seconds
        linarith
      · show s.world.lastReply ≤ s.world.now + seconds
        linarith
      · show s.world.lastStatus ≤ s.world.now + seconds
        linarith
      · show s.ticked ≤ s.world.now + seconds
        linarith
      · intro hopen
        rcases h.beats hopen with hfed | hrested
        · exact .inl hfed
        · exact .inr ⟨hrested.idle, hrested.asked, hrested.ticked⟩
  | write =>
      show Alive s.ticked s.world.write s.waiting
      rcases World.write_eq s.world with ⟨link, wire, hwrite, hid⟩
      rw [hwrite]
      exact h.table (isSome_of_id hid) rfl rfl rfl rfl rfl rfl
  | breakLink =>
      show Alive s.ticked s.world.breakLink s.waiting
      rcases World.breakLink_eq s.world with ⟨link, events, wire, hbreak, hid⟩
      rw [hbreak]
      exact h.table (isSome_of_id hid) rfl rfl rfl rfl rfl rfl
  | arrive link item => exact h.table rfl rfl rfl rfl rfl rfl rfl

end Alive

theorem boot_alive : Alive 0 World.boot [] where
  awake := rfl
  keys := List.nodup_nil
  waits := nofun
  ages := nofun
  replied := le_refl _
  asked := le_refl _
  due := ⟨le_refl _, by show (0 : Rat) ≤ 0 + 1 / 10; norm_num⟩
  beats := nofun

/-! ## Silence -/

theorem sendNotes_heard (request : Request) (callback : Option Callback) (w : World) :
    .silent ∉ w.sendNotes request callback := by
  unfold World.sendNotes
  intro hmem
  split at hmem
  · split at hmem
    · exact nomatch List.mem_singleton.mp hmem
    · cases hmem
  · split at hmem
    · exact nomatch List.mem_singleton.mp hmem
    · exact nomatch List.mem_singleton.mp hmem

/-- Only the timer gives a link up, and not while it is alive. -/
theorem Alive.notes_heard (h : Alive ticked w waiting) (e : Act) : .silent ∉ e.notes w := by
  intro hmem
  cases e with
  | connect opens =>
      unfold Act.notes World.connectNotes at hmem
      cases opens with
      | true =>
          rcases List.mem_cons.mp hmem with hmem | hmem
          · cases hmem
          · exact sendNotes_heard _ _ _ hmem
      | false => simp at hmem
  | disconnect => exact nomatch List.mem_singleton.mp hmem
  | send request callback => exact sendNotes_heard request callback w hmem
  | releaseAll =>
      unfold Act.notes World.releaseNotes at hmem
      dsimp only at hmem
      split at hmem
      · exact sendNotes_heard _ _ _ hmem
      · cases hmem
  | tick =>
      unfold Act.notes at hmem
      dsimp only at hmem
      rw [h.tick_eq.2] at hmem
      rcases List.mem_append.mp hmem with hmem | hmem
      · exact nomatch drainNotes_routine _ _ _ hmem
      · exact nomatch heartbeatNotes_routine _ _ hmem
  | _ => cases hmem

/-- In every run whose replies are all handled within the limits of their commands, the
window never finds the link silent. -/
theorem never_silent {es : List Act} {s : Watch} {log : List Note}
    (hrun : watched.run es watched.init = some (s, log))
    (hprompt : watched.Along (Prompt Kind.limit) es watched.init) : .silent ∉ log := by
  have hstep : ∀ e (s s' : Watch) (notes past : List Note), Prompt Kind.limit s e →
      (Alive s.ticked s.world s.waiting ∧ .silent ∉ past) →
      watched.step e s = some (s', notes) →
      Alive s'.ticked s'.world s'.waiting ∧ .silent ∉ past ++ notes := by
    rintro e s s' notes past hprompt ⟨halive, hpast⟩ hs
    cases hs
    refine ⟨halive.next hprompt, ?_⟩
    intro hmem
    rcases List.mem_append.mp hmem with hmem | hmem
    · exact hpast hmem
    · exact halive.notes_heard e hmem
  have hkept : Alive s.ticked s.world s.waiting ∧ .silent ∉ [] ++ log :=
    Transition.System.run_history_along
      (fun s log => Alive s.ticked s.world s.waiting ∧ .silent ∉ log) (Prompt Kind.limit) hstep
      hprompt ⟨boot_alive, List.not_mem_nil⟩ hrun
  exact hkept.2

/-- The reply of a connected device to the command with this id. -/
def echoOf (id : Nat) : Echo where
  answer := { opening.answer with id, connected := true }
  number := id
  changes := 0
  newest := 0
  tag := none

/-- Two replies, each at the next tick. -/
def timely : List Act :=
  [.connect true, .write, .elapse (1 / 10), .arrive 0 (.line (echoOf 1)), .tick,
    .write, .elapse (1 / 10), .arrive 0 (.line (echoOf 2)), .tick]

theorem timely_promptly : promptly Kind.limit timely watched.init = true := by decide +kernel

theorem timely_never_silent : ∃ s log, watched.run timely watched.init = some (s, log) ∧
    .silent ∉ log :=
  ⟨_, _, rfl, never_silent rfl (along_promptly timely_promptly)⟩

/-! ## Replies half a second late -/

def Note.asked : Note → Option Nat
  | .sent _ _ id _ _ _ => some id
  | _ => none

def Note.answered : Note → Option Nat
  | .handled _ echo => some echo.answer.id
  | _ => none

def Note.isSilent : Note → Bool
  | .silent => true
  | _ => false

/-- Which reply arrives before a tick: the first command is sent at once, the others every
three ticks from the fifth on, and each is answered five ticks later. -/
def lateReply (tick : Nat) : Option Nat :=
  if tick = 5 then some 1
  else if 10 ≤ tick ∧ tick % 3 = 1 then some ((tick - 10) / 3 + 2)
  else none

def slowTick (tick : Nat) : List Act :=
  .elapse (1 / 10) :: .write :: ((lateReply tick).map fun id =>
    Act.arrive 0 (.line (echoOf id))).toList ++ [.tick]

def slow : List Act := .connect true :: (List.range' 1 36).flatMap slowTick

/-- Is every reply the one of the oldest command that has none, and is the link given up? -/
def givenUp (r : Watch × List Note) : Bool :=
  (r.2.filterMap Note.answered).isPrefixOf (r.2.filterMap Note.asked) &&
    r.2.any Note.isSilent

/-- Every command is answered, in order and half a second after it was sent, and yet the
link is given up as silent. -/
theorem slow_silent : watched.Along (Prompt fun _ => 3) slow watched.init ∧
    ∃ s log, watched.run slow watched.init = some (s, log) ∧
      log.filterMap Note.answered <+: log.filterMap Note.asked ∧ .silent ∈ log := by
  refine ⟨along_promptly (by decide +kernel), ?_⟩
  have hrun : (watched.run slow watched.init).any givenUp = true := by decide +kernel
  rcases (Option.any_eq_true givenUp _).mp hrun with ⟨⟨s, log⟩, hrun, hgiven⟩
  unfold givenUp at hgiven
  rw [Bool.and_eq_true, List.isPrefixOf_iff_prefix, List.any_eq_true] at hgiven
  rcases hgiven with ⟨horder, note, hmem, hsilent⟩
  refine ⟨s, log, hrun, horder, ?_⟩
  cases note with
  | silent => exact hmem
  | _ => cases hsilent

end SwitchController.Host.App
