import SwitchController.Host.Ledger

/-! # One outcome for each command

A reply is matched with the command that carries its id on the same link, and what is
still pending after a tick is within its limit. The ids are the one weak point: after a
whole period of them a later command takes the place of an older one.
-/

namespace SwitchController.Host.App

variable {w w' : World} {log : List Note}

/-! ## After a tick -/

/-- No command moves the clock or counts as a reply. -/
theorem send_clocks (request : Request) (callback : Option Callback) (w : World) :
    (w.send request callback).now = w.now ∧
      (w.send request callback).lastReply = w.lastReply := by
  unfold World.send
  split
  · split
    · exact ⟨rfl, rfl⟩
    · exact ⟨rfl, rfl⟩
  · dsimp only
    split
    · exact ⟨rfl, rfl⟩
    · exact ⟨rfl, rfl⟩

theorem relieved_clocks (echo : Echo) (w : World) :
    (w.relieved echo).now = w.now ∧ (w.relieved echo).lastReply = w.lastReply := by
  unfold World.relieved
  split
  · unfold World.releaseAll
    dsimp only
    split
    · exact send_clocks .release none _
    · exact ⟨rfl, rfl⟩
  · exact ⟨rfl, rfl⟩

theorem reply_now (echo : Echo) (w : World) : (w.handleReply echo).now = w.now := by
  have hrelieved : ((w.matched echo).relieved echo).now = w.now :=
    (relieved_clocks echo (w.matched echo)).1
  cases hfind : w.pending.find? (·.1 = echo.answer.id) with
  | none => rw [(World.handleReply_unknown hfind 0).1]
  | some found =>
      rw [(World.handleReply_known hfind 0).1, ← hrelieved]
      unfold World.passed
      dsimp only
      split <;> rfl

theorem event_now (item : Nat × Item) (w : World) : (World.handleEvent item w).now = w.now := by
  unfold World.handleEvent
  split
  · split
    · exact reply_now _ w
    · rfl
  · rfl

theorem drain_now (n : Nat) (w : World) : (World.drain n w).now = w.now := by
  induction n generalizing w with
  | zero => rfl
  | succ n ih =>
      unfold World.drain
      split
      · rfl
      · rw [ih, event_now]

theorem timeout_now (m : Nat × Pending) (w : World) : (World.timeout m w).now = w.now := by
  unfold World.timeout
  split
  · rfl
  · dsimp only
    split
    · split
      · rw [(send_clocks .status none _).1]
        rfl
      · rfl
    · split <;> rfl

theorem expiry_now (ms : List (Nat × Pending)) (w : World) :
    (ms.foldl (fun w m => World.timeout m w) w).now = w.now := by
  induction ms generalizing w with
  | nil => rfl
  | cons m ms ih => exact (ih _).trans (timeout_now m w)

namespace Ledger

/-- The loop leaves nothing over its limit but what came in meanwhile. -/
theorem expiry_pending (ms : List (Nat × Pending)) (h : Ledger none w log)
    (hdue : ∀ m ∈ ms, Due w log m) (hnodup : (ms.map (·.2.number)).Nodup) :
    ∀ m' ∈ (ms.foldl (fun w m => World.timeout m w) w).pending, m'.2.sent = w.now ∨
      m' ∈ w.pending ∧ ∀ m ∈ ms, m'.1 = m.1 → w.now - m.2.sent ≤ m.2.kind.limit := by
  induction ms generalizing w log with
  | nil => exact fun m' hm' => .inr ⟨hm', nofun⟩
  | cons m ms ih =>
      rw [List.map_cons, List.nodup_cons] at hnodup
      have hlater := ih (h.timeout (hdue m List.mem_cons_self)) (by
        intro m' hm'
        apply (hdue m' (List.mem_cons_of_mem _ hm')).timeout h.numbered.keys
        intro hsame
        exact hnodup.1 (List.mem_map.mpr ⟨m', hm', hsame.symm⟩)) hnodup.2
      rw [timeout_now] at hlater
      intro m' hm'
      rcases hlater m' hm' with hnew | ⟨hleft, hothers⟩
      · exact .inl hnew
      · rcases (timeout_pending h.numbered.keys m).2 m' hleft with ⟨hold, hthis⟩ | ⟨-, hnew⟩
        · refine .inr ⟨hold, ?_⟩
          intro m₁ hm₁
          rcases List.mem_cons.mp hm₁ with rfl | hm₁
          · exact hthis
          · exact hothers m₁ hm₁
        · exact .inl hnew

theorem tick_pending (h : Ledger none w log) :
    ∀ m ∈ w.tick.pending, m.2.sent = w.now ∨ w.now - m.2.sent ≤ m.2.kind.limit := by
  have hdrained := h.drain 150
  have hexpired : ∀ m ∈ (World.drain 150 w).expire.pending,
      m.2.sent = w.now ∨ w.now - m.2.sent ≤ m.2.kind.limit := by
    intro m hm
    have hleft := hdrained.expiry_pending _ (fun _ hm => hdrained.due hm)
      (numbers_nodup hdrained.numbered) m hm
    rw [drain_now] at hleft
    rcases hleft with hnew | ⟨hold, hlimits⟩
    · exact .inl hnew
    · exact .inr (hlimits m hold rfl)
  have hkept : ∀ m ∈ (World.drain 150 w).expire.giveUp.pending,
      m.2.sent = w.now ∨ w.now - m.2.sent ≤ m.2.kind.limit := by
    intro m hm
    unfold World.giveUp at hm
    split at hm
    · cases hm
    · exact hexpired m hm
  have hnow : (World.drain 150 w).expire.giveUp.now = w.now := by
    have hexpire : (World.drain 150 w).expire.now = w.now := (expiry_now _ _).trans (drain_now _ _)
    rw [← hexpire]
    unfold World.giveUp
    split <;> rfl
  have hkeys := hdrained.expire.giveUp.numbered.keys
  rw [World.tick_eq h.awake]
  intro m hm
  unfold World.heartbeat at hm
  split at hm
  · split at hm
    · rcases send_pending _ none _ hkeys hm with hm | ⟨-, hsent, -⟩
      · exact hkept m hm
      · exact .inl (hsent.trans hnow)
    · split at hm
      · rcases send_pending .status none _ hkeys hm with hm | ⟨-, hsent, -⟩
        · exact hkept m hm
        · exact .inl (hsent.trans hnow)
      · exact hkept m hm
  · exact hkept m hm

end Ledger

/-! ## What a tick sends -/

/-- A note of an NFC command being sent. -/
def Note.isTag : Note → Bool
  | .sent _ _ _ (.tag _) _ _ => true
  | _ => false

/-- Neither the sending of an NFC command nor the end of the timer's patience. -/
def Note.isRoutine : Note → Bool
  | .silent => false
  | note => !note.isTag

theorem not_tag_of_routine {note : Note} (h : note.isRoutine = true) : note.isTag = false := by
  cases note with
  | sent number link id request answerable time =>
      cases request with
      | tag command => cases h
      | _ => rfl
  | _ => rfl

theorem sendNotes_routine (request : Request) (h : ∀ command, request ≠ .tag command)
    (callback : Option Callback) (w : World) :
    ∀ note ∈ w.sendNotes request callback, note.isRoutine = true := by
  unfold World.sendNotes
  intro note hnote
  split at hnote
  · split at hnote
    · rw [List.mem_singleton.mp hnote]
      rfl
    · cases hnote
  · split at hnote
    · rw [List.mem_singleton.mp hnote]
      cases request with
      | tag command => exact absurd rfl (h command)
      | _ => rfl
    · rw [List.mem_singleton.mp hnote]
      rfl

theorem replyNotes_routine (link : Nat) (echo : Echo) (w : World) :
    ∀ note ∈ w.replyNotes link echo, note.isRoutine = true := by
  unfold World.replyNotes
  intro note hnote
  split at hnote
  · cases hnote
  · rcases List.mem_append.mp hnote with hnote | hnote
    · unfold World.relievedNotes World.releaseNotes at hnote
      split at hnote
      · split at hnote
        · exact sendNotes_routine .release nofun none _ note hnote
        · cases hnote
      · cases hnote
    · unfold World.answerNotes at hnote
      split at hnote
      · rw [List.mem_singleton.mp hnote]
        rfl
      · cases hnote

theorem drainNotes_routine (n : Nat) (w : World) :
    ∀ note ∈ World.drainNotes n w, note.isRoutine = true := by
  induction n generalizing w with
  | zero => nofun
  | succ n ih =>
      unfold World.drainNotes
      intro note hnote
      split at hnote
      · cases hnote
      · rcases List.mem_append.mp hnote with hnote | hnote
        · unfold World.eventNotes at hnote
          split at hnote
          · split at hnote
            · rcases List.mem_cons.mp hnote with rfl | hnote
              · rfl
              · exact replyNotes_routine _ _ _ note hnote
            · rw [List.mem_singleton.mp hnote]
              rfl
          · cases hnote
        · exact ih _ note hnote

theorem expiryNotes_routine (ms : List (Nat × Pending)) (w : World) :
    ∀ note ∈ World.expiryNotes ms w, note.isRoutine = true := by
  induction ms generalizing w with
  | nil =>
      intro note hnote
      cases hnote
  | cons m ms ih =>
      unfold World.expiryNotes
      intro note hnote
      rcases List.mem_append.mp hnote with hnote | hnote
      · unfold World.timeoutNotes at hnote
        split at hnote
        · cases hnote
        · split at hnote
          · rcases List.mem_cons.mp hnote with rfl | hnote
            · rfl
            · split at hnote
              · apply sendNotes_routine .status _ none _ note hnote
                intro command hsame
                cases hsame
              · cases hnote
          · cases hnote
      · exact ih _ note hnote

theorem heartbeatNotes_routine (w : World) : ∀ note ∈ w.heartbeatNotes, note.isRoutine = true := by
  unfold World.heartbeatNotes
  intro note hnote
  split at hnote
  · split at hnote
    · exact sendNotes_routine (.state _) nofun none _ note hnote
    · split at hnote
      · exact sendNotes_routine .status nofun none _ note hnote
      · cases hnote
  · cases hnote

/-- The timer sends no NFC command, so it repeats none. -/
theorem tickNotes_careful (w : World) : ∀ note ∈ w.tickNotes, note.isTag = false := by
  unfold World.tickNotes
  intro note hnote
  split at hnote
  · cases hnote
  · rcases List.mem_append.mp hnote with hnote | hnote
    · rcases List.mem_append.mp hnote with hnote | hnote
      · rcases List.mem_append.mp hnote with hnote | hnote
        · exact not_tag_of_routine (drainNotes_routine _ _ note hnote)
        · exact not_tag_of_routine (expiryNotes_routine _ _ note hnote)
      · split at hnote
        · rcases List.mem_cons.mp hnote with rfl | hnote
          · rfl
          · rw [List.mem_singleton.mp hnote]
            rfl
        · cases hnote
    · exact not_tag_of_routine (heartbeatNotes_routine _ note hnote)

/-! ## The contract -/

/-- Each closure is called at most once; with a reply only if it came over the link of its
command, with its id and before any other outcome; after a tick past its limit exactly once,
while the link lasts and its id is not given out again; without a link at once and, since
nothing is left pending, never again; and a tick sends no NFC command. -/
structure Matched (w : World) (log : List Note) : Prop where
  once : ∀ n, (outcomes n log).length ≤ 1
  own : ∀ past n link echo, past ++ [.replied n link echo] <+: log → Own past n link echo
  settled : ∀ n link id request time, Sent (log ++ w.tickNotes) n link id request true time →
    request.kind.limit < w.now - time → w.tick.sends < n + lastId →
      (outcomes n (log ++ w.tickNotes)).length = 1
  unlinked : w.link = none → ∀ request callback,
    w.send request (some callback) = w.call callback World.unlinkedReply ∧
      w.sendNotes request (some callback) = [.unlinked] ∧
      (w.send request (some callback)).pending = []
  careful : ∀ note ∈ w.tickNotes, note.isTag = false

theorem Kind.limit_nonneg (kind : Kind) : 0 ≤ kind.limit := by
  cases kind <;> decide +kernel

theorem Ledger.matched (h : Ledger none w log) : Matched w log where
  once := h.once
  own := h.own
  settled := by
    intro n link id request time hsent hlate hperiod
    have hticked := h.tick
    have hle := hticked.once n
    rcases hticked.unsettled n link id request time hsent with hout | hlong | hheld | hopen
    · have hpos := List.length_pos_iff.mpr hout
      omega
    · omega
    · cases hheld
    · -- what is pending after the tick is within its limit
      rcases hopen with ⟨m, hm, -, -, rfl, hkind⟩
      have hnonneg := m.2.kind.limit_nonneg
      rw [← hkind] at hlate
      rcases h.tick_pending m hm with hnew | hfresh
      · rw [hnew, Rat.sub_self] at hlate
        exact absurd hlate (Rat.not_lt.mpr hnonneg)
      · exact absurd hlate (Rat.not_lt.mpr hfresh)
  unlinked := by
    intro hlink request callback
    have hsend : w.send request (some callback) = w.call callback World.unlinkedReply := by
      unfold World.send
      rw [hlink]
    have hnotes : w.sendNotes request (some callback) = [.unlinked] := by
      unfold World.sendNotes
      rw [hlink]
      rfl
    refine ⟨hsend, hnotes, ?_⟩
    rw [hsend]
    exact h.idle hlink
  careful := tickNotes_careful w

/-- The reply to the command that opens a connection. -/
def opening : Echo where
  answer :=
    { id := 1, ok := true, message := "PC controller v1", connected := false, loaded := false
      crc := 0
      diagnostics :=
        { power := 0, poll := 0, pending := 0, received := 0, rejected := 0, lastCmd := 0
          lastSub := 0, present := false } }
  number := 1
  changes := 0
  newest := 0
  tag := none

def Note.isEnd : Note → Bool
  | .disconnected => true
  | _ => false

/-- The NFC command has no outcome, and nothing else that is pending has a closure. -/
structure Quiet (lines : Nat) (w : World) (log : List Note) : Prop where
  awake : w.closed = false
  link : ∃ outgoing, w.link = some { id := 0, alive := true, outgoing } ∧ outgoing.length ≤ lines
  events : w.events = []
  now : w.now = 2
  lastReply : w.lastReply = 2
  connected : w.connected = false
  others : ∀ m ∈ w.pending, m.2.number = 2 ∨ m.2.callback = none
  sent : Sent log 2 0 2 (.tag .unload) true 0
  outcome : outcomes 2 log = []

theorem Sent.append {n link id : Nat} {request : Request} {answerable : Bool} {time : Rat}
    (h : Sent log n link id request answerable time) {notes : List Note}
    (hnotes : .disconnected ∉ notes) :
    Sent (log ++ notes) n link id request answerable time := by
  rcases h with ⟨before, since, rfl, hsince⟩
  refine ⟨before, since ++ notes, by simp, ?_⟩
  intro hmem
  rcases List.mem_append.mp hmem with hmem | hmem
  · exact hsince hmem
  · exact hnotes hmem

namespace Quiet

theorem write {lines : Nat} (h : Quiet (lines + 1) w log) :
    Quiet lines w.write log ∧ w.write.sends = w.sends := by
  rcases h.link with ⟨outgoing, hlink, hle⟩
  unfold World.write
  rw [hlink]
  cases outgoing with
  | nil =>
      have hshort : Quiet lines w log :=
        { h with link := ⟨[], hlink, Nat.zero_le _⟩ }
      exact ⟨hshort, rfl⟩
  | cons line rest =>
      refine ⟨?_, rfl⟩
      exact { h with link := ⟨rest, rfl, Nat.le_of_succ_le_succ hle⟩ }

/-- A send without a closure while the queue of the link has room. -/
theorem send {lines : Nat} (h : Quiet lines w log) (hroom : lines < outgoingSize)
    (hkeys : (w.pending.map Prod.fst).Nodup) (request : Request) :
    Quiet (lines + 1) (w.send request none) (log ++ w.sendNotes request none) ∧
      (w.send request none).sends = w.sends + 1 := by
  rcases h.link with ⟨outgoing, hlink, hle⟩
  have hshort : outgoing.length < outgoingSize := Nat.lt_of_le_of_lt hle hroom
  have hsend : w.send request none =
      w.queued { id := 0, alive := true, outgoing } request none := by
    unfold World.send
    rw [hlink]
    exact if_pos hshort
  have hnotes : w.sendNotes request none =
      [.sent (w.sends + 1) 0 (w.seq % lastId + 1) request false w.now] := by
    unfold World.sendNotes
    rw [hlink]
    exact if_pos hshort
  rw [hsend, hnotes]
  refine ⟨⟨h.awake, ⟨_, rfl, ?_⟩, h.events, h.now, h.lastReply, h.connected, ?_, ?_, ?_⟩, rfl⟩
  · rw [List.length_append]
    exact Nat.succ_le_succ hle
  · intro m hm
    rcases (mem_queued_pending hkeys _ request none m).mp hm with rfl | ⟨hm, -⟩
    · exact .inr rfl
    · exact h.others m hm
  · apply h.sent.append
    simp
  · rw [outcomes_other rfl]
    exact h.outcome

end Quiet

/-- What is left to be tested after the two sends. -/
def heard (r : World × List Note) : Bool :=
  r.1.closed = false && (r.1.link.any fun link =>
      link.id = 0 && link.alive && link.outgoing.length ≤ 3) && r.1.events.isEmpty &&
    r.1.now = 2 && r.1.lastReply = 2 && r.1.connected = false && r.1.sends = 3 &&
    (r.1.pending.all fun m => m.2.number = 2 || m.2.callback.isNone) &&
    (r.2.all fun note => !note.isEnd && !note.settles 2)

end SwitchController.Host.App
