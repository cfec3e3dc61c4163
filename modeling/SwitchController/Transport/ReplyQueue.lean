import Mathlib.Data.List.Induction
import SwitchController.Transport.Btstack

/-! # The reply queue of a connection

Within a connection the replies that were accepted are those that were sent,
followed by those still queued, byte for byte and in order. Connection events
empty the queue, so nothing crosses from one connection to the next.
-/

namespace SwitchController.Transport

open Memory Device

/-- The replies waiting, oldest first. -/
def Firmware.queue (f : Firmware) : List Bytes := (f.ring.contents replyQueueSize).map Reply.bytes

/-! ## The log of a connection -/

def Action.isEdge : Action → Bool
  | .opened | .closed => true
  | _ => false

/-- What happened since the last connection event. -/
def session (actions : List Action) : List Action :=
  actions.foldl (fun past a => if a.isEdge then [] else past ++ [a]) []

def accepted (actions : List Action) : List Bytes :=
  actions.filterMap fun
    | .accepted data => some data
    | _ => none

/-- The replies sent, without the first byte of their messages. -/
def delivered (actions : List Action) : List Bytes :=
  actions.filterMap fun
    | .sent true msg => some msg.tail
    | _ => none

theorem accepted_append (left right : List Action) :
    accepted (left ++ right) = accepted left ++ accepted right := List.filterMap_append

theorem delivered_append (left right : List Action) :
    delivered (left ++ right) = delivered left ++ delivered right := List.filterMap_append

theorem session_append (past actions : List Action) (h : ∀ a ∈ actions, a.isEdge = false) :
    session (past ++ actions) = session past ++ actions := by
  induction actions using List.reverseRecOn with
  | nil => simp
  | append_singleton actions a ih =>
      have hrest := ih fun b hb => h b (by simp [hb])
      have ha := h a (by simp)
      unfold session at hrest ⊢
      rw [← List.append_assoc, List.foldl_append, hrest]
      simp [ha]

/-- A connection event starts a new session. -/
theorem session_edge (past : List Action) {edge : Action} (he : edge.isEdge = true)
    (actions : List Action) (h : ∀ a ∈ actions, a.isEdge = false) :
    session (past ++ edge :: actions) = actions := by
  have hcut : session (past ++ [edge]) = [] := by
    unfold session
    simp [he]
  have happ := session_append (past ++ [edge]) actions h
  rw [hcut] at happ
  simpa using happ

/-! ## Queue operations -/

/-- Everything a call to the queue can be refused for. -/
def Refuses (f : Firmware) : Option Bytes → Prop
  | none => True
  | some data =>
      f.connected = false ∨ data.length = 0 ∨ data.length > 49 ∨ f.ring.count = replyQueueSize

theorem send_refused {f : Firmware} {data : Option Bytes} (h : Refuses f data) :
    btstackHidSendInputReport data f = (f, [.refused data]) := by
  unfold btstackHidSendInputReport
  cases data with
  | none => rfl
  | some data =>
      dsimp only
      by_cases hfirst : f.connected = false ∨ data.length = 0
      · rw [if_pos hfirst]
      · have hsecond : data.length > inputReportSize ∨ f.ring.count = replyQueueSize := by
          rcases h with hc | he | hrest
          · exact absurd (.inl hc) hfirst
          · exact absurd (.inr he) hfirst
          · exact hrest
        rw [if_neg hfirst, if_pos hsecond]

/-- The ring with one more reply, copied over whatever its slot held. -/
def Firmware.stored (f : Firmware) (data : Bytes) : Firmware :=
  let old := f.ring.slots (f.ring.index replyQueueSize f.ring.count)
  { f with
    ring := f.ring.push replyQueueSize { data := memcpy old.data 0 data, len := data.length } }

theorem send_stored {f : Firmware} {data : Bytes} (h : ¬ Refuses f (some data)) :
    btstackHidSendInputReport (some data) f =
      if f.sendPending then (f.stored data, [.accepted data])
      else ({ f.stored data with sendPending := true }, [.accepted data, .request f.hidCid]) := by
  simp only [Refuses, not_or] at h
  obtain ⟨hc, he, hl, hf⟩ := h
  have hsecond : ¬ (data.length > inputReportSize ∨ f.ring.count = replyQueueSize) :=
    not_or.mpr ⟨hl, hf⟩
  unfold btstackHidSendInputReport
  dsimp only
  rw [if_neg (not_or.mpr ⟨hc, he⟩), if_neg hsecond]
  rfl

theorem stored_queue {f : Firmware} (data : Bytes) (hroom : f.ring.count < replyQueueSize) :
    (f.stored data).queue = f.queue ++ [data] := by
  unfold Firmware.queue Firmware.stored
  dsimp only
  rw [RingBuffer.push_contents _ _ hroom, List.map_append]
  congr 1
  simp only [List.map_cons, List.map_nil, Reply.bytes, memcpy_take]

/-- An accepted reply is the newest of the queue. -/
theorem send_accepted {f : Firmware} {data : Bytes} (hw : f.ring.WF replyQueueSize)
    (h : ¬ Refuses f (some data)) :
    (btstackHidSendInputReport (some data) f).1.queue = f.queue ++ [data] ∧
      (btstackHidSendInputReport (some data) f).1.ring.WF replyQueueSize ∧
      (btstackHidSendInputReport (some data) f).1.connected = f.connected ∧
      accepted (btstackHidSendInputReport (some data) f).2 = [data] ∧
      ∀ a ∈ (btstackHidSendInputReport (some data) f).2, a.isEdge = false ∧
        ∀ msg, a ≠ .sent true msg := by
  have hroom : f.ring.count < replyQueueSize := by
    refine Nat.lt_of_le_of_ne hw.count_le fun hfull => h ?_
    exact .inr (.inr (.inr hfull))
  have hqueue := stored_queue data hroom
  have hwf : (f.stored data).ring.WF replyQueueSize := RingBuffer.push_wf _ hw hroom
  rw [send_stored h]
  split_ifs
  · exact ⟨hqueue, hwf, rfl, rfl, by simp [Action.isEdge]⟩
  · exact ⟨hqueue, hwf, rfl, rfl, by simp [Action.isEdge]⟩

/-- Every slot of the window holds as many bytes as it says. -/
theorem send_slots {f : Firmware} {data : Bytes} (hw : f.ring.WF replyQueueSize)
    (hslots : ∀ r ∈ f.ring.contents replyQueueSize, r.bytes.length = r.len)
    (h : ¬ Refuses f (some data)) :
    ∀ r ∈ (btstackHidSendInputReport (some data) f).1.ring.contents replyQueueSize,
      r.bytes.length = r.len := by
  have hroom : f.ring.count < replyQueueSize := by
    refine Nat.lt_of_le_of_ne hw.count_le fun hfull => h ?_
    exact .inr (.inr (.inr hfull))
  have hstored : ∀ r ∈ (f.stored data).ring.contents replyQueueSize, r.bytes.length = r.len := by
    intro r hr
    rcases RingBuffer.mem_contents_push hroom hr with hold | rfl
    · exact hslots r hold
    · simp only [Reply.bytes, memcpy_take]
  rw [send_stored h]
  split_ifs <;> exact hstored

/-! ## The invariant -/

structure Lossless (f : Firmware) (log : List Action) : Prop where
  ring : f.ring.WF replyQueueSize
  slots : ∀ r ∈ f.ring.contents replyQueueSize, r.bytes.length = r.len
  fifo : accepted (session log) = delivered (session log) ++ f.queue
  framed : ∀ msg, .sent true msg ∈ log → msg.head? = some 0xa1
  idle : f.connected = false → f.queue = [] ∧ f.sendPending = false

namespace Lossless

variable {f f' : Firmware} {past log : List Action}

theorem boot : Lossless Firmware.boot [] where
  ring := ⟨by decide, by decide⟩
  slots := by simp [Firmware.boot, RingBuffer.contents]
  fifo := rfl
  framed := by simp
  idle := fun _ => ⟨rfl, rfl⟩

/-- A step that neither accepts nor sends a reply. -/
theorem frame (h : Lossless f past) (hring : f'.ring = f.ring)
    (hpending : f.connected = false → f'.sendPending = false)
    (hconnected : f'.connected = f.connected)
    (hlog : ∀ a ∈ log, a.isEdge = false ∧ (∀ data, a ≠ .accepted data) ∧
      ∀ msg, a ≠ .sent true msg) : Lossless f' (past ++ log) := by
  have hqueue : f'.queue = f.queue := by rw [Firmware.queue, hring]; rfl
  have haccepted : accepted log = [] := by
    rw [accepted, List.filterMap_eq_nil_iff]
    intro a ha
    cases a <;> first | rfl | exact absurd rfl ((hlog _ ha).2.1 _)
  have hdelivered : delivered log = [] := by
    rw [delivered, List.filterMap_eq_nil_iff]
    intro a ha
    cases a with
    | sent isReply msg =>
        cases isReply with
        | true => exact absurd rfl ((hlog _ ha).2.2 msg)
        | false => rfl
    | core | opened | closed | accepted | refused | request | failed => rfl
  refine ⟨by rw [hring]; exact h.ring, by rw [hring]; exact h.slots, ?_, ?_, ?_⟩
  · rw [session_append past log fun a ha => (hlog a ha).1, accepted_append, delivered_append,
      haccepted, hdelivered, hqueue, List.append_nil, List.append_nil]
    exact h.fifo
  · intro msg hm
    rcases List.mem_append.mp hm with hold | hnew
    · exact h.framed msg hold
    · exact absurd rfl ((hlog _ hnew).2.2 msg)
  · intro hc
    rw [hconnected] at hc
    rw [hqueue]
    exact ⟨(h.idle hc).1, hpending hc⟩

theorem send (h : Lossless f past) (data : Option Bytes) :
    Lossless (btstackHidSendInputReport data f).1
      (past ++ (btstackHidSendInputReport data f).2) := by
  by_cases hr : Refuses f data
  · rw [send_refused hr]
    exact h.frame rfl (fun hc => (h.idle hc).2) rfl (by simp [Action.isEdge])
  · cases data with
    | none => exact absurd trivial hr
    | some data =>
        obtain ⟨hqueue, hwf, hconnected, hacc, hquiet⟩ := send_accepted h.ring hr
        have hslots := send_slots h.ring h.slots hr
        have hdelivered : delivered (btstackHidSendInputReport (some data) f).2 = [] := by
          rw [delivered, List.filterMap_eq_nil_iff]
          intro a ha
          cases a with
          | sent isReply msg =>
              cases isReply with
              | true => exact absurd rfl ((hquiet _ ha).2 msg)
              | false => rfl
          | core | opened | closed | accepted | refused | request | failed => rfl
        refine ⟨hwf, hslots, ?_, ?_, ?_⟩
        · rw [session_append _ _ fun a ha => (hquiet a ha).1, accepted_append, delivered_append,
            hacc, hdelivered, hqueue, h.fifo]
          simp
        · intro msg hm
          rcases List.mem_append.mp hm with hold | hnew
          · exact h.framed msg hold
          · exact absurd rfl ((hquiet _ hnew).2 msg)
        · intro hc
          rw [hconnected] at hc
          exact absurd (.inl hc) hr

theorem deliver (effects : List Effect) (h : Lossless f past) :
    Lossless (Transport.deliver effects f).1 (past ++ (Transport.deliver effects f).2) := by
  induction effects generalizing f past with
  | nil => simpa [Transport.deliver] using h
  | cons e effects ih =>
      have hcore : Lossless f (past ++ [.core e]) :=
        h.frame rfl (fun hc => (h.idle hc).2) rfl (by simp [Action.isEdge])
      cases e with
      | reply subcmdId payload report =>
          have hrest := ih (hcore.send (some report))
          simpa [Transport.deliver] using hrest
      | nfc | answer | applied | released =>
          have hrest := ih hcore
          simpa [Transport.deliver] using hrest

theorem reply (ok : Bool) (h : Lossless f past) (hc : f.connected = true)
    (hne : f.ring.count ≠ 0) :
    Lossless (sendReply ok { f with sendPending := false }).1
      (past ++ (sendReply ok { f with sendPending := false }).2) := by
  have hcons := RingBuffer.contents_eq_cons h.ring hne
  have hqueue : f.queue = (f.ring.slots f.ring.head).bytes ::
      ((f.ring.pop replyQueueSize).contents replyQueueSize).map Reply.bytes := by
    rw [Firmware.queue, hcons, List.map_cons]
  have hslot := h.slots (f.ring.slots f.ring.head) (by rw [hcons]; exact List.mem_cons_self ..)
  have hmsg : (memcpy messageBuffer 1 (f.ring.slots f.ring.head).bytes).take
      ((f.ring.slots f.ring.head).len + 1) = 0xa1 :: (f.ring.slots f.ring.head).bytes := by
    have heq := message_eq (f.ring.slots f.ring.head).bytes
    rw [hslot] at heq
    exact heq
  unfold sendReply
  cases ok with
  | false =>
      exact h.frame rfl (fun _ => rfl) rfl (by simp [Action.isEdge])
  | true =>
      change Lossless { f with sendPending := false, ring := f.ring.pop replyQueueSize }
        (past ++ [.sent true ((memcpy messageBuffer 1 (f.ring.slots f.ring.head).bytes).take
          ((f.ring.slots f.ring.head).len + 1))])
      rw [hmsg]
      refine ⟨RingBuffer.pop_wf h.ring, ?_, ?_, ?_, fun hf => ?_⟩
      · intro r hr
        exact h.slots r (by rw [hcons]; exact List.mem_cons_of_mem _ hr)
      · have hfifo := h.fifo
        rw [hqueue] at hfifo
        rw [session_append _ _ (by simp [Action.isEdge]), accepted_append, delivered_append]
        simpa [accepted, delivered, Firmware.queue] using hfifo
      · intro msg hm
        rcases List.mem_append.mp hm with hold | hnew
        · exact h.framed msg hold
        · cases List.mem_singleton.mp hnew
          rfl
      · exact absurd (hc.symm.trans hf) (by decide)

theorem stream (ok : Bool) (h : Lossless f past) :
    Lossless (sendStream ok { f with sendPending := false }).1
      (past ++ (sendStream ok { f with sendPending := false }).2) := by
  unfold sendStream
  dsimp only
  split
  all_goals
    cases ok
    all_goals exact h.frame rfl (fun _ => rfl) rfl (by simp [Action.isEdge, sendResult])

/-- A connection event leaves an empty queue and no promise to send. -/
theorem edge {e : Action} (h : Lossless f past) (he : e.isEdge = true)
    (hring : f'.ring = f.ring.clear) (hpending : f'.sendPending = false)
    (effects : List Effect) : Lossless f' (past ++ e :: effects.map .core) := by
  have hqueue : f'.queue = [] := by
    rw [Firmware.queue, hring, RingBuffer.clear_contents]
    rfl
  have haccepted : accepted (effects.map .core) = [] := by
    rw [accepted, List.filterMap_map]
    exact List.filterMap_eq_nil_iff.mpr fun _ _ => rfl
  have hdelivered : delivered (effects.map .core) = [] := by
    rw [delivered, List.filterMap_map]
    exact List.filterMap_eq_nil_iff.mpr fun _ _ => rfl
  refine ⟨by rw [hring]; exact RingBuffer.clear_wf _ (by decide), ?_, ?_, ?_,
    fun _ => ⟨hqueue, hpending⟩⟩
  · rw [hring, RingBuffer.clear_contents]
    simp
  · rw [session_edge past he, haccepted, hdelivered, hqueue]
    · rfl
    · simp [Action.isEdge]
  · intro msg hm
    rcases List.mem_append.mp hm with hold | hnew
    · exact h.framed msg hold
    · rcases List.mem_cons.mp hnew with hedge | hcore
      · rw [← hedge] at he
        cases he
      · simp at hcore

theorem trackOutput {p : Platform} {packet : Bytes} (h : Lossless f past)
    (hs : Transport.trackOutput p packet f = some (f', log)) : Lossless f' (past ++ log) := by
  unfold Transport.trackOutput at hs
  obtain ⟨⟨core, effects⟩, -, hd⟩ := Option.bind_eq_some_iff.mp hs
  have hcore : Lossless { f with core } past := ⟨h.ring, h.slots, h.fifo, h.framed, h.idle⟩
  have hafter := hcore.deliver effects
  rw [show Transport.deliver effects { f with core } = (f', log) from Option.some.inj hd] at hafter
  exact hafter

theorem step {p : Platform} {parse : Bytes → Option CJson} {e : Event} (h : Lossless f past)
    (hs : Transport.step p parse e f = some (f', log)) : Lossless f' (past ++ log) := by
  have hsame : Lossless f (past ++ []) := by simpa using h
  have hpair {r : Firmware × List Action} (hr : some r = some (f', log))
      (hl : Lossless r.1 (past ++ r.2)) : Lossless f' (past ++ log) := by
    cases hr
    exact hl
  cases e with
  | opened status cid =>
      apply hpair hs
      unfold connectionOpened
      split_ifs
      · exact hsame
      · exact h.edge rfl rfl rfl _
  | closed =>
      exact hpair hs (h.edge rfl rfl rfl _)
  | canSendNow ok =>
      simp only [Transport.step] at hs
      split_ifs at hs with hready
      · apply hpair hs
        unfold sendNextReport
        dsimp only
        split_ifs with hne
        · exact h.reply ok hready.1 hne
        · exact h.stream ok
      · exact hpair hs hsame
  | inputTimer =>
      apply hpair hs
      unfold inputTimerHandler
      split_ifs with hready
      · exact h.frame rfl (fun hc => absurd (hready.1.symm.trans hc) (by decide)) rfl
          (by simp [Action.isEdge])
      · exact hsame
  | reportData reportId report =>
      simp only [Transport.step, reportDataCallback] at hs
      split_ifs at hs
      · exact h.trackOutput hs
      · exact hpair hs hsame
  | setReport report =>
      simp only [Transport.step, setReportCallback] at hs
      split_ifs at hs
      · exact hpair hs hsame
      · exact h.trackOutput hs
  | pcTimer lines now =>
      refine hpair hs (h.frame rfl (fun hc => (h.idle hc).2) rfl ?_)
      intro a ha
      obtain ⟨effect, -, rfl⟩ := List.mem_map.mp ha
      simp [Action.isEdge]

end Lossless

theorem reaches_lossless {p : Platform} {parse : Bytes → Option CJson} {f : Firmware}
    {log : List Action} (h : (firmware p parse).Reaches f log) : Lossless f log :=
  h.history Lossless Lossless.boot fun _ _ _ _ _ hl hs => hl.step hs

/-- Within a connection the reply ring is a lossless bounded FIFO, whatever is
received, sent, retried or reconnected. -/
theorem reply_queue_lossless (p : Platform) (parse : Bytes → Option CJson) :
    (∀ f log, (firmware p parse).Reaches f log →
      f.ring.head < 8 ∧ f.ring.count ≤ 8 ∧ f.queue.length = f.ring.count ∧
      accepted (session log) = delivered (session log) ++ f.queue ∧
      (∀ msg, .sent true msg ∈ log → msg.head? = some 0xa1) ∧
      (f.connected = false → f.queue = [] ∧ f.sendPending = false)) ∧
    (∀ f, (firmware p parse).Reachable f → ∀ data,
      (Refuses f data → btstackHidSendInputReport data f = (f, [.refused data])) ∧
      (¬ Refuses f data → ∃ bytes, data = some bytes ∧
        (btstackHidSendInputReport data f).1.queue = f.queue ++ [bytes] ∧
        accepted (btstackHidSendInputReport data f).2 = [bytes])) ∧
    (∀ f, (firmware p parse).Reachable f → ∀ f' log,
      step p parse (.canSendNow false) f = some (f', log) → f'.queue = f.queue) := by
  have hinv : ∀ f log, (firmware p parse).Reaches f log → Lossless f log :=
    fun _ _ h => reaches_lossless h
  refine ⟨?_, ?_, ?_⟩
  · intro f log hr
    have h := hinv f log hr
    refine ⟨h.ring.head_lt, h.ring.count_le, ?_, h.fifo, h.framed, h.idle⟩
    rw [Firmware.queue, List.length_map, RingBuffer.contents_length]
  · intro f ⟨log, hr⟩ data
    have h := hinv f log hr
    refine ⟨fun hrefuse => send_refused hrefuse, fun hrefuse => ?_⟩
    cases data with
    | none => exact absurd trivial hrefuse
    | some bytes =>
        obtain ⟨hqueue, -, -, hacc, -⟩ := send_accepted h.ring hrefuse
        exact ⟨bytes, rfl, hqueue, hacc⟩
  · intro f _ f' log hs
    simp only [step] at hs
    split_ifs at hs
    · unfold sendNextReport at hs
      dsimp only at hs
      split_ifs at hs
      · cases hs
        rfl
      · unfold sendStream at hs
        dsimp only at hs
        split at hs
        all_goals
          cases hs
          rfl
    · cases hs
      rfl

/-- A device information request whose reply is sent at the second attempt. -/
def retriedReply : List Event :=
  [.opened 0 1, .reportData 1 (zeros 9 ++ [0x02]), .canSendNow false, .inputTimer, .canSendNow true]

theorem reply_queue_lossless_retried :
    ∃ f log, (firmware blankPlatform fun _ => none).Reaches f log ∧
      (delivered (session log)).length = 1 ∧
      accepted (session log) = delivered (session log) ++ f.queue := by
  have hrun : (((firmware blankPlatform fun _ => none).run retriedReply Firmware.boot).map
      fun r => (delivered (session r.2)).length) = some 1 := by decide +kernel
  obtain ⟨⟨f, log⟩, hr, hl⟩ := Option.map_eq_some_iff.mp hrun
  have hqueue := (reply_queue_lossless _ _).1 f log ⟨_, hr⟩
  exact ⟨f, log, ⟨_, hr⟩, hl, hqueue.2.2.2.1⟩

end SwitchController.Transport
