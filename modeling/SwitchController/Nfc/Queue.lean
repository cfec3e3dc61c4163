import SwitchController.Nfc.Delivery

/-! # The ring as a bounded queue

The four slots of the MCU are a queue of finished packets: a call adds at most one
at the end, takes the oldest, or drops them all and leaves what it builds anew. A
change of the tag drops them all and owes the console a new one.
-/

namespace SwitchController.Nfc

open Memory

/-! ## What one call does -/

/-- The packets a flushing call builds behind its flush. -/
def rebuilt (power polling : UInt8) (tag : Option Bytes) : Op → List Packet
  | .load data =>
      if power = 4 ∧ polling ≠ 0 then [.found 1 data]
      else if power ≠ 0 then [.status power] else []
  | .unload => if power = 4 ∧ polling ≠ 0 then [.poll 1] else []
  | .power value => [.status value]
  | .config args => ((configMode args).map Packet.status).toList
  | .command packet =>
      if classify power tag.isSome packet = .read then tag.toList.flatMap readPackets else []
  | .reset | .peek | .commit => []

def Mcu.rebuilt (m : Mcu) (op : Op) : List Packet :=
  Nfc.rebuilt m.powerState m.pollState m.presentTag op

namespace Model

variable {a : Model}

theorem status_room (h : a.pending.length < queueSize) :
    a.status.pending = a.pending ++ [.status a.power] := by
  rw [status, enqueue, if_pos h]

theorem poll_room (h : a.pending.length < queueSize) :
    ∃ p, a.poll.pending = a.pending ++ [p] := by
  by_cases hbare : a.tag = none ∨ a.polling = 0
  · exact ⟨_, by rw [poll_bare h hbare]⟩
  · obtain ⟨tag, ht⟩ := Option.ne_none_iff_exists'.mp (not_or.mp hbare).1
    exact ⟨_, by rw [poll_found h ht (not_or.mp hbare).2]⟩

/-- At most one packet joins the queue. -/
theorem step_appends {op : Op} (h : a.flushes op = false) (hc : op ≠ .commit) :
    (step op a).1.pending = a.pending ∨ ∃ p, (step op a).1.pending = a.pending ++ [p] := by
  by_cases hask : ∀ packet, op = .command packet →
      a.request packet ≠ .status ∧ a.request packet ≠ .poll
  · exact .inl (step_kept h hc hask)
  push Not at hask
  obtain ⟨packet, rfl, hask⟩ := hask
  change (perform (a.request packet) a).pending = _ ∨
    ∃ p, (perform (a.request packet) a).pending = _
  by_cases hroom : a.pending.length < queueSize
  · right
    by_cases hstatus : a.request packet = .status
    · rw [hstatus]
      exact ⟨_, status_room hroom⟩
    · rw [hask hstatus]
      exact poll_room hroom
  · left
    by_cases hstatus : a.request packet = .status
    · rw [hstatus]
      simp only [perform, status, enqueue, if_neg hroom]
    · rw [hask hstatus]
      simp only [perform, poll_full hroom]

/-- Nothing of the old queue is left behind a flush. -/
theorem step_rebuilt {op : Op} (h : a.flushes op = true) :
    (step op a).1.pending = rebuilt a.power a.polling a.tag op := by
  cases op with
  | reset => rfl
  | unload =>
      simp only [step, unload, rebuilt]
      by_cases hpoll : a.polling = 0
      · simp [hpoll]
      · by_cases hpower : a.power = 4 <;> simp [hpoll, hpower]
  | load data =>
      have hlen : data.length = tagSize := by simpa [flushes, Nfc.flushes] using h
      simp only [step, load, if_neg (not_not.mpr hlen), rebuilt]
      split_ifs <;> rfl
  | power value =>
      have hv : ¬ value > 1 := by simpa [flushes, Nfc.flushes] using h
      simp only [step, setPower, if_neg hv]
      rfl
  | config args =>
      simp only [step, config, rebuilt]
      cases hm : configMode args with
      | none => simp [flushes, Nfc.flushes, hm] at h
      | some mode =>
          have heff : a.power ≠ 0 ∧ mode ≠ 0 := by simpa [flushes, Nfc.flushes, hm] using h
          simp only [if_pos heff]
          rfl
  | command packet =>
      have hkind : a.request packet = .stop ∨ a.request packet = .read := by
        simpa [flushes, Nfc.flushes, request] using h
      change (perform (a.request packet) a).pending =
        if a.request packet = .read then a.tag.toList.flatMap readPackets else []
      rcases hkind with hr | hr
      · rw [hr]
        rfl
      · have hpresent := (classify_read hr).2.2.1
        obtain ⟨tag, ht⟩ := Option.isSome_iff_exists.mp hpresent
        rw [hr, read_some ht, ht, if_pos rfl]
        simp
  | peek => cases h
  | commit => cases h

end Model

theorem Rep.rebuilt {m : Mcu} {a : Model} (h : Rep m a) (op : Op) :
    Nfc.rebuilt a.power a.polling a.tag op = m.rebuilt op := by
  rw [Mcu.rebuilt, h.power, h.polling, h.tag]
  rfl

/-- A status or poll request on a full ring is answered with nothing. -/
theorem perform_full {m : Mcu} {r : Request} (hr : r = .status ∨ r = .poll)
    (hfull : m.queue.count = queueSize) : r.perform m = m := by
  rcases hr with rfl | rfl
  · exact status_full hfull
  · exact poll_full hfull

/-- The packet a peek shows is sealed, whether it was queued or made up. -/
theorem peek_sealed {m : Mcu} {a : Model} (h : Rep m a) :
    (nfcPeek m).length = mcuSize ∧
      (nfcPeek m)[312]? = some (nfcCrc8 ((nfcPeek m).take 312)) := by
  rw [h.peek]
  exact ⟨encode_length _, sealPacket_crc (body_length_le _)⟩

theorem peek_head {m : Mcu} {a : Model} (h : Rep m a) :
    nfcPeek m = m.pending.headD Packet.idle.encode := by
  rw [h.peek, h.pending, Model.peek]
  cases a.pending <;> rfl

theorem afterRead_pending (m : Mcu) :
    m.afterRead.pending = (readPackets m.tag).map Packet.encode := by
  have hempty : (flush m).pending = [] := flush_pending m
  unfold Mcu.afterRead
  rw [enqueue_pending _ (by simp [queueSize]), enqueue_pending _ (by simp [queueSize]),
    enqueue_pending _ (by simp [queueSize]), hempty]
  rfl

theorem commit_pending (m : Mcu) : (nfcCommit m).pending = m.pending.tail := by
  unfold nfcCommit
  by_cases hc : m.queue.count = 0
  · rw [if_neg (not_not.mpr hc), Mcu.pending, (RingBuffer.contents_eq_nil_iff m.queue).mpr hc]
    rfl
  · rw [if_pos hc]
    exact RingBuffer.pop_contents m.queue

/-- Two states that differ in their queues only. -/
def Mcu.SameButQueue (m n : Mcu) : Prop := n = { m with queue := n.queue }

theorem commit_sameButQueue (m : Mcu) : m.SameButQueue (nfcCommit m) := by
  unfold Mcu.SameButQueue nfcCommit
  split_ifs <;> rfl

/-! ## The queue -/

/-- The ring is a bounded queue of sealed packets: indices stay in range, requests add
one packet or find the ring full, and peek and commit see the oldest. No other call
touches a waiting packet but those that flush, and these leave only what they build. -/
theorem ring_refines_queue {m : Mcu} (h : machine.Reachable m) :
    (m.queue.head < 4 ∧ m.queue.count ≤ 4) ∧
    (∃ packets : List Packet, packets.length = m.queue.count ∧
      m.pending = packets.map Packet.encode) ∧
    (∀ packet, m.request packet = .status ∨ m.request packet = .poll →
      ∃ m', nfcCommand packet m = some (true, m') ∧
        (m.queue.count < 4 → ∃ p : Packet, m'.pending = m.pending ++ [p.encode]) ∧
        (m.queue.count = 4 → m' = { m with
          received := m.received + 1, lastCmd := packet.getD 10 0,
          lastSub := packet.getD 11 0 })) ∧
    (∀ op, ∃ m' r, step op m = some (m', r) ∧
      (m.flushes op = false → op ≠ .commit → m'.pending = m.pending ∨
        ∃ p : Packet, m'.pending = m.pending ++ [p.encode]) ∧
      (m.flushes op = true → m'.pending = (m.rebuilt op).map Packet.encode)) ∧
    step .peek m = some (m, [.packet (m.pending.headD Packet.idle.encode)]) ∧
    (∃ m', step .commit m = some (m', [.done]) ∧ m'.pending = m.pending.tail ∧
      m.SameButQueue m') ∧
    (∃ m', readTag m = some m' ∧ m'.pending = (readPackets m.tag).map Packet.encode) ∧
    (∀ packet, m.request packet = .read → ∃ m', nfcCommand packet m = some (true, m') ∧
      m'.pending = (readPackets m.tag).map Packet.encode) ∧
    ((nfcPeek m).length = 313 ∧ (nfcPeek m)[312]? = some (nfcCrc8 ((nfcPeek m).take 312))) := by
  obtain ⟨a, ha⟩ := reachable_rep h
  have hmap {qs : List Packet} {p : Packet} (hp : qs = a.pending ++ [p]) :
      qs.map Packet.encode = m.pending ++ [p.encode] := by
    rw [hp, ha.pending, List.map_append]
    rfl
  refine ⟨⟨ha.queue.head_lt, ha.queue.count_le⟩, ⟨a.pending, ha.count.symm, ha.pending⟩, ?_, ?_, ?_,
    ⟨_, rfl, commit_pending m, commit_sameButQueue m⟩,
    ⟨_, readTag_eq ha.tag_length, afterRead_pending m⟩, ?_, peek_sealed ha⟩
  · intro packet hr
    have haccepted : (m.request packet).accepted = true := by
      rcases hr with hr | hr
      · rw [hr]
        rfl
      · rw [hr]
        rfl
    have hrun := nfcCommand_eq ha.tag_length packet
    rw [haccepted] at hrun
    refine ⟨_, hrun, fun hroom => ?_, fun hfull => ?_⟩
    · have hroom' : a.pending.length < queueSize := by
        rw [← ha.count]
        exact hroom
      have hafter := ha.perform (m.request packet) request_read_present
      change ∃ p : Packet, ((m.request packet).perform m).pending = _
      rw [hafter.pending]
      rcases hr with hr | hr
      · rw [hr]
        exact ⟨_, hmap (Model.status_room hroom')⟩
      · rw [hr]
        obtain ⟨p, hp⟩ := Model.poll_room hroom'
        exact ⟨p, hmap hp⟩
    · rw [perform_full hr hfull]
      rfl
  · intro op
    obtain ⟨m', hs, hrep⟩ := step_refines ha op
    refine ⟨m', _, hs, fun hkeep hc => ?_, fun hflush => ?_⟩
    · rw [← ha.flushes] at hkeep
      rw [hrep.pending]
      rcases Model.step_appends hkeep hc with hsame | ⟨p, hp⟩
      · left
        rw [hsame, ha.pending]
      · exact .inr ⟨p, hmap hp⟩
    · rw [← ha.flushes] at hflush
      rw [hrep.pending, Model.step_rebuilt hflush, ha.rebuilt]
  · rw [step, peek_head ha]
  · intro packet hr
    have hrun := nfcCommand_eq ha.tag_length packet
    rw [hr] at hrun
    exact ⟨_, hrun, afterRead_pending m⟩

/-- A ring with one packet. -/
theorem ring_refines_queue_power :
    ∃ m', step .commit (nfcPower 1 Mcu.boot).2 = some (m', [.done]) ∧ m'.pending = [] := by
  have hstart : machine.Reachable Mcu.boot := .start machine
  have hpower : machine.Reachable (nfcPower 1 Mcu.boot).2 :=
    hstart.step (e := .power 1) (o := [.accepted true]) rfl
  obtain ⟨m', hs, hpending, -⟩ := (ring_refines_queue hpower).2.2.2.2.2.1
  exact ⟨m', hs, hpending⟩

/-! ## Changes of the tag -/

/-- The packet that describes a state to a console that waits for one. -/
def Mcu.description (m : Mcu) : Packet :=
  if m.pollState = 0 then .status m.powerState
  else
    match m.presentTag with
    | some tag => .found m.pollState tag
    | none => .poll m.pollState

def Mcu.Restored (m : Mcu) : Prop := m.description.encode ∈ m.pending

theorem load_restored {m : Mcu} {data : Bytes} (hlen : data.length = tagSize)
    (hpower : m.powerState ≠ 0) (hmode : m.pollState ≠ 0 → m.powerState = 4) :
    (nfcLoad data m).2.Restored := by
  have hempty (n : Mcu) (p : Bytes) (hn : n.queue.count = 0) : (n.enqueue p).pending = [p] := by
    rw [enqueue_pending p (by rw [hn]; decide), Mcu.pending,
      (RingBuffer.contents_eq_nil_iff n.queue).mpr hn]
    rfl
  by_cases hpoll : m.pollState = 0
  · rw [nfcLoad_idle hlen (fun hc => hc.2 hpoll) hpower]
    unfold Mcu.Restored
    rw [hempty _ _ rfl]
    have hdescription : ((m.withTag data).enqueue (Packet.status m.powerState).encode).description =
        .status m.powerState := if_pos hpoll
    rw [hdescription]
    exact List.mem_singleton.mpr rfl
  · rw [nfcLoad_polling hlen (hmode hpoll) hpoll]
    unfold Mcu.Restored
    rw [hempty _ _ rfl]
    exact List.mem_singleton.mpr rfl

theorem unload_restored_iff {m : Mcu} (htag : m.tag.length = tagSize)
    (hmode : m.pollState ≠ 0 → m.powerState = 4) :
    (nfcUnload m).Restored ↔ m.pollState ≠ 0 := by
  constructor
  · intro hrestored hpoll
    rw [nfcUnload_idle hpoll] at hrestored
    unfold Mcu.Restored at hrestored
    rw [Mcu.withoutTag, flush_pending] at hrestored
    cases hrestored
  · intro hpoll
    rw [nfcUnload_polling htag hpoll (hmode hpoll)]
    unfold Mcu.Restored
    rw [enqueue_pending _ (by simp [Mcu.withoutTag, queueSize])]
    exact List.mem_append_right _ (List.mem_singleton.mpr rfl)

/-- A load always restores what the console waits for; a removal does so exactly while
the console polls. Whether something was pending before makes no difference. -/
theorem tag_change_restored_iff {m : Mcu} (h : machine.Reachable m) (hpower : m.powerState ≠ 0)
    (op : Op)
    (hop : op = .unload ∨ ∃ data, data.length = tagSize ∧ op = .load data) :
    ∃ m' r, step op m = some (m', r) ∧ (m'.Restored ↔ (op = .unload → m.pollState ≠ 0)) := by
  obtain ⟨a, ha, hi⟩ := reachable_inv h
  have hmode : m.pollState ≠ 0 → m.powerState = 4 := by
    rw [← ha.polling, ← ha.power]
    exact hi.polling
  rcases hop with rfl | ⟨data, hlen, rfl⟩
  · refine ⟨_, _, rfl, ?_⟩
    rw [unload_restored_iff ha.tag_length hmode]
    simp
  · refine ⟨_, _, rfl, ?_⟩
    simp only [reduceCtorEq, false_implies, iff_true]
    exact load_restored hlen hpower hmode

/-- The MCU is on, a status packet waits, and the tag is removed. -/
theorem unpolledUnload_unanswered :
    ∃ m m', machine.Reachable m ∧ m.powerState ≠ 0 ∧ m.pending ≠ [] ∧
      step .unload m = some (m', [.done]) ∧ m'.pending = [] ∧ ¬ m'.Restored := by
  have hstart : machine.Reachable Mcu.boot := .start machine
  have hpower : machine.Reachable (nfcPower 1 Mcu.boot).2 :=
    hstart.step (e := .power 1) (o := [.accepted true]) rfl
  have hempty : (nfcUnload (nfcPower 1 Mcu.boot).2).pending = [] := rfl
  refine ⟨_, _, hpower, by decide, ?_, rfl, hempty, ?_⟩
  · rw [← List.length_pos_iff_ne_nil]
    decide
  · unfold Mcu.Restored
    rw [hempty]
    exact List.not_mem_nil

theorem tag_change_restored_iff_load :
    ∃ m' r, step (.load (zeros tagSize)) (nfcPower 1 Mcu.boot).2 = some (m', r) ∧
      m'.Restored := by
  have hstart : machine.Reachable Mcu.boot := .start machine
  have hpower : machine.Reachable (nfcPower 1 Mcu.boot).2 :=
    hstart.step (e := .power 1) (o := [.accepted true]) rfl
  obtain ⟨m', r, hs, hiff⟩ := tag_change_restored_iff hpower (by decide)
    (.load (zeros tagSize)) (.inr ⟨_, zeros_length _, rfl⟩)
  exact ⟨m', r, hs, hiff.mpr fun hop => Op.noConfusion hop⟩

end SwitchController.Nfc
