import SwitchController.Nfc.Model

/-! # The statics refine the model

`Rep m a` says which statics stand for which model state. Each call preserves
it and hands back the model's result; in particular no call faults, so the
unchecked reservations of a read and every byte access are safe.
-/

namespace SwitchController.Nfc

open Memory

structure Rep (m : Mcu) (a : Model) : Prop where
  tag : a.tag = if m.present then some m.tag else none
  tag_length : m.tag.length = tagSize
  absent : m.present = false → m.tag = zeros tagSize
  seen : a.seen = m.seen
  power : a.power = m.powerState
  polling : a.polling = m.pollState
  queue : m.queue.WF queueSize
  pending : m.pending = a.pending.map Packet.encode

namespace Rep

variable {m : Mcu} {a : Model}

theorem boot : Rep Mcu.boot Model.boot where
  tag := rfl
  tag_length := zeros_length tagSize
  absent := fun _ => rfl
  seen := rfl
  power := rfl
  polling := rfl
  queue := ⟨by decide, by decide⟩
  pending := rfl

theorem count (h : Rep m a) : m.queue.count = a.pending.length := by
  have hl := congrArg List.length h.pending
  simpa [Mcu.pending] using hl

theorem full_iff (h : Rep m a) :
    m.queue.count = queueSize ↔ ¬ a.pending.length < queueSize := by
  have hle := h.queue.count_le
  rw [← h.count]
  omega

theorem tag_some (h : Rep m a) (hp : m.present = true) : a.tag = some m.tag := by
  rw [h.tag, if_pos hp]

theorem tag_none (h : Rep m a) (hp : ¬ m.present = true) : a.tag = none := by
  rw [h.tag, if_neg hp]

theorem isSome (h : Rep m a) : a.tag.isSome = m.present := by
  rw [h.tag]
  cases m.present <;> rfl

theorem enqueue (h : Rep m a) (p : Packet) (hroom : m.queue.count < queueSize) :
    Rep (m.enqueue p.encode) { a with pending := a.pending ++ [p] } where
  tag := h.tag
  tag_length := h.tag_length
  absent := h.absent
  seen := h.seen
  power := h.power
  polling := h.polling
  queue := RingBuffer.push_wf p.encode h.queue hroom
  pending := by
    rw [enqueue_pending _ hroom, h.pending]
    simp

/-- An empty queue after any change of the other statics. -/
theorem flushed {n : Mcu} {b : Model} (hq : n.queue = m.queue.clear) (hb : b.pending = [])
    (htag : b.tag = if n.present then some n.tag else none) (hlen : n.tag.length = tagSize)
    (habsent : n.present = false → n.tag = zeros tagSize) (hseen : b.seen = n.seen)
    (hpower : b.power = n.powerState) (hpoll : b.polling = n.pollState) : Rep n b where
  tag := htag
  tag_length := hlen
  absent := habsent
  seen := hseen
  power := hpower
  polling := hpoll
  queue := by
    rw [hq]
    exact RingBuffer.clear_wf _ (by decide)
  pending := by
    rw [hb, Mcu.pending, hq]
    exact RingBuffer.clear_contents _

theorem counted (h : Rep m a) (packet : Bytes) (ok : Bool) : Rep (m.counted packet ok) a :=
  ⟨h.tag, h.tag_length, h.absent, h.seen, h.power, h.polling, h.queue, h.pending⟩

theorem status (h : Rep m a) : Rep (Nfc.status m) a.status := by
  by_cases hfull : m.queue.count = queueSize
  · rw [status_full hfull]
    simpa [Model.status, Model.enqueue, h.full_iff.mp hfull] using h
  · have hroom : a.pending.length < queueSize := by
      by_contra hc
      exact hfull (h.full_iff.mpr hc)
    have hr := h.enqueue (.status m.powerState) (by rw [h.count]; exact hroom)
    rw [status_eq hfull]
    simpa [Model.status, Model.enqueue, hroom, h.power] using hr

theorem poll (h : Rep m a) : Rep (Nfc.poll m) a.poll := by
  by_cases hfull : m.queue.count = queueSize
  · rw [poll_full hfull]
    simpa [Model.poll, h.full_iff.mp hfull] using h
  have hroom : a.pending.length < queueSize := by
    by_contra hc
    exact hfull (h.full_iff.mpr hc)
  have hcount : m.queue.count < queueSize := by rw [h.count]; exact hroom
  rw [poll_eq h.tag_length hfull]
  by_cases hf : m.present = true ∧ m.pollState ≠ 0
  · have hann : Rep { m with pollState := if m.seen then 9 else 1, seen := true }
        { a with polling := if a.seen then 9 else 1, seen := true } :=
      ⟨h.tag, h.tag_length, h.absent, rfl, h.power, by rw [h.seen], h.queue, h.pending⟩
    have hr := hann.enqueue (.found (if m.seen then 9 else 1) m.tag) hcount
    simpa [Model.poll, Mcu.announce, Mcu.pollPacket, hf, hroom, h.tag_some hf.1, h.polling,
      h.seen] using hr
  · have hr := h.enqueue (.poll m.pollState) hcount
    by_cases hp : m.present = true
    · have hpoll : m.pollState = 0 := by
        by_contra hc
        exact hf ⟨hp, hc⟩
      simpa [Model.poll, Mcu.announce, Mcu.pollPacket, hp, hpoll, hroom, h.tag_some hp,
        h.polling] using hr
    · simpa [Model.poll, Mcu.announce, Mcu.pollPacket, hp, hroom, h.tag_none hp,
        h.polling] using hr

theorem enterMode (h : Rep m a) (mode : UInt8) : Rep (m.enterMode mode) (a.enterMode mode) := by
  rw [enterMode_eq]
  have hbase : Rep (flush { m with powerState := mode, pollState := 0, seen := false })
      { a with power := mode, polling := 0, seen := false, pending := [] } :=
    flushed rfl rfl h.tag h.tag_length h.absent rfl rfl rfl
  exact hbase.enqueue (.status mode) (by simp [queueSize])

theorem reset (h : Rep m a) : Rep (nfcReset m) a.reset :=
  flushed rfl rfl h.tag h.tag_length h.absent rfl rfl rfl

theorem load (h : Rep m a) (data : Bytes) :
    Rep (nfcLoad data m).2 (a.load data).2 ∧ (nfcLoad data m).1 = (a.load data).1 := by
  by_cases hlen : data.length = tagSize
  swap
  · rw [nfcLoad_short hlen]
    simpa [Model.load, hlen] using h
  have habsent : (m.withTag data).present = false → data = zeros tagSize := fun hc => by cases hc
  by_cases hpoll : m.powerState = 4 ∧ m.pollState ≠ 0
  · have hbase : Rep { m.withTag data with pollState := 1, seen := true }
        { a with tag := some data, seen := true, polling := 1, pending := [] } :=
      flushed rfl rfl rfl hlen habsent rfl h.power rfl
    have hr := hbase.enqueue (.found 1 data) (by simp [Mcu.withTag, queueSize])
    rw [nfcLoad_polling hlen hpoll.1 hpoll.2]
    simpa [Model.load, hlen, h.power, h.polling, hpoll] using hr
  have hbase : Rep (m.withTag data) { a with tag := some data, seen := false, pending := [] } :=
    flushed rfl rfl rfl hlen habsent rfl h.power h.polling
  have hcond : ¬ (a.power = 4 ∧ a.polling ≠ 0) := by rw [h.power, h.polling]; exact hpoll
  by_cases hpower : m.powerState = 0
  · have ha : a.power = 0 := h.power.trans hpower
    rw [nfcLoad_off hlen hpower]
    simpa [Model.load, hlen, ha] using hbase
  · have hr := hbase.enqueue (.status m.powerState) (by simp [Mcu.withTag, queueSize])
    rw [nfcLoad_idle hlen hpoll hpower]
    simp only [Model.load, hlen, ne_eq, not_true_eq_false, if_false]
    rw [if_neg hcond, if_pos (by rw [h.power]; exact hpower)]
    rw [← h.power] at hr ⊢
    exact ⟨hr, rfl⟩

theorem unload (h : Rep m a) : Rep (nfcUnload m) a.unload := by
  have hzero : zeros m.tag.length = zeros tagSize := by rw [h.tag_length]
  have hlen : (zeros m.tag.length).length = tagSize := by rw [zeros_length, h.tag_length]
  by_cases hpoll : m.pollState = 0
  · rw [nfcUnload_idle hpoll]
    have ha : a.polling = 0 := h.polling.trans hpoll
    simp only [Model.unload, ha, ne_eq, not_true_eq_false, if_false]
    exact flushed rfl rfl rfl hlen (fun _ => hzero) rfl h.power (hpoll.symm)
  have ha : a.polling ≠ 0 := by rw [h.polling]; exact hpoll
  have hbase : Rep { m.withoutTag with pollState := 1 }
      { a with tag := none, seen := false, polling := 1, pending := [] } :=
    flushed rfl rfl rfl hlen (fun _ => hzero) rfl h.power rfl
  by_cases hpower : m.powerState = 4
  · have hr := hbase.enqueue (.poll 1) (by simp [Mcu.withoutTag, queueSize])
    rw [nfcUnload_polling h.tag_length hpoll hpower]
    simpa [Model.unload, ha, h.power.trans hpower] using hr
  · have hp : a.power ≠ 4 := by rw [h.power]; exact hpower
    rw [nfcUnload_body, if_pos hpoll, if_neg hpower]
    simpa [Model.unload, ha, hp] using hbase

theorem perform (h : Rep m a) (r : Request) (hread : r = .read → m.present = true) :
    Rep (r.perform m) (Model.perform r a) := by
  cases r with
  | reject => exact h
  | status => exact h.status
  | poll => exact h.poll
  | startPoll =>
      exact ⟨h.tag, h.tag_length, h.absent, h.seen, h.power, rfl, h.queue, h.pending⟩
  | stop => exact flushed rfl rfl h.tag h.tag_length h.absent rfl h.power rfl
  | read =>
      have hp := hread rfl
      have hbase : Rep (flush m) { a with pending := [] } :=
        flushed rfl rfl h.tag h.tag_length h.absent h.seen h.power h.polling
      have h1 := hbase.enqueue (.first m.tag) (by simp [queueSize])
      have h2 := h1.enqueue (.second m.tag) (by simp [queueSize])
      have h3 := h2.enqueue (.trailer m.tag) (by simp [queueSize])
      simpa [Model.perform, h.tag_some hp, readPackets, Request.perform, Mcu.afterRead] using h3

theorem request (h : Rep m a) (packet : Bytes) : a.request packet = m.request packet := by
  rw [Model.request, Mcu.request, h.power, h.isSome]

theorem commit (h : Rep m a) : Rep (nfcCommit m) a.commit := by
  by_cases hc : m.queue.count = 0
  · have hnil : a.pending = [] := by
      rw [← List.length_eq_zero_iff, ← h.count, hc]
    have hm : m.pending = [] := (RingBuffer.contents_eq_nil_iff m.queue).mpr hc
    rw [nfcCommit_empty hm]
    have ha : a.commit = a := by
      cases a
      simp_all [Model.commit]
    rw [ha]
    exact h
  · unfold nfcCommit
    rw [if_pos hc]
    refine ⟨h.tag, h.tag_length, h.absent, h.seen, h.power, h.polling,
      RingBuffer.pop_wf h.queue, ?_⟩
    have hp := h.pending
    simp only [Mcu.pending] at hp ⊢
    rw [RingBuffer.pop_contents, hp]
    simp [Model.commit]

theorem peek (h : Rep m a) : nfcPeek m = a.peek.encode := by
  cases hp : a.pending with
  | nil =>
      have hm : m.pending = [] := by rw [h.pending, hp]; rfl
      rw [nfcPeek_empty hm, Model.peek, hp]
      rfl
  | cons p ps =>
      have hne : m.pending ≠ [] := by rw [h.pending, hp]; simp
      have hhead := peek_commit h.queue hne
      rw [h.pending, hp] at hhead
      rw [Model.peek, hp]
      exact (List.cons.inj hhead).1.symm

end Rep

theorem request_read_present {m : Mcu} {packet : Bytes} (h : m.request packet = .read) :
    m.present = true := by
  unfold Mcu.request at h
  exact (classify_read h).2.2.1

/-- Each call does to the statics what it does to the model, with the model's result. -/
theorem step_refines {m : Mcu} {a : Model} (h : Rep m a) (op : Op) :
    ∃ m', step op m = some (m', [(Model.step op a).2]) ∧ Rep m' (Model.step op a).1 := by
  cases op with
  | reset => exact ⟨nfcReset m, rfl, h.reset⟩
  | load data =>
      obtain ⟨hr, hok⟩ := h.load data
      exact ⟨(nfcLoad data m).2, by rw [step, hok]; rfl, hr⟩
  | unload => exact ⟨nfcUnload m, rfl, h.unload⟩
  | power value =>
      simp only [step, nfcPower_eq, Model.step, Model.setPower]
      by_cases hv : value > 1
      · simpa [hv] using h
      · simpa [hv] using h.enterMode value
  | config args =>
      simp only [step, nfcConfig_eq, Model.step, Model.config, Option.map_some]
      cases hc : configMode args with
      | none => exact ⟨m, rfl, h⟩
      | some mode =>
          by_cases heff : m.powerState ≠ 0 ∧ mode ≠ 0
          · have ha : a.power ≠ 0 ∧ mode ≠ 0 := by rw [h.power]; exact heff
            exact ⟨m.enterMode mode, by simp only [if_pos heff], by
              simp only [if_pos ha]; exact h.enterMode mode⟩
          · have ha : ¬ (a.power ≠ 0 ∧ mode ≠ 0) := by rw [h.power]; exact heff
            exact ⟨m, by simp only [if_neg heff], by simp only [if_neg ha]; exact h⟩
  | command packet =>
      have hreq := h.request packet
      have hr := (h.perform (m.request packet) request_read_present).counted packet
        (m.request packet).accepted
      simp only [step, nfcCommand_eq h.tag_length, Model.step, hreq, Option.map_some]
      exact ⟨_, rfl, hr⟩
  | peek => exact ⟨m, by rw [step, h.peek]; rfl, h⟩
  | commit => exact ⟨nfcCommit m, rfl, h.commit⟩

/-- Every reachable state stands for a model state. -/
theorem reachable_rep {m : Mcu} (h : machine.Reachable m) : ∃ a, Rep m a := by
  refine h.invariant (fun m => ∃ a, Rep m a) ⟨Model.boot, Rep.boot⟩ ?_
  rintro op m m' r ⟨a, ha⟩ hs
  obtain ⟨m'', hs', hrep⟩ := step_refines ha op
  have heq : some (m', r) = some (m'', [(Model.step op a).2]) := hs.symm.trans hs'
  cases heq
  exact ⟨_, hrep⟩

end SwitchController.Nfc
