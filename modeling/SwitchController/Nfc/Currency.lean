import SwitchController.Nfc.Refinement

/-! # Pending packets describe the present

Whatever was loaded, announced or half sent before, a pending packet only speaks
of the current mode and the current tag, and once a tag is replaced or removed
nothing of the past is left that a later call could observe.
-/

namespace SwitchController.Nfc

open Memory

/-- The packet belongs to this mode and only carries bytes of this tag. -/
def Packet.Current (power : UInt8) (tag : Option Bytes) : Packet → Prop
  | .status p => p = power
  | .poll _ => power = 4
  | .found _ t | .first t | .second t | .trailer t => power = 4 ∧ tag = some t

structure Model.Inv (a : Model) : Prop where
  power : a.power = 0 ∨ a.power = 1 ∨ a.power = 4
  polling : a.polling ≠ 0 → a.power = 4
  room : a.pending.length ≤ queueSize
  current : ∀ p ∈ a.pending, p.Current a.power a.tag

namespace Model.Inv

variable {a : Model}

theorem boot : Model.boot.Inv where
  power := .inl rfl
  polling := fun h => absurd rfl h
  room := by decide
  current := by simp [Model.boot]

theorem status (h : a.Inv) : a.status.Inv := by
  unfold Model.status Model.enqueue
  by_cases hroom : a.pending.length < queueSize
  · rw [if_pos hroom]
    refine ⟨h.power, h.polling, by simpa using Nat.succ_le_of_lt hroom, ?_⟩
    intro p hp
    rcases List.mem_append.mp hp with hold | hnew
    · exact h.current p hold
    · obtain rfl := List.mem_singleton.mp hnew
      exact rfl
  · rw [if_neg hroom]
    exact h

/-- A poll answer only joins the queue in NFC mode, with the present tag if any. -/
theorem poll (h : a.Inv) (hmode : a.power = 4) : a.poll.Inv := by
  have hpush : ∀ (p : Packet) (b : Model), b.power = a.power → b.tag = a.tag →
      b.pending = a.pending ++ [p] → a.pending.length < queueSize → p.Current a.power a.tag →
      b.Inv := by
    intro p b hp ht hb hroom hc
    refine ⟨by rw [hp]; exact h.power, fun _ => by rw [hp]; exact hmode, ?_, ?_⟩
    · rw [hb]
      simpa using Nat.succ_le_of_lt hroom
    · intro q hq
      rw [hp, ht]
      rw [hb] at hq
      rcases List.mem_append.mp hq with hold | hnew
      · exact h.current q hold
      · obtain rfl := List.mem_singleton.mp hnew
        exact hc
  by_cases hroom : a.pending.length < queueSize
  · by_cases hbare : a.tag = none ∨ a.polling = 0
    · rw [Model.poll_bare hroom hbare]
      exact hpush (.poll a.polling) _ rfl rfl rfl hroom hmode
    · obtain ⟨tag, ht⟩ := Option.ne_none_iff_exists'.mp (not_or.mp hbare).1
      rw [Model.poll_found hroom ht (not_or.mp hbare).2]
      exact hpush (.found a.foundState tag) _ rfl rfl rfl hroom ⟨hmode, ht⟩
  · rw [Model.poll_full hroom]
    exact h

theorem enterMode (mode : UInt8) (hm : mode = 0 ∨ mode = 1 ∨ mode = 4) :
    (a.enterMode mode).Inv where
  power := hm
  polling := fun h => absurd rfl h
  room := by simp [Model.enterMode, queueSize]
  current := by
    intro p hp
    obtain rfl := List.mem_singleton.mp hp
    exact rfl

theorem load (h : a.Inv) (data : Bytes) : (a.load data).2.Inv := by
  unfold Model.load
  split_ifs with hlen hpoll hpower
  · exact h
  · refine ⟨h.power, fun _ => hpoll.1, by simp [queueSize], ?_⟩
    intro p hp
    obtain rfl := List.mem_singleton.mp hp
    exact ⟨hpoll.1, rfl⟩
  · refine ⟨h.power, h.polling, by simp [queueSize], ?_⟩
    intro p hp
    obtain rfl := List.mem_singleton.mp hp
    exact rfl
  · exact ⟨h.power, h.polling, by simp, by simp⟩

theorem unload (h : a.Inv) : a.unload.Inv := by
  unfold Model.unload
  by_cases hpoll : a.polling ≠ 0
  · have hmode := h.polling hpoll
    simp only [if_pos hpoll, if_pos hmode]
    refine ⟨h.power, fun _ => hmode, by simp [queueSize], ?_⟩
    intro p hp
    obtain rfl := List.mem_singleton.mp hp
    exact hmode
  · simp only [if_neg hpoll]
    exact ⟨h.power, h.polling, by simp, by simp⟩

theorem perform (h : a.Inv) (r : Request)
    (hmode : r ≠ .reject → r ≠ .status → a.power = 4) : (Model.perform r a).Inv := by
  cases r with
  | reject => exact h
  | status => exact h.status
  | poll => exact h.poll (hmode (by decide) (by decide))
  | startPoll =>
      exact ⟨h.power, fun _ => hmode (by decide) (by decide), h.room, h.current⟩
  | stop =>
      exact ⟨h.power, fun hc => absurd rfl hc, by simp [Model.perform], by simp [Model.perform]⟩
  | read =>
      have hm := hmode (by decide) (by decide)
      cases ht : a.tag with
      | none => simpa [Model.perform, ht] using h
      | some tag =>
          rw [Model.read_some ht]
          refine ⟨h.power, h.polling, by simp [readPackets, queueSize], ?_⟩
          intro p hp
          simp only [readPackets, List.mem_cons, List.not_mem_nil, or_false] at hp
          rcases hp with rfl | rfl | rfl
          all_goals exact ⟨hm, ht⟩

theorem configMode_cases {args : Bytes} {mode : UInt8} (h : configMode args = some mode) :
    mode = 0 ∨ mode = 1 ∨ mode = 4 := by
  unfold configMode at h
  split at h
  · cases h
  · split_ifs at h with hm
    cases h
    exact hm

theorem step (h : a.Inv) (op : Op) : (Model.step op a).1.Inv := by
  cases op with
  | reset => exact ⟨.inl rfl, fun hc => absurd rfl hc, by simp [Model.step, Model.reset],
      by simp [Model.step, Model.reset]⟩
  | load data => exact h.load data
  | unload => exact h.unload
  | power value =>
      simp only [Model.step, Model.setPower]
      split_ifs with hv
      · exact h
      · have hcases : value = 0 ∨ value = 1 := by
          have hle : value.toNat ≤ 1 := by
            simpa [UInt8.lt_iff_toNat_lt] using hv
          rcases Nat.le_one_iff_eq_zero_or_eq_one.mp hle with h0 | h1
          · exact .inl (UInt8.toNat_inj.mp h0)
          · exact .inr (UInt8.toNat_inj.mp h1)
        exact enterMode value (hcases.imp_right Or.inl)
  | config args =>
      simp only [Model.step, Model.config]
      cases hc : configMode args with
      | none => exact h
      | some mode =>
          dsimp only
          split_ifs with heff
          · exact enterMode mode (configMode_cases hc)
          · exact h
  | command packet => exact h.perform _ fun hr hs => classify_mode hr hs
  | peek => exact h
  | commit =>
      refine ⟨h.power, h.polling, ?_, fun p hp => h.current p (List.mem_of_mem_tail hp)⟩
      have hroom := h.room
      simp only [Model.step, Model.commit, List.length_tail]
      omega

end Model.Inv

/-- Every reachable state stands for a model state that keeps the invariant. -/
theorem reachable_inv {m : Mcu} (h : machine.Reachable m) : ∃ a, Rep m a ∧ a.Inv := by
  refine h.invariant (fun m => ∃ a, Rep m a ∧ a.Inv)
    ⟨Model.boot, Rep.boot, Model.Inv.boot⟩ ?_
  rintro op m m' r ⟨a, ha, hi⟩ hs
  obtain ⟨m'', hs', hrep⟩ := step_refines ha op
  cases hs.symm.trans hs'
  exact ⟨_, hrep, hi.step op⟩

/-! ## What a pending packet says -/

/-- The tag on the reader, if any. -/
def Mcu.presentTag (m : Mcu) : Option Bytes := if m.present then some m.tag else none

/-- A packet that only speaks of the current mode and tag. -/
structure Mcu.Describes (m : Mcu) (p : Bytes) : Prop where
  status : p[0]? = some 0x01 → p[7]? = some m.powerState
  idle : p[0]? = some 0xff → m.powerState = 0
  mode : p[0]? = some 0x2a ∨ p[0]? = some 0x3a → m.powerState = 4
  contents : ∃ q : Packet, p = q.encode ∧ q.Current m.powerState m.presentTag

/-- The first byte of a packet. -/
def Packet.kind : Packet → UInt8
  | .status power => if power = 0 then 0xff else 0x01
  | .first _ | .second _ => 0x3a
  | .poll _ | .found _ _ | .trailer _ => 0x2a

theorem body_kind (q : Packet) : q.body[0]? = some q.kind := by
  cases q with
  | status power => by_cases hp : power = 0 <;> simp [Packet.body, Packet.kind, hp]
  | poll state => rfl
  | found state tag => rfl
  | first tag => rfl
  | second tag => rfl
  | trailer tag => rfl

theorem encode_kind (q : Packet) : q.encode[0]? = some q.kind := by
  have hpos : 0 < q.body.length := by
    by_contra hc
    have hnone : q.body[0]? = none := List.getElem?_eq_none (by omega)
    rw [body_kind] at hnone
    cases hnone
  rw [Packet.encode, sealPacket_getElem? hpos, body_kind]

theorem status_power {power : UInt8} (hp : power ≠ 0) :
    (Packet.status power).encode[7]? = some power := by
  have hbody : (Packet.status power).body = [1, 0, 0, 0, 8, 0, 0x1b, power] := by
    simp [Packet.body, hp]
  unfold Packet.encode
  rw [hbody, sealPacket_getElem? (by simp)]
  rfl

theorem describes_encode {m : Mcu} {q : Packet} (h : q.Current m.powerState m.presentTag) :
    m.Describes q.encode := by
  refine ⟨?_, ?_, ?_, q, rfl, h⟩
  all_goals
    intro h0
    simp only [encode_kind, Option.some.injEq] at h0
    cases q with
    | status power =>
        by_cases hp : power = 0
        · simp_all [Packet.kind, Packet.Current]
        · simp only [Packet.kind, if_neg hp] at h0
          first
            | exact h ▸ status_power hp
            | simp at h0
    | poll | found | first | second | trailer =>
        first
          | exact h
          | exact h.1
          | simp [Packet.kind] at h0

theorem reachable_describes {m : Mcu} (h : machine.Reachable m) {p : Bytes}
    (hp : p ∈ m.pending) : m.Describes p := by
  obtain ⟨a, ha, hi⟩ := reachable_inv h
  rw [ha.pending] at hp
  obtain ⟨q, hq, rfl⟩ := List.mem_map.mp hp
  have hc := hi.current q hq
  rw [ha.power, ha.tag] at hc
  exact describes_encode hc

/-! ## Two histories -/

/-- Two states nobody can tell apart by calling the module. -/
def Mcu.Alike (m n : Mcu) : Prop := ∃ a, Rep m a ∧ Rep n a

theorem alike_step (op : Op) (m n m' : Mcu) (r : List Result) (h : m.Alike n)
    (hs : step op m = some (m', r)) : ∃ n', step op n = some (n', r) ∧ m'.Alike n' := by
  obtain ⟨a, hm, hn⟩ := h
  obtain ⟨m'', hs', hm'⟩ := step_refines hm op
  obtain ⟨n', ht, hn'⟩ := step_refines hn op
  cases hs.symm.trans hs'
  exact ⟨n', ht, _, hm', hn'⟩

theorem alike_run {ops : List Op} {m n m' : Mcu} {rs : List Result} (h : m.Alike n)
    (hr : machine.run ops m = some (m', rs)) : ∃ n', machine.run ops n = some (n', rs) := by
  obtain ⟨n', hn, -⟩ := Transition.System.run_related (M := machine) Mcu.Alike alike_step h hr
  exact ⟨n', hn⟩

/-- Outside polling there is no poll state left to differ. -/
theorem load_agrees {a b : Model} (hb : b.Inv) (hpower : a.power = b.power)
    (hpolling : a.polling ≠ 0 ↔ b.polling ≠ 0) {data : Bytes} (hlen : data.length = tagSize) :
    a.load data = b.load data := by
  unfold Model.load
  rw [if_neg (not_not.mpr hlen), if_neg (not_not.mpr hlen), hpower]
  by_cases hp : b.power = 4 ∧ b.polling ≠ 0
  · rw [if_pos hp, if_pos ⟨hp.1, hpolling.mpr hp.2⟩]
  · have hbp : b.polling = 0 := by
      by_contra hc
      exact hp ⟨hb.polling hc, hc⟩
    have hap : a.polling = 0 := by
      by_contra hc
      exact hpolling.mp hc hbp
    rw [if_neg hp, if_neg (fun h => h.2 hap), hap, hbp]

theorem unload_agrees {a b : Model} (hpower : a.power = b.power)
    (hpolling : a.polling ≠ 0 ↔ b.polling ≠ 0) : a.unload = b.unload := by
  unfold Model.unload
  by_cases hp : b.polling ≠ 0
  · simp only [if_pos hp, if_pos (hpolling.mpr hp), hpower]
  · have hap : a.polling = 0 := by
      by_contra hc
      exact hp (hpolling.mp hc)
    simp [hpower, not_not.mp hp, hap]

/-- No sequence of calls faults from a represented state. -/
theorem rep_run (ops : List Op) {m : Mcu} {a : Model} (h : Rep m a) :
    ∃ m' rs, machine.run ops m = some (m', rs) := by
  obtain ⟨m', rs, hr, -⟩ := Transition.System.run_total (M := machine) (fun m => ∃ a, Rep m a)
    (fun op m ⟨a, ha⟩ => by
      obtain ⟨m', hs, hm'⟩ := step_refines ha op
      exact ⟨m', _, hs, _, hm'⟩) ops ⟨a, h⟩
  exact ⟨m', rs, hr⟩

/-- Pending packets describe the present mode and tag, and after the same load or
removal nothing that went before is visible in any later result. -/
theorem stale_tag_invisible :
    (∀ m, machine.Reachable m → ∀ p ∈ m.pending, m.Describes p) ∧
    (∀ m n, machine.Reachable m → machine.Reachable n →
      m.powerState = n.powerState → (m.pollState ≠ 0 ↔ n.pollState ≠ 0) →
      ∀ change, (change = Op.unload ∨ ∃ data, data.length = tagSize ∧ change = .load data) →
      ∀ ops, ∃ m' n' rs, machine.run (change :: ops) m = some (m', rs) ∧
        machine.run (change :: ops) n = some (n', rs)) := by
  refine ⟨fun m h p hp => reachable_describes h hp, ?_⟩
  intro m n hm hn hpower hpolling change hchange ops
  obtain ⟨a, ha, hai⟩ := reachable_inv hm
  obtain ⟨b, hb, hbi⟩ := reachable_inv hn
  rw [← ha.power, ← hb.power] at hpower
  rw [← ha.polling, ← hb.polling] at hpolling
  have hsame : Model.step change a = Model.step change b := by
    rcases hchange with rfl | ⟨data, hlen, rfl⟩
    · simp only [Model.step, unload_agrees hpower hpolling]
    · simp only [Model.step, load_agrees hbi hpower hpolling hlen]
  obtain ⟨m₁, hs, hm₁⟩ := step_refines ha change
  obtain ⟨n₁, ht, hn₁⟩ := step_refines hb change
  rw [← hsame] at ht hn₁
  obtain ⟨m', rs, hrun⟩ := rep_run ops hm₁
  obtain ⟨n', hrun'⟩ := alike_run ⟨_, hm₁, hn₁⟩ hrun
  refine ⟨m', n', [(Model.step change a).2] ++ rs, ?_, ?_⟩
  · exact Transition.System.run_cons_some.mpr ⟨m₁, _, rs, hs, hrun, rfl⟩
  · exact Transition.System.run_cons_some.mpr ⟨n₁, _, rs, ht, hrun', rfl⟩

/-- A reader that held a tag and one that never did, after the same removal. -/
theorem stale_tag_invisible_removed :
    ∃ m' n' rs, machine.run [.unload, .peek] (Mcu.boot.withTag (zeros tagSize)) = some (m', rs) ∧
      machine.run [.unload, .peek] Mcu.boot = some (n', rs) := by
  have hload : machine.step (.load (zeros tagSize)) Mcu.boot =
      some (Mcu.boot.withTag (zeros tagSize), [.accepted true]) := by
    change some _ = _
    rw [nfcLoad_off (zeros_length tagSize) rfl]
  have hstart : machine.Reachable Mcu.boot := .start machine
  exact stale_tag_invisible.2 _ _ (hstart.step hload) hstart rfl Iff.rfl .unload (.inl rfl) [.peek]

end SwitchController.Nfc
