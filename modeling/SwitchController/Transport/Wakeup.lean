import SwitchController.Transport.HidDevice
import SwitchController.Transport.Reports

/-! # The request behind a pending send

`send_pending` in the firmware stands for a request that the HID layer and L2CAP
still hold. It does as long as no event takes the interrupt channel away from
under a pending send, no answer to a control message takes the slot of that channel,
and no send is asked for while it is not open. After the first event that does one of
these the flag is set and the interrupt channel carries no request.
-/

namespace SwitchController.Transport

open Memory Device Nfc

/-! ## What the firmware asks for -/

/-- A send is promised. -/
def Firmware.Pending (f : Firmware) : Prop := f.connected = true ∧ f.sendPending = true

/-- The event makes the firmware ask for a send slot: an idle timer tick, or an output
report whose reply enters the queue while no send is pending. -/
def Firmware.Asks (f : Firmware) (e : Event) : Prop :=
  f.connected = true ∧ f.sendPending = false ∧
    (e = .inputTimer ∨ ∃ packet subcmdId, e.output = some packet ∧
      subcommand packet = some subcmdId ∧ ¬ Declines subcmdId (packet.drop 11) f.core.nfc ∧
      f.ring.count ≠ replyQueueSize)

/-- What an event does to the promise to send. -/
structure Promised (asks : Prop) (f f' : Firmware) (log : List Action) : Prop where
  asked : asks → f'.sendPending = true ∧ requests log = [f.hidCid]
  silent : ¬ asks → f'.sendPending = f.sendPending ∧ requests log = []
  connected : f'.connected = f.connected
  hidCid : f'.hidCid = f.hidCid

theorem requests_append (left right : List Action) :
    requests (left ++ right) = requests left ++ requests right := List.filterMap_append

theorem requests_core (log : List Effect) : requests (log.map .core) = [] := by
  rw [requests, List.filterMap_map]
  exact List.filterMap_eq_nil_iff.mpr fun _ _ => rfl

theorem send_promised (data : Bytes) (f : Firmware) :
    Promised (f.sendPending = false ∧ ¬ Refuses f (some data)) f
      (btstackHidSendInputReport (some data) f).1
      (btstackHidSendInputReport (some data) f).2 := by
  by_cases hr : Refuses f (some data)
  · rw [send_refused hr]
    exact ⟨fun h => absurd hr h.2, fun _ => ⟨rfl, rfl⟩, rfl, rfl⟩
  · rw [send_stored hr]
    split_ifs with hp
    · exact ⟨fun h => by simp [hp] at h, fun _ => ⟨rfl, rfl⟩, rfl, rfl⟩
    · exact ⟨fun _ => ⟨rfl, rfl⟩, fun h => absurd ⟨by simpa using hp, hr⟩ h, rfl, rfl⟩

theorem Promised.congr {asks asks' : Prop} {f f' : Firmware} {log : List Action}
    (h : Promised asks f f' log) (hiff : asks' ↔ asks) : Promised asks' f f' log :=
  ⟨fun ha => h.asked (hiff.mp ha), fun hn => h.silent fun ha => hn (hiff.mpr ha),
    h.connected, h.hidCid⟩

section Steps

variable {p : Platform} {parse : Bytes → Option CJson}

/-- An output report asks for a slot exactly when its reply is the one to start with. -/
theorem trackOutput_promised {packet : Bytes} {f f' : Firmware} {log : List Action} {a : Model}
    (ha : Rep f.core.nfc a) (hs : trackOutput p packet f = some (f', log)) :
    Promised (f.connected = true ∧ f.sendPending = false ∧ ∃ subcmdId,
      subcommand packet = some subcmdId ∧ ¬ Declines subcmdId (packet.drop 11) f.core.nfc ∧
      f.ring.count ≠ replyQueueSize) f f' log := by
  unfold trackOutput at hs
  obtain ⟨⟨core, effects⟩, hr, hd⟩ := Option.bind_eq_some_iff.mp hs
  have hpair : deliver effects { f with core } = (f', log) := Option.some.inj hd
  obtain ⟨core', effects', hr', hh⟩ := handleOutput_handled p packet ha.tag_length
  cases hr.symm.trans hr'
  have hsilent (hcalls : replies effects = [])
      (hno : ∀ subcmdId, subcommand packet = some subcmdId →
        Declines subcmdId (packet.drop 11) f.core.nfc) :
      Promised (f.connected = true ∧ f.sendPending = false ∧ ∃ subcmdId,
        subcommand packet = some subcmdId ∧ ¬ Declines subcmdId (packet.drop 11) f.core.nfc ∧
        f.ring.count ≠ replyQueueSize) f f' log := by
    rw [deliver_calls effects _ hcalls] at hpair
    cases hpair
    refine ⟨?_, fun _ => ⟨rfl, requests_core effects⟩, rfl, rfl⟩
    rintro ⟨-, -, subcmdId, hsub, hdec, -⟩
    exact absurd (hno subcmdId hsub) hdec
  cases hh with
  | ignored h hmcu => exact hsilent rfl fun id hsub => by cases h.symm.trans hsub
  | command h hcall =>
      have hsub : subcommand packet = none := by simp [subcommand, h]
      exact hsilent rfl fun id hid => by cases hsub.symm.trans hid
  | declined h hdec hlog =>
      refine hsilent ?_ fun id hsub => ?_
      · rcases hlog with rfl | ⟨op, r, -, -, rfl⟩
        · rfl
        · rfl
      · cases h.symm.trans hsub
        exact hdec
  | @replied subcmdId r h hdec hrep =>
      obtain ⟨c₁, calls, payload, hp, hfit, heq⟩ := hrep.reply
      have hcalls := (prepared_frame hp).2.2.2
      have hlen := replyReport_length c₁ subcmdId hfit
      rw [congrArg Prod.snd heq] at hpair
      change deliver (calls ++ [.reply subcmdId payload (replyReport c₁ subcmdId payload)]) _ = _
        at hpair
      rw [deliver_append calls _ _ hcalls, deliver_single] at hpair
      cases hpair
      have hsend := send_promised (replyReport c₁ subcmdId payload) { f with core := r.1 }
      have hiff : (f.connected = true ∧ f.sendPending = false ∧ ∃ subcmdId,
          subcommand packet = some subcmdId ∧ ¬ Declines subcmdId (packet.drop 11) f.core.nfc ∧
          f.ring.count ≠ replyQueueSize) ↔
          f.sendPending = false ∧
            ¬ Refuses { f with core := r.1 } (some (replyReport c₁ subcmdId payload)) := by
        simp only [Refuses, hlen, inputReportSize, not_or]
        constructor
        · rintro ⟨hc, hp, -, -, -, hroom⟩
          exact ⟨hp, by simp [hc], by omega, by omega, hroom⟩
        · rintro ⟨hp, hc, -, -, hroom⟩
          exact ⟨by simpa using hc, hp, subcmdId, h, hdec, hroom⟩
      have hall := hsend.congr hiff
      refine ⟨fun hask => ?_, fun hno => ?_, hall.connected, hall.hidCid⟩
      · refine ⟨(hall.asked hask).1, ?_⟩
        rw [requests_append, requests_core]
        exact (hall.asked hask).2
      · refine ⟨(hall.silent hno).1, ?_⟩
        rw [requests_append, requests_core]
        exact (hall.silent hno).2

/-- Events of the firmware's own. -/
def Event.own : Event → Bool
  | .inputTimer | .reportData _ _ | .setReport _ | .pcTimer _ _ => true
  | .opened _ _ | .closed | .canSendNow _ => false

theorem own_promised {e : Event} {f f' : Firmware} {log : List Action} {a : Model}
    (ha : Rep f.core.nfc a) (he : e.own = true) (hs : step p parse e f = some (f', log)) :
    Promised (f.Asks e) f f' log := by
  cases hout : e.output with
  | some packet =>
      rw [output_step hout] at hs
      refine (trackOutput_promised ha hs).congr ?_
      unfold Firmware.Asks
      constructor
      · rintro ⟨hc, hp, rfl | ⟨packet', subcmdId, hout', hsub, hdec, hroom⟩⟩
        · cases hout
        · cases hout.symm.trans hout'
          exact ⟨hc, hp, subcmdId, hsub, hdec, hroom⟩
      · rintro ⟨hc, hp, subcmdId, hsub, hdec, hroom⟩
        exact ⟨hc, hp, .inr ⟨packet, subcmdId, hout, hsub, hdec, hroom⟩⟩
  | none =>
      have hno : e ≠ .inputTimer → ¬ f.Asks e := by
        rintro hne ⟨-, -, heq | ⟨packet, -, hsome, -⟩⟩
        · exact hne heq
        · cases hout.symm.trans hsome
      cases e with
      | opened | closed | canSendNow => cases he
      | inputTimer =>
          have htimer : inputTimerHandler f = (f', log) := Option.some.inj hs
          unfold inputTimerHandler at htimer
          split_ifs at htimer with hidle
          · cases htimer
            exact ⟨fun _ => ⟨rfl, rfl⟩, fun h => absurd ⟨hidle.1, hidle.2, .inl rfl⟩ h, rfl, rfl⟩
          · cases htimer
            exact ⟨fun h => absurd ⟨h.1, h.2.1⟩ hidle, fun _ => ⟨rfl, rfl⟩, rfl, rfl⟩
      | reportData reportId report =>
          simp only [Event.output] at hout
          split_ifs at hout with hlen
          simp only [step, reportDataCallback, if_neg hlen] at hs
          cases hs
          exact ⟨fun h => absurd h (hno (by simp)), fun _ => ⟨rfl, rfl⟩, rfl, rfl⟩
      | setReport report =>
          simp only [Event.output] at hout
          split_ifs at hout with hlen
          simp only [step, setReportCallback, if_pos hlen] at hs
          cases hs
          exact ⟨fun h => absurd h (hno (by simp)), fun _ => ⟨rfl, rfl⟩, rfl, rfl⟩
      | pcTimer lines now =>
          cases hs
          exact ⟨fun h => absurd h (hno (by simp)), fun _ => ⟨rfl, requests_core _⟩, rfl, rfl⟩

end Steps

/-! ## What the device does -/

/-- Everything an opened channel can do to the device. -/
inductive Opened (status : UInt8) (psm : Psm) (cid : UInt16) (created : Option UInt16)
    (d : HidDevice) : HidDevice → Option HidEvent → Prop
  | foreign (h : ¬ d.Owns cid) : Opened status psm cid created d d none
  | failed {event : Option HidEvent} (h : d.Owns cid) (hs : status ≠ 0)
      (hevent : ∀ e ∈ event, e = .connectionOpened d.cid status) :
      Opened status psm cid created d d event
  | connects {d' : HidDevice} (h : d.Connects status psm cid) (hcid : d'.cid = d.cid)
      (hrequest : d'.userRequestCanSendNow = d.userRequestCanSendNow)
      (hconnected : d'.connected = d.connected)
      (hchannel : d'.interruptCid = created.getD d.interruptCid) :
      Opened status psm cid created d d' none
  | stored {d' : HidDevice} (h : d.Owns cid) (hs : status = 0)
      (hc : ¬ d.Connects status psm cid) (hcid : d'.cid = d.cid)
      (hrequest : d'.userRequestCanSendNow = d.userRequestCanSendNow)
      (hconnected : d'.connected = d.connected)
      (hchannel : d'.interruptCid = if psm = .interrupt then cid else d.interruptCid) :
      Opened status psm cid created d d' none
  | paired {d' : HidDevice} (h : d.Owns cid) (hidle : d.connected = false) (hcid : d'.cid = d.cid)
      (hconnected : d'.connected = true) :
      Opened status psm cid created d d' (some (.connectionOpened d'.cid 0))

theorem channelOpened_opened (status : UInt8) (psm : Psm) (handle cid : UInt16)
    (created : Option UInt16) (d : HidDevice) :
    Opened status psm cid created d (channelOpened status psm handle cid created d).1
      (channelOpened status psm handle cid created d).2 := by
  unfold channelOpened
  by_cases howns : d.Owns cid
  swap
  · rw [if_pos howns]
    exact .foreign howns
  rw [if_neg (not_not.mpr howns)]
  by_cases hstatus : status = 0
  swap
  · rw [if_pos hstatus]
    refine .failed howns hstatus ?_
    split_ifs <;> simp
  · rw [if_neg (not_not.mpr hstatus)]
    dsimp only
    generalize hd : (if d.conHandle = hciConHandleInvalid then { d with conHandle := handle }
      else d).storeCid psm cid = d₁
    have hfields : d₁.cid = d.cid ∧ d₁.incoming = d.incoming ∧ d₁.connected = d.connected ∧
        d₁.userRequestCanSendNow = d.userRequestCanSendNow ∧
        d₁.interruptCid = if psm = .interrupt then cid else d.interruptCid := by
      rw [← hd]
      by_cases hinvalid : d.conHandle = hciConHandleInvalid
      · cases psm <;> simp [HidDevice.storeCid, hinvalid]
      · cases psm <;> simp [HidDevice.storeCid, hinvalid]
    obtain ⟨hcid, hincoming, hconnected, hrequest, hchannel⟩ := hfields
    rw [hincoming, hconnected]
    by_cases hconnect : d.incoming = false ∧ psm = .control
    · rw [if_pos hconnect]
      refine .connects ⟨howns, hstatus, hconnect⟩ hcid hrequest rfl ?_
      rw [hconnect.2] at hchannel
      exact congrArg created.getD hchannel
    rw [if_neg hconnect]
    by_cases hpair : d.connected = false ∧ d₁.controlCid ≠ 0 ∧ d₁.interruptCid ≠ 0
    · rw [if_pos hpair]
      exact .paired howns hpair.1 hcid rfl
    · rw [if_neg hpair]
      exact .stored howns hstatus (fun h => hconnect h.2.2) hcid hrequest hconnected hchannel

/-- Everything a closed channel can do to the device. -/
inductive Closed (cid : UInt16) (d : HidDevice) : HidDevice → Option HidEvent → Prop
  | foreign (h : ¬ d.Owns cid) : Closed cid d d none
  | half {d' : HidDevice} (h : d.Owns cid) (hcid : d'.cid = d.cid)
      (hrequest : d'.userRequestCanSendNow = d.userRequestCanSendNow)
      (hconnected : d'.connected = d.connected)
      (hchannel : d'.interruptCid = if cid = d.interruptCid then 0 else d.interruptCid)
      (hleft : cid = d.interruptCid → d.controlCid ≠ 0 ∧ d.controlCid ≠ cid) :
      Closed cid d d' none
  | last {d' : HidDevice} (h : d.Owns cid) (hchannel : d'.interruptCid = 0)
      (hcontrol : d'.controlCid = 0)
      (hlast : cid = d.interruptCid → d.controlCid = 0 ∨ d.controlCid = cid) :
      Closed cid d d' (some .connectionClosed)

theorem channelClosed_closed (cid : UInt16) (d : HidDevice) :
    Closed cid d (channelClosed cid d).1 (channelClosed cid d).2 := by
  unfold channelClosed
  by_cases howns : d.Owns cid
  swap
  · rw [if_pos howns]
    exact .foreign howns
  rw [if_neg (not_not.mpr howns)]
  dsimp only
  by_cases hinterrupt : cid = d.interruptCid
  · by_cases hcontrol : cid = d.controlCid
    · simp only [if_pos hinterrupt, if_pos hcontrol, and_self, if_true]
      exact .last howns rfl rfl fun _ => .inr hcontrol.symm
    · simp only [if_pos hinterrupt, if_neg hcontrol, true_and]
      split_ifs with hzero
      · exact .last howns rfl hzero fun _ => .inl hzero
      · exact .half howns rfl rfl rfl (by simp [hinterrupt]) fun _ =>
          ⟨hzero, fun h => hcontrol h.symm⟩
  · by_cases hcontrol : cid = d.controlCid
    · simp only [if_neg hinterrupt, if_pos hcontrol, and_true]
      split_ifs with hzero
      · exact .last howns hzero rfl fun h => absurd h hinterrupt
      · exact .half howns rfl rfl rfl (by simp [hinterrupt]) fun h => absurd h hinterrupt
    · exact absurd howns (by
        rintro (h | h)
        · exact hcontrol h.symm
        · exact hinterrupt h.symm)

/-! ## What the firmware hears -/

/-- What an event of the device does to the firmware. -/
inductive Heard (f : Firmware) : Option HidEvent → Firmware → Prop
  | nothing : Heard f none f
  | failed {cid : UInt16} {status : UInt8} (hs : status ≠ 0) :
      Heard f (some (.connectionOpened cid status)) f
  | opened {cid : UInt16} {f' : Firmware} (hconnected : f'.connected = true)
      (hpending : f'.sendPending = false) (hcid : f'.hidCid = cid) :
      Heard f (some (.connectionOpened cid 0)) f'
  | closed {f' : Firmware} (hconnected : f'.connected = false) :
      Heard f (some .connectionClosed) f'
  | slot {f' : Firmware} (hconnected : f'.connected = f.connected) (hcid : f'.hidCid = f.hidCid)
      (hpending : ¬ f'.Pending) : Heard f (some .canSendNow) f'

theorem Heard.pending {f f' : Firmware} {event : Option HidEvent} (h : Heard f event f')
    (hp : f'.Pending) : f.Pending := by
  cases h with
  | nothing => exact hp
  | failed => exact hp
  | opened _ hpending => exact absurd (hp.2.symm.trans hpending) (by decide)
  | closed hconnected => exact absurd (hp.1.symm.trans hconnected) (by decide)
  | slot _ _ hpending => exact absurd hp hpending

theorem sendNextReport_slot (ok : Bool) (f : Firmware) :
    (sendNextReport ok f).1.sendPending = false ∧ (sendNextReport ok f).1.connected = f.connected ∧
      (sendNextReport ok f).1.hidCid = f.hidCid ∧ requests (sendNextReport ok f).2 = [] := by
  unfold sendNextReport
  dsimp only
  split_ifs
  · cases ok <;> exact ⟨rfl, rfl, rfl, rfl⟩
  · unfold sendStream
    dsimp only
    split
    all_goals cases ok <;> exact ⟨rfl, rfl, rfl, rfl⟩

section Stacks

variable {p : Platform} {parse : Bytes → Option CJson} {descriptor : Descriptor}

theorem firmwareStep_some {e : Event} {s s' : Stack} {log : List Action}
    (hs : s.firmwareStep p parse e = some (s', log)) :
    ∃ f, step p parse e s.firmware = some (f, log) ∧
      s' = (requests log).foldl (fun s cid => s.request cid) { s with firmware := f } := by
  obtain ⟨⟨f, actions⟩, hr, heq⟩ := Option.map_eq_some_iff.mp hs
  cases heq
  exact ⟨f, hr, rfl⟩

/-- Hearing an event asks for nothing. -/
theorem hidEvent_heard {ok : Bool} {event : HidEvent} {s s' : Stack} {log : List Action}
    (hs : s.firmwareStep p parse (s.hidEvent ok event) = some (s', log)) :
    ∃ f, Heard s.firmware (some event) f ∧ s' = { s with firmware := f } := by
  obtain ⟨f, hr, rfl⟩ := firmwareStep_some hs
  have hpair {r : Firmware × List Action} (hsome : some r = some (f, log))
      (hquiet : requests r.2 = []) : requests log = [] ∧ f = r.1 := by
    cases hsome
    exact ⟨hquiet, rfl⟩
  cases event with
  | connectionOpened cid status =>
      by_cases hstatus : status = 0
      · subst hstatus
        have hquiet : requests (connectionOpened 0 cid s.firmware).2 = [] := requests_core _
        obtain ⟨hnone, rfl⟩ := hpair hr hquiet
        rw [hnone]
        exact ⟨_, .opened rfl rfl rfl, rfl⟩
      · have hsame : connectionOpened status cid s.firmware = (s.firmware, []) := if_pos hstatus
        obtain ⟨hnone, rfl⟩ := hpair hr (by rw [hsame]; rfl)
        rw [hnone, hsame]
        exact ⟨_, .failed hstatus, rfl⟩
  | connectionClosed =>
      have hquiet : requests (connectionClosed s.firmware).2 = [] := requests_core _
      obtain ⟨hnone, rfl⟩ := hpair hr hquiet
      rw [hnone]
      exact ⟨_, .closed rfl, rfl⟩
  | canSendNow =>
      simp only [Stack.hidEvent, step] at hr
      split_ifs at hr with hpending
      · obtain ⟨hfree, hconnected, hcid, hquiet⟩ := sendNextReport_slot
          (hidDeviceSendInterruptMessage s.firmware.hidCid ok s.device) s.firmware
        obtain ⟨hnone, rfl⟩ := hpair hr hquiet
        rw [hnone]
        have hslot := Heard.slot hconnected hcid fun h => by cases h.2.symm.trans hfree
        exact ⟨_, hslot, rfl⟩
      · obtain ⟨hnone, rfl⟩ := hpair hr rfl
        rw [hnone]
        exact ⟨_, .slot rfl rfl hpending, rfl⟩

theorem notify_heard {ok : Bool} {event : Option HidEvent} {s s' : Stack} {log : List Action}
    (hs : s.notify p parse ok event = some (s', log)) :
    ∃ f, Heard s.firmware event f ∧ s' = { s with firmware := f } := by
  cases event with
  | none =>
      cases hs
      exact ⟨_, .nothing, rfl⟩
  | some event => exact hidEvent_heard hs

theorem firmwareStep_reachable {e : Event} {s s' : Stack} {log : List Action}
    (h : (firmware p parse).Reachable s.firmware)
    (hs : s.firmwareStep p parse e = some (s', log)) :
    (firmware p parse).Reachable s'.firmware := by
  obtain ⟨f, hr, rfl⟩ := firmwareStep_some hs
  have hframe (cids : List UInt16) (s : Stack) :
      (cids.foldl (fun s cid => s.request cid) s).firmware = s.firmware := by
    induction cids generalizing s with
    | nil => rfl
    | cons cid cids ih =>
        rw [List.foldl_cons, ih]
        unfold Stack.request
        dsimp only
        split <;> rfl
  have hstep : (firmware p parse).step e s.firmware = some (f, log) := hr
  rw [hframe]
  exact h.step hstep

theorem callback_reachable {event : Option Event} {s s' : Stack} {log : List Action}
    (hs : s.callback p parse event = some (s', log))
    (h : (firmware p parse).Reachable s.firmware) :
    (firmware p parse).Reachable s'.firmware := by
  cases event with
  | none =>
      cases hs
      exact h
  | some event => exact firmwareStep_reachable h hs

theorem notify_reachable {ok : Bool} {event : Option HidEvent} {s s' : Stack}
    {log : List Action} (hs : s.notify p parse ok event = some (s', log))
    (h : (firmware p parse).Reachable s.firmware) :
    (firmware p parse).Reachable s'.firmware := by
  cases event with
  | none =>
      cases hs
      exact h
  | some event => exact firmwareStep_reachable h hs

/-- The firmware inside the stack is in a state it reaches on its own. -/
theorem step_reachable {e : LinkEvent} {s s' : Stack} {log : List Action}
    (h : (firmware p parse).Reachable s.firmware)
    (hs : Stack.step p parse descriptor e s = some (s', log)) :
    (firmware p parse).Reachable s'.firmware := by
  cases e with
  | incoming psm handle cid =>
      simp only [Stack.step] at hs
      split_ifs at hs
      · cases hs
        exact h
      · cases hs
        exact h
  | channelOpened status handle cid created =>
      simp only [Stack.step] at hs
      split at hs
      · cases hs
        exact h
      · split_ifs at hs
        · cases hs
          exact h
        · exact notify_reachable hs h
  | channelClosed cid =>
      simp only [Stack.step] at hs
      split_ifs at hs
      · cases hs
        exact h
      · exact notify_reachable hs h
  | canSendNow cid ok =>
      simp only [Stack.step] at hs
      split at hs
      · cases hs
        exact h
      · split_ifs at hs
        · cases hs
          exact h
        · exact notify_reachable hs h
        · exact notify_reachable hs h
  | dataPacket cid packet =>
      simp only [Stack.step] at hs
      split at hs
      · cases hs
        exact h
      · split_ifs at hs
        · cases hs
          exact h
        all_goals
          obtain ⟨⟨s₁, log₁⟩, hr, heq⟩ := Option.map_eq_some_iff.mp hs
          cases heq
          have hcall := callback_reachable hr h
          exact hcall
  | inputTimer | pcTimer => exact firmwareStep_reachable h hs

end Stacks

/-! ## Firmware and device -/

/-- The two sides agree on the connection, and ids that are zero stand for nothing. -/
structure Coupled (s : Stack) : Prop where
  cid : s.firmware.connected = true →
    s.device.cid = s.firmware.hidCid ∧ s.device.cid ≠ 0 ∧ s.device.connected = true
  idle : s.device.cid = 0 → s.device.controlCid = 0 ∧ s.device.interruptCid = 0
  zero : s.l2cap 0 = none

namespace Coupled

theorem boot : Coupled Stack.boot where
  cid := fun h => by cases h
  idle := fun _ => ⟨rfl, rfl⟩
  zero := rfl

variable {s : Stack}

theorem ne_zero (h : Coupled s) {cid : UInt16} {ch : Channel} (hch : s.l2cap cid = some ch) :
    cid ≠ 0 := by
  rintro rfl
  cases h.zero.symm.trans hch

/-- A device that owns a channel is set up. -/
theorem owned (h : Coupled s) {cid : UInt16} {ch : Channel} (hch : s.l2cap cid = some ch)
    (ho : s.device.Owns cid) : s.device.cid ≠ 0 := by
  intro hzero
  obtain ⟨hcontrol, hinterrupt⟩ := h.idle hzero
  rcases ho with hc | hi
  · exact h.ne_zero hch (hc.symm.trans hcontrol)
  · exact h.ne_zero hch (hi.symm.trans hinterrupt)

end Coupled

/-- The device holds a request that L2CAP will serve, on an interrupt channel that is open. -/
def HidDevice.Requested (d : HidDevice) (l : L2cap) : Prop :=
  d.userRequestCanSendNow = true ∧
    ∃ ch, l d.interruptCid = some ch ∧ ch.opened = true ∧ ch.waitingForCanSendNow = true

def Stack.Awake (s : Stack) : Prop := s.firmware.Pending → s.device.Requested s.l2cap

/-- The interrupt channel is open. -/
def Stack.Open (s : Stack) : Prop :=
  ∃ ch, s.l2cap s.device.interruptCid = some ch ∧ ch.opened = true

/-- A data packet reaches the device. -/
def Stack.Receives (s : Stack) (cid : UInt16) : Prop :=
  s.device.Owns cid ∧ ∃ ch, s.l2cap cid = some ch ∧ ch.opened = true

/-- While a send is pending no event closes or replaces the interrupt channel, unless it
disconnects, and no slot of that channel comes while an answer is due; and a slot is only
asked for while that channel is open. -/
def Stack.Allows (descriptor : Descriptor) (s : Stack) : LinkEvent → Prop
  | .incoming psm handle cid =>
      s.firmware.Pending → s.l2cap.Fresh cid → s.device.Admits handle → psm ≠ .interrupt
  | .channelOpened status _ cid created =>
      s.firmware.Pending → ∀ ch, s.l2cap cid = some ch → ch.opened = false →
        (∀ new ∈ created, s.l2cap.Fresh new) →
        (s.device.Connects status ch.psm cid → created = none) ∧
        (status = 0 → s.device.Owns cid → ch.psm = .interrupt → ch.waitingForCanSendNow = true)
  | .channelClosed cid =>
      s.firmware.Pending → cid = s.device.interruptCid →
        s.device.controlCid = 0 ∨ s.device.controlCid = cid
  | .canSendNow cid _ =>
      s.firmware.Pending → cid = s.device.interruptCid →
        s.device.state = .idle ∨ s.device.controlCid = cid
  | .dataPacket cid packet =>
      s.Receives cid → ∀ event, (dataPacket descriptor packet s.device).2.1 = some event →
        s.firmware.Asks event → s.Open
  | .inputTimer => s.firmware.Asks .inputTimer → s.Open
  | .pcTimer _ _ => True

/-- One step, taken from a coupled state with its request held. -/
structure Kept (descriptor : Descriptor) (s : Stack) (e : LinkEvent) (s' : Stack) : Prop where
  coupled : Coupled s'
  awake : s.Allows descriptor e ↔ s'.Awake

section Stacks

variable {p : Platform} {parse : Bytes → Option CJson} {descriptor : Descriptor}

theorem HidDevice.Requested.frame {d d' : HidDevice} {l l' : L2cap} (h : d.Requested l)
    (hrequest : d'.userRequestCanSendNow = d.userRequestCanSendNow)
    (hcid : d'.interruptCid = d.interruptCid) (hl : l' d.interruptCid = l d.interruptCid) :
    d'.Requested l' := by
  obtain ⟨huser, ch, hch, hopen, hwait⟩ := h
  exact ⟨hrequest.trans huser, ch, by rw [hcid, hl, hch], hopen, hwait⟩

/-! ## Requests -/

theorem l2capRequest_none {cid c : UInt16} {l : L2cap} (h : l c = none) :
    l2capRequestCanSendNowEvent cid l c = none := by
  unfold l2capRequestCanSendNowEvent
  cases hch : l cid with
  | none => exact h
  | some ch =>
      refine (Function.update_of_ne ?_ _ _).trans h
      intro heq
      rw [heq, hch] at h
      cases h

/-- A channel stays open, and on its own channel a request is a wait. -/
theorem l2capRequest_some {cid c : UInt16} {l : L2cap} {ch : Channel} (h : l c = some ch) :
    l2capRequestCanSendNowEvent cid l c = some { ch with
      waitingForCanSendNow := ch.waitingForCanSendNow || decide (c = cid) } := by
  unfold l2capRequestCanSendNowEvent
  by_cases heq : c = cid
  · subst heq
    simp [h]
  · have hother : Function.update l cid
        (some { (l cid).getD ch with waitingForCanSendNow := true }) c = l c :=
      Function.update_of_ne heq _ _
    cases hch : l cid with
    | none => simp [h, heq]
    | some held =>
        rw [hch] at hother
        simp only [heq, decide_false, Bool.or_false]
        exact hother.trans h

/-- Asking for a slot opens and closes nothing. -/
theorem l2capRequest_open {cid c : UInt16} {l : L2cap} :
    (∃ ch, l2capRequestCanSendNowEvent cid l c = some ch ∧ ch.opened = true) ↔
      ∃ ch, l c = some ch ∧ ch.opened = true := by
  cases hch : l c with
  | none => simp [l2capRequest_none hch]
  | some ch => simp [l2capRequest_some hch]

theorem HidDevice.Requested.again {d : HidDevice} {l : L2cap} (h : d.Requested l)
    (cid : UInt16) : d.Requested (l2capRequestCanSendNowEvent cid l) := by
  obtain ⟨huser, ch, hch, hopen, hwait⟩ := h
  exact ⟨huser, _, l2capRequest_some hch, hopen, by simp [hwait]⟩

theorem requestControl_coupled {s : Stack} (h : Coupled s) : Coupled s.requestControl :=
  ⟨h.cid, h.idle, l2capRequest_none h.zero⟩

theorem requestControl_awake {s : Stack} (h : s.Awake) : s.requestControl.Awake :=
  fun hp => (h hp).again _

theorem request_zero {s : Stack} (h : s.device.interruptCid = 0) (cid : UInt16) :
    s.request cid = s := by
  simp [Stack.request, hidDeviceRequestCanSendNowEvent, h]

theorem request_some {s : Stack} (h : s.device.interruptCid ≠ 0) :
    s.request s.device.cid = { s with
      device := { s.device with userRequestCanSendNow := true }
      l2cap := l2capRequestCanSendNowEvent s.device.interruptCid s.l2cap } := by
  simp [Stack.request, hidDeviceRequestCanSendNowEvent, h]

/-- What asking for a slot does, whether the device has an interrupt channel or not. -/
structure Asked (s s' : Stack) : Prop where
  coupled : Coupled s'
  opened : s'.Open ↔ s.Open
  requested : s.Open → s'.device.Requested s'.l2cap

theorem request_asked {s : Stack} (h : Coupled s) : Asked s (s.request s.device.cid) := by
  by_cases h0 : s.device.interruptCid = 0
  · rw [request_zero h0]
    refine ⟨h, Iff.rfl, ?_⟩
    rintro ⟨ch, hch, -⟩
    rw [h0] at hch
    cases h.zero.symm.trans hch
  · rw [request_some h0]
    refine ⟨⟨h.cid, h.idle, l2capRequest_none h.zero⟩, l2capRequest_open, ?_⟩
    rintro ⟨ch, hch, hopen⟩
    exact ⟨rfl, _, l2capRequest_some hch, hopen, by simp⟩

/-- What a callback into the firmware does: it asks for a slot at most once. -/
structure Called (s : Stack) (asks : Prop) (s' : Stack) : Prop where
  coupled : Coupled s'
  opened : s'.Open ↔ s.Open
  pending : asks → s'.firmware.Pending
  awake : (asks → s.Open) → s'.Awake

theorem firmwareStep_called {event : Event} {s s' : Stack} {log : List Action} {a : Model}
    (hown : event.own = true) (ha : Rep s.firmware.core.nfc a) (hc : Coupled s) (hw : s.Awake)
    (hs : s.firmwareStep p parse event = some (s', log)) :
    Called s (s.firmware.Asks event) s' := by
  obtain ⟨f, hr, rfl⟩ := firmwareStep_some hs
  have hp := own_promised ha hown hr
  have hcoupled : Coupled { s with firmware := f } := by
    refine ⟨fun h => ?_, hc.idle, hc.zero⟩
    rw [hp.hidCid]
    exact hc.cid (hp.connected.symm.trans h)
  by_cases hask : s.firmware.Asks event
  · obtain ⟨hpending, hrequests⟩ := hp.asked hask
    have hcid := (hc.cid hask.1).1
    have hasked := request_asked hcoupled
    have hfirmware : ({ s with firmware := f }.request s.device.cid).firmware = f := by
      unfold Stack.request
      dsimp only
      split <;> rfl
    rw [hrequests, List.foldl_cons, List.foldl_nil, ← hcid]
    refine ⟨hasked.coupled, hasked.opened, fun _ => ?_, fun hopen _ => ?_⟩
    · rw [hfirmware]
      exact ⟨hp.connected.trans hask.1, hpending⟩
    · exact hasked.requested (hopen hask)
  · obtain ⟨hpending, hrequests⟩ := hp.silent hask
    rw [hrequests]
    refine ⟨hcoupled, Iff.rfl, fun h => absurd h hask, fun _ hnow => ?_⟩
    exact hw ⟨hp.connected.symm.trans hnow.1, hpending.symm.trans hnow.2⟩

/-- A send that is promised with a request was promised on an open channel. -/
theorem Called.awake_iff {s s' : Stack} {asks : Prop} (h : Called s asks s') :
    (asks → s.Open) ↔ s'.Awake := by
  refine ⟨h.awake, fun hawake hask => h.opened.mp ?_⟩
  obtain ⟨-, ch, hch, hopen, -⟩ := hawake (h.pending hask)
  exact ⟨ch, hch, hopen⟩

theorem Called.control {s s' : Stack} {asks : Prop} (h : Called s asks s') :
    Called s asks s'.requestControl :=
  ⟨requestControl_coupled h.coupled, l2capRequest_open.trans h.opened, h.pending,
    fun hopen => requestControl_awake (h.awake hopen)⟩

theorem callback_called {event : Option Event} {s s' : Stack} {log : List Action} {a : Model}
    (hown : ∀ e ∈ event, e.own = true) (ha : Rep s.firmware.core.nfc a) (hc : Coupled s)
    (hw : s.Awake) (hs : s.callback p parse event = some (s', log)) :
    Called s (∃ e, event = some e ∧ s.firmware.Asks e) s' := by
  cases event with
  | none =>
      cases hs
      refine ⟨hc, Iff.rfl, ?_, fun _ => hw⟩
      rintro ⟨e, he, -⟩
      cases he
  | some event =>
      have hcalled := firmwareStep_called (hown event rfl) ha hc hw hs
      refine ⟨hcalled.coupled, hcalled.opened, ?_, fun hopen => hcalled.awake fun hask => ?_⟩
      · rintro ⟨e, he, hask⟩
        cases he
        exact hcalled.pending hask
      · exact hopen ⟨event, rfl, hask⟩

/-! ## Link events -/

theorem provideInstance_same {d : HidDevice} (h : d.cid ≠ 0) : hidDeviceProvideInstance d = d :=
  if_neg h

theorem provideInstance_cid (d : HidDevice) : (hidDeviceProvideInstance d).cid ≠ 0 := by
  by_cases h : d.cid = 0
  · rw [hidDeviceProvideInstance, if_pos h]
    change hidDeviceGetNextCid d ≠ 0
    unfold hidDeviceGetNextCid
    split_ifs with hnext
    · decide
    · exact hnext
  · rw [provideInstance_same h]
    exact h

theorem storeCid_fields (d : HidDevice) (psm : Psm) (cid : UInt16) :
    (d.storeCid psm cid).cid = d.cid ∧ (d.storeCid psm cid).connected = d.connected ∧
      (d.storeCid psm cid).userRequestCanSendNow = d.userRequestCanSendNow ∧
      (d.storeCid psm cid).interruptCid = if psm = .interrupt then cid else d.interruptCid := by
  cases psm <;> exact ⟨rfl, rfl, rfl, rfl⟩

theorem incoming_kept {psm : Psm} {handle cid : UInt16} {s : Stack} (hc : Coupled s)
    (hw : s.Awake) (hfresh : s.l2cap.Fresh cid) :
    Kept descriptor s (.incoming psm handle cid) (s.incoming psm handle cid) := by
  have hset := provideInstance_cid s.device
  unfold Stack.incoming incomingConnection
  dsimp only
  by_cases hadmit : (hidDeviceProvideInstance s.device).Admits handle
  · simp only [if_pos hadmit, if_true]
    obtain ⟨hcid, hconnected, hrequest, hchannel⟩ := storeCid_fields
      { hidDeviceProvideInstance s.device with conHandle := handle, incoming := true } psm cid
    refine ⟨⟨fun h => ?_, fun h => absurd (hcid.symm.trans h) hset, ?_⟩, ?_⟩
    · obtain ⟨hsame, hne, hup⟩ := hc.cid h
      rw [hcid, hconnected, provideInstance_same hne]
      exact ⟨hsame, hne, hup⟩
    · exact (Function.update_of_ne (Ne.symm hfresh.1) _ _).trans hc.zero
    · constructor
      · intro hallow hp
        have hne := (hc.cid hp.1).2.1
        rw [provideInstance_same hne] at hadmit hrequest hchannel ⊢
        have hpsm := hallow hp hfresh hadmit
        rw [if_neg hpsm] at hchannel
        obtain ⟨-, ch, hch, -⟩ := id (hw hp)
        refine (hw hp).frame hrequest hchannel (Function.update_of_ne ?_ _ _)
        intro heq
        rw [heq] at hch
        cases hfresh.2.symm.trans hch
      · intro hnow hp _ _ hpsm
        rw [if_pos hpsm] at hchannel
        obtain ⟨-, ch, hch, hopen, -⟩ := hnow hp
        have hnew : s.l2cap.add cid psm cid =
            some { psm, opened := false, waitingForCanSendNow := false } :=
          Function.update_self ..
        simp only [hchannel] at hch
        cases hnew.symm.trans hch
        cases hopen
  · simp only [if_neg hadmit, Bool.false_eq_true, if_false]
    refine ⟨⟨fun h => ?_, fun h => absurd h hset, hc.zero⟩, ?_⟩
    · obtain ⟨hsame, hne, hup⟩ := hc.cid h
      rw [provideInstance_same hne]
      exact ⟨hsame, hne, hup⟩
    · constructor
      · intro _ hp
        rw [provideInstance_same (hc.cid hp.1).2.1]
        exact hw hp
      · intro _ hp _ hadmit' _
        rw [provideInstance_same (hc.cid hp.1).2.1] at hadmit
        exact hadmit hadmit'

theorem openedChannels_other {status : UInt8} {cid x : UInt16} {ch : Channel}
    {created : Option UInt16} (s : Stack) (hx : x ≠ cid) (hnew : ∀ new ∈ created, x ≠ new) :
    s.openedChannels status cid ch created x = s.l2cap x := by
  have hbase : (if status ≠ 0 then s.l2cap.remove cid
      else Function.update s.l2cap cid (some { ch with opened := true })) x = s.l2cap x := by
    split_ifs
    · exact Function.update_of_ne hx _ _
    · exact Function.update_of_ne hx _ _
  unfold Stack.openedChannels
  cases created with
  | none => exact hbase
  | some new =>
      dsimp only
      by_cases hconnects : s.device.Connects status ch.psm cid
      · rw [if_pos hconnects]
        exact (Function.update_of_ne (hnew new rfl) _ _).trans hbase
      · rw [if_neg hconnects]
        exact hbase

/-- The interrupt channel that L2CAP makes when the control channel is up. -/
theorem openedChannels_new {status : UInt8} {cid new : UInt16} {ch : Channel} {s : Stack}
    (hconnects : s.device.Connects status ch.psm cid) :
    s.openedChannels status cid ch (some new) new =
      some { psm := .interrupt, opened := false, waitingForCanSendNow := false } := by
  unfold Stack.openedChannels
  simp only [if_pos hconnects]
  exact Function.update_self ..

/-- A channel that opens without another one being made. -/
theorem openedChannels_self {status : UInt8} {cid : UInt16} {ch : Channel}
    {created : Option UInt16} {s : Stack} (hstatus : status = 0)
    (hno : ¬ s.device.Connects status ch.psm cid) :
    s.openedChannels status cid ch created cid = some { ch with opened := true } := by
  unfold Stack.openedChannels
  cases created with
  | none => simp [hstatus]
  | some new =>
      simp only [if_neg hno]
      simp [hstatus]

theorem Coupled.openedChannels_zero {status : UInt8} {cid : UInt16} {created : Option UInt16}
    {ch : Channel} {s : Stack} (hc : Coupled s) (hch : s.l2cap cid = some ch)
    (hfresh : ∀ new ∈ created, s.l2cap.Fresh new) :
    s.openedChannels status cid ch created 0 = none := by
  refine (openedChannels_other s (Ne.symm (hc.ne_zero hch)) fun new hnew => ?_).trans hc.zero
  exact Ne.symm (hfresh new hnew).1

/-- The channel a request waits on is neither the one that opens nor a new one. -/
theorem Stack.Awake.openedChannels {status : UInt8} {cid : UInt16} {created : Option UInt16}
    {ch : Channel} {s : Stack} (hw : s.Awake) (hch : s.l2cap cid = some ch)
    (hclosed : ch.opened = false) (hfresh : ∀ new ∈ created, s.l2cap.Fresh new)
    (hp : s.firmware.Pending) :
    s.openedChannels status cid ch created s.device.interruptCid =
      s.l2cap s.device.interruptCid := by
  obtain ⟨-, held, hheld, hopen, -⟩ := hw hp
  refine openedChannels_other s ?_ fun new hnew => ?_
  · intro heq
    rw [heq, hch] at hheld
    cases hheld
    cases hclosed.symm.trans hopen
  · intro heq
    rw [heq, (hfresh new hnew).2] at hheld
    cases hheld

theorem allows_opened {status : UInt8} {handle cid : UInt16} {created : Option UInt16}
    {ch : Channel} {s : Stack} (hch : s.l2cap cid = some ch) (hclosed : ch.opened = false)
    (hfresh : ∀ new ∈ created, s.l2cap.Fresh new) :
    s.Allows descriptor (.channelOpened status handle cid created) ↔
      (s.firmware.Pending → (s.device.Connects status ch.psm cid → created = none) ∧
        (status = 0 → s.device.Owns cid → ch.psm = .interrupt →
          ch.waitingForCanSendNow = true)) := by
  constructor
  · exact fun h hp => h hp ch hch hclosed hfresh
  · intro h hp ch' hch' _ _
    cases hch.symm.trans hch'
    exact h hp

theorem opened_kept {status : UInt8} {handle cid : UInt16} {created : Option UInt16}
    {ch : Channel} {s : Stack} {d : HidDevice} {event : Option HidEvent} {f : Firmware}
    (hc : Coupled s) (hw : s.Awake) (hch : s.l2cap cid = some ch) (hclosed : ch.opened = false)
    (hfresh : ∀ new ∈ created, s.l2cap.Fresh new)
    (hd : Opened status ch.psm cid created s.device d event) (hf : Heard s.firmware event f) :
    Kept descriptor s (.channelOpened status handle cid created)
      { l2cap := s.openedChannels status cid ch created, device := d, firmware := f } := by
  have hzero : s.openedChannels status cid ch created 0 = none :=
    hc.openedChannels_zero hch hfresh
  have hother (hp : s.firmware.Pending) :
      s.openedChannels status cid ch created s.device.interruptCid =
        s.l2cap s.device.interruptCid := hw.openedChannels hch hclosed hfresh hp
  have hallows := @allows_opened descriptor status handle cid created ch s hch hclosed hfresh
  have hcid {d' : HidDevice} (hf : Heard s.firmware none f) (hsame : d'.cid = s.device.cid)
      (hup : d'.connected = s.device.connected) (h : f.connected = true) :
      d'.cid = f.hidCid ∧ d'.cid ≠ 0 ∧ d'.connected = true := by
    cases hf
    rw [hsame, hup]
    exact hc.cid h
  cases hd with
  | foreign howns =>
      refine ⟨⟨hcid hf rfl rfl, hc.idle, hzero⟩, hallows.trans ?_⟩
      refine ⟨fun _ hp => ?_, fun _ _ => ⟨fun h => absurd h.1 howns, fun _ h => absurd h howns⟩⟩
      exact (hw (hf.pending hp)).frame rfl rfl (hother (hf.pending hp))
  | failed howns hstatus hevent =>
      have hsame : f = s.firmware := by
        cases hf with
        | nothing => rfl
        | failed => rfl
        | opened =>
            cases hevent _ rfl
            exact absurd rfl hstatus
        | closed => cases hevent _ rfl
        | slot => cases hevent _ rfl
      refine ⟨⟨fun h => ?_, hc.idle, hzero⟩, hallows.trans ?_⟩
      · rw [hsame] at h ⊢
        exact hc.cid h
      · refine ⟨fun _ hp => ?_, fun _ _ => ⟨fun h => absurd h.2.1 hstatus,
          fun h => absurd h hstatus⟩⟩
        exact (hw (hf.pending hp)).frame rfl rfl (hother (hf.pending hp))
  | connects hconnects hsame hrequest hup hchannel =>
      have hidle : s.device.cid ≠ 0 := hc.owned hch hconnects.1
      refine ⟨⟨hcid hf hsame hup, fun h => absurd (hsame.symm.trans h) hidle, hzero⟩,
        hallows.trans ?_⟩
      have hpsm : ch.psm ≠ .interrupt := by simp [hconnects.2.2.2]
      cases created with
      | none =>
          refine ⟨fun _ hp => ?_, fun _ _ => ⟨fun _ => rfl, fun _ _ h => absurd h hpsm⟩⟩
          exact (hw (hf.pending hp)).frame hrequest hchannel (hother (hf.pending hp))
      | some new =>
          have hnew : s.openedChannels status cid ch (some new) new = _ :=
            openedChannels_new hconnects
          constructor
          · intro h hp
            cases (h (hf.pending hp)).1 hconnects
          · intro hnow hp
            cases hf
            obtain ⟨-, held, hheld, hopen, -⟩ := hnow hp
            simp only [hchannel, Option.getD_some, hnew] at hheld
            cases hheld
            cases hopen
  | stored howns hstatus hno hsame hrequest hup hchannel =>
      have hidle : s.device.cid ≠ 0 := hc.owned hch howns
      refine ⟨⟨hcid hf hsame hup, fun h => absurd (hsame.symm.trans h) hidle, hzero⟩,
        hallows.trans ?_⟩
      cases hf
      by_cases hpsm : ch.psm = .interrupt
      · rw [if_pos hpsm] at hchannel
        have hnew : s.openedChannels status cid ch created cid = _ :=
          openedChannels_self hstatus hno
        constructor
        · intro h hp
          have hwait := (h hp).2 hstatus howns hpsm
          obtain ⟨huser, -⟩ := hw hp
          refine ⟨hrequest.trans huser, { ch with opened := true }, ?_, rfl, hwait⟩
          simp only [hchannel, hnew]
        · intro hnow hp
          refine ⟨fun h => absurd h hno, fun _ _ _ => ?_⟩
          obtain ⟨-, held, hheld, -, hwait⟩ := hnow hp
          simp only [hchannel, hnew] at hheld
          cases hheld
          exact hwait
      · rw [if_neg hpsm] at hchannel
        refine ⟨fun _ hp => (hw hp).frame hrequest hchannel (hother hp), fun _ _ => ?_⟩
        exact ⟨fun h => absurd h hno, fun _ _ h => absurd h hpsm⟩
  | paired howns hidle hsame hup =>
      have hset : d.cid ≠ 0 := by
        rw [hsame]
        exact hc.owned hch howns
      refine ⟨⟨fun _ => ?_, fun h => absurd h hset, hzero⟩, hallows.trans ?_⟩
      · cases hf with
        | failed hs => exact absurd rfl hs
        | opened hconnected hpending hid => exact ⟨hid.symm, hset, hup⟩
      · refine ⟨fun _ hp => ?_, fun _ hp => ?_⟩
        · have hconnected := (hc.cid (hf.pending hp).1).2.2
          cases hidle.symm.trans hconnected
        · cases hidle.symm.trans (hc.cid hp.1).2.2

theorem closed_kept {cid : UInt16} {ch : Channel} {s : Stack} {d : HidDevice}
    {event : Option HidEvent} {f : Firmware} (hc : Coupled s) (hw : s.Awake)
    (hch : s.l2cap cid = some ch) (hd : Closed cid s.device d event)
    (hf : Heard s.firmware event f) :
    Kept descriptor s (.channelClosed cid)
      { l2cap := s.l2cap.remove cid, device := d, firmware := f } := by
  have hzero : s.l2cap.remove cid 0 = none :=
    (Function.update_of_ne (Ne.symm (hc.ne_zero hch)) _ _).trans hc.zero
  have hother (hne : cid ≠ s.device.interruptCid) :
      s.l2cap.remove cid s.device.interruptCid = s.l2cap s.device.interruptCid :=
    Function.update_of_ne (Ne.symm hne) _ _
  cases hd with
  | foreign howns =>
      have hne : cid ≠ s.device.interruptCid := fun h => howns (.inr h.symm)
      cases hf
      refine ⟨⟨hc.cid, hc.idle, hzero⟩, ?_⟩
      exact ⟨fun _ hp => (hw hp).frame rfl rfl (hother hne), fun _ _ h => absurd h hne⟩
  | half howns hsame hrequest hup hchannel hleft =>
      cases hf
      refine ⟨⟨fun h => ?_, fun h => absurd (hsame.symm.trans h) (hc.owned hch howns), hzero⟩, ?_⟩
      · rw [hsame, hup]
        exact hc.cid h
      · by_cases hinterrupt : cid = s.device.interruptCid
        · rw [if_pos hinterrupt] at hchannel
          obtain ⟨hcontrol, hother⟩ := hleft hinterrupt
          constructor
          · intro hallow hp
            rcases hallow hp hinterrupt with h | h
            · exact absurd h hcontrol
            · exact absurd h hother
          · intro hnow hp
            obtain ⟨-, held, hheld, -⟩ := hnow hp
            simp only [hchannel] at hheld
            cases hzero.symm.trans hheld
        · rw [if_neg hinterrupt] at hchannel
          exact ⟨fun _ hp => (hw hp).frame hrequest hchannel (hother hinterrupt),
            fun _ _ h => absurd h hinterrupt⟩
  | last howns hchannel hcontrol hlast =>
      have hdown : f.connected = false := by
        cases hf
        assumption
      refine ⟨⟨fun h => ?_, fun _ => ⟨hcontrol, hchannel⟩, hzero⟩, ?_⟩
      · cases hdown.symm.trans h
      · refine ⟨fun _ hp => ?_, fun _ _ => hlast⟩
        cases hdown.symm.trans hp.1

/-- A slot serves the request, or goes to an answer; then the request moves to the control
channel. -/
theorem slot_kept {cid : UInt16} {ok : Bool} {ch : Channel} {s t : Stack} {f : Firmware}
    (hc : Coupled s) (hw : s.Awake) (hch : s.l2cap cid = some ch) (hopen : ch.opened = true)
    (ht : t = { s with
      l2cap := Function.update s.l2cap cid (some { ch with waitingForCanSendNow := false })
      device := (canSendNow cid s.device).1 })
    (hf : Heard s.firmware (canSendNow cid s.device).2.1 f) :
    Kept descriptor s (.canSendNow cid ok)
      { if (canSendNow cid s.device).2.2 then t.requestControl else t with firmware := f } := by
  have hzero : Function.update s.l2cap cid (some { ch with waitingForCanSendNow := false }) 0 =
      none := (Function.update_of_ne (Ne.symm (hc.ne_zero hch)) _ _).trans hc.zero
  have hother (hne : cid ≠ s.device.interruptCid) :
      Function.update s.l2cap cid (some { ch with waitingForCanSendNow := false })
        s.device.interruptCid = s.l2cap s.device.interruptCid :=
    Function.update_of_ne (Ne.symm hne) _ _
  have hself (heq : cid = s.device.interruptCid) :
      Function.update s.l2cap cid (some { ch with waitingForCanSendNow := false })
        s.device.interruptCid = some { ch with waitingForCanSendNow := false } := by
    rw [heq]
    exact Function.update_self ..
  subst ht
  unfold canSendNow at hf ⊢
  by_cases howns : s.device.Owns cid
  swap
  · have hne : cid ≠ s.device.interruptCid := fun h => howns (.inr h.symm)
    simp only [if_pos howns, Bool.false_eq_true, if_false] at hf ⊢
    cases hf
    refine ⟨⟨hc.cid, hc.idle, hzero⟩, fun _ hp => ?_, fun _ _ h => absurd h hne⟩
    exact (hw hp).frame rfl rfl (hother hne)
  rw [if_neg (not_not.mpr howns)] at hf ⊢
  by_cases hstate : s.device.state = .idle
  · rw [if_neg (not_not.mpr hstate)] at hf ⊢
    by_cases huser : s.device.userRequestCanSendNow = true
    · simp only [if_pos huser, Bool.false_eq_true, if_false] at hf ⊢
      cases hf with
      | slot hconnected hid hpending =>
          refine ⟨⟨fun h => ?_, hc.idle, hzero⟩, fun _ hp => absurd hp hpending,
            fun _ _ _ => .inl hstate⟩
          rw [hid]
          exact hc.cid (hconnected.symm.trans h)
    · simp only [if_neg huser, Bool.false_eq_true, if_false] at hf ⊢
      cases hf
      exact ⟨⟨hc.cid, hc.idle, hzero⟩, fun _ hp => absurd (hw hp).1 huser,
        fun _ _ _ => .inl hstate⟩
  · -- An answer is due: the request loses this slot, and keeps its own if that is another.
    simp only [ne_eq, hstate, not_false_eq_true, if_true] at hf ⊢
    cases hf
    by_cases huser : s.device.userRequestCanSendNow = true
    swap
    · simp only [if_neg huser]
      exact ⟨⟨hc.cid, hc.idle, hzero⟩, fun _ hp => absurd (hw hp).1 huser,
        fun hnow hp => absurd (hnow hp).1 huser⟩
    simp only [if_pos huser]
    refine ⟨⟨hc.cid, hc.idle, l2capRequest_none hzero⟩, fun hallow hp => ?_, fun hnow hp heq => ?_⟩
    · obtain ⟨-, held, hheld, hup, hwait⟩ := id (hw hp)
      by_cases heq : cid = s.device.interruptCid
      · have hcontrol := (hallow hp heq).resolve_left hstate
        have hagain := @l2capRequest_some s.device.controlCid _ _ _ (hself heq)
        refine ⟨huser, _, hagain, hopen, ?_⟩
        simp [hcontrol, heq]
      · have hstill := @l2capRequest_some s.device.controlCid _ _ _ ((hother heq).trans hheld)
        refine ⟨huser, _, hstill, hup, ?_⟩
        simp [hwait]
    · obtain ⟨-, held, hheld, -, hwait⟩ := hnow hp
      cases (l2capRequest_some (hself heq)).symm.trans hheld
      refine .inr ?_
      have hsame : s.device.interruptCid = s.device.controlCid := by simpa using hwait
      exact hsame.symm.trans heq.symm

/-- L2CAP serves only a channel that is open and waits, as that of a request is. -/
theorem allows_unserved {cid : UInt16} {ok : Bool} {s : Stack} (hw : s.Awake)
    (h : ∀ ch, s.l2cap cid = some ch → ch.opened = false ∨ ch.waitingForCanSendNow = false) :
    s.Allows descriptor (.canSendNow cid ok) := by
  intro hp heq
  obtain ⟨-, ch, hch, hopen, hwait⟩ := hw hp
  rw [← heq] at hch
  rcases h ch hch with hclosed | hfree
  · cases hclosed.symm.trans hopen
  · cases hfree.symm.trans hwait

theorem dataPacket_device (descriptor : Descriptor) (packet : Bytes) (d : HidDevice) :
    ∃ state, (dataPacket descriptor packet d).1 = { d with state } := by
  unfold dataPacket
  split
  · exact ⟨d.state, rfl⟩
  · split
    · exact ⟨_, rfl⟩
    · exact ⟨_, rfl⟩
    · exact ⟨_, rfl⟩
    · exact ⟨_, rfl⟩
    · split
      · exact ⟨d.state, rfl⟩
      · exact ⟨_, rfl⟩
    · exact ⟨d.state, rfl⟩
    · exact ⟨_, rfl⟩

theorem dataPacket_own {packet : Bytes} {d : HidDevice} {e : Event}
    (he : (dataPacket descriptor packet d).2.1 = some e) : e.own = true := by
  have hreport {reportType : UInt8} {body : Bytes}
      (h : dataReport descriptor reportType body = some e) : e.own = true := by
    unfold dataReport at h
    split at h
    · cases h
    · dsimp only at h
      split_ifs at h
      · cases h
        rfl
      · cases h
        rfl
  unfold dataPacket at he
  split at he
  · cases he
  · split at he
    · cases he
    · dsimp only at he
      split_ifs at he
      cases he
      rfl
    · cases he
    · cases he
    · split at he <;> cases he
    · exact hreport he
    · cases he

theorem dataPacket_kept {cid : UInt16} {packet : Bytes} {ch : Channel} {s s₁ : Stack}
    {log : List Action} {a : Model} (ha : Rep s.firmware.core.nfc a) (hc : Coupled s)
    (hw : s.Awake) (hch : s.l2cap cid = some ch) (hopen : ch.opened = true)
    (howns : s.device.Owns cid) (answer : Bool)
    (hs : Stack.callback p parse (dataPacket descriptor packet s.device).2.1
      { s with device := (dataPacket descriptor packet s.device).1 } = some (s₁, log)) :
    Kept descriptor s (.dataPacket cid packet) (if answer then s₁.requestControl else s₁) := by
  obtain ⟨state, hd⟩ := dataPacket_device descriptor packet s.device
  rw [hd] at hs
  have hcalled := callback_called (fun e he => dataPacket_own he) ha
    (s := { s with device := { s.device with state } }) ⟨hc.cid, hc.idle, hc.zero⟩ hw hs
  have hallows : s.Allows descriptor (.dataPacket cid packet) ↔
      ((∃ e, (dataPacket descriptor packet s.device).2.1 = some e ∧ s.firmware.Asks e) →
        s.Open) := by
    constructor
    · rintro hallow ⟨e, he, hask⟩
      exact hallow ⟨howns, ch, hch, hopen⟩ e he hask
    · intro hallow _ e he hask
      exact hallow ⟨e, he, hask⟩
  cases answer with
  | false => exact ⟨hcalled.coupled, hallows.trans hcalled.awake_iff⟩
  | true => exact ⟨hcalled.control.coupled, hallows.trans hcalled.control.awake_iff⟩

theorem step_kept {e : LinkEvent} {s s' : Stack} {log : List Action}
    (hr : (firmware p parse).Reachable s.firmware) (hc : Coupled s) (hw : s.Awake)
    (hs : Stack.step p parse descriptor e s = some (s', log)) : Kept descriptor s e s' := by
  have hsame (hallow : s.Allows descriptor e) : Kept descriptor s e s :=
    ⟨hc, fun _ => hw, fun _ => hallow⟩
  obtain ⟨a, ha⟩ := reachable_rep hr
  cases e with
  | incoming psm handle cid =>
      simp only [Stack.step] at hs
      split_ifs at hs with hfresh
      · cases hs
        exact incoming_kept hc hw hfresh
      · cases hs
        exact hsame fun _ h => absurd h hfresh
  | channelOpened status handle cid created =>
      simp only [Stack.step] at hs
      split at hs
      · rename_i hnone
        cases hs
        refine hsame fun _ ch hch => ?_
        cases hnone.symm.trans hch
      · rename_i ch hch
        split_ifs at hs with hbad
        · cases hs
          refine hsame fun _ ch' hch' hclosed hfresh => ?_
          cases hch.symm.trans hch'
          rcases hbad with hopen | hused
          · cases hclosed.symm.trans hopen
          · cases created with
            | none => cases hused
            | some new => exact absurd (hfresh new rfl) (by simpa using hused)
        · obtain ⟨hopen, hused⟩ := not_or.mp hbad
          obtain ⟨f, hf, rfl⟩ := notify_heard hs
          refine opened_kept hc hw hch (by simpa using hopen) ?_
            (channelOpened_opened status ch.psm handle cid created s.device) hf
          intro new hnew
          cases hnew
          simpa using hused
  | channelClosed cid =>
      simp only [Stack.step] at hs
      split_ifs at hs with hnone
      · cases hs
        refine hsame fun hp heq => ?_
        obtain ⟨-, ch, hch, -⟩ := hw hp
        rw [← heq, hnone] at hch
        cases hch
      · obtain ⟨ch, hch⟩ := Option.ne_none_iff_exists'.mp hnone
        obtain ⟨f, hf, rfl⟩ := notify_heard hs
        exact closed_kept hc hw hch (channelClosed_closed cid s.device) hf
  | canSendNow cid ok =>
      simp only [Stack.step] at hs
      split at hs
      · rename_i hnone
        cases hs
        refine hsame (allows_unserved hw fun ch hch => ?_)
        cases hnone.symm.trans hch
      · rename_i ch hch
        split_ifs at hs with hbad hagain
        · cases hs
          refine hsame (allows_unserved hw fun ch' hch' => ?_)
          cases hch.symm.trans hch'
          exact hbad
        · obtain ⟨f, hf, rfl⟩ := notify_heard hs
          have hkept := @slot_kept descriptor _ ok _ _ _ _ hc hw hch
            (by simpa using (not_or.mp hbad).1) rfl hf
          rwa [if_pos hagain] at hkept
        · obtain ⟨f, hf, rfl⟩ := notify_heard hs
          have hkept := @slot_kept descriptor _ ok _ _ _ _ hc hw hch
            (by simpa using (not_or.mp hbad).1) rfl hf
          rwa [if_neg hagain] at hkept
  | dataPacket cid packet =>
      simp only [Stack.step] at hs
      split at hs
      · rename_i hnone
        cases hs
        refine hsame ?_
        rintro ⟨-, ch, hch, -⟩
        cases hnone.symm.trans hch
      · rename_i ch hch
        by_cases hbad : ch.opened = false ∨ ¬ s.device.Owns cid
        · rw [if_pos hbad] at hs
          cases hs
          refine hsame ?_
          rintro ⟨howns, ch', hch', hopen⟩
          cases hch.symm.trans hch'
          rcases hbad with hclosed | hforeign
          · cases hclosed.symm.trans hopen
          · exact absurd howns hforeign
        · rw [if_neg hbad] at hs
          obtain ⟨hopen, howns⟩ := not_or.mp hbad
          obtain ⟨⟨s₁, log₁⟩, hcall, heq⟩ := Option.map_eq_some_iff.mp hs
          cases heq
          exact dataPacket_kept ha hc hw hch (by simpa using hopen) (not_not.mp howns) _ hcall
  | inputTimer =>
      have hcalled := firmwareStep_called rfl ha hc hw hs
      exact ⟨hcalled.coupled, hcalled.awake_iff⟩
  | pcTimer lines now =>
      have hcalled := firmwareStep_called rfl ha hc hw hs
      have hquiet : ¬ s.firmware.Asks (.pcTimer lines now) := by
        rintro ⟨-, -, heq | ⟨packet, -, hout, -⟩⟩
        · cases heq
        · cases hout
      exact ⟨hcalled.coupled, fun _ => hcalled.awake fun h => absurd h hquiet, fun _ => trivial⟩

end Stacks

/-! ## Runs -/

/-- Along a run whose events all leave the slot of the interrupt channel to its request, a
pending send always has one; and the next event keeps it so exactly when it does the same. -/
theorem pending_send_awake (p : Platform) (parse : Bytes → Option CJson)
    (descriptor : Descriptor) (es : List LinkEvent) (s : Stack) (log : List Action)
    (hr : (stack p parse descriptor).run es Stack.boot = some (s, log))
    (hallow : (stack p parse descriptor).Along (Stack.Allows descriptor) es Stack.boot) :
    s.Awake ∧ ∀ e s' o, Stack.step p parse descriptor e s = some (s', o) →
      (s.Allows descriptor e ↔ s'.Awake) := by
  have hinv := Transition.System.run_invariant_along (M := stack p parse descriptor)
    (fun s => (firmware p parse).Reachable s.firmware ∧ Coupled s ∧ s.Awake)
    (Stack.Allows descriptor)
    (fun e s s' o hok h hs => by
      have hkept := step_kept h.1 h.2.1 h.2.2 hs
      exact ⟨step_reachable h.1 hs, hkept.coupled, hkept.awake.mp hok⟩)
    hallow ⟨Transition.System.Reachable.start _, Coupled.boot, fun h => by cases h.1⟩ hr
  exact ⟨hinv.2.2, fun e s' o hs => (step_kept hinv.1 hinv.2.1 hinv.2.2 hs).awake⟩

/-- The stack with the firmware's own descriptor; nothing comes from the PC. -/
abbrev bareStack : Transition.System Stack LinkEvent Action :=
  stack blankPlatform (fun _ => none) switchDescriptor

/-- Both channels come up, and the timer asks for the first slot. -/
def linkUp : List LinkEvent :=
  [.incoming .control 1 0x41, .incoming .interrupt 1 0x42, .channelOpened 0 1 0x41 none,
    .channelOpened 0 1 0x42 none, .inputTimer]

theorem pending_send_awake_linkUp :
    ∃ s log, bareStack.run linkUp Stack.boot = some (s, log) ∧
      s.firmware.Pending ∧ s.device.Requested s.l2cap := by
  have hfinal : ((bareStack.run linkUp Stack.boot).map
      fun r => (r.1.firmware.connected, r.1.firmware.sendPending)) = some (true, true) := by
    decide +kernel
  obtain ⟨⟨s, log⟩, hr, hp⟩ := Option.map_eq_some_iff.mp hfinal
  obtain ⟨hconnected, hpending⟩ := Prod.mk.inj hp
  have hidle (pre : List LinkEvent)
      (hpre : ((bareStack.run pre Stack.boot).map fun r => r.1.firmware.sendPending) = some false)
      (s' : Stack) (o : List Action) (hr : bareStack.run pre Stack.boot = some (s', o)) :
      ¬ s'.firmware.Pending := by
    intro h
    rw [hr] at hpre
    cases h.2.symm.trans (Option.some.inj hpre)
  have hallow : bareStack.Along (Stack.Allows switchDescriptor) linkUp Stack.boot := by
    refine Transition.System.along_of_split fun pre e post hsplit s' o hpre => ?_
    match pre, hsplit with
    | [], h =>
        cases h
        exact fun hp => absurd hp (hidle _ (by decide +kernel) s' o hpre)
    | [_], h =>
        cases h
        exact fun hp => absurd hp (hidle _ (by decide +kernel) s' o hpre)
    | [_, _], h =>
        cases h
        exact fun hp => absurd hp (hidle _ (by decide +kernel) s' o hpre)
    | [_, _, _], h =>
        cases h
        exact fun hp => absurd hp (hidle _ (by decide +kernel) s' o hpre)
    | [_, _, _, _], h =>
        cases h
        have hopen : ((bareStack.run (linkUp.take 4) Stack.boot).map
            fun r => r.1.l2cap r.1.device.interruptCid) = some (some
              { psm := .interrupt, opened := true, waitingForCanSendNow := false }) := by
          decide +kernel
        have hsame : linkUp.take 4 = [_, _, _, _] := rfl
        rw [hsame, hpre] at hopen
        exact fun _ => ⟨_, Option.some.inj hopen, rfl⟩
    | _ :: _ :: _ :: _ :: _ :: rest, h => simp [linkUp] at h
  have hawake := (pending_send_awake _ _ _ linkUp s log hr hallow).1
  exact ⟨s, log, hr, ⟨hconnected, hpending⟩, hawake ⟨hconnected, hpending⟩⟩

/-- The interrupt channel closes alone under a pending send and comes back: the promise
stays, and neither the new channel nor any later tick is asked for a slot. -/
def strandedSend : List LinkEvent :=
  linkUp ++ [.channelClosed 0x42, .incoming .interrupt 1 0x43, .channelOpened 0 1 0x43 none,
    .inputTimer]

theorem strandedSend_asleep :
    ∃ s log, bareStack.run strandedSend Stack.boot = some (s, log) ∧
      s.firmware.Pending ∧ s.Open ∧ ¬ s.device.Requested s.l2cap := by
  have hfinal : ((bareStack.run strandedSend Stack.boot).map fun r =>
      ((r.1.firmware.connected, r.1.firmware.sendPending), r.1.l2cap r.1.device.interruptCid)) =
      some ((true, true), some
        { psm := .interrupt, opened := true, waitingForCanSendNow := false }) := by decide +kernel
  obtain ⟨⟨s, log⟩, hr, hp⟩ := Option.map_eq_some_iff.mp hfinal
  obtain ⟨hpending, hchannel⟩ := Prod.mk.inj hp
  obtain ⟨hconnected, hsend⟩ := Prod.mk.inj hpending
  refine ⟨s, log, hr, ⟨hconnected, hsend⟩, ⟨_, hchannel, rfl⟩, ?_⟩
  rintro ⟨-, ch, hch, -, hwait⟩
  cases hchannel.symm.trans hch
  cases hwait

end SwitchController.Transport
