import SwitchController.Device.Tag
import SwitchController.Nfc.Delivery
import SwitchController.Transport.Reports

/-! # Tag reads over the air

The packets in successfully sent MCU reports, followed by those still queued,
are a stream that only grows at its end until a call flushes the queue. A read
therefore arrives as its three packets in order, and a second fragment never
arrives without the first fragment of its tag right before it.
-/

namespace SwitchController.Transport

open Memory Device Nfc

/-! ## Packets on the wire -/

/-- The packets carried by successfully sent reports 0x31. -/
def mcuPackets (log : List Action) : List Bytes :=
  log.filterMap fun
    | .sent false msg => if msg[1]? = some 0x31 then some (msg.drop (1 + inputReportSize)) else none
    | _ => none

theorem mcuPackets_append (left right : List Action) :
    mcuPackets (left ++ right) = mcuPackets left ++ mcuPackets right := List.filterMap_append

/-- Nothing of this log was sent. -/
def Unsent (log : List Action) : Prop := ∀ a ∈ log, ∀ isReply msg, a ≠ .sent isReply msg

theorem Unsent.mcuPackets {log : List Action} (h : Unsent log) : mcuPackets log = [] := by
  refine List.filterMap_eq_nil_iff.mpr fun a ha => ?_
  cases a with
  | sent isReply msg => exact absurd rfl (h _ ha isReply msg)
  | core | opened | closed | accepted | refused | request | failed => rfl

theorem unsent_core (log : List Effect) : Unsent (log.map .core) := by
  intro a ha isReply msg hc
  obtain ⟨e, -, rfl⟩ := List.mem_map.mp ha
  cases hc

theorem send_unsent (data : Option Bytes) (f : Firmware) :
    Unsent (btstackHidSendInputReport data f).2 := by
  unfold btstackHidSendInputReport
  split
  · simp [Unsent]
  · dsimp only
    split_ifs <;> simp [Unsent]

theorem deliver_unsent (log : List Effect) (f : Firmware) : Unsent (deliver log f).2 := by
  induction log generalizing f with
  | nil => simp [deliver, Unsent]
  | cons e log ih =>
      intro a ha isReply msg
      cases e with
      | reply subcmdId payload report =>
          simp only [deliver, List.cons_append, List.mem_cons, List.mem_append] at ha
          rcases ha with rfl | hqueued | hrest
          · simp
          · exact send_unsent _ f a hqueued isReply msg
          · exact ih _ a hrest isReply msg
      | nfc | answer | applied | released =>
          simp only [deliver, List.cons_append, List.nil_append, List.mem_cons] at ha
          rcases ha with rfl | hrest
          · simp
          · exact ih _ a hrest isReply msg

/-- An MCU report carries its packet behind the 49 bytes of the full report. -/
theorem mcuMessage_packet {report packet : Bytes} (hr : report.length = inputReportSize)
    (hp : packet.length = mcuSize) :
    (mcuMessage report packet)[1]? = some 0x31 ∧
      (mcuMessage report packet).drop (1 + inputReportSize) = packet := by
  have hlen : ([0xa1] ++ report.set 0 0x31).length = 1 + inputReportSize := by
    simp [hr, Nat.add_comm]
  rw [mcuMessage_eq hr hp]
  constructor
  · cases report with
    | nil => cases hr
    | cons b rest => rfl
  · rw [List.drop_left' hlen]

/-! ## One step -/

theorem nfcPeek_length {m : Mcu} {a : Model} (ha : Rep m a) : (nfcPeek m).length = mcuSize := by
  rw [ha.peek]
  exact encode_length _

/-- Calls into the MCU other than the commit of a sent packet. -/
def Uncommitted (log : List Effect) : Prop := ∀ e ∈ log, ∀ before, e ≠ .nfc .commit before

theorem commanded_uncommitted {now : Int} {c c' : Core} {log : List Effect}
    (h : Commanded now c c' log) : Uncommitted log := by
  cases h <;> simp [Uncommitted]

theorem poll_uncommitted (parse : Bytes → Option CJson) (lines : List (Bytes × Int)) (now : Int)
    (c : Core) : Uncommitted (pcControlPoll parse lines now c).2 := by
  apply poll_rule (P := fun _ log _ => Uncommitted log)
  · simp [Uncommitted]
  · intro c c₁ c' log log' h h' e he before
    rcases List.mem_append.mp he with he | he
    · exact h e he before
    · exact h' e he before
  · exact fun now c c' log h => commanded_uncommitted h
  · simp [Uncommitted, release]

theorem handled_uncommitted {data : Bytes} {c c' : Core} {log : List Effect}
    (h : Handled data c c' log) : Uncommitted log := by
  have hop {op : Nfc.Op} (hc : consoleOp op = true) : op ≠ .commit := by
    intro heq
    subst heq
    cases hc
  cases h with
  | ignored => simp [Uncommitted]
  | command => simp [Uncommitted]
  | declined hid hd hlog =>
      rcases hlog with rfl | ⟨op, r, hc, -, rfl⟩
      · simp [Uncommitted]
      · simp [Uncommitted, hop hc]
  | replied hid hd hr =>
      obtain ⟨c₁, calls, payload, hp, -, rfl⟩ := hr.reply
      cases hp with
      | plain => simp [Uncommitted, Core.replied]
      | mode => simp [Uncommitted, Core.replied]
      | mcu hc hs => simp [Uncommitted, Core.replied, hop hc]

/-- A step either sends no packet and commits none, or sends the oldest and commits it. -/
inductive Carries (m m' : Mcu) (log : List Action) : Prop
  | calls (hsent : mcuPackets log = []) (hcommit : Uncommitted (coreLog log))
      (htrace : McuTrace m (coreLog log) m')
  | packet (hsent : mcuPackets log = [nfcPeek m]) (hnfc : m' = nfcCommit m)

section Steps

variable {p : Platform} {parse : Bytes → Option CJson}

theorem sendStream_carries (ok : Bool) {f : Firmware} {a : Model} (ha : Rep f.core.nfc a) :
    Carries f.core.nfc (sendStream ok f).1.core.nfc (sendStream ok f).2 := by
  have hframe (report : Bytes) (rest : List Action) (hid : report[0]? ≠ some 0x31) :
      mcuPackets [sendResult ok (streamMessage report)] = [] := by
    cases ok with
    | false => rfl
    | true =>
        have hnone : (streamMessage report)[1]? ≠ some 0x31 := by
          rw [streamMessage_eq]
          exact hid
        simp [mcuPackets, sendResult, hnone]
  unfold sendStream
  dsimp only
  split
  · refine .calls (hframe _ [] (by simp [inputReportBuild0x3F])) ?_ ?_
    all_goals cases ok <;> first | exact McuTrace.nil _ | simp [Uncommitted, coreLog, sendResult]
  · refine .calls (hframe _ [] (by simp [inputReportBuild0x30_eq, headerBytes])) ?_ ?_
    all_goals cases ok <;> first | exact McuTrace.nil _ | simp [Uncommitted, coreLog, sendResult]
  · cases ok with
    | false =>
        refine .calls rfl (by simp [Uncommitted, coreLog, sendResult]) ?_
        exact McuTrace.single rfl
    | true =>
        have hwire := mcuMessage_packet (inputReportBuild0x30_length f.core.timer f.core.ctrl false)
          (nfcPeek_length ha)
        refine .packet ?_ rfl
        simp only [mcuPackets, sendResult, switchProtoNextTimer, if_true, List.cons_append,
          List.nil_append, List.filterMap_cons, List.filterMap_nil, hwire.1, hwire.2]
  · exact .calls rfl (by simp [Uncommitted]) (.nil _)

theorem trackOutput_carries {packet : Bytes} {f f' : Firmware} {log : List Action} {a : Model}
    (ha : Rep f.core.nfc a) (hs : trackOutput p packet f = some (f', log)) :
    Carries f.core.nfc f'.core.nfc log := by
  unfold trackOutput at hs
  obtain ⟨⟨core, effects⟩, hr, hd⟩ := Option.bind_eq_some_iff.mp hs
  have hpair : deliver effects { f with core } = (f', log) := Option.some.inj hd
  have hcore := deliver_core effects { f with core }
  have hunsent := deliver_unsent effects { f with core }
  rw [hpair] at hcore hunsent
  obtain ⟨core', effects', hr', hh⟩ := handleOutput_handled p packet ha.tag_length
  cases hr.symm.trans hr'
  refine .calls hunsent.mcuPackets ?_ ?_
  · rw [hcore.2]
    exact handled_uncommitted hh
  · rw [hcore.1, hcore.2]
    exact handled_trace hh

theorem step_carries {e : Event} {f f' : Firmware} {log : List Action} {a : Model}
    (ha : Rep f.core.nfc a) (hs : step p parse e f = some (f', log)) :
    Carries f.core.nfc f'.core.nfc log := by
  have hsilent : Carries f.core.nfc f.core.nfc [] := .calls rfl (by simp [Uncommitted]) (.nil _)
  have hpair {r : Firmware × List Action} (hr : some r = some (f', log))
      (h : Carries f.core.nfc r.1.core.nfc r.2) : Carries f.core.nfc f'.core.nfc log := by
    cases hr
    exact h
  cases e with
  | opened status cid =>
      apply hpair hs
      unfold connectionOpened
      split_ifs
      · exact hsilent
      · refine .calls (unsent_core _).mcuPackets ?_ ?_
        · change Uncommitted (coreLog (List.map .core _))
          rw [coreLog_map]
          simp [Uncommitted]
        · change McuTrace _ (coreLog (List.map .core _)) _
          rw [coreLog_map]
          exact .skip (by simp) (.single rfl)
  | closed =>
      refine hpair hs (.calls rfl ?_ ?_)
      · change Uncommitted [.released]
        simp [Uncommitted]
      · exact .quiet _ (by simp [connectionClosed, coreLog, pcControlConnection, release])
  | canSendNow ok =>
      simp only [step] at hs
      split_ifs at hs
      · apply hpair hs
        unfold sendNextReport
        dsimp only
        split_ifs
        · cases ok with
          | false => exact .calls rfl (by simp [Uncommitted, coreLog, sendReply]) (.nil _)
          | true => exact .calls rfl (by simp [Uncommitted, coreLog, sendReply]) (.nil _)
        · exact sendStream_carries ok (f := { f with sendPending := false }) ha
      · exact hpair hs hsilent
  | inputTimer =>
      apply hpair hs
      unfold inputTimerHandler
      split_ifs
      · exact .calls rfl (by simp [Uncommitted, coreLog]) (.nil _)
      · exact hsilent
  | reportData reportId report =>
      simp only [step, reportDataCallback] at hs
      split_ifs at hs
      · exact trackOutput_carries ha hs
      · exact hpair hs hsilent
  | setReport report =>
      simp only [step, setReportCallback] at hs
      split_ifs at hs
      · exact hpair hs hsilent
      · exact trackOutput_carries ha hs
  | pcTimer lines now =>
      refine hpair hs (.calls (unsent_core _).mcuPackets ?_ ?_)
      · rw [coreLog_map]
        exact poll_uncommitted parse lines now f.core
      · rw [coreLog_map]
        exact step_trace (p := p) (e := .poll lines now) ha rfl

end Steps

/-! ## One read -/

/-- A logged call that drops the packets queued before it. -/
def Action.flushes : Action → Bool
  | .core (.nfc op before) => before.flushes op
  | _ => false

def FlushFree (log : List Action) : Prop := ∀ a ∈ log, a.flushes = false

theorem FlushFree.core {log : List Action} (h : FlushFree log) :
    ∀ e ∈ coreLog log, ∀ op before, e = .nfc op before → before.flushes op = false := by
  intro e he op before hop
  obtain ⟨a, ha, hcore⟩ := List.mem_filterMap.mp he
  cases a with
  | core effect =>
      cases hcore
      subst hop
      exact h _ ha
  | opened | closed | accepted | refused | request | sent | failed => cases hcore

/-- Calls that flush and commit nothing only add side packets behind those queued. -/
theorem trace_extends {m m' : Mcu} {log : List Effect} (ht : McuTrace m log m')
    (hcommit : Uncommitted log)
    (hflush : ∀ e ∈ log, ∀ op before, e = .nfc op before → before.flushes op = false)
    {a : Model} (ha : Rep m a) :
    ∃ a' extra, Rep m' a' ∧ a'.pending = a.pending ++ extra ∧ ∀ q ∈ extra, q.Side := by
  induction ht generalizing a with
  | nil => exact ⟨a, [], ha, by simp, by simp⟩
  | skip _ _ ih =>
      exact ih (fun e he => hcommit e (by simp [he])) (fun e he => hflush e (by simp [he])) ha
  | @call m m₁ m' op r log hs _ ih =>
      obtain ⟨m₂, hs', ha₁⟩ := step_refines ha op
      cases hs.symm.trans hs'
      have hop : op ≠ .commit := by
        intro heq
        subst heq
        exact hcommit _ List.mem_cons_self m rfl
      have hquiet : a.flushes op = false := by
        rw [ha.flushes]
        exact hflush _ (by simp) op m rfl
      obtain ⟨first, hfirst, hside⟩ := Model.step_extends hquiet hop
      obtain ⟨a', extra, ha', hlast, hside'⟩ := ih (fun e he => hcommit e (by simp [he]))
        (fun e he => hflush e (by simp [he])) ha₁
      refine ⟨a', first ++ extra, ha', ?_, ?_⟩
      · rw [hlast, hfirst, List.append_assoc]
      · intro q hq
        rcases List.mem_append.mp hq with h | h
        · exact hside q h
        · exact hside' q h

/-- What was sent since the read, with what is queued, is the read and side packets after it. -/
def Intact (tag : Bytes) (m : Mcu) (past : List Action) : Prop :=
  ∃ (a : Model) (sent rest : List Packet), Rep m a ∧ mcuPackets past = sent.map Packet.encode ∧
    sent ++ a.pending = readPackets tag ++ rest ∧ ∀ q ∈ rest, q.Side

theorem Intact.step {tag : Bytes} {m m' : Mcu} {past log : List Action} (h : Intact tag m past)
    (hc : Carries m m' log) (hflush : FlushFree log) : Intact tag m' (past ++ log) := by
  obtain ⟨a, sent, rest, ha, hsent, hstream, hside⟩ := h
  cases hc with
  | calls hnone hcommit htrace =>
      obtain ⟨a', extra, ha', hpending, hextra⟩ := trace_extends htrace hcommit hflush.core ha
      refine ⟨a', sent, rest ++ extra, ha', ?_, ?_, ?_⟩
      · rw [mcuPackets_append, hnone, List.append_nil, hsent]
      · rw [hpending, ← List.append_assoc, hstream, List.append_assoc]
      · intro q hq
        rcases List.mem_append.mp hq with hold | hnew
        · exact hside q hold
        · exact hextra q hnew
  | packet hone hnfc =>
      obtain ⟨extra, hpending, hextra⟩ := Model.peek_commit_extends a
      refine ⟨a.commit, sent ++ [a.peek], rest ++ extra, by rw [hnfc]; exact ha.commit, ?_, ?_, ?_⟩
      · rw [mcuPackets_append, hone, hsent, ha.peek]
        simp
      · rw [List.append_assoc, List.singleton_append, hpending, ← List.append_assoc, hstream,
          List.append_assoc]
      · intro q hq
        rcases List.mem_append.mp hq with hold | hnew
        · exact hside q hold
        · exact hextra q hnew

/-- The first three packets sent are those of the read, and none of them comes again. -/
theorem Intact.order {tag : Bytes} {m : Mcu} {log : List Action} (h : Intact tag m log) :
    (mcuPackets log).take 3 =
        ((readPackets tag).map Packet.encode).take (mcuPackets log).length ∧
      ∀ p ∈ (mcuPackets log).drop 3, ∀ r ∈ readPackets tag, p ≠ r.encode := by
  obtain ⟨a, sent, rest, -, hsent, hstream, hside⟩ := h
  have hprefix : sent <+: readPackets tag ++ rest := ⟨a.pending, hstream⟩
  have hsplit := List.prefix_iff_eq_take.mp hprefix
  have hthree : (readPackets tag).length = 3 := rfl
  constructor
  · rw [hsent, ← List.map_take, List.length_map, ← List.map_take]
    congr 1
    rw [hsplit, List.take_take, List.length_take, List.length_append, hthree]
    rcases Nat.lt_or_ge sent.length 3 with hshort | hlong
    · rw [List.take_append_of_le_length (by omega)]
      congr 1
      omega
    · rw [List.take_append_of_le_length (by omega)]
      rw [List.take_of_length_le (by omega), List.take_of_length_le (by omega)]
  · intro p hp r hr
    rw [hsent, ← List.map_drop] at hp
    obtain ⟨q, hq, rfl⟩ := List.mem_map.mp hp
    refine Packet.Side.encode_ne (hside q ?_) tag r hr
    rw [hsplit, List.drop_take, List.drop_append_of_le_length (by omega)] at hq
    exact List.mem_of_mem_take hq

section Reads

variable {p : Platform} {parse : Bytes → Option CJson}

theorem classify_accepted {power : UInt8} {present : Bool} {packet : Bytes}
    (h10 : packet[10]? = some 2) (h11 : packet[11]? = some 6)
    (hacc : (classify power present packet).accepted = true) :
    classify power present packet = .read := by
  unfold classify at hacc ⊢
  simp only [h10, h11] at hacc ⊢
  split_ifs at hacc ⊢ with h₁ h₂ h₃ h₄
  all_goals first | rfl | simp_all [Request.accepted]

/-- An accepted read leaves exactly its three packets in the queue. -/
theorem trackOutput_read {packet : Bytes} {f f' : Firmware} {log : List Action} {a : Model}
    (ha : Rep f.core.nfc a) (h0 : packet[0]? = some 0x11) (h10 : packet[10]? = some 2)
    (h11 : packet[11]? = some 6)
    (hacc : (nfcCommand packet f.core.nfc).map Prod.fst = some true)
    (hs : trackOutput p packet f = some (f', log)) :
    ∃ tag, a.tag = some tag ∧ Intact tag f'.core.nfc [] := by
  rw [nfcCommand_eq ha.tag_length, Option.map_some, Option.some.injEq, Mcu.request] at hacc
  have hread : a.request packet = .read := by
    rw [ha.request, Mcu.request]
    exact classify_accepted h10 h11 hacc
  obtain ⟨tag, ht⟩ := Option.isSome_iff_exists.mp (classify_read hread).2.2.1
  unfold trackOutput at hs
  obtain ⟨⟨core, effects⟩, hr, hd⟩ := Option.bind_eq_some_iff.mp hs
  have hcore := (deliver_core effects { f with core }).1
  rw [show deliver effects { f with core } = (f', log) from Option.some.inj hd] at hcore
  obtain ⟨core', effects', hr', hh⟩ := handleOutput_handled p packet ha.tag_length
  cases hr.symm.trans hr'
  have hsub : subcommand packet = none := by simp [subcommand, h0]
  refine ⟨tag, ht, ?_⟩
  cases hh with
  | ignored h hmcu => exact absurd h0 hmcu
  | declined h => cases hsub.symm.trans h
  | replied h => cases hsub.symm.trans h
  | command h hcall =>
      obtain ⟨nfc, hcall', hrep⟩ := step_refines ha (.command packet)
      cases hcall.symm.trans hcall'
      have hqueue : (Model.step (.command packet) a).1 =
          { a with pending := readPackets tag } := by
        change Model.perform (a.request packet) a = _
        rw [hread, Model.read_some ht]
      rw [hqueue] at hrep
      refine ⟨{ a with pending := readPackets tag }, [], [], ?_, rfl, by simp, by simp⟩
      rw [hcore]
      exact hrep

end Reads

/-! ## Every run -/

/-- Second fragments follow their first, and every tag in sight has the property. -/
structure Sound (P : Bytes → Prop) (a : Model) (sent : List Packet) : Prop where
  paired : Paired (sent ++ a.pending)
  seconds : ∀ tag, .second tag ∈ sent ++ a.pending → P tag
  tag : ∀ tag, a.tag = some tag → P tag

namespace Sound

variable {P Q : Bytes → Prop} {a : Model} {sent : List Packet}

theorem mono (h : Sound P a sent) (hpq : ∀ tag, P tag → Q tag) : Sound Q a sent :=
  ⟨h.paired, fun tag hs => hpq tag (h.seconds tag hs), fun tag ht => hpq tag (h.tag tag ht)⟩

theorem side_second {qs : List Packet} (h : ∀ q ∈ qs, q.Side) (tag : Bytes) :
    .second tag ∉ qs := fun hmem => h _ hmem

theorem step (h : Sound P a sent) {op : Nfc.Op} (hop : op ≠ .commit)
    (hload : ∀ data, op = .load data → data.length = tagSize → P data) :
    Sound P (Model.step op a).1 sent := by
  have htag : ∀ tag, (Model.step op a).1.tag = some tag → P tag := by
    intro tag ht
    rw [model_tag] at ht
    cases op with
    | load data =>
        simp only [tagAfter] at ht
        split_ifs at ht with hlen
        · cases ht
          exact hload tag rfl hlen
        · exact h.tag tag ht
    | unload => cases ht
    | reset | power | config | command | peek | commit => exact h.tag tag ht
  cases hf : a.flushes op with
  | false =>
      obtain ⟨extra, hpending, hside⟩ := Model.step_extends hf hop
      refine ⟨?_, ?_, htag⟩
      · rw [hpending, ← List.append_assoc]
        exact h.paired.append_side hside
      · intro tag hmem
        rw [hpending, ← List.append_assoc] at hmem
        rcases List.mem_append.mp hmem with hold | hnew
        · exact h.seconds tag hold
        · exact absurd hnew (side_second hside tag)
  | true =>
      have hsent : ∀ tag, .second tag ∈ sent → P tag := fun tag hmem =>
        h.seconds tag (List.mem_append_left _ hmem)
      rcases Model.step_fresh hf with hside | ⟨held, hheld, hread⟩
      · refine ⟨h.paired.left.append_side hside, ?_, htag⟩
        intro tag hmem
        rcases List.mem_append.mp hmem with hold | hnew
        · exact hsent tag hold
        · exact absurd hnew (side_second hside tag)
      · refine ⟨?_, ?_, htag⟩
        · rw [hread]
          exact h.paired.left.append_read held
        · intro tag hmem
          rw [hread] at hmem
          rcases List.mem_append.mp hmem with hold | hnew
          · exact hsent tag hold
          · simp only [readPackets, List.mem_cons, reduceCtorEq, Packet.second.injEq, false_or,
              List.not_mem_nil, or_false] at hnew
            rw [hnew]
            exact h.tag held hheld

theorem commit (h : Sound P a sent) : Sound P a.commit (sent ++ [a.peek]) := by
  obtain ⟨extra, hpending, hside⟩ := Model.peek_commit_extends a
  have hstream : sent ++ [a.peek] ++ a.commit.pending = sent ++ a.pending ++ extra := by
    rw [List.append_assoc, List.singleton_append, hpending, List.append_assoc]
  refine ⟨?_, ?_, h.tag⟩
  · rw [hstream]
    exact h.paired.append_side hside
  · intro tag hmem
    rw [hstream] at hmem
    rcases List.mem_append.mp hmem with hold | hnew
    · exact h.seconds tag hold
    · exact absurd hnew (side_second hside tag)

theorem trace {m m' : Mcu} {log : List Effect} (ht : McuTrace m log m')
    (hcommit : Uncommitted log)
    (hload : ∀ data before, .nfc (.load data) before ∈ log → data.length = tagSize → P data)
    (ha : Rep m a) (h : Sound P a sent) : ∃ a', Rep m' a' ∧ Sound P a' sent := by
  induction ht generalizing a with
  | nil => exact ⟨a, ha, h⟩
  | skip _ _ ih =>
      exact ih (fun e he => hcommit e (List.mem_cons_of_mem _ he))
        (fun data before he => hload data before (List.mem_cons_of_mem _ he)) ha h
  | @call m m₁ m' op r log hs _ ih =>
      obtain ⟨m₂, hs', ha₁⟩ := step_refines ha op
      cases hs.symm.trans hs'
      have hop : op ≠ .commit := by
        intro heq
        subst heq
        exact hcommit _ List.mem_cons_self m rfl
      have hstep := h.step hop fun data hdata hlen =>
        hload data m (by rw [← hdata]; exact List.mem_cons_self) hlen
      exact ih (fun e he => hcommit e (List.mem_cons_of_mem _ he))
        (fun data before he => hload data before (List.mem_cons_of_mem _ he)) ha₁ hstep

end Sound

/-- Some logged call loaded this tag. -/
def Loaded (past : List Action) (tag : Bytes) : Prop :=
  tag.length = tagSize ∧ ∃ before, .core (.nfc (.load tag) before) ∈ past

/-- The packets sent so far and those queued are sound for the tags loaded so far. -/
def Delivered (m : Mcu) (past : List Action) : Prop :=
  ∃ (a : Model) (sent : List Packet), Rep m a ∧ mcuPackets past = sent.map Packet.encode ∧
    Sound (Loaded past) a sent

theorem mem_coreLog {e : Effect} {log : List Action} (h : e ∈ coreLog log) : .core e ∈ log := by
  obtain ⟨a, ha, hcore⟩ := List.mem_filterMap.mp h
  cases a with
  | core effect => cases hcore; exact ha
  | opened | closed | accepted | refused | request | sent | failed => cases hcore

theorem Delivered.step {m m' : Mcu} {past log : List Action} (h : Delivered m past)
    (hc : Carries m m' log) : Delivered m' (past ++ log) := by
  obtain ⟨a, sent, ha, hsent, hsound⟩ := h
  have hmore : Sound (Loaded (past ++ log)) a sent := hsound.mono fun tag ⟨hlen, before, hmem⟩ =>
    ⟨hlen, before, List.mem_append_left _ hmem⟩
  cases hc with
  | calls hnone hcommit htrace =>
      have hload : ∀ data before, .nfc (.load data) before ∈ coreLog log →
          data.length = tagSize → Loaded (past ++ log) data := by
        intro data before hmem hlen
        exact ⟨hlen, before, List.mem_append_right _ (mem_coreLog hmem)⟩
      obtain ⟨a', ha', hsound'⟩ := Sound.trace htrace hcommit hload ha hmore
      refine ⟨a', sent, ha', ?_, hsound'⟩
      rw [mcuPackets_append, hnone, List.append_nil, hsent]
  | packet hone hnfc =>
      refine ⟨a.commit, sent ++ [a.peek], by rw [hnfc]; exact ha.commit, ?_, hmore.commit⟩
      rw [mcuPackets_append, hone, hsent, ha.peek]
      simp

/-! ## Tag reads -/

/-- The two fragments carry the tag at the offsets of their packets. -/
theorem fragments_tag {tag : Bytes} (h : tag.length = tagSize) :
    ((Packet.first tag).encode.drop 67).take 245 ++ ((Packet.second tag).encode.drop 7).take 295 =
      tag := by
  have hfirst : (Packet.first tag).body.length = 312 := by
    simp [Packet.body, uidBytes_length h, readWire, readMeta, h, tagSize]
  have hsecond : (Packet.second tag).body.length = 302 := by
    simp [Packet.body, readSecond, h, tagSize]
  have hhead : (readWire ++ uidBytes tag ++ readMeta).length = 67 := by
    simp [uidBytes_length h, readWire, readMeta]
  have hone : ((Packet.first tag).encode.drop 67).take 245 = tag.take 245 := by
    rw [List.take_drop, Packet.encode, sealPacket_take (by omega),
      List.take_of_length_le (by omega), Packet.body, List.drop_left' hhead]
  have htwo : ((Packet.second tag).encode.drop 7).take 295 = tag.drop 245 := by
    rw [List.take_drop, Packet.encode, sealPacket_take (by omega),
      List.take_of_length_le (by omega), Packet.body]
    change List.take 295 (tag.drop 245) = _
    exact List.take_of_length_le (by simp [h, tagSize])
  rw [hone, htwo, List.take_append_drop]

/-- The last byte of a packet is the checksum of the others. -/
def Checked (packet : Bytes) : Prop :=
  packet.length = 313 ∧ packet[312]? = some (nfcCrc8 (packet.take 312))

theorem encode_checked (q : Packet) : Checked q.encode :=
  ⟨encode_length q, sealPacket_crc (body_length_le q)⟩

/-- An accepted read arrives complete and in order unless its queue is flushed, and no
second fragment ever arrives without the first fragment of its tag right before it. -/
theorem tag_reads_intact (p : Platform) (parse : Bytes → Option CJson) :
    (∀ f, (firmware p parse).Reachable f → ∀ e packet f₁ now, e.output = some packet →
      packet[0]? = some 0x11 → packet[10]? = some 2 → packet[11]? = some 6 →
      (nfcCommand packet f.core.nfc).map Prod.fst = some true →
      step p parse e f = some (f₁, now) →
      ∃ tag first second trailer, f.core.nfc.presentTag = some tag ∧ tag.length = 540 ∧
        first = (Packet.first tag).encode ∧ second = (Packet.second tag).encode ∧
        trailer = (Packet.trailer tag).encode ∧
        Checked first ∧ Checked second ∧ Checked trailer ∧
        (first.drop 67).take 245 ++ (second.drop 7).take 295 = tag ∧
        ∀ es f₂ later, (firmware p parse).run es f₁ = some (f₂, later) → FlushFree later →
          (mcuPackets later).take 3 = [first, second, trailer].take (mcuPackets later).length ∧
          ∀ q ∈ (mcuPackets later).drop 3, q ≠ first ∧ q ≠ second ∧ q ≠ trailer) ∧
    (∀ f log, (firmware p parse).Reaches f log → ∀ pre post q, mcuPackets log = pre ++ q :: post →
      q[0]? = some 0x3a → q[3]? = some 2 →
      ∃ tag earlier before, .core (.nfc (.load tag) before) ∈ log ∧ tag.length = 540 ∧
        q = (Packet.second tag).encode ∧ pre = earlier ++ [(Packet.first tag).encode]) := by
  constructor
  · intro f hf e packet f₁ now hout h0 h10 h11 hacc hs
    obtain ⟨a, ha⟩ := reachable_rep hf
    rw [output_step hout] at hs
    obtain ⟨tag, ht, hread⟩ := trackOutput_read ha h0 h10 h11 hacc hs
    have hpresent : f.core.nfc.presentTag = some tag := ha.tag.symm.trans ht
    have hlen : tag.length = tagSize := by
      have htag := ha.tag_length
      unfold Mcu.presentTag at hpresent
      split_ifs at hpresent
      rw [← Option.some.inj hpresent]
      exact htag
    refine ⟨tag, _, _, _, hpresent, hlen, rfl, rfl, rfl, encode_checked _, encode_checked _,
      encode_checked _, fragments_tag hlen, ?_⟩
    intro es f₂ later hrun hfree
    have hrest := Transition.System.run_history (M := firmware p parse)
      (fun f past => FlushFree past → Intact tag f.core.nfc past)
      (fun e g g' o past hpast hstep hflush => by
        have hbefore := hpast fun b hb => hflush b (List.mem_append_left _ hb)
        obtain ⟨b, -, -, hb, -⟩ := id hbefore
        exact hbefore.step (step_carries hb hstep) fun b hb =>
          hflush b (List.mem_append_right _ hb))
      (fun _ => hread) hrun
    have horder := (hrest (by simpa using hfree)).order
    simp only [List.nil_append] at horder
    refine ⟨horder.1, fun q hq => ?_⟩
    have hne := horder.2 q hq
    exact ⟨hne (.first tag) (by simp [readPackets]), hne (.second tag) (by simp [readPackets]),
      hne (.trailer tag) (by simp [readPackets])⟩
  · intro f log hr pre post q hsplit h0 h3
    have hdelivered : Delivered f.core.nfc log := by
      refine hr.history (fun f log => Delivered f.core.nfc log)
        ⟨Model.boot, [], Rep.boot, rfl, Paired.nil, by simp [Model.boot], by simp [Model.boot]⟩ ?_
      intro e g g' o past hpast hstep
      obtain ⟨b, -, hb, -⟩ := id hpast
      exact hpast.step (step_carries hb hstep)
    obtain ⟨a, sent, -, hsent, hsound⟩ := hdelivered
    rw [hsent, List.map_eq_append_iff] at hsplit
    obtain ⟨front, back, rfl, hfront, hback⟩ := hsplit
    obtain ⟨r, tail, rfl, rfl, -⟩ := List.map_eq_cons_iff.mp hback
    rcases encode_fragment h0 with ⟨tag, -, h1⟩ | ⟨tag, rfl, -⟩
    · cases h1.symm.trans h3
    have hmem : .second tag ∈ front ++ .second tag :: tail ++ a.pending := by simp
    obtain ⟨hlen, before, hload⟩ := hsound.seconds tag hmem
    obtain ⟨earlier, hearlier⟩ := hsound.paired.left.before
    refine ⟨tag, earlier.map Packet.encode, before, hload, hlen, rfl, ?_⟩
    rw [← hfront, hearlier]
    simp

/-- A subcommand as interrupt data. -/
def request (subcmdId : UInt8) (args : Bytes) : Event :=
  .reportData 1 (zeros 9 ++ subcmdId :: args)

/-- A console in MCU mode with the reader on, and a tag from the PC. -/
def readerReady : List Event :=
  [.opened 0 1, request 0x22 [1], request 0x21 [0x21, 0, 4], request 0x03 [0x31],
    .pcTimer [(loadLine, 1)] 1]

def readCommand : Bytes := [0x11] ++ zeros 9 ++ [2, 6] ++ zeros 13

def sends (n : Nat) : List Event :=
  .canSendNow true :: (List.replicate n [.inputTimer, .canSendNow true]).flatten

theorem tag_reads_intact_read :
    ∃ f₂ later tag, (firmware blankPlatform parseFlat).Reachable f₂ ∧
      mcuPackets later = [(Packet.first tag).encode, (Packet.second tag).encode,
        (Packet.trailer tag).encode] ∧ tag.length = 540 := by
  have hready : (((firmware blankPlatform parseFlat).run readerReady
      Firmware.boot).map fun r => ((nfcCommand readCommand r.1.core.nfc).map Prod.fst,
        (step blankPlatform parseFlat (.setReport readCommand) r.1).bind fun s =>
          ((firmware blankPlatform parseFlat).run (sends 5) s.1).map fun t =>
            ((mcuPackets t.2).length, t.2.all fun a => !a.flushes))) =
      some (some true, some (3, true)) := by decide +kernel
  obtain ⟨⟨f, log⟩, hr, hl⟩ := Option.map_eq_some_iff.mp hready
  obtain ⟨hacc, hsent⟩ := Prod.mk.inj hl
  obtain ⟨⟨f₁, now⟩, hs, hsends⟩ := Option.bind_eq_some_iff.mp hsent
  obtain ⟨⟨f₂, later⟩, hrun, hcount⟩ := Option.map_eq_some_iff.mp hsends
  obtain ⟨hthree, hfree⟩ := Prod.mk.inj hcount
  have hf : (firmware blankPlatform parseFlat).Reachable f := ⟨log, _, hr⟩
  obtain ⟨tag, first, second, trailer, -, hlen, rfl, rfl, rfl, -, -, -, -, hlater⟩ :=
    (tag_reads_intact _ _).1 f hf (.setReport readCommand) readCommand f₁ now rfl rfl rfl rfl hacc
      hs
  have horder := (hlater _ f₂ later hrun (by simpa [FlushFree] using hfree)).1
  have hstep : (firmware blankPlatform parseFlat).step
      (.setReport readCommand) f = some (f₁, now) := hs
  refine ⟨f₂, later, tag, (hf.step hstep).run hrun, ?_, hlen⟩
  rw [hthree] at horder
  rw [← List.take_of_length_le (Nat.le_of_eq hthree), horder]
  rfl

end SwitchController.Transport
