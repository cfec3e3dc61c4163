import SwitchController.Device.Control
import SwitchController.Device.LineReader
import SwitchController.Lib.Transition

/-! # The command queue

What `reader` hands over waits in a queue of FreeRTOS until `pc_control_poll` receives it.
The queue is a parameter here, with what its documentation says of it: an item is copied
to the back as long as there is room, and the oldest is handed out first. So every line
that is accepted reaches `command` once, as it was stored and in its turn.
-/

namespace SwitchController.Device

open Memory

def commandQueueSize : Nat := 4

/-- The calls on the queue `commands`, none of which waits. -/
structure CommandQueue (Q : Type) where
  xQueueCreate : Q
  xQueueSend : Bytes → Q → Q
  xQueueReceive : Q → Option (Bytes × Q)

/-- What is documented of them, in terms of the items that wait, oldest first. -/
structure CommandQueue.Documented {Q : Type} (q : CommandQueue Q) (items : Q → List Bytes) :
    Prop where
  created : items q.xQueueCreate = []
  sent : ∀ item s, (items s).length < commandQueueSize →
    items (q.xQueueSend item s) = items s ++ [item]
  refused : ∀ item s, commandQueueSize ≤ (items s).length →
    items (q.xQueueSend item s) = items s
  empty : ∀ s, items s = [] → q.xQueueReceive s = none
  received : ∀ s item rest, items s = item :: rest →
    ∃ s', q.xQueueReceive s = some (item, s') ∧ items s' = rest

/-- A queue of that kind: the waiting items as they are. -/
def listQueue : CommandQueue (List Bytes) where
  xQueueCreate := []
  xQueueSend item s := if s.length < commandQueueSize then s ++ [item] else s
  xQueueReceive
    | [] => none
    | item :: rest => some (item, rest)

theorem listQueue_documented : listQueue.Documented id where
  created := rfl
  sent _ _ hroom := if_pos hroom
  refused _ _ hfull := if_neg (Nat.not_lt.mpr hfull)
  empty s hempty := by
    cases hempty
    rfl
  received s item rest hwait := by
    cases hwait
    exact ⟨rest, rfl, rfl⟩

structure Uart (Q : Type) where
  reader : LineState
  commands : Q

inductive UartEvent
  | read (c : Option UInt8)
  /-- `xQueueReceive` in `pc_control_poll`; an item is the line `command` gets. -/
  | receive

section Queue

variable {Q : Type} (q : CommandQueue Q)

/-- The reader's task and the receiving side, in any order; what is emitted is what
`pc_control_poll` receives. -/
def uart (line : Bytes) : Transition.System (Uart Q) UartEvent Bytes where
  init := ⟨LineState.entry line, q.xQueueCreate⟩
  step
    | .read c, u => (readerPass c u.reader).map fun r =>
        (⟨r.1, r.2.foldl (fun commands item => q.xQueueSend item commands) u.commands⟩, [])
    | .receive, u =>
        match q.xQueueReceive u.commands with
        | none => some (u, [])
        | some (item, commands) => some ({ u with commands }, [item])

def readsOf (es : List UartEvent) : List (Option UInt8) :=
  es.filterMap fun
    | .read c => some c
    | .receive => none

theorem readsOf_bytes (bytes : Bytes) :
    (readsOf (bytes.map fun c => .read (some c))).reduceOption = bytes := by
  induction bytes with
  | nil => rfl
  | cons c bytes ih =>
      have hreads : readsOf ((c :: bytes).map fun c => .read (some c)) =
          some c :: readsOf (bytes.map fun c => .read (some c)) := rfl
      rw [hreads, List.reduceOption_cons_of_some, ih]

def LineState.Fresh (s : LineState) : Prop := s.used = 0 ∧ s.overflow = false

/-! ## The queue -/

variable {q} {items : Q → List Bytes} (hq : q.Documented items)
include hq

/-- Of what is offered the queue keeps some, in order, and all of it if there is room. -/
theorem sends_items (offered : List Bytes) (s : Q) :
    ∃ accepted, accepted.Sublist offered ∧
      items (offered.foldl (fun s item => q.xQueueSend item s) s) = items s ++ accepted ∧
      ((items s).length + offered.length ≤ commandQueueSize → accepted = offered) := by
  induction offered generalizing s with
  | nil => exact ⟨[], List.Sublist.refl _, (List.append_nil _).symm, fun _ => rfl⟩
  | cons item offered ih =>
      rcases ih (q.xQueueSend item s) with ⟨accepted, hsub, hitems, hall⟩
      rw [List.foldl_cons, hitems]
      by_cases hroom : (items s).length < commandQueueSize
      · rw [hq.sent item s hroom, List.append_assoc, List.singleton_append]
        refine ⟨item :: accepted, hsub.cons_cons item, rfl, ?_⟩
        intro hfit
        have hsent := congrArg List.length (hq.sent item s hroom)
        rw [List.length_append, List.length_singleton] at hsent
        rw [List.length_cons] at hfit
        rw [hall (by omega)]
      · rw [hq.refused item s (by omega)]
        refine ⟨accepted, hsub.cons item, rfl, ?_⟩
        intro hfit
        rw [List.length_cons] at hfit
        omega

/-- Received and waiting items are those that waited before and those accepted since. -/
theorem run_queue {line : Bytes} {es : List UartEvent} {u u' : Uart Q} {received : List Bytes}
    (hr : (uart q line).run es u = some (u', received)) :
    ∃ offered accepted, readerLoop (readsOf es) u.reader = some (u'.reader, offered) ∧
      accepted.Sublist offered ∧
      received ++ items u'.commands = items u.commands ++ accepted ∧
      ((items u.commands).length + offered.length ≤ commandQueueSize → accepted = offered) := by
  induction es generalizing u received with
  | nil =>
      cases hr
      exact ⟨[], [], rfl, List.Sublist.refl _, (List.append_nil _).symm, fun _ => rfl⟩
  | cons e es ih =>
      rcases Transition.System.run_cons_some.mp hr with ⟨u₁, o, later, hs, hrest, rfl⟩
      rcases ih hrest with ⟨offered, accepted, hloop, hsub, hitems, hall⟩
      cases e with
      | read c =>
          simp only [uart, Option.map_eq_some_iff, Prod.mk.injEq] at hs
          rcases hs with ⟨⟨s, new⟩, hpass, rfl, rfl⟩
          rcases sends_items hq new u.commands with ⟨kept, hkept, hnow, hfirst⟩
          refine ⟨new ++ offered, kept ++ accepted, ?_, hkept.append hsub, ?_, ?_⟩
          · have hreads : readsOf (.read c :: es) = c :: readsOf es := rfl
            rw [hreads]
            simp [readerLoop, hpass, hloop]
          · rw [List.nil_append, hitems, hnow, List.append_assoc]
          · intro hfit
            have hlen := congrArg List.length hnow
            rw [List.length_append] at hlen hfit
            have hnew := hfirst (by omega)
            rw [hnew, hall (by rw [hlen, hnew]; omega)]
      | receive =>
          have hreads : readsOf (.receive :: es) = readsOf es := rfl
          simp only [uart] at hs
          cases hwait : items u.commands with
          | nil =>
              rw [hq.empty _ hwait] at hs
              cases hs
              rw [hwait] at hitems hall
              exact ⟨offered, accepted, hloop, hsub, hitems, hall⟩
          | cons item rest =>
              rcases hq.received _ _ _ hwait with ⟨s', hreceive, hleft⟩
              rw [hreceive] at hs
              cases hs
              rw [hleft] at hitems hall
              refine ⟨offered, accepted, hloop, hsub, ?_, ?_⟩
              · rw [List.singleton_append, List.cons_append, hitems]
                rfl
              · intro hfit
                rw [List.length_cons] at hfit
                exact hall (by omega)

end Queue

/-! ## The reader -/

section Reader

variable {Q : Type} {q : CommandQueue Q} {line : Bytes}

theorem readerPass_collects {s : LineState} {current : Bytes} (h : s.Collects current)
    (c : Option UInt8) :
    ∃ s' offered current', readerPass c s = some (s', offered) ∧ s'.Collects current' := by
  cases c with
  | none => exact ⟨s, [], current, rfl, h⟩
  | some c =>
      by_cases hlf : c = 0x0a
      · subst hlf
        rcases readerPass_newline h with ⟨s', offered, hpass, hs', -⟩
        exact ⟨s', offered, [], hpass, hs'⟩
      · rcases readerPass_text h hlf with ⟨s', hpass, hs'⟩
        exact ⟨s', [], _, hpass, hs'⟩

theorem uart_total (es : List UartEvent) {u : Uart Q} (h : ∃ current, u.reader.Collects current) :
    ∃ u' received, (uart q line).run es u = some (u', received) ∧
      ∃ current, u'.reader.Collects current := by
  refine Transition.System.run_total
    (fun u : Uart Q => ∃ current, u.reader.Collects current) ?_ es h
  rintro e u ⟨current, hu⟩
  cases e with
  | read c =>
      rcases readerPass_collects hu c with ⟨s', offered, current', hpass, hs'⟩
      refine ⟨⟨s', offered.foldl (fun commands item => q.xQueueSend item commands) u.commands⟩,
        [], ?_, current', hs'⟩
      simp only [uart, hpass, Option.map_some]
  | receive =>
      cases hreceive : q.xQueueReceive u.commands with
      | none => exact ⟨u, [], by simp only [uart, hreceive], current, hu⟩
      | some r =>
          obtain ⟨item, commands⟩ := r
          exact ⟨⟨u.reader, commands⟩, [item], by simp only [uart, hreceive], current, hu⟩

theorem uart_collects (hline : line.length = lineSize) {u : Uart Q}
    (h : (uart q line).Reachable u) : ∃ current, u.reader.Collects current := by
  rcases h with ⟨received, es, hr⟩
  have hstart : LineState.Collects (LineState.entry line) [] := by
    constructor <;> simp [LineState.entry, hline, lineSize]
  have htotal := @uart_total Q q line es (uart q line).init ⟨[], hstart⟩
  rcases htotal with ⟨u', received', hr', hu'⟩
  cases hr.symm.trans hr'
  exact hu'

theorem Carries.cString {text item : Bytes} (h : Carries text item) (hz : 0 ∉ text) :
    Device.cString item = text := by
  have hlt : text.length < item.length := (List.getElem?_eq_some_iff.mp h.nul).1
  have hsplit : item = text ++ 0 :: item.drop (text.length + 1) := by
    have hget : item[text.length] = 0 := (List.getElem?_eq_some_iff.mp h.nul).2
    have htail : item.drop text.length = 0 :: item.drop (text.length + 1) := by
      rw [List.drop_eq_getElem_cons hlt, hget]
    have hparts := List.take_append_drop text.length item
    rw [h.text, htail] at hparts
    exact hparts.symm
  rw [hsplit]
  unfold Device.cString
  rw [List.takeWhile_append_of_pos fun c hc => by
    have hne : c ≠ 0 := fun hc0 => hz (hc0 ▸ hc)
    simpa using hne]
  simp

/-- A line of printable characters that fits is handed over whole, and nothing else is. -/
theorem readerLoop_line {text : Bytes} (hctrl : ∀ c ∈ text, 0x20 ≤ c) (hfits : Fits text)
    {s : LineState} {current : Bytes} (hs : s.Collects current) (hf : s.Fresh)
    {reads : List (Option UInt8)} (hreads : reads.reduceOption = text ++ [0x0a]) :
    ∃ s' item, readerLoop reads s = some (s', [item]) ∧ s'.Fresh ∧ cString item = text := by
  have hnot (c : UInt8) (hc : c < 0x20) : c ∉ text := by
    intro hmem
    exact absurd (hctrl c hmem) (by simpa using hc)
  have hentry : s = LineState.entry s.line := by
    rcases s with ⟨buffer, used, overflow⟩
    rcases hf with ⟨rfl, rfl⟩
    rfl
  have hcommands : commandLines reads.reduceOption = [text] := by
    have hclosed := (Lines.line_append 0x0a (hnot 0x0a (by decide)) []).1
    have hcr : withoutCr text = text := by
      unfold withoutCr
      rw [List.filter_eq_self]
      intro c hc
      have hne : c ≠ 0x0d := fun hc0 => hnot 0x0d (by decide) (hc0 ▸ hc)
      simpa using hne
    rw [hreads, commandLines, hclosed]
    simp [hcr, hfits]
  have htail : withoutCr (Lines.tail 0x0a reads.reduceOption) = [] := by
    rw [hreads, Lines.tail_stop]
    rfl
  rcases readerLoop_collects s.line hs.size reads with ⟨s', offered, hloop, hs', hoffered⟩
  rw [hcommands] at hoffered
  rw [htail] at hs'
  cases hoffered with
  | cons hitem hnil =>
      cases hnil
      rw [← hentry] at hloop
      have hov : s'.overflow = false := by
        by_contra hov
        have hlong := hs'.overflow.mp (by simpa using hov)
        simp [lineSize] at hlong
      exact ⟨s', _, hloop, ⟨hs'.used hov, hov⟩, hitem.cString (hnot 0 (by decide))⟩

end Reader

/-! ## From the line to the queue -/

section Stored

variable {Q : Type} {q : CommandQueue Q} {items : Q → List Bytes} {line : Bytes}

/-- While such a line is read the queue may be emptied too; with room for one more, what
waited before and then the line are what was received and what waits. -/
theorem uart_stores (hq : q.Documented items) (hline : line.length = lineSize) {text : Bytes}
    (hctrl : ∀ c ∈ text, 0x20 ≤ c) (hfits : Fits text) {u : Uart Q}
    (hu : (uart q line).Reachable u) (hf : u.reader.Fresh) {es : List UartEvent}
    (hes : (readsOf es).reduceOption = text ++ [0x0a]) :
    ∃ u' received item, (uart q line).run es u = some (u', received) ∧ u'.reader.Fresh ∧
      cString item = text ∧
      ((items u.commands).length < commandQueueSize →
        received ++ items u'.commands = items u.commands ++ [item]) := by
  rcases uart_collects hline hu with ⟨current, hcurrent⟩
  have htotal := @uart_total Q q line es u ⟨current, hcurrent⟩
  rcases htotal with ⟨u', received, hr, -⟩
  rcases run_queue hq hr with ⟨offered, accepted, hloop, -, hitems, hall⟩
  rcases readerLoop_line hctrl hfits hcurrent hf hes with ⟨s', item, hone, hs', hitem⟩
  cases hloop.symm.trans hone
  refine ⟨u', received, item, hr, hs', hitem, fun hroom => ?_⟩
  rw [hitems, hall hroom]

theorem uart_turn (hq : q.Documented items) {before received later : List Bytes} {item : Bytes}
    {u u' : Uart Q} (hu : received ++ items u.commands = before ++ [item]) {es : List UartEvent}
    (hr : (uart q line).run es u = some (u', later))
    (hlen : before.length < (received ++ later).length) :
    (received ++ later)[before.length]? = some item := by
  rcases run_queue hq hr with ⟨offered, accepted, -, -, hitems, -⟩
  have hwhole : (received ++ later) ++ items u'.commands = before ++ item :: accepted := by
    rw [List.append_assoc, hitems, ← List.append_assoc, hu, List.append_assoc,
      List.singleton_append]
  have hget : ((received ++ later) ++ items u'.commands)[before.length]? = some item := by
    rw [hwhole, List.getElem?_append_right (Nat.le_refl _), Nat.sub_self]
    rfl
  rwa [List.getElem?_append_left hlen] at hget

end Stored

end SwitchController.Device
