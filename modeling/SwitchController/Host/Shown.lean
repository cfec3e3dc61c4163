import SwitchController.Host.Execute
import SwitchController.Host.Observed

/-! # The file shown is the file in the device

As long as no load is confirmed by a reply so late that its id has come round again, a
presented path stands for the bytes the device held when it gave the last observed
answer. Loads keep their order through the link, the device and the way back, so an
equal checksum cannot belong to another file.
-/

namespace SwitchController.Host.App

open Memory Device

/-! ## The timer, the link and the device -/

section Steps

variable {w : World}

theorem timeout_history (m : Nat × Pending) : (w.timeout m).history = w.history := by
  unfold World.timeout
  split
  · rfl
  cases m.2.callback with
  | some callback =>
      dsimp only
      split
      · exact send_history _ _
      · rfl
  | none =>
      dsimp only
      split <;> rfl

theorem timeouts_history (pending : List (Nat × Pending)) :
    (pending.foldl (fun w m => w.timeout m) w).history = w.history := by
  induction pending generalizing w with
  | nil => rfl
  | cons m pending ih => exact ih.trans (timeout_history m)

theorem heartbeat_history : w.heartbeat.history = w.history := by
  unfold World.heartbeat
  split_ifs
  · exact send_history _ _
  · exact send_history _ _
  · rfl
  · rfl

/-- Only the replies of a tick enter the history. -/
theorem tick_drained (hopen : ¬ w.closed = true) :
    w.tick.history = (World.drain 150 w).history := by
  unfold World.tick
  rw [if_neg hopen, heartbeat_history]
  have htimed := timeouts_history (w := World.drain 150 w) (World.drain 150 w).pending
  split
  · exact htimed
  · exact htimed

theorem tick_history : w.history <+: w.tick.history := by
  by_cases hclosed : w.closed = true
  · unfold World.tick
    rw [if_pos hclosed]
  · rw [tick_drained hclosed]
    exact drain_history 150

theorem Inv.tick (h : Inv [] [] w) : Inv [] [] w.tick ∨ Late w.tick.history := by
  by_cases hclosed : w.closed = true
  · unfold World.tick
    rw [if_pos hclosed]
    exact .inl h
  rcases h.drain 150 with hdrained | hlate
  · have htimed := hdrained.timeouts (World.drain 150 w).pending
    left
    unfold World.tick
    rw [if_neg hclosed]
    apply Inv.heartbeat
    split
    · exact htimed.disconnect
    · exact htimed
  · right
    rw [tick_drained hclosed]
    exact hlate

theorem Inv.write (h : Inv [] [] w) : Inv [] [] w.write := by
  unfold World.write
  split
  case h_2 => exact h
  case h_1 link hlink =>
      split
      case h_2 => exact h
      case h_1 line rest houtgoing =>
          split
          swap
          · exact h
          have hlines : World.lines { w with
              link := some { link with outgoing := rest }, wire := w.wire ++ [line] } =
              w.lines := by
            unfold World.lines World.outgoing
            rw [hlink]
            show w.wire ++ [line] ++ rest = w.wire ++ link.outgoing
            rw [houtgoing, List.append_assoc, List.singleton_append]
          refine h.lose rfl (.refl _) (.refl _) (.refl _) ?_ ?_ (.refl _)
          · rw [hlines]
            exact fun l hl => .inl hl
          · rw [hlines]

theorem Inv.breakLink (h : Inv [] [] w) : Inv [] [] w.breakLink := by
  unfold World.breakLink
  split
  case h_2 => exact h
  case h_1 link hlink =>
      split
      swap
      · exact h
      have hlines : World.lines { w with
          link := some { link with alive := false }
          events := w.events ++ [(link.id, .exception)], wire := w.wire ++ [.closing] } =
          w.wire ++ ([.closing] ++ link.outgoing) := List.append_assoc ..
      have hold : w.lines = w.wire ++ link.outgoing := by
        unfold World.lines World.outgoing
        rw [hlink]
        rfl
      refine h.lose rfl (.refl _) (.refl _) (.refl _) ?_ ?_ ?_
      · rw [hlines, hold]
        intro l hl
        rcases List.mem_append.mp hl with hl | hl
        · exact .inl (List.mem_append_left _ hl)
        · rcases List.mem_cons.mp hl with hl | hl
          · exact .inr hl
          · exact .inl (List.mem_append_right _ hl)
      · have hclosing : [Line.closing].filterMap Line.point = [] := rfl
        rw [hlines, hold, List.filterMap_append, List.filterMap_append, List.filterMap_append,
          hclosing, List.nil_append]
      · have hevents : (w.events ++ [(link.id, Item.exception)]).filterMap itemEcho =
            w.events.filterMap itemEcho := by
          rw [List.filterMap_append]
          exact List.append_nil _
        unfold World.echoes
        rw [hevents]

theorem Inv.deliver (h : Inv [] [] w) : Inv [] [] w.deliver := by
  unfold World.deliver
  split
  case h_2 => exact h
  case h_1 link echo rest hlink hincoming =>
      split
      swap
      · exact h
      refine h.lose rfl (.refl _) (.refl _) (.refl _) (fun _ hl => .inl hl)
        (.refl _) ?_
      have hechoes : World.echoes { w with
          events := w.events ++ [(link.id, .line echo)], incoming := rest } = w.echoes := by
        unfold World.echoes
        rw [hincoming, List.filterMap_append, List.append_assoc]
        rfl
      rw [hechoes]

theorem Inv.loseLine (h : Inv [] [] w) : Inv [] [] { w with wire := w.wire.tail } := by
  have hlines : (World.lines { w with wire := w.wire.tail }).Sublist w.lines :=
    (List.tail_sublist _).append (.refl _)
  exact h.lose rfl (.refl _) (.refl _) (.refl _)
    (fun _ hl => .inl (hlines.subset hl)) (hlines.filterMap _) (.refl _)

theorem Inv.loseReply (h : Inv [] [] w) : Inv [] [] { w with incoming := w.incoming.tail } :=
  h.lose rfl (.refl _) (.refl _) (.refl _) (fun _ hl => .inl hl) (.refl _)
    ((List.Sublist.refl (w.events.filterMap itemEcho)).append (List.tail_sublist w.incoming))

/-- Whatever else happens to the device keeps its tag. -/
theorem Inv.device (h : Inv [] [] w) {c : Core} (htruth : ∃ log, Truth c log)
    (htag : c.nfc.presentTag = w.core.nfc.presentTag) : Inv [] [] { w with core := c } :=
  h.shrink
    { seq := rfl, sends := rfl, changes := rfl, newest := rfl, history := rfl
      truth := htruth, tag := htag, presenter := .refl _, pending := .refl _, timers := .refl _
      calls := fun _ hc => hc, current := Nat.le_refl _, lines := fun _ hl => .inl hl
      points := .refl _, echoes := .refl _ }

/-- A point given once more keeps the order. -/
theorem sorted_again {before after : List Nat} {n k : Nat}
    (h : (before ++ [n] ++ after).Pairwise (· ≤ ·)) :
    (before ++ List.replicate k n ++ [n] ++ after).Pairwise (· ≤ ·) := by
  have hrun : List.replicate k n ++ [n] = List.replicate (k + 1) n := List.replicate_succ'.symm
  rw [List.append_assoc before, hrun]
  rw [List.append_assoc, List.pairwise_append] at h ⊢
  rcases h with ⟨hbefore, hrest, hcross⟩
  rw [List.singleton_append, List.pairwise_cons] at hrest
  refine ⟨hbefore, ?_, ?_⟩
  · have hsame : (List.replicate (k + 1) n).Pairwise (· ≤ ·) :=
      List.pairwise_replicate.mpr (.inr (Nat.le_refl n))
    apply List.pairwise_append.mpr ⟨hsame, hrest.2, ?_⟩
    intro a ha b hb
    rw [List.eq_of_mem_replicate ha]
    exact hrest.1 b hb
  · intro a ha b hb
    rcases List.mem_append.mp hb with hb | hb
    · rw [List.eq_of_mem_replicate hb]
      exact hcross a ha n List.mem_cons_self
    · exact hcross a ha b (List.mem_cons_of_mem _ hb)

/-- The device has executed the oldest line. -/
structure Moves (w : World) (line : Line) (rest : List Line) (core : Core) (changes newest : Nat)
    (new : List Echo) : Prop where
  wire : w.wire = line :: rest
  truth : ∃ log, Truth core log
  later : w.changes ≤ changes
  same : changes = w.changes → core.nfc.presentTag = w.core.nfc.presentTag
  point : line.point = some (newest, core.nfc.presentTag) ∨
    line.point = none ∧ newest = w.newest ∧
      (core.nfc.presentTag = w.core.nfc.presentTag ∨ core.nfc.presentTag = none)
  echoes : ∀ r ∈ new, r.number = line.number ∧ r.point = (newest, core.nfc.presentTag) ∧
    r.changes = changes ∧ r.answer.id = idOf line.number ∧ r.answer.loaded = core.tagLoaded ∧
    r.answer.crc = core.tagCrc

/-- The world after the line. -/
def World.moved (rest : List Line) (core : Core) (changes newest : Nat) (new : List Echo)
    (w : World) : World :=
  { w with wire := rest, core, changes, newest, incoming := w.incoming ++ new }

/-- The track after a line: its answers and the device stand at one point, which was on the
track before or is the old one without a tag. -/
theorem Moves.track {line : Line} {rest : List Line} {core : Core} {changes newest : Nat}
    {new : List Echo} (m : Moves w line rest core changes newest new) :
    ∃ before after,
      (w.moved rest core changes newest new).track [] =
        before ++ List.replicate new.length (newest, core.nfc.presentTag) ++
          [(newest, core.nfc.presentTag)] ++ after ∧
      ((before ++ [(newest, core.nfc.presentTag)] ++ after).map Prod.fst).Sublist
        ((w.track []).map Prod.fst) ∧
      ∀ x ∈ before ++ [(newest, core.nfc.presentTag)] ++ after,
        x ∈ w.track [] ∨ x.2 = none ∧ ∃ y ∈ w.track [], y.1 = x.1 := by
  have hnew : new.map Echo.point =
      List.replicate new.length (newest, core.nfc.presentTag) := by
    rw [← List.length_map (f := Echo.point)]
    refine List.eq_replicate_iff.mpr ⟨rfl, ?_⟩
    intro x hx
    rcases List.mem_map.mp hx with ⟨r, hr, rfl⟩
    exact (m.echoes r hr).2.1
  have hold : w.track [] = w.echoes.map Echo.point ++ [(w.newest, w.core.nfc.presentTag)] ++
      (line.point.toList ++ (rest ++ w.outgoing).filterMap Line.point) := by
    unfold World.track World.lines
    rw [m.wire, List.cons_append, List.filterMap_cons]
    cases line.point <;> rfl
  refine ⟨w.echoes.map Echo.point, (rest ++ w.outgoing).filterMap Line.point, ?_, ?_, ?_⟩
  · have hechoes : (w.moved rest core changes newest new).echoes = w.echoes ++ new :=
      (List.append_assoc ..).symm
    unfold World.track
    rw [List.nil_append, hechoes, List.map_append, hnew]
    rfl
  · rw [hold]
    rcases m.point with hpoint | ⟨hpoint, rfl, -⟩
    · rw [hpoint, Option.toList_some, List.append_assoc, List.append_assoc]
      exact ((List.Sublist.refl _).append (List.sublist_append_right _ _)).map _
    · rw [hpoint, Option.toList_none, List.nil_append, List.map_append, List.map_append,
        List.map_append, List.map_append]
      exact .refl _
  · rw [hold]
    intro x hx
    rcases List.mem_append.mp hx with hx | hx
    · rcases List.mem_append.mp hx with hx | hx
      · exact .inl (List.mem_append_left _ (List.mem_append_left _ hx))
      · rw [List.mem_singleton.mp hx]
        rcases m.point with hpoint | ⟨hpoint, rfl, htag | htag⟩
        · left
          rw [hpoint]
          exact List.mem_append_right _ (List.mem_append_left _ List.mem_cons_self)
        · left
          rw [htag]
          exact List.mem_append_left _ (List.mem_append_right _ List.mem_cons_self)
        · right
          exact ⟨htag, _, List.mem_append_left _ (List.mem_append_right _ List.mem_cons_self), rfl⟩
    · exact .inl (List.mem_append_right _ (List.mem_append_right _ hx))

section Moving

variable {line : Line} {rest : List Line} {core : Core} {changes newest : Nat} {new : List Echo}

theorem Moves.oldest (m : Moves w line rest core changes newest new) : line ∈ w.lines := by
  unfold World.lines
  rw [m.wire]
  exact List.mem_append_left _ List.mem_cons_self

theorem Moves.lines (m : Moves w line rest core changes newest new) {l : Line}
    (hl : l ∈ (w.moved rest core changes newest new).lines) : l ∈ w.lines := by
  unfold World.lines
  rw [m.wire]
  exact List.mem_cons_of_mem _ hl

theorem mem_moved_echoes {r : Echo} (hr : r ∈ (w.moved rest core changes newest new).echoes) :
    r ∈ w.echoes ∨ r ∈ new := by
  rcases List.mem_append.mp hr with hr | hr
  · exact .inl (List.mem_append_left _ hr)
  · exact (List.mem_append.mp hr).imp_left (List.mem_append_right _)

theorem Moves.points (m : Moves w line rest core changes newest new) {x : Point}
    (hx : x ∈ (w.moved rest core changes newest new).track []) :
    x ∈ w.track [] ∨ x.2 = none ∧ ∃ y ∈ w.track [], y.1 = x.1 := by
  rcases m.track with ⟨before, after, htrack, -, hpoints⟩
  apply hpoints x
  rw [htrack] at hx
  simp only [List.mem_append, List.mem_replicate, List.mem_singleton] at hx ⊢
  rcases hx with ((hx | ⟨-, hx⟩) | hx) | hx
  · exact .inl (.inl hx)
  · exact .inl (.inr hx)
  · exact .inl (.inr hx)
  · exact .inr hx

/-- A reply that was right about the tag is right after the line. -/
theorem Moves.latest (m : Moves w line rest core changes newest new) {r : Echo}
    (hpast : r.changes ≤ w.changes)
    (hlatest : r.changes = w.changes → r.tag = w.core.nfc.presentTag) :
    r.changes ≤ changes ∧ (r.changes = changes → r.tag = core.nfc.presentTag) := by
  have hlater := m.later
  refine ⟨Nat.le_trans hpast hlater, fun hc => ?_⟩
  rw [m.same (by omega)]
  exact hlatest (by omega)

/-- The answers to the line say what the device holds. -/
theorem Moves.stamped (m : Moves w line rest core changes newest new) (h : Inv [] [] w)
    {r : Echo} (hr : r ∈ new) : Stamped w.sends changes core.nfc.presentTag r := by
  rcases m.echoes r hr with ⟨hnumber, hpoint, hchanges, hid, hloaded, hcrc⟩
  rcases m.truth with ⟨log, ht⟩
  have htag : r.tag = core.nfc.presentTag := congrArg Prod.snd hpoint
  constructor
  case id => rw [hid, hnumber]
  case number =>
      rw [hnumber]
      exact (h.lines line m.oldest).1
  case loaded => rw [hloaded, htag, ht.loaded, ht.held]
  case crc =>
      intro tag hsome
      have hheld : heldTag log = some tag := by rw [← ht.held, ← htag, hsome]
      rw [hcrc, ht.crc, hheld]
  case past => exact Nat.le_of_eq hchanges
  case latest => exact fun _ => htag

/-- When its own line was executed, the answer carries the file of the load. -/
theorem Loading.move (m : Moves w line rest core changes newest new) {number : Nat}
    {command : LoadCommand} (hload : Loading [] w number command) :
    Loading [] (w.moved rest core changes newest new) number command := by
  constructor
  case path => exact hload.path
  case positive => exact hload.positive
  case sent => exact hload.sent
  case lines => exact fun l hl => hload.lines l (m.lines hl)
  case echoes =>
      intro r hr hn
      rcases mem_moved_echoes hr with hr | hr
      · exact hload.echoes r hr hn
      · rcases m.echoes r hr with ⟨hnumber, hpoint, -⟩
        have hself := hload.lines line m.oldest (hnumber.symm.trans hn)
        rcases m.point with hmoved | ⟨hnone, -⟩
        · have hsame : r.point = (number, decodeHex command.hex) :=
            hpoint.trans (Option.some.inj (hmoved.symm.trans hself))
          exact ⟨congrArg Prod.fst hsame, congrArg Prod.snd hsame⟩
        · cases hnone.symm.trans hself
  case points =>
      intro x hx
      rcases m.points hx with hx | ⟨hnone, y, hy, hfirst⟩
      · exact hload.points x hx
      · rw [← hfirst]
        exact ⟨(hload.points y hy).1, fun _ => .inl hnone⟩

theorem Inv.move (h : Inv [] [] w) (m : Moves w line rest core changes newest new) :
    Inv [] [] (w.moved rest core changes newest new) := by
  refine { h with
    truth := ?truth, lines := ?lines, echoes := ?echoes, sorted := ?sorted, bounded := ?bounded
    observed := ?observed, loading := ?loading, showing := ?showing }
  case truth => exact m.truth
  case lines => exact fun l hl => h.lines l (m.lines hl)
  case echoes =>
      intro r hr
      rcases mem_moved_echoes hr with hr | hr
      · have hstamp := h.echoes r hr
        have hlatest := m.latest hstamp.past hstamp.latest
        exact ⟨hstamp.id, hstamp.number, hstamp.loaded, hstamp.crc, hlatest.1, hlatest.2⟩
      · exact m.stamped h hr
  case sorted =>
      rcases m.track with ⟨before, after, htrack, hfirsts, -⟩
      have hsorted := h.sorted.sublist hfirsts
      rw [htrack, List.map_append, List.map_append, List.map_append, List.map_replicate,
        List.map_singleton]
      rw [List.map_append, List.map_append, List.map_singleton] at hsorted
      exact sorted_again hsorted
  case bounded =>
      intro x hx
      rcases m.points hx with hx | ⟨-, y, hy, hfirst⟩
      · exact h.bounded x hx
      · rw [← hfirst]
        exact h.bounded y hy
  case observed =>
      intro r hr
      rcases h.observed r hr with ⟨hpast, hlatest⟩
      exact m.latest hpast hlatest
  case loading =>
      intro number command candidate hmem
      exact .move m (h.loading number command candidate hmem)
  case showing =>
      intro path hpath
      rcases h.showing path hpath with ⟨number, file, command, r, hread, hcrc, hshown, hlast⟩
      refine ⟨number, file, command, r, hread, hcrc, ?_, hlast⟩
      intro x hx
      rcases m.points hx with hx | ⟨hnone, y, hy, hfirst⟩
      · exact hshown x hx
      · rw [← hfirst]
        exact ⟨(hshown y hy).1, .inl hnone⟩

end Moving

theorem Inv.execute {parse : Bytes → Option CJson} (hparse : ParsesFlat parse) (now : Int)
    (h : Inv [] [] w) : Inv [] [] (w.execute parse now) := by
  unfold World.execute
  split
  case h_1 => exact h
  case h_2 line rest hwire =>
      have hline : line ∈ w.lines := by
        unfold World.lines
        rw [hwire]
        exact List.mem_append_left _ List.mem_cons_self
      have hran := line_ran hparse (h.lines line hline).2 now h.truth
      dsimp only
      refine h.move (?_ : Moves w line rest _ _ _ _)
      constructor
      case wire => exact hwire
      case truth => exact hran.truth
      case later => exact Nat.le_add_right _ _
      case same =>
          intro hc
          apply hran.kept
          apply List.length_eq_zero_iff.mp
          omega
      case point =>
          cases hpoint : line.point with
          | none =>
              rcases hran.other hpoint with ⟨hload, htag⟩
              right
              rw [hload]
              exact ⟨rfl, rfl, htag⟩
          | some x =>
              rcases hran.load x hpoint with ⟨hload, hx⟩
              left
              rw [hload, hx]
              rfl
      case echoes =>
          intro r hr
          rcases List.mem_map.mp hr with ⟨a, ha, rfl⟩
          rcases hran.reporting a ha with ⟨hid, hloaded, hcrc⟩
          exact ⟨rfl, rfl, rfl, hid, hloaded, hcrc⟩

end Steps

/-! ## Runs -/

section Runs

variable {p : Platform} {parse : Bytes → Option CJson} {resolve : String → String} {w w' : World}

theorem perform_history (log : List Effect) : (w.perform log).history = w.history := by
  induction log generalizing w with
  | nil => rfl
  | cons e log ih =>
      apply ih.trans
      cases e with
      | send command callback => exact send_history _ _
      | schedule | changed | error => rfl

theorem connect_history (opens : Bool) : (w.connect opens).history = w.history := by
  unfold World.connect
  cases opens with
  | false => rfl
  | true =>
      dsimp only
      rw [if_pos rfl, send_history]
      rfl

theorem present_history (path : String) (file : Except String Bytes) :
    w.history <+: (w.present resolve path file).history := by
  unfold World.present
  split
  · exact List.prefix_refl _
  split
  · rw [perform_history]
    exact List.prefix_append _ _
  · rw [perform_history]

theorem remove_history : w.remove.history = w.history := by
  unfold World.remove
  split
  · exact perform_history _
  · rfl

theorem fire_history (i : Nat) : (w.fire i).history = w.history := by
  unfold World.fire
  split
  · rfl
  split
  · exact perform_history _
  · rfl

/-- What happened stays in the history. -/
theorem step_history {e : Event} (hs : step p parse resolve e w = some w') :
    w.history <+: w'.history := by
  have heq {u : World} (h : u.history = w.history) : w.history <+: u.history := by
    rw [h]
  cases e with
  | present path file => cases hs; exact present_history path file
  | tick => cases hs; exact tick_history
  | connect opens => cases hs; exact heq (connect_history opens)
  | remove => cases hs; exact heq remove_history
  | releaseAll => cases hs; exact heq releaseAll_history
  | fire i => cases hs; exact heq (fire_history i)
  | write =>
      cases hs
      apply heq
      unfold World.write
      split
      · split
        · split <;> rfl
        · rfl
      · rfl
  | breakLink =>
      cases hs
      apply heq
      unfold World.breakLink
      split
      · split <;> rfl
      · rfl
  | deliver =>
      cases hs
      apply heq
      unfold World.deliver
      split
      · split <;> rfl
      · rfl
  | execute now =>
      cases hs
      apply heq
      unfold World.execute
      split <;> rfl
  | disconnect | input | close | elapse | loseLine | loseReply | watchdog =>
      cases hs
      exact heq rfl
  | console call =>
      unfold step at hs
      dsimp only at hs
      split at hs
      · rcases Option.map_eq_some_iff.mp hs with ⟨r, -, rfl⟩
        exact heq rfl
      · cases hs

theorem inv_boot : Inv [] [] World.boot := by
  have htrack : World.track [] .boot = [(0, none)] := rfl
  have hclosures : World.closures [] .boot = [] := rfl
  constructor
  case seq => rfl
  case keys => exact List.nodup_nil
  case pending => exact fun m hm => absurd hm List.not_mem_nil
  case truth => exact ⟨[], Truth.boot⟩
  case lines => exact fun l hl => absurd hl List.not_mem_nil
  case echoes => exact fun r hr => absurd hr List.not_mem_nil
  case sorted =>
      rw [htrack]
      exact List.pairwise_singleton _ _
  case bounded =>
      rw [htrack]
      intro x hx
      rw [List.mem_singleton.mp hx]
      exact Nat.le_refl 0
  case observed => exact fun r hr => by cases hr
  case generations =>
      rw [hclosures]
      exact fun g hg => absurd hg List.not_mem_nil
  case sources =>
      exact ⟨fun c hc => absurd hc List.not_mem_nil, fun t ht => absurd ht List.not_mem_nil⟩
  case single => exact Nat.zero_le 1
  case waiting => exact fun t ht => absurd ht List.not_mem_nil
  case loading => exact fun number command candidate hc => absurd hc List.not_mem_nil
  case showing => exact fun path hpath => by cases hpath
  case confirmed => exact fun path hpath => by cases hpath

theorem Inv.step (hparse : ParsesFlat parse) (h : Inv [] [] w) {e : Event}
    (hs : step p parse resolve e w = some w') : Inv [] [] w' ∨ Late w'.history := by
  cases e with
  | tick => cases hs; exact h.tick
  | connect opens => cases hs; exact .inl (h.connect opens)
  | disconnect => cases hs; exact .inl h.disconnect
  | present path file => cases hs; exact .inl (h.present resolve path file)
  | remove => cases hs; exact .inl h.remove
  | releaseAll => cases hs; exact .inl h.releaseAll
  | fire i => cases hs; exact .inl (h.fire i)
  | write => cases hs; exact .inl h.write
  | breakLink => cases hs; exact .inl h.breakLink
  | deliver => cases hs; exact .inl h.deliver
  | loseLine => cases hs; exact .inl h.loseLine
  | loseReply => cases hs; exact .inl h.loseReply
  | execute now => cases hs; exact .inl (h.execute hparse now)
  | input | elapse =>
      cases hs
      exact .inl (h.still rfl rfl)
  | close =>
      cases hs
      exact .inl (h.disconnect.still rfl rfl)
  | watchdog now =>
      cases hs
      rcases h.truth with ⟨log, ht⟩
      refine .inl (h.device ⟨_, ht.watchdog now⟩ ?_)
      unfold Device.watchdog
      split <;> rfl
  | console call =>
      unfold App.step at hs
      dsimp only at hs
      split at hs
      swap
      · cases hs
      rename_i hcall
      rcases Option.map_eq_some_iff.mp hs with ⟨r, hr, rfl⟩
      rcases h.truth with ⟨log, ht⟩
      rcases ht.rep with ⟨a, ha⟩
      have hkeep := (console_step hcall ht.rep hr).1
      refine .inl (h.device ⟨_, truth_step ht hr⟩ ?_)
      rw [trace_tag (step_trace ha hr) ha, foldl_keepsTag hkeep]

theorem reachable_inv (hparse : ParsesFlat parse) (h : (window p parse resolve).Reachable w) :
    Inv [] [] w ∨ Late w.history := by
  apply h.invariant (fun w => Inv [] [] w ∨ Late w.history) (.inl inv_boot)
  intro e w w' o hinv hs
  rcases Option.map_eq_some_iff.mp hs with ⟨u, hu, heq⟩
  cases heq
  rcases hinv with hinv | hlate
  · exact hinv.step hparse hu
  · exact .inr (hlate.more (step_history hu))

end Runs

/-! ## The path shown -/

/-- What a shown path and a remembered one stand for. -/
structure FileShown (w : World) : Prop where
  path : ∀ path, w.presenter.path = some path → ∃ file command r,
    ReadFrom w.history path command file ∧ lastObserved w.history = some r ∧
    r.answer.loaded = true ∧ w.presenter.crc = some r.answer.crc.toNat ∧
    r.answer.crc = Crc32.standard file ∧
    (r.changes = w.changes → w.core.nfc.presentTag = some file)
  lastPath : ∀ path, w.presenter.lastPath = some path → ConfirmedLoad w.history path

/-- A shown path is confirmed by the last observed reply, and if nothing was loaded or
removed since that reply was given, the device holds the bytes read from the path. -/
theorem shown_is_loaded (p : Platform) (parse : Bytes → Option CJson) (hparse : ParsesFlat parse)
    (resolve : String → String) {w : World} (h : (window p parse resolve).Reachable w)
    (timely : ¬ Late w.history) : FileShown w := by
  have hinv : Inv [] [] w := (reachable_inv hparse h).resolve_right timely
  refine ⟨?_, hinv.confirmed⟩
  intro path hpath
  rcases hinv.showing path hpath with
    ⟨number, file, command, r, hread, hcrc, -, hlast, hloaded, htag, hsum⟩
  rcases loadBin_ok_iff.mp hread.2 with ⟨-, -, hcommand⟩
  have hstandard : r.answer.crc = Crc32.standard file := hsum.trans (crc32_eq_standard file)
  refine ⟨file, command, r, hread, hlast, hloaded, ?_, hstandard, ?_⟩
  · rw [hcrc, hstandard, hcommand]
  · intro hchanges
    rw [← (hinv.observed r hlast).2 hchanges]
    exact htag

/-! ## A session -/

/-- The state after an event; a call the device cannot take changes nothing. -/
def World.next (p : Platform) (parse : Bytes → Option CJson) (resolve : String → String)
    (w : World) (e : Event) : World := (step p parse resolve e w).getD w

/-- An event that always happens. -/
def Event.Free : Event → Prop
  | .console _ => False
  | _ => True

theorem run_next {p : Platform} {parse : Bytes → Option CJson} {resolve : String → String}
    (es : List Event) (h : ∀ e ∈ es, e.Free) (w : World) :
    (window p parse resolve).run es w = some (es.foldl (World.next p parse resolve) w, []) := by
  induction es generalizing w with
  | nil => rfl
  | cons e es ih =>
      have hstep : step p parse resolve e w = some (w.next p parse resolve e) := by
        have he := h e List.mem_cons_self
        cases e with
        | console => exact absurd he id
        | _ => rfl
      have hrest := ih (fun e' he' => h e' (List.mem_cons_of_mem _ he')) (w.next p parse resolve e)
      refine Transition.System.run_cons_some.mpr ⟨_, [], [], ?_, hrest, rfl⟩
      exact congrArg (Option.map fun w => (w, [])) hstep

/-- A file is read and presented, and every reply arrives. -/
def session : List Event :=
  [.connect true, .write, .execute 0, .deliver, .tick, .present "a" (.ok plainTag), .write,
    .execute 0, .deliver, .tick, .elapse (1 / 2), .fire 0, .write, .execute 0, .deliver, .tick]

theorem shown_is_loaded_session :
    ∃ w, (window blankPlatform parseFlat id).Reachable w ∧ w.presenter.path = some "a" ∧
      FileShown w := by
  have hfree : ∀ e ∈ session, e.Free := by simp [session, Event.Free]
  have hreach := (Transition.System.Reachable.start (window blankPlatform parseFlat id)).run
    (run_next session hfree World.boot)
  have hend : (session.foldl (World.next blankPlatform parseFlat id) .boot).presenter.path =
        some "a" ∧
      ((observations (session.foldl (World.next blankPlatform parseFlat id) .boot).history).all
        fun m => m.2 < lastId) = true := by
    decide +kernel
  refine ⟨_, hreach, hend.1, shown_is_loaded _ _ parseFlat_parses _ hreach ?_⟩
  rintro ⟨generation, command, candidate, r, sends, -, -, hobserved, hlate⟩
  have hmem : (r, sends) ∈ observations _ := List.mem_filterMap.mpr ⟨_, hobserved, rfl⟩
  have hsends : sends < lastId := of_decide_eq_true (List.all_eq_true.mp hend.2 _ hmem)
  omega

end SwitchController.Host.App
