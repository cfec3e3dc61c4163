import SwitchController.Host.Track

/-! # Sending keeps the invariant

A workflow starts with a new generation, which makes every closure of earlier ones
stale, and has at most one closure of its own. Only its timer sends a load, and by then
no path is shown.
-/

namespace SwitchController.Host.App

open Memory Device FlatJson

/-! ## Calls and disconnections -/

section Calls

variable {held : List Echo} {hand : List (Nat × Callback)} {w : World}

theorem SamePresented.refl (p : Presenter) : SamePresented p p := ⟨rfl, rfl, rfl, rfl⟩

/-- Everything but the presenter and its timers stays where it is. -/
theorem Inv.presenter (h : Inv held hand w) {p : Presenter}
    (same : SamePresented w.presenter p) : Inv held hand { w with presenter := p } :=
  h.lose rfl same (.refl _) (.refl _) (fun _ hl => .inl hl) (.refl _) (.refl _)

theorem Inv.call_negative (h : Inv held hand w) (callback : Callback) {reply : Reply}
    (hneg : (reply.get "ok").truthy = false) : Inv held hand (w.call callback reply) := by
  have hsame := answer_negative callback w.presenter hneg
  have htimers : w.timers ++ World.scheduled w.now (w.presenter.answer callback reply).2 =
      w.timers := by
    rw [hsame.2, List.append_nil]
  unfold World.call
  dsimp only
  rw [htimers]
  exact h.presenter hsame.1

/-- A new generation makes every closure stale. -/
theorem Inv.renew (h : Inv held hand w) {p : Presenter}
    (generation : p.generation = w.presenter.generation + 1)
    (lastPath : p.lastPath = w.presenter.lastPath)
    (path : p.path = none ∨ p.path = w.presenter.path ∧ p.crc = w.presenter.crc) :
    Inv held hand { w with presenter := p } ∧
      World.current hand { w with presenter := p } = [] := by
  have hstale : ∀ g ∈ w.closures hand, g ≠ p.generation := by
    intro g hg hc
    have hle := h.generations g hg
    omega
  have hnone : World.current hand { w with presenter := p } = [] := by
    apply List.filter_eq_nil_iff.mpr
    intro g hg
    simpa using hstale g hg
  refine ⟨?_, hnone⟩
  refine { h with
    generations := ?generations, single := ?single, waiting := ?waiting, loading := ?loading
    showing := ?showing, confirmed := ?confirmed }
  case generations =>
      intro g hg
      have hle := h.generations g hg
      show g ≤ p.generation
      omega
  case single => rw [hnone]; exact Nat.zero_le 1
  case waiting =>
      intro t ht hc
      exact absurd hc (hstale _ (mem_closures.mpr (.inr ⟨t, ht, rfl⟩)))
  case loading =>
      intro number command candidate hmem
      exact absurd rfl (hstale _ (mem_closures.mpr (.inl ⟨_, hmem, rfl⟩)))
  case showing =>
      intro q hq
      have hpath : p.path = some q := hq
      rcases path with hnone | ⟨hpath', hcrc⟩
      · rw [hnone] at hpath
        cases hpath
      · rcases h.showing q (hpath' ▸ hpath) with ⟨number, file, command, r, hread, hsum, hrest⟩
        exact ⟨number, file, command, r, hread, hcrc.trans hsum, hrest⟩
  case confirmed =>
      intro q hq
      exact h.confirmed q (lastPath ▸ hq)

theorem closing_points (link : Option Link) :
    (World.closingLines link).filterMap Line.point = [] := by
  unfold World.closingLines
  cases link with
  | none => rfl
  | some link =>
      dsimp only
      split <;> rfl

theorem mem_closing {link : Option Link} {l : Line} (h : l ∈ World.closingLines link) :
    l = .closing := by
  unfold World.closingLines at h
  cases link with
  | none => cases h
  | some link =>
      dsimp only at h
      split at h
      · exact List.mem_singleton.mp h
      · cases h

theorem Inv.disconnect (h : Inv held hand w) :
    Inv held hand w.disconnect := by
  have hless : Inv held hand { w with
      link := none, ready := false, connected := false, pending := [], pressed := []
      axes := centered, wire := w.wire ++ World.closingLines w.link } := by
    refine h.lose rfl (.refl _) (List.nil_sublist _) (.refl _) ?_ ?_ (.refl _)
    · intro l hl
      rcases List.mem_append.mp hl with hl | hl
      · rcases List.mem_append.mp hl with hl | hl
        · exact .inl (List.mem_append_left _ hl)
        · exact .inr (mem_closing hl)
      · cases hl
    · show ((w.wire ++ World.closingLines w.link ++ []).filterMap Line.point).Sublist _
      rw [List.append_nil, List.filterMap_append, closing_points, List.append_nil]
      exact (List.sublist_append_left _ _).filterMap _
  exact (hless.renew (p := w.presenter.reset.1) rfl rfl (.inl rfl)).1

end Calls

/-! ## Sending -/

section Sending

variable {held : List Echo} {hand : List (Nat × Callback)} {w : World}

/-- A failed send uses up its place. -/
theorem Inv.bump (h : Inv held hand w) (hpending : w.pending = []) :
    Inv held hand { w with seq := w.seq % lastId + 1, sends := w.sends + 1 } := by
  refine { h with
    seq := ?seq, pending := ?pending, lines := ?lines, echoes := ?echoes, bounded := ?bounded
    loading := ?loading }
  case seq =>
      show w.seq % lastId + 1 = idOf (w.sends + 1)
      rw [h.seq, idOf_succ]
  case pending =>
      intro m hm
      have hmem : m ∈ w.pending := hm
      rw [hpending] at hmem
      cases hmem
  case lines => exact fun l hl => ⟨Nat.le_succ_of_le (h.lines l hl).1, (h.lines l hl).2⟩
  case echoes =>
      intro r hr
      have hstamp := h.echoes r hr
      exact ⟨hstamp.id, Nat.le_succ_of_le hstamp.number, hstamp.loaded, hstamp.crc, hstamp.past,
        hstamp.latest⟩
  case bounded => exact fun x hx => Nat.le_succ_of_le (h.bounded x hx)
  case loading =>
      intro number command candidate hmem
      have hload := h.loading number command candidate hmem
      exact ⟨hload.path, hload.positive, Nat.le_succ_of_le hload.sent, hload.lines, hload.echoes,
        hload.points⟩

/-- The entry replaces the one of its key, if there is one. -/
theorem setPending_split {pending : List (Nat × Pending)} (hkeys : (pending.map Prod.fst).Nodup)
    (seq : Nat) (entry : Pending) :
    ∃ before old after, pending = before ++ old ++ after ∧ (∀ m ∈ old, m.1 = seq) ∧
      (∀ m ∈ before ++ after, m.1 ≠ seq) ∧
      World.setPending seq entry pending = before ++ [(seq, entry)] ++ after := by
  unfold World.setPending
  by_cases hany : pending.any (·.1 = seq) = true
  · rw [if_pos hany]
    rcases List.any_eq_true.mp hany with ⟨m, hm, hkey⟩
    have hkey : m.1 = seq := by simpa using hkey
    rcases List.append_of_mem hm with ⟨before, after, rfl⟩
    have hother : ∀ m' ∈ before ++ after, m'.1 ≠ seq := by
      intro m' hm' hc
      rw [List.map_append, List.map_cons, List.nodup_middle, ← List.map_append] at hkeys
      have hfresh := (List.nodup_cons.mp hkeys).1
      exact hfresh (List.mem_map.mpr ⟨m', hm', hc.trans hkey.symm⟩)
    refine ⟨before, [m], after, by simp, by simpa using hkey, hother, ?_⟩
    have hsame : ∀ l : List (Nat × Pending), (∀ m' ∈ l, m'.1 ≠ seq) →
        l.map (fun m => if m.1 = seq then (seq, entry) else m) = l := by
      intro l hl
      refine (List.map_congr_left fun m' hm' => if_neg (hl m' hm')).trans (List.map_id l)
    rw [List.map_append, List.map_cons, if_pos hkey, hsame before, hsame after]
    · simp
    · exact fun m' hm' => hother m' (List.mem_append_right _ hm')
    · exact fun m' hm' => hother m' (List.mem_append_left _ hm')
  · rw [if_neg hany]
    refine ⟨pending, [], [], by simp, by simp, ?_, by simp⟩
    intro m hm hc
    apply hany
    rw [List.append_nil] at hm
    exact List.any_eq_true.mpr ⟨m, hm, by simpa using hc⟩

/-- What the window may send: a load only for the current workflow, and nothing that
would give the workflow a second closure. -/
structure Sendable (hand : List (Nat × Callback)) (w : World) (request : Request)
    (callback : Option Callback) : Prop where
  valid : request.Valid
  generation : ∀ c, callback = some c → c.generation ≤ w.presenter.generation
  sourced : ∀ c, callback = some c → Sourced w.history c
  alone : ∀ c, callback = some c → c.generation = w.presenter.generation → w.current hand = []
  load : ∀ command, request = .tag (.load command) →
    w.current hand = [] ∧ w.presenter.path = none
  loaded : ∀ generation command candidate,
    callback = some (.presentLoaded generation command candidate) → request = .tag (.load command)

/-- The entry of the next command. -/
def World.entry (request : Request) (callback : Option Callback) (w : World) : Pending where
  kind := request.kind
  sent := w.now
  callback := callback
  number := w.sends + 1

/-- The world after a line was queued. -/
def World.queued (link : Link) (request : Request) (callback : Option Callback) (w : World) :
    World :=
  { w with
    seq := w.seq % lastId + 1
    sends := w.sends + 1
    link := some { link with
      outgoing := link.outgoing ++ [.sent (w.sends + 1) (w.seq % lastId + 1) request] }
    pending := World.setPending (w.seq % lastId + 1) (w.entry request callback) w.pending }

theorem queued_lines {link : Link} (hlink : w.link = some link) (request : Request)
    (callback : Option Callback) :
    (w.queued link request callback).lines =
      w.lines ++ [.sent (w.sends + 1) (w.seq % lastId + 1) request] := by
  unfold World.lines World.outgoing
  rw [hlink]
  exact (List.append_assoc ..).symm

theorem queued_track (held : List Echo) {link : Link} (hlink : w.link = some link)
    (request : Request) (callback : Option Callback) :
    (w.queued link request callback).track held =
      w.track held ++
        (Line.point (.sent (w.sends + 1) (w.seq % lastId + 1) request)).toList := by
  have hline : [Line.sent (w.sends + 1) (w.seq % lastId + 1) request].filterMap Line.point =
      (Line.point (.sent (w.sends + 1) (w.seq % lastId + 1) request)).toList := by
    cases hpoint : Line.point (.sent (w.sends + 1) (w.seq % lastId + 1) request) <;>
      simp [hpoint]
  unfold World.track
  rw [queued_lines hlink, List.filterMap_append, hline, ← List.append_assoc]
  rfl

/-- The point of a new line, if it is a load. -/
theorem sent_point {number id : Nat} {request : Request} {x : Point}
    (h : x ∈ (Line.point (.sent number id request)).toList) :
    ∃ command, request = .tag (.load command) ∧ x = (number, decodeHex command.hex) := by
  cases request with
  | status | release | state => cases h
  | tag command =>
      cases command with
      | unload => cases h
      | load command => exact ⟨command, rfl, List.mem_singleton.mp h⟩

theorem callsOf_append (left right : List (Nat × Pending)) :
    World.callsOf (left ++ right) = World.callsOf left ++ World.callsOf right :=
  List.filterMap_append

/-- The callbacks after a line was queued, and how many belong to the current workflow. -/
theorem queued_calls (h : Inv held hand w) (link : Link) {request : Request}
    {callback : Option Callback} (hs : Sendable hand w request callback) :
    (∀ c ∈ (w.queued link request callback).calls,
      c ∈ w.calls ∨ c.1 = w.sends + 1 ∧ callback = some c.2) ∧
    ((w.queued link request callback).current hand).length ≤ 1 := by
  rcases setPending_split h.keys (w.seq % lastId + 1) (w.entry request callback) with
    ⟨before, old, after, hpending, -, -, hset⟩
  have hcalls : w.calls =
      World.callsOf before ++ World.callsOf old ++ World.callsOf after := by
    rw [World.calls, hpending, callsOf_append, callsOf_append]
  have hnew : (w.queued link request callback).calls = World.callsOf before ++
      (callback.map fun c => (w.sends + 1, c)).toList ++ World.callsOf after := by
    have hentry : World.callsOf [(w.seq % lastId + 1, w.entry request callback)] =
        (callback.map fun c => (w.sends + 1, c)).toList := by
      cases callback <;> rfl
    rw [← hentry, ← callsOf_append, ← callsOf_append, ← hset]
    rfl
  constructor
  · intro c hc
    rw [hnew] at hc
    rw [hcalls]
    rcases List.mem_append.mp hc with hc | hc
    · rcases List.mem_append.mp hc with hc | hc
      · exact .inl (List.mem_append_left _ (List.mem_append_left _ hc))
      · rcases Option.map_eq_some_iff.mp (Option.mem_toList.mp hc) with ⟨d, hd, rfl⟩
        exact .inr ⟨rfl, hd⟩
    · exact .inl (List.mem_append_right _ hc)
  · have hsingle := h.single
    have hgeneration : (w.queued link request callback).presenter.generation =
        w.presenter.generation := rfl
    have htimers : (w.queued link request callback).timers = w.timers := rfl
    unfold World.current World.closures at hsingle ⊢
    rw [hgeneration, htimers, hnew]
    rw [hcalls] at hsingle
    simp only [List.map_append, List.filter_append, List.length_append] at hsingle ⊢
    cases callback with
    | none =>
        simp only [Option.map_none, Option.toList_none, List.map_nil, List.filter_nil,
          List.length_nil]
        omega
    | some c =>
        simp only [Option.map_some, Option.toList_some, List.map_cons, List.map_nil]
        by_cases hcurrent : c.generation = w.presenter.generation
        · have hnone := hs.alone c rfl hcurrent
          unfold World.current World.closures at hnone
          rw [hcalls] at hnone
          have hlength := congrArg List.length hnone
          simp only [List.map_append, List.filter_append, List.length_append,
            List.length_nil] at hlength
          have hone := List.length_filter_le (fun g => decide (g = w.presenter.generation))
            [c.generation]
          simp only [List.length_singleton] at hone
          omega
        · rw [List.filter_cons_of_neg (by simpa using hcurrent)]
          simp only [List.filter_nil, List.length_nil]
          omega

/-- Ids, keys and places of the pending commands fit together. -/
structure Numbered (w : World) : Prop where
  seq : w.seq = idOf w.sends
  keys : (w.pending.map Prod.fst).Nodup
  pending : ∀ m ∈ w.pending, m.1 = idOf m.2.number ∧ 0 < m.2.number ∧ m.2.number ≤ w.sends ∧
    w.sends < m.2.number + lastId

theorem Inv.numbered (h : Inv held hand w) : Numbered w := ⟨h.seq, h.keys, h.pending⟩

/-- The new command takes the place of the one with its id, if that is still pending. -/
theorem mem_queued_pending (hkeys : (w.pending.map Prod.fst).Nodup) (link : Link)
    (request : Request) (callback : Option Callback) (m : Nat × Pending) :
    m ∈ (w.queued link request callback).pending ↔
      m = (w.seq % lastId + 1, w.entry request callback) ∨
        m ∈ w.pending ∧ m.1 ≠ w.seq % lastId + 1 := by
  rcases setPending_split hkeys (w.seq % lastId + 1) (w.entry request callback) with
    ⟨before, old, after, hpending, hold, hother, hset⟩
  have hnew : (w.queued link request callback).pending =
      before ++ [(w.seq % lastId + 1, w.entry request callback)] ++ after := hset
  rw [hnew, hpending]
  simp only [List.mem_append, List.mem_singleton]
  constructor
  · rintro ((hm | hm) | hm)
    · exact .inr ⟨.inl (.inl hm), hother m (List.mem_append_left _ hm)⟩
    · exact .inl hm
    · exact .inr ⟨.inr hm, hother m (List.mem_append_right _ hm)⟩
  · rintro (hm | ⟨(hm | hm) | hm, hkey⟩)
    · exact .inl (.inr hm)
    · exact .inl (.inl hm)
    · exact absurd (hold m hm) hkey
    · exact .inr hm

theorem queued_keys (hkeys : (w.pending.map Prod.fst).Nodup) (link : Link) (request : Request)
    (callback : Option Callback) :
    ((w.queued link request callback).pending.map Prod.fst).Nodup := by
  rcases setPending_split hkeys (w.seq % lastId + 1) (w.entry request callback) with
    ⟨before, old, after, hpending, -, hother, hset⟩
  have hnew : (w.queued link request callback).pending =
      before ++ [(w.seq % lastId + 1, w.entry request callback)] ++ after := hset
  have hrest : (before ++ after).Sublist w.pending := by
    rw [hpending]
    exact (List.sublist_append_left _ _).append (.refl _)
  have hkept := hkeys.sublist (hrest.map Prod.fst)
  rw [hnew, List.append_assoc, List.map_append, List.map_append, List.map_singleton,
    List.singleton_append, List.nodup_middle, ← List.map_append]
  refine List.nodup_cons.mpr ⟨?_, hkept⟩
  intro hmem
  rcases List.mem_map.mp hmem with ⟨m, hm, hkey⟩
  exact hother m hm hkey

theorem Numbered.queued (h : Numbered w) (link : Link) (request : Request)
    (callback : Option Callback) : Numbered (w.queued link request callback) := by
  have hseq : w.seq % lastId + 1 = idOf (w.sends + 1) := by rw [h.seq, idOf_succ]
  refine ⟨hseq, queued_keys h.keys link request callback, ?_⟩
  · intro m hm
    rcases (mem_queued_pending h.keys link request callback m).mp hm with rfl | ⟨hm, hother⟩
    · exact ⟨hseq, Nat.succ_pos _, Nat.le_refl _, Nat.lt_add_of_pos_right lastId_pos⟩
    · rcases h.pending m hm with ⟨hkey, hpos, hle, hlt⟩
      refine ⟨hkey, hpos, Nat.le_succ_of_le hle, ?_⟩
      -- at the end of the period the new command has this key
      by_contra hc
      have hperiod : w.sends + 1 = m.2.number + lastId := by
        have hlate : ¬ w.sends + 1 < m.2.number + lastId := hc
        omega
      apply hother
      rw [hkey, hseq, hperiod, idOf_period hpos]

theorem mem_queued_lines {link : Link} (hlink : w.link = some link) {request : Request}
    {callback : Option Callback} {l : Line} (hl : l ∈ (w.queued link request callback).lines) :
    l ∈ w.lines ∨ l = .sent (w.sends + 1) (w.seq % lastId + 1) request := by
  rw [queued_lines hlink] at hl
  exact (List.mem_append.mp hl).imp_right List.mem_singleton.mp

theorem mem_queued_track {link : Link} (hlink : w.link = some link) {request : Request}
    {callback : Option Callback} {x : Point}
    (hx : x ∈ (w.queued link request callback).track held) :
    x ∈ w.track held ∨ ∃ command, request = .tag (.load command) ∧
      x = (w.sends + 1, decodeHex command.hex) := by
  rw [queued_track held hlink] at hx
  exact (List.mem_append.mp hx).imp_right sent_point

theorem mem_queued_calls (h : Inv held hand w) (link : Link) {request : Request}
    {callback : Option Callback} (hs : Sendable hand w request callback) {c : Nat × Callback}
    (hc : c ∈ hand ++ (w.queued link request callback).calls) :
    c ∈ hand ++ w.calls ∨ c.1 = w.sends + 1 ∧ callback = some c.2 := by
  rcases List.mem_append.mp hc with hc | hc
  · exact .inl (List.mem_append_left _ hc)
  · exact ((queued_calls h link hs).1 c hc).imp_left (List.mem_append_right _)

/-- A load that waits is not disturbed: the workflow sends no second one. -/
theorem Loading.queue (h : Inv held hand w) {link : Link} (hlink : w.link = some link)
    {request : Request} {callback : Option Callback} (hs : Sendable hand w request callback)
    {number : Nat} {command : LoadCommand} {candidate : String}
    (hold : (number, .presentLoaded w.presenter.generation command candidate) ∈ hand ++ w.calls) :
    Loading held (w.queued link request callback) number command := by
  have hload := h.loading number command candidate hold
  have hsent := hload.sent
  have hnoload : ∀ command', request ≠ .tag (.load command') := by
    intro command' hc
    have hnone := (hs.load command' hc).1
    have hin : w.presenter.generation ∈ w.current hand :=
      mem_current.mpr ⟨mem_closures.mpr (.inl ⟨_, hold, rfl⟩), rfl⟩
    rw [hnone] at hin
    cases hin
  constructor
  case path => exact hload.path
  case positive => exact hload.positive
  case sent => exact Nat.le_succ_of_le hsent
  case lines =>
      intro l hl hn
      rcases mem_queued_lines hlink hl with hl | rfl
      · exact hload.lines l hl hn
      · have hbad : w.sends + 1 = number := hn
        omega
  case echoes => exact hload.echoes
  case points =>
      intro x hx
      rcases mem_queued_track hlink hx with hx | ⟨command', hc, -⟩
      · exact hload.points x hx
      · exact absurd hc (hnoload command')

/-- The load of the new line waits from now on. -/
theorem Loading.new (h : Inv held hand w) {link : Link} (hlink : w.link = some link)
    {command : LoadCommand} {callback : Option Callback}
    (hs : Sendable hand w (.tag (.load command)) callback) :
    Loading held (w.queued link (.tag (.load command)) callback) (w.sends + 1) command := by
  constructor
  case path => exact (hs.load command rfl).2
  case positive => exact Nat.succ_pos _
  case sent => exact Nat.le_refl _
  case lines =>
      intro l hl hn
      rcases mem_queued_lines hlink hl with hl | rfl
      · have hle := (h.lines l hl).1
        omega
      · rfl
  case echoes =>
      intro r hr hn
      have hle := (h.echoes r hr).number
      omega
  case points =>
      intro x hx
      rcases mem_queued_track hlink hx with hx | ⟨command', hc, rfl⟩
      · have hle := h.bounded x hx
        exact ⟨Nat.le_succ_of_le hle, fun hc => by omega⟩
      · cases hc
        exact ⟨Nat.le_refl _, fun _ => .inr rfl⟩

theorem Inv.queue (h : Inv held hand w) {link : Link} (hlink : w.link = some link)
    {request : Request} {callback : Option Callback} (hs : Sendable hand w request callback) :
    Inv held hand (w.queued link request callback) := by
  have hnumbered := h.numbered.queued link request callback
  have hseq : w.seq % lastId + 1 = idOf (w.sends + 1) := by rw [h.seq, idOf_succ]
  refine { h with
    seq := ?seq, keys := ?keys, pending := ?pending, lines := ?lines, echoes := ?echoes
    sorted := ?sorted, bounded := ?bounded, generations := ?generations, sources := ?sources
    single := ?single, loading := ?loading, showing := ?showing }
  case seq => exact hseq
  case keys => exact hnumbered.keys
  case pending => exact hnumbered.pending
  case lines =>
      intro l hl
      rcases mem_queued_lines hlink hl with hl | rfl
      · exact ⟨Nat.le_succ_of_le (h.lines l hl).1, (h.lines l hl).2⟩
      · exact ⟨Nat.le_refl _, Nat.succ_pos _, hseq, hs.valid⟩
  case echoes =>
      intro r hr
      have hstamp := h.echoes r hr
      exact ⟨hstamp.id, Nat.le_succ_of_le hstamp.number, hstamp.loaded, hstamp.crc, hstamp.past,
        hstamp.latest⟩
  case sorted =>
      rw [queued_track held hlink, List.map_append]
      apply List.pairwise_append.mpr ⟨h.sorted, ?_, ?_⟩
      · cases Line.point (.sent (w.sends + 1) (w.seq % lastId + 1) request) <;> simp
      · intro a ha b hb
        rcases List.mem_map.mp ha with ⟨x, hx, rfl⟩
        rcases List.mem_map.mp hb with ⟨y, hy, rfl⟩
        rcases sent_point hy with ⟨command, -, rfl⟩
        exact Nat.le_succ_of_le (h.bounded x hx)
  case bounded =>
      intro x hx
      rcases mem_queued_track hlink hx with hx | ⟨command, -, rfl⟩
      · exact Nat.le_succ_of_le (h.bounded x hx)
      · exact Nat.le_refl _
  case generations =>
      intro g hg
      rcases mem_closures.mp hg with ⟨c, hc, rfl⟩ | ⟨t, ht, rfl⟩
      · rcases mem_queued_calls h link hs hc with hc | ⟨-, hc⟩
        · exact h.generations _ (mem_closures.mpr (.inl ⟨c, hc, rfl⟩))
        · exact hs.generation c.2 hc
      · exact h.generations _ (mem_closures.mpr (.inr ⟨t, ht, rfl⟩))
  case sources =>
      refine ⟨fun c hc => ?_, h.sources.2⟩
      rcases mem_queued_calls h link hs hc with hc | ⟨-, hc⟩
      · exact h.sources.1 c hc
      · exact hs.sourced c.2 hc
  case single => exact (queued_calls h link hs).2
  case loading =>
      intro number command candidate hmem
      rcases mem_queued_calls h link hs hmem with hold | ⟨hnew, hcallback⟩
      · exact .queue h hlink hs hold
      · cases hs.loaded _ _ _ hcallback
        cases hnew
        exact .new h hlink hs
  case showing =>
      intro path hpath
      rcases h.showing path hpath with ⟨number, file, command, r, hread, hcrc, hpoints, hlast⟩
      refine ⟨number, file, command, r, hread, hcrc, ?_, hlast⟩
      intro x hx
      rcases mem_queued_track hlink hx with hx | ⟨command', hc, -⟩
      · exact hpoints x hx
      · have hnone := (hs.load command' hc).2
        rw [show w.presenter.path = some path from hpath] at hnone
        cases hnone

/-- Sending keeps the invariant, whether there is a link with room, one without or none. -/
theorem Inv.send (h : Inv held hand w) {request : Request} {callback : Option Callback}
    (hs : Sendable hand w request callback) : Inv held hand (w.send request callback) := by
  unfold World.send
  split
  case h_1 =>
      cases callback with
      | none => exact h
      | some callback => exact h.call_negative callback rfl
  case h_2 link hlink =>
      dsimp only
      split
      · exact h.queue hlink hs
      · have hempty : Inv held hand { w with pending := [] } :=
          h.lose rfl (.refl _) (List.nil_sublist _) (.refl _)
            (fun _ hl => .inl hl) (.refl _) (.refl _)
        exact (hempty.bump rfl).disconnect

end Sending

/-! ## Workflows -/

section Workflows

variable {held : List Echo} {hand : List (Nat × Callback)} {w : World}

theorem ReadFrom.more {history more : List Entry} {path : String} {command : LoadCommand}
    {file : Bytes} (h : ReadFrom history path command file) :
    ReadFrom (history ++ more) path command file := ⟨List.mem_append_left _ h.1, h.2⟩

theorem Sourced.more {history more : List Entry} {c : Callback} (h : Sourced history c) :
    Sourced (history ++ more) c := by
  cases c with
  | presentRemoved | presentLoaded =>
      rcases h with ⟨file, hread⟩
      exact ⟨file, hread.more⟩
  | removeRemoved => trivial

theorem ConfirmedLoad.more {history more : List Entry} {path : String}
    (h : ConfirmedLoad history path) : ConfirmedLoad (history ++ more) path := by
  rcases h with ⟨file, command, generation, r, sends, hread, hobserved, hanswered, hrest⟩
  exact ⟨file, command, generation, r, sends, hread.more, List.mem_append_left _ hobserved,
    List.mem_append_left _ hanswered, hrest⟩

theorem lastObserved_append (history : List Entry) {e : Entry}
    (h : ∀ r sends, e ≠ .observed r sends) :
    lastObserved (history ++ [e]) = lastObserved history := by
  unfold lastObserved observations
  cases e with
  | observed r sends => exact absurd rfl (h r sends)
  | presented | answered => simp

theorem Inv.record (h : Inv held hand w) {e : Entry} (he : ∀ r sends, e ≠ .observed r sends) :
    Inv held hand { w with history := w.history ++ [e] } := by
  have hlast := lastObserved_append w.history he
  refine { h with
    observed := ?observed, sources := ?sources, loading := ?loading, showing := ?showing
    confirmed := ?confirmed }
  case observed =>
      intro r hr
      exact h.observed r (hlast ▸ hr)
  case sources =>
      refine ⟨fun c hc => (h.sources.1 c hc).more, fun t ht => ?_⟩
      rcases h.sources.2 t ht with ⟨file, hread⟩
      exact ⟨file, hread.more⟩
  case loading =>
      intro number command candidate hmem
      have hload := h.loading number command candidate hmem
      exact ⟨hload.path, hload.positive, hload.sent, hload.lines, hload.echoes, hload.points⟩
  case showing =>
      intro path hpath
      rcases h.showing path hpath with ⟨number, file, command, r, hread, hcrc, hpoints, hr, hrest⟩
      exact ⟨number, file, command, r, hread.more, hcrc, hpoints, hlast.trans hr, hrest⟩
  case confirmed => exact fun path hpath => (h.confirmed path hpath).more

/-- A workflow starts with a removal. -/
theorem Inv.start (h : Inv held hand w) {p : Presenter} {callback : Callback}
    (generation : p.generation = w.presenter.generation + 1)
    (lastPath : p.lastPath = w.presenter.lastPath)
    (path : p.path = w.presenter.path ∧ p.crc = w.presenter.crc)
    (hcallback : callback.generation = p.generation) (hsource : Sourced w.history callback)
    (hremoval : ∀ generation command candidate,
      callback ≠ .presentLoaded generation command candidate) :
    Inv held hand (World.send (.tag .unload) (some callback) { w with presenter := p }) := by
  have hnew := h.renew generation lastPath (.inr path)
  refine hnew.1.send ⟨trivial, ?_, ?_, fun _ _ _ => hnew.2, ?_, ?_⟩
  · intro c hc
    cases hc
    exact Nat.le_of_eq hcallback
  · intro c hc
    cases hc
    exact hsource
  · intro command hc
    cases hc
  · intro generation command candidate hc
    exact absurd (Option.some.inj hc) (hremoval _ _ _)

theorem Inv.present (h : Inv held hand w) (resolve : String → String) (path : String)
    (file : Except String Bytes) : Inv held hand (w.present resolve path file) := by
  unfold World.present
  by_cases hskip : w.ready = false ∨ w.presenter.busy = true
  · rw [if_pos hskip]
    exact h
  rw [if_neg hskip]
  have hidle : ¬ w.presenter.busy = true := fun hc => hskip (.inr hc)
  unfold Presenter.present
  rw [if_neg hidle]
  cases hfile : file with
  | error text => exact h
  | ok data =>
      cases hload : loadBin data with
      | error text =>
          rw [Presenter.readBin_ok, hload]
          exact h
      | ok command =>
          rw [Presenter.readBin_ok, hload]
          have hrecord := h.record (e := .presented (resolve path) (.ok data))
            (fun _ _ hc => by cases hc)
          have hread : ReadFrom (w.history ++ [.presented (resolve path) (.ok data)])
              (resolve path) command data :=
            ⟨List.mem_append_right _ List.mem_cons_self, hload⟩
          exact hrecord.start
            (p := (w.presenter.start "Retirando antes de presentar…").1)
            rfl rfl ⟨rfl, rfl⟩ rfl ⟨data, hread⟩ (fun _ _ _ hc => by cases hc)

theorem Inv.remove (h : Inv held hand w) : Inv held hand w.remove := by
  unfold World.remove
  split
  swap
  · exact h
  unfold Presenter.remove
  by_cases hbusy : w.presenter.busy = true
  · rw [if_pos hbusy]
    exact h
  · rw [if_neg hbusy]
    exact h.start (p := (w.presenter.start "Retirando…").1) rfl rfl ⟨rfl, rfl⟩ rfl trivial
      (fun _ _ _ hc => by cases hc)

/-- A current job is the only closure of its workflow. -/
theorem Inv.job_alone (h : Inv held hand w) {i : Nat} {due : Rat} {job : Job}
    (htimer : w.timers[i]? = some (due, job))
    (hcurrent : job.generation = w.presenter.generation) :
    World.current hand { w with timers := w.timers.eraseIdx i } = [] := by
  rcases List.getElem?_eq_some_iff.mp htimer with ⟨hi, hget⟩
  have hsplit : w.timers = w.timers.take i ++ (due, job) :: w.timers.drop (i + 1) := by
    rw [← hget, List.getElem_cons_drop, List.take_append_drop]
  have herase : w.timers.eraseIdx i = w.timers.take i ++ w.timers.drop (i + 1) :=
    List.eraseIdx_eq_take_drop_succ ..
  have hcalls (timers : List (Rat × Job)) : World.calls { w with timers } = w.calls := rfl
  have hsingle := h.single
  apply List.length_eq_zero_iff.mp
  unfold World.current World.closures at hsingle ⊢
  rw [hsplit] at hsingle
  rw [herase]
  simp only [List.map_append, List.filter_append, List.length_append, List.map_cons, hcalls]
    at hsingle ⊢
  rw [List.filter_cons_of_pos (by simpa using hcurrent), List.length_cons] at hsingle
  omega

theorem Inv.fire (h : Inv held hand w) (i : Nat) : Inv held hand (w.fire i) := by
  unfold World.fire
  split
  case h_1 => exact h
  case h_2 due job htimer =>
      split
      swap
      · exact h
      have hlost : Inv held hand { w with timers := w.timers.eraseIdx i } :=
        h.lose rfl (.refl _) (.refl _) (List.eraseIdx_sublist ..)
          (fun _ hl => .inl hl) (.refl _) (.refl _)
      have hmem : (due, job) ∈ w.timers := List.mem_of_getElem? htimer
      unfold Presenter.fire
      by_cases hstale : job.generation ≠ w.presenter.generation
      · rw [if_pos hstale]
        exact hlost
      rw [if_neg hstale]
      have hcurrent : job.generation = w.presenter.generation := not_not.mp hstale
      have hpath := h.waiting _ hmem hcurrent
      rcases h.sources.2 _ hmem with ⟨file, hread⟩
      have hnone := h.job_alone htimer hcurrent
      have hready : Inv held hand { w with
          timers := w.timers.eraseIdx i
          presenter := { w.presenter with phase := "Presentando…" } } :=
        hlost.presenter ⟨rfl, rfl, rfl, rfl⟩
      have hs : Sendable hand { w with
          timers := w.timers.eraseIdx i
          presenter := { w.presenter with phase := "Presentando…" } } (.tag (.load job.command))
          (some (.presentLoaded job.generation job.command job.candidate)) := by
        refine ⟨⟨file, hread.2⟩, ?_, ?_, fun _ _ _ => hnone, fun _ _ => ⟨hnone, hpath⟩, ?_⟩
        · intro c hc
          cases hc
          exact Nat.le_of_eq hcurrent
        · intro c hc
          cases hc
          exact ⟨file, hread⟩
        · intro generation command candidate hc
          cases hc
          rfl
      exact hready.send hs

/-! ### Commands without a callback -/

theorem Inv.sendPlain (h : Inv held hand w) {request : Request} (hv : request.Valid)
    (hplain : ∀ command, request ≠ .tag (.load command)) :
    Inv held hand (w.send request none) := by
  refine h.send ⟨hv, ?_, ?_, ?_, fun command hc => absurd hc (hplain command), ?_⟩
  all_goals intros; contradiction

theorem Inv.releaseAll (h : Inv held hand w) : Inv held hand w.releaseAll := by
  have hcentered : Inv held hand { w with pressed := [], axes := centered } :=
    h.still rfl rfl
  unfold World.releaseAll
  dsimp only
  split
  · exact hcentered.sendPlain trivial fun _ hc => by cases hc
  · exact hcentered

theorem Inv.connect (h : Inv held hand w) (opens : Bool) : Inv held hand (w.connect opens) := by
  have hoff := h.disconnect
  unfold World.connect
  cases opens with
  | false => exact hoff.disconnect
  | true =>
      have hlinked : Inv held hand { w.disconnect with
          link := some { id := w.disconnect.links, alive := true, outgoing := [] }
          links := w.disconnect.links + 1, lastReply := w.disconnect.now } :=
        hoff.still rfl rfl
      exact hlinked.sendPlain trivial fun _ hc => by cases hc

theorem Inv.timeout (h : Inv held hand w) (m : Nat × Pending) :
    Inv held hand (w.timeout m) := by
  unfold World.timeout
  split
  · exact h
  have hpopped : Inv held hand { w with pending := World.popPending m.1 w.pending } :=
    h.lose rfl (.refl _) List.filter_sublist (.refl _)
      (fun _ hl => .inl hl) (.refl _) (.refl _)
  cases m.2.callback with
  | some callback =>
      have hneg : ((World.noConfirmation m.2.kind m.1).get "ok").truthy = false := rfl
      have hcalled := hpopped.call_negative callback hneg
      dsimp only
      split
      · exact hcalled.sendPlain trivial fun _ hc => by cases hc
      · exact hcalled
  | none =>
      dsimp only
      split
      · exact hpopped.still rfl rfl
      · exact hpopped

theorem Inv.timeouts (h : Inv held hand w) (pending : List (Nat × Pending)) :
    Inv held hand (pending.foldl (fun w m => w.timeout m) w) := by
  induction pending generalizing w with
  | nil => exact h
  | cons m pending ih => exact ih (h.timeout m)

theorem Inv.heartbeat (h : Inv held hand w) : Inv held hand w.heartbeat := by
  unfold World.heartbeat
  split_ifs
  · exact h.sendPlain (stateFor_inRange w.pressed w.axes.2) fun _ hc => by cases hc
  · have hsent : Inv held hand (w.send .status none) := h.sendPlain trivial fun _ hc => by cases hc
    exact hsent.still rfl rfl
  · exact h
  · exact h

end Workflows

end SwitchController.Host.App
