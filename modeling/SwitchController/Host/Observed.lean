import SwitchController.Host.Sending

/-! # Replies keep the invariant

A reply is observed and then handed to the callback of its entry. A confirmed removal
takes the path away, a confirmed load sets it, and what the device held is known from the
place of the reply on the track. Only a reply whose id has come round again could be
taken for the wrong one.
-/

namespace SwitchController.Host.App

open Memory Device

/-! ## Replies -/

theorem reply_loaded (a : Answer) : (answerReply a).get "loaded" = .bool a.loaded := rfl

/-- A path that survives an observation was observed to be loaded. -/
theorem observe_path (p : Presenter) (a : Answer) :
    (p.observe (answerReply a)).1.generation = p.generation ∧
    (p.observe (answerReply a)).1.lastPath = p.lastPath ∧
    ((p.observe (answerReply a)).1.path = none ∨
      (p.observe (answerReply a)).1.path = p.path ∧ (p.observe (answerReply a)).1.crc = p.crc ∧
        a.loaded = true) := by
  unfold Presenter.observe
  dsimp only
  rw [reply_loaded]
  by_cases hkeep : (!(Value.bool a.loaded).truthy || !(answerReply a).hasCrc p.crc) = true
  · rw [if_pos hkeep]
    exact ⟨rfl, rfl, .inl rfl⟩
  · rw [if_neg hkeep]
    have hloaded : a.loaded = true := by
      by_contra hc
      have hfalse : a.loaded = false := by simpa using hc
      apply hkeep
      simp [Value.truthy, hfalse]
    exact ⟨rfl, rfl, .inr ⟨rfl, rfl, hloaded⟩⟩

section Replies

variable {held : List Echo} {hand : List (Nat × Callback)} {w : World} {r : Echo}

/-- The presenter observes the reply being handled. -/
theorem Inv.observe (h : Inv (r :: held) hand w) (sends : Nat) (connected : Bool) :
    Inv (r :: held) hand { w with
      connected, presenter := (w.presenter.observe (answerReply r.answer)).1
      history := w.history ++ [Entry.observed r sends] } := by
  rcases observe_path w.presenter r.answer with ⟨hgeneration, hlastPath, hpath⟩
  have hmem : r ∈ r :: held ++ w.echoes := List.mem_cons_self
  have hstamp := h.echoes r hmem
  have hlast : lastObserved (w.history ++ [Entry.observed r sends]) = some r := by
    unfold lastObserved observations
    simp
  refine { h with
    observed := ?observed, generations := ?generations, sources := ?sources, single := ?single
    waiting := ?waiting, loading := ?loading, showing := ?showing, confirmed := ?confirmed }
  case observed =>
      intro r' hr'
      cases (hlast.symm.trans hr')
      exact ⟨hstamp.past, hstamp.latest⟩
  case generations =>
      intro g hg
      show g ≤ (w.presenter.observe _).1.generation
      rw [hgeneration]
      exact h.generations g hg
  case sources =>
      refine ⟨fun c hc => (h.sources.1 c hc).more, fun t ht => ?_⟩
      rcases h.sources.2 t ht with ⟨file, hread⟩
      exact ⟨file, hread.more⟩
  case single =>
      show ((w.closures hand).filter (· = (w.presenter.observe _).1.generation)).length ≤ 1
      rw [hgeneration]
      exact h.single
  case waiting =>
      intro t ht hc
      have hnone := h.waiting t ht (hc.trans hgeneration)
      rcases hpath with hpath | ⟨hpath, -, -⟩
      · exact hpath
      · exact hpath.trans hnone
  case loading =>
      intro number command candidate hcall
      have hcall' : (number, Callback.presentLoaded w.presenter.generation command candidate) ∈
          hand ++ w.calls := by
        rw [← hgeneration]
        exact hcall
      have hload := h.loading number command candidate hcall'
      refine ⟨?_, hload.positive, hload.sent, hload.lines, hload.echoes, hload.points⟩
      rcases hpath with hpath | ⟨hpath, -, -⟩
      · exact hpath
      · exact hpath.trans hload.path
  case showing =>
      intro path hshown
      rcases hpath with hpath | ⟨hpath, hcrc, hloaded⟩
      · cases hpath.symm.trans hshown
      rcases h.showing path (hpath.symm.trans hshown) with
        ⟨number, file, command, r', hread, hsum, hpoints, -⟩
      -- the reply is on the track, so it shows this file or nothing
      have hpoint : r.point ∈ w.track (r :: held) :=
        List.mem_append_left _ (List.mem_append_left _ (List.mem_map_of_mem hmem))
      have htag : r.tag = some file := by
        rcases (hpoints _ hpoint).2 with hnone | hsome
        · have hstamped := hstamp.loaded
          rw [show r.tag = none from hnone, hloaded] at hstamped
          cases hstamped
        · exact hsome
      exact ⟨number, file, command, r, hread.more, hcrc.trans hsum, hpoints, hlast, hloaded, htag,
        hstamp.crc file htag⟩
  case confirmed =>
      intro path hshown
      exact (h.confirmed path (hlastPath.symm.trans hshown)).more

/-- A current callback in hand is the only closure of its workflow. -/
theorem Inv.alone {number : Nat} {callback : Callback}
    (h : Inv held ((number, callback) :: hand) w)
    (hcurrent : callback.generation = w.presenter.generation) : w.current hand = [] := by
  have hsingle := h.single
  have hcons : w.current ((number, callback) :: hand) =
      callback.generation :: w.current hand :=
    List.filter_cons_of_pos (by simpa using hcurrent)
  rw [hcons, List.length_cons] at hsingle
  exact List.length_eq_zero_iff.mp (by omega)

theorem Inv.drop {number : Nat} {callback : Callback}
    (h : Inv held ((number, callback) :: hand) w) : Inv held hand w := by
  have hcurrent : (w.current hand).Sublist (w.current ((number, callback) :: hand)) :=
    (List.sublist_cons_self _ _).filter _
  exact h.shrink
    { seq := rfl, sends := rfl, changes := rfl, newest := rfl, history := rfl
      truth := h.truth, tag := rfl, presenter := .refl _, pending := .refl _, timers := .refl _
      calls := fun _ hc => List.mem_cons_of_mem _ hc
      current := hcurrent.length_le
      lines := fun _ hl => .inl hl, points := .refl _, echoes := .refl _ }

/-- A confirmed removal takes the path away and may schedule the load. -/
theorem Inv.removed {number : Nat} {callback : Callback} {q : Presenter}
    {timers : List (Rat × Job)} (h : Inv held ((number, callback) :: hand) w)
    (hcurrent : callback.generation = w.presenter.generation) (hpath : q.path = none)
    (hlastPath : q.lastPath = w.presenter.lastPath)
    (hgeneration : q.generation = w.presenter.generation)
    (htimers : timers = [] ∨ ∃ t command candidate,
      callback = .presentRemoved w.presenter.generation command candidate ∧
        timers = [(t, ⟨w.presenter.generation, command, candidate⟩)]) :
    Inv held hand { w with presenter := q, timers := w.timers ++ timers } := by
  have hnone := h.alone hcurrent
  have hd := h.drop
  have hcases : ∀ t ∈ w.timers ++ timers, t ∈ w.timers ∨
      t.2.generation = w.presenter.generation ∧
        ∃ file, ReadFrom w.history t.2.candidate t.2.command file := by
    intro t ht
    rcases List.mem_append.mp ht with ht | ht
    · exact .inl ht
    · rcases htimers with rfl | ⟨due, command, candidate, rfl, rfl⟩
      · cases ht
      · rw [List.mem_singleton.mp ht]
        exact .inr ⟨rfl, h.sources.1 _ List.mem_cons_self⟩
  have hlength : timers.length ≤ 1 := by
    rcases htimers with rfl | ⟨due, command, candidate, -, rfl⟩
    · exact Nat.zero_le 1
    · exact Nat.le_refl 1
  refine { hd with
    generations := ?generations, sources := ?sources, single := ?single, waiting := ?waiting
    loading := ?loading, showing := ?showing, confirmed := ?confirmed }
  case generations =>
      intro g hg
      show g ≤ q.generation
      rw [hgeneration]
      rcases mem_closures.mp hg with ⟨c, hc, rfl⟩ | ⟨t, ht, rfl⟩
      · exact hd.generations _ (mem_closures.mpr (.inl ⟨c, hc, rfl⟩))
      · rcases hcases t ht with ht | ⟨ht, -⟩
        · exact hd.generations _ (mem_closures.mpr (.inr ⟨t, ht, rfl⟩))
        · exact Nat.le_of_eq ht
  case sources =>
      refine ⟨hd.sources.1, fun t ht => ?_⟩
      rcases hcases t ht with ht | ⟨-, hread⟩
      · exact hd.sources.2 t ht
      · exact hread
  case single =>
      have hclosures : World.closures hand { w with
          presenter := q, timers := w.timers ++ timers } =
          w.closures hand ++ timers.map (·.2.generation) := by
        unfold World.closures
        rw [List.append_assoc, ← List.map_append]
        rfl
      have hold : ((w.closures hand).filter (· = w.presenter.generation)).length = 0 :=
        congrArg List.length hnone
      have hnew := List.length_filter_le (fun g => decide (g = w.presenter.generation))
        (timers.map (·.2.generation))
      rw [List.length_map] at hnew
      unfold World.current
      rw [hclosures]
      rw [List.filter_append, List.length_append]
      change (List.filter (· = q.generation) _).length +
        (List.filter (· = q.generation) _).length ≤ 1
      rw [hgeneration]
      omega
  case waiting => exact fun _ _ _ => hpath
  case loading =>
      intro m command candidate hcall
      have hcall' : (m, Callback.presentLoaded w.presenter.generation command candidate) ∈
          hand ++ w.calls := by
        rw [← hgeneration]
        exact hcall
      have hin : w.presenter.generation ∈ w.current hand :=
        mem_current.mpr ⟨mem_closures.mpr (.inl ⟨_, hcall', rfl⟩), rfl⟩
      rw [hnone] at hin
      cases hin
  case showing =>
      intro path hshown
      cases hpath.symm.trans hshown
  case confirmed =>
      intro path hshown
      exact hd.confirmed path (hlastPath.symm.trans hshown)

/-- A confirmed load: the reply was given when the device held the file, every later point
is of this load, and no other load is on its way. -/
theorem Inv.loaded {number sends : Nat} {command : LoadCommand} {candidate : String}
    {q : Presenter}
    (h : Inv [r] ((number, .presentLoaded w.presenter.generation command candidate) :: hand) w)
    (hnumber : r.number = number) (hok : r.answer.ok = true) (hthere : r.answer.loaded = true)
    (hlast : lastObserved w.history = some r) (hobserved : .observed r sends ∈ w.history)
    (hanswered : .answered (.presentLoaded w.presenter.generation command candidate) r ∈ w.history)
    (hpath : q.path = some candidate) (hlastPath : q.lastPath = some candidate)
    (hcrc : q.crc = some command.crc) (hgeneration : q.generation = w.presenter.generation) :
    Inv [r] hand { w with presenter := q } := by
  have hnone := h.alone rfl
  have hd := h.drop
  have hload := h.loading number command candidate List.mem_cons_self
  have hr : r ∈ [r] ++ w.echoes := List.mem_cons_self
  rcases h.sources.1 _ List.mem_cons_self with ⟨file, hread⟩
  have hhex : decodeHex command.hex = some file := by
    rcases loadBin_ok_iff.mp hread.2 with ⟨-, -, hcommand⟩
    rw [hcommand]
    exact decodeHex_hex file
  rcases hload.echoes r hr hnumber with ⟨hnewest, htag⟩
  have hfile : r.tag = some file := htag.trans hhex
  have hsum := (h.echoes r hr).crc file hfile
  have hpoints : ∀ x ∈ w.track [r], x.1 = number ∧ (x.2 = none ∨ x.2 = some file) := by
    intro x hx
    have hle := (hload.points x hx).1
    have hge : number ≤ x.1 := by
      have hcons : w.track [r] = r.point :: w.track [] := rfl
      have hsorted := h.sorted
      rw [hcons, List.map_cons] at hsorted
      rw [hcons] at hx
      rcases List.mem_cons.mp hx with rfl | hx
      · exact Nat.le_of_eq hnewest.symm
      · have hfirst := (List.pairwise_cons.mp hsorted).1 x.1 (List.mem_map_of_mem hx)
        exact Nat.le_trans (Nat.le_of_eq hnewest.symm) hfirst
    have heq : x.1 = number := Nat.le_antisymm hle hge
    have hshows := (hload.points x hx).2 heq
    rw [hhex] at hshows
    exact ⟨heq, hshows⟩
  have hin (g : Nat) (hg : g ∈ w.closures hand) : g ≠ w.presenter.generation := by
    intro hc
    have hmem := mem_current.mpr ⟨hg, hc⟩
    rw [hnone] at hmem
    cases hmem
  refine { hd with
    generations := ?generations, single := ?single, waiting := ?waiting, loading := ?loading
    showing := ?showing, confirmed := ?confirmed }
  case generations =>
      intro g hg
      show g ≤ q.generation
      rw [hgeneration]
      exact hd.generations g hg
  case single =>
      show ((w.closures hand).filter (· = q.generation)).length ≤ 1
      rw [hgeneration]
      exact hd.single
  case waiting =>
      intro t ht hc
      exact absurd (hc.trans hgeneration) (hin _ (mem_closures.mpr (.inr ⟨t, ht, rfl⟩)))
  case loading =>
      intro m command' candidate' hcall
      exact absurd hgeneration (hin _ (mem_closures.mpr (.inl ⟨_, hcall, rfl⟩)))
  case showing =>
      intro path hshown
      cases hpath.symm.trans hshown
      exact ⟨number, file, command, r, hread, hcrc, hpoints, hlast, hthere, hfile, hsum⟩
  case confirmed =>
      intro path hshown
      cases hlastPath.symm.trans hshown
      exact ⟨file, command, _, r, sends, hread, hobserved, hanswered, hok, hthere, hfile, hsum⟩

/-- What `loaded` asks of a reply to take the load as done. -/
structure Confirms (command : LoadCommand) (a : Answer) : Prop where
  ok : a.ok = true
  loaded : a.loaded = true
  crc : a.crc.toNat = command.crc

theorem answerReply_hasCrc (a : Answer) (crc : Nat) :
    (answerReply a).hasCrc (some crc) = true ↔ a.crc.toNat = crc := by
  have hget : (answerReply a).get "crc" = .int a.crc.toNat := rfl
  simp [Reply.hasCrc, hget, Value.equals]

/-- The callback of the reply being handled. -/
theorem Inv.answer {number sends : Nat} {callback : Callback}
    (h : Inv [r] ((number, callback) :: hand) w)
    (hnumber : ∀ generation command candidate,
      callback = .presentLoaded generation command candidate → Confirms command r.answer →
        r.number = number)
    (hlast : lastObserved w.history = some r) (hobserved : .observed r sends ∈ w.history)
    (hanswered : .answered callback r ∈ w.history) :
    Inv [r] hand (w.call callback (answerReply r.answer)) := by
  unfold World.call
  dsimp only
  cases answer_answered w.presenter callback (answerReply r.answer) with
  | nothing same hlog =>
      rw [hlog, List.append_nil]
      exact h.drop.presenter same
  | removed current path lastPath generation hlog =>
      apply h.removed current path lastPath generation
      rcases hlog with hlog | ⟨command, candidate, hcallback, hlog⟩
      · exact .inl (hlog _)
      · exact .inr ⟨_, command, candidate, hcallback, hlog _⟩
  | loaded hcallback ok there sum path lastPath crc generation hlog =>
      subst hcallback
      rw [hlog, List.append_nil]
      have hconfirms := Confirms.mk ok there ((answerReply_hasCrc r.answer _).mp sum)
      exact h.loaded (hnumber _ _ _ rfl hconfirms) ok there hlast hobserved hanswered path lastPath
        crc generation

/-- Taking an entry out of `pending` keeps its callback in hand. -/
theorem Inv.take (h : Inv held [] w) {id : Nat} {m : Nat × Pending} {callback : Callback}
    (hfind : w.pending.find? (·.1 = id) = some m) (hcallback : m.2.callback = some callback)
    (lastReply : Rat) (ready : Bool) :
    Inv held [(m.2.number, callback)] { w with
      pending := World.popPending id w.pending, lastReply, ready } := by
  have hmem := List.mem_of_find?_eq_some hfind
  have hkey : m.1 = id := by simpa using List.find?_some hfind
  rcases List.append_of_mem hmem with ⟨before, after, hsplit⟩
  have hone : World.callsOf [m] = [(m.2.number, callback)] := by
    simp [World.callsOf, hcallback]
  have hcalls : w.calls =
      World.callsOf before ++ (m.2.number, callback) :: World.callsOf after := by
    have hcons : before ++ m :: after = before ++ ([m] ++ after) := rfl
    rw [World.calls, hsplit, hcons, callsOf_append, callsOf_append, hone]
    rfl
  have hrest : (World.popPending id w.pending).Sublist (before ++ after) := by
    unfold World.popPending
    rw [hsplit, List.filter_append, List.filter_cons_of_neg (by simpa using hkey)]
    exact List.filter_sublist.append List.filter_sublist
  have hsub : (World.callsOf (World.popPending id w.pending)).Sublist
      (World.callsOf before ++ World.callsOf after) := by
    rw [← callsOf_append]
    exact hrest.filterMap _
  have hperm : ((m.2.number, callback) :: (World.callsOf before ++ World.callsOf after)).Perm
      w.calls := by
    rw [hcalls]
    exact List.perm_middle.symm
  exact h.shrink
    { seq := rfl, sends := rfl, changes := rfl, newest := rfl, history := rfl
      truth := h.truth, tag := rfl, presenter := .refl _
      pending := List.filter_sublist, timers := .refl _
      calls := fun c hc => by
        have hc' : c ∈ (m.2.number, callback) :: World.callsOf (World.popPending id w.pending) := hc
        exact hperm.subset ((hsub.cons_cons _).subset hc')
      current := by
        have hclosures := ((hsub.cons_cons (m.2.number, callback)).map
          fun c : Nat × Callback => c.2.generation).append (.refl (w.timers.map (·.2.generation)))
        have hsame := (hperm.map fun c : Nat × Callback => c.2.generation).append_right
          (w.timers.map (·.2.generation))
        have hle := (hclosures.filter (· = w.presenter.generation)).length_le
        have heq := (hsame.filter (· = w.presenter.generation)).length_eq
        exact Nat.le_trans hle (Nat.le_of_eq heq)
      lines := fun _ hl => .inl hl, points := .refl _, echoes := .refl _ }

/-- A load was confirmed by a reply so late that its id had come round again. -/
def Late (history : List Entry) : Prop :=
  ∃ generation command candidate r sends,
    .answered (.presentLoaded generation command candidate) r ∈ history ∧
    Confirms command r.answer ∧ .observed r sends ∈ history ∧ r.number + lastId ≤ sends

theorem call_history (callback : Callback) (reply : Reply) :
    (w.call callback reply).history = w.history := rfl

theorem send_history (request : Request) (callback : Option Callback) :
    (w.send request callback).history = w.history := by
  unfold World.send
  split
  · cases callback <;> rfl
  · dsimp only
    split <;> rfl

theorem releaseAll_history : w.releaseAll.history = w.history := by
  unfold World.releaseAll
  dsimp only
  split
  · exact send_history _ _
  · rfl

/-- A reply that is on time answers the command whose entry it finds. -/
theorem Inv.matched (h : Inv [r] hand w) {m : Nat × Pending}
    (hfind : w.pending.find? (·.1 = r.answer.id) = some m) (hlate : w.sends < r.number + lastId) :
    r.number = m.2.number := by
  have hkey : m.1 = r.answer.id := by simpa using List.find?_some hfind
  rcases h.pending m (List.mem_of_find?_eq_some hfind) with ⟨hid, hpos, hle, hlt⟩
  have hstamp := h.echoes r List.mem_cons_self
  have hsame : idOf m.2.number = idOf r.number := by rw [← hid, hkey, hstamp.id]
  exact (idOf_unique hpos hsame hle hlt hstamp.number hlate).symm

theorem Inv.settle (h : Inv held hand w) (connected : Bool) :
    Inv held hand (if w.connected && !connected then w.releaseAll else w) := by
  split
  · exact h.releaseAll
  · exact h

/-- The invariant survives a reply, or the reply confirmed a load too late. -/
theorem Inv.handleReply (h : Inv [r] [] w) :
    Inv [r] [] (w.handleReply r) ∨ Late (w.handleReply r).history := by
  unfold World.handleReply
  split
  case h_1 => exact .inl h
  case h_2 key entry hfind =>
      dsimp only
      cases hcallback : entry.callback with
      | none =>
          have hpopped : Inv [r] [] { w with
              pending := World.popPending r.answer.id w.pending, lastReply := w.now
              ready := true } :=
            h.lose rfl (.refl _) List.filter_sublist (.refl _)
              (fun _ hl => .inl hl) (.refl _) (.refl _)
          exact .inl ((hpopped.settle r.answer.connected).observe w.sends r.answer.connected)
      | some callback =>
          have hseen {history : List Entry} : Entry.observed r w.sends ∈
              (history ++ [.observed r w.sends]) ++ [.answered callback r] :=
            List.mem_append_left _ (List.mem_append_right _ List.mem_cons_self)
          have hanswered {history : List Entry} : Entry.answered callback r ∈
              (history ++ [.observed r w.sends]) ++ [.answered callback r] :=
            List.mem_append_right _ List.mem_cons_self
          by_cases hlate : ∃ generation command candidate,
              callback = .presentLoaded generation command candidate ∧
                Confirms command r.answer ∧ r.number + lastId ≤ w.sends
          · rcases hlate with ⟨generation, command, candidate, rfl, hconfirms, hlate⟩
            exact .inr
              ⟨generation, command, candidate, r, w.sends, hanswered, hconfirms, hseen, hlate⟩
          left
          have hnumber : ∀ generation command candidate,
              callback = .presentLoaded generation command candidate →
                Confirms command r.answer → r.number = entry.number := by
            intro generation command candidate hload hconfirms
            apply h.matched hfind
            by_contra hc
            exact hlate ⟨generation, command, candidate, hload, hconfirms, Nat.le_of_not_lt hc⟩
          have htaken := h.take hfind hcallback w.now true
          have hobserved := (htaken.settle r.answer.connected).observe w.sends r.answer.connected
          have hrecorded := hobserved.record (e := .answered callback r)
            (fun _ _ hc => by cases hc)
          have hlast {history : List Entry} : lastObserved
              ((history ++ [.observed r w.sends]) ++ [.answered callback r]) = some r := by
            unfold lastObserved observations
            simp
          exact hrecorded.answer hnumber hlast hseen hanswered

/-- The reply is done with. -/
theorem Inv.handled (h : Inv [r] hand w) : Inv [] hand w :=
  h.lose rfl (.refl _) (.refl _) (.refl _) (fun _ hl => .inl hl) (.refl _)
    (List.sublist_cons_self _ _)

theorem Late.more {history history' : List Entry} (h : Late history)
    (hp : history <+: history') : Late history' := by
  rcases h with ⟨generation, command, candidate, r, sends, hanswered, hconfirms, hobserved, hlate⟩
  exact ⟨generation, command, candidate, r, sends, hp.subset hanswered, hconfirms,
    hp.subset hobserved, hlate⟩

theorem handleReply_history : w.history <+: (w.handleReply r).history := by
  unfold World.handleReply
  split
  case h_1 => exact List.prefix_refl _
  case h_2 key entry hfind =>
      dsimp only
      have hsettled (lost : Bool) (w' : World) :
          (if lost = true then w'.releaseAll else w').history = w'.history := by
        split
        · exact releaseAll_history
        · rfl
      cases entry.callback with
      | none =>
          dsimp only
          rw [hsettled]
          exact List.prefix_append _ _
      | some callback =>
          dsimp only
          rw [call_history, hsettled, List.append_assoc]
          exact List.prefix_append _ _

theorem handleEvent_history (item : Nat × Item) :
    w.history <+: (w.handleEvent item).history := by
  unfold World.handleEvent
  split
  · split
    · exact handleReply_history
    · exact List.prefix_refl _
  · exact List.prefix_refl _

theorem drain_history (n : Nat) : w.history <+: (World.drain n w).history := by
  induction n generalizing w with
  | zero => exact List.prefix_refl _
  | succ n ih =>
      unfold World.drain
      split
      case h_1 => exact List.prefix_refl _
      case h_2 item rest hevents =>
          have hitem := handleEvent_history (w := { w with events := rest }) item
          exact hitem.trans ih

/-- One item of `events`. -/
theorem Inv.event (h : Inv [] [] w) {item : Nat × Item} {rest : List (Nat × Item)}
    (hevents : w.events = item :: rest) :
    Inv [] [] (World.handleEvent item { w with events := rest }) ∨
      Late (World.handleEvent item { w with events := rest }).history := by
  have hskipped : Inv [] [] { w with events := rest } := by
    refine h.lose rfl (.refl _) (.refl _) (.refl _) (fun _ hl => .inl hl)
      (.refl _) ?_
    have hrest : (rest.filterMap itemEcho).Sublist (w.events.filterMap itemEcho) := by
      rw [hevents]
      exact (List.sublist_cons_self _ _).filterMap _
    exact hrest.append (.refl _)
  unfold World.handleEvent
  split
  swap
  · exact .inl hskipped
  split
  case h_2 => exact .inl hskipped.disconnect
  case h_1 echo hecho =>
      have hheld : Inv [echo] [] { w with events := rest } := by
        refine h.lose rfl (.refl _) (.refl _) (.refl _) (fun _ hl => .inl hl)
          (.refl _) ?_
        have hcons : [echo] ++ World.echoes { w with events := rest } = [] ++ w.echoes := by
          rcases item with ⟨id, item⟩
          cases hecho
          unfold World.echoes
          rw [hevents]
          rfl
        rw [hcons]
      rcases hheld.handleReply with hinv | hlate
      · exact .inl hinv.handled
      · exact .inr hlate

theorem Inv.drain (n : Nat) (h : Inv [] [] w) :
    Inv [] [] (World.drain n w) ∨ Late (World.drain n w).history := by
  induction n generalizing w with
  | zero => exact .inl h
  | succ n ih =>
      unfold World.drain
      split
      case h_1 => exact .inl h
      case h_2 item rest hevents =>
          rcases h.event hevents with hinv | hlate
          · exact ih hinv
          · exact .inr (hlate.more (drain_history n))

end Replies

end SwitchController.Host.App
