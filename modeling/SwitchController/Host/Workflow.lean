import Mathlib.Data.List.Perm.Basic
import SwitchController.Host.Presenter

/-! # No load over a tag that may still be there

Whatever order replies, delays, resets and new calls come in, a presenter sends a
`load` only after the removal of its own workflow was confirmed and the delay after
that has passed. Stale closures do nothing.
-/

namespace SwitchController.Host

/-! ## What one event can do -/

/-- Nothing starts or stops, and nothing is sent or scheduled. -/
def Entry.Quiet : Entry → Prop
  | .presented .. | .removed _ | .reset | .effect (.send ..) | .effect (.schedule ..) => False
  | _ => True

def Quiet (log : List Entry) : Prop := ∀ e ∈ log, e.Quiet

theorem Quiet.append {a b : List Entry} (ha : Quiet a) (hb : Quiet b) : Quiet (a ++ b) := by
  intro e he
  rcases List.mem_append.mp he with h | h
  · exact ha e h
  · exact hb e h

/-- The answer a callback takes for a failure. -/
def Callback.Negative (reply : Reply) : Callback → Prop
  | .presentLoaded _ command _ =>
      (reply.get "ok").truthy = false ∨ (reply.get "loaded").truthy = false ∨
        reply.hasCrc (some command.crc) = false
  | _ => (reply.get "ok").truthy = false ∨ (reply.get "loaded").isFalse = false

/-- A removal is confirmed by `ok` and a `loaded` that is `False`. -/
def Confirms (reply : Reply) : Prop :=
  (reply.get "ok").truthy = true ∧ (reply.get "loaded").isFalse = true

def startLog (entry : Entry) (callback : Callback) : List Entry :=
  [entry, .effect .changed, .effect (.send .unload callback)]

def confirmLog (job : Job) (reply : Reply) (now : Nat) : List Entry :=
  [.answered (.presentRemoved job.generation job.command job.candidate) reply now,
    .effect .changed, .effect (.schedule 500 job)]

def Job.callback (job : Job) : Callback :=
  .presentLoaded job.generation job.command job.candidate

def fireLog (job : Job) (now : Nat) : List Entry :=
  [.fired job now, .effect .changed, .effect (.send (.load job.command) job.callback)]

/-- Every change of a desk: the presenter of each is known only by what its stage shows. -/
inductive Desk.Moves (resolve : String → String) (d : Desk) : Desk → List Entry → Prop
  | present {p : Presenter} {path : String} {file : Except String Memory.Bytes}
      {command : LoadCommand} (idle : d.presenter.busy = false)
      (valid : Presenter.readBin file = .ok command) (busy : p.busy = true)
      (next : p.generation = d.presenter.generation + 1) :
      Moves resolve d
        { d with
          presenter := p
          calls := d.calls ++ [.presentRemoved p.generation command (resolve path)] }
        (startLog (.presented p.generation path file)
          (.presentRemoved p.generation command (resolve path)))
  | remove {p : Presenter} (idle : d.presenter.busy = false) (busy : p.busy = true)
      (next : p.generation = d.presenter.generation + 1) :
      Moves resolve d
        { d with presenter := p, calls := d.calls ++ [.removeRemoved p.generation] }
        (startLog (.removed p.generation) (.removeRemoved p.generation))
  | reset {p : Presenter} (idle : p.busy = false)
      (next : p.generation = d.presenter.generation + 1) :
      Moves resolve d { d with presenter := p } [.reset, .effect .changed]
  | quiet {d' : Desk} {log : List Entry} (busy : d'.presenter.busy = d.presenter.busy)
      (same : d'.presenter.generation = d.presenter.generation) (calls : d'.calls = d.calls)
      (timers : d'.timers = d.timers) (quiet : Quiet log) : Moves resolve d d' log
  | staleReply {i : Nat} {callback : Callback} {reply : Reply} (owed : d.calls[i]? = some callback)
      (stale : callback.generation ≠ d.presenter.generation) :
      Moves resolve d { d with calls := d.calls.eraseIdx i } [.answered callback reply d.now]
  | staleFire {i : Nat} {timer : Timer} (owed : d.timers[i]? = some timer)
      (stale : timer.job.generation ≠ d.presenter.generation) :
      Moves resolve d { d with timers := d.timers.eraseIdx i } [.fired timer.job d.now]
  | ended {i : Nat} {callback : Callback} {p : Presenter} {log : List Entry}
      (owed : d.calls[i]? = some callback)
      (current : callback.generation = d.presenter.generation) (idle : p.busy = false)
      (same : p.generation = d.presenter.generation) (quiet : Quiet log) :
      Moves resolve d { d with presenter := p, calls := d.calls.eraseIdx i } log
  | confirmed {i : Nat} {job : Job} {reply : Reply} {p : Presenter}
      (owed : d.calls[i]? =
        some (.presentRemoved job.generation job.command job.candidate))
      (current : job.generation = d.presenter.generation) (confirms : Confirms reply)
      (busy : p.busy = d.presenter.busy) (same : p.generation = d.presenter.generation) :
      Moves resolve d
        { d with
          presenter := p, calls := d.calls.eraseIdx i
          timers := d.timers ++ [{ due := d.now + 500, job }] }
        (confirmLog job reply d.now)
  | fired {i : Nat} {timer : Timer} {p : Presenter} (owed : d.timers[i]? = some timer)
      (due : timer.due ≤ d.now) (current : timer.job.generation = d.presenter.generation)
      (busy : p.busy = d.presenter.busy) (same : p.generation = d.presenter.generation) :
      Moves resolve d
        { d with
          presenter := p, calls := d.calls ++ [timer.job.callback]
          timers := d.timers.eraseIdx i }
        (fireLog timer.job d.now)

namespace Presenter

theorem answer_stale {callback : Callback} {reply : Reply} {p : Presenter}
    (stale : callback.generation ≠ p.generation) : p.answer callback reply = (p, []) :=
  if_pos stale

theorem answer_ok {callback : Callback} {reply : Reply} {p : Presenter}
    (current : callback.generation = p.generation) (hok : (reply.get "ok").truthy = true) :
    p.answer callback reply = p.accepted reply callback := by
  unfold answer
  rw [if_neg (not_not.mpr current), if_neg (by simp [hok])]

theorem fire_stale {job : Job} {p : Presenter} (stale : job.generation ≠ p.generation) :
    p.fire job = (p, []) := if_pos stale

/-- A result that ends the workflow; nothing but the view hears of it. -/
structure Ends (p : Presenter) (result : Presenter × List Effect) : Prop where
  idle : result.1.busy = false
  same : result.1.generation = p.generation
  keeps : ∀ e ∈ result.2, e = .changed ∨ ∃ message, e = .error message

theorem ends_fail (p : Presenter) (message : Value) : p.Ends (p.fail message) :=
  ⟨rfl, rfl, by simp [fail, finish]⟩

theorem ends_finish {p q : Presenter} (h : q.generation = p.generation) : p.Ends q.finish :=
  ⟨rfl, h, by simp [finish]⟩

/-- A failure says so. -/
theorem answer_negative {callback : Callback} {reply : Reply} {p : Presenter}
    (current : callback.generation = p.generation) (negative : callback.Negative reply) :
    ∃ message, p.answer callback reply = p.fail message := by
  cases hok : (reply.get "ok").truthy with
  | false =>
      unfold answer
      rw [if_neg (not_not.mpr current), if_pos (by simp [hok])]
      exact ⟨_, rfl⟩
  | true =>
      rw [answer_ok current hok]
      cases callback with
      | presentRemoved generation command candidate =>
          have hkeeps := negative.resolve_left (by simp [hok])
          exact ⟨_, if_pos (by simp [hkeeps])⟩
      | presentLoaded generation command candidate =>
          have hbad := negative.resolve_left (by simp [hok])
          exact ⟨_, if_pos (by simpa using hbad)⟩
      | removeRemoved generation =>
          have hkeeps := negative.resolve_left (by simp [hok])
          exact ⟨_, if_pos (by simp [hkeeps])⟩

theorem answer_confirms (job : Job) {reply : Reply} {p : Presenter}
    (current : job.generation = p.generation) (confirms : Confirms reply) :
    p.answer (.presentRemoved job.generation job.command job.candidate) reply =
      ({ p with
        loaded := .bool false, path := none, crc := none,
        phase := "Esperando para volver a presentar…" }, [.changed, .schedule 500 job]) := by
  have hok : p.answer (.presentRemoved job.generation job.command job.candidate) reply =
      p.accepted reply (.presentRemoved job.generation job.command job.candidate) :=
    answer_ok current confirms.1
  exact hok.trans (if_neg (by simp [confirms.2]))

/-- The only reply a workflow outlives is the confirmed removal of `present`. -/
theorem answer_current {callback : Callback} (reply : Reply) {p : Presenter}
    (current : callback.generation = p.generation) :
    p.Ends (p.answer callback reply) ∨
      ∃ job : Job, callback = .presentRemoved job.generation job.command job.candidate ∧
        Confirms reply ∧ (p.answer callback reply).1.busy = p.busy ∧
        (p.answer callback reply).1.generation = p.generation ∧
        (p.answer callback reply).2 = [.changed, .schedule 500 job] := by
  by_cases negative : callback.Negative reply
  · obtain ⟨message, h⟩ := answer_negative current negative
    rw [h]
    exact .inl (ends_fail p message)
  cases callback with
  | presentRemoved generation command candidate =>
      simp only [Callback.Negative, not_or, Bool.not_eq_false] at negative
      have hrun := answer_confirms { generation, command, candidate } current negative
      rw [hrun]
      exact .inr ⟨{ generation, command, candidate }, rfl, negative, rfl, rfl, rfl⟩
  | presentLoaded generation command candidate =>
      simp only [Callback.Negative, not_or, Bool.not_eq_false] at negative
      have hrun : p.accepted reply (.presentLoaded generation command candidate) = finish _ :=
        if_neg (by simp [negative.2.1, negative.2.2])
      rw [answer_ok current negative.1, hrun]
      exact .inl (ends_finish rfl)
  | removeRemoved generation =>
      simp only [Callback.Negative, not_or, Bool.not_eq_false] at negative
      have hrun : p.accepted reply (.removeRemoved generation) = finish _ :=
        if_neg (by simp [negative.2])
      rw [answer_ok current negative.1, hrun]
      exact .inl (ends_finish rfl)

end Presenter

namespace Desk

theorem settle_view {log : List Effect} (d : Desk)
    (h : ∀ e ∈ log, e = .changed ∨ ∃ message, e = .error message) : d.settle log = d := by
  induction log with
  | nil => rfl
  | cons e log ih =>
      have hrest := ih fun e' he => h e' (by simp [he])
      rcases h e (by simp) with rfl | ⟨message, rfl⟩
      · exact hrest
      · exact hrest

theorem perform_view {entry : Entry} {result : Presenter × List Effect} {d : Desk}
    (h : ∀ e ∈ result.2, e = .changed ∨ ∃ message, e = .error message) :
    d.perform entry result =
      ({ d with presenter := result.1 }, entry :: result.2.map .effect) := by
  unfold perform
  rw [settle_view _ h]

theorem quiet_view {entry : Entry} {log : List Effect} (hentry : entry.Quiet)
    (h : ∀ e ∈ log, e = .changed ∨ ∃ message, e = .error message) :
    Quiet (entry :: log.map .effect) := by
  intro x hx
  rcases List.mem_cons.mp hx with rfl | hx
  · exact hentry
  · obtain ⟨e, he, rfl⟩ := List.mem_map.mp hx
    rcases h e he with rfl | ⟨message, rfl⟩
    · trivial
    · trivial

theorem observe_view (reply : Reply) (p : Presenter) :
    (p.observe reply).1.busy = p.busy ∧ (p.observe reply).1.generation = p.generation ∧
      (p.observe reply).2 = [.changed] := by
  unfold Presenter.observe
  dsimp only
  split
  · exact ⟨rfl, rfl, rfl⟩
  · exact ⟨rfl, rfl, rfl⟩

theorem present_moves (resolve : String → String) (path : String)
    (file : Except String Memory.Bytes) (d : Desk) :
    Moves resolve d (d.call (.presented · path file) (d.presenter.present resolve path file)).1
      (d.call (.presented · path file) (d.presenter.present resolve path file)).2 := by
  unfold Presenter.present
  by_cases hbusy : d.presenter.busy = true
  · rw [if_pos hbusy]
    exact .quiet rfl rfl rfl rfl (by simp [call, perform, Quiet, Entry.Quiet])
  rw [if_neg hbusy]
  cases hfile : Presenter.readBin file with
  | error text => exact .quiet rfl rfl rfl rfl (by simp [call, perform, Quiet, Entry.Quiet])
  | ok command => exact .present (by simpa using hbusy) hfile rfl rfl

theorem remove_moves (resolve : String → String) (d : Desk) :
    Moves resolve d (d.call .removed d.presenter.remove).1
      (d.call .removed d.presenter.remove).2 := by
  unfold Presenter.remove
  by_cases hbusy : d.presenter.busy = true
  · rw [if_pos hbusy]
    exact .quiet rfl rfl rfl rfl (by simp [call, perform, Quiet, Entry.Quiet])
  rw [if_neg hbusy]
  exact .remove (by simpa using hbusy) rfl rfl

theorem reply_moves {resolve : String → String} {d : Desk} {i : Nat} {callback : Callback}
    (reply : Reply) (owed : d.calls[i]? = some callback) :
    Moves resolve d
      (({ d with calls := d.calls.eraseIdx i } : Desk).perform
        (.answered callback reply d.now) (d.presenter.answer callback reply)).1
      (({ d with calls := d.calls.eraseIdx i } : Desk).perform
        (.answered callback reply d.now) (d.presenter.answer callback reply)).2 := by
  by_cases current : callback.generation = d.presenter.generation
  · rcases Presenter.answer_current reply current with ends | ⟨job, rfl, confirms, hb, hg, hl⟩
    · rw [perform_view ends.keeps]
      exact .ended owed current ends.idle ends.same (quiet_view trivial ends.keeps)
    · unfold perform
      rw [hl]
      exact .confirmed owed current confirms hb hg
  · rw [Presenter.answer_stale current]
    exact .staleReply owed current

theorem fire_moves {resolve : String → String} {d : Desk} {i : Nat} {timer : Timer}
    (owed : d.timers[i]? = some timer) (due : timer.due ≤ d.now) :
    Moves resolve d
      (({ d with timers := d.timers.eraseIdx i } : Desk).perform
        (.fired timer.job d.now) (d.presenter.fire timer.job)).1
      (({ d with timers := d.timers.eraseIdx i } : Desk).perform
        (.fired timer.job d.now) (d.presenter.fire timer.job)).2 := by
  by_cases current : timer.job.generation = d.presenter.generation
  · have hrun : d.presenter.fire timer.job = (_, _) := if_neg (not_not.mpr current)
    rw [hrun]
    exact .fired owed due current rfl rfl
  · rw [Presenter.fire_stale current]
    exact .staleFire owed current

theorem step_moves {resolve : String → String} {e : Event} {d d' : Desk} {log : List Entry}
    (h : step resolve e d = some (d', log)) : d.Moves resolve d' log := by
  cases e with
  | present path file =>
      have hmoves := present_moves resolve path file d
      rw [Option.some.inj h] at hmoves
      exact hmoves
  | remove =>
      have hmoves := remove_moves resolve d
      rw [Option.some.inj h] at hmoves
      exact hmoves
  | reset =>
      cases h
      exact .reset rfl rfl
  | observe reply =>
      obtain ⟨hbusy, hgeneration, hlog⟩ := observe_view reply d.presenter
      have hview : ∀ e ∈ (d.presenter.observe reply).2,
          e = .changed ∨ ∃ message, e = .error message := by
        rw [hlog]
        simp
      have hrun := Option.some.inj h
      rw [perform_view hview] at hrun
      cases hrun
      exact .quiet hbusy hgeneration rfl rfl (quiet_view trivial hview)
  | reply i reply =>
      obtain ⟨callback, owed, hrun⟩ := Option.bind_eq_some_iff.mp h
      cases hrun
      exact reply_moves reply owed
  | fire i =>
      obtain ⟨timer, owed, hrun⟩ := Option.bind_eq_some_iff.mp h
      by_cases due : timer.due ≤ d.now
      · rw [if_pos due] at hrun
        cases hrun
        exact fire_moves owed due
      · rw [if_neg due] at hrun
        cases hrun
  | elapse milliseconds =>
      cases h
      exact .quiet rfl rfl rfl rfl (by simp [Quiet])

end Desk

/-! ## What the log shows -/

/-- The running call of `present` has sent its `unload`, and waits. -/
def Removing (resolve : String → String) (past : List Entry) (job : Job) : Prop :=
  ∃ before path file since,
    past = before ++ startLog (.presented job.generation path file)
      (.presentRemoved job.generation job.command job.candidate) ++ since ∧
    Presenter.readBin file = .ok job.command ∧ job.candidate = resolve path ∧ Quiet since

/-- That `unload` was confirmed, and the delay after it runs until `due`. -/
def Waiting (resolve : String → String) (past : List Entry) (due : Nat) (job : Job) : Prop :=
  ∃ asked reply now since, Removing resolve asked job ∧
    past = asked ++ confirmLog job reply now ++ since ∧ Confirms reply ∧ due = now + 500 ∧
    Quiet since

/-- The delay has passed, and this `load` is what the call waited for. -/
def Justified (resolve : String → String) (past : List Entry) (command : LoadCommand)
    (callback : Callback) : Prop :=
  ∃ confirmed job due now, Waiting resolve confirmed due job ∧ due ≤ now ∧
    past = confirmed ++ [.fired job now, .effect .changed] ∧ command = job.command ∧
    callback = job.callback

/-- What one generation leaves in the log. -/
inductive Mark
  | presented (path : String) (file : Except String Memory.Bytes)
  | removed
  | sent (command : Command)

def Entry.mark (g : Nat) : Entry → Option Mark
  | .presented generation path file =>
      if generation = g then some (.presented path file) else none
  | .removed generation => if generation = g then some .removed else none
  | .effect (.send command callback) =>
      if callback.generation = g then some (.sent command) else none
  | _ => none

def marks (g : Nat) (log : List Entry) : List Mark := log.filterMap (Entry.mark g)

/-- All that one generation may start and send, in order. -/
inductive Complete : List Mark → Prop
  | unused : Complete []
  | removal : Complete [.removed, .sent .unload]
  | removing {path : String} {file : Except String Memory.Bytes} :
      Complete [.presented path file, .sent .unload]
  | loading {path : String} {file : Except String Memory.Bytes} {command : LoadCommand}
      (valid : Presenter.readBin file = .ok command) :
      Complete [.presented path file, .sent .unload, .sent (.load command)]

/-- `present` of this generation has sent its `unload` and no more. -/
def Asked (past : List Entry) (job : Job) : Prop :=
  ∃ path file, Presenter.readBin file = .ok job.command ∧
    marks job.generation past = [.presented path file, .sent .unload]

theorem marks_append (g : Nat) (a b : List Entry) : marks g (a ++ b) = marks g a ++ marks g b :=
  List.filterMap_append

theorem Removing.append {resolve : String → String} {past log : List Entry} {job : Job}
    (h : Removing resolve past job) (hq : Quiet log) : Removing resolve (past ++ log) job := by
  obtain ⟨before, path, file, since, rfl, hfile, hpath, hsince⟩ := h
  exact ⟨before, path, file, since ++ log, List.append_assoc .., hfile, hpath, hsince.append hq⟩

theorem Waiting.append {resolve : String → String} {past log : List Entry} {due : Nat} {job : Job}
    (h : Waiting resolve past due job) (hq : Quiet log) :
    Waiting resolve (past ++ log) due job := by
  obtain ⟨asked, reply, now, since, hasked, rfl, hreply, hdue, hsince⟩ := h
  exact ⟨asked, reply, now, since ++ log, hasked, List.append_assoc .., hreply, hdue,
    hsince.append hq⟩

theorem marks_quiet {g : Nat} {log : List Entry} (h : Quiet log) : marks g log = [] := by
  refine List.filterMap_eq_nil_iff.mpr fun e he => ?_
  have hq := h e he
  cases e with
  | effect e =>
      cases e with
      | send command callback => exact hq.elim
      | schedule milliseconds job => rfl
      | changed => rfl
      | error message => rfl
  | presented generation path file => exact hq.elim
  | removed generation => exact hq.elim
  | refused result => rfl
  | reset => rfl
  | observed reply => rfl
  | answered callback reply now => rfl
  | fired job now => rfl

/-! ## The invariant -/

/-- How many closures of a generation wait for a reply or for their delay. -/
def Desk.owed (d : Desk) (g : Nat) : Nat :=
  d.calls.countP (·.generation = g) + d.timers.countP (·.job.generation = g)

structure Inv (resolve : String → String) (d : Desk) (past : List Entry) : Prop where
  calls_le : ∀ c ∈ d.calls, c.generation ≤ d.presenter.generation
  timers_le : ∀ t ∈ d.timers, t.job.generation ≤ d.presenter.generation
  single : d.owed d.presenter.generation = d.presenter.busy.toNat
  removing : ∀ job : Job, .presentRemoved job.generation job.command job.candidate ∈ d.calls →
    job.generation = d.presenter.generation → Removing resolve past job ∧ Asked past job
  waiting : ∀ t ∈ d.timers, t.job.generation = d.presenter.generation →
    Waiting resolve past t.due t.job ∧ Asked past t.job
  justified : ∀ pre post command callback,
    past = pre ++ .effect (.send (.load command) callback) :: post →
    Justified resolve pre command callback
  complete : ∀ g, Complete (marks g past)
  fresh : ∀ g, d.presenter.generation < g → marks g past = []

theorem countP_eraseIdx {α : Type} {p : α → Bool} {l : List α} {i : Nat} {x : α}
    (h : l[i]? = some x) : l.countP p = (l.eraseIdx i).countP p + (p x).toNat := by
  obtain ⟨hi, rfl⟩ := List.getElem?_eq_some_iff.mp h
  have hperm := (List.getElem_cons_eraseIdx_perm hi).countP_eq p
  rw [← hperm, List.countP_cons]
  cases p l[i] <;> rfl

theorem Inv.init (resolve : String → String) : Inv resolve Desk.init [] where
  calls_le := by simp [Desk.init]
  timers_le := by simp [Desk.init]
  single := rfl
  removing := by simp [Desk.init]
  waiting := by simp [Desk.init]
  justified := by simp
  complete := fun _ => .unused
  fresh := fun _ _ => rfl

/-- An entry of a longer log lies before or after the seam. -/
theorem append_eq_split {α : Type} {past log pre post : List α} {x : α}
    (h : past ++ log = pre ++ x :: post) :
    (∃ rest, past = pre ++ x :: rest) ∨
      ∃ front, pre = past ++ front ∧ log = front ++ x :: post := by
  rcases List.append_eq_append_iff.mp h with ⟨front, hpre, hlog⟩ | ⟨rest, hpast, hpost⟩
  · exact .inr ⟨front, hpre, hlog⟩
  · cases rest with
    | nil => exact .inr ⟨[], by simpa using hpast.symm, by simpa using hpost.symm⟩
    | cons y rest =>
        obtain ⟨rfl, -⟩ := List.cons.inj hpost
        exact .inl ⟨rest, hpast⟩

section Steps

variable {resolve : String → String} {d : Desk} {past : List Entry}

/-- Nothing of a later generation is owed. -/
theorem Inv.owed_next (h : Inv resolve d past) {g : Nat} (hg : d.presenter.generation < g) :
    d.owed g = 0 := by
  have hcalls : d.calls.countP (·.generation = g) = 0 := by
    refine List.countP_eq_zero.mpr fun c hc => ?_
    have hle := h.calls_le c hc
    simp only [decide_eq_true_eq]
    omega
  have htimers : d.timers.countP (·.job.generation = g) = 0 := by
    refine List.countP_eq_zero.mpr fun t ht => ?_
    have hle := h.timers_le t ht
    simp only [decide_eq_true_eq]
    omega
  unfold Desk.owed
  omega

/-- A log that sends no `load` adds none to justify. -/
theorem Inv.justified_append (h : Inv resolve d past) {log : List Entry}
    (hno : ∀ command callback, .effect (.send (.load command) callback) ∉ log)
    (pre post : List Entry) (command : LoadCommand) (callback : Callback)
    (hsplit : past ++ log = pre ++ .effect (.send (.load command) callback) :: post) :
    Justified resolve pre command callback := by
  rcases append_eq_split hsplit with ⟨rest, hpast⟩ | ⟨front, -, hlog⟩
  · exact h.justified pre rest command callback hpast
  · exact (hno command callback (hlog ▸ by simp)).elim

/-- A step that neither starts nor sends, and whose owed closures are old ones. -/
theorem Inv.sterile (h : Inv resolve d past) {d' : Desk} {log : List Entry}
    (hcalls : ∀ c ∈ d'.calls, c ∈ d.calls) (htimers : ∀ t ∈ d'.timers, t ∈ d.timers)
    (hle : d.presenter.generation ≤ d'.presenter.generation) (hmarks : ∀ g, marks g log = [])
    (hquiet : d'.presenter.generation = d.presenter.generation → Quiet log)
    (hsingle : d'.owed d'.presenter.generation = d'.presenter.busy.toNat) :
    Inv resolve d' (past ++ log) := by
  have hsame : ∀ g, marks g (past ++ log) = marks g past := by
    intro g
    rw [marks_append, hmarks g, List.append_nil]
  have hno : ∀ command callback, .effect (.send (.load command) callback) ∉ log := by
    intro command callback hmem
    have hmark : Mark.sent (.load command) ∈ marks callback.generation log :=
      List.mem_filterMap.mpr ⟨_, hmem, if_pos rfl⟩
    rw [hmarks] at hmark
    cases hmark
  constructor
  · intro c hc
    exact Nat.le_trans (h.calls_le c (hcalls c hc)) hle
  · intro t ht
    exact Nat.le_trans (h.timers_le t (htimers t ht)) hle
  · exact hsingle
  · intro job hjob hcurrent
    have hold := h.calls_le _ (hcalls _ hjob)
    have hgen : d'.presenter.generation = d.presenter.generation := by
      simp only [Callback.generation] at hold
      omega
    obtain ⟨hremoving, hasked⟩ := h.removing job (hcalls _ hjob) (hcurrent.trans hgen)
    refine ⟨hremoving.append (hquiet hgen), ?_⟩
    unfold Asked
    rw [hsame]
    exact hasked
  · intro t ht hcurrent
    have hold := h.timers_le t (htimers t ht)
    have hgen : d'.presenter.generation = d.presenter.generation := by omega
    obtain ⟨hwaiting, hasked⟩ := h.waiting t (htimers t ht) (hcurrent.trans hgen)
    refine ⟨hwaiting.append (hquiet hgen), ?_⟩
    unfold Asked
    rw [hsame]
    exact hasked
  · exact h.justified_append hno
  · intro g
    rw [hsame]
    exact h.complete g
  · intro g hg
    rw [hsame]
    exact h.fresh g (Nat.lt_of_le_of_lt hle hg)

/-- A new workflow: its generation has left nothing in the log so far. -/
theorem Inv.start (h : Inv resolve d past) (first : Mark) {p : Presenter} {entry : Entry}
    {callback : Callback} (busy : p.busy = true) (next : p.generation = d.presenter.generation + 1)
    (hcallback : callback.generation = p.generation)
    (hmarks : ∀ g, marks g (startLog entry callback) =
      if p.generation = g then [first, .sent .unload] else [])
    (hcomplete : Complete [first, .sent .unload])
    (hload : ∀ command callback', .effect (.send (.load command) callback') ≠ entry)
    (hremoving : ∀ job : Job,
      callback = .presentRemoved job.generation job.command job.candidate →
      Removing resolve (past ++ startLog entry callback) job ∧
        ∃ path file, Presenter.readBin file = .ok job.command ∧ first = .presented path file) :
    Inv resolve { d with presenter := p, calls := d.calls ++ [callback] }
      (past ++ startLog entry callback) := by
  have hnew : marks p.generation past = [] := h.fresh _ (by omega)
  have howed := h.owed_next (g := p.generation) (by omega)
  constructor
  · intro c hc
    rcases List.mem_append.mp hc with hc | hc
    · have hle := h.calls_le c hc
      show c.generation ≤ p.generation
      omega
    · rw [List.mem_singleton.mp hc]
      exact Nat.le_of_eq hcallback
  · intro t ht
    have hle := h.timers_le t ht
    show t.job.generation ≤ p.generation
    omega
  · show _ = p.busy.toNat
    unfold Desk.owed at howed ⊢
    rw [List.countP_append, busy]
    simp only [List.countP_singleton, hcallback, decide_true, if_true, Bool.toNat_true]
    omega
  · intro job hjob hcurrent
    rcases List.mem_append.mp hjob with hold | hjob
    · have hle := h.calls_le _ hold
      simp only [Callback.generation] at hle
      have hgen : job.generation = p.generation := hcurrent
      omega
    · have heq := List.mem_singleton.mp hjob
      obtain ⟨hr, path, file, hfile, hfirst⟩ := hremoving job heq.symm
      have hgen : job.generation = p.generation := hcurrent
      refine ⟨hr, path, file, hfile, ?_⟩
      rw [marks_append, hmarks, hgen, hnew, if_pos rfl, hfirst]
      rfl
  · intro t ht hcurrent
    have hle := h.timers_le t ht
    have hgen : t.job.generation = p.generation := hcurrent
    omega
  · refine h.justified_append fun command callback' hmem => ?_
    rcases List.mem_cons.mp hmem with heq | hmem
    · exact hload command callback' heq
    · simp at hmem
  · intro g
    rw [marks_append, hmarks]
    by_cases hg : p.generation = g
    · rw [← hg, hnew, if_pos rfl]
      exact hcomplete
    · rw [if_neg hg, List.append_nil]
      exact h.complete g
  · intro g hg
    have hlt : p.generation < g := hg
    rw [marks_append, hmarks, if_neg (by omega), h.fresh g (by omega)]
    rfl

theorem Inv.present (h : Inv resolve d past) {p : Presenter} {path : String}
    {file : Except String Memory.Bytes} {command : LoadCommand}
    (valid : Presenter.readBin file = .ok command) (busy : p.busy = true)
    (next : p.generation = d.presenter.generation + 1) :
    Inv resolve
      { d with
        presenter := p
        calls := d.calls ++ [.presentRemoved p.generation command (resolve path)] }
      (past ++ startLog (.presented p.generation path file)
        (.presentRemoved p.generation command (resolve path))) := by
  refine h.start (.presented path file) busy next rfl (fun g => ?_) .removing (by simp) ?_
  · by_cases hg : p.generation = g
    · simp [marks, startLog, List.filterMap_cons, Entry.mark, Callback.generation, hg]
    · simp [marks, startLog, List.filterMap_cons, Entry.mark, Callback.generation, hg]
  · intro job hjob
    injection hjob with hgen hcommand hcandidate
    refine ⟨⟨past, path, file, [], ?_, hcommand ▸ valid, hcandidate.symm, by simp [Quiet]⟩,
      path, file, hcommand ▸ valid, rfl⟩
    rw [List.append_nil, ← hgen, ← hcommand, ← hcandidate]

theorem Inv.remove (h : Inv resolve d past) {p : Presenter} (busy : p.busy = true)
    (next : p.generation = d.presenter.generation + 1) :
    Inv resolve { d with presenter := p, calls := d.calls ++ [.removeRemoved p.generation] }
      (past ++ startLog (.removed p.generation) (.removeRemoved p.generation)) := by
  refine h.start .removed busy next rfl (fun g => ?_) .removal (by simp) ?_
  · by_cases hg : p.generation = g
    · simp [marks, startLog, List.filterMap_cons, Entry.mark, Callback.generation, hg]
    · simp [marks, startLog, List.filterMap_cons, Entry.mark, Callback.generation, hg]
  · intro job hjob
    cases hjob

/-- A busy presenter waits for one closure of its generation, an idle one for none. -/
theorem Inv.last_owed (h : Inv resolve d past) {d' : Desk}
    (hused : d.owed d.presenter.generation = d'.owed d.presenter.generation + 1) :
    d'.owed d.presenter.generation = 0 ∧ d.presenter.busy = true := by
  have hsingle := h.single
  have hone : d.presenter.busy.toNat ≤ 1 := Bool.toNat_le _
  have hzero : d'.owed d.presenter.generation = 0 := by omega
  refine ⟨hzero, ?_⟩
  cases hbusy : d.presenter.busy with
  | false =>
      rw [hbusy, Bool.toNat_false] at hsingle
      omega
  | true => rfl

/-- One closure of the current generation is used up; it was the only one. -/
theorem Inv.owed_reply (h : Inv resolve d past) {i : Nat} {callback : Callback}
    (owed : d.calls[i]? = some callback) (current : callback.generation = d.presenter.generation) :
    ({ d with calls := d.calls.eraseIdx i } : Desk).owed d.presenter.generation = 0 ∧
      d.presenter.busy = true := by
  apply h.last_owed
  have hcount := countP_eraseIdx (p := fun c : Callback => c.generation = d.presenter.generation)
    owed
  simp only [current, decide_true, Bool.toNat_true] at hcount
  unfold Desk.owed
  dsimp only
  omega

theorem Inv.owed_fire (h : Inv resolve d past) {i : Nat} {timer : Timer}
    (owed : d.timers[i]? = some timer)
    (current : timer.job.generation = d.presenter.generation) :
    ({ d with timers := d.timers.eraseIdx i } : Desk).owed d.presenter.generation = 0 ∧
      d.presenter.busy = true := by
  apply h.last_owed
  have hcount := countP_eraseIdx
    (p := fun t : Timer => t.job.generation = d.presenter.generation) owed
  simp only [current, decide_true, Bool.toNat_true] at hcount
  unfold Desk.owed
  dsimp only
  omega

/-- With nothing owed, no closure is of the current generation. -/
theorem owed_zero {d : Desk} {g : Nat} (h : d.owed g = 0) :
    (∀ c ∈ d.calls, c.generation ≠ g) ∧ ∀ t ∈ d.timers, t.job.generation ≠ g := by
  unfold Desk.owed at h
  have hcalls := List.countP_eq_zero.mp (Nat.eq_zero_of_add_eq_zero_right h)
  have htimers := List.countP_eq_zero.mp (Nat.eq_zero_of_add_eq_zero_left h)
  exact ⟨fun c hc => by simpa using hcalls c hc, fun t ht => by simpa using htimers t ht⟩

theorem Inv.confirmed (h : Inv resolve d past) {i : Nat} {job : Job} {reply : Reply}
    {p : Presenter}
    (owed : d.calls[i]? = some (.presentRemoved job.generation job.command job.candidate))
    (current : job.generation = d.presenter.generation) (confirms : Confirms reply)
    (busy : p.busy = d.presenter.busy) (same : p.generation = d.presenter.generation) :
    Inv resolve
      { d with
        presenter := p, calls := d.calls.eraseIdx i
        timers := d.timers ++ [{ due := d.now + 500, job }] }
      (past ++ confirmLog job reply d.now) := by
  obtain ⟨hzero, hbusy⟩ := h.owed_reply owed current
  obtain ⟨hcalls, htimers⟩ := owed_zero hzero
  obtain ⟨hremoving, hasked⟩ := h.removing job (List.mem_of_getElem? owed) current
  have hmarks : ∀ g, marks g (confirmLog job reply d.now) = [] := fun g => rfl
  have hsame : ∀ g, marks g (past ++ confirmLog job reply d.now) = marks g past := by
    intro g
    rw [marks_append, hmarks, List.append_nil]
  constructor
  · intro c hc
    rw [same]
    exact h.calls_le c (List.mem_of_mem_eraseIdx hc)
  · intro t ht
    rw [same]
    rcases List.mem_append.mp ht with ht | ht
    · exact h.timers_le t ht
    · rw [List.mem_singleton.mp ht]
      exact Nat.le_of_eq current
  · show Desk.owed _ p.generation = p.busy.toNat
    unfold Desk.owed at hzero ⊢
    rw [same, busy, hbusy, List.countP_append]
    simp only [List.countP_singleton, current, decide_true, if_true, Bool.toNat_true]
    dsimp only at hzero
    omega
  · intro job' hjob hcurrent
    exact (hcalls _ hjob (hcurrent.trans same)).elim
  · intro t ht hcurrent
    rcases List.mem_append.mp ht with ht | ht
    · exact (htimers t ht (hcurrent.trans same)).elim
    · rw [List.mem_singleton.mp ht]
      refine ⟨⟨past, reply, d.now, [], hremoving, (List.append_nil _).symm, confirms, rfl,
        by simp [Quiet]⟩, ?_⟩
      unfold Asked
      rw [hsame]
      exact hasked
  · refine h.justified_append fun command callback hmem => ?_
    simp [confirmLog] at hmem
  · intro g
    rw [hsame]
    exact h.complete g
  · intro g hg
    rw [hsame]
    exact h.fresh g (by simpa only [same] using hg)

theorem Inv.fired (h : Inv resolve d past) {i : Nat} {timer : Timer} {p : Presenter}
    (owed : d.timers[i]? = some timer) (due : timer.due ≤ d.now)
    (current : timer.job.generation = d.presenter.generation)
    (busy : p.busy = d.presenter.busy) (same : p.generation = d.presenter.generation) :
    Inv resolve
      { d with
        presenter := p, calls := d.calls ++ [timer.job.callback]
        timers := d.timers.eraseIdx i }
      (past ++ fireLog timer.job d.now) := by
  obtain ⟨hzero, hbusy⟩ := h.owed_fire owed current
  obtain ⟨hcalls, htimers⟩ := owed_zero hzero
  obtain ⟨hwaiting, path, file, hfile, hasked⟩ :=
    h.waiting timer (List.mem_of_getElem? owed) current
  have hmarks : ∀ g, marks g (fireLog timer.job d.now) =
      if timer.job.generation = g then [.sent (.load timer.job.command)] else [] := by
    intro g
    by_cases hg : timer.job.generation = g
    · simp [marks, fireLog, List.filterMap_cons, Entry.mark, Job.callback, Callback.generation, hg]
    · simp [marks, fireLog, List.filterMap_cons, Entry.mark, Job.callback, Callback.generation, hg]
  constructor
  · intro c hc
    rw [same]
    rcases List.mem_append.mp hc with hc | hc
    · exact h.calls_le c hc
    · rw [List.mem_singleton.mp hc]
      exact Nat.le_of_eq current
  · intro t ht
    rw [same]
    exact h.timers_le t (List.mem_of_mem_eraseIdx ht)
  · show Desk.owed _ p.generation = p.busy.toNat
    have hcallback : timer.job.callback.generation = d.presenter.generation := current
    unfold Desk.owed at hzero ⊢
    rw [same, busy, hbusy, List.countP_append]
    simp only [List.countP_singleton, hcallback, decide_true, if_true, Bool.toNat_true]
    dsimp only at hzero
    omega
  · intro job hjob hcurrent
    rcases List.mem_append.mp hjob with hjob | hjob
    · exact (hcalls _ hjob (hcurrent.trans same)).elim
    · cases List.mem_singleton.mp hjob
  · intro t ht hcurrent
    exact (htimers t ht (hcurrent.trans same)).elim
  · intro pre post command callback hsplit
    rcases append_eq_split hsplit with ⟨rest, hpast⟩ | ⟨front, hpre, hlog⟩
    · exact h.justified pre rest command callback hpast
    · have hfront : front = [.fired timer.job d.now, .effect .changed] ∧
          command = timer.job.command ∧ callback = timer.job.callback := by
        unfold fireLog at hlog
        rcases front with _ | ⟨a, _ | ⟨b, _ | ⟨c, front⟩⟩⟩
        · simp at hlog
        · simp at hlog
        · simp only [List.cons_append, List.nil_append, List.cons.injEq, Entry.effect.injEq,
            Effect.send.injEq, Command.load.injEq] at hlog
          obtain ⟨rfl, rfl, ⟨rfl, rfl⟩, -⟩ := hlog
          exact ⟨rfl, rfl, rfl⟩
        · simp at hlog
      obtain ⟨rfl, hcommand, hcallback⟩ := hfront
      exact ⟨past, timer.job, timer.due, d.now, hwaiting, due, hpre, hcommand, hcallback⟩
  · intro g
    rw [marks_append, hmarks]
    by_cases hg : timer.job.generation = g
    · rw [← hg, hasked, if_pos rfl]
      exact .loading hfile
    · rw [if_neg hg, List.append_nil]
      exact h.complete g
  · intro g hg
    have hlt : p.generation < g := hg
    rw [marks_append, hmarks, if_neg (by omega), h.fresh g (by omega)]
    rfl

theorem Inv.moves (h : Inv resolve d past) {d' : Desk} {log : List Entry}
    (hmoves : d.Moves resolve d' log) : Inv resolve d' (past ++ log) := by
  have herase {α : Type} {l : List α} {i : Nat} : ∀ x ∈ l.eraseIdx i, x ∈ l :=
    fun _ hx => List.mem_of_mem_eraseIdx hx
  cases hmoves with
  | present idle valid busy next => exact h.present valid busy next
  | remove idle busy next => exact h.remove busy next
  | reset idle next =>
      refine h.sterile (fun _ hc => hc) (fun _ ht => ht) ?_ (fun _ => rfl) ?_ ?_
      · exact Nat.le_of_lt (Nat.lt_of_lt_of_eq (Nat.lt_succ_self _) next.symm)
      · intro hsame
        exact absurd (next.symm.trans hsame) (Nat.succ_ne_self _)
      · rw [idle]
        exact h.owed_next (Nat.lt_of_lt_of_eq (Nat.lt_succ_self _) next.symm)
  | quiet busy same calls timers quiet =>
      refine h.sterile (calls ▸ fun _ hc => hc) (timers ▸ fun _ ht => ht) (Nat.le_of_eq same.symm)
        (fun _ => marks_quiet quiet) (fun _ => quiet) ?_
      have hsingle := h.single
      unfold Desk.owed at hsingle ⊢
      rw [calls, timers, same, busy]
      exact hsingle
  | staleReply owed stale =>
      refine h.sterile herase (fun _ ht => ht) (Nat.le_refl _) (fun _ => rfl)
        (fun _ => by simp [Quiet, Entry.Quiet]) ?_
      have hsingle := h.single
      have hcount := countP_eraseIdx
        (p := fun c : Callback => c.generation = d.presenter.generation) owed
      simp only [stale, decide_false, Bool.toNat_false, Nat.add_zero] at hcount
      unfold Desk.owed at hsingle ⊢
      dsimp only
      omega
  | staleFire owed stale =>
      refine h.sterile (fun _ hc => hc) herase (Nat.le_refl _) (fun _ => rfl)
        (fun _ => by simp [Quiet, Entry.Quiet]) ?_
      have hsingle := h.single
      have hcount := countP_eraseIdx
        (p := fun t : Timer => t.job.generation = d.presenter.generation) owed
      simp only [stale, decide_false, Bool.toNat_false, Nat.add_zero] at hcount
      unfold Desk.owed at hsingle ⊢
      dsimp only
      omega
  | ended owed current idle same quiet =>
      refine h.sterile herase (fun _ ht => ht) (Nat.le_of_eq same.symm)
        (fun _ => marks_quiet quiet) (fun _ => quiet) ?_
      have hzero := (h.owed_reply owed current).1
      rw [idle]
      show Desk.owed _ _ = 0
      unfold Desk.owed at hzero ⊢
      dsimp only at hzero ⊢
      rw [same]
      exact hzero
  | confirmed owed current confirms busy same => exact h.confirmed owed current confirms busy same
  | fired owed due current busy same => exact h.fired owed due current busy same

end Steps

theorem inv_reaches {resolve : String → String} {d : Desk} {log : List Entry}
    (h : (desk resolve).Reaches d log) : Inv resolve d log :=
  h.history (Inv resolve) (Inv.init resolve) fun _ _ _ _ _ hinv hs =>
    hinv.moves (Desk.step_moves hs)

/-! ## After a reset -/

/-- A generation never comes back, and only the current one sends. -/
theorem Desk.Moves.later {resolve : String → String} {d d' : Desk} {log : List Entry}
    (h : d.Moves resolve d' log) :
    d.presenter.generation ≤ d'.presenter.generation ∧
      ∀ command callback, .effect (.send command callback) ∈ log →
        d.presenter.generation ≤ callback.generation := by
  have hquiet {log : List Entry} (hq : Quiet log) :
      ∀ command callback, .effect (.send command callback) ∈ log →
        d.presenter.generation ≤ callback.generation :=
    fun _ _ hmem => (hq _ hmem).elim
  cases h with
  | present idle valid busy next =>
      refine ⟨by dsimp only; omega, fun command callback hmem => ?_⟩
      simp [startLog] at hmem
      rw [hmem.2]
      exact Nat.le_of_lt (by simp only [Callback.generation]; omega)
  | remove idle busy next =>
      refine ⟨by dsimp only; omega, fun command callback hmem => ?_⟩
      simp [startLog] at hmem
      rw [hmem.2]
      exact Nat.le_of_lt (by simp only [Callback.generation]; omega)
  | reset idle next => exact ⟨by dsimp only; omega, by simp⟩
  | quiet busy same calls timers quiet => exact ⟨Nat.le_of_eq same.symm, hquiet quiet⟩
  | staleReply owed stale => exact ⟨Nat.le_refl _, by simp⟩
  | staleFire owed stale => exact ⟨Nat.le_refl _, by simp⟩
  | ended owed current idle same quiet => exact ⟨Nat.le_of_eq same.symm, hquiet quiet⟩
  | confirmed owed current confirms busy same =>
      exact ⟨Nat.le_of_eq same.symm, by simp [confirmLog]⟩
  | fired owed due current busy same =>
      refine ⟨Nat.le_of_eq same.symm, fun command callback hmem => ?_⟩
      simp [fireLog] at hmem
      rw [hmem.2]
      exact Nat.le_of_eq current.symm

theorem run_later {resolve : String → String} {es : List Event} {d d' : Desk}
    {log : List Entry} (h : (desk resolve).run es d = some (d', log)) {g : Nat}
    (hg : g < d.presenter.generation) :
    g < d'.presenter.generation ∧ ∀ command callback, .effect (.send command callback) ∈ log →
      g < callback.generation := by
  let Later (d : Desk) (past : List Entry) : Prop := g < d.presenter.generation ∧
    ∀ command callback, .effect (.send command callback) ∈ past → g < callback.generation
  have hstart : Later d [] := ⟨hg, by simp⟩
  have hrun := Transition.System.run_history (M := desk resolve) Later ?_ hstart h
  · simpa using hrun
  · intro e d d' log past hinv hs
    obtain ⟨hle, hsent⟩ := (Desk.step_moves hs).later
    refine ⟨Nat.lt_of_lt_of_le hinv.1 hle, fun command callback hmem => ?_⟩
    rcases List.mem_append.mp hmem with hmem | hmem
    · exact hinv.2 command callback hmem
    · exact Nat.lt_of_lt_of_le hinv.1 (hsent command callback hmem)

theorem step_stale_reply {resolve : String → String} {d : Desk} {i : Nat} {callback : Callback}
    (reply : Reply) (owed : d.calls[i]? = some callback)
    (stale : callback.generation ≠ d.presenter.generation) :
    Desk.step resolve (.reply i reply) d =
      some ({ d with calls := d.calls.eraseIdx i }, [.answered callback reply d.now]) := by
  unfold Desk.step
  simp only [owed, Option.bind_eq_bind, Option.bind_some, Presenter.answer_stale stale]
  rfl

theorem step_stale_fire {resolve : String → String} {d : Desk} {i : Nat} {timer : Timer}
    (owed : d.timers[i]? = some timer) (due : timer.due ≤ d.now)
    (stale : timer.job.generation ≠ d.presenter.generation) :
    Desk.step resolve (.fire i) d =
      some ({ d with timers := d.timers.eraseIdx i }, [.fired timer.job d.now]) := by
  unfold Desk.step
  simp only [owed, Option.bind_eq_bind, Option.bind_some, if_pos due, Presenter.fire_stale stale]
  rfl

theorem step_negative (resolve : String → String) {d : Desk} {i : Nat} {callback : Callback}
    {reply : Reply} (owed : d.calls[i]? = some callback)
    (current : callback.generation = d.presenter.generation) (negative : callback.Negative reply) :
    ∃ message, Desk.step resolve (.reply i reply) d =
      some ({ d with presenter := d.presenter.finish.1, calls := d.calls.eraseIdx i },
        [.answered callback reply d.now, .effect .changed, .effect (.error message)]) := by
  obtain ⟨message, hrun⟩ := Presenter.answer_negative current negative
  refine ⟨message, ?_⟩
  unfold Desk.step
  simp only [owed, Option.bind_eq_bind, Option.bind_some, hrun]
  rfl

theorem step_confirms (resolve : String → String) (d : Desk) (i : Nat) (job : Job)
    {reply : Reply}
    (owed : d.calls[i]? = some (.presentRemoved job.generation job.command job.candidate))
    (current : job.generation = d.presenter.generation) (confirms : Confirms reply) :
    ∃ p, Desk.step resolve (.reply i reply) d =
      some ({ d with
        presenter := p, calls := d.calls.eraseIdx i
        timers := d.timers ++ [{ due := d.now + 500, job }] }, confirmLog job reply d.now) ∧
      p.busy = d.presenter.busy ∧ p.generation = d.presenter.generation := by
  refine ⟨{ d.presenter with
    loaded := .bool false, path := none, crc := none,
    phase := "Esperando para volver a presentar…" }, ?_, rfl, rfl⟩
  unfold Desk.step
  simp only [owed, Option.bind_eq_bind, Option.bind_some,
    Presenter.answer_confirms job current confirms]
  rfl

theorem step_fires (resolve : String → String) (d : Desk) (i : Nat) {timer : Timer}
    (owed : d.timers[i]? = some timer) (due : timer.due ≤ d.now)
    (current : timer.job.generation = d.presenter.generation) :
    ∃ p, Desk.step resolve (.fire i) d =
      some ({ d with
        presenter := p, calls := d.calls ++ [timer.job.callback]
        timers := d.timers.eraseIdx i }, fireLog timer.job d.now) ∧
      p.busy = d.presenter.busy := by
  have hfire : d.presenter.fire timer.job = (_, _) := if_neg (not_not.mpr current)
  refine ⟨{ d.presenter with phase := "Presentando…" }, ?_, rfl⟩
  unfold Desk.step
  simp only [owed, Option.bind_eq_bind, Option.bind_some, if_pos due, hfire]
  rfl

/-! ## The workflow -/

/-- Every `load` follows the confirmed removal of its own workflow and the delay after
it; one call sends at most one `unload` and one `load`; refused calls and stale
closures change nothing; a failure ends the workflow. -/
theorem load_after_removal (resolve : String → String) {d : Desk} {log : List Entry}
    (h : (desk resolve).Reaches d log) :
    (∀ pre post command callback,
      log = pre ++ .effect (.send (.load command) callback) :: post →
      Justified resolve pre command callback) ∧
    (∀ g, Complete (marks g log)) ∧
    (d.presenter.busy = true →
      (∀ path file, Desk.step resolve (.present path file) d = some (d, [.refused (.ok false)])) ∧
      Desk.step resolve .remove d = some (d, [.refused (.ok false)])) ∧
    (∀ path file text, d.presenter.busy = false → Presenter.readBin file = .error text →
      Desk.step resolve (.present path file) d = some (d, [.refused (.error text)])) ∧
    (∀ es d₁ d₂ log₁ log₂, Desk.step resolve .reset d = some (d₁, log₁) →
      (desk resolve).run es d₁ = some (d₂, log₂) →
      (∀ command callback, .effect (.send command callback) ∈ log₂ →
        d.presenter.generation < callback.generation) ∧
      (∀ i callback reply, d₂.calls[i]? = some callback →
        callback.generation ≤ d.presenter.generation →
        Desk.step resolve (.reply i reply) d₂ =
          some ({ d₂ with calls := d₂.calls.eraseIdx i }, [.answered callback reply d₂.now])) ∧
      (∀ i timer, d₂.timers[i]? = some timer → timer.due ≤ d₂.now →
        timer.job.generation ≤ d.presenter.generation →
        Desk.step resolve (.fire i) d₂ =
          some ({ d₂ with timers := d₂.timers.eraseIdx i }, [.fired timer.job d₂.now]))) ∧
    (∀ i callback reply, d.calls[i]? = some callback →
      callback.generation = d.presenter.generation → callback.Negative reply →
      ∃ d' message, Desk.step resolve (.reply i reply) d =
          some (d', [.answered callback reply d.now, .effect .changed, .effect (.error message)]) ∧
        d'.presenter.busy = false ∧ d'.owed d'.presenter.generation = 0) := by
  have hinv := inv_reaches h
  refine ⟨hinv.justified, hinv.complete, ?_, ?_, ?_, ?_⟩
  · intro hbusy
    refine ⟨fun path file => ?_, ?_⟩
    · unfold Desk.step Presenter.present
      simp only [if_pos hbusy]
      rfl
    · unfold Desk.step Presenter.remove
      simp only [if_pos hbusy]
      rfl
  · intro path file text hidle hfile
    unfold Desk.step Presenter.present
    simp only [hidle, hfile]
    rfl
  · intro es d₁ d₂ log₁ log₂ hreset hrun
    have hgeneration : d.presenter.generation < d₁.presenter.generation := by
      cases hreset
      exact Nat.lt_succ_self _
    obtain ⟨hlater, hsent⟩ := run_later hrun hgeneration
    refine ⟨hsent, fun i callback reply owed hold => ?_, fun i timer owed due hold => ?_⟩
    · exact step_stale_reply reply owed (by omega)
    · exact step_stale_fire owed due (by omega)
  · intro i callback reply owed current negative
    obtain ⟨message, hrun⟩ := step_negative resolve owed current negative
    exact ⟨_, message, hrun, rfl, (hinv.owed_reply owed current).1⟩

/-- A presentation up to its `load`. -/
theorem load_after_removal_plain :
    ∃ d log command callback, (desk id).Reaches d log ∧ d.presenter.busy = true ∧
      .effect (.send (.load command) callback) ∈ log ∧
      ∃ pre, Justified id pre command callback := by
  have hvalid : ∃ file command, Presenter.readBin file = .ok command := by
    refine ⟨.ok Device.plainTag,
      { hex := hex Device.plainTag, crc := (Crc32.standard Device.plainTag).toNat }, ?_⟩
    rw [Presenter.readBin_ok]
    exact loadBin_ok_iff.mpr ⟨by decide +kernel, by decide +kernel, rfl⟩
  obtain ⟨file, command, hfile⟩ := hvalid
  let job : Job := { generation := 1, command, candidate := "plain.bin" }
  let reply : Reply := [("ok", .bool true), ("loaded", .bool false)]
  have hconfirms : Confirms reply := by
    simp [Confirms, reply, Reply.get, Reply.get?, Value.truthy, Value.isFalse]
  let d : Desk :=
    { Desk.init with
      presenter := (Presenter.init.start "Retirando antes de presentar…").1
      calls := [.presentRemoved 1 command "plain.bin"] }
  have hstart : Desk.step id (.present "plain.bin" file) Desk.init =
      some (d, startLog (.presented 1 "plain.bin" file)
        (.presentRemoved 1 command "plain.bin")) := by
    unfold Desk.step Presenter.present
    simp only [hfile]
    rfl
  obtain ⟨p, hconfirm, hbusy, hgeneration⟩ :=
    step_confirms id d 0 job rfl rfl hconfirms
  let due : Desk :=
    { d with
      presenter := p, now := 500, calls := d.calls.eraseIdx 0
      timers := d.timers ++ [{ due := d.now + 500, job }] }
  have hdue : d.now + 500 ≤ due.now := Nat.le_of_eq (Nat.zero_add 500)
  obtain ⟨q, hfire, hstill⟩ :=
    step_fires id due 0 rfl hdue hgeneration.symm
  have hreach : (desk id).Reaches _ _ :=
    ⟨[.present "plain.bin" file, .reply 0 reply, .elapse 500, .fire 0],
      Transition.System.run_cons_some.mpr ⟨_, _, _, hstart,
        Transition.System.run_cons_some.mpr ⟨_, _, _, hconfirm,
          Transition.System.run_cons_some.mpr ⟨due, [], _, rfl,
            Transition.System.run_singleton_some.mpr hfire, rfl⟩, rfl⟩, rfl⟩⟩
  exact ⟨_, _, command, job.callback, hreach, hstill.trans hbusy, by simp [fireLog, job], _,
    (load_after_removal id hreach).1 (startLog _ _ ++ confirmLog job reply 0 ++ [_, _]) [] command
      job.callback rfl⟩

end SwitchController.Host
