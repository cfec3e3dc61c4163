import SwitchController.Lib.Transition

/-! # Monitors of a log

A monitor reads a log entry by entry, keeps a state of its own and may object to an
entry. A system whose every step keeps the two states related and gives no cause to
object is followed by the monitor over its whole run.
-/

namespace Transition

structure Monitor (μ ο : Type) where
  start : μ
  next : ο → μ → μ
  Ok : ο → μ → Prop

namespace Monitor

variable {μ ο : Type} (W : Monitor μ ο)

def after (log : List ο) (s : μ) : μ := log.foldl (fun s e => W.next e s) s

def Accepts : List ο → μ → Prop
  | [], _ => True
  | e :: log, s => W.Ok e s ∧ Accepts log (W.next e s)

@[simp] theorem after_nil (s : μ) : W.after [] s = s := rfl

@[simp] theorem after_cons (e : ο) (log : List ο) (s : μ) :
    W.after (e :: log) s = W.after log (W.next e s) := rfl

@[simp] theorem accepts_nil (s : μ) : W.Accepts [] s := trivial

@[simp] theorem accepts_cons (e : ο) (log : List ο) (s : μ) :
    W.Accepts (e :: log) s ↔ W.Ok e s ∧ W.Accepts log (W.next e s) := Iff.rfl

theorem after_append (past log : List ο) (s : μ) :
    W.after (past ++ log) s = W.after log (W.after past s) := List.foldl_append

theorem accepts_append (past log : List ο) (s : μ) :
    W.Accepts (past ++ log) s ↔ W.Accepts past s ∧ W.Accepts log (W.after past s) := by
  induction past generalizing s with
  | nil => simp
  | cons e past ih =>
      rw [List.cons_append, accepts_cons, accepts_cons, after_cons, ih]
      exact and_assoc.symm

variable {W} {σ ε : Type} {M : System σ ε ο}

/-- The run rule: a relation every step keeps makes the monitor accept every run. -/
theorem accepts_reaches (R : σ → μ → Prop) (init : R M.init W.start)
    (step : ∀ e s s' o w, R s w → M.step e s = some (s', o) →
      W.Accepts o w ∧ R s' (W.after o w))
    {s : σ} {log : List ο} (h : M.Reaches s log) :
    W.Accepts log W.start ∧ R s (W.after log W.start) := by
  refine h.history (fun s log => W.Accepts log W.start ∧ R s (W.after log W.start))
    ⟨trivial, init⟩ ?_
  intro e s s' o past ⟨hpast, hr⟩ hs
  obtain ⟨ho, hr'⟩ := step e s s' o _ hr hs
  rw [accepts_append, after_append]
  exact ⟨⟨hpast, ho⟩, hr'⟩

end Monitor

end Transition
