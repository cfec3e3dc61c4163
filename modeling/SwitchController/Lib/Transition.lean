import Mathlib.Data.List.Basic

/-! # Systems that step and emit

A system takes one event to a next state and the effects it emits; `none` is a
fault, such as a read outside a buffer. Runs compose with their complete effect
lists. The rules at the end are the only inductions over runs: an invariant of
the state, an invariant of the state together with everything emitted so far,
and a relation between two runs.
-/

namespace Transition

structure System (σ ε ο : Type) where
  init : σ
  step : ε → σ → Option (σ × List ο)

variable {σ ε ο : Type}

namespace System

def run (M : System σ ε ο) : List ε → σ → Option (σ × List ο)
  | [], s => some (s, [])
  | e :: es, s =>
      match M.step e s with
      | none => none
      | some (s', o) =>
          match M.run es s' with
          | none => none
          | some (s'', os) => some (s'', o ++ os)

/-- Some run from the initial state ends here, with these effects. -/
def Reaches (M : System σ ε ο) (s : σ) (os : List ο) : Prop :=
  ∃ es, M.run es M.init = some (s, os)

def Reachable (M : System σ ε ο) (s : σ) : Prop := ∃ os, M.Reaches s os

@[simp] theorem run_nil (M : System σ ε ο) (s : σ) : M.run [] s = some (s, []) := rfl

theorem run_cons_some {M : System σ ε ο} {e : ε} {es : List ε} {s s'' : σ} {os : List ο} :
    M.run (e :: es) s = some (s'', os) ↔
      ∃ s' o os', M.step e s = some (s', o) ∧ M.run es s' = some (s'', os') ∧ os = o ++ os' := by
  constructor
  · intro h
    cases hs : M.step e s with
    | none => simp [run, hs] at h
    | some pair =>
        obtain ⟨s', o⟩ := pair
        cases hr : M.run es s' with
        | none => simp [run, hs, hr] at h
        | some rest =>
            obtain ⟨t, os'⟩ := rest
            simp only [run, hs, hr, Option.some.injEq, Prod.mk.injEq] at h
            obtain ⟨rfl, rfl⟩ := h
            exact ⟨s', o, os', rfl, hr, rfl⟩
  · rintro ⟨s', o, os', hs, hr, rfl⟩
    simp [run, hs, hr]

theorem run_append_some {M : System σ ε ο} {es fs : List ε} {s s'' : σ} {os : List ο} :
    M.run (es ++ fs) s = some (s'', os) ↔
      ∃ s' o o', M.run es s = some (s', o) ∧ M.run fs s' = some (s'', o') ∧ os = o ++ o' := by
  induction es generalizing s os with
  | nil => simp
  | cons e es ih =>
      rw [List.cons_append, run_cons_some]
      constructor
      · rintro ⟨s₁, o₁, os₁, hs, hr, rfl⟩
        obtain ⟨s₂, o₂, o₃, h₂, h₃, rfl⟩ := ih.mp hr
        exact ⟨s₂, o₁ ++ o₂, o₃, run_cons_some.mpr ⟨s₁, o₁, o₂, hs, h₂, rfl⟩, h₃,
          (List.append_assoc ..).symm⟩
      · rintro ⟨s₂, o, o₃, hr, h₃, rfl⟩
        obtain ⟨s₁, o₁, o₂, hs, h₂, rfl⟩ := run_cons_some.mp hr
        exact ⟨s₁, o₁, o₂ ++ o₃, hs, ih.mpr ⟨s₂, o₂, o₃, h₂, h₃, rfl⟩, List.append_assoc ..⟩

theorem run_singleton_some {M : System σ ε ο} {e : ε} {s s' : σ} {os : List ο} :
    M.run [e] s = some (s', os) ↔ M.step e s = some (s', os) := by
  rw [run_cons_some]
  constructor
  · rintro ⟨s₁, o, os', hs, hr, rfl⟩
    cases hr
    simpa using hs
  · intro h
    exact ⟨s', os, [], h, rfl, (List.append_nil _).symm⟩

/-! ## Rules -/

/-- A system all of whose steps succeed on an invariant has no faulting run. -/
theorem run_total {M : System σ ε ο} (Inv : σ → Prop)
    (step : ∀ e s, Inv s → ∃ s' o, M.step e s = some (s', o) ∧ Inv s')
    (es : List ε) {s : σ} (h : Inv s) : ∃ s' os, M.run es s = some (s', os) ∧ Inv s' := by
  induction es generalizing s with
  | nil => exact ⟨s, [], rfl, h⟩
  | cons e es ih =>
      obtain ⟨s₁, o, hs, h₁⟩ := step e s h
      obtain ⟨s', os, hr, h'⟩ := ih h₁
      exact ⟨s', o ++ os, run_cons_some.mpr ⟨s₁, o, os, hs, hr, rfl⟩, h'⟩

/-- An invariant of the state and the history survives a run from any point, when
every event of the run keeps it. -/
theorem run_history_on {M : System σ ε ο} (Inv : σ → List ο → Prop) (ok : ε → Prop)
    (step : ∀ e s s' o past, ok e → Inv s past → M.step e s = some (s', o) → Inv s' (past ++ o))
    {es : List ε} {s s' : σ} {os past : List ο} (hok : ∀ e ∈ es, ok e) (h : Inv s past)
    (hr : M.run es s = some (s', os)) : Inv s' (past ++ os) := by
  induction es generalizing s os past with
  | nil => cases hr; simpa using h
  | cons e es ih =>
      obtain ⟨s₁, o, os', hs, hr', rfl⟩ := run_cons_some.mp hr
      have h₁ := step e s s₁ o past (hok e (by simp)) h hs
      rw [← List.append_assoc]
      exact ih (fun e' he => hok e' (by simp [he])) h₁ hr'

theorem run_history {M : System σ ε ο} (Inv : σ → List ο → Prop)
    (step : ∀ e s s' o past, Inv s past → M.step e s = some (s', o) → Inv s' (past ++ o))
    {es : List ε} {s s' : σ} {os past : List ο} (h : Inv s past)
    (hr : M.run es s = some (s', os)) : Inv s' (past ++ os) :=
  run_history_on Inv (fun _ => True) (fun e s s' o past _ => step e s s' o past)
    (fun _ _ => trivial) h hr

theorem run_invariant {M : System σ ε ο} (Inv : σ → Prop)
    (step : ∀ e s s' o, Inv s → M.step e s = some (s', o) → Inv s')
    {es : List ε} {s s' : σ} {os : List ο} (h : Inv s) (hr : M.run es s = some (s', os)) :
    Inv s' := by
  induction es generalizing s os with
  | nil => cases hr; exact h
  | cons e es ih =>
      obtain ⟨s₁, o, os', hs, hr', rfl⟩ := run_cons_some.mp hr
      exact ih (step e s s₁ o h hs) hr'

/-- Every step of a run from here is taken in a state that allows it. -/
def Along (M : System σ ε ο) (ok : σ → ε → Prop) : List ε → σ → Prop
  | [], _ => True
  | e :: es, s => ok s e ∧ ∀ s' o, M.step e s = some (s', o) → M.Along ok es s'

theorem along_of_split {M : System σ ε ο} {ok : σ → ε → Prop} {es : List ε} {s : σ}
    (h : ∀ pre e post, es = pre ++ e :: post → ∀ s' o, M.run pre s = some (s', o) → ok s' e) :
    M.Along ok es s := by
  induction es generalizing s with
  | nil => trivial
  | cons e es ih =>
      refine ⟨h [] e es rfl s [] rfl, fun s₁ o hs => ih fun pre e' post hsplit s' o' hr => ?_⟩
      apply h (e :: pre) e' post (by rw [hsplit]; rfl) s' (o ++ o')
      exact run_cons_some.mpr ⟨s₁, o, o', hs, hr, rfl⟩

/-- An invariant of the state and the history survives a run whose steps are allowed. -/
theorem run_history_along {M : System σ ε ο} (Inv : σ → List ο → Prop) (ok : σ → ε → Prop)
    (step : ∀ e s s' o past, ok s e → Inv s past → M.step e s = some (s', o) → Inv s' (past ++ o))
    {es : List ε} {s s' : σ} {os past : List ο} (hok : M.Along ok es s) (h : Inv s past)
    (hr : M.run es s = some (s', os)) : Inv s' (past ++ os) := by
  induction es generalizing s os past with
  | nil => cases hr; simpa using h
  | cons e es ih =>
      obtain ⟨s₁, o, os', hs, hr', rfl⟩ := run_cons_some.mp hr
      have h₁ := step e s s₁ o past hok.1 h hs
      rw [← List.append_assoc]
      exact ih (hok.2 s₁ o hs) h₁ hr'

theorem run_invariant_along {M : System σ ε ο} (Inv : σ → Prop) (ok : σ → ε → Prop)
    (step : ∀ e s s' o, ok s e → Inv s → M.step e s = some (s', o) → Inv s')
    {es : List ε} {s s' : σ} {os : List ο} (hok : M.Along ok es s) (h : Inv s)
    (hr : M.run es s = some (s', os)) : Inv s' :=
  @run_history_along _ _ _ M (fun s _ => Inv s) ok (fun e s s' o _ => step e s s' o) es s s' os []
    hok h hr

theorem Reaches.history {M : System σ ε ο} (Inv : σ → List ο → Prop) (init : Inv M.init [])
    (step : ∀ e s s' o past, Inv s past → M.step e s = some (s', o) → Inv s' (past ++ o))
    {s : σ} {os : List ο} (h : M.Reaches s os) : Inv s os := by
  obtain ⟨es, hr⟩ := h
  simpa using run_history Inv step init hr

theorem Reachable.invariant {M : System σ ε ο} (Inv : σ → Prop) (init : Inv M.init)
    (step : ∀ e s s' o, Inv s → M.step e s = some (s', o) → Inv s') {s : σ}
    (h : M.Reachable s) : Inv s := by
  obtain ⟨os, es, hr⟩ := h
  exact run_invariant Inv step init hr

theorem Reachable.start (M : System σ ε ο) : M.Reachable M.init := ⟨[], [], rfl⟩

theorem Reachable.run {M : System σ ε ο} {es : List ε} {s s' : σ} {os : List ο}
    (h : M.Reachable s) (hr : M.run es s = some (s', os)) : M.Reachable s' := by
  obtain ⟨past, es₀, h₀⟩ := h
  exact ⟨past ++ os, es₀ ++ es, run_append_some.mpr ⟨s, past, os, h₀, hr, rfl⟩⟩

theorem Reachable.step {M : System σ ε ο} {e : ε} {s s' : σ} {o : List ο}
    (h : M.Reachable s) (hs : M.step e s = some (s', o)) : M.Reachable s' :=
  h.run (run_singleton_some.mpr hs)

/-- Two runs under the same events stay related and emit related effects when their
steps do. -/
theorem run_simulated {M N : System σ ε ο} (R : σ → σ → Prop) (Q : List ο → List ο → Prop)
    (nil : Q [] []) (append : ∀ o os p ps, Q o p → Q os ps → Q (o ++ os) (p ++ ps))
    (step : ∀ e s t s' o, R s t → M.step e s = some (s', o) →
      ∃ t' p, N.step e t = some (t', p) ∧ R s' t' ∧ Q o p)
    {es : List ε} {s t s' : σ} {os : List ο} (h : R s t) (hr : M.run es s = some (s', os)) :
    ∃ t' ps, N.run es t = some (t', ps) ∧ R s' t' ∧ Q os ps := by
  induction es generalizing s t os with
  | nil =>
      cases hr
      exact ⟨t, [], rfl, h, nil⟩
  | cons e es ih =>
      obtain ⟨s₁, o, os', hs, hr', rfl⟩ := run_cons_some.mp hr
      obtain ⟨t₁, p, ht, h₁, hq⟩ := step e s t s₁ o h hs
      obtain ⟨t', ps, hrt, h', hqs⟩ := ih h₁ hr'
      exact ⟨t', p ++ ps, run_cons_some.mpr ⟨t₁, p, ps, ht, hrt, rfl⟩, h', append _ _ _ _ hq hqs⟩

/-- Two runs under the same events emit the same effects when related states
step to related states emitting the same. -/
theorem run_related {M : System σ ε ο} (R : σ → σ → Prop)
    (step : ∀ e s t s' o, R s t → M.step e s = some (s', o) →
      ∃ t', M.step e t = some (t', o) ∧ R s' t')
    {es : List ε} {s t s' : σ} {os : List ο} (h : R s t) (hr : M.run es s = some (s', os)) :
    ∃ t', M.run es t = some (t', os) ∧ R s' t' := by
  have hsame := run_simulated (N := M) R (· = ·) rfl
    (fun o os p ps ho hos => by rw [ho, hos])
    (fun e s t s' o hst hs => by
      obtain ⟨t', ht, h'⟩ := step e s t s' o hst hs
      exact ⟨t', o, ht, h', rfl⟩) h hr
  obtain ⟨t', ps, ht, h', rfl⟩ := hsame
  exact ⟨t', ht, h'⟩

end System

end Transition
