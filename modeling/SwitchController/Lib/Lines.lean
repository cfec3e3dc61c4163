import Mathlib.Data.List.Basic
import Mathlib.Data.List.Induction

/-! # Lines of a stream

A stream is cut at each terminator. The closed lines are what stands before one,
the tail is what stands behind the last. Both are computed from the tail so far and
what comes next, which is all a reader has to remember.
-/

namespace Lines

section Cut

variable {α : Type*} [BEq α] (stop : α)

/-- The lines a terminator ends, without it. -/
def closed (s : List α) : List (List α) := (s.splitOn stop).dropLast

/-- The line that is not ended yet. -/
def tail (s : List α) : List α := (s.splitOn stop).getLast (List.splitOn_ne_nil stop s)

theorem splitOn_eq (s : List α) : s.splitOn stop = closed stop s ++ [tail stop s] :=
  (List.dropLast_append_getLast (List.splitOn_ne_nil stop s)).symm

/-- A cut into lines and a tail is the only one. -/
theorem eq_of_splitOn {s : List α} {lines : List (List α)} {rest : List α}
    (h : s.splitOn stop = lines ++ [rest]) : closed stop s = lines ∧ tail stop s = rest := by
  rw [splitOn_eq] at h
  have hparts := List.append_inj' h rfl
  exact ⟨hparts.1, List.singleton_inj.mp hparts.2⟩

@[simp] theorem closed_nil : closed stop ([] : List α) = [] := rfl

@[simp] theorem tail_nil : tail stop ([] : List α) = [] := rfl

end Cut

variable {α : Type*} [BEq α] [LawfulBEq α] (stop : α)

theorem of_not_mem {s : List α} (h : stop ∉ s) : closed stop s = [] ∧ tail stop s = s :=
  eq_of_splitOn stop (List.splitOn_eq_singleton h)

theorem line_append {line : List α} (h : stop ∉ line) (rest : List α) :
    closed stop (line ++ stop :: rest) = line :: closed stop rest ∧
      tail stop (line ++ stop :: rest) = tail stop rest := by
  apply eq_of_splitOn
  rw [List.splitOn_append_cons_self_of_not_mem h, splitOn_eq]
  rfl

/-- Lines that are all ended make a stream with these lines and no tail. -/
theorem closed_flatMap {lines : List (List α)} (h : ∀ line ∈ lines, stop ∉ line) :
    closed stop (lines.flatMap (· ++ [stop])) = lines ∧
      tail stop (lines.flatMap (· ++ [stop])) = [] := by
  induction lines with
  | nil => exact ⟨rfl, rfl⟩
  | cons line lines ih =>
      have hrest := ih fun l hl => h l (List.mem_cons_of_mem _ hl)
      have hcut := line_append stop (h line List.mem_cons_self) (lines.flatMap (· ++ [stop]))
      rw [List.flatMap_cons, ← List.append_cons, hcut.1, hcut.2, hrest.1, hrest.2]
      exact ⟨rfl, rfl⟩

theorem not_mem_parts (s : List α) :
    (∀ line ∈ closed stop s, stop ∉ line) ∧ stop ∉ tail stop s := by
  have hall : ∀ line ∈ s.splitOn stop, stop ∉ line := by
    induction s with
    | nil => simp
    | cons c s ih =>
        rw [List.splitOn_cons_eq_if_modifyHead]
        by_cases hc : c = stop
        · rw [if_pos (by simpa using hc)]
          simpa using ih
        · rw [if_neg (by simpa using hc)]
          rcases hsplit : s.splitOn stop with _ | ⟨first, others⟩
          · exact absurd hsplit (List.splitOn_ne_nil stop s)
          · rw [hsplit] at ih
            simp only [List.modifyHead_cons, List.mem_cons, forall_eq_or_imp] at ih ⊢
            exact ⟨fun h => h.elim (fun h => hc h.symm) ih.1, ih.2⟩
  rw [splitOn_eq] at hall
  constructor
  · intro line hline
    exact hall line (List.mem_append_left _ hline)
  · exact hall _ (List.mem_append_right _ List.mem_cons_self)

theorem not_mem_tail (s : List α) : stop ∉ tail stop s := (not_mem_parts stop s).2

theorem not_mem_closed {s line : List α} (h : line ∈ closed stop s) : stop ∉ line :=
  (not_mem_parts stop s).1 line h

theorem append_cons (s rest : List α) :
    closed stop (s ++ stop :: rest) = closed stop s ++ [tail stop s] ++ closed stop rest ∧
      tail stop (s ++ stop :: rest) = tail stop rest := by
  apply eq_of_splitOn
  rw [List.splitOn_append_cons_self, splitOn_eq stop s, splitOn_eq stop rest]
  simp

/-! ## One more element -/

theorem closed_stop (s : List α) : closed stop (s ++ [stop]) = closed stop s ++ [tail stop s] := by
  simpa using (append_cons stop s []).1

@[simp] theorem tail_stop (s : List α) : tail stop (s ++ [stop]) = [] := (append_cons stop s []).2

/-- What comes next completes the tail and then cuts into lines of its own. -/
theorem append (s t : List α) :
    closed stop (s ++ t) = closed stop s ++ closed stop (tail stop s ++ t) ∧
      tail stop (s ++ t) = tail stop (tail stop s ++ t) := by
  by_cases hmem : stop ∈ s
  · have hlast := List.eq_append_cons_of_mem (List.mem_reverse.mpr hmem)
    rcases hlast with ⟨later, earlier, hrev, hlater⟩
    have hs : s = earlier.reverse ++ stop :: later.reverse := by
      rw [← List.reverse_reverse s, hrev]
      simp
    have hopen := of_not_mem stop (fun h => hlater (List.mem_reverse.mp h))
    have hcut := append_cons stop earlier.reverse later.reverse
    have hmore := append_cons stop earlier.reverse (later.reverse ++ t)
    rw [← hs, hopen.1, hopen.2, List.append_nil] at hcut
    rw [hcut.1, hcut.2, ← hmore.1, ← hmore.2, hs]
    simp
  · have hopen := of_not_mem stop hmem
    rw [hopen.1, hopen.2]
    exact ⟨rfl, rfl⟩

/-- A closed line stands between two terminators, or at the start. -/
theorem closed_split (s : List α) {line : List α} (h : line ∈ closed stop s) :
    ∃ before after, s = before ++ line ++ stop :: after ∧ tail stop before = [] := by
  by_cases hmem : stop ∈ s
  · rcases List.eq_append_cons_of_mem hmem with ⟨head, rest, rfl, hhead⟩
    have hcut := (line_append stop hhead rest).1
    rw [hcut, List.mem_cons] at h
    rcases h with rfl | hrest
    · exact ⟨[], rest, rfl, rfl⟩
    · rcases closed_split rest hrest with ⟨before, after, hsplit, htail⟩
      refine ⟨head ++ stop :: before, after, by rw [hsplit]; simp, ?_⟩
      rw [(append_cons stop head before).2]
      exact htail
  · rw [(of_not_mem stop hmem).1] at h
    cases h
termination_by s.length
decreasing_by
  subst_vars
  simp only [List.length_append, List.length_cons]
  omega

/-- What a stream without a terminator in front changes: the first line and nothing else. -/
theorem prepend {pre : List α} (hpre : stop ∉ pre) (s : List α) :
    (∀ line ∈ closed stop s, line ∈ closed stop (pre ++ s) ∨ pre ++ line ∈ closed stop (pre ++ s)) ∧
      (tail stop (pre ++ s) = tail stop s ∧ stop ∈ s ∨
        tail stop (pre ++ s) = pre ++ s ∧ stop ∉ s) := by
  by_cases hmem : stop ∈ s
  · rcases List.eq_append_cons_of_mem hmem with ⟨head, rest, rfl, hhead⟩
    have hboth : stop ∉ pre ++ head := by
      rw [List.mem_append]
      rintro (h | h)
      · exact hpre h
      · exact hhead h
    have hcut := line_append stop hhead rest
    have hcut' := line_append stop hboth rest
    rw [List.append_assoc] at hcut'
    constructor
    · intro line hline
      rw [hcut.1, List.mem_cons] at hline
      rw [hcut'.1]
      rcases hline with rfl | hline
      · exact .inr List.mem_cons_self
      · exact .inl (List.mem_cons_of_mem _ hline)
    · exact .inl ⟨by rw [hcut'.2, hcut.2], hmem⟩
  · have hboth : stop ∉ pre ++ s := by
      rw [List.mem_append]
      rintro (h | h)
      · exact hpre h
      · exact hmem h
    constructor
    · intro line hline
      rw [(of_not_mem stop hmem).1] at hline
      cases hline
    · exact .inr ⟨(of_not_mem stop hboth).2, hmem⟩

/-- The tail of a part of a stream is how a line of the whole begins. -/
theorem tail_begins (s t : List α) :
    ∃ more, tail stop s ++ more ∈ closed stop (s ++ t) ++ [tail stop (s ++ t)] := by
  have hparts := append stop s t
  have htail := not_mem_tail stop s
  by_cases hmem : stop ∈ t
  · rcases List.eq_append_cons_of_mem hmem with ⟨before, after, rfl, hbefore⟩
    have hline : stop ∉ tail stop s ++ before := by
      rw [List.mem_append]
      rintro (h | h)
      · exact htail h
      · exact hbefore h
    have hcut := (line_append stop hline after).1
    rw [List.append_assoc] at hcut
    refine ⟨before, List.mem_append_left _ ?_⟩
    rw [hparts.1, hcut]
    exact List.mem_append_right _ List.mem_cons_self
  · have hline : stop ∉ tail stop s ++ t := by
      rw [List.mem_append]
      rintro (h | h)
      · exact htail h
      · exact hmem h
    refine ⟨t, List.mem_append_right _ ?_⟩
    rw [hparts.2, (of_not_mem stop hline).2]
    exact List.mem_cons_self

variable {stop} in
theorem snoc {c : α} (hc : c ≠ stop) (s : List α) :
    closed stop (s ++ [c]) = closed stop s ∧ tail stop (s ++ [c]) = tail stop s ++ [c] := by
  have hmem : stop ∉ tail stop s ++ [c] := by
    rw [List.mem_append, List.mem_singleton]
    rintro (h | h)
    · exact not_mem_tail stop s h
    · exact hc h.symm
  have hopen := of_not_mem stop hmem
  have hparts := append stop s [c]
  rw [hparts.1, hparts.2, hopen.1, hopen.2]
  exact ⟨List.append_nil _, rfl⟩

end Lines
