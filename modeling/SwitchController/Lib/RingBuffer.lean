import Mathlib.Data.Nat.ModEq
import Mathlib.Logic.Function.Basic
import Mathlib.Data.List.Basic

/-! # Ring buffers as FIFO lists

A ring of `cap` slots with a head index and an element count. `contents` is the
list the ring stands for, oldest element first. Slots outside the window may
hold anything: no lemma below mentions them.
-/

structure RingBuffer (α : Type) where
  slots : Nat → α
  head : Nat
  count : Nat

namespace RingBuffer

variable {α : Type} {cap : Nat}

/-- The index of the `i`-th element of the window. -/
def index (cap : Nat) (r : RingBuffer α) (i : Nat) : Nat := (r.head + i) % cap

def contents (cap : Nat) (r : RingBuffer α) : List α :=
  (List.range r.count).map fun i => r.slots (r.index cap i)

structure WF (cap : Nat) (r : RingBuffer α) : Prop where
  head_lt : r.head < cap
  count_le : r.count ≤ cap

def clear (r : RingBuffer α) : RingBuffer α := { r with head := 0, count := 0 }

/-- Write a slot in place. -/
def store (r : RingBuffer α) (slot : Nat) (x : α) : RingBuffer α :=
  { r with slots := Function.update r.slots slot x }

def push (cap : Nat) (r : RingBuffer α) (x : α) : RingBuffer α :=
  { r.store (r.index cap r.count) x with count := r.count + 1 }

def pop (cap : Nat) (r : RingBuffer α) : RingBuffer α :=
  { r with head := (r.head + 1) % cap, count := r.count - 1 }

@[simp] theorem contents_length (r : RingBuffer α) : (r.contents cap).length = r.count := by
  simp [contents]

theorem contents_eq_nil_iff (r : RingBuffer α) : r.contents cap = [] ↔ r.count = 0 := by
  rw [← List.length_eq_zero_iff, contents_length]

@[simp] theorem clear_contents (r : RingBuffer α) : r.clear.contents cap = [] := by
  simp [contents, clear]

theorem clear_wf (r : RingBuffer α) (hc : 0 < cap) : r.clear.WF cap := ⟨hc, Nat.zero_le _⟩

/-- Distinct window positions use distinct slots. -/
theorem index_ne {r : RingBuffer α} {i j : Nat} (hi : i < j) (hj : j < cap) :
    r.index cap i ≠ r.index cap j := by
  intro h
  have hmod : Nat.ModEq cap i j := Nat.ModEq.add_left_cancel' r.head h
  have heq : i = j := Nat.ModEq.eq_of_lt_of_lt hmod (Nat.lt_trans hi hj) hj
  omega

theorem push_contents (r : RingBuffer α) (x : α) (h : r.count < cap) :
    (r.push cap x).contents cap = r.contents cap ++ [x] := by
  have hold : ∀ i ∈ List.range r.count,
      (r.push cap x).slots ((r.push cap x).index cap i) = r.slots (r.index cap i) := by
    intro i hi
    have hne : r.index cap i ≠ r.index cap r.count := index_ne (List.mem_range.mp hi) h
    simpa [push, store, index] using Function.update_of_ne hne x r.slots
  have hnew : (r.push cap x).slots ((r.push cap x).index cap r.count) = x := by
    simp [push, store, index]
  change (List.range (r.count + 1)).map _ = _
  rw [List.range_succ, List.map_append, List.map_congr_left hold]
  simp [contents, hnew]

theorem push_wf {r : RingBuffer α} (x : α) (hw : r.WF cap) (h : r.count < cap) :
    (r.push cap x).WF cap := ⟨hw.head_lt, h⟩

/-- Rewriting the slot that was filled last changes the newest element only. -/
theorem push_store (r : RingBuffer α) (x y : α) :
    (r.push cap x).store (r.index cap r.count) y = r.push cap y := by
  simp [push, store]

theorem pop_contents (r : RingBuffer α) : (r.pop cap).contents cap = (r.contents cap).tail := by
  cases hc : r.count with
  | zero => simp [contents, pop, hc]
  | succ n =>
      have hshift : ∀ i, (r.pop cap).index cap i = r.index cap (i + 1) := by
        intro i
        simp only [index, pop, Nat.mod_add_mod]
        congr 1
        omega
      simp only [contents, hc, List.range_succ_eq_map, List.map_cons, List.tail_cons, List.map_map]
      rw [show (r.pop cap).count = n from by simp [pop, hc]]
      apply List.map_congr_left
      intro i _
      rw [hshift]
      rfl

theorem pop_wf {r : RingBuffer α} (hw : r.WF cap) : (r.pop cap).WF cap := by
  have hc := hw.count_le
  exact ⟨Nat.mod_lt _ (Nat.lt_of_le_of_lt (Nat.zero_le _) hw.head_lt), by simp only [pop]; omega⟩

theorem contents_head? {r : RingBuffer α} (hw : r.WF cap) :
    (r.contents cap).head? = if r.count = 0 then none else some (r.slots r.head) := by
  cases hc : r.count with
  | zero => simp [contents, hc]
  | succ n =>
      simp [contents, hc, List.range_succ_eq_map, index, Nat.mod_eq_of_lt hw.head_lt]

/-- The head slot holds the oldest element. -/
theorem contents_eq_cons {r : RingBuffer α} (hw : r.WF cap) (h : r.count ≠ 0) :
    r.contents cap = r.slots r.head :: (r.pop cap).contents cap := by
  have hh := contents_head? hw
  rw [if_neg h] at hh
  rw [pop_contents]
  exact (List.cons_head?_tail hh).symm

theorem mem_contents_push {r : RingBuffer α} {x y : α} (h : r.count < cap)
    (hy : y ∈ (r.push cap x).contents cap) : y ∈ r.contents cap ∨ y = x := by
  rw [push_contents r x h] at hy
  simpa using hy

end RingBuffer
