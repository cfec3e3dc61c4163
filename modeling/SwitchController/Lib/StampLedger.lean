import Mathlib.Data.List.Basic

/-! # Stamps of a priority queue

Messages are stamped with consecutive numbers. Some wait in a queue and keep their
number until they leave; others are stamped as they leave, and may do so only
while nothing waits. Under that rule the numbers that left only ever increase, no
matter how many stamps are lost.
-/

structure StampLedger (α : Type) where
  next : Nat
  waiting : List Nat
  sent : List (Nat × α)

namespace StampLedger

variable {α : Type}

def empty : StampLedger α := { next := 0, waiting := [], sent := [] }

def stamp (l : StampLedger α) : StampLedger α := { l with next := l.next + 1 }

def enqueue (l : StampLedger α) : StampLedger α :=
  { l with waiting := l.waiting ++ [l.next - 1] }

def sendOldest (l : StampLedger α) (msg : α) : StampLedger α :=
  match l.waiting with
  | [] => l
  | n :: waiting => { l with waiting := waiting, sent := l.sent ++ [(n, msg)] }

/-- A message leaves under a fresh number. -/
def sendNew (l : StampLedger α) (msg : α) : StampLedger α :=
  { l with next := l.next + 1, sent := l.sent ++ [(l.next, msg)] }

/-- Forget what happened, except for the counter. -/
def forget (l : StampLedger α) : StampLedger α := { l with waiting := [], sent := [] }

def order (l : StampLedger α) : List Nat := l.sent.map Prod.fst ++ l.waiting

structure Ordered (l : StampLedger α) : Prop where
  increasing : l.order.Pairwise (· < ·)
  below : ∀ n ∈ l.order, n < l.next

namespace Ordered

variable {l : StampLedger α}

theorem empty : (StampLedger.empty : StampLedger α).Ordered :=
  ⟨.nil, fun _ h => absurd h List.not_mem_nil⟩

theorem forget : l.forget.Ordered :=
  ⟨.nil, fun _ h => absurd h List.not_mem_nil⟩

/-- A lost stamp leaves a gap. -/
theorem stamp (h : l.Ordered) : l.stamp.Ordered where
  increasing := h.increasing
  below n hn := Nat.lt_succ_of_lt (h.below n hn)

/-- The order grows by a number above all others. -/
theorem extend (h : l.Ordered) {l' : StampLedger α} (horder : l'.order = l.order ++ [l.next])
    (hnext : l'.next = l.next + 1) : l'.Ordered where
  increasing := by
    rw [horder, List.pairwise_append]
    refine ⟨h.increasing, List.pairwise_singleton _ _, ?_⟩
    intro n hn m hm
    rw [List.mem_singleton.mp hm]
    exact h.below n hn
  below := by
    intro n hn
    rw [horder] at hn
    rcases List.mem_append.mp hn with hold | hnew
    · have hlt := h.below n hold
      omega
    · have heq := List.mem_singleton.mp hnew
      omega

theorem enqueue (h : l.Ordered) : l.stamp.enqueue.Ordered := by
  apply h.extend
  · simp [order, StampLedger.enqueue, StampLedger.stamp]
  · rfl

theorem sendOldest (h : l.Ordered) (msg : α) : (l.sendOldest msg).Ordered := by
  unfold StampLedger.sendOldest
  cases hw : l.waiting with
  | nil => exact h
  | cons n waiting =>
      have horder : l.order = (l.sent ++ [(n, msg)]).map Prod.fst ++ waiting := by
        simp [order, hw]
      constructor
      · have hinc := h.increasing
        rw [horder] at hinc
        exact hinc
      · intro m hm
        apply h.below
        rw [horder]
        exact hm

/-- A fresh number may overtake nothing that waits. -/
theorem sendNew (h : l.Ordered) (hempty : l.waiting = []) (msg : α) :
    (l.sendNew msg).Ordered := by
  apply h.extend
  · simp [order, StampLedger.sendNew, hempty]
  · rfl

theorem sent_increasing (h : l.Ordered) : (l.sent.map Prod.fst).Pairwise (· < ·) :=
  (List.pairwise_append.mp h.increasing).1

end Ordered

end StampLedger
