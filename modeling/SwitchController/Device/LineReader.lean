import Mathlib.Data.List.Forall2
import Mathlib.Data.List.ReduceOption
import SwitchController.Lib.Lines
import SwitchController.Lib.Memory

/-! # Lines out of a byte stream

The loop of `reader`, with its stores checked against the buffer and with every line
it hands to `xQueueSend`, whether the queue takes it or not. After any bytes its
locals are a function of the line that is not ended yet, and the lines it handed over
are the ended ones that fit.
-/

namespace SwitchController.Device

open Memory

def lineSize : Nat := 1400

/-- The locals of `reader`. -/
structure LineState where
  line : Bytes
  used : Nat
  overflow : Bool

/-- `line[i] = b`. Outside the buffer there is nothing to store to. -/
def store (line : Bytes) (i : Nat) (b : UInt8) : Option Bytes :=
  if i < line.length then some (line.set i b) else none

/-- One pass of the loop, with what `uart_read_bytes` got: the locals after it and what
was handed to `xQueueSend`. -/
def readerPass (c : Option UInt8) (s : LineState) : Option (LineState × List Bytes) :=
  match c with
  | none => some (s, [])
  | some c =>
      if c = 0x0d then some (s, [])
      else if c = 0x0a then
        if s.overflow = false ∧ s.used ≠ 0 then do
          let line ← store s.line s.used 0
          some ({ line, used := 0, overflow := false }, [line])
        else some ({ s with used := 0, overflow := false }, [])
      else if s.used < lineSize - 1 ∧ s.overflow = false then do
        let line ← store s.line s.used c
        some ({ s with line, used := s.used + 1 }, [])
      else some ({ s with overflow := true }, [])

def readerLoop : List (Option UInt8) → LineState → Option (LineState × List Bytes)
  | [], s => some (s, [])
  | c :: reads, s => do
      let (s', offered) ← readerPass c s
      let (s'', later) ← readerLoop reads s'
      some (s'', offered ++ later)

/-- `reader` as it enters its loop; the buffer holds whatever was there. -/
def LineState.entry (line : Bytes) : LineState where
  line := line
  used := 0
  overflow := false

def withoutCr (line : Bytes) : Bytes := line.filter fun c => c ≠ 0x0d

/-- A line that is worth a command and leaves room for its NUL. -/
def Fits (line : Bytes) : Prop := line ≠ [] ∧ line.length ≤ lineSize - 1

instance (line : Bytes) : Decidable (Fits line) := inferInstanceAs (Decidable (_ ∧ _))

/-- The commands in a byte stream: its ended lines without carriage returns, if they fit. -/
def commandLines (bytes : Bytes) : List Bytes :=
  ((Lines.closed 0x0a bytes).map withoutCr).filter fun line => Fits line

structure Carries (line item : Bytes) : Prop where
  size : item.length = lineSize
  text : item.take line.length = line
  nul : item[line.length]? = some 0

/-! ## One pass -/

/-- The locals when `current` is what came of the line so far. -/
structure LineState.Collects (s : LineState) (current : Bytes) : Prop where
  size : s.line.length = lineSize
  room : s.used ≤ lineSize - 1
  overflow : s.overflow = true ↔ lineSize - 1 < current.length
  used : s.overflow = false → s.used = current.length
  text : s.overflow = false → s.line.take s.used = current

theorem LineState.Collects.used_lt {s : LineState} {current : Bytes} (h : s.Collects current) :
    s.used < s.line.length := by
  have hroom := h.room
  rw [h.size]
  unfold lineSize at hroom ⊢
  omega

theorem LineState.Collects.store {s : LineState} {current : Bytes} (h : s.Collects current)
    (b : UInt8) : Device.store s.line s.used b = some (s.line.set s.used b) :=
  if_pos h.used_lt

theorem readerPass_newline {s : LineState} {current : Bytes} (h : s.Collects current) :
    ∃ s' offered, readerPass (some 0x0a) s = some (s', offered) ∧ s'.Collects [] ∧
      List.Forall₂ Carries ([current].filter fun line => Fits line) offered := by
  have hempty : ∀ line : Bytes, line.length = lineSize →
      LineState.Collects ⟨line, 0, false⟩ [] := by
    intro line hline
    constructor <;> simp [hline, lineSize]
  by_cases hsend : s.overflow = false ∧ s.used ≠ 0
  · have hused := h.used hsend.1
    have hne : current ≠ [] := by
      intro hnil
      rw [hnil] at hused
      exact hsend.2 hused
    have hfits : Fits current := by
      have hroom := h.room
      rw [hused] at hroom
      exact ⟨hne, hroom⟩
    have hitem : Carries current (s.line.set s.used 0) := by
      constructor
      · rw [List.length_set, h.size]
      · rw [← hused, List.take_set_of_le (Nat.le_refl _), h.text hsend.1]
      · rw [← hused, List.getElem?_set_self h.used_lt]
    have hpass : readerPass (some 0x0a) s =
        some ({ line := s.line.set s.used 0, used := 0, overflow := false },
          [s.line.set s.used 0]) := by
      simp [readerPass, hsend, h.store]
    refine ⟨_, _, hpass, hempty _ (by rw [List.length_set, h.size]), ?_⟩
    have hkeep : [current].filter (fun line => Fits line) = [current] :=
      List.filter_cons_of_pos (decide_eq_true hfits)
    rw [hkeep]
    exact List.Forall₂.cons hitem List.Forall₂.nil
  · have hfits : ¬ Fits current := by
      intro hfits
      apply hsend
      have hov : s.overflow = false := by
        by_contra hov
        have hlong := h.overflow.mp (by simpa using hov)
        have hshort := hfits.2
        omega
      have hused := h.used hov
      have hpos := List.length_pos_of_ne_nil hfits.1
      exact ⟨hov, by omega⟩
    have hpass : readerPass (some 0x0a) s =
        some ({ s with used := 0, overflow := false }, []) := by
      simp [readerPass, hsend]
    refine ⟨_, _, hpass, hempty _ h.size, ?_⟩
    have hdrop : [current].filter (fun line => Fits line) = [] :=
      List.filter_cons_of_neg (by simpa using hfits)
    rw [hdrop]
    exact List.Forall₂.nil

theorem readerPass_text {s : LineState} {current : Bytes} (h : s.Collects current) {c : UInt8}
    (hlf : c ≠ 0x0a) :
    ∃ s', readerPass (some c) s = some (s', []) ∧ s'.Collects (current ++ withoutCr [c]) := by
  by_cases hcr : c = 0x0d
  · have hdrop : withoutCr [c] = [] := by simp [withoutCr, hcr]
    rw [hdrop, List.append_nil]
    exact ⟨s, by simp [readerPass, hcr], h⟩
  have hkeep : withoutCr [c] = [c] := by simp [withoutCr, hcr]
  rw [hkeep]
  by_cases hroom : s.used < lineSize - 1 ∧ s.overflow = false
  · have hused := h.used hroom.2
    have htake : (s.line.set s.used c).take (s.used + 1) = current ++ [c] := by
      rw [List.take_add_one, List.take_set_of_le (Nat.le_refl _), h.text hroom.2,
        List.getElem?_set_self h.used_lt]
      rfl
    have hpass : readerPass (some c) s =
        some ({ s with line := s.line.set s.used c, used := s.used + 1 }, []) := by
      simp [readerPass, hcr, hlf, hroom, h.store]
    refine ⟨_, hpass, ?_⟩
    constructor
    · rw [List.length_set, h.size]
    · exact hroom.1
    · have hshort : ¬ lineSize - 1 < (current ++ [c]).length := by
        rw [List.length_append, List.length_singleton]
        omega
      simp only [hroom.2, Bool.false_eq_true, hshort]
    · intro _
      rw [List.length_append, List.length_singleton, hused]
    · intro _
      exact htake
  · have hpass : readerPass (some c) s = some ({ s with overflow := true }, []) := by
      simp [readerPass, hcr, hlf, hroom]
    refine ⟨_, hpass, ?_⟩
    constructor
    · exact h.size
    · exact h.room
    · have hlong : lineSize - 1 < (current ++ [c]).length := by
        rw [List.length_append, List.length_singleton]
        by_cases hov : s.overflow = false
        · have hused := h.used hov
          have hfull : ¬ s.used < lineSize - 1 := fun hlt => hroom ⟨hlt, hov⟩
          omega
        · have hover := h.overflow.mp (by simpa using hov)
          omega
      simp only [hlong]
    · intro hov
      cases hov
    · intro hov
      cases hov

/-! ## The loop -/

theorem readerLoop_snoc (reads : List (Option UInt8)) (c : Option UInt8) (s : LineState) :
    readerLoop (reads ++ [c]) s =
      (readerLoop reads s).bind fun r =>
        (readerPass c r.1).map fun r' => (r'.1, r.2 ++ r'.2) := by
  induction reads generalizing s with
  | nil =>
      cases hpass : readerPass c s <;> simp [readerLoop, hpass]
  | cons c' reads ih =>
      cases hpass : readerPass c' s with
      | none => simp [readerLoop, hpass]
      | some r =>
          simp only [List.cons_append, readerLoop, hpass, ih, Option.bind_eq_bind,
            Option.bind_some]
          cases hloop : readerLoop reads r.1 with
          | none => rfl
          | some r' =>
              simp only [Option.bind_some]
              cases readerPass c r'.1 <;> simp

theorem commandLines_newline (bytes : Bytes) :
    commandLines (bytes ++ [0x0a]) =
      commandLines bytes ++
        [withoutCr (Lines.tail 0x0a bytes)].filter fun line => Fits line := by
  unfold commandLines
  rw [Lines.closed_stop, List.map_append, List.filter_append]
  rfl

theorem commandLines_text {c : UInt8} (hc : c ≠ 0x0a) (bytes : Bytes) :
    commandLines (bytes ++ [c]) = commandLines bytes := by
  unfold commandLines
  rw [(Lines.snoc hc bytes).1]

theorem readerLoop_collects (line : Bytes) (hline : line.length = lineSize)
    (reads : List (Option UInt8)) :
    ∃ s offered, readerLoop reads (LineState.entry line) = some (s, offered) ∧
      s.Collects (withoutCr (Lines.tail 0x0a reads.reduceOption)) ∧
      List.Forall₂ Carries (commandLines reads.reduceOption) offered := by
  induction reads using List.reverseRecOn with
  | nil =>
      have hopen : withoutCr (Lines.tail 0x0a ([] : List (Option UInt8)).reduceOption) = [] := rfl
      refine ⟨_, _, rfl, ?_, List.Forall₂.nil⟩
      rw [hopen]
      constructor <;> simp [LineState.entry, hline, lineSize]
  | append_singleton reads c ih =>
      rcases ih with ⟨s, offered, hrun, hs, hoffered⟩
      rw [readerLoop_snoc, hrun, Option.bind_some]
      cases c with
      | none =>
          have hsame : (reads ++ [none]).reduceOption = reads.reduceOption := by
            simp [List.reduceOption_append]
          rw [hsame]
          exact ⟨s, offered, by simp [readerPass], hs, hoffered⟩
      | some c =>
          have hmore : (reads ++ [some c]).reduceOption = reads.reduceOption ++ [c] := by
            simp [List.reduceOption_append]
          rw [hmore]
          by_cases hlf : c = 0x0a
          · subst hlf
            rcases readerPass_newline hs with ⟨s', new, hpass, hs', hnew⟩
            refine ⟨s', offered ++ new, by rw [hpass]; rfl, ?_, ?_⟩
            · rw [Lines.tail_stop]
              exact hs'
            · rw [commandLines_newline]
              exact List.rel_append hoffered hnew
          · rcases readerPass_text hs hlf with ⟨s', hpass, hs'⟩
            refine ⟨s', offered, by rw [hpass, Option.map_some, List.append_nil], ?_, ?_⟩
            · rw [(Lines.snoc hlf _).2, withoutCr, List.filter_append]
              exact hs'
            · rw [commandLines_text hlf]
              exact hoffered

/-- Whatever arrives and with whatever gaps, no store misses the buffer and the lines
handed to the queue are the commands of the bytes so far, in order and each once. An
endless stream is what holds at each of its reads. -/
theorem reader_offers (line : Bytes) (hline : line.length = lineSize)
    (reads : List (Option UInt8)) :
    ∃ s offered, readerLoop reads (LineState.entry line) = some (s, offered) ∧
      List.Forall₂ Carries (commandLines reads.reduceOption) offered := by
  rcases readerLoop_collects line hline reads with ⟨s, offered, hrun, -, hoffered⟩
  exact ⟨s, offered, hrun, hoffered⟩

theorem reader_offers_gap :
    ∃ s offered, readerLoop [some 0x61, none, some 0x62, some 0x0d, some 0x0a]
        (LineState.entry (zeros lineSize)) = some (s, offered) ∧
      List.Forall₂ Carries (commandLines [0x61, 0x62, 0x0d, 0x0a]) offered :=
  reader_offers (zeros lineSize) (zeros_length _) [some 0x61, none, some 0x62, some 0x0d, some 0x0a]

end SwitchController.Device
