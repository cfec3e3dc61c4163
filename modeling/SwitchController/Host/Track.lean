import Mathlib.Data.Nat.ModEq
import SwitchController.Host.App

/-! # Where the tag has been and will go

The replies on the way back, the device and the lines on the way there make one track:
loads keep their order on it, so the place of a load tells which file a reply was given
with. The invariant of the window is stated over this track.
-/

namespace SwitchController.Host.App

open Memory Device FlatJson

/-! ## Ids -/

/-- The id of the command at a place; the place 0 belongs to the closing lines. -/
def idOf (number : Nat) : Nat := if number = 0 then 0 else (number - 1) % lastId + 1

theorem lastId_pos : 0 < lastId := by decide

theorem idOf_zero : idOf 0 = 0 := rfl

theorem idOf_pos {n : Nat} (h : 0 < n) : idOf n = (n - 1) % lastId + 1 :=
  if_neg (Nat.ne_of_gt h)

theorem idOf_succ (n : Nat) : idOf (n + 1) = idOf n % lastId + 1 := by
  have hnext : idOf (n + 1) = n % lastId + 1 := idOf_pos (Nat.succ_pos n)
  rw [hnext]
  cases n with
  | zero => rfl
  | succ n =>
      have hthis : idOf (n + 1) = n % lastId + 1 := idOf_pos (Nat.succ_pos n)
      rw [hthis, Nat.mod_add_mod]

theorem idOf_le (n : Nat) : idOf n ≤ lastId := by
  cases n with
  | zero => exact Nat.zero_le _
  | succ n =>
      rw [idOf_pos (Nat.succ_pos n)]
      exact Nat.mod_lt _ lastId_pos

/-- After a whole period the id comes round again. -/
theorem idOf_period {n : Nat} (h : 0 < n) : idOf (n + lastId) = idOf n := by
  have hsub : n + lastId - 1 = n - 1 + lastId := by omega
  rw [idOf_pos (Nat.add_pos_left h _), idOf_pos h, hsub, Nat.add_mod_right]

/-- Two places with one id in a window shorter than the period are one place. -/
theorem idOf_unique {m n sends : Nat} (hm : 0 < m) (hid : idOf m = idOf n)
    (hle : m ≤ sends) (hlt : sends < m + lastId) (hle' : n ≤ sends)
    (hlt' : sends < n + lastId) : m = n := by
  have hn : 0 < n := by
    by_contra hc
    have hzero : n = 0 := Nat.eq_zero_of_not_pos hc
    rw [hzero, idOf_zero, idOf_pos hm] at hid
    cases hid
  rw [idOf_pos hm, idOf_pos hn] at hid
  have hmod : (m - 1) % lastId = (n - 1) % lastId := Nat.add_right_cancel hid
  rcases Nat.le_total m n with hmn | hnm
  · have hdvd := (Nat.modEq_iff_dvd' (Nat.sub_le_sub_right hmn 1)).mp hmod
    have hzero := Nat.eq_zero_of_dvd_of_lt hdvd (by omega)
    omega
  · have hdvd := (Nat.modEq_iff_dvd' (Nat.sub_le_sub_right hnm 1)).mp hmod.symm
    have hzero := Nat.eq_zero_of_dvd_of_lt hdvd (by omega)
    omega

/-! ## What a call into the presenter changes -/

/-- Nothing a workflow has confirmed is touched. -/
structure SamePresented (p q : Presenter) : Prop where
  path : q.path = p.path
  lastPath : q.lastPath = p.lastPath
  crc : q.crc = p.crc
  generation : q.generation = p.generation

/-- What an answer does: nothing, a confirmed removal or a confirmed load. -/
inductive Answered (p : Presenter) (callback : Callback) (reply : Reply) :
    Presenter → List Effect → Prop
  | nothing {q : Presenter} {log : List Effect} (same : SamePresented p q)
      (hlog : ∀ now, World.scheduled now log = []) : Answered p callback reply q log
  | removed {q : Presenter} {log : List Effect} (current : callback.generation = p.generation)
      (path : q.path = none) (lastPath : q.lastPath = p.lastPath)
      (generation : q.generation = p.generation)
      (hlog : (∀ now, World.scheduled now log = []) ∨ ∃ command candidate,
        callback = .presentRemoved p.generation command candidate ∧
          ∀ now, World.scheduled now log =
            [(now + (500 : Nat) / 1000, ⟨p.generation, command, candidate⟩)]) :
      Answered p callback reply q log
  | loaded {q : Presenter} {log : List Effect} {command : LoadCommand} {candidate : String}
      (hcallback : callback = .presentLoaded p.generation command candidate)
      (ok : (reply.get "ok").truthy = true) (there : (reply.get "loaded").truthy = true)
      (sum : reply.hasCrc (some command.crc) = true)
      (path : q.path = some candidate) (lastPath : q.lastPath = some candidate)
      (crc : q.crc = some command.crc) (generation : q.generation = p.generation)
      (hlog : ∀ now, World.scheduled now log = []) : Answered p callback reply q log

theorem fail_answered {p : Presenter} {callback : Callback} {reply : Reply} (message : Value) :
    Answered p callback reply (p.fail message).1 (p.fail message).2 :=
  .nothing ⟨rfl, rfl, rfl, rfl⟩ fun _ => rfl

theorem answer_answered (p : Presenter) (callback : Callback) (reply : Reply) :
    Answered p callback reply (p.answer callback reply).1 (p.answer callback reply).2 := by
  unfold Presenter.answer
  by_cases hgen : callback.generation = p.generation
  swap
  · rw [if_pos hgen]
    exact .nothing ⟨rfl, rfl, rfl, rfl⟩ fun _ => rfl
  rw [if_neg (not_not.mpr hgen)]
  by_cases hok : (reply.get "ok").truthy = true
  swap
  · rw [if_pos (by simpa using hok)]
    exact fail_answered _
  rw [if_neg (by simpa using hok)]
  cases callback with
  | presentRemoved generation command candidate =>
      have hgeneration : generation = p.generation := hgen
      simp only [Presenter.accepted]
      split
      · exact fail_answered _
      · refine .removed hgen rfl rfl rfl (.inr ⟨command, candidate, ?_, fun now => ?_⟩)
        · rw [hgeneration]
        · rw [hgeneration]
          rfl
  | presentLoaded generation command candidate =>
      have hgeneration : generation = p.generation := hgen
      simp only [Presenter.accepted]
      split
      · exact fail_answered _
      · rename_i hconfirm
        simp only [Bool.or_eq_true, Bool.not_eq_true', not_or, Bool.not_eq_false] at hconfirm
        refine .loaded (by rw [hgeneration]) hok hconfirm.1 hconfirm.2 rfl rfl rfl rfl fun _ => rfl
  | removeRemoved generation =>
      simp only [Presenter.accepted]
      split
      · exact fail_answered _
      · exact .removed hgen rfl rfl rfl (.inl fun _ => rfl)

theorem answer_negative (callback : Callback) {reply : Reply} (p : Presenter)
    (h : (reply.get "ok").truthy = false) :
    SamePresented p (p.answer callback reply).1 ∧
      ∀ now, World.scheduled now (p.answer callback reply).2 = [] := by
  unfold Presenter.answer
  by_cases hgen : callback.generation = p.generation
  · rw [if_neg (not_not.mpr hgen), if_pos (by simp [h])]
    exact ⟨⟨rfl, rfl, rfl, rfl⟩, fun _ => rfl⟩
  · rw [if_pos hgen]
    exact ⟨⟨rfl, rfl, rfl, rfl⟩, fun _ => rfl⟩

/-! ## What is on the way -/

/-- A point of the path of the tag: the newest load so far, and what the device held. -/
abbrev Point := Nat × Option Bytes

def Echo.point (r : Echo) : Point := (r.newest, r.tag)

/-- Where a line will take the tag. -/
def Line.point : Line → Option Point
  | .sent number _ (.tag (.load command)) => some (number, decodeHex command.hex)
  | _ => none

def itemEcho : Nat × Item → Option Echo
  | (_, .line echo) => some echo
  | (_, .exception) => none

namespace World

/-- The replies on the way, oldest first. -/
def echoes (w : World) : List Echo := w.events.filterMap itemEcho ++ w.incoming

def outgoing (w : World) : List Line := (w.link.map Link.outgoing).getD []

def lines (w : World) : List Line := w.wire ++ w.outgoing

/-- From the oldest reply through the device to the newest line; `held` are replies taken
from the queue that are still being handled. -/
def track (held : List Echo) (w : World) : List Point :=
  (held ++ w.echoes).map Echo.point ++ [(w.newest, w.core.nfc.presentTag)] ++
    w.lines.filterMap Line.point

def callsOf (pending : List (Nat × Pending)) : List (Nat × Callback) :=
  pending.filterMap fun m => m.2.callback.map fun callback => (m.2.number, callback)

def calls (w : World) : List (Nat × Callback) := callsOf w.pending

/-- The generations of all closures; `hand` are callbacks taken from `pending`. -/
def closures (hand : List (Nat × Callback)) (w : World) : List Nat :=
  (hand ++ w.calls).map (·.2.generation) ++ w.timers.map (·.2.generation)

def current (hand : List (Nat × Callback)) (w : World) : List Nat :=
  (w.closures hand).filter (· = w.presenter.generation)

end World

namespace World

/-- What only sending, observing and the device change. -/
def book (w : World) : Nat × Nat × Nat × Nat × List Entry × Core :=
  (w.seq, w.sends, w.changes, w.newest, w.history, w.core)

def view (w : World) :
    Presenter × List (Nat × Pending) × List (Rat × Job) × List Line × List Echo :=
  (w.presenter, w.pending, w.timers, w.lines, w.echoes)

end World

/-! ## The invariant -/

def ReadFrom (history : List Entry) (path : String) (command : LoadCommand) (file : Bytes) : Prop :=
  .presented path (.ok file) ∈ history ∧ loadBin file = .ok command

/-- Where the command and the path of a closure come from. -/
def Sourced (history : List Entry) : Callback → Prop
  | .presentRemoved _ command candidate | .presentLoaded _ command candidate =>
      ∃ file, ReadFrom history candidate command file
  | .removeRemoved _ => True

/-- A command the window can put on its way. -/
def Request.Valid : Request → Prop
  | .state dict => dict.InRange
  | .tag (.load command) => ∃ file, loadBin file = .ok command
  | _ => True

def Line.Valid : Line → Prop
  | .sent number id request => 0 < number ∧ id = idOf number ∧ request.Valid
  | .closing => True

def observations (history : List Entry) : List (Echo × Nat) :=
  history.filterMap fun
    | .observed echo sends => some (echo, sends)
    | _ => none

def lastObserved (history : List Entry) : Option Echo :=
  (observations history).getLast?.map Prod.fst

/-- What a reply says is what the device held, and the record of it is right. -/
structure Stamped (sends changes : Nat) (present : Option Bytes) (r : Echo) : Prop where
  id : r.answer.id = idOf r.number
  number : r.number ≤ sends
  loaded : r.answer.loaded = r.tag.isSome
  crc : ∀ tag, r.tag = some tag → r.answer.crc = crc32 tag
  past : r.changes ≤ changes
  latest : r.changes = changes → r.tag = present

/-- The load of the current workflow waits for its reply. -/
structure Loading (held : List Echo) (w : World) (number : Nat) (command : LoadCommand) :
    Prop where
  path : w.presenter.path = none
  positive : 0 < number
  sent : number ≤ w.sends
  lines : ∀ l ∈ w.lines, l.number = number → l.point = some (number, decodeHex command.hex)
  echoes : ∀ r ∈ held ++ w.echoes, r.number = number →
    r.newest = number ∧ r.tag = decodeHex command.hex
  points : ∀ x ∈ w.track held, x.1 ≤ number ∧
    (x.1 = number → x.2 = none ∨ x.2 = decodeHex command.hex)

/-- A file is shown: from the next reply on, the tag is that file or gone. -/
def Showing (held : List Echo) (w : World) (path : String) : Prop :=
  ∃ number file command r, ReadFrom w.history path command file ∧
    w.presenter.crc = some command.crc ∧
    (∀ x ∈ w.track held, x.1 = number ∧ (x.2 = none ∨ x.2 = some file)) ∧
    lastObserved w.history = some r ∧ r.answer.loaded = true ∧ r.tag = some file ∧
    r.answer.crc = crc32 file

/-- A load was confirmed for this path, by a device that held the file read from it. -/
def ConfirmedLoad (history : List Entry) (path : String) : Prop :=
  ∃ file command generation r sends, ReadFrom history path command file ∧
    .observed r sends ∈ history ∧
    .answered (.presentLoaded generation command path) r ∈ history ∧ r.answer.ok = true ∧
    r.answer.loaded = true ∧ r.tag = some file ∧ r.answer.crc = crc32 file

structure Inv (held : List Echo) (hand : List (Nat × Callback)) (w : World) : Prop where
  seq : w.seq = idOf w.sends
  keys : (w.pending.map Prod.fst).Nodup
  pending : ∀ m ∈ w.pending, m.1 = idOf m.2.number ∧ 0 < m.2.number ∧ m.2.number ≤ w.sends ∧
    w.sends < m.2.number + lastId
  truth : ∃ log, Truth w.core log
  lines : ∀ l ∈ w.lines, l.number ≤ w.sends ∧ l.Valid
  echoes : ∀ r ∈ held ++ w.echoes, Stamped w.sends w.changes w.core.nfc.presentTag r
  sorted : ((w.track held).map Prod.fst).Pairwise (· ≤ ·)
  bounded : ∀ x ∈ w.track held, x.1 ≤ w.sends
  observed : ∀ r, lastObserved w.history = some r →
    r.changes ≤ w.changes ∧ (r.changes = w.changes → r.tag = w.core.nfc.presentTag)
  generations : ∀ g ∈ w.closures hand, g ≤ w.presenter.generation
  sources : (∀ c ∈ hand ++ w.calls, Sourced w.history c.2) ∧
    ∀ t ∈ w.timers, ∃ file, ReadFrom w.history t.2.candidate t.2.command file
  single : (w.current hand).length ≤ 1
  waiting : ∀ t ∈ w.timers, t.2.generation = w.presenter.generation → w.presenter.path = none
  loading : ∀ number command candidate,
    (number, .presentLoaded w.presenter.generation command candidate) ∈ hand ++ w.calls →
      Loading held w number command
  showing : ∀ path, w.presenter.path = some path → Showing held w path
  confirmed : ∀ path, w.presenter.lastPath = some path → ConfirmedLoad w.history path

/-! ## Steps that lose or move -/

/-- Nothing new is on the way or waits, and the tag and the presented file are the same. -/
structure Shrinks (held : List Echo) (hand : List (Nat × Callback)) (w : World)
    (held' : List Echo) (hand' : List (Nat × Callback)) (w' : World) : Prop where
  seq : w'.seq = w.seq
  sends : w'.sends = w.sends
  changes : w'.changes = w.changes
  newest : w'.newest = w.newest
  history : w'.history = w.history
  truth : ∃ log, Truth w'.core log
  tag : w'.core.nfc.presentTag = w.core.nfc.presentTag
  presenter : SamePresented w.presenter w'.presenter
  pending : w'.pending.Sublist w.pending
  timers : w'.timers.Sublist w.timers
  calls : ∀ c ∈ hand' ++ w'.calls, c ∈ hand ++ w.calls
  current : (w'.current hand').length ≤ (w.current hand).length
  lines : ∀ l ∈ w'.lines, l ∈ w.lines ∨ l = .closing
  points : (w'.lines.filterMap Line.point).Sublist (w.lines.filterMap Line.point)
  echoes : (held' ++ w'.echoes).Sublist (held ++ w.echoes)

section Shrinking

variable {held held' : List Echo} {hand hand' : List (Nat × Callback)} {w w' : World}

theorem mem_closures {g : Nat} : g ∈ w.closures hand ↔
    (∃ c ∈ hand ++ w.calls, c.2.generation = g) ∨ ∃ t ∈ w.timers, t.2.generation = g := by
  unfold World.closures
  rw [List.mem_append, List.mem_map, List.mem_map]

theorem mem_current {g : Nat} :
    g ∈ w.current hand ↔ g ∈ w.closures hand ∧ g = w.presenter.generation := by
  unfold World.current
  rw [List.mem_filter, decide_eq_true_eq]

theorem calls_sublist (hpending : w'.pending.Sublist w.pending) : w'.calls.Sublist w.calls :=
  hpending.filterMap _

theorem current_sublist (hgeneration : w'.presenter.generation = w.presenter.generation)
    (hpending : w'.pending.Sublist w.pending) (htimers : w'.timers.Sublist w.timers) :
    (w'.current hand).Sublist (w.current hand) := by
  have hcalls := (calls_sublist hpending).map fun c : Nat × Callback => c.2.generation
  unfold World.current World.closures
  rw [hgeneration, List.map_append, List.map_append]
  exact (((List.Sublist.refl _).append hcalls).append (htimers.map _)).filter _

theorem Shrinks.track (s : Shrinks held hand w held' hand' w') :
    (w'.track held').Sublist (w.track held) := by
  unfold World.track
  rw [s.newest, s.tag]
  exact ((s.echoes.map Echo.point).append (.refl _)).append s.points

theorem Inv.shrink (h : Inv held hand w) (s : Shrinks held hand w held' hand' w') :
    Inv held' hand' w' := by
  have htrack := s.track
  have hgeneration := s.presenter.generation
  have hechoes : ∀ r ∈ held' ++ w'.echoes, r ∈ held ++ w.echoes := fun r hr => s.echoes.subset hr
  constructor
  case seq => rw [s.seq, s.sends, h.seq]
  case keys => exact h.keys.sublist (s.pending.map Prod.fst)
  case pending =>
      rw [s.sends]
      exact fun m hm => h.pending m (s.pending.subset hm)
  case truth => exact s.truth
  case lines =>
      intro l hl
      rw [s.sends]
      rcases s.lines l hl with hl | rfl
      · exact h.lines l hl
      · exact ⟨Nat.zero_le _, trivial⟩
  case echoes =>
      rw [s.sends, s.changes, s.tag]
      exact fun r hr => h.echoes r (hechoes r hr)
  case sorted => exact h.sorted.sublist (htrack.map Prod.fst)
  case bounded =>
      rw [s.sends]
      exact fun x hx => h.bounded x (htrack.subset hx)
  case observed =>
      rw [s.history, s.changes, s.tag]
      exact h.observed
  case generations =>
      rw [hgeneration]
      intro g hg
      apply h.generations g
      rcases mem_closures.mp hg with ⟨c, hc, rfl⟩ | ⟨t, ht, rfl⟩
      · exact mem_closures.mpr (.inl ⟨c, s.calls c hc, rfl⟩)
      · exact mem_closures.mpr (.inr ⟨t, s.timers.subset ht, rfl⟩)
  case sources =>
      rw [s.history]
      exact ⟨fun c hc => h.sources.1 c (s.calls c hc),
        fun t ht => h.sources.2 t (s.timers.subset ht)⟩
  case single => exact Nat.le_trans s.current h.single
  case waiting =>
      rw [hgeneration, s.presenter.path]
      exact fun t ht => h.waiting t (s.timers.subset ht)
  case loading =>
      intro number command candidate hmem
      rw [hgeneration] at hmem
      have hload := h.loading number command candidate (s.calls _ hmem)
      refine ⟨?_, hload.positive, ?_, ?_, ?_, ?_⟩
      · rw [s.presenter.path]
        exact hload.path
      · rw [s.sends]
        exact hload.sent
      · intro l hl hn
        rcases s.lines l hl with hl | rfl
        · exact hload.lines l hl hn
        · exact absurd hload.positive (by rw [← hn]; exact Nat.lt_irrefl 0)
      · exact fun r hr => hload.echoes r (hechoes r hr)
      · exact fun x hx => hload.points x (htrack.subset hx)
  case showing =>
      intro path hpath
      rw [s.presenter.path] at hpath
      rcases h.showing path hpath with ⟨number, file, command, r, hread, hcrc, hpoints, hlast⟩
      refine ⟨number, file, command, r, ?_, ?_, ?_, ?_⟩
      · rw [s.history]
        exact hread
      · rw [s.presenter.crc]
        exact hcrc
      · exact fun x hx => hpoints x (htrack.subset hx)
      · rw [s.history]
        exact hlast
  case confirmed =>
      rw [s.presenter.lastPath, s.history]
      exact h.confirmed

theorem Inv.lose (h : Inv held hand w) (book : w'.book = w.book)
    (presenter : SamePresented w.presenter w'.presenter)
    (pending : w'.pending.Sublist w.pending) (timers : w'.timers.Sublist w.timers)
    (lines : ∀ l ∈ w'.lines, l ∈ w.lines ∨ l = .closing)
    (points : (w'.lines.filterMap Line.point).Sublist (w.lines.filterMap Line.point))
    (echoes : (held' ++ w'.echoes).Sublist (held ++ w.echoes)) : Inv held' hand w' := by
  have hsub : ∀ c ∈ hand ++ w'.calls, c ∈ hand ++ w.calls := fun c hc =>
    ((List.Sublist.refl hand).append (calls_sublist pending)).subset hc
  have hcurrent : (w'.current hand).Sublist (w.current hand) :=
    current_sublist presenter.generation pending timers
  unfold World.book at book
  simp only [Prod.mk.injEq] at book
  rcases book with ⟨seq, sends, changes, newest, history, core⟩
  exact h.shrink
    { seq, sends, changes, newest, history, truth := core ▸ h.truth, tag := by rw [core]
      presenter, pending, timers, calls := hsub, current := hcurrent.length_le
      lines, points, echoes }

theorem Inv.still (h : Inv held hand w) (book : w'.book = w.book) (view : w'.view = w.view) :
    Inv held hand w' := by
  unfold World.view at view
  simp only [Prod.mk.injEq] at view
  rcases view with ⟨presenter, pending, timers, lines, echoes⟩
  apply h.lose book
  · rw [presenter]
    exact ⟨rfl, rfl, rfl, rfl⟩
  · rw [pending]
  · rw [timers]
  · rw [lines]
    exact fun l hl => .inl hl
  · rw [lines]
  · rw [echoes]

end Shrinking

end SwitchController.Host.App
