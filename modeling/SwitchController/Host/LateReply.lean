import SwitchController.Host.Shown

/-! # A reply one period late

Ids come round again after 2147483646 commands, and a checksum does not tell every two
dumps apart. A reply that outlives the period can therefore confirm a load that the
device never saw.
-/

namespace SwitchController.Host.App

open Memory Device

/-- It differs from `plainTag` by the generator of the checksum. -/
def otherTag : Bytes :=
  [0x04, 0, 0, 0x8c] ++ zeros 96 ++ [0x41, 0x06, 0x71, 0xdb, 0x01] ++ zeros 435

/-- The first file is loaded, and the replies to the three releases and to the load stay on
their way when the link is closed. -/
def early : List Event :=
  [.connect true, .write, .execute 0, .deliver, .tick, .present "a" (.ok plainTag), .write,
    .execute 0, .deliver, .tick, .releaseAll, .releaseAll, .releaseAll, .elapse (1 / 2), .fire 0,
    .write, .write, .write, .write, .execute 0, .execute 0, .execute 0, .execute 0, .disconnect,
    .loseLine]

/-- A connection that is given up at once uses an id; its lines are lost. -/
def idle : List Event := [.connect true, .disconnect, .loseLine]

/-- The second file is presented, and the old replies answer the new commands. -/
def late : List Event :=
  [.connect true, .deliver, .tick, .deliver, .tick, .present "b" (.ok otherTag), .deliver, .tick,
    .elapse (1 / 2), .fire 0, .deliver, .tick]

def World.idled (n : Nat) (w : World) : World :=
  { w.disconnect with
    seq := idOf (w.sends + n), sends := w.sends + n, links := w.links + n, lastReply := w.now
    wire := []
    presenter := { w.presenter.reset.1 with generation := w.presenter.generation + 2 * n } }

section Idling

variable {p : Platform} {parse : Bytes → Option CJson} {resolve : String → String} {w : World}

theorem idle_next (hlink : w.link = none) (hwire : w.wire = []) (hseq : w.seq = idOf w.sends) :
    idle.foldl (World.next p parse resolve) w = w.idled 1 := by
  have hid : idOf (w.sends + 1) = w.seq % lastId + 1 := by rw [hseq, idOf_succ]
  unfold World.idled
  rw [hid]
  cases w
  cases hlink
  cases hwire
  rfl

theorem idled_reachable (h : (window p parse resolve).Reachable w) (hlink : w.link = none)
    (hwire : w.wire = []) (hseq : w.seq = idOf w.sends) (n : Nat) :
    (window p parse resolve).Reachable (w.idled (n + 1)) := by
  have hfree : ∀ e ∈ idle, e.Free := by simp [idle, Event.Free]
  induction n with
  | zero =>
      have hrun : (window p parse resolve).run idle w = some (_, []) := run_next idle hfree w
      rw [idle_next hlink hwire hseq] at hrun
      exact h.run hrun
  | succ n ih =>
      have hrun : (window p parse resolve).run idle (w.idled (n + 1)) = some (_, []) :=
        run_next idle hfree _
      rw [idle_next rfl rfl rfl] at hrun
      exact ih.run hrun

end Idling

def filesOf (path : String) (history : List Entry) : List Bytes :=
  history.filterMap fun
    | .presented source (.ok file) => if source = path then some file else none
    | _ => none

/-- The window with the second file shown and the first one in the device. -/
def mistaken : World :=
  late.foldl (World.next blankPlatform parseFlat id)
    ((early.foldl (World.next blankPlatform parseFlat id) .boot).idled (lastId - 4))

theorem mistaken_reachable : (window blankPlatform parseFlat id).Reachable mistaken := by
  have hearly : ∀ e ∈ early, e.Free := by simp [early, Event.Free]
  have hlate : ∀ e ∈ late, e.Free := by simp [late, Event.Free]
  have hclosed : (early.foldl (World.next blankPlatform parseFlat id) .boot).link.isNone = true ∧
      (early.foldl (World.next blankPlatform parseFlat id) .boot).wire.isEmpty = true ∧
      (early.foldl (World.next blankPlatform parseFlat id) .boot).seq =
        idOf (early.foldl (World.next blankPlatform parseFlat id) .boot).sends := by
    decide +kernel
  have hstart := (Transition.System.Reachable.start (window blankPlatform parseFlat id)).run
    (run_next early hearly World.boot)
  have hidled := idled_reachable hstart (Option.isNone_iff_eq_none.mp hclosed.1)
    (List.isEmpty_iff.mp hclosed.2.1) hclosed.2.2 (lastId - 5)
  exact hidled.run (run_next late hlate _)

theorem shown_is_other :
    ¬ ∀ w, (window blankPlatform parseFlat id).Reachable w → FileShown w := by
  intro hall
  have hend : mistaken.presenter.path = some "b" ∧
      mistaken.core.nfc.presentTag = some plainTag ∧
      ((lastObserved mistaken.history).all fun r => r.changes = mistaken.changes) = true ∧
      ((filesOf "b" mistaken.history).all fun file => file = otherTag) = true := by
    decide +kernel
  rcases hend with ⟨hpath, htag, hlatest, hfiles⟩
  rcases (hall _ mistaken_reachable).path "b" hpath with
    ⟨file, command, r, hread, hlast, -, -, -, hdevice⟩
  rw [hlast] at hlatest
  have hfile : file ∈ filesOf "b" mistaken.history :=
    List.mem_filterMap.mpr ⟨_, hread.1, if_pos rfl⟩
  have hother : file = otherTag := of_decide_eq_true (List.all_eq_true.mp hfiles _ hfile)
  have hplain := htag.symm.trans (hdevice (of_decide_eq_true hlatest))
  rw [hother] at hplain
  exact absurd (Option.some.inj hplain) (by decide +kernel)

end SwitchController.Host.App
