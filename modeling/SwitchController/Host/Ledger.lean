import SwitchController.Host.Notes
import SwitchController.Host.Sending

/-! # The table of pending commands and its outcomes

The table of pending commands is emptied by replies, by the timer and by a disconnection.
Every command with a closure stays in it until its one outcome. Only a whole period of ids
can put a later command in its place.
-/

namespace SwitchController.Host.App

/-! ## Reading the notes -/

/-- Does the note report the outcome of this command? -/
def Note.settles (n : Nat) : Note → Bool
  | .replied number _ _ => number = n
  | .expired number => number = n
  | _ => false

def outcomes (n : Nat) (log : List Note) : List Note := log.filter (Note.settles n)

/-- The command was sent, and the link is still the one it was sent over. -/
def Sent (log : List Note) (n link id : Nat) (request : Request) (answerable : Bool)
    (time : Rat) : Prop :=
  ∃ before since, log = before ++ .sent n link id request answerable time :: since ∧
    .disconnected ∉ since

def Note.isHandled : Note → Bool
  | .handled _ _ => true
  | _ => false

/-- A reply that is passed to a command is the one that was looked up last. It has the
command's id, came over its link when that was still open, and finds it unanswered. -/
def Own (past : List Note) (n link : Nat) (echo : Echo) : Prop :=
  outcomes n past = [] ∧ ∃ before since, past = before ++ .handled link echo :: since ∧
    (∀ note ∈ since, note.isHandled = false) ∧
    ∃ request time, Sent before n link echo.answer.id request true time

/-- Notes the table does not depend on. -/
def Note.isAside : Note → Bool
  | .unlinked => true
  | .handled _ _ => true
  | .silent => true
  | _ => false

/-- What holds of the table of pending commands and everything noted so far, while the
closure of one command is about to be called. -/
structure Ledger (hand : Option Nat) (w : World) (log : List Note) : Prop where
  awake : w.closed = false
  numbered : Numbered w
  idle : w.link = none → w.pending = []
  entries : ∀ m ∈ w.pending, outcomes m.2.number log = [] ∧
    ∃ link request, w.link.map Link.id = some link ∧ request.kind = m.2.kind ∧
      Sent log m.2.number link m.1 request m.2.callback.isSome m.2.sent
  known : ∀ n, w.sends < n → outcomes n log = []
  current : ∀ n link id request answerable time, Sent log n link id request answerable time →
    w.link.map Link.id = some link ∧ 0 < n ∧ n ≤ w.sends
  once : ∀ n, (outcomes n log).length ≤ 1
  own : ∀ past n link echo, past ++ [.replied n link echo] <+: log → Own past n link echo
  unsettled : ∀ n link id request time, Sent log n link id request true time →
    outcomes n log ≠ [] ∨ n + lastId ≤ w.sends ∨ hand = some n ∨
      ∃ m ∈ w.pending, m.2.number = n ∧ m.2.callback.isSome = true ∧ m.2.sent = time ∧
        m.2.kind = request.kind
  inHand : ∀ n, hand = some n → outcomes n log = [] ∧ n ≤ w.sends ∧
    ∀ m ∈ w.pending, m.2.number ≠ n

variable {hand : Option Nat} {w w' : World} {log : List Note}

theorem outcomes_append (n : Nat) (left right : List Note) :
    outcomes n (left ++ right) = outcomes n left ++ outcomes n right := List.filter_append ..

theorem outcomes_other {n : Nat} {note : Note} (h : note.settles n = false) :
    outcomes n (log ++ [note]) = outcomes n log := by
  have hnone : outcomes n [note] = [] := List.filter_cons_of_neg (by rw [h]; decide)
  rw [outcomes_append, hnone, List.append_nil]

/-- A note changes nothing about a command on the link but its own sending and the end of
the link. -/
theorem sent_append {n link id : Nat} {request : Request} {answerable : Bool} {time : Rat}
    {note : Note} (hdisc : note ≠ .disconnected) :
    Sent (log ++ [note]) n link id request answerable time ↔
      note = .sent n link id request answerable time ∨
        Sent log n link id request answerable time := by
  constructor
  · rintro ⟨before, since, hlog, hsince⟩
    rcases List.eq_nil_or_concat since with rfl | ⟨since, last, rfl⟩
    · exact .inl (List.append_inj_right' hlog rfl |> List.singleton_inj.mp)
    · rw [List.concat_eq_append, ← List.cons_append, ← List.append_assoc] at hlog
      have hsame := List.append_inj' hlog rfl
      refine .inr ⟨before, since, hsame.1, ?_⟩
      intro hmem
      apply hsince
      rw [List.concat_eq_append]
      exact List.mem_append_left _ hmem
  · rintro (rfl | ⟨before, since, rfl, hsince⟩)
    · exact ⟨log, [], rfl, List.not_mem_nil⟩
    · refine ⟨before, since ++ [note], by simp, ?_⟩
      intro hmem
      rcases List.mem_append.mp hmem with hmem | hmem
      · exact hsince hmem
      · exact hdisc (List.mem_singleton.mp hmem).symm

/-- No command is on the link right after its end. -/
theorem not_sent_disconnected {n link id : Nat} {request : Request} {answerable : Bool}
    {time : Rat} : ¬ Sent (log ++ [.disconnected]) n link id request answerable time := by
  rintro ⟨before, since, hlog, hsince⟩
  rcases List.eq_nil_or_concat since with rfl | ⟨since, last, rfl⟩
  · exact nomatch List.singleton_inj.mp (List.append_inj_right' hlog rfl)
  · rw [List.concat_eq_append, ← List.cons_append, ← List.append_assoc] at hlog
    have hlast := List.singleton_inj.mp (List.append_inj' hlog rfl).2
    apply hsince
    rw [List.concat_eq_append, ← hlast]
    exact List.mem_append_right _ (List.mem_singleton_self _)

namespace Ledger

/-- What is said of replies survives a note that is none. -/
theorem own_append (h : Ledger hand w log) {note : Note}
    (hreply : ∀ n link echo, note = .replied n link echo → Own log n link echo)
    (past : List Note) (n link : Nat) (echo : Echo)
    (hpast : past ++ [.replied n link echo] <+: log ++ [note]) : Own past n link echo := by
  rcases List.prefix_concat_iff.mp hpast with hlast | hearlier
  · have hsame := List.append_inj' hlast rfl
    rw [hsame.1]
    exact hreply n link echo (List.singleton_inj.mp hsame.2).symm
  · exact h.own past n link echo hearlier

/-- Operations elsewhere. -/
theorem table (h : Ledger hand w log) (hlink : w'.link.map Link.id = w.link.map Link.id)
    (hpending : w'.pending = w.pending) (hseq : w'.seq = w.seq) (hsends : w'.sends = w.sends)
    (hclosed : w'.closed = w.closed) : Ledger hand w' log where
  awake := hclosed.trans h.awake
  numbered := ⟨by rw [hseq, hsends]; exact h.numbered.seq, by rw [hpending]; exact h.numbered.keys,
    by rw [hpending, hsends]; exact h.numbered.pending⟩
  idle := by
    intro hnone
    rw [hnone] at hlink
    rw [hpending]
    exact h.idle (Option.map_eq_none_iff.mp hlink.symm)
  entries := by rw [hpending, hlink]; exact h.entries
  known := by rw [hsends]; exact h.known
  current := by rw [hlink, hsends]; exact h.current
  once := h.once
  own := h.own
  unsettled := by rw [hpending, hsends]; exact h.unsettled
  inHand := by rw [hpending, hsends]; exact h.inHand

theorem aside (h : Ledger hand w log) {note : Note} (hnote : note.isAside = true) :
    Ledger hand w (log ++ [note]) := by
  have hnone (n : Nat) : note.settles n = false := by
    cases note <;> first | rfl | cases hnote
  have hdisc : note ≠ .disconnected := by
    rintro rfl
    cases hnote
  have hsent {n link id : Nat} {request : Request} {answerable : Bool} {time : Rat} :
      Sent (log ++ [note]) n link id request answerable time ↔
        Sent log n link id request answerable time := by
    rw [sent_append hdisc, or_iff_right]
    rintro rfl
    cases hnote
  refine ⟨h.awake, h.numbered, h.idle, ?_, ?_, ?_, ?_, ?_, ?_, ?_⟩
  · intro m hm
    rw [outcomes_other (hnone _)]
    rcases h.entries m hm with ⟨hout, link, request, hlink, hkind, hm⟩
    exact ⟨hout, link, request, hlink, hkind, hsent.mpr hm⟩
  · intro n hn
    rw [outcomes_other (hnone _)]
    exact h.known n hn
  · intro n link id request answerable time hs
    exact h.current n link id request answerable time (hsent.mp hs)
  · intro n
    rw [outcomes_other (hnone _)]
    exact h.once n
  · apply h.own_append
    rintro n link echo rfl
    cases hnote
  · intro n link id request time hs
    rw [outcomes_other (hnone _)]
    exact h.unsettled n link id request time (hsent.mp hs)
  · intro n hn
    rw [outcomes_other (hnone _)]
    exact h.inHand n hn

/-- Once the link is closed nothing is pending and no command is on it, even if another one
is opened. -/
theorem reset (h : Ledger hand w log) (hpending : w'.pending = []) (hseq : w'.seq = w.seq)
    (hsends : w'.sends = w.sends) (hclosed : w'.closed = w.closed) :
    Ledger hand w' (log ++ [.disconnected]) := by
  have hnone (n : Nat) : Note.settles n .disconnected = false := rfl
  have hempty {m : Nat × Pending} (hm : m ∈ w'.pending) : False := by
    rw [hpending] at hm
    cases hm
  refine ⟨hclosed.trans h.awake, ⟨?_, ?_, fun m hm => (hempty hm).elim⟩, fun _ => hpending,
    fun m hm => (hempty hm).elim, ?_, ?_, ?_, ?_, ?_, ?_⟩
  · rw [hseq, hsends]
    exact h.numbered.seq
  · rw [hpending]
    exact List.nodup_nil
  · intro n hn
    rw [hsends] at hn
    rw [outcomes_other (hnone n)]
    exact h.known n hn
  · exact fun _ _ _ _ _ _ hs => absurd hs not_sent_disconnected
  · intro n
    rw [outcomes_other (hnone n)]
    exact h.once n
  · apply h.own_append
    nofun
  · exact fun _ _ _ _ _ hs => absurd hs not_sent_disconnected
  · intro n hn
    rw [outcomes_other (hnone n), hsends]
    rcases h.inHand n hn with ⟨hout, hle, -⟩
    exact ⟨hout, hle, fun m hm => (hempty hm).elim⟩

theorem disconnect (h : Ledger hand w log) : Ledger hand w.disconnect (log ++ [.disconnected]) :=
  h.reset rfl rfl rfl rfl

/-- A new command is pending under its id, over whatever had this id before. -/
theorem queued (h : Ledger hand w log) {link : Link} (hlink : w.link = some link)
    (request : Request) (callback : Option Callback) :
    Ledger hand (w.queued link request callback) (log ++
      [.sent (w.sends + 1) link.id (w.seq % lastId + 1) request callback.isSome w.now]) := by
  have hid : w.link.map Link.id = some link.id := by rw [hlink]; rfl
  have hseq : w.seq % lastId + 1 = idOf (w.sends + 1) := by rw [h.numbered.seq, idOf_succ]
  have hnone {n : Nat} : Note.settles n (.sent (w.sends + 1) link.id (w.seq % lastId + 1) request
      callback.isSome w.now) = false := rfl
  have hdisc : Note.sent (w.sends + 1) link.id (w.seq % lastId + 1) request callback.isSome w.now ≠
      .disconnected := nofun
  have hmem := mem_queued_pending h.numbered.keys link request callback
  refine ⟨h.awake, h.numbered.queued link request callback, nofun, ?_, ?_, ?_, ?_, ?_, ?_, ?_⟩
  · intro m hm
    rw [outcomes_other hnone]
    rcases (hmem m).mp hm with rfl | ⟨hm, -⟩
    · exact ⟨h.known _ (Nat.lt_succ_self _), link.id, request, rfl, rfl,
        (sent_append hdisc).mpr (.inl rfl)⟩
    · rcases h.entries m hm with ⟨hout, l, request, hl, hkind, hm⟩
      exact ⟨hout, l, request, hid.symm.trans hl, hkind, (sent_append hdisc).mpr (.inr hm)⟩
  · intro n hn
    rw [outcomes_other hnone]
    exact h.known n (Nat.lt_of_succ_lt hn)
  · intro n l id request answerable time hs
    rcases (sent_append hdisc).mp hs with hsame | hs
    · cases hsame
      exact ⟨rfl, Nat.succ_pos _, Nat.le_refl _⟩
    · rcases h.current n l id request answerable time hs with ⟨hl, hpos, hle⟩
      exact ⟨hid.symm.trans hl, hpos, Nat.le_succ_of_le hle⟩
  · intro n
    rw [outcomes_other hnone]
    exact h.once n
  · apply h.own_append
    nofun
  · intro n l id r time hs
    rw [outcomes_other hnone]
    rcases (sent_append hdisc).mp hs with hsame | hs
    · simp only [Note.sent.injEq] at hsame
      rcases hsame with ⟨rfl, -, -, rfl, hcallback, rfl⟩
      refine .inr (.inr (.inr ⟨(w.seq % lastId + 1, w.entry request callback), ?_, ?_⟩))
      · exact (hmem _).mpr (.inl rfl)
      · exact ⟨rfl, hcallback, rfl, rfl⟩
    · rcases h.unsettled n l id r time hs with hout | hlate | hheld | ⟨m, hm, hnumber, hrest⟩
      · exact .inl hout
      · exact .inr (.inl (Nat.le_succ_of_le hlate))
      · exact .inr (.inr (.inl hheld))
      · by_cases hkey : m.1 = w.seq % lastId + 1
        · -- the new command has its id, so a whole period lies between them
          right
          left
          rcases h.numbered.pending m hm with ⟨hm1, hpos, hle, hlt⟩
          show n + lastId ≤ w.sends + 1
          by_contra hc
          have hsame := idOf_unique hpos (hm1.symm.trans (hkey.trans hseq)) (Nat.le_succ_of_le hle)
            (by omega) (Nat.le_refl _) (Nat.lt_add_of_pos_right lastId_pos)
          omega
        · exact .inr (.inr (.inr ⟨m, (hmem m).mpr (.inr ⟨hm, hkey⟩), hnumber, hrest⟩))
  · intro n hn
    rw [outcomes_other hnone]
    rcases h.inHand n hn with ⟨hout, hle, hother⟩
    refine ⟨hout, Nat.le_succ_of_le hle, ?_⟩
    intro m hm
    rcases (hmem m).mp hm with rfl | ⟨hm, -⟩
    · exact Nat.ne_of_gt (Nat.lt_succ_of_le hle)
    · exact hother m hm

/-! ## Taking a command out of the table -/

theorem mem_popPending {k : Nat} {pending : List (Nat × Pending)} {m : Nat × Pending} :
    m ∈ World.popPending k pending ↔ m ∈ pending ∧ m.1 ≠ k := by
  unfold World.popPending
  rw [List.mem_filter, decide_eq_true_eq]

theorem numbered_pop (h : Numbered w) (k : Nat) :
    Numbered { w with pending := World.popPending k w.pending } where
  seq := h.seq
  keys := h.keys.sublist (List.filter_sublist.map Prod.fst)
  pending := fun m hm => h.pending m (mem_popPending.mp hm).1

/-- An entry without a closure may go without an outcome. -/
theorem pop (h : Ledger hand w log) {k : Nat}
    (hk : ∀ m ∈ w.pending, m.1 = k → m.2.callback = none) :
    Ledger hand { w with pending := World.popPending k w.pending } log where
  awake := h.awake
  numbered := numbered_pop h.numbered k
  idle := by
    intro hnone
    show World.popPending k w.pending = []
    rw [h.idle hnone]
    rfl
  entries := fun m hm => h.entries m (mem_popPending.mp hm).1
  known := h.known
  current := h.current
  once := h.once
  own := h.own
  unsettled := by
    intro n link id request time hs
    rcases h.unsettled n link id request time hs with hout | hlate | hheld | ⟨m, hm, hnumber, hrest⟩
    · exact .inl hout
    · exact .inr (.inl hlate)
    · exact .inr (.inr (.inl hheld))
    · refine .inr (.inr (.inr ⟨m, mem_popPending.mpr ⟨hm, ?_⟩, hnumber, hrest⟩))
      intro hkey
      have hnone := hk m hm hkey
      rw [hnone] at hrest
      exact Bool.false_ne_true hrest.1
  inHand := by
    intro n hn
    rcases h.inHand n hn with ⟨hout, hle, hother⟩
    exact ⟨hout, hle, fun m hm => hother m (mem_popPending.mp hm).1⟩

/-- A command is taken out of the table before its closure is called. -/
theorem take (h : Ledger none w log) {k n : Nat} (hout : outcomes n log = []) (hle : n ≤ w.sends)
    (hid : k = idOf n)
    (hk : ∀ m ∈ w.pending, m.1 = k → m.2.number = n ∨ m.2.callback = none) :
    Ledger (some n) { w with pending := World.popPending k w.pending } log where
  awake := h.awake
  numbered := numbered_pop h.numbered k
  idle := by
    intro hnone
    show World.popPending k w.pending = []
    rw [h.idle hnone]
    rfl
  entries := fun m hm => h.entries m (mem_popPending.mp hm).1
  known := h.known
  current := h.current
  once := h.once
  own := h.own
  unsettled := by
    intro i link id request time hs
    rcases h.unsettled i link id request time hs with
      hdone | hlate | hheld | ⟨m, hm, hnumber, hrest⟩
    · exact .inl hdone
    · exact .inr (.inl hlate)
    · cases hheld
    · by_cases hkey : m.1 = k
      · rcases hk m hm hkey with hsame | hnone
        · rw [← hnumber, hsame]
          exact .inr (.inr (.inl rfl))
        · rw [hnone] at hrest
          exact absurd hrest.1 Bool.false_ne_true
      · exact .inr (.inr (.inr ⟨m, mem_popPending.mpr ⟨hm, hkey⟩, hnumber, hrest⟩))
  inHand := by
    intro i hi
    cases hi
    refine ⟨hout, hle, ?_⟩
    intro m hm hsame
    rcases mem_popPending.mp hm with ⟨hm, hkey⟩
    apply hkey
    rw [(h.numbered.pending m hm).1, hsame, hid]

/-- The closure of the command in hand is called. -/
theorem settle {n : Nat} (h : Ledger (some n) w log) {note : Note}
    (hnote : note = .expired n ∨ ∃ link echo, note = .replied n link echo ∧ Own log n link echo) :
    Ledger none w (log ++ [note]) := by
  rcases h.inHand n rfl with ⟨hout, hle, hother⟩
  have hsettles (i : Nat) : note.settles i = decide (n = i) := by
    rcases hnote with rfl | ⟨link, echo, rfl, -⟩ <;> rfl
  have hthis : outcomes n (log ++ [note]) = [note] := by
    rw [outcomes_append, hout]
    exact List.filter_cons_of_pos (by rw [hsettles]; simp)
  have hrest {i : Nat} (hi : n ≠ i) : outcomes i (log ++ [note]) = outcomes i log :=
    outcomes_other (by rw [hsettles]; simpa using hi)
  have hdisc : note ≠ .disconnected := by
    rcases hnote with rfl | ⟨link, echo, rfl, -⟩ <;> nofun
  have hsent {i link id : Nat} {request : Request} {answerable : Bool} {time : Rat} :
      Sent (log ++ [note]) i link id request answerable time ↔
        Sent log i link id request answerable time := by
    rw [sent_append hdisc, or_iff_right]
    rcases hnote with rfl | ⟨link, echo, rfl, -⟩ <;> nofun
  refine ⟨h.awake, h.numbered, h.idle, ?_, ?_, ?_, ?_, ?_, ?_, nofun⟩
  · intro m hm
    rw [hrest (hother m hm).symm]
    rcases h.entries m hm with ⟨hnone, link, request, hlink, hkind, hm⟩
    exact ⟨hnone, link, request, hlink, hkind, hsent.mpr hm⟩
  · intro i hi
    rw [hrest (Nat.ne_of_lt (Nat.lt_of_le_of_lt hle hi))]
    exact h.known i hi
  · intro i link id request answerable time hs
    exact h.current i link id request answerable time (hsent.mp hs)
  · intro i
    by_cases hi : n = i
    · rw [← hi, hthis]
      exact Nat.le_refl 1
    · rw [hrest hi]
      exact h.once i
  · apply h.own_append
    intro i link echo hsame
    rcases hnote with hexpired | ⟨l, e, hreplied, hown⟩
    · rw [hexpired] at hsame
      cases hsame
    · rw [hreplied] at hsame
      cases hsame
      exact hown
  · intro i link id request time hs
    by_cases hi : n = i
    · left
      rw [← hi, hthis]
      exact List.cons_ne_nil _ _
    · rw [hrest hi]
      rcases h.unsettled i link id request time (hsent.mp hs) with hdone | hlate | hheld | hopen
      · exact .inl hdone
      · exact .inr (.inl hlate)
      · exact absurd (Option.some.inj hheld) hi
      · exact .inr (.inr (.inr hopen))

end Ledger

/-! ## Operations -/

theorem sendNotes_plain (request : Request) (callback : Option Callback) (w : World) :
    ∀ note ∈ w.sendNotes request callback,
      note.isHandled = false ∧ ∀ n, note.settles n = false := by
  unfold World.sendNotes
  intro note hnote
  split at hnote
  · split at hnote
    · rw [List.mem_singleton.mp hnote]
      exact ⟨rfl, fun _ => rfl⟩
    · cases hnote
  · split at hnote
    · rw [List.mem_singleton.mp hnote]
      exact ⟨rfl, fun _ => rfl⟩
    · rw [List.mem_singleton.mp hnote]
      exact ⟨rfl, fun _ => rfl⟩

theorem releaseNotes_plain (w : World) :
    ∀ note ∈ w.releaseNotes, note.isHandled = false ∧ ∀ n, note.settles n = false := by
  unfold World.releaseNotes
  split
  · exact sendNotes_plain .release none _
  · nofun

theorem relievedNotes_plain (echo : Echo) (w : World) :
    ∀ note ∈ World.relievedNotes echo w,
      note.isHandled = false ∧ ∀ n, note.settles n = false := by
  unfold World.relievedNotes
  split
  · exact releaseNotes_plain w
  · nofun

/-- What is pending after a send was pending before or is the new command. -/
theorem send_pending (request : Request) (callback : Option Callback) (w : World)
    (hkeys : (w.pending.map Prod.fst).Nodup) {m : Nat × Pending}
    (hm : m ∈ (w.send request callback).pending) :
    m ∈ w.pending ∨
      m.2.callback = callback ∧ m.2.sent = w.now ∧ m.2.kind = request.kind := by
  unfold World.send at hm
  split at hm
  · split at hm
    · exact .inl hm
    · exact .inl hm
  · dsimp only at hm
    split at hm
    · rcases (mem_queued_pending hkeys _ request callback m).mp hm with rfl | ⟨hm, -⟩
      · exact .inr ⟨rfl, rfl, rfl⟩
      · exact .inl hm
    · cases hm

namespace Ledger

/-- A command that was not taken by the link uses a number too. -/
theorem skip (h : Ledger hand w log) (hpending : w.pending = []) :
    Ledger hand { w with seq := w.seq % lastId + 1, sends := w.sends + 1 } log where
  awake := h.awake
  numbered := by
    refine ⟨?_, h.numbered.keys, ?_⟩
    · show w.seq % lastId + 1 = idOf (w.sends + 1)
      rw [h.numbered.seq, idOf_succ]
    · intro m hm
      rw [show World.pending _ = [] from hpending] at hm
      cases hm
  idle := h.idle
  entries := h.entries
  known := fun n hn => h.known n (Nat.lt_of_succ_lt hn)
  current := by
    intro n link id request answerable time hs
    rcases h.current n link id request answerable time hs with ⟨hlink, hpos, hle⟩
    exact ⟨hlink, hpos, Nat.le_succ_of_le hle⟩
  once := h.once
  own := h.own
  unsettled := by
    intro n link id request time hs
    rcases h.unsettled n link id request time hs with hout | hlate | hheld
    · exact .inl hout
    · exact .inr (.inl (Nat.le_succ_of_le hlate))
    · exact .inr (.inr hheld)
  inHand := by
    intro n hn
    rcases h.inHand n hn with ⟨hout, hle, hother⟩
    exact ⟨hout, Nat.le_succ_of_le hle, hother⟩

theorem call (h : Ledger hand w log) (callback : Callback) (reply : Reply) :
    Ledger hand (w.call callback reply) log := h.table rfl rfl rfl rfl rfl

theorem send (h : Ledger hand w log) (request : Request) (callback : Option Callback) :
    Ledger hand (w.send request callback) (log ++ w.sendNotes request callback) := by
  unfold World.send World.sendNotes
  cases hlink : w.link with
  | none =>
      cases callback with
      | none =>
          have hnotes : (if (none : Option Callback).isSome = true then [Note.unlinked] else []) =
              [] := rfl
          rw [hnotes, List.append_nil]
          exact h
      | some callback => exact (h.call callback World.unlinkedReply).aside rfl
  | some link =>
      dsimp only
      split
      · exact h.queued hlink request callback
      · exact (h.disconnect.skip rfl).table rfl rfl rfl rfl rfl

theorem release (h : Ledger hand w log) : Ledger hand w.releaseAll (log ++ w.releaseNotes) := by
  unfold World.releaseAll World.releaseNotes
  have hcentered : Ledger hand { w with pressed := [], axes := centered } log :=
    h.table rfl rfl rfl rfl rfl
  dsimp only
  split
  · exact hcentered.send .release none
  · rw [List.append_nil]
    exact hcentered

theorem relieved (h : Ledger hand w log) (echo : Echo) :
    Ledger hand (w.relieved echo) (log ++ World.relievedNotes echo w) := by
  unfold World.relieved World.relievedNotes
  split
  · exact h.release
  · rw [List.append_nil]
    exact h

theorem passed (h : Ledger hand w log) (entry : Pending) (echo : Echo) (sends : Nat) :
    Ledger hand (w.passed entry echo sends) log := by
  unfold World.passed
  dsimp only
  split
  · exact h.table rfl rfl rfl rfl rfl
  · exact h.table rfl rfl rfl rfl rfl

/-- A reply that is looked up settles the command it finds. -/
theorem reply (h : Ledger none w log) {link : Nat} (hlink : w.link.map Link.id = some link)
    (echo : Echo) :
    Ledger none (w.handleReply echo) (log ++ .handled link echo :: w.replyNotes link echo) := by
  have hlooked : Ledger none w (log ++ [.handled link echo]) := h.aside rfl
  rw [← List.singleton_append, ← List.append_assoc]
  cases hfind : w.pending.find? (·.1 = echo.answer.id) with
  | none =>
      have hreply := World.handleReply_unknown hfind link
      rw [hreply.1, hreply.2, List.append_nil]
      exact hlooked
  | some found =>
      rcases found with ⟨k, entry⟩
      have hreply := World.handleReply_known hfind link
      rw [hreply.1, hreply.2, ← List.append_assoc]
      have hmem : (k, entry) ∈ w.pending := List.mem_of_find?_eq_some hfind
      have hkey : k = echo.answer.id := by simpa using List.find?_some hfind
      subst hkey
      rcases h.entries _ hmem with ⟨-, l, request, hl, -, hsent⟩
      have hsame : l = link := Option.some.inj (hl.symm.trans hlink)
      subst hsame
      rcases hlooked.entries _ hmem with ⟨hout, -⟩
      rcases h.numbered.pending _ hmem with ⟨hid, -, hle, -⟩
      -- entries with one key are one entry
      have honly : ∀ m ∈ w.pending, m.1 = echo.answer.id → m = (echo.answer.id, entry) := by
        intro m hm hm1
        exact List.inj_on_of_nodup_map h.numbered.keys hm hmem hm1
      unfold World.answerNotes
      cases hcallback : entry.callback with
      | none =>
          have hpopped := hlooked.pop (k := echo.answer.id) (by
            intro m hm hm1
            rw [honly m hm hm1]
            exact hcallback)
          have hmatched : Ledger none (w.matched echo) (log ++ [.handled l echo]) :=
            hpopped.table rfl rfl rfl rfl rfl
          rw [if_neg (by simp), List.append_nil]
          exact (hmatched.relieved echo).passed entry echo w.sends
      | some callback =>
          have htaken := hlooked.take (k := echo.answer.id) hout hle hid (by
            intro m hm hm1
            rw [honly m hm hm1]
            exact .inl rfl)
          have hmatched : Ledger (some entry.number) (w.matched echo) (log ++ [.handled l echo]) :=
            htaken.table rfl rfl rfl rfl rfl
          have hrelieved := hmatched.relieved echo
          rw [hcallback] at hsent
          have hown : Own (log ++ [.handled l echo] ++ World.relievedNotes echo (w.matched echo))
              entry.number l echo := by
            refine ⟨(hrelieved.inHand _ rfl).1, log, _, List.append_assoc .., ?_, request,
              entry.sent, hsent⟩
            exact fun note hnote => (relievedNotes_plain echo _ note hnote).1
          rw [if_pos (show (some callback).isSome = true from rfl)]
          exact (hrelieved.settle (.inr ⟨l, echo, rfl, hown⟩)).passed entry echo w.sends

theorem event (h : Ledger none w log) (item : Nat × Item) :
    Ledger none (World.handleEvent item w) (log ++ World.eventNotes item w) := by
  rcases item with ⟨link, item⟩
  unfold World.handleEvent World.eventNotes
  split
  case isTrue hcurrent =>
      cases item with
      | line echo => exact h.reply hcurrent echo
      | exception => exact h.disconnect
  case isFalse =>
      rw [List.append_nil]
      exact h

theorem drain (n : Nat) (h : Ledger none w log) :
    Ledger none (World.drain n w) (log ++ World.drainNotes n w) := by
  induction n generalizing w log with
  | zero =>
      unfold World.drainNotes
      rw [List.append_nil]
      exact h
  | succ n ih =>
      unfold World.drain World.drainNotes
      cases hevents : w.events with
      | nil =>
          dsimp only
          rw [List.append_nil]
          exact h
      | cons item rest =>
          have htaken : Ledger none { w with events := rest } log := h.table rfl rfl rfl rfl rfl
          dsimp only
          rw [← List.append_assoc]
          exact ih (htaken.event item)

end Ledger

/-! ## Expiry -/

/-- An entry of the snapshot the timer works through: it has no outcome yet, and what is
pending under its id by now has no closure, unless it is this entry. -/
structure Due (w : World) (log : List Note) (m : Nat × Pending) : Prop where
  id : m.1 = idOf m.2.number
  number : m.2.number ≤ w.sends
  outcome : outcomes m.2.number log = []
  only : ∀ m' ∈ w.pending, m'.1 = m.1 → m' = m ∨ m'.2.callback = none

theorem Ledger.due (h : Ledger none w log) {m : Nat × Pending} (hm : m ∈ w.pending) :
    Due w log m where
  id := (h.numbered.pending m hm).1
  number := (h.numbered.pending m hm).2.2.1
  outcome := (h.entries m hm).1
  only := by
    intro m' hm' hkey
    exact .inl (List.inj_on_of_nodup_map h.numbered.keys hm' hm hkey)

theorem send_sends (request : Request) (callback : Option Callback) (w : World) :
    w.sends ≤ (w.send request callback).sends := by
  unfold World.send
  split
  · split
    · exact Nat.le_refl _
    · exact Nat.le_refl _
  · dsimp only
    split
    · exact Nat.le_succ _
    · exact Nat.le_succ _

/-- What is left in the table after an entry was looked at, and under which number. -/
theorem timeout_pending (hkeys : (w.pending.map Prod.fst).Nodup) (m : Nat × Pending) :
    w.sends ≤ (World.timeout m w).sends ∧
      ∀ m' ∈ (World.timeout m w).pending,
        (m' ∈ w.pending ∧ (m'.1 = m.1 → w.now - m.2.sent ≤ m.2.kind.limit)) ∨
          (m'.2.callback = none ∧ m'.2.sent = w.now) := by
  have hpopkeys : ((World.popPending m.1 w.pending).map Prod.fst).Nodup :=
    hkeys.sublist (List.filter_sublist.map Prod.fst)
  have hpopped : ∀ m' ∈ World.popPending m.1 w.pending,
      m' ∈ w.pending ∧ (m'.1 = m.1 → w.now - m.2.sent ≤ m.2.kind.limit) := by
    intro m' hm'
    rcases Ledger.mem_popPending.mp hm' with ⟨hm', hkey⟩
    exact ⟨hm', fun hsame => absurd hsame hkey⟩
  unfold World.timeout
  split
  case isTrue hfresh => exact ⟨Nat.le_refl _, fun m' hm' => .inl ⟨hm', fun _ => hfresh⟩⟩
  case isFalse =>
      dsimp only
      split
      · split
        · refine ⟨Nat.le_trans ?_ (send_sends .status none _), ?_⟩
          · exact Nat.le_refl _
          intro m' hm'
          rcases send_pending .status none _ hpopkeys hm' with hm' | ⟨hcallback, hsent, -⟩
          · exact .inl (hpopped m' hm')
          · exact .inr ⟨hcallback, hsent⟩
        · exact ⟨Nat.le_refl _, fun m' hm' => .inl (hpopped m' hm')⟩
      · split
        · exact ⟨Nat.le_refl _, fun m' hm' => .inl (hpopped m' hm')⟩
        · exact ⟨Nat.le_refl _, fun m' hm' => .inl (hpopped m' hm')⟩

theorem timeoutNotes_settles {n : Nat} {m : Nat × Pending} (h : m.2.number ≠ n) :
    ∀ note ∈ World.timeoutNotes m w, note.settles n = false := by
  intro note hnote
  unfold World.timeoutNotes at hnote
  split at hnote
  · cases hnote
  · split at hnote
    · rcases List.mem_cons.mp hnote with rfl | hnote
      · exact decide_eq_false h
      · split at hnote
        · exact (sendNotes_plain .status none _ note hnote).2 n
        · cases hnote
    · cases hnote

theorem outcomes_none {n : Nat} {notes : List Note} (h : ∀ note ∈ notes, note.settles n = false) :
    outcomes n (log ++ notes) = outcomes n log := by
  have hnone : outcomes n notes = [] := List.filter_eq_nil_iff.mpr fun note hnote => by
    rw [h note hnote]
    decide
  rw [outcomes_append, hnone, List.append_nil]

/-- The entries still to be looked at stay due. -/
theorem Due.timeout {m m' : Nat × Pending} (hkeys : (w.pending.map Prod.fst).Nodup)
    (h : Due w log m') (hne : m.2.number ≠ m'.2.number) :
    Due (World.timeout m w) (log ++ World.timeoutNotes m w) m' where
  id := h.id
  number := Nat.le_trans h.number (timeout_pending hkeys m).1
  outcome := (outcomes_none (timeoutNotes_settles hne)).trans h.outcome
  only := by
    intro e he hkey
    rcases (timeout_pending hkeys m).2 e he with ⟨he, -⟩ | ⟨hcallback, -⟩
    · exact h.only e he hkey
    · exact .inr hcallback

namespace Ledger

/-- One pass of the loop over the snapshot. -/
theorem timeout (h : Ledger none w log) {m : Nat × Pending} (hdue : Due w log m) :
    Ledger none (World.timeout m w) (log ++ World.timeoutNotes m w) := by
  unfold World.timeout World.timeoutNotes
  split
  case isTrue =>
      rw [List.append_nil]
      exact h
  case isFalse =>
      dsimp only
      cases hcallback : m.2.callback with
      | none =>
          have hpopped := h.pop (k := m.1) (by
            intro m' hm' hkey
            rcases hdue.only m' hm' hkey with rfl | hnone
            · exact hcallback
            · exact hnone)
          rw [List.append_nil]
          dsimp only
          split
          · exact hpopped.table rfl rfl rfl rfl rfl
          · exact hpopped
      | some callback =>
          have htaken := h.take (k := m.1) hdue.outcome hdue.number hdue.id (by
            intro m' hm' hkey
            rcases hdue.only m' hm' hkey with rfl | hnone
            · exact .inl rfl
            · exact .inr hnone)
          have hcalled := htaken.call callback (World.noConfirmation m.2.kind m.1)
          have hsettled := hcalled.settle (.inl rfl)
          dsimp only
          rw [← List.singleton_append, ← List.append_assoc]
          split
          · exact hsettled.send .status none
          · rw [List.append_nil]
            exact hsettled

/-- The loop over the snapshot: each of its entries is looked at once. -/
theorem expiry (ms : List (Nat × Pending)) (h : Ledger none w log)
    (hdue : ∀ m ∈ ms, Due w log m) (hnodup : (ms.map (·.2.number)).Nodup) :
    Ledger none (ms.foldl (fun w m => World.timeout m w) w) (log ++ World.expiryNotes ms w) := by
  induction ms generalizing w log with
  | nil =>
      unfold World.expiryNotes
      rw [List.append_nil]
      exact h
  | cons m ms ih =>
      rw [List.map_cons, List.nodup_cons] at hnodup
      unfold World.expiryNotes
      rw [← List.append_assoc]
      apply ih (h.timeout (hdue m List.mem_cons_self)) _ hnodup.2
      intro m' hm'
      apply (hdue m' (List.mem_cons_of_mem _ hm')).timeout h.numbered.keys
      intro hsame
      exact hnodup.1 (List.mem_map.mpr ⟨m', hm', hsame.symm⟩)

theorem numbers_nodup (h : Numbered w) : (w.pending.map (·.2.number)).Nodup := by
  have hkeys : w.pending.map Prod.fst = (w.pending.map (·.2.number)).map idOf := by
    rw [List.map_map]
    exact List.map_congr_left fun m hm => (h.pending m hm).1
  have hnodup := h.keys
  rw [hkeys] at hnodup
  exact hnodup.of_map _

theorem expire (h : Ledger none w log) :
    Ledger none w.expire (log ++ World.expiryNotes w.pending w) :=
  h.expiry w.pending (fun _ hm => h.due hm) (numbers_nodup h.numbered)

theorem giveUp (h : Ledger none w log) :
    Ledger none w.giveUp (log ++ if w.isSilent then [.silent, .disconnected] else []) := by
  have hsilent : w.isSilent = true ↔ w.link.isSome = true ∧ w.now - w.lastReply > 3 := by
    unfold World.isSilent
    rw [Bool.and_eq_true, decide_eq_true_eq]
  unfold World.giveUp
  split
  case isTrue hlong =>
      rw [if_pos (hsilent.mpr hlong)]
      have hnoted : Ledger none w (log ++ [.silent]) := h.aside rfl
      have hclosed := hnoted.disconnect
      rw [List.append_assoc] at hclosed
      exact hclosed
  case isFalse hshort =>
      rw [if_neg fun hlong => hshort (hsilent.mp hlong), List.append_nil]
      exact h

theorem heartbeat (h : Ledger none w log) :
    Ledger none w.heartbeat (log ++ w.heartbeatNotes) := by
  unfold World.heartbeat World.heartbeatNotes
  split
  · split
    · exact h.send _ none
    · split
      · exact (h.send .status none).table rfl rfl rfl rfl rfl
      · rw [List.append_nil]
        exact h
  · rw [List.append_nil]
    exact h

theorem tick (h : Ledger none w log) : Ledger none w.tick (log ++ w.tickNotes) := by
  have hticked := ((h.drain 150).expire.giveUp).heartbeat
  rw [World.tick_eq h.awake]
  unfold World.tickNotes
  rw [h.awake]
  simp only [List.append_assoc] at hticked
  simpa only [Bool.false_eq_true, if_false, List.append_assoc] using hticked

/-- Every act of the window keeps the ledger. -/
theorem next (h : Ledger none w log) (e : Act) : Ledger none (e.next w) (log ++ e.notes w) := by
  cases e with
  | connect opens =>
      show Ledger none (w.connect opens) (log ++ w.connectNotes opens)
      unfold World.connect World.connectNotes
      dsimp only
      split
      · rw [← List.singleton_append, ← List.append_assoc]
        have hopened : Ledger none { w.disconnect with
            link := some { id := w.links, alive := true, outgoing := [] }
            links := w.links + 1, lastReply := w.now } (log ++ [.disconnected]) :=
          h.reset rfl rfl rfl rfl
        exact hopened.send .status none
      · have htwice := h.disconnect.disconnect
        rw [List.append_assoc] at htwice
        exact htwice
  | disconnect => exact h.disconnect
  | send request callback => exact h.send request callback
  | releaseAll => exact h.release
  | tick => exact h.tick
  | elapse seconds =>
      show Ledger none _ (log ++ [])
      rw [List.append_nil]
      exact h.table rfl rfl rfl rfl rfl
  | write =>
      show Ledger none w.write (log ++ [])
      rcases World.write_eq w with ⟨link, wire, hwrite, hid⟩
      rw [hwrite, List.append_nil]
      exact h.table hid rfl rfl rfl rfl
  | breakLink =>
      show Ledger none w.breakLink (log ++ [])
      rcases World.breakLink_eq w with ⟨link, events, wire, hbreak, hid⟩
      rw [hbreak, List.append_nil]
      exact h.table hid rfl rfl rfl rfl
  | arrive link item =>
      show Ledger none _ (log ++ [])
      rw [List.append_nil]
      exact h.table rfl rfl rfl rfl rfl

theorem boot : Ledger none World.boot [] where
  awake := rfl
  numbered := ⟨rfl, List.nodup_nil, nofun⟩
  idle := fun _ => rfl
  entries := nofun
  known := fun _ _ => rfl
  current := by
    rintro n link id request answerable time ⟨before, since, hlog, -⟩
    exact absurd hlog.symm (by simp)
  once := fun _ => Nat.zero_le _
  own := by
    intro past n link echo hpast
    exact absurd (List.prefix_nil.mp hpast) (by simp)
  unsettled := by
    rintro n link id request time ⟨before, since, hlog, -⟩
    exact absurd hlog.symm (by simp)
  inHand := nofun

end Ledger

end SwitchController.Host.App
