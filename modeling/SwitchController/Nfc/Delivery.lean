import Mathlib.Data.List.Chain
import SwitchController.Nfc.Currency

/-! # What the console receives

A send takes the oldest packet off the queue, or shows an idle packet when there
is none. Read side by side with the packets still queued, what was received
changes at its end only, except where a call flushes the queue.
-/

namespace SwitchController.Nfc

open Memory

/-! ## Flushing calls -/

/-- Calls that drop the queued packets, in a state with this mode and tag. -/
def flushes (power : UInt8) (present : Bool) : Op → Bool
  | .reset | .unload => true
  | .load data => data.length = tagSize
  | .power value => ¬ value > 1
  | .config args => power ≠ 0 ∧ (configMode args).any (· ≠ 0)
  | .command packet =>
      classify power present packet = .stop ∨ classify power present packet = .read
  | .peek | .commit => false

def Mcu.flushes (m : Mcu) (op : Op) : Bool := Nfc.flushes m.powerState m.present op

def Model.flushes (a : Model) (op : Op) : Bool := Nfc.flushes a.power a.tag.isSome op

theorem Rep.flushes {m : Mcu} {a : Model} (h : Rep m a) (op : Op) :
    a.flushes op = m.flushes op := by
  rw [Model.flushes, Mcu.flushes, h.power, h.isSome]

/-- A packet that is no part of a read. State byte 4 would make an announcement a trailer. -/
def Packet.Side : Packet → Prop
  | .status _ | .poll _ => True
  | .found state _ => state ≠ 4
  | .first _ | .second _ | .trailer _ => False

/-- The fragments of a read start with 0x3a and say which one they are. -/
theorem encode_fragment {p : Packet} (h : p.encode[0]? = some 0x3a) :
    (∃ tag, p = .first tag ∧ p.encode[3]? = some 1) ∨
      (∃ tag, p = .second tag ∧ p.encode[3]? = some 2) := by
  cases p with
  | first tag => exact .inl ⟨tag, rfl, rfl⟩
  | second tag => exact .inr ⟨tag, rfl, rfl⟩
  | status power =>
      by_cases hp : power = 0
      · rw [hp] at h
        cases h
      · have hbody : (Packet.status power).body[0]? = some 1 := by simp [Packet.body, hp]
        have hlen : 0 < (Packet.status power).body.length := by simp [Packet.body, hp]
        rw [Packet.encode, sealPacket_getElem? hlen, hbody] at h
        cases h
  | poll state => cases h
  | found state tag => cases h
  | trailer tag => cases h

/-- No side packet looks like a part of a read. -/
theorem Packet.Side.encode_ne {q : Packet} (h : q.Side) (tag : Bytes) :
    ∀ r ∈ readPackets tag, q.encode ≠ r.encode := by
  have hfragment : q.encode[0]? ≠ some 0x3a := by
    intro h0
    rcases encode_fragment h0 with ⟨t, rfl, -⟩ | ⟨t, rfl, -⟩
    · exact h
    · exact h
  have htrailer : q.encode ≠ (Packet.trailer tag).encode := by
    intro heq
    cases q with
    | status power =>
        have h0 := congrArg (·[0]?) heq
        by_cases hp : power = 0
        · rw [hp] at h0
          cases h0
        · have hlen : 0 < (Packet.status power).body.length := by simp [Packet.body, hp]
          simp only [Packet.encode, sealPacket_getElem? hlen] at h0
          simp only [Packet.body, if_neg hp] at h0
          cases h0
    | poll state => cases congrArg (·[11]?) heq
    | found state t =>
        have h7 : some state = some 4 := congrArg (·[7]?) heq
        exact h (Option.some.inj h7)
    | first | second | trailer => exact h
  intro r hr heq
  simp only [readPackets, List.mem_cons, List.not_mem_nil, or_false] at hr
  rcases hr with rfl | rfl | rfl
  · exact hfragment (by rw [heq]; rfl)
  · exact hfragment (by rw [heq]; rfl)
  · exact htrailer heq

namespace Model

variable {a : Model}

theorem status_extends (a : Model) :
    ∃ extra, a.status.pending = a.pending ++ extra ∧ ∀ q ∈ extra, q.Side := by
  unfold status enqueue
  split_ifs
  · exact ⟨[.status a.power], rfl, by simp [Packet.Side]⟩
  · exact ⟨[], by simp, by simp⟩

theorem poll_extends (a : Model) :
    ∃ extra, a.poll.pending = a.pending ++ extra ∧ ∀ q ∈ extra, q.Side := by
  by_cases hroom : a.pending.length < queueSize
  · by_cases hbare : a.tag = none ∨ a.polling = 0
    · exact ⟨[.poll a.polling], by rw [poll_bare hroom hbare], by simp [Packet.Side]⟩
    · obtain ⟨tag, ht⟩ := Option.ne_none_iff_exists'.mp (not_or.mp hbare).1
      have hstate : a.foundState ≠ 4 := by
        unfold foundState
        split_ifs <;> decide
      refine ⟨[.found a.foundState tag], ?_, by simpa [Packet.Side] using hstate⟩
      rw [poll_found hroom ht (not_or.mp hbare).2]
  · exact ⟨[], by rw [poll_full hroom]; simp, by simp⟩

/-- Only status and poll requests add to the queue without flushing it first. -/
theorem step_kept {op : Op} (h : a.flushes op = false) (hc : op ≠ .commit)
    (hask : ∀ packet, op = .command packet →
      a.request packet ≠ .status ∧ a.request packet ≠ .poll) :
    (step op a).1.pending = a.pending := by
  cases op with
  | reset => cases h
  | unload => cases h
  | load data =>
      have hlen : data.length ≠ tagSize := by simpa [flushes, Nfc.flushes] using h
      simp [step, load, hlen]
  | power value =>
      have hv : value > 1 := by simpa [flushes, Nfc.flushes] using h
      simp [step, setPower, hv]
  | config args =>
      simp only [step, config]
      cases hm : configMode args with
      | none => rfl
      | some mode =>
          have hidle : ¬ (a.power ≠ 0 ∧ mode ≠ 0) := by
            simpa [flushes, Nfc.flushes, hm] using h
          simp only [if_neg hidle]
  | command packet =>
      obtain ⟨hstatus, hpoll⟩ := hask packet rfl
      have hkind : a.request packet ≠ .stop ∧ a.request packet ≠ .read := by
        simpa [flushes, Nfc.flushes, request] using h
      change (perform (a.request packet) a).pending = _
      cases hr : a.request packet with
      | reject | startPoll => rfl
      | status => exact absurd hr hstatus
      | poll => exact absurd hr hpoll
      | stop => exact absurd hr hkind.1
      | read => exact absurd hr hkind.2
  | peek => rfl
  | commit => exact absurd rfl hc

/-- A call that flushes nothing only adds side packets behind those queued. -/
theorem step_extends {op : Op} (h : a.flushes op = false) (hc : op ≠ .commit) :
    ∃ extra, (step op a).1.pending = a.pending ++ extra ∧ ∀ q ∈ extra, q.Side := by
  by_cases hask : ∀ packet, op = .command packet →
      a.request packet ≠ .status ∧ a.request packet ≠ .poll
  · exact ⟨[], by rw [step_kept h hc hask, List.append_nil], by simp⟩
  · push Not at hask
    obtain ⟨packet, rfl, hask⟩ := hask
    change ∃ extra, (perform (a.request packet) a).pending = _ ∧ _
    by_cases hstatus : a.request packet = .status
    · rw [hstatus]
      exact status_extends a
    · rw [hask hstatus]
      exact poll_extends a

/-- What a flushing call leaves is new: side packets or the packets of one read. -/
theorem step_fresh {op : Op} (h : a.flushes op = true) :
    (∀ q ∈ (step op a).1.pending, q.Side) ∨
      ∃ tag, a.tag = some tag ∧ (step op a).1.pending = readPackets tag := by
  have hmode (mode : UInt8) : ∀ q ∈ (a.enterMode mode).pending, q.Side := by
    simp [enterMode, Packet.Side]
  cases op with
  | reset => exact .inl (by simp [step, reset])
  | unload =>
      refine .inl ?_
      simp only [step, unload]
      split_ifs <;> simp [Packet.Side]
  | load data =>
      have hlen : data.length = tagSize := by simpa [flushes, Nfc.flushes] using h
      refine .inl ?_
      simp only [step, load, if_neg (not_not.mpr hlen)]
      split_ifs <;> simp [Packet.Side]
  | power value =>
      have hv : ¬ value > 1 := by simpa [flushes, Nfc.flushes] using h
      refine .inl ?_
      simp only [step, setPower, if_neg hv]
      exact hmode value
  | config args =>
      refine .inl ?_
      simp only [step, config]
      cases hm : configMode args with
      | none => simp [flushes, Nfc.flushes, hm] at h
      | some mode =>
          have heff : a.power ≠ 0 ∧ mode ≠ 0 := by simpa [flushes, Nfc.flushes, hm] using h
          simp only [if_pos heff]
          exact hmode mode
  | command packet =>
      have hkind : a.request packet = .stop ∨ a.request packet = .read := by
        simpa [flushes, Nfc.flushes, request] using h
      change (∀ q ∈ (perform (a.request packet) a).pending, q.Side) ∨
        ∃ tag, a.tag = some tag ∧ (perform (a.request packet) a).pending = _
      rcases hkind with hr | hr
      · rw [hr]
        exact .inl (by simp [perform])
      · have hpresent := (classify_read hr).2.2.1
        obtain ⟨tag, ht⟩ := Option.isSome_iff_exists.mp hpresent
        rw [hr, read_some ht]
        exact .inr ⟨tag, ht, rfl⟩
  | peek => cases h
  | commit => cases h

/-- A send takes the packet it shows, which is an idle one when nothing waits. -/
theorem peek_commit_extends (a : Model) :
    ∃ extra, a.peek :: a.commit.pending = a.pending ++ extra ∧ ∀ q ∈ extra, q.Side := by
  unfold peek commit
  cases a.pending with
  | nil => exact ⟨[.idle], rfl, by simp [Packet.idle, Packet.Side]⟩
  | cons q qs => exact ⟨[], by simp, by simp⟩

end Model

/-! ## Received packets -/

/-- The second fragment of a tag directly follows its first. -/
def Follows (q r : Packet) : Prop := ∀ tag, r = .second tag → q = .first tag

/-- Every second fragment directly follows the first fragment of its tag. The idle
packet in front only says that none comes first of all. -/
def Paired (qs : List Packet) : Prop := List.IsChain Follows (.idle :: qs)

theorem side_follows {q r : Packet} (h : r.Side) : Follows q r := by
  intro tag hr
  subst hr
  cases h

theorem side_chain {qs : List Packet} (h : ∀ q ∈ qs, q.Side) : List.IsChain Follows qs := by
  induction qs with
  | nil => exact .nil
  | cons q qs ih =>
      refine List.isChain_cons.mpr ⟨fun r hr => ?_, ih fun r hr => h r (by simp [hr])⟩
      exact side_follows (h r (List.mem_cons_of_mem _ (List.mem_of_mem_head? hr)))

theorem readPackets_chain (tag : Bytes) : List.IsChain Follows (readPackets tag) := by
  unfold readPackets
  refine List.isChain_cons_cons.mpr ⟨?_, List.isChain_cons_cons.mpr ⟨?_, .singleton _⟩⟩
  · intro t ht
    cases ht
    rfl
  · intro t ht
    cases ht

namespace Paired

variable {qs rs : List Packet}

theorem nil : Paired [] := .singleton _

theorem left (h : Paired (qs ++ rs)) : Paired qs := by
  have hsplit : List.IsChain Follows ((.idle :: qs) ++ rs) := h
  exact (List.isChain_append.mp hsplit).1

theorem append (h : Paired qs) (hr : List.IsChain Follows rs)
    (hhead : ∀ q tag, q ∈ rs.head? → q ≠ .second tag) : Paired (qs ++ rs) := by
  change List.IsChain Follows ((.idle :: qs) ++ rs)
  refine List.isChain_append.mpr ⟨h, hr, ?_⟩
  intro q _ r hmem tag hsecond
  exact absurd hsecond (hhead r tag hmem)

theorem append_side (h : Paired qs) (hs : ∀ q ∈ rs, q.Side) : Paired (qs ++ rs) := by
  apply h.append (side_chain hs)
  intro q tag hq hsecond
  have hside := hs q (List.mem_of_mem_head? hq)
  rw [hsecond] at hside
  exact hside

theorem append_read (h : Paired qs) (tag : Bytes) : Paired (qs ++ readPackets tag) := by
  apply h.append (readPackets_chain tag)
  intro q t hq hsecond
  cases hq
  cases hsecond

/-- The packet in front of a second fragment. -/
theorem before {tag : Bytes} {pre post : List Packet}
    (h : Paired (pre ++ .second tag :: post)) : ∃ earlier, pre = earlier ++ [.first tag] := by
  have hsplit : List.IsChain Follows ((.idle :: pre) ++ .second tag :: post) := h
  have hlast := (List.isChain_append.mp hsplit).2.2
  cases pre using List.reverseRecOn with
  | nil =>
      have hidle := hlast .idle rfl (.second tag) rfl tag rfl
      cases hidle
  | append_singleton earlier q =>
      refine ⟨earlier, ?_⟩
      have hend : (Packet.idle :: (earlier ++ [q])).getLast? = some q := by
        rw [List.getLast?_cons]
        simp
      have hq := hlast q hend (.second tag) rfl tag rfl
      rw [hq]

end Paired

end SwitchController.Nfc
