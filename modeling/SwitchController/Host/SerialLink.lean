import SwitchController.Lib.Lines
import SwitchController.Lib.Str

/-! # Lines from the port

`LineDecoder` of `serial_link.py`. Its buffer is what remains of the stream behind
the last line end, so the lines it gives out depend on the stream alone and not on
the chunks it arrived in, as long as no line is longer than the buffer may grow.
-/

namespace SwitchController.Host

open Memory

structure LineDecoder where
  buffer : Bytes

def LineDecoder.new : LineDecoder := ⟨[]⟩

def newline : UInt8 := 0x0a

/-- What the buffer may hold between two reads. -/
def bufferLimit : Nat := 16384

/-- `raw.decode("utf-8", "replace").rstrip("\r")`. -/
def decodeLine (raw : Bytes) : Str.Text := Str.rstripCr (Str.decode raw)

/-- `buffer.partition(b"\n")`, without the separator. -/
def partitionLine (buffer : Bytes) : Bytes × Bytes :=
  (buffer.takeWhile (· ≠ newline), (buffer.dropWhile (· ≠ newline)).tail)

theorem partitionLine_eq {buffer : Bytes} (h : newline ∈ buffer) :
    newline ∉ (partitionLine buffer).1 ∧
      buffer = (partitionLine buffer).1 ++ newline :: (partitionLine buffer).2 := by
  constructor
  · intro hmem
    simpa using List.mem_takeWhile_imp hmem
  · have hsplit := List.takeWhile_append_dropWhile (p := (· ≠ newline)) (l := buffer)
    have hne : buffer.dropWhile (· ≠ newline) ≠ [] := by
      intro hnil
      rw [List.dropWhile_eq_nil_iff] at hnil
      simpa using hnil newline h
    have hhead := List.head_dropWhile_not (fun c : UInt8 => decide (c ≠ newline)) hne
    have hcons := List.cons_head_tail hne
    have hstop : (buffer.dropWhile (· ≠ newline)).head hne = newline := by simpa using hhead
    rw [hstop] at hcons
    unfold partitionLine
    rw [hcons, hsplit]

def takeLines (buffer : Bytes) : List Str.Text × Bytes :=
  if newline ∈ buffer then
    let later := takeLines (partitionLine buffer).2
    (decodeLine (partitionLine buffer).1 :: later.1, later.2)
  else ([], buffer)
termination_by buffer.length
decreasing_by
  rename_i h
  have hlen := congrArg List.length (partitionLine_eq h).2
  simp only [List.length_append, List.length_cons] at hlen
  omega

def LineDecoder.feed (chunk : Bytes) (d : LineDecoder) : LineDecoder × List Str.Text :=
  let (lines, buffer) := takeLines (d.buffer ++ chunk)
  (⟨if buffer.length > bufferLimit then [] else buffer⟩, lines)

def LineDecoder.feeds : List Bytes → LineDecoder → LineDecoder × List Str.Text
  | [], d => (d, [])
  | chunk :: chunks, d =>
      let (d, lines) := d.feed chunk
      let (d, later) := feeds chunks d
      (d, lines ++ later)

/-- No line of the stream is longer than the buffer may grow, nor is what follows the last. -/
structure Bounded (stream : Bytes) : Prop where
  lines : ∀ line ∈ Lines.closed newline stream, line.length ≤ bufferLimit
  tail : (Lines.tail newline stream).length ≤ bufferLimit

/-! ## One feed -/

theorem takeLines_eq (buffer : Bytes) :
    takeLines buffer =
      ((Lines.closed newline buffer).map decodeLine, Lines.tail newline buffer) := by
  fun_induction takeLines buffer with
  | case1 buffer h later ih =>
      have hcut := partitionLine_eq h
      have hline := Lines.line_append newline hcut.1 (partitionLine buffer).2
      rw [← hcut.2] at hline
      rw [hline.1, hline.2, List.map_cons]
      simp only [later, ih]
  | case2 buffer h =>
      have hopen := Lines.of_not_mem newline h
      rw [hopen.1, hopen.2, List.map_nil]

theorem feed_buffer (chunk : Bytes) (d : LineDecoder) :
    newline ∉ (d.feed chunk).1.buffer ∧ (d.feed chunk).1.buffer.length ≤ bufferLimit := by
  unfold LineDecoder.feed
  rw [takeLines_eq]
  dsimp only
  split
  case isTrue => simp
  case isFalse hfits => exact ⟨Lines.not_mem_tail newline _, Nat.le_of_not_lt hfits⟩

theorem Bounded.left {left right : Bytes} (h : Bounded (left ++ right)) : Bounded left := by
  have hcut := Lines.append newline left right
  constructor
  · intro line hline
    apply h.lines
    rw [hcut.1]
    exact List.mem_append_left _ hline
  · rcases Lines.tail_begins newline left right with ⟨more, hmore⟩
    have hlen : (Lines.tail newline left ++ more).length ≤ bufferLimit := by
      rcases List.mem_append.mp hmore with hline | htail
      · exact h.lines _ hline
      · rw [List.mem_singleton.mp htail]
        exact h.tail
    rw [List.length_append] at hlen
    omega

/-- The decoder after part of a stream: its buffer is the tail of what it was fed. -/
theorem feed_tail {stream chunk : Bytes}
    (h : (Lines.tail newline (stream ++ chunk)).length ≤ bufferLimit) :
    LineDecoder.feed chunk ⟨Lines.tail newline stream⟩ =
      (⟨Lines.tail newline (stream ++ chunk)⟩,
        (Lines.closed newline (Lines.tail newline stream ++ chunk)).map decodeLine) := by
  have hcut := Lines.append newline stream chunk
  have hfits :
      ¬ (Lines.tail newline (Lines.tail newline stream ++ chunk)).length > bufferLimit := by
    rw [← hcut.2]
    exact Nat.not_lt.mpr h
  unfold LineDecoder.feed
  rw [takeLines_eq]
  simp only [if_neg hfits, hcut.2]

/-- Feeding in chunks continues the stream fed so far, as long as no chunk leaves a tail
that is thrown away. -/
theorem feeds_tail (chunks : List Bytes) {stream : Bytes}
    (h : ∀ part, part <+: chunks →
      (Lines.tail newline (stream ++ part.flatten)).length ≤ bufferLimit) :
    LineDecoder.feeds chunks ⟨Lines.tail newline stream⟩ =
      (⟨Lines.tail newline (stream ++ chunks.flatten)⟩,
        (Lines.closed newline (Lines.tail newline stream ++ chunks.flatten)).map decodeLine) := by
  induction chunks generalizing stream with
  | nil =>
      have hopen := Lines.of_not_mem newline (Lines.not_mem_tail newline stream)
      simp only [LineDecoder.feeds, List.flatten_nil, List.append_nil, hopen.1, List.map_nil]
  | cons chunk chunks ih =>
      have hfirst := h [chunk] (List.prefix_append [chunk] chunks)
      rw [List.flatten_singleton] at hfirst
      have hrest := @ih (stream ++ chunk) fun part hpart => by
        have hlonger := h (chunk :: part) (List.cons_prefix_cons.mpr ⟨rfl, hpart⟩)
        rw [List.flatten_cons, ← List.append_assoc] at hlonger
        exact hlonger
      have hmore := Lines.append newline (Lines.tail newline stream ++ chunk) chunks.flatten
      have hsame := (Lines.append newline stream chunk).2
      simp only [LineDecoder.feeds, feed_tail hfirst, hrest, List.flatten_cons]
      rw [← List.append_assoc, ← List.append_assoc, hmore.1, List.map_append, hsame]

theorem new_feeds_lines {chunks : List Bytes}
    (h : ∀ part, part <+: chunks → (Lines.tail newline part.flatten).length ≤ bufferLimit) :
    LineDecoder.new.feeds chunks =
      (⟨Lines.tail newline chunks.flatten⟩, (Lines.closed newline chunks.flatten).map decodeLine) :=
  @feeds_tail chunks [] h

theorem feeds_buffer (chunks : List Bytes) {d : LineDecoder} (hopen : newline ∉ d.buffer)
    (hfits : d.buffer.length ≤ bufferLimit) :
    newline ∉ (d.feeds chunks).1.buffer ∧ (d.feeds chunks).1.buffer.length ≤ bufferLimit := by
  induction chunks generalizing d with
  | nil => exact ⟨hopen, hfits⟩
  | cons chunk chunks ih =>
      have hstep := feed_buffer chunk d
      exact ih hstep.1 hstep.2

/-- The chunks do not matter: a stream without overlong lines gives its lines, decoded
whole, and leaves its tail. Whatever is fed, the buffer has no line end and is bounded. -/
theorem feeds_eq_lines (chunks : List Bytes) :
    (Bounded chunks.flatten →
      LineDecoder.new.feeds chunks =
        (⟨Lines.tail newline chunks.flatten⟩,
          (Lines.closed newline chunks.flatten).map decodeLine)) ∧
      newline ∉ (LineDecoder.new.feeds chunks).1.buffer ∧
      (LineDecoder.new.feeds chunks).1.buffer.length ≤ bufferLimit := by
  constructor
  · intro h
    apply new_feeds_lines
    rintro part ⟨rest, hrest⟩
    rw [← hrest, List.flatten_append] at h
    exact h.left.tail
  · exact feeds_buffer chunks List.not_mem_nil (Nat.zero_le _)

/-- A character of two bytes and a CR-LF pair, each cut in the middle. -/
theorem feeds_eq_lines_cut :
    LineDecoder.new.feeds [[0xc3], [0xb3, 0x0d], [0x0a, 0x61]] =
      (⟨[0x61]⟩, [[0xf3]]) := by
  have hfed := (feeds_eq_lines [[0xc3], [0xb3, 0x0d], [0x0a, 0x61]]).1 ⟨by decide, by decide⟩
  exact hfed

end SwitchController.Host
