import SwitchController.Host.ReplyLine

/-! # Three readers of one stream

The window takes replies through `LineDecoder` and `parse_reply`; the session of
`session.py` and the one-shot client of `cli.py` each have a loop of their own. A read
that times out gives the one-shot client part of a line. Where its reads end with the
lines, and no decoder throws part of a line away, the three get the same replies exactly
when every line is a reply from its start to its end or nothing to any of them. A
stream on which they agree however it arrives has nothing in it for any of them.
-/

namespace SwitchController.Host

open Memory Device Str

/-! ## The window -/

def guiReplies (chunks : List Bytes) : List Dict :=
  (LineDecoder.new.feeds chunks).2.filterMap parseReply

/-! ## The session -/

/-- The local of `SerialSession.reader`. Its thread also ends on what is no `ValueError`, as
`json.loads` raises beyond the recursion limit; here no text is nested that deep, and
in a session the thread may end at any time. -/
structure SessionReader where
  pending : Bytes

def SessionReader.read (chunk : Bytes) (r : SessionReader) : SessionReader × List Json.Value :=
  if chunk = [] then (r, [])
  else
    let (lines, pending) := takeLines (r.pending ++ chunk)
    (⟨if pending.length > bufferLimit then [] else pending⟩, lines.filterMap sessionReply)

def SessionReader.reads : List Bytes → SessionReader → SessionReader × List Json.Value
  | [], r => (r, [])
  | chunk :: chunks, r =>
      let (r, replies) := r.read chunk
      let (r, later) := reads chunks r
      (r, replies ++ later)

def sessionReplies (chunks : List Bytes) : List Json.Value :=
  (SessionReader.reads chunks ⟨[]⟩).2

/-! ## The one-shot client -/

/-- What the one-shot client's loop gets to compare with its id. -/
def cliReplies (pieces : List Bytes) : List Json.Value := pieces.filterMap cliReply

/-! ## Agreement -/

/-- One stream as it arrives at each reader: in chunks, and in pieces a `readline` returns,
which go on through a line end or stop anywhere before it. -/
structure Arrival (stream : Bytes) where
  gui : List Bytes
  session : List Bytes
  cli : List Bytes
  gui_stream : gui.flatten = stream
  session_stream : session.flatten = stream
  cli_stream : cli.flatten = stream
  readline : ∀ piece ∈ cli, newline ∉ piece.dropLast

/-- The readers get the same replies, and none gets what `parse_reply` would reject. -/
structure Agree {stream : Bytes} (a : Arrival stream) : Prop where
  session : sessionReplies a.session = (guiReplies a.gui).map .object
  cli : cliReplies a.cli = (guiReplies a.gui).map .object
  handed : ∀ v ∈ sessionReplies a.session ++ cliReplies a.cli,
    ∃ reply, v = .object reply ∧ wellFormed reply = true

/-- What a decoder can have of a closed line: all of it, or what follows an overlong part. -/
def Seen (stream raw : Bytes) : Prop :=
  ∃ dropped, dropped ++ raw ∈ Lines.closed newline stream ∧
    (dropped = [] ∨ bufferLimit < dropped.length)

/-- The one-shot client reads whole lines, and no part of a line grows so long that a
decoder throws it away. -/
structure Arrival.Framed {stream : Bytes} (a : Arrival stream) : Prop where
  gui : ∀ part, part <+: a.gui → (Lines.tail newline part.flatten).length ≤ bufferLimit
  session : ∀ part, part <+: a.session → (Lines.tail newline part.flatten).length ≤ bufferLimit
  cli : ∀ piece ∈ a.cli, piece ≠ [] → piece.getLast? = some newline

/-- Nothing in the stream reads as a reply to any of the three, however it is cut. -/
structure Silent (stream : Bytes) : Prop where
  gui : ∀ raw, Seen stream raw → NoObject (decodeLine raw)
  session : ∀ raw, Seen stream raw → NoText (decodeLine raw)
  cli : ∀ piece, piece <:+: stream → newline ∉ piece.dropLast → NoText (strip (decode piece))

/-! ## What a decoder sees -/

def Holds (stream buffer : Bytes) : Prop :=
  ∃ dropped, Lines.tail newline stream = dropped ++ buffer ∧
    (dropped = [] ∨ bufferLimit < dropped.length)

theorem Seen.append {stream raw : Bytes} (h : Seen stream raw) (more : Bytes) :
    Seen (stream ++ more) raw := by
  rcases h with ⟨dropped, hline, hdropped⟩
  refine ⟨dropped, ?_, hdropped⟩
  rw [(Lines.append newline stream more).1]
  exact List.mem_append_left _ hline

theorem feed_seen {stream : Bytes} {d : LineDecoder} (h : Holds stream d.buffer) (chunk : Bytes) :
    Holds (stream ++ chunk) (d.feed chunk).1.buffer ∧
      ∀ line ∈ (d.feed chunk).2, ∃ raw, Seen (stream ++ chunk) raw ∧ line = decodeLine raw := by
  rcases h with ⟨dropped, htail, hdropped⟩
  have hfree : newline ∉ dropped := by
    intro hmem
    apply Lines.not_mem_tail newline stream
    rw [htail]
    exact List.mem_append_left _ hmem
  have hcut := Lines.append newline stream chunk
  rw [htail, List.append_assoc] at hcut
  have hpre := Lines.prepend newline hfree (d.buffer ++ chunk)
  unfold LineDecoder.feed
  rw [takeLines_eq]
  constructor
  · -- what is left over is the new tail, unless the dropped part still belongs to it
    dsimp only
    split
    case isTrue hlong =>
        refine ⟨Lines.tail newline (stream ++ chunk), (List.append_nil _).symm, .inr ?_⟩
        rw [hcut.2]
        rcases hpre.2 with ⟨hsame, -⟩ | ⟨hwhole, hnone⟩
        · rw [hsame]
          exact hlong
        · rw [(Lines.of_not_mem newline hnone).2] at hlong
          rw [hwhole, List.length_append]
          omega
    case isFalse =>
        rcases hpre.2 with ⟨hsame, -⟩ | ⟨hwhole, hnone⟩
        · exact ⟨[], by rw [hcut.2, hsame]; rfl, .inl rfl⟩
        · refine ⟨dropped, ?_, hdropped⟩
          rw [hcut.2, hwhole, (Lines.of_not_mem newline hnone).2]
  · intro line hline
    rcases List.mem_map.mp hline with ⟨raw, hraw, rfl⟩
    refine ⟨raw, ?_, rfl⟩
    rcases hpre.1 raw hraw with hsame | hlong
    · exact ⟨[], by rw [hcut.1]; exact List.mem_append_right _ hsame, .inl rfl⟩
    · exact ⟨dropped, by rw [hcut.1]; exact List.mem_append_right _ hlong, hdropped⟩

theorem feeds_seen (chunks : List Bytes) {stream : Bytes} {d : LineDecoder}
    (h : Holds stream d.buffer) :
    ∀ line ∈ (d.feeds chunks).2, ∃ raw, Seen (stream ++ chunks.flatten) raw ∧
      line = decodeLine raw := by
  induction chunks generalizing stream d with
  | nil =>
      intro line hline
      cases hline
  | cons chunk chunks ih =>
      have hstep := feed_seen h chunk
      intro line hline
      rw [List.flatten_cons, ← List.append_assoc]
      rcases List.mem_append.mp hline with hnow | hlater
      · rcases hstep.2 line hnow with ⟨raw, hraw, rfl⟩
        exact ⟨raw, hraw.append _, rfl⟩
      · exact ih hstep.1 line hlater

/-- Every line the decoder gives out is one it can see. -/
theorem new_feeds_seen {chunks : List Bytes} {stream : Bytes} (h : chunks.flatten = stream) :
    ∀ line ∈ (LineDecoder.new.feeds chunks).2, ∃ raw, Seen stream raw ∧ line = decodeLine raw := by
  have hstart : Holds [] LineDecoder.new.buffer := ⟨[], rfl, .inl rfl⟩
  have hall := feeds_seen chunks hstart
  rw [List.nil_append, h] at hall
  exact hall

theorem Seen.feeds {stream raw : Bytes} (h : Seen stream raw) :
    ∃ chunks, chunks.flatten = stream ∧ decodeLine raw ∈ (LineDecoder.new.feeds chunks).2 := by
  rcases h with ⟨dropped, hline, hdropped⟩
  have hfree := Lines.not_mem_closed newline hline
  rcases Lines.closed_split newline stream hline with ⟨before, after, hstream, htail⟩
  have hfreeDropped : newline ∉ dropped := fun hmem => hfree (List.mem_append_left _ hmem)
  have hfreeRaw : newline ∉ raw := fun hmem => hfree (List.mem_append_right _ hmem)
  have hlast : Lines.tail newline (before ++ dropped) = dropped := by
    rw [(Lines.append newline before dropped).2, htail, List.nil_append,
      (Lines.of_not_mem newline hfreeDropped).2]
  have hfirst : (LineDecoder.new.feed (before ++ dropped)).1 = ⟨[]⟩ := by
    unfold LineDecoder.feed
    rw [takeLines_eq]
    have hnew : LineDecoder.new.buffer ++ (before ++ dropped) = before ++ dropped := rfl
    rw [hnew, hlast]
    rcases hdropped with rfl | hlong
    · rfl
    · exact congrArg LineDecoder.mk (if_pos hlong)
  refine ⟨[before ++ dropped, raw ++ newline :: after], by rw [hstream]; simp, ?_⟩
  simp only [LineDecoder.feeds, hfirst]
  apply List.mem_append_right
  apply List.mem_append_left
  unfold LineDecoder.feed
  rw [takeLines_eq]
  have hcut := (Lines.line_append newline hfreeRaw after).1
  rw [List.nil_append, hcut]
  exact List.mem_cons_self

/-! ## The session's lines -/

/-- An empty chunk changes nothing, which is why the session may skip it. -/
theorem feed_nil {d : LineDecoder} (hopen : newline ∉ d.buffer)
    (hfits : d.buffer.length ≤ bufferLimit) : d.feed [] = (d, []) := by
  unfold LineDecoder.feed
  have hcut := Lines.of_not_mem newline hopen
  rw [takeLines_eq, List.append_nil, hcut.1, hcut.2]
  dsimp only
  rw [if_neg (Nat.not_lt.mpr hfits)]
  rfl

theorem reads_eq_feeds (chunks : List Bytes) {r : SessionReader} (hopen : newline ∉ r.pending)
    (hfits : r.pending.length ≤ bufferLimit) :
    (r.reads chunks).2 = ((LineDecoder.mk r.pending).feeds chunks).2.filterMap sessionReply := by
  induction chunks generalizing r with
  | nil => rfl
  | cons chunk chunks ih =>
      have hbuffer := feed_buffer chunk ⟨r.pending⟩
      have hread : r.read chunk = (⟨(LineDecoder.feed chunk ⟨r.pending⟩).1.buffer⟩,
          (LineDecoder.feed chunk ⟨r.pending⟩).2.filterMap sessionReply) := by
        unfold SessionReader.read
        split
        case isTrue hnil =>
            rw [hnil, feed_nil hopen hfits]
            rfl
        case isFalse => rfl
      have hrest := ih (r := ⟨(LineDecoder.feed chunk ⟨r.pending⟩).1.buffer⟩) hbuffer.1 hbuffer.2
      simp only [SessionReader.reads, LineDecoder.feeds, hread, List.filterMap_append]
      rw [hrest]

theorem sessionReplies_eq (chunks : List Bytes) :
    sessionReplies chunks = (LineDecoder.new.feeds chunks).2.filterMap sessionReply :=
  reads_eq_feeds chunks List.not_mem_nil (Nat.zero_le _)

/-! ## Whole lines -/

section Tests

variable {α β : Type*} {f g : α → Option β}

theorem filterMap_length_le {l : List α} (h : ∀ x ∈ l, f x = none ∨ f x = g x) :
    (l.filterMap f).length ≤ (l.filterMap g).length := by
  induction l with
  | nil => exact Nat.le_refl _
  | cons x l ih =>
      have hrest := ih fun y hy => h y (List.mem_cons_of_mem _ hy)
      rcases h x List.mem_cons_self with hnone | hsame
      · have htail := ((List.sublist_cons_self x l).filterMap g).length_le
        rw [List.filterMap_cons_none hnone]
        omega
      · rw [List.filterMap_cons, List.filterMap_cons, hsame]
        cases g x with
        | none => exact hrest
        | some y => exact Nat.succ_le_succ hrest

theorem filterMap_agree {l : List α} (h : ∀ x ∈ l, f x = none ∨ f x = g x)
    (heq : l.filterMap f = l.filterMap g) : ∀ x ∈ l, f x = g x := by
  induction l with
  | nil =>
      intro x hx
      cases hx
  | cons x l ih =>
      have hl : ∀ y ∈ l, f y = none ∨ f y = g y := fun y hy => h y (List.mem_cons_of_mem _ hy)
      have hle := filterMap_length_le hl
      have hlen := congrArg List.length heq
      have hhead : f x = g x := by
        rcases h x List.mem_cons_self with hnone | hsame
        · cases hg : g x with
          | none => exact hnone
          | some y =>
              rw [List.filterMap_cons_none hnone, List.filterMap_cons_some hg,
                List.length_cons] at hlen
              omega
        · exact hsame
      have htail : l.filterMap f = l.filterMap g := by
        rw [List.filterMap_cons, List.filterMap_cons, hhead] at heq
        cases hg : g x with
        | none => simpa [hg] using heq
        | some y => simpa [hg] using heq
      intro y hy
      rcases List.mem_cons.mp hy with rfl | hy
      · exact hhead
      · exact ih hl htail y hy

end Tests

theorem cliReplies_lines {pieces : List Bytes} (hread : ∀ piece ∈ pieces, newline ∉ piece.dropLast)
    (hwhole : ∀ piece ∈ pieces, piece ≠ [] → piece.getLast? = some newline) :
    cliReplies pieces = ((Lines.closed newline pieces.flatten).map decodeLine).filterMap
      fun line => sessionReply (strip line) := by
  induction pieces with
  | nil => rfl
  | cons piece pieces ih =>
      have hrest := ih (fun p hp => hread p (List.mem_cons_of_mem _ hp))
        (fun p hp => hwhole p (List.mem_cons_of_mem _ hp))
      unfold cliReplies at hrest ⊢
      rw [List.flatten_cons, List.filterMap_cons]
      by_cases hnil : piece = []
      · subst hnil
        have hnone : cliReply [] = none := rfl
        rw [hnone, List.nil_append]
        exact hrest
      · have hlast := hwhole piece List.mem_cons_self hnil
        have hfree := hread piece List.mem_cons_self
        have hpiece : piece = piece.dropLast ++ [newline] := by
          rw [List.getLast?_eq_some_getLast hnil, Option.some.injEq] at hlast
          rw [← hlast, List.dropLast_append_getLast]
        have hline : piece ++ pieces.flatten = piece.dropLast ++ newline :: pieces.flatten := by
          rw [List.append_cons, ← hpiece]
        have hreply : cliReply piece = sessionReply (strip (decodeLine piece.dropLast)) := by
          rw [← cliReply_line, ← hpiece]
        rw [hline, (Lines.line_append newline hfree _).1, hreply, List.map_cons,
          List.filterMap_cons, hrest]

variable {stream : Bytes} {a : Arrival stream}

theorem Arrival.Framed.replies (h : a.Framed) :
    guiReplies a.gui = ((Lines.closed newline stream).map decodeLine).filterMap parseReply ∧
    sessionReplies a.session =
      ((Lines.closed newline stream).map decodeLine).filterMap sessionReply ∧
    cliReplies a.cli = ((Lines.closed newline stream).map decodeLine).filterMap
      fun line => sessionReply (strip line) := by
  refine ⟨?_, ?_, ?_⟩
  · rw [guiReplies, new_feeds_lines h.gui, a.gui_stream]
  · rw [sessionReplies_eq, new_feeds_lines h.session, a.session_stream]
  · rw [cliReplies_lines a.readline h.cli, a.cli_stream]

theorem framed_of_bounded (h : Bounded stream)
    (hcli : ∀ piece ∈ a.cli, piece ≠ [] → piece.getLast? = some newline) : a.Framed where
  gui := by
    rintro part ⟨rest, hrest⟩
    have hstream := a.gui_stream
    rw [← hrest, List.flatten_append] at hstream
    rw [← hstream] at h
    exact h.left.tail
  session := by
    rintro part ⟨rest, hrest⟩
    have hstream := a.session_stream
    rw [← hrest, List.flatten_append] at hstream
    rw [← hstream] at h
    exact h.left.tail
  cli := hcli

/-- A client that gets as many replies as the window, and no other, gets them from the
same lines. -/
theorem client_agrees {lines : List Text} {test : Text → Option Json.Value}
    (hsame : lines.filterMap test = lines.filterMap fun line => (parseReply line).map .object)
    (hhanded : ∀ v ∈ lines.filterMap test, ∃ reply, v = .object reply ∧ wellFormed reply = true)
    (hparse : ∀ line reply, test line = some (.object reply) → wellFormed reply = true →
      parseReply line = some reply) :
    ∀ line ∈ lines, test line = (parseReply line).map .object := by
  refine filterMap_agree ?_ hsame
  intro line hline
  cases hv : test line with
  | none => exact .inl rfl
  | some v =>
      rcases hhanded v (List.mem_filterMap.mpr ⟨line, hline, hv⟩) with ⟨reply, rfl, hw⟩
      rw [hparse line reply hv hw]
      exact .inr rfl

/-- In whole lines the readers agree exactly when every line is a reply from its start to
its end, or nothing to any of them. -/
theorem Arrival.Framed.agree_iff (h : a.Framed) :
    Agree a ↔ ∀ raw ∈ Lines.closed newline stream,
      Answers (decodeLine raw) ∨ Noise (decodeLine raw) := by
  have hreplies := h.replies
  have hmap : (guiReplies a.gui).map Json.Value.object =
      ((Lines.closed newline stream).map decodeLine).filterMap
        fun line => (parseReply line).map .object := by
    rw [hreplies.1, List.map_filterMap]
  constructor
  · intro hagree
    have hsession := hagree.session
    have hcli := hagree.cli
    have hhanded := hagree.handed
    rw [hmap, hreplies.2.1] at hsession
    rw [hmap, hreplies.2.2] at hcli
    rw [hreplies.2.1, hreplies.2.2] at hhanded
    have hsessionLine := client_agrees hsession
      (fun v hv => hhanded v (List.mem_append_left _ hv)) fun _ _ => sessionReply_parse
    have hcliLine := client_agrees hcli
      (fun v hv => hhanded v (List.mem_append_right _ hv)) fun _ _ => stripped_parse
    intro raw hraw
    have hline := List.mem_map_of_mem (f := decodeLine) hraw
    exact (line_agrees _).mp ⟨hsessionLine _ hline, hcliLine _ hline⟩
  · intro hlines
    have hsame : ∀ line ∈ (Lines.closed newline stream).map decodeLine,
        sessionReply line = (parseReply line).map .object ∧
          sessionReply (strip line) = (parseReply line).map .object := by
      intro line hline
      rcases List.mem_map.mp hline with ⟨raw, hraw, rfl⟩
      exact (line_agrees _).mpr (hlines raw hraw)
    have hsession : sessionReplies a.session = (guiReplies a.gui).map .object := by
      rw [hmap, hreplies.2.1]
      exact List.filterMap_congr fun line hline => (hsame line hline).1
    have hcli : cliReplies a.cli = (guiReplies a.gui).map .object := by
      rw [hmap, hreplies.2.2]
      exact List.filterMap_congr fun line hline => (hsame line hline).2
    refine ⟨hsession, hcli, ?_⟩
    intro v hv
    rw [hsession, hcli] at hv
    have hmem : v ∈ (guiReplies a.gui).map Json.Value.object := by simpa using hv
    rcases List.mem_map.mp hmem with ⟨reply, hreply, rfl⟩
    rcases List.mem_filterMap.mp hreply with ⟨line, -, hparse⟩
    exact ⟨reply, rfl, parseReply_wellFormed hparse⟩

/-! ## Pieces -/

def single (bytes : Bytes) : List Bytes := bytes.map fun c => [c]

@[simp] theorem single_flatten (bytes : Bytes) : (single bytes).flatten = bytes := by
  induction bytes with
  | nil => rfl
  | cons c bytes ih => simpa [single] using ih

theorem single_readline (bytes : Bytes) : ∀ piece ∈ single bytes, newline ∉ piece.dropLast := by
  intro piece hpiece
  rcases List.mem_map.mp hpiece with ⟨c, -, rfl⟩
  exact List.not_mem_nil

/-- One byte is at most one character. -/
theorem decode_single (c : UInt8) : (decode [c]).length ≤ 1 := by
  unfold decode
  simp only [decodeFrom, first]
  split
  · simp [decodeFrom]
  · split <;> simp [decodeFrom]

theorem cliReply_single (c : UInt8) : cliReply [c] = none := by
  have hlen : (strip (decode [c])).length ≤ 1 := by
    have hchar := decode_single c
    have hleft := (List.dropWhile_sublist (l := decode [c]) isSpace).length_le
    have hright := (List.rdropWhile_prefix isSpace (lstrip (decode [c]))).length_le
    unfold strip rstrip
    unfold lstrip at hright ⊢
    omega
  unfold cliReply
  apply if_neg
  intro hmark
  have hfour := hmark.length_le
  have hmark : mark.length = 4 := rfl
  omega

theorem cliReplies_single (bytes : Bytes) : cliReplies (single bytes) = [] := by
  unfold cliReplies
  rw [List.filterMap_eq_nil_iff]
  intro piece hpiece
  rcases List.mem_map.mp hpiece with ⟨c, -, rfl⟩
  exact cliReply_single c

def bytewise (stream : Bytes) : Arrival stream where
  gui := single stream
  session := single stream
  cli := single stream
  gui_stream := single_flatten stream
  session_stream := single_flatten stream
  cli_stream := single_flatten stream
  readline := single_readline stream

/-- A piece that reads as a reply can be read whole. -/
theorem cli_piece {stream piece : Bytes} (h : piece <:+: stream)
    (hline : newline ∉ piece.dropLast) :
    ∃ pieces : List Bytes, pieces.flatten = stream ∧ (∀ p ∈ pieces, newline ∉ p.dropLast) ∧
      piece ∈ pieces := by
  rcases h with ⟨before, after, hstream⟩
  refine ⟨single before ++ [piece] ++ single after, by simp [← hstream], ?_, by simp⟩
  intro p hp
  rcases List.mem_append.mp hp with hp | hp
  · rcases List.mem_append.mp hp with hp | hp
    · exact single_readline before p hp
    · rw [List.mem_singleton.mp hp]
      exact hline
  · exact single_readline after p hp

theorem piece_infix {pieces : List Bytes} {piece : Bytes} (h : piece ∈ pieces) :
    piece <:+: pieces.flatten := by
  rcases List.append_of_mem h with ⟨before, after, rfl⟩
  exact ⟨before.flatten, after.flatten, by simp⟩

/-! ## When the readers agree -/

/-- However a stream arrives, nobody gets anything if the readers always agree: in single
bytes the one-shot client gets nothing. -/
theorem Agree.empty {stream : Bytes} (h : ∀ a : Arrival stream, Agree a) (a : Arrival stream) :
    guiReplies a.gui = [] ∧ sessionReplies a.session = [] ∧ cliReplies a.cli = [] := by
  have hcut : guiReplies a.gui = [] := by
    have hsingle := (h { a with
      cli := single stream, cli_stream := single_flatten stream
      readline := single_readline stream }).cli
    have hsame : cliReplies (single stream) = (guiReplies a.gui).map .object := hsingle
    rw [cliReplies_single] at hsame
    simpa using hsame.symm
  have hagree := h a
  refine ⟨hcut, ?_, ?_⟩
  · rw [hagree.session, hcut]
    rfl
  · rw [hagree.cli, hcut]
    rfl

theorem silent_of_agree {stream : Bytes} (h : ∀ a : Arrival stream, Agree a) : Silent stream where
  gui := by
    intro raw hraw
    rcases hraw.feeds with ⟨chunks, hchunks, hmem⟩
    have hempty := (Agree.empty h { bytewise stream with gui := chunks, gui_stream := hchunks }).1
    exact parseReply_eq_none.mp (List.filterMap_eq_nil_iff.mp hempty _ hmem)
  session := by
    intro raw hraw
    rcases hraw.feeds with ⟨chunks, hchunks, hmem⟩
    have hempty := (Agree.empty h
      { bytewise stream with session := chunks, session_stream := hchunks }).2.1
    have hreplies : sessionReplies chunks = [] := hempty
    rw [sessionReplies_eq] at hreplies
    exact sessionReply_eq_none.mp (List.filterMap_eq_nil_iff.mp hreplies _ hmem)
  cli := by
    intro piece hpiece hline
    rcases cli_piece hpiece hline with ⟨pieces, hpieces, hreadline, hmem⟩
    have hempty := (Agree.empty h
      { bytewise stream with cli := pieces, cli_stream := hpieces, readline := hreadline }).2.2
    exact cliReply_eq_none.mp (List.filterMap_eq_nil_iff.mp hempty _ hmem)

theorem agree_of_silent {stream : Bytes} (h : Silent stream) (a : Arrival stream) : Agree a := by
  have hgui : guiReplies a.gui = [] := by
    apply List.filterMap_eq_nil_iff.mpr
    intro line hline
    rcases new_feeds_seen a.gui_stream line hline with ⟨raw, hraw, rfl⟩
    exact parseReply_eq_none.mpr (h.gui raw hraw)
  have hsession : sessionReplies a.session = [] := by
    rw [sessionReplies_eq]
    apply List.filterMap_eq_nil_iff.mpr
    intro line hline
    rcases new_feeds_seen a.session_stream line hline with ⟨raw, hraw, rfl⟩
    exact sessionReply_eq_none.mpr (h.session raw hraw)
  have hcli : cliReplies a.cli = [] := by
    apply List.filterMap_eq_nil_iff.mpr
    intro piece hpiece
    have hinfix := piece_infix hpiece
    rw [a.cli_stream] at hinfix
    exact cliReply_eq_none.mpr (h.cli piece hinfix (a.readline piece hpiece))
  constructor
  · rw [hsession, hgui]
    rfl
  · rw [hcli, hgui]
    rfl
  · rw [hsession, hcli]
    intro v hv
    cases hv

/-- A stream that arrives in whole lines gives the three readers the same exactly when
each line is a reply from its start to its end, or nothing to any of them. However it
arrives, it does so exactly when there is nothing in it. -/
theorem clients_agree_iff (stream : Bytes) :
    (∀ a : Arrival stream, a.Framed →
      (Agree a ↔ ∀ raw ∈ Lines.closed newline stream,
        Answers (decodeLine raw) ∨ Noise (decodeLine raw))) ∧
    ((∀ a : Arrival stream, Agree a) ↔ Silent stream) :=
  ⟨fun _ h => h.agree_iff, silent_of_agree, fun h a => agree_of_silent h a⟩

def plainLines : List Bytes := [ascii "I (123) NFC TX type=2A", printAnswer unloadedAnswer]

def plainStream : Bytes := plainLines.flatMap (· ++ [newline])

theorem plainLines_free : ∀ line ∈ plainLines, newline ∉ line := by decide +kernel

/-- The two decoders read across the line end, the one-shot client line by line. -/
def plainArrival : Arrival plainStream where
  gui := [plainStream.take 40, plainStream.drop 40]
  session := [plainStream.take 7, plainStream.drop 7]
  cli := [] :: plainLines.map (· ++ [newline])
  gui_stream := by simp
  session_stream := by simp
  cli_stream := by simp [plainStream, List.flatMap_def]
  readline := by simpa using plainLines_free

theorem clients_agree_iff_plain :
    Agree plainArrival ∧ guiReplies plainArrival.gui = [answerDict unloadedAnswer] := by
  have hcut := Lines.closed_flatMap newline plainLines_free
  have hclosed : Lines.closed newline plainStream = plainLines := hcut.1
  have hbounded : Bounded plainStream := by
    refine ⟨?_, ?_⟩
    · rw [hclosed]
      decide +kernel
    · rw [plainStream, hcut.2]
      decide
  have hframed : plainArrival.Framed := framed_of_bounded hbounded (by simp [plainArrival])
  have hlog : Noise (decodeLine (ascii "I (123) NFC TX type=2A")) :=
    noise_of_unmarked (by decide +kernel)
  have hanswer : decodeLine (printAnswer unloadedAnswer) = decode (printAnswer unloadedAnswer) := by
    decide +kernel
  have hprintable : unloadedAnswer.Printable := ⟨by decide, by decide⟩
  have hlines : ∀ raw ∈ Lines.closed newline plainStream,
      Answers (decodeLine raw) ∨ Noise (decodeLine raw) := by
    rw [hclosed]
    intro raw hraw
    rcases List.mem_cons.mp hraw with rfl | hraw
    · exact .inr hlog
    · rw [List.mem_singleton.mp hraw, hanswer]
      exact .inl (answers_printed hprintable)
  have hempty : ¬ mark <:+: [] := by decide
  have hread := parseReply_answerDict hprintable hempty []
  rw [List.nil_append, List.append_nil] at hread
  refine ⟨((clients_agree_iff plainStream).1 plainArrival hframed).mpr hlines, ?_⟩
  rw [hframed.replies.1, hclosed]
  simp [plainLines, hanswer, hread, parseReply_eq_none.mpr hlog.object]

/-! ## A shared line -/

def sharedLine : Bytes :=
  ascii "I (123) LOG: @PC \x7b\"id\":7,\"ok\":true,\"connected\":true,\"loaded\":false\x7dextra log\n"

def sharedArrival : Arrival sharedLine where
  gui := [sharedLine]
  session := [sharedLine]
  cli := [sharedLine]
  gui_stream := List.append_nil _
  session_stream := List.append_nil _
  cli_stream := List.append_nil _
  readline := by
    intro piece hpiece
    rw [List.mem_singleton.mp hpiece]
    decide +kernel

/-- The window obtains the reply and the two others get nothing. -/
theorem sharedArrival_disagree :
    (guiReplies sharedArrival.gui).length = 1 ∧ (sessionReplies sharedArrival.session).length = 0 ∧
      (cliReplies sharedArrival.cli).length = 0 ∧ ¬ Agree sharedArrival := by
  have hgui : (guiReplies sharedArrival.gui).length = 1 := by
    simp only [guiReplies, sharedArrival, LineDecoder.feeds, LineDecoder.feed, takeLines_eq]
    decide +kernel
  have hsession : (sessionReplies sharedArrival.session).length = 0 := by
    simp only [sessionReplies_eq, sharedArrival, LineDecoder.feeds, LineDecoder.feed, takeLines_eq]
    decide +kernel
  have hcli : (cliReplies sharedArrival.cli).length = 0 := by
    unfold cliReplies sharedArrival
    decide +kernel
  refine ⟨hgui, hsession, hcli, ?_⟩
  intro hagree
  have hlen := congrArg List.length hagree.session
  rw [List.length_map, hgui, hsession] at hlen
  cases hlen

end SwitchController.Host
