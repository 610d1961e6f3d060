import Metering.Proofs.FrameStreams

/-!
What a reader of frames makes of any bytes at all.

A stream of frames spells its messages one after another (`Spells`). Any other stream has some
whole frames at its head and something behind them that is no frame, and the reader takes the
messages of the whole frames and ends as that rest has it (`EndsAs`). Too few bytes for a length
count as the end of the stream. So a stream that is cut inside a length ends like one that was
closed between two frames, and it is the only kind of cut that does.

Results:
1. `Frame.readAll_eq_iff`: the messages and the end of every stream, by its bytes alone.
2. `Frame.send_eq`, `Frame.spells_sent`: a message that is too long leaves the stream as it was.
3. `Frame.streams_read_back`: what is written is read back, and cut data is not.
4. `Frame.closed_iff`: which streams end as if they had been closed between two frames, and
   `Frame.cut_length_taken_for_close`: not all of them were.
-/
namespace Metering.Frame

/-! ## 1. The grammar -/

/-- The bytes that spell a list of messages: each stands behind its length in four bytes, most
significant first, and none is longer than the limit. -/
inductive Spells : List Bytes → Bytes → Prop
  | nil : Spells [] []
  | cons {message head rest : Bytes} {messages : List Bytes} :
      head.length = lengthWidth → Bytes.toNatBig head = message.length →
      message.length ≤ maxMessageSize → Spells messages rest →
      Spells (message :: messages) (head ++ message ++ rest)

/-- How the reader ends on bytes at whose head no frame stands. -/
inductive EndsAs (rest : Bytes) : StreamEnd → Prop
  /-- Too few bytes for a length. -/
  | closed : rest.length < lengthWidth → EndsAs rest .closed
  /-- A length above the limit, whatever follows it. -/
  | tooLarge : lengthWidth ≤ rest.length → maxMessageSize < announced rest →
      EndsAs rest (.fault ⟨.invalidResponse, .messageTooLarge (announced rest)⟩)
  /-- Fewer bytes than were announced. -/
  | cutShort : lengthWidth ≤ rest.length → announced rest ≤ maxMessageSize →
      rest.length < lengthWidth + announced rest → EndsAs rest (.fault ⟨.connection, .frameCutShort⟩)

/-- The head of a frame is the length of its message. -/
theorem framed_of_head {head message : Bytes} (hwidth : head.length = lengthWidth)
    (hlength : Bytes.toNatBig head = message.length) : head ++ message = framed message := by
  have hround := Bytes.ofNatBig_toNatBig head
  rw [hwidth, hlength] at hround
  rw [framed, hround]

theorem spells_cons {message rest : Bytes} {messages : List Bytes}
    (hshort : message.length ≤ maxMessageSize) (h : Spells messages rest) :
    Spells (message :: messages) (framed message ++ rest) := by
  have hlength := announced_framed hshort []
  rw [announced, List.append_nil, framed, List.take_append_of_le_length (by simp),
    List.take_of_length_le (by simp)] at hlength
  exact .cons (Bytes.length_ofNatBig _ _) hlength hshort h

/-- The grammar is what framing produces. -/
theorem spells_iff {messages : List Bytes} {b : Bytes} :
    Spells messages b ↔
      (∀ m ∈ messages, m.length ≤ maxMessageSize) ∧ b = messages.flatMap framed := by
  constructor
  · intro h
    induction h with
    | nil => exact ⟨by simp, rfl⟩
    | cons hwidth hlength hshort _ ih =>
      obtain ⟨hall, rfl⟩ := ih
      refine ⟨List.forall_mem_cons.mpr ⟨hshort, hall⟩, ?_⟩
      rw [framed_of_head hwidth hlength, List.flatMap_cons]
  · rintro ⟨hall, rfl⟩
    induction messages with
    | nil => exact .nil
    | cons m ms ih =>
      obtain ⟨hm, hms⟩ := List.forall_mem_cons.mp hall
      exact spells_cons hm (ih hms)

theorem spells_append {messages others : List Bytes} {b c : Bytes} (h : Spells messages b)
    (h' : Spells others c) : Spells (messages ++ others) (b ++ c) := by
  obtain ⟨hall, rfl⟩ := spells_iff.mp h
  obtain ⟨hall', rfl⟩ := spells_iff.mp h'
  refine spells_iff.mpr ⟨fun m hm => ?_, List.flatMap_append.symm⟩
  exact (List.mem_append.mp hm).elim (hall m) (hall' m)

/-- On a rest at whose head no frame stands, the reader ends at once. -/
theorem EndsAs.readAll {ps : Pieces} {ending : StreamEnd} (h : EndsAs ps.flatten ending) :
    Frame.readAll ps = ([], ending) := by
  cases h with
  | closed hfew =>
    exact readAll_of_ended ((Head.ended hfew).stuck (read_cases ps) fun _ _ h => nomatch h)
  | tooLarge henough hlarge =>
    exact readAll_of_fault
      ((Head.tooLarge henough hlarge).stuck (read_cases ps) fun _ _ h => nomatch h)
  | cutShort henough hsmall hfew =>
    exact readAll_of_fault
      ((Head.cutShort henough hsmall hfew).stuck (read_cases ps) fun _ _ h => nomatch h)

/-- The messages of the whole frames at the head of a stream come first. -/
theorem Spells.readAll {messages : List Bytes} {whole rest : Bytes} {ending : StreamEnd}
    (h : Spells messages whole) (hends : EndsAs rest ending) {ps : Pieces}
    (hps : ps.flatten = whole ++ rest) : Frame.readAll ps = (messages, ending) := by
  obtain ⟨hall, rfl⟩ := spells_iff.mp h
  obtain ⟨left, rfl, hread⟩ := readAll_framed hall hps
  rw [hread, hends.readAll, List.append_nil]

/-- A stream of whole frames is read to its end. -/
theorem Spells.readAll_closed {messages : List Bytes} {ps : Pieces}
    (h : Spells messages ps.flatten) : Frame.readAll ps = (messages, .closed) :=
  h.readAll (.closed (by decide)) (List.append_nil _).symm

/-- Every stream has whole frames at its head and a rest on which the reader ends. -/
theorem exists_spells (ps : Pieces) :
    ∃ whole rest, Spells (readAll ps).1 whole ∧ ps.flatten = whole ++ rest ∧
      EndsAs rest (readAll ps).2 := by
  induction ps using readAll.induct with
  | case1 ps hread =>
    have hhead := read_cases ps
    rw [hread] at hhead
    rw [readAll_of_ended hread]
    cases hhead with
    | ended hfew => exact ⟨[], ps.flatten, .nil, rfl, .closed hfew⟩
  | case2 ps f hread =>
    have hhead := read_cases ps
    rw [hread] at hhead
    rw [readAll_of_fault hread]
    cases hhead with
    | tooLarge henough hlarge => exact ⟨[], ps.flatten, .nil, rfl, .tooLarge henough hlarge⟩
    | cutShort henough hsmall hfew =>
      exact ⟨[], ps.flatten, .nil, rfl, .cutShort henough hsmall hfew⟩
  | case3 ps message left hread _ _ _ ih =>
    have hhead := read_cases ps
    rw [hread] at hhead
    rw [readAll_of_frame hread]
    cases hhead with
    | frame hshort hbytes =>
      obtain ⟨whole, rest, hwhole, hsplit, hends⟩ := ih
      refine ⟨framed message ++ whole, rest, spells_cons hshort hwhole, ?_, hends⟩
      rw [hbytes, hsplit, List.append_assoc]

/-- The bytes of a stream settle which messages are read and how the reader ends, and nothing but
its whole frames and the rest behind them does. -/
theorem readAll_eq_iff {ps : Pieces} {messages : List Bytes} {ending : StreamEnd} :
    readAll ps = (messages, ending) ↔
      ∃ whole rest, Spells messages whole ∧ ps.flatten = whole ++ rest ∧ EndsAs rest ending := by
  constructor
  · intro h
    have hspells := exists_spells ps
    rwa [h] at hspells
  · rintro ⟨whole, rest, hwhole, hsplit, hends⟩
    exact hwhole.readAll hends hsplit

/-! ## 2. Writing on a stream -/

/-- Puts bytes behind those that a stream holds. -/
def put (bytes : Bytes) : ExceptT Failure (StateM Bytes) Unit := modify (· ++ bytes)

/-- Writes a message on a stream: its length is checked before the first byte goes out. -/
def send (message : Bytes) : ExceptT Failure (StateM Bytes) Unit := do
  if maxMessageSize < message.length then
    throw ⟨.transport, .messageTooLarge message.length⟩
  put (Bytes.ofNatBig lengthWidth message.length)
  put message

/-- The bytes on a stream after a row of messages was written on it, whatever became of each. -/
def sent (messages : List Bytes) (held : Bytes) : Bytes :=
  messages.foldl (fun held m => (send m held).2) held

/-- Either the whole frame goes out or nothing does. -/
theorem send_eq (message held : Bytes) :
    send message held =
      match write message with
      | .ok frame => (.ok (), held ++ frame)
      | .error f => (.error f, held) := by
  unfold send write
  by_cases hlong : maxMessageSize < message.length
  · rw [if_pos hlong, if_pos hlong]
    rfl
  · rw [if_neg hlong, if_neg hlong]
    show (Except.ok (), (held ++ Bytes.ofNatBig lengthWidth message.length) ++ message) = _
    rw [List.append_assoc]

theorem send_of_long {message : Bytes} (h : maxMessageSize < message.length) (held : Bytes) :
    send message held = (.error ⟨.transport, .messageTooLarge message.length⟩, held) := by
  rw [send_eq, write, if_pos h]

theorem send_of_short {message : Bytes} (h : message.length ≤ maxMessageSize) (held : Bytes) :
    send message held = (.ok (), held ++ framed message) := by
  rw [send_eq, write_of_short h]

/-- A stream on which messages were written spells those of them that are not too long. -/
theorem spells_sent {messages : List Bytes} {held : Bytes} (h : Spells messages held)
    (more : List Bytes) :
    Spells (messages ++ more.filter (·.length ≤ maxMessageSize)) (sent more held) := by
  induction more generalizing messages held with
  | nil => rwa [List.filter_nil, List.append_nil]
  | cons m more ih =>
    show Spells _ (sent more (send m held).2)
    by_cases hm : m.length ≤ maxMessageSize
    · have hone : Spells [m] (framed m) := by simpa using spells_cons hm .nil
      rw [send_of_short hm, List.filter_cons_of_pos (by simpa using hm), List.append_cons]
      exact ih (spells_append h hone)
    · rw [send_of_long (Nat.lt_of_not_le hm), List.filter_cons_of_neg (by simpa using hm)]
      exact ih h

/-! ## 3. What is written and read back -/

theorem mapM_write {messages : List Bytes} (h : ∀ m ∈ messages, m.length ≤ maxMessageSize) :
    messages.mapM write = .ok (messages.map framed) := by
  induction messages with
  | nil => rfl
  | cons m ms ih =>
    obtain ⟨hm, hms⟩ := List.forall_mem_cons.mp h
    rw [List.mapM_cons, write_of_short hm, ih hms]
    rfl

/-- A frame of which the length arrived, but not all of it, is cut short. -/
theorem endsAs_cut {message : Bytes} (hshort : message.length ≤ maxMessageSize) {count : Nat}
    (henough : lengthWidth ≤ count) (hcut : count < (framed message).length) :
    EndsAs ((framed message).take count) (.fault ⟨.connection, .frameCutShort⟩) := by
  have hcount : ((framed message).take count).length = count := by
    rw [List.length_take, Nat.min_eq_left (Nat.le_of_lt hcut)]
  have hannounced : announced ((framed message).take count) = message.length := by
    rw [← announced_framed hshort [], List.append_nil, announced, announced, List.take_take,
      Nat.min_eq_left henough]
  refine .cutShort (by rwa [hcount]) (by rwa [hannounced]) ?_
  rwa [hcount, hannounced, ← length_framed]

theorem Spells.readAll_cut {messages : List Bytes} {whole last : Bytes} {count : Nat} {ps : Pieces}
    (h : Spells messages whole) (hlast : last.length ≤ maxMessageSize)
    (henough : lengthWidth ≤ count) (hcut : count < (framed last).length)
    (hps : ps.flatten = whole ++ (framed last).take count) :
    Frame.readAll ps = (messages, .fault ⟨.connection, .frameCutShort⟩) :=
  h.readAll (endsAs_cut hlast henough hcut) hps

/-- A stream of frames carries its messages, wherever it is cut into pieces.

* Messages within the limit are written, and they are read back from their frames in order; then
  the stream is closed.
* A last frame of which at least the length arrived, but not all of it, is a fault behind them.
* A message above the limit is refused, and of its frame nothing is on the stream.
* So whatever is written on a stream, it can be read: the messages within the limit are there. -/
theorem streams_read_back :
    (∀ messages : List Bytes, (∀ m ∈ messages, m.length ≤ maxMessageSize) →
      ∃ frames, messages.mapM write = .ok frames ∧
        (∀ ps : Pieces, ps.flatten = frames.flatten → readAll ps = (messages, .closed)) ∧
        ∀ last frame count, write last = .ok frame → lengthWidth ≤ count → count < frame.length →
          ∀ ps : Pieces, ps.flatten = frames.flatten ++ frame.take count →
            readAll ps = (messages, .fault ⟨.connection, .frameCutShort⟩)) ∧
    (∀ (message held : Bytes), maxMessageSize < message.length →
      write message = .error ⟨.transport, .messageTooLarge message.length⟩ ∧
        send message held = (.error ⟨.transport, .messageTooLarge message.length⟩, held)) ∧
    ∀ (messages : List Bytes) (ps : Pieces), ps.flatten = sent messages [] →
      readAll ps = (messages.filter (·.length ≤ maxMessageSize), .closed) := by
  refine ⟨?_, ?_, ?_⟩
  · intro messages hshort
    have hspells : Spells messages (messages.map framed).flatten :=
      spells_iff.mpr ⟨hshort, List.flatMap_def.symm⟩
    refine ⟨messages.map framed, mapM_write hshort, ?_, ?_⟩
    · intro ps hps
      exact (hps ▸ hspells).readAll_closed
    · intro last frame count hwrite henough hcut ps hps
      obtain ⟨hlast, rfl⟩ := short_of_write hwrite
      exact hspells.readAll_cut hlast henough hcut hps
  · intro message held hlong
    exact ⟨if_pos hlong, send_of_long hlong held⟩
  · intro messages ps hps
    have hspells := spells_sent .nil messages
    rw [List.nil_append] at hspells
    exact (hps ▸ hspells).readAll_closed

/-- An empty message and one of three bytes, in pieces of two bytes, and a third one cut in its
data; and a message that is too long between two others. -/
theorem streams_read_back_cut :
    let frames : List Bytes := [[0, 0, 0, 0], [0, 0, 0, 3, 7, 8, 9]]
    let cut : Pieces := [[0, 0], [0, 0], [0, 0], [0, 3], [7, 8], [9, 0], [0, 0], [2, 5]]
    let long : Bytes := List.replicate (maxMessageSize + 1) 0
    ([[], [7, 8, 9]].mapM write = .ok frames ∧ write [5, 6] = .ok [0, 0, 0, 2, 5, 6] ∧
      cut.flatten = frames.flatten ++ [0, 0, 0, 2, 5] ∧
      readAll cut = ([[], [7, 8, 9]], .fault ⟨.connection, .frameCutShort⟩)) ∧
    (maxMessageSize < long.length ∧ (send long [0, 0, 0, 0]).2 = [0, 0, 0, 0]) ∧
    readAll [sent [[], long, [7]] []] = ([[], [7]], .closed) := by
  intro frames cut long
  have hframes : [[], [7, 8, 9]].mapM write = .ok frames := rfl
  have hlast : write [5, 6] = .ok [0, 0, 0, 2, 5, 6] := rfl
  have hlong : maxMessageSize < long.length := by simp [long]
  refine ⟨⟨hframes, hlast, rfl, ?_⟩, ⟨hlong, ?_⟩, ?_⟩
  · obtain ⟨frames', hframes', -, hcut⟩ := streams_read_back.1 [[], [7, 8, 9]] (by decide)
    obtain rfl := Except.ok.inj (hframes.symm.trans hframes')
    exact hcut [5, 6] _ 5 hlast (by decide) (by decide) cut rfl
  · rw [(streams_read_back.2.1 long [0, 0, 0, 0] hlong).2]
  · have hfilter : [[], long, [7]].filter (·.length ≤ maxMessageSize) = [[], [7]] := by
      rw [List.filter_cons_of_pos (by decide),
        List.filter_cons_of_neg (by simpa using Nat.not_le.mpr hlong)]
      rfl
    rw [streams_read_back.2.2 [[], long, [7]] [_] (List.append_nil _), hfilter]

/-! ## 4. How a stream ends -/

/-- A stream that ends inside the length of a frame, behind whole frames. -/
def EndsInLength (b : Bytes) : Prop :=
  ∃ messages whole rest, Spells messages whole ∧ b = whole ++ rest ∧ rest ≠ [] ∧
    rest.length < lengthWidth

/-- How the reading of a stream ends, for every stream.

* It ends as at a close between two frames if the stream is whole frames and nothing else, and also
  if it ends inside a length; on no other stream.
* A stream that is cut behind a length, inside the data or before it, ends in a fault.
* A stream that announces a message above the limit ends in a fault, whatever follows. -/
theorem closed_iff (ps : Pieces) :
    ((readAll ps).2 = .closed ↔
      (∃ messages, Spells messages ps.flatten) ∨ EndsInLength ps.flatten) ∧
    (∀ messages whole message count, Spells messages whole → message.length ≤ maxMessageSize →
      lengthWidth ≤ count → count < (framed message).length →
      ps.flatten = whole ++ (framed message).take count →
      readAll ps = (messages, .fault ⟨.connection, .frameCutShort⟩)) ∧
    (∀ messages whole rest, Spells messages whole → lengthWidth ≤ rest.length →
      maxMessageSize < announced rest → ps.flatten = whole ++ rest →
      readAll ps = (messages, .fault ⟨.invalidResponse, .messageTooLarge (announced rest)⟩)) := by
  refine ⟨⟨?_, ?_⟩, ?_, ?_⟩
  · intro hclosed
    obtain ⟨whole, rest, hwhole, hsplit, hends⟩ := exists_spells ps
    rw [hclosed] at hends
    cases hends with
    | closed hfew =>
      rcases List.eq_nil_or_concat rest with rfl | ⟨_, _, hrest⟩
      · rw [List.append_nil] at hsplit
        exact .inl ⟨_, hsplit ▸ hwhole⟩
      · exact .inr ⟨_, whole, rest, hwhole, hsplit, by simp [hrest], hfew⟩
  · rintro (⟨messages, hwhole⟩ | ⟨messages, whole, rest, hwhole, hsplit, -, hfew⟩)
    · rw [hwhole.readAll_closed]
    · rw [hwhole.readAll (.closed hfew) hsplit]
  · intro messages whole message count hwhole hshort henough hcut hsplit
    exact hwhole.readAll_cut hshort henough hcut hsplit
  · intro messages whole rest hwhole henough hlarge hsplit
    exact hwhole.readAll (.tooLarge henough hlarge) hsplit

/-- A message of one byte, and behind it a frame that is cut in its data; or a length that is above
the limit. -/
theorem closed_iff_cut_or_too_large :
    let cut : Pieces := [[0, 0, 0, 1, 7, 0], [0, 0, 2, 5]]
    let large : Pieces := [[0, 0, 0, 1, 7, 0xff], [0xff, 0xff, 0xff, 1]]
    Spells [[7]] [0, 0, 0, 1, 7] ∧ framed [5, 6] = [0, 0, 0, 2, 5, 6] ∧
      readAll cut = ([[7]], .fault ⟨.connection, .frameCutShort⟩) ∧
      maxMessageSize < announced [0xff, 0xff, 0xff, 0xff, 1] ∧
      readAll large = ([[7]], .fault ⟨.invalidResponse, .messageTooLarge 0xffffffff⟩) := by
  intro cut large
  have hone : Spells [[7]] [0, 0, 0, 1, 7] := spells_iff.mpr ⟨by decide, rfl⟩
  have hlarge : maxMessageSize < announced [0xff, 0xff, 0xff, 0xff, 1] := by decide
  refine ⟨hone, rfl, ?_, hlarge, ?_⟩
  · exact (closed_iff cut).2.1 _ _ [5, 6] 5 hone (by decide) (by decide) (by decide) rfl
  · exact (closed_iff large).2.2 _ _ _ hone (by decide) hlarge rfl

/-- A message of one byte, and behind it a length of which the last byte is missing. -/
theorem cut_length_taken_for_close :
    let ps : Pieces := [[0, 0, 0, 1, 7, 0, 0, 0]]
    readAll ps = ([[7]], .closed) ∧ ¬ ∃ messages, Spells messages ps.flatten := by
  intro ps
  have hone : Spells [[7]] [0, 0, 0, 1, 7] := spells_iff.mpr ⟨by decide, rfl⟩
  have hfew : EndsAs [0, 0, 0] .closed := .closed (by decide)
  have hread : readAll ps = ([[7]], .closed) := hone.readAll hfew rfl
  refine ⟨hread, fun ⟨messages, hwhole⟩ => ?_⟩
  -- A whole stream is read to its end, so these messages are the one that was read.
  obtain ⟨rfl, -⟩ := Prod.mk.inj (hread.symm.trans hwhole.readAll_closed)
  exact absurd (spells_iff.mp hwhole).2 (by decide)

end Metering.Frame
