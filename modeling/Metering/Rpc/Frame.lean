import Metering.Failure.Basic

/-!
Frames: messages behind their length in four bytes, most significant first.

A stream arrives in pieces, and where it is cut does not matter (`pull_eq`). The end of the
stream inside the four bytes of a length counts as its end between two frames; inside the data of
a frame it is a fault. A length above the limit is refused before any data is read.
-/
namespace Metering

/-- A stream in the pieces in which it arrives. -/
abbrev Pieces := List Bytes

namespace Pieces

/-- Takes up to `count` bytes off the head of a stream. -/
def pull : Nat → Pieces → Bytes × Pieces
  | _, [] => ([], [])
  | count, p :: ps =>
    match p.drop count with
    | b :: rest => (p.take count, (b :: rest) :: ps)
    | [] =>
      if count = p.length then (p, ps)
      else
        let (more, left) := pull (count - p.length) ps
        (p ++ more, left)

theorem pull_eq (count : Nat) (ps : Pieces) :
    (pull count ps).1 = ps.flatten.take count ∧
      (pull count ps).2.flatten = ps.flatten.drop count := by
  induction ps generalizing count with
  | nil => simp [pull]
  | cons p ps ih =>
    simp only [pull]
    split
    · rename_i b rest h
      have hle : count ≤ p.length := by
        have := congrArg List.length h
        rw [List.length_drop, List.length_cons] at this
        omega
      simp [List.take_append_of_le_length hle, List.drop_append_of_le_length hle, h]
    · rename_i h
      have hlt : p.length ≤ count := List.drop_eq_nil_iff.1 h
      split
      · rename_i heq
        simp [heq]
      obtain ⟨h1, h2⟩ := ih (count - p.length)
      simp only [h1, h2, List.flatten_cons, List.take_append, List.drop_append]
      simp [List.take_of_length_le hlt, List.drop_of_length_le hlt]

end Pieces

/-- What stands at the head of a stream of frames. -/
inductive FrameRead
  | ended
  | frame (message : Bytes) (left : Pieces)
  | fault (f : Failure)
deriving DecidableEq, Repr

namespace Frame

/-- The bytes of a length. -/
def lengthWidth : Nat := 4

/-- A message with its length in front, where it is short enough. -/
def framed (message : Bytes) : Bytes := Bytes.ofNatBig lengthWidth message.length ++ message

/-- A message with its length in front. -/
def write (message : Bytes) : Except Failure Bytes :=
  if maxMessageSize < message.length then
    .error ⟨.transport, .messageTooLarge message.length⟩
  else .ok (Bytes.ofNatBig lengthWidth message.length ++ message)

/-- The frame at the head of a stream. -/
def read (ps : Pieces) : FrameRead :=
  let (head, ps) := ps.pull lengthWidth
  if head.length < lengthWidth then .ended
  else
    let length := Bytes.toNatBig head
    if maxMessageSize < length then .fault ⟨.invalidResponse, .messageTooLarge length⟩
    else
      let (message, ps) := ps.pull length
      if message.length < length then .fault ⟨.connection, .frameCutShort⟩
      else .frame message ps

/-- How a stream of frames ended. -/
inductive StreamEnd
  | closed
  | fault (f : Failure)
deriving DecidableEq, Repr

theorem length_left {ps left : Pieces} {message : Bytes} (h : read ps = .frame message left) :
    left.flatten.length + lengthWidth ≤ ps.flatten.length := by
  unfold read at h
  obtain ⟨h1, h2⟩ := Pieces.pull_eq lengthWidth ps
  generalize ps.pull lengthWidth = p at h h1 h2
  obtain ⟨head, ps'⟩ := p
  dsimp only at h h1 h2
  split at h
  · simp at h
  · rename_i hlen
    split at h
    · simp at h
    · obtain ⟨-, h4⟩ := Pieces.pull_eq (Bytes.toNatBig head) ps'
      generalize ps'.pull (Bytes.toNatBig head) = q at h h4
      obtain ⟨m, ps''⟩ := q
      dsimp only at h h4
      split at h
      · simp at h
      · simp only [FrameRead.frame.injEq] at h
        obtain ⟨-, rfl⟩ := h
        rw [h4, List.length_drop, h2, List.length_drop]
        rw [h1, List.length_take] at hlen
        omega

/-- All messages of a stream, and how it ended. -/
def readAll (ps : Pieces) : List Bytes × StreamEnd :=
  match _h : read ps with
  | .ended => ([], .closed)
  | .fault f => ([], .fault f)
  | .frame message left =>
    let (more, ending) := readAll left
    (message :: more, ending)
termination_by ps.flatten.length
decreasing_by
  have := length_left _h
  simp only [lengthWidth] at this
  omega

theorem readAll_of_ended {ps : Pieces} (h : read ps = .ended) : readAll ps = ([], .closed) := by
  rw [readAll]; split <;> simp_all

theorem readAll_of_fault {ps : Pieces} {f : Failure} (h : read ps = .fault f) :
    readAll ps = ([], .fault f) := by
  rw [readAll]; split <;> simp_all

theorem readAll_of_frame {ps left : Pieces} {message : Bytes}
    (h : read ps = .frame message left) :
    readAll ps = (message :: (readAll left).1, (readAll left).2) := by
  rw [readAll]; split <;> simp_all

end Frame
end Metering
