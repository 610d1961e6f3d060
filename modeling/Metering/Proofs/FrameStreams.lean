import Metering.Rpc.Frame

/-!
Frames as bytes, wherever the stream is cut.

Results:
1. `Frame.read_cases`, `Frame.Head.stuck`: what stands at the head of a stream, by its bytes alone.
2. `Frame.read_framed`, `Frame.readAll_framed`, `Frame.readAll_whole`: framed messages are read
   back, with any bytes behind them or none.
3. `Frame.prefix_of_framed`: framed messages can be told apart by their bytes.
-/
namespace Metering

namespace Frame

theorem length_framed (message : Bytes) :
    (framed message).length = lengthWidth + message.length := by
  rw [framed, List.length_append, Bytes.length_ofNatBig]

theorem write_of_short {message : Bytes} (h : message.length ≤ maxMessageSize) :
    write message = .ok (framed message) := by
  rw [write, if_neg (Nat.not_lt.mpr h)]
  rfl

theorem short_of_write {message bytes : Bytes} (h : write message = .ok bytes) :
    message.length ≤ maxMessageSize ∧ bytes = framed message := by
  unfold write at h
  split at h
  next => cases h
  next hle => exact ⟨Nat.not_lt.mp hle, (Except.ok.inj h).symm⟩

/-- The length that the first bytes of a stream announce. -/
def announced (b : Bytes) : Nat := Bytes.toNatBig (b.take lengthWidth)

theorem announced_framed {message : Bytes} (h : message.length ≤ maxMessageSize) (rest : Bytes) :
    announced (framed message ++ rest) = message.length := by
  have hfit : message.length < Nat.pow 256 lengthWidth := by
    have hmax : maxMessageSize < Nat.pow 256 lengthWidth := by decide
    exact Nat.lt_of_le_of_lt h hmax
  have htake : (framed message ++ rest).take lengthWidth =
      Bytes.ofNatBig lengthWidth message.length := by
    rw [framed, List.append_assoc, List.take_append_of_le_length (by simp),
      List.take_of_length_le (by simp)]
  rw [announced, htake, Bytes.toNatBig_ofNatBig hfit]

/-- What can stand at the head of a stream of the given bytes. -/
inductive Head (b : Bytes) : FrameRead → Prop
  /-- Too few bytes for a length. -/
  | ended : b.length < lengthWidth → Head b .ended
  /-- A length above the limit. -/
  | tooLarge : lengthWidth ≤ b.length → maxMessageSize < announced b →
    Head b (.fault ⟨.invalidResponse, .messageTooLarge (announced b)⟩)
  /-- Fewer bytes than were announced. -/
  | cutShort : lengthWidth ≤ b.length → announced b ≤ maxMessageSize →
    b.length < lengthWidth + announced b → Head b (.fault ⟨.connection, .frameCutShort⟩)
  /-- A whole frame. -/
  | frame {message : Bytes} {left : Pieces} : message.length ≤ maxMessageSize →
    b = framed message ++ left.flatten → Head b (.frame message left)

/-- The bytes of a stream say what stands at its head, and not where it is cut. -/
theorem read_cases (ps : Pieces) : Head ps.flatten (read ps) := by
  unfold read
  obtain ⟨hhead, hrest⟩ := Pieces.pull_eq lengthWidth ps
  generalize ps.pull lengthWidth = p at hhead hrest
  obtain ⟨head, ps'⟩ := p
  dsimp only at hhead hrest ⊢
  have hlength : head.length = min lengthWidth ps.flatten.length := by
    rw [hhead, List.length_take]
  have hspelled : Bytes.toNatBig head = announced ps.flatten := by rw [hhead]; rfl
  split
  next hlt => exact .ended (by omega)
  next hge =>
    have henough : lengthWidth ≤ ps.flatten.length := by omega
    rw [hspelled]
    split
    next hlarge => exact .tooLarge henough hlarge
    next hsmall =>
      obtain ⟨hmessage, hleft⟩ := Pieces.pull_eq (announced ps.flatten) ps'
      generalize ps'.pull (announced ps.flatten) = q at hmessage hleft
      obtain ⟨message, left⟩ := q
      dsimp only at hmessage hleft ⊢
      rw [hrest] at hmessage hleft
      have hcount : message.length =
          min (announced ps.flatten) (ps.flatten.length - lengthWidth) := by
        rw [hmessage, List.length_take, List.length_drop]
      split
      next hshort => exact .cutShort henough (by omega) (by omega)
      next hwhole =>
        have hsame : message.length = announced ps.flatten := by omega
        refine .frame (by omega) ?_
        have hbytes : Bytes.ofNatBig lengthWidth message.length = ps.flatten.take lengthWidth := by
          rw [hsame, announced]
          have hwidth : (ps.flatten.take lengthWidth).length = lengthWidth := by
            rw [List.length_take, Nat.min_eq_left henough]
          have hround := Bytes.ofNatBig_toNatBig (ps.flatten.take lengthWidth)
          rwa [hwidth] at hround
        rw [framed, hbytes, hleft, hmessage, List.append_assoc, List.take_append_drop,
          List.take_append_drop]

theorem announced_of_frame {b message : Bytes} {left : Pieces}
    (hshort : message.length ≤ maxMessageSize) (hbytes : b = framed message ++ left.flatten) :
    announced b = message.length ∧ lengthWidth + message.length ≤ b.length := by
  rw [hbytes, announced_framed hshort, List.length_append, length_framed]
  exact ⟨rfl, Nat.le_add_right _ _⟩

/-- Where no whole frame stands at the head of a stream, its bytes leave one thing to find. -/
theorem Head.stuck {b : Bytes} {found found' : FrameRead} (h : Head b found) (h' : Head b found')
    (hstuck : ∀ message left, found ≠ .frame message left) : found' = found := by
  cases h with
  | ended hfew =>
    cases h' with
    | ended => rfl
    | tooLarge henough => omega
    | cutShort henough => omega
    | frame hshort hbytes =>
      have := announced_of_frame hshort hbytes
      omega
  | tooLarge henough hlarge =>
    cases h' with
    | ended hfew => omega
    | tooLarge => rfl
    | cutShort _ hsmall _ => omega
    | frame hshort hbytes =>
      have := announced_of_frame hshort hbytes
      omega
  | cutShort henough hsmall hfew =>
    cases h' with
    | ended hfewer => omega
    | tooLarge _ hlarge => omega
    | cutShort => rfl
    | frame hshort hbytes =>
      have := announced_of_frame hshort hbytes
      omega
  | frame => exact absurd rfl (hstuck _ _)

/-- A framed message is read back, whatever follows. -/
theorem read_framed {ps : Pieces} {message rest : Bytes} (hshort : message.length ≤ maxMessageSize)
    (h : ps.flatten = framed message ++ rest) :
    ∃ left, read ps = .frame message left ∧ left.flatten = rest := by
  have hspelled : announced ps.flatten = message.length := by rw [h, announced_framed hshort]
  have hlength : ps.flatten.length = lengthWidth + message.length + rest.length := by
    rw [h, List.length_append, length_framed]
  have hhead := read_cases ps
  generalize read ps = found at hhead ⊢
  cases hhead with
  | ended hlt => omega
  | tooLarge _ hlarge => omega
  | cutShort _ _ hlt => omega
  | @frame found left hfound hbytes =>
    have hcount : found.length = message.length := by
      rw [← announced_framed hfound left.flatten, ← hbytes, hspelled]
    have hboth : framed found ++ left.flatten = framed message ++ rest := hbytes.symm.trans h
    rw [framed, framed, hcount, List.append_assoc, List.append_assoc] at hboth
    obtain ⟨rfl, hrest⟩ := List.append_inj (List.append_cancel_left hboth) hcount
    exact ⟨left, rfl, hrest⟩

/-- Framed messages are read back one after another, whatever follows. -/
theorem readAll_framed {ps : Pieces} {messages : List Bytes} {rest : Bytes}
    (hshort : ∀ m ∈ messages, m.length ≤ maxMessageSize)
    (h : ps.flatten = messages.flatMap framed ++ rest) :
    ∃ left, left.flatten = rest ∧
      readAll ps = (messages ++ (readAll left).1, (readAll left).2) := by
  induction messages generalizing ps with
  | nil => exact ⟨ps, h, rfl⟩
  | cons m ms ih =>
    obtain ⟨hm, hms⟩ := List.forall_mem_cons.mp hshort
    rw [List.flatMap_cons, List.append_assoc] at h
    obtain ⟨after, hread, hafter⟩ := read_framed hm h
    obtain ⟨left, hleft, hall⟩ := ih hms hafter
    exact ⟨left, hleft, by rw [readAll_of_frame hread, hall]; rfl⟩

/-- A stream of framed messages and nothing else ends between two frames. -/
theorem readAll_whole {messages : List Bytes} (hshort : ∀ m ∈ messages, m.length ≤ maxMessageSize) :
    readAll [messages.flatMap framed] = (messages, .closed) := by
  have hflat : [messages.flatMap framed].flatten = messages.flatMap framed ++ [] := by
    rw [List.flatten_singleton, List.append_nil]
  obtain ⟨left, hleft, hall⟩ := readAll_framed hshort hflat
  have hnothing : read left = .ended := by
    have hhead := read_cases left
    rw [hleft] at hhead
    exact (Head.ended (by decide)).stuck hhead fun _ _ h => nomatch h
  rw [hall, readAll_of_ended hnothing, List.append_nil]

/-- Framed messages at the front of framed messages are the first of them. -/
theorem prefix_of_framed {as bs : List Bytes} (has : ∀ a ∈ as, a.length ≤ maxMessageSize)
    (hbs : ∀ b ∈ bs, b.length ≤ maxMessageSize)
    (h : as.flatMap framed <+: bs.flatMap framed) : as <+: bs := by
  induction as generalizing bs with
  | nil => exact List.nil_prefix
  | cons a as ih =>
    obtain ⟨ha, has⟩ := List.forall_mem_cons.mp has
    obtain ⟨rest, heq⟩ := h
    rw [List.flatMap_cons, List.append_assoc] at heq
    cases bs with
    | nil =>
      have hlength := congrArg List.length heq
      rw [List.length_append, length_framed] at hlength
      have hwidth : 0 < lengthWidth := by decide
      simp only [List.flatMap_nil, List.length_nil] at hlength
      omega
    | cons b bs =>
      obtain ⟨hb, hmore⟩ := List.forall_mem_cons.mp hbs
      rw [List.flatMap_cons] at heq
      obtain ⟨left, hread, hleft⟩ := read_framed ha (List.flatten_singleton.trans heq.symm)
      obtain ⟨left', hread', hleft'⟩ := read_framed hb
        (List.flatten_singleton (l := framed b ++ bs.flatMap framed))
      obtain ⟨rfl, rfl⟩ := FrameRead.frame.inj (hread.symm.trans hread')
      exact List.cons_prefix_cons.mpr ⟨rfl, ih has hmore ⟨rest, hleft.symm.trans hleft'⟩⟩

end Frame
end Metering
