import Metering.Rpc.Envelope
import Metering.Rpc.Frame

/-!
One connection of the server for calls.

Frames are answered one at a time: a frame is read, the call in it is handled, and the reply is
written before the next frame is read. A frame that holds no call is answered as well, under the
number zero. The conversation ends with the stream, at the first frame that cannot be read, with a
reply that is too long to be written, or when the server stops between two frames.

Main statement: the replies are those to the frames read, in their order (`replies_eq`).
-/
namespace Metering

/-- How calls are handled, and what they leave behind. -/
abbrev CallHandler (σ : Type) := RpcCall → σ → RpcReply × σ

/-- How a conversation ended. -/
inductive ConversationEnd
  | closed
  | fault (f : Failure)
  | stopped
deriving DecidableEq, Repr

/-- What a conversation came to: the replies written, how it ended and the state it left. -/
structure Conversation (σ : Type) where
  replies : List RpcReply
  ending : ConversationEnd
  state : σ

namespace Conversation

/-- The reply to a frame. -/
def reply (handler : CallHandler σ) (message : Bytes) (s : σ) : RpcReply × σ :=
  match RpcCall.decode message with
  | .ok call => handler call s
  | .error e => (.failed 0 .invalidArgument (Failure.json e).message, s)

/-- Puts a reply in front of a conversation. -/
def before (r : RpcReply) (c : Conversation σ) : Conversation σ :=
  { c with replies := r :: c.replies }

/-- Holds a conversation of at most `limit` frames. -/
def hold (handler : CallHandler σ) : Nat → Pieces → σ → Conversation σ
  | 0, _, s => ⟨[], .stopped, s⟩
  | limit + 1, ps, s =>
    match Frame.read ps with
    | .ended => ⟨[], .closed, s⟩
    | .fault f => ⟨[], .fault f, s⟩
    | .frame message left =>
      let (r, s) := reply handler message s
      match Frame.write r.encode with
      | .error f => ⟨[], .fault f, s⟩
      | .ok _ => (hold handler limit left s).before r

/-- More frames than a stream can hold. -/
def enough (ps : Pieces) : Nat := ps.flatten.length + 1

/-- Holds a conversation until the stream ends. -/
def holdAll (handler : CallHandler σ) (ps : Pieces) (s : σ) : Conversation σ :=
  hold handler (enough ps) ps s

/-- The bytes that a conversation sends back. -/
def sent (c : Conversation σ) : Bytes :=
  c.replies.flatMap fun r => (Frame.write r.encode).toOption.getD []

/-- Answers a list of messages one after another. -/
def answers (handler : CallHandler σ) : List Bytes → σ → List RpcReply × σ
  | [], s => ([], s)
  | message :: more, s =>
    let (r, s) := reply handler message s
    let (rs, s) := answers handler more s
    (r :: rs, s)

theorem replies_eq (handler : CallHandler σ) (limit : Nat) (ps : Pieces) (s : σ)
    (h : ∀ f, (hold handler limit ps s).ending ≠ .fault f) :
    (hold handler limit ps s).replies =
        (answers handler ((Frame.readAll ps).1.take limit) s).1 ∧
      (hold handler limit ps s).state =
        (answers handler ((Frame.readAll ps).1.take limit) s).2 := by
  induction limit generalizing ps s with
  | zero => simp [hold, answers]
  | succ n ih =>
    unfold hold at h ⊢
    cases hread : Frame.read ps with
    | ended => simp [Frame.readAll_of_ended hread, answers]
    | fault f => simp only [hread] at h; exact absurd rfl (h f)
    | frame message left =>
      simp only [hread, Frame.readAll_of_frame hread, List.take_succ_cons, answers] at h ⊢
      cases hr : reply handler message s with
      | mk r s' =>
        simp only [hr] at h ⊢
        cases hw : Frame.write r.encode with
        | error f => simp only [hw] at h; exact absurd rfl (h f)
        | ok b =>
          simp only [hw, before] at h ⊢
          obtain ⟨h1, h2⟩ := ih left s' h
          exact ⟨by rw [h1], h2⟩

end Conversation
end Metering
