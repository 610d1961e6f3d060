import Metering.Proofs.FrameStreams
import Metering.Proofs.SignedAnswers
import Metering.Rpc.Session

/-!
One reply for each frame, in order.

At every moment of a connection the bytes that have arrived are the frames that were taken and
what is unread, and every frame but perhaps the last one has had its reply. This is kept by each
move (`Follows`), so neither the cuts of the stream nor the moment of a stop matter: a server that
stops does so between two frames, with the reply to the last one written.

Results:
1. `answers_append`, `state_answers`: the answers to a list of messages, and their effect as a
   fold over the calls among them.
2. `Follows.step`, `Follows.run`: what every move keeps.
3. `Follows.hold`: a connection that has ended is the conversation over its bytes.
4. `exists_turns`: the server's turns alone lead to the last whole frame.
5. `one_reply_per_frame`: all of this for the calls of a service.
-/
namespace Metering

/-! ## 1. Answers -/

namespace Conversation

/-- The call in a message, if it holds one. -/
def call? (message : Bytes) : Option RpcCall := (RpcCall.decode message).toOption

/-- What the calls in the messages leave behind, one after another. -/
def effect (handler : CallHandler σ) (messages : List Bytes) (s : σ) : σ :=
  (messages.filterMap call?).foldl (fun s c => (handler c s).2) s

variable {handler : CallHandler σ}

theorem answers_cons (m : Bytes) (ms : List Bytes) (s : σ) :
    answers handler (m :: ms) s =
      ((reply handler m s).1 :: (answers handler ms (reply handler m s).2).1,
        (answers handler ms (reply handler m s).2).2) := rfl

theorem answers_append (ms ns : List Bytes) (s : σ) :
    answers handler (ms ++ ns) s =
      ((answers handler ms s).1 ++ (answers handler ns (answers handler ms s).2).1,
        (answers handler ns (answers handler ms s).2).2) := by
  induction ms generalizing s with
  | nil => rfl
  | cons m ms ih =>
    rw [List.cons_append, answers_cons, ih]
    rfl

theorem answers_singleton (m : Bytes) (s : σ) :
    answers handler [m] s = ([(reply handler m s).1], (reply handler m s).2) := rfl

theorem length_answers (ms : List Bytes) (s : σ) : (answers handler ms s).1.length = ms.length := by
  induction ms generalizing s with
  | nil => rfl
  | cons m ms ih => exact congrArg (· + 1) (ih (reply handler m s).2)

theorem effect_append (ms ns : List Bytes) (s : σ) :
    effect handler (ms ++ ns) s = effect handler ns (effect handler ms s) := by
  rw [effect, List.filterMap_append, List.foldl_append]
  rfl

theorem state_reply (m : Bytes) (s : σ) : (reply handler m s).2 = effect handler [m] s := by
  unfold reply effect
  rw [List.filterMap_cons]
  unfold call?
  cases RpcCall.decode m <;> rfl

/-- A message without a call leaves nothing behind. -/
theorem state_answers (ms : List Bytes) (s : σ) :
    (answers handler ms s).2 = effect handler ms s := by
  induction ms generalizing s with
  | nil => rfl
  | cons m ms ih =>
    have hcons : effect handler (m :: ms) s = effect handler ms (effect handler [m] s) :=
      effect_append [m] ms s
    rw [hcons, ← state_reply]
    exact ih _

/-- The reply to a message: under the number of its call, or under zero. -/
def AnswersTo (message : Bytes) (r : RpcReply) : Prop :=
  match RpcCall.decode message with
  | .ok call => r.id = call.id
  | .error e => r = .failed 0 .invalidArgument (Failure.json e).message

theorem answersTo_reply (hid : ∀ call s, (handler call s).1.id = call.id) (m : Bytes) (s : σ) :
    AnswersTo m (reply handler m s).1 := by
  unfold AnswersTo reply
  cases RpcCall.decode m with
  | ok call => exact hid call s
  | error e => rfl

/-- Each reply answers the message at its place. -/
theorem answersTo_answers (hid : ∀ call s, (handler call s).1.id = call.id) (ms : List Bytes)
    (s : σ) : List.Forall₂ AnswersTo ms (answers handler ms s).1 := by
  induction ms generalizing s with
  | nil => exact .nil
  | cons m ms ih => exact .cons (answersTo_reply hid m s) (ih _)

end Conversation

namespace Session

open Conversation (answers effect reply)

/-! ## 2. What every move keeps -/

/-- The message that has been taken and not answered yet. -/
def pending : SessionPhase → List Bytes
  | .reading => []
  | .handling message => [message]
  | .writing message _ => [message]
  | .ended _ unanswered => unanswered.toList

/-- Messages and their replies in turn. -/
def exchanges (done : List (Bytes × RpcReply)) : List SessionEvent :=
  done.flatMap fun e => [.took e.1, .wrote e.2]

/-- Why a connection is over, by what is left of its stream. -/
inductive Over (c : Session σ) : ConversationEnd → Prop
  /-- The stream has ended, between two frames or inside a length. -/
  | closed : c.isClosed = true → c.unread.length < Frame.lengthWidth → Over c .closed
  /-- The next frame is too large. -/
  | tooLarge {size : Nat} : Frame.lengthWidth ≤ c.unread.length →
    Frame.announced c.unread = size → maxMessageSize < size →
    Over c (.fault ⟨.invalidResponse, .messageTooLarge size⟩)
  /-- The stream has ended inside the data of a frame. -/
  | cutShort : c.isClosed = true → Frame.lengthWidth ≤ c.unread.length →
    Frame.announced c.unread ≤ maxMessageSize →
    c.unread.length < Frame.lengthWidth + Frame.announced c.unread →
    Over c (.fault ⟨.connection, .frameCutShort⟩)
  /-- The server was asked to stop. -/
  | stopped : c.isStopping = true → Over c .stopped

section
variable (handler : CallHandler σ) (s : σ)

/-- How the state stands to the one before the pending message. -/
def Stands (before : σ) (c : Session σ) : Prop :=
  match c.phase with
  | .reading => c.state = before
  | .handling _ => c.state = before
  | .writing message r => reply handler message before = (r, c.state)
  | .ended e none => c.state = before ∧ Over c e
  | .ended _ (some message) =>
    ∃ r, reply handler message before = (r, c.state) ∧ maxMessageSize < r.encode.length

/-- The connection has come this far: the messages that are done, with their replies, account for
everything that has arrived but the pending message and what is unread. -/
structure Follows (bytes : Bytes) (done : List (Bytes × RpcReply)) (c : Session σ) : Prop where
  arrived : bytes = (done.map Prod.fst ++ pending c.phase).flatMap Frame.framed ++ c.unread
  short : ∀ m ∈ done.map Prod.fst ++ pending c.phase, m.length ≤ maxMessageSize
  log : c.log = exchanges done ++ (pending c.phase).map .took
  replies : done.map Prod.snd = (answers handler (done.map Prod.fst) s).1
  stands : Stands handler (answers handler (done.map Prod.fst) s).2 c

end

variable {handler : CallHandler σ} {s : σ}

theorem follows_start : Follows handler s [] [] (start s) where
  arrived := rfl
  short := fun _ h => nomatch h
  log := rfl
  replies := rfl
  stands := rfl

theorem announced_append {b : Bytes} (h : Frame.lengthWidth ≤ b.length) (more : Bytes) :
    Frame.announced (b ++ more) = Frame.announced b := by
  rw [Frame.announced, Frame.announced, List.take_append_of_le_length h]

/-- What has ended stays ended for the same reason. -/
theorem Over.arrive {c : Session σ} {e : ConversationEnd} (h : Over c e)
    (hopen : c.isClosed = false) (piece : Bytes) :
    Over { c with unread := c.unread ++ piece } e := by
  have hlonger : c.unread.length ≤ (c.unread ++ piece).length := by
    rw [List.length_append]
    exact Nat.le_add_right _ _
  cases h with
  | closed hclosed _ => exact absurd hclosed (by simp [hopen])
  | tooLarge henough hsize hlarge =>
    exact .tooLarge (henough.trans hlonger) ((announced_append henough piece).trans hsize) hlarge
  | cutShort hclosed _ _ _ => exact absurd hclosed (by simp [hopen])
  | stopped hstop => exact .stopped hstop

theorem Over.close {c : Session σ} {e : ConversationEnd} (h : Over c e) :
    Over { c with isClosed := true } e := by
  cases h with
  | closed _ hfew => exact .closed rfl hfew
  | tooLarge henough hsize hlarge => exact .tooLarge henough hsize hlarge
  | cutShort _ henough hsmall hfew => exact .cutShort rfl henough hsmall hfew
  | stopped hstop => exact .stopped hstop

theorem Over.stop {c : Session σ} {e : ConversationEnd} (h : Over c e) :
    Over { c with isStopping := true } e := by
  cases h with
  | closed hclosed hfew => exact .closed hclosed hfew
  | tooLarge henough hsize hlarge => exact .tooLarge henough hsize hlarge
  | cutShort hclosed henough hsmall hfew => exact .cutShort hclosed henough hsmall hfew
  | stopped _ => exact .stopped rfl

/-- What the caller and the operator do leaves the phase and the state alone. -/
theorem Stands.outside {before : σ} {c c' : Session σ} (h : Stands handler before c)
    (hphase : c'.phase = c.phase) (hstate : c'.state = c.state) (hover : ∀ e, Over c e → Over c' e) :
    Stands handler before c' := by
  unfold Stands at h ⊢
  rw [hphase, hstate]
  cases hp : c.phase with
  | reading => rw [hp] at h; exact h
  | handling m => rw [hp] at h; exact h
  | writing m r => rw [hp] at h; exact h
  | ended e u =>
    rw [hp] at h
    cases u with
    | none => exact ⟨h.1, hover e h.2⟩
    | some m => exact h

/-- A turn while reading takes a whole frame, or finds that there will be none. -/
theorem take?_cases {c c' : Session σ} (h : c.take? = some c') :
    (∃ message left, message.length ≤ maxMessageSize ∧
      c.unread = Frame.framed message ++ left ∧
      c' = { c with
        phase := .handling message
        unread := left
        log := c.log ++ [.took message] }) ∨
    ∃ e, Over c e ∧ c' = { c with phase := .ended e none } := by
  have hhead := Frame.read_cases [c.unread]
  rw [List.flatten_cons, List.flatten_nil, List.append_nil] at hhead
  unfold take? at h
  generalize Frame.read [c.unread] = found at hhead h
  cases hhead with
  | ended hfew =>
    dsimp only at h
    split at h
    next hclosed => exact .inr ⟨_, .closed hclosed hfew, (Option.some.inj h).symm⟩
    next => cases h
  | tooLarge henough hlarge =>
    dsimp only at h
    rw [if_neg (by simp)] at h
    exact .inr ⟨_, .tooLarge henough rfl hlarge, (Option.some.inj h).symm⟩
  | cutShort henough hsmall hfew =>
    dsimp only at h
    split at h
    next => cases h
    next hclosed =>
      have hclosed : c.isClosed = true := by simpa using hclosed
      exact .inr ⟨_, .cutShort hclosed henough hsmall hfew, (Option.some.inj h).symm⟩
  | @frame message left hshort hbytes =>
    exact .inl ⟨message, left.flatten, hshort, hbytes, (Option.some.inj h).symm⟩

/-- Every move keeps the account. -/
theorem Follows.step {bytes : Bytes} {done : List (Bytes × RpcReply)} {c c' : Session σ}
    {m : SessionMove} (h : Follows handler s bytes done c) (hstep : c.step? handler m = some c') :
    ∃ done', Follows handler s (bytes ++ Session.arrived [m]) done' c' := by
  obtain ⟨harrived, hshort, hlog, hreplies, hstands⟩ := h
  cases m with
  | arrive piece =>
    unfold step? at hstep
    dsimp only at hstep
    split at hstep
    next => cases hstep
    next hopen =>
      obtain rfl := Option.some.inj hstep
      refine ⟨done, ?_, hshort, hlog, hreplies,
        hstands.outside rfl rfl fun e he => he.arrive (by simpa using hopen) piece⟩
      simp [Session.arrived, harrived]
  | close =>
    obtain rfl := Option.some.inj hstep
    refine ⟨done, ?_, hshort, hlog, hreplies, hstands.outside rfl rfl fun e he => he.close⟩
    simp [Session.arrived, harrived]
  | stop =>
    obtain rfl := Option.some.inj hstep
    refine ⟨done, ?_, hshort, hlog, hreplies, hstands.outside rfl rfl fun e he => he.stop⟩
    simp [Session.arrived, harrived]
  | quit =>
    unfold step? at hstep
    dsimp only at hstep
    split at hstep
    next hphase hstop =>
      obtain rfl := Option.some.inj hstep
      rw [Stands, hphase] at hstands
      rw [hphase] at harrived hshort hlog
      refine ⟨done, ?_, hshort, hlog, hreplies, hstands, .stopped hstop⟩
      rw [harrived]
      simp [Session.arrived, pending]
    next => cases hstep
  | turn =>
    have hbytes : bytes ++ Session.arrived [SessionMove.turn] = bytes := List.append_nil bytes
    rw [hbytes]
    unfold step? turn? at hstep
    dsimp only at hstep
    rw [Stands] at hstands
    split at hstep
    next hphase =>
      rw [hphase] at harrived hshort hlog hstands
      simp only [pending, List.append_nil, List.map_nil] at harrived hshort hlog
      rcases take?_cases hstep with ⟨message, left, hfits, hunread, rfl⟩ | ⟨e, hover, rfl⟩
      · refine ⟨done, ?_, ?_, ?_, hreplies, hstands⟩
        · rw [harrived, hunread]
          simp [pending]
        · exact List.forall_mem_append.mpr ⟨hshort, List.forall_mem_singleton.mpr hfits⟩
        · rw [hlog]
          rfl
      · refine ⟨done, ?_, ?_, ?_, hreplies, hstands, ?_⟩
        · simpa [pending] using harrived
        · simpa [pending] using hshort
        · simpa [pending] using hlog
        · cases hover with
          | closed h1 h2 => exact .closed h1 h2
          | tooLarge h1 h2 h3 => exact .tooLarge h1 h2 h3
          | cutShort h1 h2 h3 h4 => exact .cutShort h1 h2 h3 h4
          | stopped h1 => exact .stopped h1
    next message hphase =>
      rw [hphase] at harrived hshort hlog hstands
      obtain rfl := Option.some.inj hstep
      refine ⟨done, harrived, hshort, hlog, hreplies, ?_⟩
      dsimp only [Stands]
      rw [← hstands]
    next message r hphase =>
      rw [hphase] at harrived hshort hlog hstands
      dsimp only at hstands
      split at hstep
      next hwrite =>
        obtain rfl := Option.some.inj hstep
        have hstate : Conversation.answers handler (done.map Prod.fst ++ [message]) s = _ :=
          Conversation.answers_append _ _ s
        rw [Conversation.answers_singleton, hstands] at hstate
        refine ⟨done ++ [(message, r)], ?_, ?_, ?_, ?_, ?_⟩
        · simpa [pending] using harrived
        · simpa [pending] using hshort
        · rw [hlog]
          simp [pending, exchanges]
        · rw [List.map_append, List.map_append, List.map_singleton, List.map_singleton, hstate,
            hreplies]
        · rw [List.map_append, List.map_singleton, hstate]
          rfl
      next f hwrite =>
        obtain rfl := Option.some.inj hstep
        refine ⟨done, harrived, hshort, hlog, hreplies, r, hstands, ?_⟩
        unfold Frame.write at hwrite
        split at hwrite
        next hlong => exact hlong
        next => cases hwrite
    next => cases hstep

theorem Follows.run {bytes : Bytes} {done : List (Bytes × RpcReply)} {c c' : Session σ}
    {ms : List SessionMove} (h : Follows handler s bytes done c)
    (hrun : c.run? handler ms = some c') :
    ∃ done', Follows handler s (bytes ++ Session.arrived ms) done' c' := by
  induction ms generalizing bytes done c with
  | nil =>
    obtain rfl := Option.some.inj hrun
    exact ⟨done, by rwa [show Session.arrived [] = [] from rfl, List.append_nil]⟩
  | cons m ms ih =>
    unfold run? at hrun
    split at hrun
    next c₁ hstep =>
      obtain ⟨done₁, h₁⟩ := h.step hstep
      obtain ⟨done₂, h₂⟩ := ih h₁ hrun
      refine ⟨done₂, ?_⟩
      have hbytes : Session.arrived (m :: ms) = Session.arrived [m] ++ Session.arrived ms := by
        simp [Session.arrived]
      rwa [hbytes, ← List.append_assoc]
    next => cases hrun

/-! ## 3. What a connection has come to -/

theorem messages_exchanges (done : List (Bytes × RpcReply)) :
    (exchanges done).filterMap SessionEvent.message? = done.map Prod.fst := by
  induction done with
  | nil => rfl
  | cons e done ih => exact congrArg (e.1 :: ·) ih

theorem replies_exchanges (done : List (Bytes × RpcReply)) :
    (exchanges done).filterMap SessionEvent.reply? = done.map Prod.snd := by
  induction done with
  | nil => rfl
  | cons e done ih => exact congrArg (e.2 :: ·) ih

/-- A conversation answers whole frames first, whatever follows them. -/
theorem hold_framed {messages : List Bytes} {rest : Bytes}
    (hshort : ∀ m ∈ messages, m.length ≤ maxMessageSize) {ps : Pieces}
    (hps : ps.flatten = messages.flatMap Frame.framed ++ rest) (s : σ)
    (hfits : ∀ r ∈ (answers handler messages s).1, r.encode.length ≤ maxMessageSize) :
    ∃ left : Pieces, left.flatten = rest ∧ ∀ limit,
      Conversation.hold handler (messages.length + limit) ps s =
        (answers handler messages s).1.foldr Conversation.before
          (Conversation.hold handler limit left (answers handler messages s).2) := by
  induction messages generalizing ps s with
  | nil => exact ⟨ps, hps, fun limit => by rw [List.length_nil, Nat.zero_add]; rfl⟩
  | cons m ms ih =>
    rw [Conversation.answers_cons] at hfits ⊢
    obtain ⟨hm, hms⟩ := List.forall_mem_cons.mp hshort
    obtain ⟨hr, hrs⟩ := List.forall_mem_cons.mp hfits
    rw [List.flatMap_cons, List.append_assoc] at hps
    obtain ⟨after, hread, hafter⟩ := Frame.read_framed hm hps
    obtain ⟨left, hleft, hhold⟩ := ih hms hafter _ hrs
    refine ⟨left, hleft, fun limit => ?_⟩
    rw [List.length_cons, Nat.add_right_comm, Conversation.hold, hread]
    dsimp only
    rw [Frame.write_of_short hr, hhold]
    rfl

theorem foldr_before (rs : List RpcReply) (k : Conversation σ) :
    rs.foldr Conversation.before k = ⟨rs ++ k.replies, k.ending, k.state⟩ := by
  induction rs with
  | nil => rfl
  | cons r rs ih => rw [List.foldr_cons, ih]; rfl

section
variable {bytes : Bytes} {done : List (Bytes × RpcReply)} {c : Session σ}

theorem Follows.taken_eq (h : Follows handler s bytes done c) :
    c.taken = done.map Prod.fst ++ pending c.phase := by
  have hpending : (pending c.phase).filterMap (SessionEvent.message? ∘ SessionEvent.took) =
      pending c.phase := List.filterMap_some
  rw [taken, h.log, List.filterMap_append, messages_exchanges, List.filterMap_map, hpending]

theorem Follows.replies_eq (h : Follows handler s bytes done c) :
    c.replies = done.map Prod.snd := by
  have hpending : (pending c.phase).filterMap (SessionEvent.reply? ∘ SessionEvent.took) = [] :=
    List.filterMap_eq_nil_iff.mpr fun _ _ => rfl
  rw [Session.replies, h.log, List.filterMap_append, replies_exchanges, List.filterMap_map,
    hpending, List.append_nil]

/-- Messages and replies take turns, and at most one message waits for its reply. -/
theorem Follows.turns (h : Follows handler s bytes done c) :
    c.log = exchanges (c.taken.zip c.replies) ++
        (c.taken.drop c.replies.length).map SessionEvent.took ∧
      c.taken.take c.replies.length = done.map Prod.fst ∧
      c.replies.length ≤ c.taken.length ∧ c.taken.length ≤ c.replies.length + 1 := by
  have hcount : c.replies.length = (done.map Prod.fst).length := by
    rw [h.replies_eq, List.length_map, List.length_map]
  have hpending : (pending c.phase).length ≤ 1 := by
    cases c.phase with
    | reading => exact Nat.zero_le 1
    | handling m => exact Nat.le_refl 1
    | writing m r => exact Nat.le_refl 1
    | ended e u => cases u with
      | none => exact Nat.zero_le 1
      | some m => exact Nat.le_refl 1
  have hdone : c.taken.zip c.replies = done := by
    rw [h.taken_eq, h.replies_eq, ← List.append_nil (done.map Prod.snd),
      List.zip_append (by rw [List.length_map, List.length_map]), List.zip_nil_right,
      List.append_nil, List.zip_map']
    exact List.map_id' done
  refine ⟨?_, ?_, ?_, ?_⟩
  · rw [hdone, hcount, h.taken_eq, List.drop_left]
    exact h.log
  · rw [hcount, h.taken_eq, List.take_left]
  · rw [hcount, h.taken_eq, List.length_append]
    exact Nat.le_add_right _ _
  · rw [hcount, h.taken_eq, List.length_append]
    exact Nat.add_le_add_left hpending _

/-- The frames that were taken are the first ones of the stream. -/
theorem Follows.readAll (h : Follows handler s bytes done c) :
    ∃ left : Pieces, left.flatten = c.unread ∧
      Frame.readAll [bytes] = (c.taken ++ (Frame.readAll left).1, (Frame.readAll left).2) := by
  rw [h.taken_eq]
  refine Frame.readAll_framed h.short ?_
  rw [List.flatten_cons, List.flatten_nil, List.append_nil]
  exact h.arrived

/-- No reply to what arrives is too long to be written. -/
def Fits (handler : CallHandler σ) (s : σ) (bytes : Bytes) : Prop :=
  ∀ r ∈ (answers handler (Frame.readAll [bytes]).1 s).1, r.encode.length ≤ maxMessageSize

theorem Follows.fits_taken (h : Follows handler s bytes done c) (hfits : Fits handler s bytes) :
    ∀ r ∈ (answers handler c.taken s).1, r.encode.length ≤ maxMessageSize := by
  obtain ⟨left, -, hall⟩ := h.readAll
  intro r hr
  refine hfits r ?_
  rw [hall, Conversation.answers_append]
  exact List.mem_append_left _ hr

/-- Then no connection ends with a message that has no reply. -/
theorem Follows.unanswered (h : Follows handler s bytes done c) (hfits : Fits handler s bytes)
    {e : ConversationEnd} {u : Option Bytes} (hphase : c.phase = .ended e u) : u = none := by
  cases u with
  | none => rfl
  | some m =>
    have hstands := h.stands
    rw [Stands, hphase] at hstands
    obtain ⟨r, hreply, hlong⟩ := hstands
    have hshort := h.fits_taken hfits r
    rw [h.taken_eq, hphase, pending, Option.toList_some, Conversation.answers_append,
      Conversation.answers_singleton, hreply] at hshort
    exact absurd (hshort (List.mem_append_right _ (List.mem_singleton_self r)))
      (Nat.not_le.mpr hlong)

/-- Where a connection is over, no reader gets on. -/
theorem Over.read {e : ConversationEnd} (h : Over c e) (hstop : e ≠ .stopped)
    {left : Pieces} (hleft : left.flatten = c.unread) :
    (e = .closed ∧ Frame.read left = .ended) ∨ ∃ f, e = .fault f ∧ Frame.read left = .fault f := by
  have hhead := Frame.read_cases left
  rw [hleft] at hhead
  cases h with
  | closed _ hfew =>
    exact .inl ⟨rfl, (Frame.Head.ended hfew).stuck hhead fun _ _ h => nomatch h⟩
  | tooLarge henough hsize hlarge =>
    subst hsize
    exact .inr ⟨_, rfl, (Frame.Head.tooLarge henough hlarge).stuck hhead fun _ _ h => nomatch h⟩
  | cutShort _ henough hsmall hfew =>
    refine .inr ⟨_, rfl, ?_⟩
    exact (Frame.Head.cutShort henough hsmall hfew).stuck hhead fun _ _ h => nomatch h
  | stopped => exact absurd rfl hstop

/-- A connection that has ended has answered what it took, and is over for a reason. -/
theorem Follows.ended (h : Follows handler s bytes done c) (hfits : Fits handler s bytes)
    {e : ConversationEnd} {u : Option Bytes} (hphase : c.phase = .ended e u) :
    c.replies = (answers handler c.taken s).1 ∧ c.state = (answers handler c.taken s).2 ∧
      Over c e := by
  obtain rfl := h.unanswered hfits hphase
  have htaken : c.taken = done.map Prod.fst := by
    rw [h.taken_eq, hphase]
    exact List.append_nil _
  have hstands := h.stands
  rw [Stands, hphase] at hstands
  rw [htaken, h.replies_eq, h.replies]
  exact ⟨rfl, hstands⟩

/-- At every moment the effects are those of the answered messages, or of the pending one too. -/
theorem Follows.effects (h : Follows handler s bytes done c) (hfits : Fits handler s bytes) :
    ∃ n, c.replies.length ≤ n ∧ n ≤ c.taken.length ∧ c.state = effect handler (c.taken.take n) s := by
  obtain ⟨-, hdone, hle, -⟩ := h.turns
  have hstands := h.stands
  have hbefore : c.state = (answers handler (done.map Prod.fst) s).2 →
      ∃ n, c.replies.length ≤ n ∧ n ≤ c.taken.length ∧
        c.state = effect handler (c.taken.take n) s := fun hstate =>
    ⟨c.replies.length, Nat.le_refl _, hle, by rw [hstate, hdone, Conversation.state_answers]⟩
  rw [Stands] at hstands
  split at hstands
  next => exact hbefore hstands
  next => exact hbefore hstands
  next message r hphase =>
    refine ⟨c.taken.length, hle, Nat.le_refl _, ?_⟩
    rw [List.take_length, ← Conversation.state_answers, h.taken_eq, hphase, pending,
      Conversation.answers_append, Conversation.answers_singleton, hstands]
  next => exact hbefore hstands.1
  next e m hphase => cases h.unanswered hfits hphase

theorem length_le_framed (ms : List Bytes) : ms.length ≤ (ms.flatMap Frame.framed).length := by
  induction ms with
  | nil => exact Nat.le_refl _
  | cons m ms ih =>
    rw [List.flatMap_cons, List.length_append, Frame.length_framed, List.length_cons]
    have hwidth : 1 ≤ Frame.lengthWidth := by decide
    omega

/-- A server that stops has held the conversation up to the last frame that it took. -/
theorem Follows.hold_stopped (h : Follows handler s bytes done c) (hfits : Fits handler s bytes)
    {u : Option Bytes} (hphase : c.phase = .ended .stopped u) :
    Conversation.hold handler c.taken.length [bytes] s = ⟨c.replies, .stopped, c.state⟩ := by
  obtain ⟨hreplies, hstate, -⟩ := h.ended hfits hphase
  have hps : [bytes].flatten = c.taken.flatMap Frame.framed ++ c.unread := by
    rw [List.flatten_singleton, h.taken_eq]
    exact h.arrived
  obtain ⟨left, -, hhold⟩ := hold_framed (h.taken_eq ▸ h.short) hps s (h.fits_taken hfits)
  rw [← Nat.add_zero c.taken.length, hhold, foldr_before, hreplies, hstate]
  simp [Conversation.hold]

/-- Any other connection has held the conversation over its whole stream. -/
theorem Follows.hold_all (h : Follows handler s bytes done c) (hfits : Fits handler s bytes)
    {e : ConversationEnd} {u : Option Bytes} (hphase : c.phase = .ended e u) (he : e ≠ .stopped) :
    Conversation.holdAll handler [bytes] s = ⟨c.replies, e, c.state⟩ ∧
      (Frame.readAll [bytes]).1 = c.taken := by
  obtain ⟨hreplies, hstate, hover⟩ := h.ended hfits hphase
  have hps : [bytes].flatten = c.taken.flatMap Frame.framed ++ c.unread := by
    rw [List.flatten_singleton, h.taken_eq]
    exact h.arrived
  constructor
  · obtain ⟨left, hleft, hhold⟩ := hold_framed (h.taken_eq ▸ h.short) hps s (h.fits_taken hfits)
    have henough : ∃ more, Conversation.enough [bytes] = c.taken.length + (more + 1) := by
      have hlength := length_le_framed c.taken
      have hbytes := congrArg List.length hps
      rw [List.length_append] at hbytes
      exact ⟨[bytes].flatten.length - c.taken.length, by unfold Conversation.enough; omega⟩
    obtain ⟨more, henough⟩ := henough
    have hlast : Conversation.hold handler (more + 1) left (answers handler c.taken s).2 =
        ⟨[], e, (answers handler c.taken s).2⟩ := by
      rw [Conversation.hold]
      rcases hover.read he hleft with ⟨rfl, hread⟩ | ⟨f, rfl, hread⟩ <;> rw [hread]
    rw [Conversation.holdAll, henough, hhold, hlast, foldr_before, List.append_nil, hreplies,
      hstate]
  · obtain ⟨left, hleft, hall⟩ := h.readAll
    rcases hover.read he hleft with ⟨-, hread⟩ | ⟨f, -, hread⟩
    · rw [hall, Frame.readAll_of_ended hread, List.append_nil]
    · rw [hall, Frame.readAll_of_fault hread, List.append_nil]

end

/-! ## 4. The server gets on -/

/-- The turns that are left, at most: three for each frame, and those of the present one. -/
def rank (c : Session σ) : Nat :=
  3 * c.unread.length + match c.phase with
    | .ended _ _ => 0
    | .reading => 1
    | .writing _ _ => 2
    | .handling _ => 3

/-- A turn brings the end nearer, and nobody else's doing with it. -/
theorem turn?_lowers {c c' : Session σ} (h : c.turn? handler = some c') :
    c'.rank < c.rank ∧ c'.isClosed = c.isClosed ∧ c'.isStopping = c.isStopping := by
  unfold turn? at h
  split at h
  next hphase =>
    rcases take?_cases h with ⟨message, left, -, hunread, rfl⟩ | ⟨e, -, rfl⟩
    · refine ⟨?_, rfl, rfl⟩
      have hlength := congrArg List.length hunread
      rw [List.length_append, Frame.length_framed] at hlength
      have hwidth : Frame.lengthWidth = 4 := rfl
      simp only [rank, hphase]
      omega
    · refine ⟨?_, rfl, rfl⟩
      simp only [rank, hphase]
      omega
  next message hphase =>
    obtain rfl := Option.some.inj h
    refine ⟨?_, rfl, rfl⟩
    simp only [rank, hphase]
    omega
  next message r hphase =>
    split at h
    next =>
      obtain rfl := Option.some.inj h
      refine ⟨?_, rfl, rfl⟩
      simp only [rank, hphase]
      omega
    next =>
      obtain rfl := Option.some.inj h
      refine ⟨?_, rfl, rfl⟩
      simp only [rank, hphase]
      omega
  next => cases h

/-- Left to itself the server takes its turns until there is none to take. -/
theorem exists_turns (handler : CallHandler σ) (c : Session σ) :
    ∃ n c', c.run? handler (List.replicate n .turn) = some c' ∧ c'.turn? handler = none ∧
      c'.isClosed = c.isClosed ∧ c'.isStopping = c.isStopping := by
  induction hrank : c.rank using Nat.strongRecOn generalizing c with
  | ind k ih =>
    subst hrank
    cases hturn : c.turn? handler with
    | none => exact ⟨0, c, rfl, hturn, rfl, rfl⟩
    | some next =>
      obtain ⟨hlower, hclosed, hstopping⟩ := turn?_lowers hturn
      obtain ⟨n, c', hrun, hnone, hclosed', hstopping'⟩ := ih _ hlower next rfl
      refine ⟨n + 1, c', ?_, hnone, hclosed'.trans hclosed, hstopping'.trans hstopping⟩
      have hstep : c.step? handler .turn = some next := hturn
      rw [List.replicate_succ, run?, hstep]
      exact hrun

/-- A server that waits for a frame has taken every whole one, and the stream is open. -/
theorem waiting_of_take?_none {c : Session σ} (h : c.take? = none) {left : Pieces}
    (hleft : left.flatten = c.unread) : c.isClosed = false ∧ (Frame.readAll left).1 = [] := by
  have hhead := Frame.read_cases [c.unread]
  have hhead' := Frame.read_cases left
  rw [List.flatten_singleton] at hhead
  rw [hleft] at hhead'
  unfold take? at h
  split at h
  next => cases h
  next hread =>
    rw [hread] at hhead
    split at h
    next => cases h
    next hopen =>
      refine ⟨by simpa using hopen, ?_⟩
      rw [Frame.readAll_of_ended (hhead.stuck hhead' fun _ _ h => nomatch h)]
  next f hread =>
    rw [hread] at hhead
    split at h
    next hwaits =>
      refine ⟨hwaits.2, ?_⟩
      rw [Frame.readAll_of_fault (hhead.stuck hhead' fun _ _ h => nomatch h)]
    next => cases h

/-- Where the server has no turn left, every whole frame has its reply. -/
theorem Follows.all_answered {bytes : Bytes} {done : List (Bytes × RpcReply)} {c : Session σ}
    (h : Follows handler s bytes done c) (hfits : Fits handler s bytes)
    (hnone : c.turn? handler = none) (hstop : c.isStopping = false) :
    c.taken = (Frame.readAll [bytes]).1 ∧
      c.replies = (answers handler (Frame.readAll [bytes]).1 s).1 ∧
      (c.isClosed = true → ∃ e, c.phase = .ended e none) := by
  unfold turn? at hnone
  split at hnone
  next hphase =>
    have htaken : c.taken = done.map Prod.fst := by
      rw [h.taken_eq, hphase]
      exact List.append_nil _
    obtain ⟨left, hleft, hall⟩ := h.readAll
    obtain ⟨hopen, hnothing⟩ := waiting_of_take?_none hnone hleft
    rw [hall, hnothing, List.append_nil, h.replies_eq, h.replies, htaken]
    exact ⟨rfl, rfl, fun hclosed => absurd hclosed (by simp [hopen])⟩
  next => cases hnone
  next =>
    split at hnone
    next => cases hnone
    next => cases hnone
  next e u hphase =>
    obtain rfl := h.unanswered hfits hphase
    obtain ⟨hreplies, -, hover⟩ := h.ended hfits hphase
    have he : e ≠ .stopped := by
      rintro rfl
      cases hover with
      | stopped hstopped => exact absurd hstopped (by simp [hstop])
    obtain ⟨-, hall⟩ := h.hold_all hfits hphase he
    rw [hall]
    exact ⟨rfl, hreplies, fun _ => ⟨e, hphase⟩⟩

/-- Nobody asks the server to stop but a move that does. -/
theorem isStopping_of_run {c c' : Session σ} {ms : List SessionMove}
    (hrun : c.run? handler ms = some c') (hnone : SessionMove.stop ∉ ms) :
    c'.isStopping = c.isStopping := by
  induction ms generalizing c with
  | nil =>
    obtain rfl := Option.some.inj hrun
    rfl
  | cons m ms ih =>
    obtain ⟨hm, hms⟩ := not_or.mp (fun h => hnone (List.mem_cons.mpr h))
    unfold run? at hrun
    split at hrun
    next c₁ hstep =>
      rw [ih hrun hms]
      cases m with
      | arrive piece =>
        unfold step? at hstep
        dsimp only at hstep
        split at hstep
        next => cases hstep
        next =>
          obtain rfl := Option.some.inj hstep
          rfl
      | close =>
        obtain rfl := Option.some.inj hstep
        rfl
      | stop => exact absurd rfl hm
      | turn => exact (turn?_lowers hstep).2.2
      | quit =>
        unfold step? at hstep
        dsimp only at hstep
        split at hstep
        next =>
          obtain rfl := Option.some.inj hstep
          rfl
        next => cases hstep
    next => cases hrun

end Session

/-! ## 5. Calls of a service -/

namespace Ingest

open ServerTask

/-- A call is answered under its number. -/
theorem id_call (i : Ingest) (c : RpcCall) : (i.call c).EndsIn fun r => r.id = c.id := by
  unfold call
  dsimp only
  split
  next => rfl
  next =>
    split
    next =>
      unfold updateCall
      split
      next => rfl
      next =>
        split
        next => rfl
        next => rfl
        next =>
          refine endsIn_map (endsIn_of_forall (fun answer => ?_) _)
          cases answer with
          | ok => rfl
          | error r => rfl
    next => rfl

theorem id_answerCall (i : Ingest) (store : Store σ) (c : RpcCall) (s : ServerState σ) :
    (i.answerCall store c s).1.id = c.id := (i.id_call c).run store s

/-- A connection answers each frame once, in order, and before it reads the next one.

Whatever arrives on it, in whatever pieces, with a stop at any moment or none, and with no reply
too long to be written:

* What has arrived is the frames that were taken and what is unread.
* Frames and replies take turns; at most one frame is without its reply.
* Each reply has the number of the call in its frame, or reports under zero that there is none.
* The state is what the calls in the answered frames leave behind, or those in all taken frames.
* A connection that is over has answered all that it took and has handled just that. It is over
  because the stream has ended, at a frame that is too large or cut short, or because of a stop.
  It is then the conversation over its stream, or over the frames up to the stop.
* Without a stop the server's turns lead to a moment where all whole frames have their replies,
  and to the end if the stream has ended. -/
theorem one_reply_per_frame (i : Ingest) (store : Store σ) (s : ServerState σ)
    {moves : List SessionMove} {c : Session (ServerState σ)}
    (hrun : (Session.start s).run? (i.answerCall store) moves = some c)
    (hfits : Session.Fits (i.answerCall store) s (Session.arrived moves)) :
    (Session.arrived moves = c.taken.flatMap Frame.framed ++ c.unread ∧
      ∀ m ∈ c.taken, m.length ≤ maxMessageSize) ∧
    (c.log = Session.exchanges (c.taken.zip c.replies) ++
        (c.taken.drop c.replies.length).map SessionEvent.took ∧
      c.replies.length ≤ c.taken.length ∧ c.taken.length ≤ c.replies.length + 1) ∧
    List.Forall₂ Conversation.AnswersTo (c.taken.take c.replies.length) c.replies ∧
    (∃ n, c.replies.length ≤ n ∧ n ≤ c.taken.length ∧
      c.state = Conversation.effect (i.answerCall store) (c.taken.take n) s) ∧
    (∀ e u, c.phase = .ended e u →
      c.replies.length = c.taken.length ∧
      c.state = Conversation.effect (i.answerCall store) c.taken s ∧
      Session.Over c e ∧
      (e = .stopped → SessionMove.stop ∈ moves ∧
        Conversation.hold (i.answerCall store) c.taken.length [Session.arrived moves] s =
          ⟨c.replies, e, c.state⟩) ∧
      (e ≠ .stopped → c.taken = (Frame.readAll [Session.arrived moves]).1 ∧
        Conversation.holdAll (i.answerCall store) [Session.arrived moves] s =
          ⟨c.replies, e, c.state⟩)) ∧
    (SessionMove.stop ∉ moves → ∃ n c',
      c.run? (i.answerCall store) (List.replicate n .turn) = some c' ∧
      c'.taken = (Frame.readAll [Session.arrived moves]).1 ∧
      c'.replies.length = c'.taken.length ∧
      (c.isClosed = true → ∃ e, c'.phase = .ended e none)) := by
  obtain ⟨done, h⟩ := Session.follows_start.run hrun
  rw [List.nil_append] at h
  obtain ⟨hlog, hdone, hle, hone⟩ := h.turns
  refine ⟨⟨h.taken_eq ▸ h.arrived, h.taken_eq ▸ h.short⟩, ⟨hlog, hle, hone⟩, ?_,
    h.effects hfits, fun e u hphase => ?_, fun hnone => ?_⟩
  · rw [hdone, h.replies_eq, h.replies]
    exact Conversation.answersTo_answers (i.id_answerCall store) _ s
  · obtain ⟨hreplies, hstate, hover⟩ := h.ended hfits hphase
    refine ⟨?_, ?_, hover, ?_, fun he => ?_⟩
    · rw [hreplies, Conversation.length_answers]
    · rw [hstate, Conversation.state_answers]
    · rintro rfl
      refine ⟨?_, h.hold_stopped hfits hphase⟩
      by_contra hnone
      cases hover with
      | stopped hstopped =>
        rw [Session.isStopping_of_run hrun hnone] at hstopped
        cases hstopped
    · obtain ⟨hhold, hall⟩ := h.hold_all hfits hphase he
      exact ⟨hall.symm, hhold⟩
  · obtain ⟨n, c', hturns, hlast, hclosed, hstopping⟩ :=
      Session.exists_turns (i.answerCall store) c
    obtain ⟨done', h'⟩ := h.run hturns
    have hquiet : Session.arrived (List.replicate n .turn) = [] := by
      simp [Session.arrived]
    rw [hquiet, List.append_nil] at h'
    have hgoing : c'.isStopping = false :=
      hstopping.trans (Session.isStopping_of_run hrun hnone)
    obtain ⟨htaken, hreplies, hended⟩ := h'.all_answered hfits hlast hgoing
    refine ⟨n, c', hturns, htaken, ?_, fun hc => hended (hclosed.trans hc)⟩
    rw [hreplies, htaken, Conversation.length_answers]

/-- A frame that holds no call and a call to nobody, cut inside the second length: two replies. -/
theorem one_reply_per_frame_cut :
    let i : Ingest := ⟨.none, none, ⟨none, true⟩⟩
    let s : ServerState Ledger := ⟨.empty, ⟨.empty⟩, [[]], 0⟩
    let stream : Bytes := [[0x78], RpcCall.encode ⟨7, "Ping", .null, []⟩].flatMap Frame.framed
    let moves : List SessionMove := [.arrive (stream.take 7), .turn, .turn, .turn,
      .arrive (stream.drop 7), .turn, .turn, .turn, .close, .turn]
    ∃ c, (Session.start s).run? (i.answerCall Ledger.store) moves = some c ∧
      c.replies.map RpcReply.id = [0, 7] ∧
      c.replies.map RpcReply.status = [.invalidArgument, .unimplemented] ∧
      c.replies.length = c.taken.length ∧ c.taken = (Frame.readAll [stream]).1 := by
  intro i s stream moves
  have harrived : Session.arrived moves = stream := by decide +kernel
  have hfits : Session.Fits (i.answerCall Ledger.store) s (Session.arrived moves) := by
    rw [Session.Fits, harrived, Frame.readAll_whole (by decide +kernel)]
    decide +kernel
  have hvalues : ((Session.start s).run? (i.answerCall Ledger.store) moves).map
      (fun c => (c.replies.map RpcReply.id, c.replies.map RpcReply.status, match c.phase with
        | .ended .closed _ => true
        | _ => false)) = some ([0, 7], [.invalidArgument, .unimplemented], true) := by
    decide +kernel
  obtain ⟨c, hc, hvalue⟩ := Option.map_eq_some_iff.mp hvalues
  obtain ⟨hids, hvalue⟩ := Prod.mk.inj hvalue
  obtain ⟨hstatuses, hover⟩ := Prod.mk.inj hvalue
  obtain ⟨u, hphase⟩ : ∃ u, c.phase = .ended .closed u := by
    split at hover
    next u hphase => exact ⟨u, hphase⟩
    next => cases hover
  obtain ⟨hcount, -, -, -, hall⟩ :=
    (one_reply_per_frame i Ledger.store s hc hfits).2.2.2.2.1 .closed u hphase
  refine ⟨c, hc, hids, hstatuses, hcount, ?_⟩
  rw [← harrived]
  exact (hall (fun h => nomatch h)).1

end Ingest
end Metering
