import Metering.Proofs.CutFrames
import Metering.Proofs.SessionReplies

/-!
Which call a reply answers.

After a call has run out of time its reply is still on the way, and the next call reads whatever
comes first. What is on the way is always an end of all that the server has written, and it can
start anywhere: a call that gives up inside a frame has taken the part that was there. From inside
a frame no reply is ever read, so a reply that a caller gets is one that the server wrote, whole.
Its number then says which call it is for, as long as it is not zero: the server has found that
number in a call, and a call that it finds was sent whole, even where frames before it were cut.
Zero is the number of every report of a message that holds no call, and such a report answers
whatever call comes next.

Results:
1. `exists_of_decode`: what can be read from an end of the written frames is one of the replies.
2. `Told.step`, `Told.run`: what every move on a connection keeps of the calls that were answered.
3. `replies_told_apart`: a reply with a number is the reply to its own call, and a reply without
   one is a report of a message that holds no call, of this call or an earlier one.
4. `late_report_taken_for_answer`: the earlier one is possible.
-/
namespace Metering

/-! ## 1. Ends of what was written -/

/-- The frames of replies, one after another. -/
def framedReplies (rs : List RpcReply) : Bytes := rs.flatMap fun r => Frame.framed r.encode

namespace LateReplyLemmas

/-- Where a beginning of a list is one of a row and a last item, its last item is in the row, or it
is the last one and the whole row stands in front of it. -/
theorem mem_or_last_of_prefix {l row : List α} {last x : α} {j : Nat}
    (h : l.take (j + 1) <+: row ++ [last]) (hx : l[j]? = some x) :
    x ∈ row ∨ x = last ∧ l.take j = row := by
  have htake : l.take (j + 1) = l.take j ++ [x] := by
    rw [List.take_add_one, hx]
    rfl
  rw [htake] at h
  rcases List.prefix_concat_iff.mp h with hall | hfront
  · obtain ⟨hrow, hlast⟩ := List.append_inj' hall rfl
    exact .inr ⟨List.singleton_inj.mp hlast, hrow⟩
  · exact .inl (hfront.subset (List.mem_append_right _ (List.mem_singleton_self x)))

/-- The first of four bytes counts sixteen million times. -/
theorem le_announced (x : UInt8) (rest : Bytes) (h : Frame.lengthWidth ≤ (x :: rest).length) :
    x.toNat * 0x1000000 ≤ Frame.announced (x :: rest) := by
  match rest, h with
  | y :: z :: w :: more, _ =>
    show x.toNat * 0x1000000 ≤
      (((0 * 256 + x.toNat) * 256 + y.toNat) * 256 + z.toNat) * 256 + w.toNat
    omega
  | [], h => exact absurd h (by simp [Frame.lengthWidth])
  | [_], h => exact absurd h (by simp [Frame.lengthWidth])
  | [_, _], h => exact absurd h (by simp [Frame.lengthWidth])

/-- Visible bytes announce more than any message holds. -/
theorem not_framed_of_visible {x : UInt8} {rest : Bytes} (hx : 0x20 ≤ x) {message after : Bytes}
    (hshort : message.length ≤ maxMessageSize) : x :: rest ≠ Frame.framed message ++ after := by
  intro h
  have hlength := congrArg List.length h
  rw [List.length_append, Frame.length_framed] at hlength
  have henough : Frame.lengthWidth ≤ (x :: rest).length := by
    rw [hlength, Nat.add_assoc]
    exact Nat.le_add_right _ _
  have hle := le_announced x rest henough
  rw [h, Frame.announced_framed hshort] at hle
  have hbyte : 0x20 ≤ x.toNat := UInt8.le_iff_toNat_le.mp hx
  have hmax : maxMessageSize < 0x20 * 0x1000000 := by decide
  omega

/-- An end of one string behind another is an end of the second, or it holds all of it. -/
theorem suffix_append {a b c : Bytes} (h : c <:+ a ++ b) :
    c <:+ b ∨ ∃ x u, x :: u <:+ a ∧ c = x :: u ++ b := by
  obtain ⟨before, heq⟩ := h
  rcases List.append_eq_append_iff.mp heq with ⟨u, ha, hc⟩ | ⟨u, -, hb⟩
  · cases u with
    | nil => exact .inl ⟨[], by rw [hc]; rfl⟩
    | cons x u => exact .inr ⟨x, u, ⟨before, ha.symm⟩, hc⟩
  · exact .inl ⟨u, hb.symm⟩

/-- From inside the length of a reply its text is read from behind its first byte. -/
theorem not_decode_of_inside {r : RpcReply} {v after message more : Bytes} {x : UInt8}
    (hv : (x :: v).length < Frame.lengthWidth)
    (h : x :: v ++ (r.encode ++ after) = Frame.framed message ++ more) (a : RpcReply) :
    RpcReply.decode message ≠ .ok a := by
  obtain ⟨text, htext⟩ := r.encode_head
  have hdrop := congrArg (List.drop Frame.lengthWidth) h
  rw [Frame.framed, List.append_assoc, List.drop_left' (Bytes.length_ofNatBig _ _), htext] at hdrop
  have hhead : ∃ b rest, message ++ more = b :: rest ∧ JsonCursor.isBlank b = false ∧ b ≠ 0x5b ∧
      b ≠ 0x7b := by
    rcases v with _ | ⟨_, _ | ⟨_, _ | ⟨_, _⟩⟩⟩
    · exact ⟨0x64, _, hdrop.symm, by decide, by decide, by decide⟩
    · exact ⟨0x69, _, hdrop.symm, by decide, by decide, by decide⟩
    · exact ⟨0x22, _, hdrop.symm, by decide, by decide, by decide⟩
    · exact absurd hv (by simp [Frame.lengthWidth])
  obtain ⟨b, rest, hbytes, hblank, hlist, hobject⟩ := hhead
  cases message with
  | nil =>
    intro hdecode
    cases hdecode
  | cons y ys =>
    obtain ⟨rfl, -⟩ := List.cons.inj hbytes
    exact RpcReply.not_decode_of_head hblank hlist hobject a

end LateReplyLemmas

open LateReplyLemmas

/-- What can be read from an end of the written frames is one of the replies. -/
theorem exists_of_decode {rs : List RpcReply}
    (hshort : ∀ r ∈ rs, r.encode.length ≤ maxMessageSize) {b : Bytes}
    (hend : b <:+ framedReplies rs) {message more : Bytes}
    (hframe : b = Frame.framed message ++ more) (hm : message.length ≤ maxMessageSize)
    {a : RpcReply} (ha : RpcReply.decode message = .ok a) :
    ∃ r ∈ rs, message = r.encode := by
  induction rs with
  | nil =>
    have hnil : b = [] := List.suffix_nil.mp hend
    rw [hnil] at hframe
    have hlength := congrArg List.length hframe
    rw [List.length_append, Frame.length_framed, List.length_nil] at hlength
    have hwidth : 0 < Frame.lengthWidth := by decide
    omega
  | cons r rs ih =>
    obtain ⟨hr, hrs⟩ := List.forall_mem_cons.mp hshort
    have hsplit : framedReplies (r :: rs) = Frame.framed r.encode ++ framedReplies rs :=
      List.flatMap_cons
    rw [hsplit] at hend
    rcases suffix_append hend with hlater | ⟨x, u, hinside, hb⟩
    · obtain ⟨r', hr', heq⟩ := ih hrs hlater
      exact ⟨r', List.mem_cons_of_mem r hr', heq⟩
    · rw [hb] at hframe
      rcases suffix_append hinside with htext | ⟨y, v, hlength, hu⟩
      · -- Inside the text of the reply: the next bytes announce too much.
        have hvisible : 0x20 ≤ x := r.visible_encode x (htext.subset List.mem_cons_self)
        exact absurd hframe (not_framed_of_visible hvisible hm)
      · rw [hu, List.append_assoc] at hframe
        have hwidth : (y :: v).length ≤ Frame.lengthWidth := by
          have hle := hlength.length_le
          rwa [Bytes.length_ofNatBig] at hle
        rcases Nat.lt_or_eq_of_le hwidth with hlt | heq
        · exact absurd ha (not_decode_of_inside hlt hframe a)
        · -- At the length: this is the frame.
          have hwhole : y :: v = Bytes.ofNatBig Frame.lengthWidth r.encode.length :=
            hlength.eq_of_length (by rw [heq, Bytes.length_ofNatBig])
          rw [hwhole, ← List.append_assoc] at hframe
          have hps : [Frame.framed r.encode ++ framedReplies rs].flatten =
              Frame.framed message ++ more := by
            rw [List.flatten_singleton]
            exact hframe
          obtain ⟨left, hread, -⟩ := Frame.read_framed hm hps
          obtain ⟨left', hread', -⟩ := Frame.read_framed hr
            (List.flatten_singleton (l := Frame.framed r.encode ++ framedReplies rs))
          obtain ⟨hsame, -⟩ := FrameRead.frame.inj (hread.symm.trans hread')
          exact ⟨r, List.mem_cons_self, hsame⟩

/-! ## 2. A course of calls -/

/-- What a call reads is an end of what has arrived, and a reply is a whole frame of it. -/
theorem RpcClient.receive_cases (client : RpcClient) (id : UInt64) (a : Arrivals) :
    (client.receive id a).2 <:+ a.bytes ∧
      ∀ r, (client.receive id a).1 = .ok r → ∃ message, message.length ≤ maxMessageSize ∧
        a.bytes = Frame.framed message ++ (client.receive id a).2 ∧
        accept id message = .ok r := by
  have hhead := Frame.read_cases [a.bytes]
  rw [List.flatten_singleton] at hhead
  unfold receive
  generalize Frame.read [a.bytes] = found at hhead ⊢
  cases hhead with
  | ended => exact ⟨List.nil_suffix, fun r h => nomatch h⟩
  | tooLarge => exact ⟨List.drop_suffix _ _, fun r h => nomatch h⟩
  | cutShort => exact ⟨List.nil_suffix, fun r h => nomatch h⟩
  | @frame message left hshort hbytes =>
    exact ⟨⟨_, hbytes.symm⟩, fun r h => ⟨message, hshort, hbytes, h⟩⟩

theorem RpcClient.of_accept {id : UInt64} {message : Bytes} {r : RpcReply}
    (h : accept id message = .ok r) : RpcReply.decode message = .ok r ∧ (r.id = id ∨ r.id = 0) := by
  unfold accept at h
  split at h
  next => cases h
  next r' hdecode =>
    split at h
    next hid =>
      obtain rfl := Except.ok.inj h
      exact ⟨hdecode, hid⟩
    next => cases h


namespace Session

/-- A move only adds to what a connection has taken and written, and what is written is short. -/
theorem log_step {handler : CallHandler σ} {c c' : Session σ} {m : SessionMove}
    (h : c.step? handler m = some c') :
    ∃ events, c'.log = c.log ++ events ∧
      ∀ r, .wrote r ∈ events → r.encode.length ≤ maxMessageSize := by
  have hsame : c'.log = c.log → ∃ events, c'.log = c.log ++ events ∧
      ∀ r, .wrote r ∈ events → r.encode.length ≤ maxMessageSize := fun hlog =>
    ⟨[], by rw [hlog, List.append_nil], fun r hr => nomatch hr⟩
  cases m with
  | arrive piece =>
    unfold step? at h
    dsimp only at h
    split at h
    next => cases h
    next =>
      obtain rfl := Option.some.inj h
      exact hsame rfl
  | close =>
    obtain rfl := Option.some.inj h
    exact hsame rfl
  | stop =>
    obtain rfl := Option.some.inj h
    exact hsame rfl
  | quit =>
    unfold step? at h
    dsimp only at h
    split at h
    next =>
      obtain rfl := Option.some.inj h
      exact hsame rfl
    next => cases h
  | turn =>
    unfold step? turn? at h
    dsimp only at h
    split at h
    next =>
      rcases take?_cases h with ⟨message, left, -, -, rfl⟩ | ⟨e, -, rfl⟩
      · exact ⟨[.took message], rfl, fun r hr => by simp at hr⟩
      · exact hsame rfl
    next =>
      obtain rfl := Option.some.inj h
      exact hsame rfl
    next message r hphase =>
      split at h
      next hwrite =>
        obtain rfl := Option.some.inj h
        refine ⟨[.wrote r], rfl, fun r' hr' => ?_⟩
        obtain rfl : r' = r := by simpa using hr'
        exact (Frame.short_of_write hwrite).1
      next =>
        obtain rfl := Option.some.inj h
        exact hsame rfl
    next => cases h

end Session

namespace RpcLine

/-- The frame at place `j` of those that the server has taken is the one that the call at place
`k` has sent, and it was taken from where that call was sent. -/
structure Received (line : RpcLine σ) (j k : Nat) (c : RpcCall) : Prop where
  message : line.session.taken[j]? = some c.encode
  place : (line.session.taken.take j).flatMap Frame.framed =
    (line.sentCalls.take k).flatMap SentCall.bytes

/-- What an answer `r` to the call at place `k` goes back to: a reply of the server to a frame that
it took from what was sent up to that call. -/
structure Answered (line : RpcLine σ) (k : Nat) (c : CallMade) (r : RpcReply) : Prop where
  whole : c.isWhole = true
  reply : ∃ j message r₀, line.session.taken[j]? = some message ∧
    line.session.replies[j]? = some r₀ ∧ RpcReply.decode r₀.encode = .ok r ∧
    (r.id = c.call.id ∨ r.id = 0) ∧
    (line.session.taken.take (j + 1)).flatMap Frame.framed <+:
      ((line.made.take (k + 1)).map CallMade.toSentCall).flatMap SentCall.bytes

/-- The answered calls can be traced back. -/
structure Told (handler : CallHandler σ) (s : σ) (line : RpcLine σ) : Prop where
  session : ∃ done, Session.Follows handler s (line.sentCalls.flatMap SentCall.bytes) done
    line.session
  fits : SentCall.Fits line.sentCalls
  ready : ∀ c ∈ line.current, c.call.encode.length ≤ maxMessageSize
  short : ∀ r ∈ line.session.replies, r.encode.length ≤ maxMessageSize
  answers : ∀ (k : Nat) c r, line.made[k]? = some c → c.answer = .ok r → line.Answered k c r

/-- More has been taken, written and made. -/
def Grows (line line' : RpcLine σ) : Prop :=
  line.session.taken <+: line'.session.taken ∧ line.session.replies <+: line'.session.replies ∧
    line.made <+: line'.made

variable {handler : CallHandler σ} {client : RpcClient} {s : σ} {line line' : RpcLine σ}

theorem Answered.mono {k : Nat} {c : CallMade} {r : RpcReply} (h : line.Answered k c r)
    (hk : k < line.made.length) (hgrows : line.Grows line') : line'.Answered k c r := by
  obtain ⟨⟨taken, htaken⟩, ⟨replies, hreplies⟩, ⟨made, hmade⟩⟩ := hgrows
  obtain ⟨hwhole, j, message, r₀, hmessage, hr₀, hdecode, hid, hplace⟩ := h
  have hj := (List.getElem?_eq_some_iff.mp hmessage).1
  have hj' := (List.getElem?_eq_some_iff.mp hr₀).1
  refine ⟨hwhole, j, message, r₀, ?_, ?_, hdecode, hid, ?_⟩
  · rw [← htaken, List.getElem?_append_left hj, hmessage]
  · rw [← hreplies, List.getElem?_append_left hj', hr₀]
  · rw [← htaken, ← hmade, List.take_append_of_le_length hj, List.take_append_of_le_length hk]
    exact hplace

theorem grows_of_log (hlog : line.session.log <+: line'.session.log)
    (hmade : line.made <+: line'.made) : line.Grows line' :=
  ⟨hlog.filterMap _, hlog.filterMap _, hmade⟩

/-- A server's move, or one by which bytes arrive, keeps the account if the bytes were sent. -/
theorem Told.session_step (h : line.Told handler s) {m : SessionMove} {session : Session σ}
    (hstep : line.session.step? handler m = some session) {current : Option SentCall}
    (hsent : ({ line with session, current } : RpcLine σ).sentCalls.flatMap SentCall.bytes =
      line.sentCalls.flatMap SentCall.bytes ++ Session.arrived [m])
    (hready : ∀ c ∈ current, c.call.encode.length ≤ maxMessageSize) :
    ({ line with session, current } : RpcLine σ).Told handler s := by
  obtain ⟨done, hdone⟩ := h.session
  obtain ⟨events, hlog, hshort⟩ := Session.log_step hstep
  refine ⟨?_, fun c hc hpos => ?_, hready, fun r hr => ?_, fun k c r hk hr => ?_⟩
  · rw [hsent]
    exact hdone.step hstep
  · rcases List.mem_append.mp hc with hc | hc
    · exact h.fits c (List.mem_append_left _ hc) hpos
    · exact hready c (Option.mem_toList.mp hc)
  · have hall : session.replies = line.session.replies ++ events.filterMap SessionEvent.reply? := by
      rw [Session.replies, hlog, List.filterMap_append]
      rfl
    rcases List.mem_append.mp (hall ▸ hr : r ∈ _ ++ _) with hr | hr
    · exact h.short r hr
    · obtain ⟨e, he, her⟩ := List.mem_filterMap.mp hr
      cases e with
      | took m => cases her
      | wrote r' =>
        obtain rfl := Option.some.inj her
        exact hshort r' he
  · exact (h.answers k c r hk hr).mono (List.getElem?_eq_some_iff.mp hk).1
      (grows_of_log (hlog ▸ List.prefix_append _ _) List.prefix_rfl)

/-- A call that is over leaves what was sent as it is; if it has an answer, that is traced back. -/
theorem Told.ended (h : line.Told handler s) {c : SentCall} (hc : line.current = some c)
    {answer : Except Failure RpcReply} {taken : Nat}
    (hanswer : ∀ r, answer = .ok r →
      (line.ended c answer taken).Answered line.made.length ⟨c, answer⟩ r) :
    (line.ended c answer taken).Told handler s := by
  have hsent : (line.ended c answer taken).sentCalls = line.sentCalls := by
    simp [sentCalls, RpcLine.ended, hc]
  refine ⟨hsent ▸ h.session, hsent ▸ h.fits, fun _ hnone => (nomatch hnone), h.short,
    fun k c' r hk hr => ?_⟩
  have hmade : (line.ended c answer taken).made = line.made ++ [⟨c, answer⟩] := rfl
  rw [hmade] at hk
  rcases Nat.lt_or_ge k line.made.length with hlt | hge
  · rw [List.getElem?_append_left hlt] at hk
    exact (h.answers k c' r hk hr).mono hlt
      (grows_of_log List.prefix_rfl (hmade ▸ List.prefix_append _ _))
  · rw [List.getElem?_append_right hge] at hk
    obtain ⟨hlast, rfl⟩ := List.getElem?_eq_some_iff.mp hk
    obtain rfl : k = line.made.length := by
      rw [List.length_singleton] at hlast
      omega
    simp only [Nat.sub_self, List.getElem_cons_zero] at hr ⊢
    exact hanswer r hr

/-- The server has taken whole frames from the front of what was sent. -/
theorem Told.prefix_taken (h : line.Told handler s) (n : Nat) :
    (line.session.taken.take n).flatMap Frame.framed <+:
      line.sentCalls.flatMap SentCall.bytes := by
  obtain ⟨done, hdone⟩ := h.session
  rw [hdone.arrived, ← hdone.taken_eq]
  nth_rewrite 2 [← List.take_append_drop n line.session.taken]
  rw [List.flatMap_append, List.append_assoc]
  exact List.prefix_append _ _

/-- What a call hears is a reply of the server, or a failure. -/
theorem Told.hear (h : line.Told handler s) {c : SentCall} (hc : line.current = some c)
    (hwhole : c.isWhole = true) (inTime : Nat) : (line.hear client c inTime).Told handler s := by
  obtain ⟨done, hdone⟩ := h.session
  obtain ⟨-, hreply⟩ := client.receive_cases c.call.id (line.arriving inTime)
  refine h.ended hc fun r hr => ⟨hwhole, ?_⟩
  obtain ⟨message, hshort, hbytes, haccept⟩ := hreply r hr
  obtain ⟨hdecode, hid⟩ := RpcClient.of_accept haccept
  have hway : line.onTheWay <:+ framedReplies line.session.replies := List.drop_suffix _ _
  have hframe : line.onTheWay = Frame.framed message ++
      ((client.receive c.call.id (line.arriving inTime)).2 ++ line.onTheWay.drop inTime) := by
    rw [← List.append_assoc, ← hbytes, arriving, List.take_append_drop]
  obtain ⟨r₀, hr₀, rfl⟩ := exists_of_decode h.short hway hframe hshort hdecode
  obtain ⟨j, hj⟩ := List.mem_iff_getElem?.mp hr₀
  have hlt : j < line.session.taken.length :=
    Nat.lt_of_lt_of_le (List.getElem?_eq_some_iff.mp hj).1 hdone.turns.2.2.1
  refine ⟨j, line.session.taken[j], r₀, List.getElem?_eq_getElem hlt, hj, hdecode, hid, ?_⟩
  have hsent : ∀ last : CallMade, last.toSentCall = c →
      ((line.made ++ [last]).take (line.made.length + 1)).map CallMade.toSentCall =
        line.sentCalls := by
    rintro last rfl
    rw [List.take_of_length_le (by simp), sentCalls, hc, List.map_append]
    rfl
  refine List.IsPrefix.trans (h.prefix_taken (j + 1)) ?_
  rw [← hsent ⟨c, (client.receive c.call.id (line.arriving inTime)).1⟩ rfl]
  exact List.prefix_refl _

/-- A call of which nothing was sent yet. -/
theorem Told.begun (h : line.Told handler s) (hcurrent : line.current = none) {c : RpcCall}
    (made : List CallMade) (current : Option SentCall)
    (hmade : made.map CallMade.toSentCall ++ current.toList = [⟨c, 0⟩])
    (hready : ∀ c ∈ current, c.call.encode.length ≤ maxMessageSize)
    (hanswer : ∀ m ∈ made, ∀ r, m.answer ≠ .ok r) :
    ({ line with made := line.made ++ made, current } : RpcLine σ).Told handler s := by
  have hsent : ({ line with made := line.made ++ made, current } : RpcLine σ).sentCalls =
      line.sentCalls ++ [⟨c, 0⟩] := by
    simp [sentCalls, hcurrent, ← hmade]
  refine ⟨?_, ?_, hready, h.short, fun k m r hk hr => ?_⟩
  · have hbytes : (line.sentCalls ++ [(⟨c, 0⟩ : SentCall)]).flatMap SentCall.bytes =
        line.sentCalls.flatMap SentCall.bytes := by
      simp [SentCall.bytes]
    rw [hsent, hbytes]
    exact h.session
  · rw [hsent]
    refine List.forall_mem_append.mpr ⟨h.fits, List.forall_mem_singleton.mpr fun hpos => ?_⟩
    exact absurd hpos (Nat.lt_irrefl 0)
  · rcases Nat.lt_or_ge k line.made.length with hlt | hge
    · rw [List.getElem?_append_left hlt] at hk
      exact (h.answers k m r hk hr).mono hlt
        (grows_of_log List.prefix_rfl (List.prefix_append _ _))
    · rw [List.getElem?_append_right hge] at hk
      exact absurd hr (hanswer m (List.mem_of_getElem? hk) r)

/-- What more is sent of a frame goes behind what was sent of it. -/
theorem SentCall.bytes_send (c : SentCall) (count : Nat) :
    ({ c with sent := c.sent + count } : SentCall).bytes =
      c.bytes ++ (c.frame.drop c.sent).take count := List.take_add

/-- Every move keeps the account. -/
theorem Told.step (h : line.Told handler s) {m : LineMove}
    (hstep : line.step? handler client m = some line') : line'.Told handler s := by
  have hserver : ∀ {m : SessionMove} {session : Session σ}, Session.arrived [m] = [] →
      line.session.step? handler m = some session →
      ({ line with session } : RpcLine σ).Told handler s := fun hquiet hsession =>
    h.session_step hsession (by rw [hquiet, List.append_nil]; rfl) h.ready
  cases m with
  | begin c =>
    unfold step? begin? at hstep
    dsimp only at hstep
    split at hstep
    next => cases hstep
    next f hcurrent hwrite =>
      obtain rfl := Option.some.inj hstep
      have hrefused : ∀ m ∈ [(⟨⟨c, 0⟩, .error f⟩ : CallMade)], ∀ r, m.answer ≠ .ok r :=
        List.forall_mem_singleton.mpr fun r hr => by cases hr
      have htold := h.begun hcurrent _ none rfl (fun _ hnone => by cases hnone) hrefused
      rwa [← hcurrent] at htold
    next b hcurrent hwrite =>
      obtain rfl := Option.some.inj hstep
      have hready : ∀ c' ∈ some (⟨c, 0⟩ : SentCall), c'.call.encode.length ≤ maxMessageSize := by
        intro c' hc'
        obtain rfl := Option.some.inj hc'
        exact (Frame.short_of_write hwrite).1
      have htold := h.begun hcurrent [] _ rfl hready (List.forall_mem_nil _)
      rwa [List.append_nil] at htold
  | send count =>
    obtain ⟨c, hc, hstep⟩ := Option.bind_eq_some_iff.mp hstep
    obtain ⟨session, hsession, hstep⟩ := Option.bind_eq_some_iff.mp hstep
    obtain rfl := Option.some.inj hstep
    refine h.session_step hsession ?_ ?_
    · simp only [sentCalls, hc, Option.toList_some, List.flatMap_append, List.flatMap_singleton,
        SentCall.bytes_send, List.append_assoc]
      simp [Session.arrived]
    · intro c' hc'
      obtain rfl := Option.some.inj hc'
      exact h.ready c hc
  | turn =>
    obtain ⟨session, hsession, hstep⟩ := Option.bind_eq_some_iff.mp hstep
    obtain rfl := Option.some.inj hstep
    exact hserver rfl hsession
  | stop =>
    obtain rfl := Option.some.inj hstep
    exact hserver (m := .stop) rfl rfl
  | quit =>
    obtain ⟨session, hsession, hstep⟩ := Option.bind_eq_some_iff.mp hstep
    obtain rfl := Option.some.inj hstep
    exact hserver rfl hsession
  | finish inTime =>
    obtain ⟨c, hc, hstep⟩ := Option.bind_eq_some_iff.mp hstep
    obtain rfl := Option.some.inj hstep
    split
    next hwhole => exact h.hear hc hwhole inTime
    next => exact h.ended hc fun r hr => by cases hr
  | fail fault taken =>
    obtain ⟨c, hc, hstep⟩ := Option.bind_eq_some_iff.mp hstep
    obtain rfl := Option.some.inj hstep
    exact h.ended hc fun r hr => by cases hr

theorem told_fresh (handler : CallHandler σ) (s : σ) : (fresh s).Told handler s where
  session := ⟨[], Session.follows_start⟩
  fits := fun _ h => nomatch h
  ready := fun _ h => nomatch h
  short := fun _ h => nomatch h
  answers := fun _ _ _ h => nomatch h

theorem Told.run (h : line.Told handler s) {ms : List LineMove}
    (hrun : line.run? handler client ms = some line') : line'.Told handler s := by
  induction ms generalizing line with
  | nil =>
    obtain rfl := Option.some.inj hrun
    exact h
  | cons m ms ih =>
    unfold run? at hrun
    split at hrun
    next line₁ hstep => exact ih (h.step hstep) hrun
    next => cases hrun

/-! ## 3. Whose answer it is -/

/-- A message that holds a call with the number of the call at place `k` is that call's own
frame. -/
theorem Told.received_of_decode (h : line.Told handler s)
    (hdistinct : (line.sentCalls.map fun c => c.call.id).Nodup) {j k : Nat} {message : Bytes}
    (hmessage : line.session.taken[j]? = some message) {call : RpcCall}
    (hcall : RpcCall.decode message = .ok call) {c : SentCall} (hk : line.sentCalls[k]? = some c)
    (hid : (∃ m ∈ line.sentCalls, call.id = m.call.id) → call.id = c.call.id) :
    line.Received j k c.call := by
  obtain ⟨done, hdone⟩ := h.session
  obtain ⟨hjlt, hj⟩ := List.getElem?_eq_some_iff.mp hmessage
  have htaken : line.session.taken =
      line.session.taken.take j ++ message :: line.session.taken.drop (j + 1) := by
    rw [← hj, List.getElem_cons_drop, List.take_append_drop]
  have hshort : message.length ≤ maxMessageSize :=
    hdone.short message (hdone.taken_eq ▸ List.mem_of_getElem? hmessage)
  have hstream : line.sentCalls.flatMap SentCall.bytes =
      (line.session.taken.take j).flatMap Frame.framed ++ (Frame.framed message ++
        ((line.session.taken.drop (j + 1)).flatMap Frame.framed ++ line.session.unread)) := by
    rw [hdone.arrived, ← hdone.taken_eq]
    nth_rewrite 1 [htaken]
    simp only [List.flatMap_append, List.flatMap_cons, List.append_assoc]
  obtain ⟨front, m, more, hsent, hfront, -, rfl⟩ :=
    SentCall.eq_encode_of_decode h.fits hshort hstream hcall
  have hm : line.sentCalls[front.length]? = some m := by
    rw [hsent, List.getElem?_append_right (Nat.le_refl _), Nat.sub_self]
    rfl
  have hnumber : call.id = m.call.id := RpcCall.id_of_decode_encode hcall
  -- Two calls with one number are one call.
  have hids : (line.sentCalls.map fun c => c.call.id)[front.length]? =
      (line.sentCalls.map fun c => c.call.id)[k]? := by
    rw [List.getElem?_map, List.getElem?_map, hm, hk]
    exact congrArg some (hnumber.symm.trans (hid ⟨m, List.mem_of_getElem? hm, hnumber⟩))
  have hlt : front.length < (line.sentCalls.map fun c => c.call.id).length := by
    rw [List.length_map]
    exact (List.getElem?_eq_some_iff.mp hm).1
  obtain rfl := (List.getElem?_inj hlt hdistinct).mp hids
  obtain rfl := Option.some.inj (hm.symm.trans hk)
  refine ⟨hmessage, ?_⟩
  rw [hfront, hsent, List.take_left]

/-- Where no frame was cut and every earlier call can be read, a message that cannot be read is the
frame of this call. -/
theorem Told.received_of_whole (h : line.Told handler s) {j k : Nat} {message : Bytes}
    (hmessage : line.session.taken[j]? = some message) {e : JsonFault}
    (herror : RpcCall.decode message = .error e) {c : SentCall}
    (hk : line.sentCalls[k]? = some c) (hwhole : c.isWhole = true)
    (hplace : (line.session.taken.take (j + 1)).flatMap Frame.framed <+:
      (line.sentCalls.take (k + 1)).flatMap SentCall.bytes)
    (hearlier : ∀ m ∈ line.sentCalls.take k, m.sent = 0 ∨ m.isWhole = true ∧
      ∃ call, RpcCall.decode m.call.encode = .ok call) : line.Received j k c.call := by
  obtain ⟨done, hdone⟩ := h.session
  have hparts : ∀ m ∈ line.sentCalls.take k, m.sent = 0 ∨ m.isWhole = true := fun m hm =>
    (hearlier m hm).imp_right And.left
  have hlast : line.sentCalls.take (k + 1) = line.sentCalls.take k ++ [c] := by
    rw [List.take_add_one, hk]
    rfl
  obtain ⟨hbytes, hpos⟩ := SentCall.bytes_of_isWhole hwhole
  have hstream : (line.sentCalls.take (k + 1)).flatMap SentCall.bytes =
      (SentCall.texts (line.sentCalls.take k) ++ [c.call.encode]).flatMap Frame.framed := by
    rw [hlast, List.flatMap_append, SentCall.flatMap_bytes_eq hparts, List.flatMap_append,
      List.flatMap_singleton, List.flatMap_singleton, hbytes]
  rw [hstream] at hplace
  have hfirst : line.session.taken.take (j + 1) <+:
      SentCall.texts (line.sentCalls.take k) ++ [c.call.encode] := by
    refine Frame.prefix_of_framed (fun m hm => ?_) (fun b hb => ?_) hplace
    · exact hdone.short m (hdone.taken_eq ▸ List.mem_of_mem_take hm)
    · rcases List.mem_append.mp hb with hb | hb
      · obtain ⟨m, hm, rfl⟩ := List.mem_map.mp hb
        obtain ⟨hm, hsent⟩ := List.mem_filter.mp hm
        exact h.fits m (List.mem_of_mem_take hm) (of_decide_eq_true hsent)
      · obtain rfl := List.mem_singleton.mp hb
        exact h.fits c (List.mem_of_getElem? hk) hpos
  rcases mem_or_last_of_prefix hfirst hmessage with hmem | ⟨rfl, htake⟩
  · -- An earlier text can be read.
    obtain ⟨m, hm, rfl⟩ := List.mem_map.mp hmem
    obtain ⟨hm, hsent⟩ := List.mem_filter.mp hm
    rcases hearlier m hm with hzero | ⟨-, call, hcall⟩
    · exact absurd (of_decide_eq_true hsent) (Nat.not_lt.mpr (Nat.le_of_eq hzero))
    · cases herror.symm.trans hcall
  · exact ⟨hmessage, by rw [htake, SentCall.flatMap_bytes_eq hparts]⟩

/-- A reply that bears a number is the reply to its own call.

In every course of calls with different numbers, none of them zero, over a server that answers a
call under its number, with any part of a call's frame sent before its time is up, any delays of the
server and any part of what it says in time:

* A call that returns a reply was sent whole, and the reply is one that the server has written.
* If it bears the number of the call, it is the reply to the very frame that this call has sent.
  Otherwise it bears zero and is the report of a message that holds no call, which the server has
  taken from what was sent up to this call.
* If every earlier call was sent whole or not at all, and can be read if it was sent, then the
  reply is the one to this call's frame. -/
theorem replies_told_apart (hid : ∀ call s, (handler call s).1.id = call.id) (client : RpcClient)
    (s : σ) {moves : List LineMove} {line : RpcLine σ}
    (hrun : (fresh s).run? handler client moves = some line)
    (hdistinct : (line.sentCalls.map fun c => c.call.id).Nodup)
    (hnonzero : ∀ c ∈ line.sentCalls, c.call.id ≠ 0) {k : Nat} {c : CallMade}
    (hk : line.made[k]? = some c) {r : RpcReply} (hr : c.answer = .ok r) :
    c.isWhole = true ∧
    ∃ j r₀, line.session.replies[j]? = some r₀ ∧ RpcReply.decode r₀.encode = .ok r ∧
      (r.id = c.call.id ∧ line.Received j k c.call ∨
        r.id = 0 ∧ ∃ message e, line.session.taken[j]? = some message ∧
          RpcCall.decode message = .error e ∧
          (line.session.taken.take (j + 1)).flatMap Frame.framed <+:
            (line.sentCalls.take (k + 1)).flatMap SentCall.bytes) ∧
      ((∀ earlier ∈ line.sentCalls.take k, earlier.sent = 0 ∨ earlier.isWhole = true ∧
          ∃ call, RpcCall.decode earlier.call.encode = .ok call) →
        line.Received j k c.call) := by
  have htold := (told_fresh handler s).run hrun
  obtain ⟨done, hdone⟩ := htold.session
  obtain ⟨hwhole, j, message, r₀, hmessage, hr₀, hdecode, hown, hplace⟩ := htold.answers k c r hk hr
  have hklt := (List.getElem?_eq_some_iff.mp hk).1
  have hsent : line.sentCalls[k]? = some c.toSentCall := by
    rw [sentCalls, List.getElem?_append_left (by rwa [List.length_map]), List.getElem?_map, hk]
    rfl
  have htake : (line.made.take (k + 1)).map CallMade.toSentCall = line.sentCalls.take (k + 1) := by
    rw [sentCalls, List.take_append_of_le_length (by rwa [List.length_map]), List.map_take]
  rw [htake] at hplace
  have hsame : r.id = r₀.id := RpcReply.id_of_decode_encode hdecode
  -- The replies of the session are those to the messages it took, place by place.
  have hanswers : Conversation.AnswersTo message r₀ := by
    have hall := Conversation.answersTo_answers hid (done.map Prod.fst) s
    rw [← hdone.replies, ← hdone.replies_eq, ← hdone.turns.2.1] at hall
    obtain ⟨hjlt, rfl⟩ := List.getElem?_eq_some_iff.mp hr₀
    obtain ⟨hj, rfl⟩ := List.getElem?_eq_some_iff.mp hmessage
    have hfirst : j < (line.session.taken.take line.session.replies.length).length := by
      rwa [hall.length_eq]
    have hboth := hall.get hfirst hjlt
    rwa [List.get_eq_getElem, List.get_eq_getElem, List.getElem_take] at hboth
  refine ⟨hwhole, j, r₀, hr₀, hdecode, ?_⟩
  unfold Conversation.AnswersTo at hanswers
  split at hanswers
  next call hcall =>
    have hnumber : r.id = call.id := hsame.trans hanswers
    -- The number of the reply is that of a call that was made, so it is not zero.
    have hreceived := htold.received_of_decode hdistinct hmessage hcall hsent
      fun ⟨m, hm, hcallid⟩ => hnumber.symm.trans (hown.resolve_right fun hzero =>
        hnonzero m hm (hcallid.symm.trans (hnumber.symm.trans hzero)))
    obtain rfl := Option.some.inj (hmessage.symm.trans hreceived.message)
    exact ⟨.inl ⟨hnumber.trans (RpcCall.id_of_decode_encode hcall), hreceived⟩, fun _ => hreceived⟩
  next e herror =>
    subst hanswers
    exact ⟨.inr ⟨hsame, message, e, hmessage, herror, hplace⟩,
      htold.received_of_whole hmessage herror hsent hwhole hplace⟩

/-- Two calls of a service: the first one is answered in time, the second one is cut. -/
theorem replies_told_apart_twice :
    let i : Ingest := ⟨.none, none, ⟨none, true⟩⟩
    let s : ServerState Ledger := ⟨.empty, ⟨.empty⟩, [[]], 0⟩
    let handler := i.answerCall Ledger.store
    let ping : UInt64 → RpcCall := fun id => ⟨id, "Ping", .null, []⟩
    let moves : List LineMove := [.begin (ping 7), .send 9, .send 1000, .turn, .turn, .turn,
      .finish 1000, .begin (ping 8), .send 9, .finish 1000]
    ∃ line c r, (fresh s).run? handler .standard moves = some line ∧
      line.made[0]? = some c ∧ c.answer = .ok r ∧ r.id = 7 ∧
      ∃ j r₀, line.session.replies[j]? = some r₀ ∧ RpcReply.decode r₀.encode = .ok r ∧
        line.Received j 0 c.call := by
  intro i s handler ping moves
  have hvalues : ((fresh s).run? handler .standard moves).map (fun line =>
      (line.sentCalls.map fun c => c.call.id,
        line.made.map fun c => c.answer.toOption.map RpcReply.id)) =
      some ([7, 8], [some 7, none]) := by decide +kernel
  obtain ⟨line, hrun, hvalue⟩ := Option.map_eq_some_iff.mp hvalues
  obtain ⟨hids, hanswers⟩ := Prod.mk.inj hvalue
  have hdistinct : (line.sentCalls.map fun c => c.call.id).Nodup := by
    rw [hids]
    decide
  have hnonzero : ∀ c ∈ line.sentCalls, c.call.id ≠ 0 := by
    have hall : ∀ id ∈ line.sentCalls.map fun c => c.call.id, id ≠ 0 := by
      rw [hids]
      simp
    exact fun c hc => hall _ (List.mem_map_of_mem hc)
  have hfirst : (line.made.map fun c => c.answer.toOption.map RpcReply.id)[0]? = some (some 7) := by
    rw [hanswers]
    rfl
  rw [List.getElem?_map] at hfirst
  obtain ⟨c, hc, hid⟩ := Option.map_eq_some_iff.mp hfirst
  obtain ⟨r, hr, hid⟩ := Option.map_eq_some_iff.mp hid
  have hok : c.answer = .ok r := by
    cases hanswer : c.answer with
    | ok r' =>
      rw [hanswer] at hr
      exact congrArg _ (Option.some.inj hr)
    | error f =>
      rw [hanswer] at hr
      cases hr
  obtain ⟨-, j, r₀, hr₀, hdecode, -, hreceived⟩ :=
    replies_told_apart (i.id_answerCall Ledger.store) .standard s hrun hdistinct hnonzero hc hok
  exact ⟨line, c, r, hrun, hc, hok, hid, j, r₀, hr₀, hdecode,
    hreceived fun earlier hearlier => nomatch hearlier⟩

/-- A report about an earlier message is taken for the answer to the second call. In the one course
the first call cannot be read and runs out of time, and the reply to the second call, which bears
its number, stands behind the report. In the other one both calls can be read, but the first one is
cut after five bytes, and the frame that the server takes is made of both. -/
theorem late_report_taken_for_answer :
    let i : Ingest := ⟨.none, none, ⟨none, true⟩⟩
    let s : ServerState Ledger := ⟨.empty, ⟨.empty⟩, [[]], 0⟩
    let handler := i.answerCall Ledger.store
    let ping : UInt64 → RpcCall := fun id => ⟨id, "Ping", .null, []⟩
    let nested : RpcCall := ⟨1, "Ping", Nat.repeat (fun j => .list [j]) 127 .null, []⟩
    let told (line : RpcLine (ServerState Ledger)) :=
      (line.made.map fun c => (c.call.id, c.answer.toOption.map fun r => (r.id, r.status)),
        line.session.taken.map fun m => m == (ping 2).encode,
        line.session.replies.map fun r => (r.id, r.status))
    ((fresh s).run? handler .standard [.begin nested, .send 1000, .finish 0, .begin (ping 2),
        .send 1000, .turn, .turn, .turn, .turn, .turn, .turn, .finish 1000]).map told =
      some ([(1, none), (2, some (0, .invalidArgument))], [false, true],
        [(0, .invalidArgument), (2, .unimplemented)]) ∧
    ((fresh s).run? handler .standard [.begin (ping 1), .send 5, .finish 0, .begin (ping 2),
        .send 1000, .turn, .turn, .turn, .finish 1000]).map told =
      some ([(1, none), (2, some (0, .invalidArgument))], [false], [(0, .invalidArgument)]) ∧
    (RpcCall.decode (ping 1).encode).isOk ∧ (RpcCall.decode (ping 2).encode).isOk := by
  intro i s handler ping nested told
  exact ⟨by decide +kernel, by decide +kernel, by decide +kernel, by decide +kernel⟩

end RpcLine
end Metering
