import Metering.Proofs.FrameStreams
import Metering.Proofs.OutlineReads
import Metering.Rpc.Client

/-!
What a server can take for a call when frames are cut.

The calls on a connection send beginnings of their frames, one behind the other, and the server
reads frames wherever it stands. A frame that was cut is filled up with what is sent next, so the
server may take messages that nobody wrote, and it may come out of step. But it never takes a call
that nobody made. A message that starts inside a text has a length that is too large. One that
starts at a length, or runs into the next frame, has a byte that stands in no document. And one that
starts inside a length goes on with the text behind it: then it is closed where that text is, and
the length that was announced for it is another one.

Results:
1. `Frame.head_framed`: a frame starts with a byte of no document.
2. `exists_of_flatMap`: where a byte of a row of pieces stands.
3. `not_shifted`: a length is not the length of itself and what is left of it.
4. `SentCall.eq_encode_of_decode`: a message that holds a call is the text of a call that was sent
   whole, and it was taken from where that call was sent.
5. `SentCall.flatMap_bytes_eq`: without cut frames the stream is that of the texts.
-/
namespace Metering

open Outline

/-! ## 1. Lengths -/

theorem Bytes.ofNatBig_four (n : Nat) : Bytes.ofNatBig 4 n =
    [UInt8.ofNat (n / 0x1000000), UInt8.ofNat (n / 0x10000), UInt8.ofNat (n / 0x100),
      UInt8.ofNat n] := by
  have h₂ : n / 256 / 256 = n / 0x10000 := Nat.div_div_eq_div_mul n 256 256
  have h₃ : n / 0x10000 / 256 = n / 0x1000000 := Nat.div_div_eq_div_mul n 0x10000 256
  show [UInt8.ofNat (n / 256 / 256 / 256), UInt8.ofNat (n / 256 / 256), UInt8.ofNat (n / 256),
    UInt8.ofNat n] = _
  rw [h₂, h₃]

/-- The first byte of a length is small. -/
theorem Frame.head_length {n : Nat} (h : n ≤ maxMessageSize) :
    ∃ x rest, Bytes.ofNatBig Frame.lengthWidth n = x :: rest ∧ x < 9 := by
  refine ⟨UInt8.ofNat (n / 0x1000000), _, Bytes.ofNatBig_four n, ?_⟩
  have hmax : maxMessageSize / 0x1000000 < 9 := by decide
  have hsmall : n / 0x1000000 < 9 := Nat.lt_of_le_of_lt (Nat.div_le_div_right h) hmax
  rw [UInt8.lt_iff_toNat_lt, UInt8.toNat_ofNat']
  exact Nat.lt_of_le_of_lt (Nat.mod_le _ _) hsmall

theorem Frame.head_framed {message : Bytes} (h : message.length ≤ maxMessageSize) :
    ∃ x rest, Frame.framed message = x :: rest ∧ x < 9 := by
  obtain ⟨x, rest, hlength, hx⟩ := Frame.head_length h
  exact ⟨x, rest ++ message, by rw [Frame.framed, hlength]; rfl, hx⟩

/-! ## 2. Pieces -/

/-- A byte of a row of pieces stands in one of them. -/
theorem exists_of_flatMap {f : α → List β} {ms : List α} {front rest : List β} {x : β}
    (h : ms.flatMap f = front ++ x :: rest) :
    ∃ done m more u v, ms = done ++ m :: more ∧ f m = u ++ x :: v ∧
      front = done.flatMap f ++ u ∧ rest = v ++ more.flatMap f := by
  induction ms generalizing front with
  | nil => exact absurd h.symm (List.append_ne_nil_of_right_ne_nil front (List.cons_ne_nil x rest))
  | cons m ms ih =>
    have hlater : ∀ t, front = f m ++ t → ms.flatMap f = t ++ x :: rest →
        ∃ done m' more u v, m :: ms = done ++ m' :: more ∧ f m' = u ++ x :: v ∧
          front = done.flatMap f ++ u ∧ rest = v ++ more.flatMap f := by
      rintro t rfl hms
      obtain ⟨done, m', more, u, v, rfl, hm', rfl, hrest⟩ := ih hms
      refine ⟨m :: done, m', more, u, v, rfl, hm', ?_, hrest⟩
      rw [List.flatMap_cons, List.append_assoc]
    rw [List.flatMap_cons] at h
    rcases List.append_eq_append_iff.mp h with ⟨t, hfront, hms⟩ | ⟨t, hm, hrest⟩
    · exact hlater t hfront hms
    · cases t with
      | nil =>
        rw [List.append_nil] at hm
        exact hlater [] (by rw [hm, List.append_nil]) hrest.symm
      | cons y t =>
        obtain ⟨rfl, rfl⟩ := List.cons.inj hrest
        exact ⟨[], m, ms, front, t, rfl, hm, rfl, rfl⟩

/-- A beginning of one string before another is a beginning of the first, or it holds all of it. -/
theorem prefix_append_cases {a b p : List α} (h : p <+: a ++ b) :
    p <+: a ∨ ∃ q, p = a ++ q ∧ q ≠ [] ∧ q <+: b := by
  obtain ⟨rest, heq⟩ := h
  rcases List.append_eq_append_iff.mp heq with ⟨t, ha, -⟩ | ⟨t, hp, hb⟩
  · exact .inl ⟨t, ha.symm⟩
  · cases t with
    | nil =>
      rw [List.append_nil] at hp
      exact .inl (hp ▸ List.prefix_refl p)
    | cons x t => exact .inr ⟨x :: t, hp, List.cons_ne_nil x t, ⟨rest, hb.symm⟩⟩

/-! ## 3. Inside a length -/

namespace Outline

theorem eq_before_of_step {s : Outline} {b : UInt8} (h : s.step b = some before) :
    s = before ∧ JsonCursor.isBlank b = true := by
  match s with
  | before =>
    simp only [step] at h
    split at h
    next hblank => exact ⟨rfl, hblank⟩
    next => split at h <;> cases h
  | after | within _ .inText | within _ .inEscape =>
    simp only [step] at h
    split_ifs at h <;> cases h
  | within depth .between | within depth .behindText =>
    simp only [step] at h
    cases depth <;> split_ifs at h <;> cases h

/-- Nothing but blanks stands in front of the bracket that is opened first. -/
theorem blank_of_scan {s : Outline} {b : Bytes} (h : s.scan b = some before) :
    s = before ∧ ∀ x ∈ b, JsonCursor.isBlank x = true := by
  induction b generalizing s with
  | nil => exact ⟨Option.some.inj h, List.forall_mem_nil _⟩
  | cons x b ih =>
    obtain ⟨s₁, hs₁, hrest⟩ := Option.bind_eq_some_iff.mp h
    obtain ⟨rfl, hb⟩ := ih hrest
    obtain ⟨hs, hx⟩ := eq_before_of_step hs₁
    exact ⟨hs, List.forall_mem_cons.mpr ⟨hx, hb⟩⟩

end Outline

theorem toNat_of_isBlank {b : UInt8} (h : JsonCursor.isBlank b = true) :
    9 ≤ b.toNat ∧ b.toNat ≤ 32 := by
  have hb : b = 0x20 ∨ b = 0x0a ∨ b = 0x09 ∨ b = 0x0d := by
    simpa [JsonCursor.isBlank, or_assoc] using h
  rcases hb with rfl | rfl | rfl | rfl <;> decide

theorem mod_of_ofNat_eq {a b : Nat} (h : UInt8.ofNat a = UInt8.ofNat b) : a % 256 = b % 256 := by
  have hb := congrArg UInt8.toNat h
  rwa [UInt8.toNat_ofNat', UInt8.toNat_ofNat'] at hb

theorem mod_of_isBlank {n : Nat} (h : JsonCursor.isBlank (UInt8.ofNat n) = true) :
    9 ≤ n % 256 ∧ n % 256 ≤ 32 := by
  have hb := toNat_of_isBlank h
  rwa [UInt8.toNat_ofNat'] at hb

/-- A little more than a number whose last byte is a blank has the same other bytes. -/
theorem bytes_add {n k : Nat} (hn : n % 256 ≤ 32) (hk : k ≤ 3) :
    (k + n) % 256 = n % 256 + k ∧ (k + n) / 0x100 = n / 0x100 ∧
      (k + n) / 0x10000 = n / 0x10000 := by omega

/-- What is left of a length would have to be blank, and then the length of a text with that in
front of it does not end like the part that is gone. -/
theorem not_shifted {n : Nat} (hn : n ≤ maxMessageSize) {gone left : Bytes} (hgone : gone ≠ [])
    (hleft : left ≠ []) (hlength : gone ++ left = Bytes.ofNatBig Frame.lengthWidth n)
    (hblank : ∀ b ∈ left, JsonCursor.isBlank b = true) :
    ¬ gone <:+ Bytes.ofNatBig Frame.lengthWidth (left.length + n) := by
  intro hsuffix
  have hfirst : n / 0x1000000 % 256 ≤ 6 := by
    have hmax : maxMessageSize / 0x1000000 = 6 := by decide
    exact (Nat.mod_le _ _).trans (hmax ▸ Nat.div_le_div_right hn)
  rw [Frame.lengthWidth, Bytes.ofNatBig_four] at hlength hsuffix
  have hdrop := List.suffix_iff_eq_drop.mp hsuffix
  -- By how many bytes of the length are gone; what is left of it is blank.
  match gone, hgone with
  | [x], _ =>
    obtain ⟨hx, rfl⟩ := List.cons.inj hlength
    have hlast := mod_of_isBlank (hblank (UInt8.ofNat n) (by simp))
    have hsame := mod_of_ofNat_eq (hx.symm.trans (List.cons.inj hdrop).1)
    have hshift : (3 + n) % 256 = n % 256 + 3 := (bytes_add hlast.2 (Nat.le_refl 3)).1
    simp only [List.length_cons, List.length_nil, Nat.zero_add, Nat.reduceAdd] at hsame
    omega
  | [x, y], _ =>
    obtain ⟨hx, htail⟩ := List.cons.inj hlength
    obtain ⟨hy, rfl⟩ := List.cons.inj htail
    have hlast := mod_of_isBlank (hblank (UInt8.ofNat n) (by simp))
    have hthird := mod_of_isBlank (hblank (UInt8.ofNat (n / 0x100)) (by simp))
    have hsame := mod_of_ofNat_eq (hx.symm.trans (List.cons.inj hdrop).1)
    have hshift := (bytes_add (k := 2) hlast.2 (by decide)).2.1
    simp only [List.length_cons, List.length_nil, Nat.zero_add, Nat.reduceAdd] at hsame
    rw [hshift] at hsame
    omega
  | [x, y, z], _ =>
    obtain ⟨hx, htail⟩ := List.cons.inj hlength
    obtain ⟨hy, htail⟩ := List.cons.inj htail
    obtain ⟨hz, rfl⟩ := List.cons.inj htail
    have hlast := mod_of_isBlank (hblank (UInt8.ofNat n) (by simp))
    obtain ⟨hx', hdrop⟩ := List.cons.inj hdrop
    obtain ⟨hy', hdrop⟩ := List.cons.inj hdrop
    have hsecond := mod_of_ofNat_eq (hx.symm.trans hx')
    have hthird := mod_of_ofNat_eq (hy.symm.trans hy')
    have hfourth := mod_of_ofNat_eq (hz.symm.trans (List.cons.inj hdrop).1)
    obtain ⟨hmod, hdiv, hdiv'⟩ := bytes_add (k := 1) hlast.2 (by decide)
    simp only [List.length_cons, List.length_nil, Nat.zero_add, Nat.reduceAdd] at *
    rw [hdiv'] at hsecond
    rw [hdiv] at hthird
    rw [hmod] at hfourth
    omega
  | x :: y :: z :: w :: more, _ =>
    have hcount := congrArg List.length hlength
    have hpos := List.length_pos_iff.mpr hleft
    simp only [List.length_append, List.length_cons, List.length_nil] at hcount
    omega

/-! ## 4. Messages that hold a call -/

namespace SentCall

/-- Where anything was sent of a call, its text is short enough. -/
def Fits (ms : List SentCall) : Prop :=
  ∀ m ∈ ms, 0 < m.sent → m.call.encode.length ≤ maxMessageSize

theorem sent_pos {m : SentCall} {u v : Bytes} {x : UInt8} (h : m.bytes = u ++ x :: v) :
    0 < m.sent := by
  refine Nat.pos_of_ne_zero fun hzero => ?_
  rw [bytes, hzero, List.take_zero] at h
  exact List.append_ne_nil_of_right_ne_nil u (List.cons_ne_nil x v) h.symm

theorem Fits.head_bytes {ms : List SentCall} (hfit : Fits ms) {m : SentCall} (hm : m ∈ ms)
    {x : UInt8} {v : Bytes} (h : m.bytes = x :: v) : x < 9 := by
  obtain ⟨y, rest, hframe, hy⟩ := Frame.head_framed (hfit m hm (sent_pos (u := []) h))
  have hprefix : x :: v <+: y :: rest := by
    rw [← h, ← hframe]
    exact List.take_prefix _ _
  obtain ⟨rfl, -⟩ := List.cons_prefix_cons.mp hprefix
  exact hy

section
variable {message : Bytes} {c : RpcCall} (hdecode : RpcCall.decode message = .ok c)
include hdecode

/-- A call ends in the piece in which it starts, for the next piece starts with a length. -/
theorem prefix_of_decode {more : List SentCall} (hfit : Fits more) {piece rest : Bytes}
    (h : message ++ rest = piece ++ more.flatMap bytes) : message <+: piece := by
  rcases List.append_eq_append_iff.mp h with ⟨t, hpiece, -⟩ | ⟨t, hmessage, hmore⟩
  · exact ⟨t, hpiece.symm⟩
  · cases t with
    | nil =>
      rw [List.append_nil] at hmessage
      exact hmessage ▸ List.prefix_refl message
    | cons y t =>
      have hmore : more.flatMap bytes = [] ++ y :: (t ++ rest) := hmore
      obtain ⟨done, m, more', u, v, rfl, hm, hfront, -⟩ := exists_of_flatMap hmore
      obtain ⟨-, rfl⟩ := List.append_eq_nil_iff.mp hfront.symm
      have hlow := hfit.head_bytes (List.mem_append_right _ List.mem_cons_self) hm
      have hmem : y ∈ message := hmessage ▸ List.mem_append_right _ List.mem_cons_self
      exact absurd hlow (not_low_of_scan (RpcCall.scan_of_decode hdecode) y hmem)

/-- No call starts inside the length of a text, if its own length is in front of it. -/
theorem not_inside_length {n : RpcCall} (hn : n.encode.length ≤ maxMessageSize)
    {gone left : Bytes} (hlength : gone ++ left = Bytes.ofNatBig Frame.lengthWidth n.encode.length)
    (hleft : left ≠ []) (hmessage : message <+: left ++ n.encode) :
    ¬ gone <:+ Bytes.ofNatBig Frame.lengthWidth message.length := by
  have hscan := RpcCall.scan_of_decode hdecode
  have hfour := RpcCall.four_le_length_of_decode hdecode
  have hgone : gone ≠ [] := by
    rintro rfl
    -- At the start of the length there is its first byte.
    obtain ⟨x, rest, hhead, hx⟩ := Frame.head_length hn
    rw [show left = x :: rest from hlength.trans hhead] at hmessage
    cases message with
    | nil => exact absurd hfour (by decide)
    | cons y message =>
      obtain ⟨rfl, -⟩ := List.cons_prefix_cons.mp hmessage
      exact not_low_of_scan hscan y List.mem_cons_self hx
  rcases prefix_append_cases hmessage with hshort | ⟨q, rfl, hq, hprefix⟩
  · -- What is left of a length is too short for a call.
    have hcount := congrArg List.length hlength
    have hpos := List.length_pos_iff.mpr hgone
    have hle := hshort.length_le
    rw [List.length_append, Bytes.length_ofNatBig, Frame.lengthWidth] at hcount
    omega
  · -- Otherwise the message ends with the text, and what is left of the length is blank.
    rw [scan_append] at hscan
    obtain ⟨s, hs, hscan⟩ := Option.bind_eq_some_iff.mp hscan
    obtain ⟨rfl, rfl⟩ := n.eq_encode_of_scan hprefix hq hscan
    rw [List.length_append]
    exact not_shifted hn hgone hleft hlength (blank_of_scan hs).2

/-- No call starts inside a text, if its own length is in front of it. -/
theorem not_inside_text {n : RpcCall} (hshort : message.length ≤ maxMessageSize)
    {gone left : Bytes} (htext : n.encode = gone ++ left) (hgone : gone ≠ [])
    (hmessage : message <+: left) {front front' : Bytes}
    (hfront : front ++ Bytes.ofNatBig Frame.lengthWidth message.length = front' ++ gone) :
    False := by
  have hlength : Bytes.ofNatBig Frame.lengthWidth message.length <:+ front' ++ gone :=
    ⟨front, hfront⟩
  rcases Nat.lt_or_ge gone.length Frame.lengthWidth with hfew | hmany
  · -- Behind less than four bytes of a text there is one of the first letters.
    obtain ⟨more, hhead⟩ := n.encode_head
    have hcases : ∃ x rest, left = x :: rest ∧ JsonCursor.isBlank x = false ∧ x ≠ 0x5b ∧
        x ≠ 0x7b := by
      rw [hhead] at htext
      match gone, hgone, hfew with
      | [_], _, _ =>
        obtain ⟨-, rfl⟩ := List.cons.inj htext
        exact ⟨0x22, _, rfl, by decide, by decide, by decide⟩
      | [_, _], _, _ =>
        obtain ⟨-, htext⟩ := List.cons.inj htext
        obtain ⟨-, rfl⟩ := List.cons.inj htext
        exact ⟨0x69, _, rfl, by decide, by decide, by decide⟩
      | [_, _, _], _, _ =>
        obtain ⟨-, htext⟩ := List.cons.inj htext
        obtain ⟨-, htext⟩ := List.cons.inj htext
        obtain ⟨-, rfl⟩ := List.cons.inj htext
        exact ⟨0x64, _, rfl, by decide, by decide, by decide⟩
    obtain ⟨x, rest, rfl, hblank, hlist, hobject⟩ := hcases
    have hfour := RpcCall.four_le_length_of_decode hdecode
    cases message with
    | nil => exact absurd hfour (by decide)
    | cons y message =>
      obtain ⟨rfl, -⟩ := List.cons_prefix_cons.mp hmessage
      exact (JsonReader.not_record_of_head hblank hlist hobject).run hdecode
  · -- Behind four or more, the announced length is made of visible bytes.
    have hinside : Bytes.ofNatBig Frame.lengthWidth message.length <:+ gone :=
      List.suffix_of_suffix_length_le hlength (List.suffix_append _ _)
        (by rwa [Bytes.length_ofNatBig])
    obtain ⟨x, rest, hhead, hx⟩ := Frame.head_length hshort
    have hmem : x ∈ n.encode := by
      rw [htext]
      refine List.mem_append_left _ (hinside.subset ?_)
      rw [hhead]
      exact List.mem_cons_self
    have hvisible : 0x20 ≤ x := n.visible_encode x hmem
    exact absurd (UInt8.lt_of_le_of_lt hvisible hx) (by decide)

end

/-- A message that starts right behind the length of a text has that length for its own. So it is
the text, and the text was sent whole. -/
theorem whole_of_aligned {m : SentCall} (hn : m.call.encode.length ≤ maxMessageSize)
    {front front' message v t : Bytes} (hshort : message.length ≤ maxMessageSize)
    (hm : m.bytes = Bytes.ofNatBig Frame.lengthWidth m.call.encode.length ++ v)
    (htext : m.call.encode = v ++ t) (hpiece : message <+: v)
    (hfront : front ++ Bytes.ofNatBig Frame.lengthWidth message.length =
      front' ++ Bytes.ofNatBig Frame.lengthWidth m.call.encode.length) :
    front = front' ∧ m.isWhole = true ∧ message = m.call.encode := by
  obtain ⟨hdone, hsame⟩ := List.append_inj' hfront (by simp)
  have hcount : message.length = m.call.encode.length := by
    have hbound : maxMessageSize < Nat.pow 256 Frame.lengthWidth := by decide
    have hvalue := congrArg Bytes.toNatBig hsame
    rwa [Bytes.toNatBig_ofNatBig (Nat.lt_of_le_of_lt hshort hbound),
      Bytes.toNatBig_ofNatBig (Nat.lt_of_le_of_lt hn hbound)] at hvalue
  refine ⟨hdone, ?_, (hpiece.trans ⟨t, htext.symm⟩).eq_of_length hcount⟩
  have hbytes : m.bytes.length = min m.sent m.frame.length := List.length_take
  have hle := hpiece.length_le
  rw [hm, List.length_append, Bytes.length_ofNatBig] at hbytes
  have hwhole : m.frame.length = Frame.lengthWidth + m.call.encode.length := Frame.length_framed _
  exact decide_eq_true (by omega)

/-- A message that holds a call was sent as one, whole, and from where it was taken. -/
theorem eq_encode_of_decode {ms : List SentCall} (hfit : Fits ms) {front message rest : Bytes}
    (hshort : message.length ≤ maxMessageSize)
    (hstream : ms.flatMap bytes = front ++ (Frame.framed message ++ rest)) {c : RpcCall}
    (hdecode : RpcCall.decode message = .ok c) :
    ∃ done m more, ms = done ++ m :: more ∧ front = done.flatMap bytes ∧ m.isWhole = true ∧
      message = m.call.encode := by
  have hfour := RpcCall.four_le_length_of_decode hdecode
  obtain ⟨x, tail, rfl⟩ : ∃ x tail, message = x :: tail := by
    cases message with
    | nil => exact absurd hfour (by decide)
    | cons x tail => exact ⟨x, tail, rfl⟩
  have hbyte : ms.flatMap bytes =
      (front ++ Bytes.ofNatBig Frame.lengthWidth (x :: tail).length) ++ x :: (tail ++ rest) := by
    rw [hstream, Frame.framed, List.append_assoc, List.append_assoc]
    rfl
  -- The first byte of the message stands in the frame of one call, behind `u`.
  obtain ⟨done, m, more, u, v, rfl, hm, hfront, hrest⟩ := exists_of_flatMap hbyte
  have hn : m.call.encode.length ≤ maxMessageSize :=
    hfit m (List.mem_append_right _ List.mem_cons_self) (sent_pos hm)
  have hmore : Fits more := fun m' hm' =>
    hfit m' (List.mem_append_right _ (List.mem_cons_of_mem m hm'))
  have hpiece : x :: tail <+: x :: v :=
    prefix_of_decode hdecode hmore
      (show x :: tail ++ rest = x :: v ++ more.flatMap bytes from congrArg (List.cons x) hrest)
  obtain ⟨t, hframe⟩ : u ++ x :: v <+: m.frame := hm ▸ List.take_prefix _ _
  rw [frame, Frame.framed, List.append_assoc] at hframe
  have haligned : u = Bytes.ofNatBig Frame.lengthWidth m.call.encode.length →
      m.call.encode = x :: v ++ t → ∃ done' m' more', done ++ m :: more = done' ++ m' :: more' ∧
        front = done'.flatMap bytes ∧ m'.isWhole = true ∧ x :: tail = m'.call.encode := by
    intro hu htext
    obtain ⟨hdone, hwhole, hmessage⟩ := whole_of_aligned hn hshort (hu ▸ hm) htext hpiece
      (hfront.trans (congrArg _ hu))
    exact ⟨done, m, more, rfl, hdone, hwhole, hmessage⟩
  -- It stands in the length of that frame, or in its text.
  rcases List.append_eq_append_iff.mp hframe with ⟨left, hlength, htext⟩ | ⟨gone, hu, htext⟩
  · cases left with
    | nil => exact haligned (by rw [hlength, List.append_nil]) htext.symm
    | cons y left =>
      have hmessage : x :: tail <+: (y :: left) ++ m.call.encode :=
        hpiece.trans ⟨t, htext⟩
      have hsuffix : u <:+ Bytes.ofNatBig Frame.lengthWidth (x :: tail).length := by
        refine List.suffix_of_suffix_length_le (hfront ▸ List.suffix_append _ u)
          (List.suffix_append front _) ?_
        have hcount := congrArg List.length hlength
        rw [List.length_append, Bytes.length_ofNatBig] at hcount
        rw [Bytes.length_ofNatBig, hcount]
        exact Nat.le_add_right _ _
      exact absurd hsuffix
        (not_inside_length hdecode hn hlength.symm (List.cons_ne_nil y left) hmessage)
  · cases gone with
    | nil => exact haligned (by rw [hu, List.append_nil]) htext
    | cons y gone =>
      rw [hu, ← List.append_assoc] at hfront
      exact (not_inside_text hdecode hshort htext (List.cons_ne_nil y gone)
        (hpiece.trans ⟨t, rfl⟩) hfront).elim

/-! ## 5. Frames that are not cut -/

/-- The texts of the calls of which anything was sent. -/
def texts (ms : List SentCall) : List Bytes :=
  (ms.filter fun m => 0 < m.sent).map fun m => m.call.encode

theorem bytes_of_isWhole {m : SentCall} (h : m.isWhole = true) :
    m.bytes = Frame.framed m.call.encode ∧ 0 < m.sent := by
  have hle : m.frame.length ≤ m.sent := of_decide_eq_true h
  have hpos : 0 < m.frame.length := by
    rw [frame, Frame.length_framed]
    exact Nat.lt_of_lt_of_le (by decide) (Nat.le_add_right Frame.lengthWidth _)
  exact ⟨List.take_of_length_le hle, Nat.lt_of_lt_of_le hpos hle⟩

/-- Calls that were sent whole or not at all make a stream of frames. -/
theorem flatMap_bytes_eq {ms : List SentCall} (h : ∀ m ∈ ms, m.sent = 0 ∨ m.isWhole = true) :
    ms.flatMap bytes = (texts ms).flatMap Frame.framed := by
  induction ms with
  | nil => rfl
  | cons m ms ih =>
    obtain ⟨hm, hms⟩ := List.forall_mem_cons.mp h
    rw [List.flatMap_cons, ih hms]
    rcases hm with hzero | hwhole
    · have htexts : texts (m :: ms) = texts ms := by
        simp [texts, hzero]
      rw [htexts, bytes, hzero, List.take_zero, List.nil_append]
    · obtain ⟨hbytes, hpos⟩ := bytes_of_isWhole hwhole
      have htexts : texts (m :: ms) = m.call.encode :: texts ms := by
        simp [texts, hpos]
      rw [htexts, hbytes, List.flatMap_cons]

end SentCall
end Metering
