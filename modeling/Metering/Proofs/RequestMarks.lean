import Metering.Ingest.Layers
import Metering.Proofs.AddressText
import Metering.Proofs.Chaining

/-!
The marks of a request, from the end that sets them to the end that reads them.

A signature and an address are made of visible characters of one byte each. Such a text is a good
value of a header field, it is read back as it was written, and no blank is cut off from it. A
layer removes its own mark and leaves the others, so that each mark says the same to the layer
that it is meant for, wherever that stands.

Results:
1. `Text.Visible.plainText?_ofText`, `Text.Visible.trim_eq`: a visible text is read back.
2. `SigningKey.verify_sign`, `Network.check_text`: signatures and addresses are accepted.
3. `HttpRequest.post_eq`: a request is built, whatever is marked in it.
4. `Ingest.behind_without`: a layer leaves the marks of the others.
-/
namespace Metering

/-! ## 1. Visible texts -/

namespace Text

/-- A text of visible characters of one byte each. -/
def Visible (s : String) : Prop := ∀ c ∈ s.toList, 0x20 < c.toNat ∧ c.toNat < 0x7f

theorem ofText_ofList (cs : List Char) (h : ∀ c ∈ cs, c.toNat < 0x7f) :
    Bytes.ofText (String.ofList cs) = cs.map fun c => UInt8.ofNat c.toNat := by
  unfold Bytes.ofText
  rw [String.toByteArray_ofList]
  induction cs with
  | nil => rfl
  | cons c cs ih =>
    have hsize : c.utf8Size = 1 := by
      rw [Char.utf8Size_eq_one_iff, UInt32.le_iff_toNat_le]
      exact Nat.le_of_lt (h c List.mem_cons_self)
    rw [List.utf8Encode_cons, List.utf8Encode_singleton, String.utf8EncodeChar_eq_singleton hsize,
      ByteArray.data_append, Array.toList_append, ih fun d hd => h d (List.mem_cons_of_mem c hd)]
    rfl

namespace Visible

variable {s : String}

theorem ofText (h : Visible s) : Bytes.ofText s = s.toList.map fun c => UInt8.ofNat c.toNat := by
  have := ofText_ofList s.toList fun c hc => (h c hc).2
  rwa [String.ofList_toList] at this

/-- The byte of a visible character is in the same range. -/
theorem byte_spec {c : Char} (hlow : 0x20 < c.toNat) (hhigh : c.toNat < 0x7f) :
    (UInt8.ofNat c.toNat).toNat = c.toNat ∧ 0x20 ≤ UInt8.ofNat c.toNat ∧
      UInt8.ofNat c.toNat < 0x7f := by
  have hbyte : (UInt8.ofNat c.toNat).toNat = c.toNat := by
    rw [UInt8.toNat_ofNat']
    exact Nat.mod_eq_of_lt (Nat.lt_trans hhigh (by decide))
  refine ⟨hbyte, UInt8.le_iff_toNat_le.mpr ?_, UInt8.lt_iff_toNat_lt.mpr ?_⟩
  · rw [hbyte]
    exact Nat.le_of_lt hlow
  · rw [hbyte]
    exact hhigh

/-- What holds of the byte of each visible character holds of each byte of a visible text. -/
theorem all_bytes (h : Visible s) {f : UInt8 → Bool}
    (hf : ∀ b, 0x20 ≤ b → b < 0x7f → f b = true) : (Bytes.ofText s).all f = true := by
  rw [h.ofText, List.all_eq_true]
  intro b hb
  obtain ⟨c, hc, rfl⟩ := List.mem_map.mp hb
  obtain ⟨-, hlow, hhigh⟩ := byte_spec (h c hc).1 (h c hc).2
  exact hf _ hlow hhigh

/-- A visible text is good for a header field. -/
theorem all_isValueByte (h : Visible s) : (Bytes.ofText s).all Headers.isValueByte = true := by
  refine h.all_bytes fun b hlow hhigh => ?_
  have hne : b ≠ 0x7f := fun heq => absurd (heq ▸ hhigh) (by decide)
  unfold Headers.isValueByte
  rw [decide_eq_true hlow, bne_iff_ne.mpr hne]
  rfl

/-- A visible text is read back from a header field. -/
theorem plainText?_ofText (h : Visible s) : Headers.plainText? (Bytes.ofText s) = some s := by
  have hall : (Bytes.ofText s).all Headers.isTextByte = true := by
    refine h.all_bytes fun b hlow hhigh => ?_
    unfold Headers.isTextByte
    rw [decide_eq_true hlow, decide_eq_true hhigh]
    rfl
  have hchars : (Bytes.ofText s).map (fun b => Char.ofNat b.toNat) = s.toList := by
    rw [h.ofText, List.map_map]
    refine (List.map_congr_left fun c hc => ?_).trans (List.map_id _)
    show Char.ofNat (UInt8.ofNat c.toNat).toNat = c
    rw [(byte_spec (h c hc).1 (h c hc).2).1, Char.ofNat_toNat]
  unfold Headers.plainText?
  rw [if_pos hall, hchars, String.ofList_toList]

theorem isBlank_eq_false {c : Char} (hlow : 0x20 < c.toNat) (hhigh : c.toNat < 0x7f) :
    isBlank c = false := by
  unfold isBlank
  simp only [Bool.or_eq_false_iff, Bool.and_eq_false_iff, decide_eq_false_iff_not, beq_eq_false_iff_ne]
  omega

/-- No blank stands at the ends of a visible text. -/
theorem trim_eq (h : Visible s) : trim s = s := by
  have hdrop (cs : List Char) (hcs : ∀ c ∈ cs, isBlank c = false) : cs.dropWhile isBlank = cs :=
    HeadRuns.dropWhile_append (fun c (hc : c ∈ []) => by cases hc) fun c hc =>
      hcs c (List.mem_of_head? hc)
  have hblank : ∀ c ∈ s.toList, isBlank c = false := fun c hc =>
    isBlank_eq_false (h c hc).1 (h c hc).2
  unfold trim trimChars
  rw [hdrop _ hblank, hdrop _ fun c hc => hblank c (List.mem_reverse.mp hc), List.reverse_reverse,
    String.ofList_toList]

end Visible
end Text

/-! ## 2. Signatures and addresses -/

namespace SigningKey

theorem visible_sign (key : SigningKey) (body : Bytes) : Text.Visible (key.sign body) := by
  have hdigit : ∀ n < 16, 0x20 < (Hex.digit n).toNat ∧ (Hex.digit n).toNat < 0x7f := by decide
  intro c hc
  unfold sign Hex.text at hc
  rw [String.toList_ofList] at hc
  obtain ⟨x, -, hc⟩ := List.mem_flatMap.mp hc
  have hx : x.toNat < 256 := x.toNat_lt
  rcases List.mem_cons.mp hc with rfl | hc
  · exact hdigit _ (by omega)
  · rw [List.mem_singleton.mp hc]
    exact hdigit _ (by omega)

/-- A signature by one key is accepted by another one if their tags are the same. -/
theorem verify_sign_eq (near far : SigningKey) (plain body : Bytes) :
    far.verify body (some (near.sign plain)) =
      if Hmac.tag near.secret plain = Hmac.tag far.secret body then .ok ()
      else .error ⟨.integrity, .otherTag⟩ := by
  have htag : Hex.decode? (Text.trim (near.sign plain)).toList =
      some (Hmac.tag near.secret plain) := by
    rw [(near.visible_sign plain).trim_eq]
    unfold sign Hex.text
    rw [String.toList_ofList, Hex.decode_encode]
  unfold verify
  dsimp only
  rw [htag]

/-- A key accepts its own signature. -/
theorem verify_sign (key : SigningKey) (body : Bytes) :
    key.verify body (some (key.sign body)) = .ok () := by
  rw [verify_sign_eq, if_pos rfl]

end SigningKey

theorem IpAddress.visible_text (a : IpAddress) : Text.Visible a.text := by
  intro c hc
  rcases isPart_of_mem_text c hc with hdigit | rfl | rfl
  · obtain ⟨d, hd⟩ := Option.isSome_iff_exists.mp hdigit
    obtain ⟨hvalue, -⟩ := Option.filter_eq_some_iff.mp hd
    unfold Hex.value? at hvalue
    simp only [Char.le_def, UInt32.le_iff_toNat_le] at hvalue
    show 0x20 < c.val.toNat ∧ c.val.toNat < 0x7f
    split at hvalue
    · next h =>
      have h0 : '0'.val.toNat = 0x30 := rfl
      have h9 : '9'.val.toNat = 0x39 := rfl
      omega
    · split at hvalue
      · next h =>
        have ha : 'a'.val.toNat = 0x61 := rfl
        have hf : 'f'.val.toNat = 0x66 := rfl
        omega
      · split at hvalue
        · next h =>
          have ha : 'A'.val.toNat = 0x41 := rfl
          have hf : 'F'.val.toNat = 0x46 := rfl
          omega
        · cases hvalue
  · decide
  · decide

/-- A caller in a network passes its check by the text of its address. -/
theorem Network.check_text {n : Network} {a : IpAddress} (h : n.contains a = true) :
    n.check (some a.text) = .ok () := by
  unfold check
  rw [Option.map_some, a.visible_text.trim_eq]
  split
  · next hnone => cases hnone
  · next hempty => exact absurd (Option.some.inj hempty) a.text_ne_empty
  · next raw _ hraw =>
    obtain rfl := Option.some.inj hraw
    rw [IpAddress.ofText?_text]
    exact if_pos h

/-! ## 3. Requests -/

namespace Headers

/-- The fields that describe a payload have good values. -/
theorem all_isValueByte_describe {p : Payload} {caller : Option IpAddress}
    (hsignature : ∀ s, p.signature = some s → Text.Visible s) :
    (describe p caller).all (fun e => e.2.all isValueByte) = true := by
  have hjson : (Bytes.ofText json).all isValueByte = true := by decide +kernel
  have hgzip : (Bytes.ofText gzip).all isValueByte = true := by decide +kernel
  have hone : (Bytes.ofText "1").all isValueByte = true := by decide +kernel
  rw [List.all_eq_true]
  intro e he
  unfold describe at he
  simp only [List.mem_append, List.mem_cons, List.not_mem_nil, or_false] at he
  rcases he with ((((rfl | rfl) | he) | he) | he) | he
  · exact hjson
  · exact hgzip
  · split at he
    · rw [List.mem_singleton.mp he]
      exact hgzip
    · cases he
  · split at he
    · next s hs =>
      rw [List.mem_singleton.mp he]
      exact (hsignature s hs).all_isValueByte
    · cases he
  · split at he
    · rw [List.mem_singleton.mp he]
      exact hone
    · cases he
  · split at he
    · next a =>
      rw [List.mem_singleton.mp he]
      exact a.visible_text.all_isValueByte
    · cases he

/-- The address of the caller is read back from the fields that describe a payload. -/
theorem text?_realIp_describe (p : Payload) (caller : Option IpAddress) :
    text? (describe p caller) realIp = caller.map IpAddress.text := by
  have hnone : (describe p none).values realIp = [] := by
    obtain ⟨body, mark, isCompressed, isSealed⟩ := p
    cases isCompressed <;> cases isSealed <;> cases mark <;> rfl
  cases caller with
  | none =>
    unfold text? get?
    rw [hnone]
    rfl
  | some a =>
    have hlast : describe p (some a) = describe p none ++ [(realIp, Bytes.ofText a.text)] := by
      simp only [describe, List.append_nil]
    unfold text? get?
    unfold values at hnone ⊢
    rw [hlast, List.filterMap_append, hnone, List.nil_append]
    exact a.visible_text.plainText?_ofText

end Headers

theorem HttpRequest.post_eq {uri : String} {u : Uri} {p : Payload} {caller : Option IpAddress}
    (huri : Uri.parse uri = .ok u) (hsignature : ∀ s, p.signature = some s → Text.Visible s) :
    post uri p caller = .ok ⟨"POST", u, Headers.describe p caller, p.body⟩ := by
  unfold post
  rw [huri]
  exact if_pos (Headers.all_isValueByte_describe hsignature)

/-! ## 4. Layers -/

namespace Ingest

/-- A request behind a layer: only the body and the mark of that layer are others. -/
structure Behind (mark : String) (r inner : HttpRequest) : Prop where
  method : inner.method = r.method
  uri : inner.uri = r.uri
  text? : ∀ name, name ≠ mark → inner.headers.text? name = r.headers.text? name

theorem Behind.refl (mark : String) (r : HttpRequest) : Behind mark r r :=
  ⟨rfl, rfl, fun _ _ => rfl⟩

theorem behind_without (r : HttpRequest) (mark : String) (body : Bytes) :
    Behind mark r (without r mark body) := by
  refine ⟨rfl, rfl, fun name hname => ?_⟩
  have hvalues : (r.headers.filter fun e => e.1 != mark).filterMap
      (fun e => if e.1 = name then some e.2 else none) =
        r.headers.filterMap (fun e => if e.1 = name then some e.2 else none) := by
    rw [List.filterMap_filter]
    refine congrArg (fun f => List.filterMap f r.headers) (funext fun e => ?_)
    by_cases hmark : e.1 = mark
    · -- A field with the mark of the layer has not the other name.
      rw [if_neg (by rw [hmark]; simp), if_neg (by rw [hmark]; exact hname.symm)]
    · rw [if_pos (bne_iff_ne.mpr hmark)]
  exact congrArg (fun vs => (List.head? vs).bind Headers.plainText?) hvalues

theorem Behind.isGzip {r inner : HttpRequest} (h : Behind Headers.sealed r inner) :
    inner.headers.isGzip = r.headers.isGzip := by
  unfold Headers.isGzip
  rw [h.text? Headers.contentEncoding (by decide)]

theorem buffered_of_le {body : Bytes} (h : body.length ≤ maxMessageSize) :
    buffered body = .ok body := if_neg (Nat.not_lt.mpr h)

/-- The outer layer opens what the keys of the server open. -/
theorem opened_openSealed (i : Ingest) {r : HttpRequest} (hshort : r.body.length ≤ maxMessageSize) :
    match i.keys.openSealed r.body r.headers.isSealed with
    | .error f => i.opened r = .error f
    | .ok body => ∃ mid, i.opened r = .ok mid ∧ mid.body = body ∧ Behind Headers.sealed r mid := by
  have hskip (isSealed : Bool) (h : (i.keys.opening.isSome && isSealed) = false) :
      i.keys.openSealed r.body isSealed = .ok r.body := by
    unfold WireKeys.openSealed
    cases hkey : i.keys.opening with
    | none => rfl
    | some key =>
      rw [hkey] at h
      obtain rfl : isSealed = false := h
      rfl
  unfold opened
  rw [Chaining.bind_of_ok (buffered_of_le hshort)]
  cases hdue : i.keys.opening.isSome && r.headers.isSealed with
  | false =>
    rw [hskip _ hdue]
    exact ⟨r, rfl, rfl, .refl _ r⟩
  | true =>
    rw [(Bool.and_eq_true_iff.mp hdue).2, if_pos rfl]
    cases hopen : i.keys.openSealed r.body true with
    | error f => exact Chaining.bind_of_error rfl
    | ok body => exact ⟨without r Headers.sealed body, rfl, rfl, behind_without r _ body⟩

/-- The inner layer inflates what is marked as compressed. -/
theorem inflated_inflate {r : HttpRequest} (hshort : r.body.length ≤ maxMessageSize) :
    match (if r.headers.isGzip then WireKeys.inflate r.body else .ok r.body) with
    | .error f => inflated r = .error f
    | .ok body => ∃ inner, inflated r = .ok inner ∧ inner.body = body ∧
        Behind Headers.contentEncoding r inner := by
  unfold inflated
  rw [Chaining.bind_of_ok (buffered_of_le hshort)]
  cases r.headers.isGzip with
  | false => exact ⟨r, rfl, rfl, .refl _ r⟩
  | true =>
    rw [if_pos rfl, if_pos rfl]
    cases hplain : WireKeys.inflate r.body with
    | error f => exact Chaining.bind_of_error rfl
    | ok body => exact ⟨without r Headers.contentEncoding body, rfl, rfl, behind_without r _ body⟩

/-- The layers together take off what the marks of a request say, as a whole payload is unwrapped,
and they leave its signature and the address of its caller. -/
theorem received_unwrap (i : Ingest) {r : HttpRequest} (hcaller : i.checkCaller r = .ok ())
    (hshort : r.body.length ≤ maxMessageSize)
    (hopened : ∀ body, i.keys.openSealed r.body r.headers.isSealed = .ok body →
      body.length ≤ maxMessageSize) :
    match i.keys.unwrap (r.headers.payload r.body) with
    | .error f => i.received r = .error f
    | .ok plain => ∃ inner, i.received r = .ok inner ∧ inner.body = plain ∧
        inner.method = r.method ∧ inner.uri = r.uri ∧
        inner.headers.text? Headers.signature = r.headers.text? Headers.signature ∧
        source inner = source r := by
  unfold received WireKeys.unwrap Headers.payload
  rw [Chaining.bind_of_ok hcaller]
  -- Opening comes first; its body is what the inner layer works on, under the same other marks.
  have houter := opened_openSealed i hshort
  cases hopen : i.keys.openSealed r.body r.headers.isSealed with
  | error f =>
    rw [hopen] at houter
    exact Chaining.bind_of_error houter
  | ok body =>
    rw [hopen] at houter
    obtain ⟨mid, hmid, rfl, hbehind⟩ := houter
    have hinner := inflated_inflate (hopened mid.body hopen)
    rw [hbehind.isGzip] at hinner
    have hpasses (inner : HttpRequest) (hin : inflated mid = .ok inner)
        (h : Behind Headers.contentEncoding mid inner) :
        ∃ inner', inflated mid = .ok inner' ∧ inner'.body = inner.body ∧
          inner'.method = r.method ∧ inner'.uri = r.uri ∧
          inner'.headers.text? Headers.signature = r.headers.text? Headers.signature ∧
          source inner' = source r := by
      refine ⟨inner, hin, rfl, h.method.trans hbehind.method, h.uri.trans hbehind.uri, ?_, ?_⟩
      · rw [h.text? _ (by decide), hbehind.text? _ (by decide)]
      · unfold source
        rw [h.text? _ (by decide), hbehind.text? _ (by decide)]
    rw [Chaining.bind_of_ok hmid, Chaining.bind_of_ok rfl]
    cases hgzip : r.headers.isGzip with
    | false =>
      rw [hgzip] at hinner
      obtain ⟨inner, hin, hbody, h⟩ := hinner
      exact hbody ▸ hpasses inner hin h
    | true =>
      rw [hgzip, if_pos rfl] at hinner
      rw [if_pos rfl]
      cases hplain : WireKeys.inflate mid.body with
      | error f =>
        rw [hplain] at hinner
        exact hinner
      | ok plain =>
        rw [hplain] at hinner
        obtain ⟨inner, hin, rfl, h⟩ := hinner
        exact hpasses inner hin h

end Ingest
end Metering
