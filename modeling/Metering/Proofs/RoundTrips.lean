import Metering.Proofs.EnvelopeText
import Metering.Proofs.SoundUpdates
import Metering.Store.Table

/-!
What is read back from the wire.

A list of records is read back bit for bit, if its readings are finite, and whatever is accepted as
a list of records has finite readings only. A document is read back if it has the form in which
documents are held (`Json.Held`), and so are calls and replies, as long as their documents do not
nest too deep for the reader.

There is one value that a reply cannot carry. A result that is `null` and no result at all have the
same text, so a call that went well with `null` is read back without a result.

Results:
1. `Metric.list_read_back`: lists of records.
2. `Json.Held.kept_eq`, `JsonReader.yields_value_held`: a document that is held is kept as it is,
   and what is read is held.
3. `RpcCall.decode_encode`, `RpcReply.decode_encode`: what is read back from any call and any
   reply.
4. `envelopes_read_back`: calls and replies with documents that are held, and `null_result_lost`.
-/
namespace Metering

open JsonReader

/-! ## 1. Records -/

namespace Metric

/-- A list of records is read back from its text exactly if its readings are finite. Whatever text
is accepted as a list of records, with fields that are `null`, fields without names or readings
that look like whole numbers: all readings are finite, and written once more the list is read back,
so every record of it asks for the same update or is refused for the same reason. -/
theorem list_read_back :
    (∀ ms : List Metric, decodeList (encodeList ms) = .ok ms ↔ ∀ m ∈ ms, m.Finite) ∧
      ∀ text ms, decodeList text = .ok ms →
        (∀ m ∈ ms, m.Finite) ∧
          ∃ again, decodeList (encodeList ms) = .ok again ∧ again = ms ∧
            again.map toUpdate = ms.map toUpdate := by
  refine ⟨fun ms => ⟨finite_of_decodeList, decodeList_encodeList ms⟩, fun text ms h => ?_⟩
  have hfinite := finite_of_decodeList h
  exact ⟨hfinite, ms, decodeList_encodeList ms hfinite, rfl, rfl⟩

/-- A record whose reading looks like a whole number, with a field that is `null`, and a record
without the names of its fields. -/
theorem list_read_back_unnamed :
    let text := Bytes.ofText
      ("[\x7b\"type\":\"gauge\",\"value\":5,\"delta\":null,\"id\":\"\\u0000\"\x7d," ++
        "[\"\",\"counter\",-9223372036854775808,null]]")
    let ms : List Metric :=
      [⟨"\u0000", .gauge, none, some ⟨0x4014000000000000⟩⟩, ⟨"", .counter, some Int64.minValue, none⟩]
    decodeList text = .ok ms ∧ (∀ m ∈ ms, m.Finite) ∧ decodeList (encodeList ms) = .ok ms := by
  intro text ms
  have htext : decodeList text = .ok ms := by decide +kernel
  obtain ⟨hfinite, again, hagain, rfl, -⟩ := list_read_back.2 text ms htext
  exact ⟨htext, hfinite, hagain⟩

/-- The smallest reading and the negative zero. -/
example : decodeList (encodeList [⟨"a", .gauge, none, some ⟨1⟩⟩,
    ⟨"b", .gauge, none, some ⟨0x8000000000000000⟩⟩]) =
      .ok [⟨"a", .gauge, none, some ⟨1⟩⟩, ⟨"b", .gauge, none, some ⟨0x8000000000000000⟩⟩] := by
  decide +kernel

end Metric

/-! ## 2. Documents that are held -/

namespace Json

/-- A document in the form in which it is held: whole numbers have 64 bits, other numbers are
finite, and the members of an object stand in the order of their keys, each key once. -/
inductive Held : Json → Prop
  | null : Held .null
  | bool (b : Bool) : Held (.bool b)
  | number {n : JsonNumber} : JsonReader.Writable n → Held (.number n)
  | text (s : String) : Held (.text s)
  | list {xs : List Json} : (∀ x ∈ xs, Held x) → Held (.list xs)
  | object {ms : List (String × Json)} : (ms.Pairwise fun a b => a.1 < b.1) →
    (∀ m ∈ ms, Held m.2) → Held (.object ms)

theorem keptMembers_eq (held ms : List (String × Json)) :
    keptMembers held ms = ms.foldl (fun acc m => Table.putEntry m.1 m.2.kept acc) held := by
  induction ms generalizing held with
  | nil => rw [keptMembers, List.foldl_nil]
  | cons m ms ih => rw [keptMembers, ih, JsonReader.insertMember_eq, List.foldl_cons]

theorem keptNumber_of_writable {n : JsonNumber} (h : JsonReader.Writable n) :
    keptNumber n = .number n := by
  cases n with
  | natural k => rfl
  | negative i => rfl
  | binary x => exact if_pos h

/-- A document that is held is kept as it is. -/
theorem Held.kept_eq {j : Json} (h : j.Held) : j.kept = j := by
  induction h with
  | null => rw [kept]
  | bool b => rw [kept]
  | number hn => rw [kept, keptNumber_of_writable hn]
  | text s => rw [kept]
  | list _ ih => rw [kept, keptItems_eq, List.map_congr_left ih, List.map_id']
  | @object ms hordered _ ih =>
    have hfold : ms.foldl (fun acc m => Table.putEntry m.1 m.2.kept acc) [] =
        ms.foldl (fun acc m => Table.putEntry m.1 m.2 acc) [] :=
      List.foldl_ext _ _ _ fun acc m hm => by rw [ih m hm]
    rw [kept, keptMembers_eq, hfold, Table.foldl_putEntry_of_ordered ms [] hordered]
    rfl

/-- A number is written and kept as it is, or it is not finite and is treated like `null`. -/
theorem Exact.writable_or_null {n : JsonNumber} (h : Exact n) :
    JsonReader.Writable n ∨ write (.number n) = write .null ∧ keptNumber n = .null := by
  cases n with
  | natural k => exact .inl h
  | negative i => exact .inl h
  | binary x =>
    by_cases hx : x.isFinite = true
    · exact .inl hx
    · refine .inr ⟨?_, if_neg hx⟩
      rw [write, write, numberText, if_neg hx]

/-- A value that is there, or none for `null`. -/
def present : Json → Option Json
  | .null => none
  | j => some j

theorem present_of_ne {j : Json} (h : j ≠ .null) : j.present = some j := by
  cases j with
  | null => exact absurd rfl h
  | _ => rfl

end Json

namespace JsonReader

theorem closed_held {inner : Option (JsonReader Json)} {Q : Json → Prop} {depth : Nat}
    (h : inner.isSome = true → ∃ d, depth = d + 1 ∧ ∀ j, Q j → j.Held ∧ j.Fits d) :
    Closed inner Q fun j => j.Held ∧ j.Fits depth where
  null := ⟨.null, .null⟩
  bool b := ⟨.bool b, .bool b⟩
  number _ hn := ⟨.number hn, .number (Json.exact_of_writable hn)⟩
  text s := ⟨.text s, .text s⟩
  list xs hsome hxs := by
    obtain ⟨d, rfl, hQ⟩ := h hsome
    exact ⟨.list fun x hx => (hQ x (hxs x hx)).1, .list fun x hx => (hQ x (hxs x hx)).2⟩
  object ms hsome hordered hms := by
    obtain ⟨d, rfl, hQ⟩ := h hsome
    exact ⟨.object hordered fun m hm => (hQ m.2 (hms m hm)).1,
      .object fun m hm => (hQ m.2 (hms m hm)).2⟩

/-- A document that was read is held, and its brackets nest no deeper than the reader goes. -/
theorem yields_value_held (depth : Nat) :
    Yields (value depth) fun j => j.Held ∧ j.Fits depth := by
  induction depth with
  | zero =>
    exact yields_valueWith (Q := fun _ => False) (closed_held fun h => nomatch h)
      fun value h => nomatch h
  | succ depth ih =>
    exact yields_valueWith (closed_held fun _ => ⟨depth, rfl, fun _ hj => hj⟩)
      fun value h => Option.some.inj h ▸ ih

/-! ## 3. Calls and replies -/

/-- The members of an object are read back between their braces. -/
theorem reads_object {step : σ → String → JsonReader σ} {init acc : σ} {ts : List Bytes}
    (h : MembersText step init ts acc) (rest : Bytes) :
    Reads (object step init) (0x7b :: (rowText [] [] ts ++ [0x7d])) acc rest := by
  unfold object
  refine Reads.bind_nil (reads_start gap_nil (by decide) _) ?_
  rw [if_pos rfl]
  exact reads_braced gap_nil gap_nil h rfl rest

/-- Only `null` starts with its first letter: what does not start so is there. -/
theorem reads_optional_some {p : JsonReader α} {t : Bytes} {a : α} (h : ValueText p t a)
    (hhead : t.head? ≠ some 0x6e) {rest : Bytes} (hrest : Ends rest) :
    Reads (optional p) t (some a) rest := by
  obtain ⟨b, more, rfl, hblank, -⟩ := h.starts
  unfold optional
  refine Reads.token hblank ?_
  split
  next hnull => exact absurd hnull hhead
  next => exact (h.reads rest hrest).map some

/-- A number does not start like `null`. -/
theorem head_numberText {n : JsonNumber} (hn : Writable n) :
    (Json.ascii (Json.numberText n)).head? ≠ some 0x6e := by
  obtain ⟨b, more, hhead, hb⟩ := numberText_head hn
  rw [hhead]
  exact fun h => (isBlank_of_numberHead hb).2 (Option.some.inj h)

/-- A document where a value may be missing: `null` is read as none. -/
theorem reads_optional_value {depth : Nat} {j : Json} (h : j.Fits depth) {rest : Bytes}
    (hrest : Ends rest) : Reads (optional (value depth)) j.write j.kept.present rest := by
  have hvalue := valueText_write h
  cases h with
  | null =>
    rw [Json.kept]
    exact reads_optional_null (value depth) gap_nil rest
  | bool b =>
    rw [Json.kept] at hvalue ⊢
    exact reads_optional_some hvalue (by cases b <;> decide) hrest
  | @number _ n hn =>
    rw [Json.kept] at hvalue ⊢
    rcases hn.writable_or_null with hwritable | ⟨hwrite, hkept⟩
    · rw [Json.keptNumber_of_writable hwritable] at hvalue ⊢
      exact reads_optional_some hvalue (head_numberText hwritable) hrest
    · rw [hwrite, hkept]
      exact reads_optional_null (value depth) gap_nil rest
  | text s =>
    rw [Json.kept] at hvalue ⊢
    rw [Json.write] at hvalue ⊢
    exact reads_optional_some hvalue (fun h => absurd (Option.some.inj h) (by decide)) hrest
  | list _ =>
    rw [Json.kept] at hvalue ⊢
    rw [Json.write_list] at hvalue ⊢
    exact reads_optional_some hvalue (fun h => absurd (Option.some.inj h) (by decide)) hrest
  | object _ =>
    rw [Json.kept] at hvalue ⊢
    rw [Json.write_object] at hvalue ⊢
    exact reads_optional_some hvalue (fun h => absurd (Option.some.inj h) (by decide)) hrest

/-- A text where a value may be missing. -/
theorem reads_optional_text (s : String) {rest : Bytes} (hrest : Ends rest) :
    Reads (optional text) (Json.quote s) (some s) rest := by
  have htext : ValueText text (Json.quote s) s :=
    ⟨⟨_, _, rfl, by decide, by decide⟩, fun rest _ => reads_text gap_nil s rest⟩
  exact reads_optional_some htext (fun h => absurd (Option.some.inj h) (by decide)) hrest

end JsonReader

namespace RpcCall

theorem insertEntry_eq (name value : String) (entries : List (String × String)) :
    insertEntry name value entries = Table.putEntry name value entries := by
  induction entries with
  | nil => rfl
  | cons e entries ih => rw [insertEntry, Table.putEntry, ih]

/-- The metadata of a call in the order of its names; of entries with one name the last counts. -/
def sorted (metadata : List (String × String)) : List (String × String) :=
  metadata.foldl (fun acc e => Table.putEntry e.1 e.2 acc) []

theorem sorted_ordered (metadata : List (String × String)) :
    (sorted metadata).Pairwise fun a b => a.1 < b.1 :=
  Table.ordered_foldl_putEntry metadata [] .nil

theorem sorted_perm {metadata : List (String × String)} (h : (metadata.map Prod.fst).Nodup) :
    (sorted metadata).Perm metadata := Table.foldl_putEntry_perm metadata [] h

theorem sorted_of_ordered {metadata : List (String × String)}
    (h : metadata.Pairwise fun a b => a.1 < b.1) : sorted metadata = metadata :=
  Table.foldl_putEntry_of_ordered metadata [] h

/-- How an entry of metadata is read, and put in its place. -/
def keepEntry (held : List (String × String)) (key : String) :
    JsonReader (List (String × String)) := do
  colon
  return insertEntry key (← text) held

theorem membersText_keepEntry (entries held : List (String × String)) :
    MembersText keepEntry held ((entries.map fun e => (e.1, Json.text e.2)).map Json.memberText)
      (entries.foldl (fun acc e => Table.putEntry e.1 e.2 acc) held) := by
  induction entries generalizing held with
  | nil => exact .nil
  | cons e entries ih =>
    refine .cons (fun rest _ => ?_) (ih _)
    have hcolon : Reads colon [0x3a] () (Json.quote e.2 ++ rest) :=
      Reads.token (by decide) (Reads.bump_self _ _)
    refine hcolon.bind ((reads_text gap_nil e.2 rest).bind_last ?_)
    rw [insertEntry_eq]
    exact Reads.pure _ _

/-- The four members of a call, one after another. -/
theorem membersText_toJson {c : RpcCall} (h : c.args.Fits (depthLimit - 1)) :
    ∃ members, c.toJson = .object members ∧
      MembersText (takeMember shape.fields) Draft.blank (members.map Json.memberText)
        ⟨some c.id, some c.method, some c.args.kept, some (sorted c.metadata)⟩ := by
  have hid (rest : Bytes) (hrest : Ends rest) :
      Reads (takeMember shape.fields Draft.blank "id") (0x3a :: (Json.nat c.id.toNat).write)
        ⟨some c.id, none, none, none⟩ rest := by
    refine reads_takeMember rfl rfl (Reads.bind_last ?_ (Reads.pure _ _))
    exact reads_numberOf (n := .natural c.id.toNat) c.id.toNat_lt
      (Json.acceptUInt64_natural c.id) hrest
  have hmethod (rest : Bytes) (_ : Ends rest) :
      Reads (takeMember shape.fields ⟨some c.id, none, none, none⟩ "method")
        (0x3a :: (Json.text c.method).write) ⟨some c.id, some c.method, none, none⟩ rest := by
    refine reads_takeMember rfl rfl (Reads.bind_last ?_ (Reads.pure _ _))
    exact reads_text gap_nil c.method rest
  have hargs (rest : Bytes) (hrest : Ends rest) :
      Reads (takeMember shape.fields ⟨some c.id, some c.method, none, none⟩ "args")
        (0x3a :: c.args.write) ⟨some c.id, some c.method, some c.args.kept, none⟩ rest := by
    refine reads_takeMember rfl rfl (Reads.bind_last ?_ (Reads.pure _ _))
    exact (valueText_write h).reads rest hrest
  refine ⟨_, rfl, .cons hid (.cons hmethod (.cons hargs (.cons (fun rest _ => ?_) .nil)))⟩
  refine reads_takeMember rfl rfl (Reads.bind_last ?_ (Reads.pure _ _))
  rw [Json.write_object]
  exact reads_object (membersText_keepEntry c.metadata []) rest

/-- Any call is read back, with its arguments as they are kept and its metadata in order. -/
theorem decode_encode {c : RpcCall} (h : c.args.Fits (depthLimit - 1)) :
    decode c.encode = .ok { c with args := c.args.kept, metadata := sorted c.metadata } := by
  obtain ⟨members, hjson, hmembers⟩ := membersText_toJson h
  rw [encode, hjson, Json.write_object]
  exact run_of_reads (reads_record gap_nil gap_nil hmembers rfl [])

end RpcCall

namespace RpcReply

theorem reads_status (status : RpcStatus) (rest : Bytes) :
    Reads (variant (RpcStatus.list.map RpcStatus.name)) (Json.quote status.name) status.name
      rest := by
  have hknown : (RpcStatus.list.map RpcStatus.name).contains status.name = true := by
    cases status <;> decide
  exact reads_variant gap_nil hknown rest

/-- The four members of a reply, one after another. -/
theorem membersText_toJson {r : RpcReply} (h : ∀ j ∈ r.result, j.Fits (depthLimit - 1)) :
    ∃ members, r.toJson = .object members ∧
      MembersText (takeMember shape.fields) Draft.blank (members.map Json.memberText)
        ⟨some r.id, some (r.result.bind fun j => j.kept.present), some r.error, some r.status⟩ := by
  have hid (rest : Bytes) (hrest : Ends rest) :
      Reads (takeMember shape.fields Draft.blank "id") (0x3a :: (Json.nat r.id.toNat).write)
        ⟨some r.id, none, none, none⟩ rest := by
    refine reads_takeMember rfl rfl (Reads.bind_last ?_ (Reads.pure _ _))
    exact reads_numberOf (n := .natural r.id.toNat) r.id.toNat_lt
      (Json.acceptUInt64_natural r.id) hrest
  have hresult (rest : Bytes) (hrest : Ends rest) :
      Reads (takeMember shape.fields ⟨some r.id, none, none, none⟩ "result")
        (0x3a :: (r.result.getD .null).write)
        ⟨some r.id, some (r.result.bind fun j => j.kept.present), none, none⟩ rest := by
    refine reads_takeMember rfl rfl (Reads.bind_last ?_ (Reads.pure _ _))
    cases hresult : r.result with
    | none => exact reads_optional_null (value (depthLimit - 1)) gap_nil rest
    | some j => exact reads_optional_value (h j hresult) hrest
  have herror (rest : Bytes) (hrest : Ends rest) :
      Reads (takeMember shape.fields
          ⟨some r.id, some (r.result.bind fun j => j.kept.present), none, none⟩ "error")
        (0x3a :: ((r.error.map Json.text).getD .null).write)
        ⟨some r.id, some (r.result.bind fun j => j.kept.present), some r.error, none⟩ rest := by
    refine reads_takeMember rfl rfl (Reads.bind_last ?_ (Reads.pure _ _))
    cases r.error with
    | none => exact reads_optional_null text gap_nil rest
    | some s => exact reads_optional_text s hrest
  refine ⟨_, rfl, .cons hid (.cons hresult (.cons herror (.cons (fun rest _ => ?_) .nil)))⟩
  refine reads_takeMember rfl rfl (Reads.bind_last (reads_status r.status rest) ?_)
  rw [RpcStatus.ofName?_name]
  exact Reads.pure _ _

/-- Any reply is read back, with its result as it is kept, if that is not `null`. -/
theorem decode_encode {r : RpcReply} (h : ∀ j ∈ r.result, j.Fits (depthLimit - 1)) :
    decode r.encode = .ok { r with result := r.result.bind fun j => j.kept.present } := by
  obtain ⟨members, hjson, hmembers⟩ := membersText_toJson h
  rw [encode, hjson, Json.write_object]
  exact run_of_reads (reads_record gap_nil gap_nil hmembers rfl [])

/-- A reply to a call that went well is read back with its result, if that is not `null`. -/
theorem decode_success (id : UInt64) {result : Json} (hheld : result.Held)
    (hfits : result.Fits (depthLimit - 1)) :
    decode (success id result).encode = .ok ⟨id, result.present, none, .ok⟩ := by
  have hresult : ∀ j ∈ (success id result).result, j.Fits (depthLimit - 1) := fun j hj =>
    Option.some.inj hj ▸ hfits
  have hread := decode_encode hresult
  have hbind : (success id result).result.bind (fun j => j.kept.present) = result.present :=
    congrArg Json.present hheld.kept_eq
  rw [hbind] at hread
  exact hread

end RpcReply

/-! ## 4. Envelopes -/

/-- Calls and replies are read back.

* A call whose arguments are held is read back exactly if they do not nest deeper than the reader
  goes. The entries of its metadata may be written in any order; they are read back in the order of
  their names.
* So is the reply to a call that went well, with its result, exactly if that is not `null`; a reply
  with the result `null` is read back without a result.
* So is every reply to a call that did not go well. -/
theorem envelopes_read_back (c : RpcCall) (id : UInt64) (result : Json) (status : RpcStatus)
    (error : String) :
    (c.args.Held → (c.metadata.map Prod.fst).Nodup →
      ∃ entries, entries.Perm c.metadata ∧ (entries.Pairwise fun a b => a.1 < b.1) ∧
        ((c.metadata.Pairwise fun a b => a.1 < b.1) → entries = c.metadata) ∧
        (RpcCall.decode c.encode = .ok { c with metadata := entries } ↔
          c.args.Fits (depthLimit - 1))) ∧
      (result.Held → result.Fits (depthLimit - 1) →
        (RpcReply.decode (RpcReply.success id result).encode = .ok (.success id result) ↔
          result ≠ .null)) ∧
      RpcReply.decode (RpcReply.success id .null).encode = .ok ⟨id, none, none, .ok⟩ ∧
      RpcReply.decode (RpcReply.failed id status error).encode =
        .ok (.failed id status error) := by
  have hnull := RpcReply.decode_success id .null .null
  refine ⟨fun hheld hnames => ⟨RpcCall.sorted c.metadata, RpcCall.sorted_perm hnames,
    RpcCall.sorted_ordered _, RpcCall.sorted_of_ordered, ?_, fun hfits => ?_⟩,
    fun hheld hfits => ⟨?_, fun hne => ?_⟩, hnull, ?_⟩
  · exact fun h => (RpcCall.args_of_decode (yields_value_held _) h).2
  · rw [RpcCall.decode_encode hfits, hheld.kept_eq]
  · rintro hread rfl
    have hresult : (none : Option Json) = some .null :=
      congrArg RpcReply.result (Except.ok.inj (hnull.symm.trans hread))
    cases hresult
  · rw [RpcReply.decode_success id hheld hfits, Json.present_of_ne hne]
    rfl
  · exact RpcReply.decode_encode fun j hj => nomatch hj

/-- A call of two entries of metadata, and a reply that has its arguments as the result. -/
theorem envelopes_read_back_echo :
    let c : RpcCall := ⟨7, "echo", .object [("n", .nat 1)],
      [("a", "1"), (RpcCall.realIpKey, "10.0.0.7")]⟩
    RpcCall.decode c.encode = .ok c ∧
      RpcReply.decode (RpcReply.success 7 c.args).encode = .ok (.success 7 c.args) := by
  intro c
  have hone : (1 : Nat) < 0x10000000000000000 := by decide
  have hheld : c.args.Held := by
    refine .object (List.pairwise_singleton _ _) fun m hm => ?_
    obtain rfl := List.mem_singleton.mp hm
    exact .number hone
  have hfits : c.args.Fits (depthLimit - 1) := by
    refine .object fun m hm => ?_
    obtain rfl := List.mem_singleton.mp hm
    exact .number hone
  obtain ⟨hcalls, hreplies, -⟩ := envelopes_read_back c 7 c.args .internal ""
  obtain ⟨entries, -, -, hentries, hread⟩ := hcalls hheld (by decide)
  obtain rfl := hentries (by decide)
  exact ⟨hread.mpr hfits, (hreplies hheld hfits).mpr fun h => nomatch h⟩

/-- What the server answers and what its client gets differ where the result is `null`. -/
theorem null_result_lost :
    ¬ ∀ id result, result.Held → result.Fits (depthLimit - 1) →
      RpcReply.decode (RpcReply.success id result).encode = .ok (.success id result) := by
  intro h
  have hsent := h 7 .null .null .null
  rw [RpcReply.decode_success 7 .null .null] at hsent
  have hresult : (none : Option Json) = some .null :=
    congrArg RpcReply.result (Except.ok.inj hsent)
  cases hresult

end Metering
