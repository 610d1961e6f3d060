import Mathlib.Data.List.DropRight
import Metering.Agent.HttpSender
import Metering.Proofs.RequestMarks

/-!
The address of a server, seen in two ways.

An agent reads its setting twice: as the address that requests go to, and as the place that its own
route is looked up for. The one puts the scheme in front unless it is there and drops the slashes at
the end; the other drops the scheme as often as it is there and all from the first slash on.

Results:
1. `withoutSlashes_append`, `takeWhile_withoutSlashes`: what dropping slashes leaves.
2. `hostPort_toList`, `serverUrl_toList`: both views of one rest of the address.
3. `viewsAgree_iff`: when the views agree.
4. `Uri.authority_of_parse`: which host a request goes to.
5. `route_leads_to_server_iff`: the views and the sender that is made of them.
-/
namespace Metering

namespace AgentSettings

/-! ## 1. Slashes at the end -/

theorem withoutSlashes_eq (cs : List Char) : withoutSlashes cs = cs.rdropWhile (· == '/') := rfl

theorem withoutSlashes_eq_nil_iff {cs : List Char} :
    withoutSlashes cs = [] ↔ ∀ c ∈ cs, c = '/' := by
  rw [withoutSlashes_eq, List.rdropWhile_eq_nil_iff]
  simp only [beq_iff_eq]

/-- A text is what is left of it without the slashes at its end, and those slashes. -/
theorem withoutSlashes_append (cs : List Char) :
    ∃ run, withoutSlashes cs ++ run = cs ∧ ∀ c ∈ run, c = '/' :=
  ⟨cs.rtakeWhile (· == '/'), List.rdropWhile_append_rtakeWhile,
    fun _ hc => beq_iff_eq.mp (List.mem_rtakeWhile_imp (p := (· == '/')) hc)⟩

theorem getLast?_withoutSlashes (cs : List Char) : (withoutSlashes cs).getLast? ≠ some '/' := by
  intro hslash
  have hne : withoutSlashes cs ≠ [] := by
    rintro hnil
    rw [hnil] at hslash
    cases hslash
  rw [List.getLast?_eq_some_getLast hne] at hslash
  exact List.rdropWhile_last_not (· == '/') cs hne (beq_iff_eq.mpr (Option.some.inj hslash))

/-- What stands in front of a text that is not all slashes stays there. -/
theorem withoutSlashes_of_append {cs : List Char} (h : withoutSlashes cs ≠ [])
    (before : List Char) : withoutSlashes (before ++ cs) = before ++ withoutSlashes cs := by
  have hkept : ¬(cs.reverse.dropWhile (· == '/')).isEmpty := by
    rw [List.isEmpty_iff]
    exact fun hnil => h (List.reverse_eq_nil_iff.mpr hnil)
  rw [withoutSlashes, List.reverse_append, List.dropWhile_append, if_neg hkept, List.reverse_append,
    List.reverse_reverse, withoutSlashes]

/-- Dropping slashes at the end changes nothing up to the first slash. -/
theorem takeWhile_withoutSlashes (cs : List Char) :
    (withoutSlashes cs).takeWhile (· != '/') = cs.takeWhile (· != '/') := by
  obtain ⟨run, hsplit, hrun⟩ := withoutSlashes_append cs
  conv => rhs; rw [← hsplit]
  refine (HeadRuns.takeWhile_append_of_stop (fun c hc => ?_) _).symm
  rw [hrun c (List.mem_of_head? hc)]
  rfl

/-! ## 2. Both views -/

/-- The address behind its scheme, if it has one. -/
def named (s : AgentSettings) : List Char :=
  if lead.isPrefixOf s.address.toList then s.address.toList.drop lead.length else s.address.toList

theorem withoutLeads_lead (cs : List Char) : withoutLeads (lead ++ cs) = withoutLeads cs := rfl

theorem withoutLeads_of_not_prefix {cs : List Char} (h : ¬ lead <+: cs) : withoutLeads cs = cs := by
  rw [withoutLeads.eq_def]
  split
  next rest => exact absurd ⟨rest, rfl⟩ h
  next => rfl

/-- With a lead or without, the address is known from what is behind it. -/
theorem address_cases (s : AgentSettings) :
    s.address.toList = lead ++ s.named ∨ s.address.toList = s.named ∧ ¬ lead <+: s.named := by
  unfold named
  split
  next hlead =>
    obtain ⟨rest, hrest⟩ := List.isPrefixOf_iff_prefix.mp hlead
    rw [← hrest, List.drop_left]
    exact .inl rfl
  next hlead => exact .inr ⟨rfl, fun h => hlead (List.isPrefixOf_iff_prefix.mpr h)⟩

theorem hostPort_toList (s : AgentSettings) :
    s.hostPort.toList = (withoutLeads s.named).takeWhile (· != '/') := by
  rw [hostPort, String.toList_ofList]
  rcases s.address_cases with haddress | ⟨haddress, -⟩
  · rw [haddress, withoutLeads_lead]
  · rw [haddress]

/-- Behind the scheme, requests go to the address without the slashes at its end. -/
theorem serverUrl_toList {s : AgentSettings} (h : withoutSlashes s.named ≠ []) :
    s.serverUrl.toList = lead ++ withoutSlashes s.named := by
  rw [serverUrl]
  rcases s.address_cases with haddress | ⟨haddress, hlead⟩
  · have hkept : withoutSlashes s.address.toList = lead ++ withoutSlashes s.named := by
      rw [haddress, withoutSlashes_of_append h]
    rw [hkept, if_pos (List.isPrefixOf_iff_prefix.mpr (List.prefix_append ..)),
      String.toList_ofList]
  · have hprefix : withoutSlashes s.named <+: s.named := List.rdropWhile_prefix _ _
    rw [haddress, if_neg fun h => hlead ((List.isPrefixOf_iff_prefix.mp h).trans hprefix),
      String.toList_ofList]

/-- An address that is all slashes behind its scheme loses the slashes of the scheme as well. -/
theorem serverUrl_of_slashes {s : AgentSettings} (h : withoutSlashes s.named = []) :
    s.serverUrl = "http://http:" ∨ s.serverUrl = "http://" := by
  have hslashes := withoutSlashes_eq_nil_iff.mp h
  rw [serverUrl]
  rcases s.address_cases with haddress | ⟨haddress, -⟩
  · left
    have hall : withoutSlashes s.address.toList = withoutSlashes lead := by
      rw [haddress, withoutSlashes, List.reverse_append, List.dropWhile_append_of_pos]
      · rfl
      · exact fun c hc => beq_iff_eq.mpr (hslashes c (List.mem_reverse.mp hc))
    rw [hall]
    rfl
  · right
    rw [haddress, h]
    rfl

/-! ## 3. Where they agree -/

/-- The address that requests go to is the scheme, the place that a route is looked up for, and a
rest behind a slash, and it does not end in one. -/
structure ViewsAgree (s : AgentSettings) : Prop where
  rest : ∃ rest : String, s.serverUrl = "http://" ++ s.hostPort ++ rest ∧
    (rest = "" ∨ rest.toList.head? = some '/')
  noSlash : s.serverUrl.toList.getLast? ≠ some '/'

/-- A run without slashes in front of nothing or of a slash is what stands before the first one. -/
theorem eq_takeWhile_iff {run cs : List Char} (hrun : '/' ∉ run) :
    (∃ rest : List Char, cs = run ++ rest ∧ (rest = [] ∨ rest.head? = some '/')) ↔
      run = cs.takeWhile (· != '/') := by
  constructor
  · rintro ⟨rest, rfl, hrest⟩
    refine (HeadRuns.takeWhile_append (fun c hc => ?_) fun c hc => ?_).symm
    · exact bne_iff_ne.mpr fun hslash => hrun (hslash ▸ hc)
    · rcases hrest with rfl | hrest
      · cases hc
      · obtain rfl := Option.some.inj (hrest.symm.trans hc)
        rfl
  · rintro rfl
    refine ⟨cs.dropWhile (· != '/'), List.takeWhile_append_dropWhile.symm, ?_⟩
    have hhead := List.head?_dropWhile_not (· != '/') cs
    cases hrest : cs.dropWhile (· != '/') with
    | nil => exact .inl rfl
    | cons c rest =>
      rw [hrest] at hhead
      exact .inr (congrArg some (by simpa using hhead))

theorem not_mem_hostPort (s : AgentSettings) : '/' ∉ s.hostPort.toList := by
  rw [hostPort_toList]
  intro hslash
  exact absurd rfl (bne_iff_ne.mp (List.mem_takeWhile_imp (p := (· != '/')) hslash))

/-- The first half of the agreement, on characters. -/
theorem exists_rest_iff (s : AgentSettings) {cs : List Char} (h : s.serverUrl.toList = lead ++ cs) :
    (∃ rest : String, s.serverUrl = "http://" ++ s.hostPort ++ rest ∧
      (rest = "" ∨ rest.toList.head? = some '/')) ↔
      s.hostPort.toList = cs.takeWhile (· != '/') := by
  rw [← eq_takeWhile_iff s.not_mem_hostPort]
  constructor
  · rintro ⟨rest, hurl, hrest⟩
    refine ⟨rest.toList, ?_, hrest.imp_left fun hempty => by rw [hempty]; rfl⟩
    rw [hurl, String.toList_append, String.toList_append, List.append_assoc] at h
    exact (List.append_cancel_left h).symm
  · rintro ⟨rest, rfl, hrest⟩
    have htext : (String.ofList rest).toList = rest := String.toList_ofList
    refine ⟨String.ofList rest, ?_, ?_⟩
    · rw [← String.toList_inj, h, String.toList_append, String.toList_append, htext,
        List.append_assoc]
      rfl
    · rw [htext]
      exact hrest.imp_left fun hnil => congrArg String.ofList hnil

theorem hostPort_of_slashes {s : AgentSettings} (h : withoutSlashes s.named = []) :
    s.hostPort.toList = [] := by
  have hslashes := withoutSlashes_eq_nil_iff.mp h
  have hlead : ¬ lead <+: s.named := fun hlead =>
    absurd (hslashes 'h' (hlead.subset List.mem_cons_self)) (by decide)
  rw [hostPort_toList, withoutLeads_of_not_prefix hlead, ← takeWhile_withoutSlashes, h]
  rfl

/-- What stands before the first slash is the same place unless the scheme is repeated there. -/
theorem hostPort_toList_eq_iff (s : AgentSettings) :
    s.hostPort.toList = s.named.takeWhile (· != '/') ↔
      (lead <+: s.named → s.hostPort = "http:") := by
  by_cases hlead : lead <+: s.named
  · obtain ⟨rest, hrest⟩ := hlead
    rw [← hrest, ← String.toList_inj]
    exact ⟨fun h _ => h, fun h => h (List.prefix_append ..)⟩
  · rw [hostPort_toList, withoutLeads_of_not_prefix hlead]
    exact ⟨fun _ h => absurd h hlead, fun _ => rfl⟩

/-- The views agree if the address has more than slashes behind its scheme and does not repeat the
scheme there. If it does repeat it, one view has the first of the further schemes for a host and
the other what stands behind the last; that is the same only if a host is named like a scheme. -/
theorem viewsAgree_iff (s : AgentSettings) : s.ViewsAgree ↔
    (∃ c ∈ s.named, c ≠ '/') ∧ (lead <+: s.named → s.hostPort = "http:") := by
  have hslashes : withoutSlashes s.named = [] ↔ ¬ ∃ c ∈ s.named, c ≠ '/' := by
    rw [withoutSlashes_eq_nil_iff]
    simp only [not_exists, not_and, not_not]
  by_cases hnil : withoutSlashes s.named = []
  · refine ⟨fun h => ?_, fun h => absurd h.1 (hslashes.mp hnil)⟩
    rcases serverUrl_of_slashes hnil with hurl | hurl
    · -- The colon of the scheme is left, which is neither of a host nor behind a slash.
      have htext : s.serverUrl.toList = lead ++ "http:".toList := by
        rw [hurl]
        rfl
      have hhost := (s.exists_rest_iff htext).mp h.rest
      rw [hostPort_of_slashes hnil] at hhost
      cases hhost
    · exact absurd (by rw [hurl]; rfl) h.noSlash
  · have hurl := serverUrl_toList hnil
    have hlast : s.serverUrl.toList.getLast? ≠ some '/' := by
      rw [hurl, List.getLast?_append_of_ne_nil _ hnil]
      exact getLast?_withoutSlashes _
    have hrest := s.exists_rest_iff hurl
    rw [takeWhile_withoutSlashes, hostPort_toList_eq_iff] at hrest
    constructor
    · exact fun h => ⟨not_not.mp fun hnone => hnil (hslashes.mpr hnone), hrest.mp h.rest⟩
    · exact fun h => ⟨hrest.mpr h.2, hlast⟩

end AgentSettings

/-! ## 4. Where requests go -/

namespace Bytes

theorem ofText_eq_flatMap (s : String) : ofText s = s.toList.flatMap String.utf8EncodeChar := by
  conv => lhs; rw [← String.ofList_toList (s := s)]
  rw [ofText, String.toByteArray_ofList, List.utf8Encode, List.data_toByteArray]

/-- Below `0x80`, a byte of a character is that character. -/
theorem toNat_of_mem_utf8EncodeChar {c : Char} {b : UInt8} (h : b ∈ String.utf8EncodeChar c)
    (hb : b.toNat < 0x80) : b.toNat = c.toNat := by
  have hc : c.val.toNat = c.toNat := rfl
  unfold String.utf8EncodeChar at h
  dsimp only at h
  split at h
  · obtain rfl := List.mem_singleton.mp h
    rw [UInt8.toNat_ofNat']
    omega
  · exfalso
    split at h
    · simp only [List.mem_cons, List.not_mem_nil, or_false] at h
      rcases h with rfl | rfl <;> rw [UInt8.toNat_ofNat'] at hb <;> omega
    · split at h <;> simp only [List.mem_cons, List.not_mem_nil, or_false] at h
      · rcases h with rfl | rfl | rfl <;> rw [UInt8.toNat_ofNat'] at hb <;> omega
      · rcases h with rfl | rfl | rfl | rfl <;> rw [UInt8.toNat_ofNat'] at hb <;> omega

end Bytes

namespace Uri

/-- Whether a character ends the host of an address. -/
def endsHost (c : Char) : Bool := c == '/' || c == '?' || c == '#'

/-- A text up to where a host would end. -/
def hostOf (cs : List Char) : String := String.ofList (cs.takeWhile fun c => !endsHost c)

theorem endsHost_of_mem {c : Char} {b : UInt8} (h : b ∈ String.utf8EncodeChar c)
    (hb : endsAuthority b = true) : endsHost c = true := by
  have hsame : ∀ d : Char, b.toNat = d.toNat → b.toNat < 0x80 → c = d := fun d hd hlow =>
    Char.toNat_inj.mp ((Bytes.toNat_of_mem_utf8EncodeChar h hlow).symm.trans hd)
  simp only [endsAuthority, Bool.or_eq_true, beq_iff_eq] at hb
  rcases hb with (rfl | rfl) | rfl
  · rw [hsame '/' rfl (by decide)]; rfl
  · rw [hsame '?' rfl (by decide)]; rfl
  · rw [hsame '#' rfl (by decide)]; rfl

theorem utf8EncodeChar_of_endsHost {c : Char} (h : endsHost c = true) :
    ∃ b, String.utf8EncodeChar c = [b] ∧ endsAuthority b = true := by
  simp only [endsHost, Bool.or_eq_true, beq_iff_eq] at h
  rcases h with (rfl | rfl) | rfl <;> exact ⟨_, rfl, rfl⟩

/-- A host ends at the same place in a text and in its bytes. -/
theorem takeWhile_ofText (cs : List Char) :
    (Bytes.ofText (String.ofList cs)).takeWhile (fun b => !endsAuthority b) =
      Bytes.ofText (hostOf cs) := by
  rw [Bytes.ofText_eq_flatMap, Bytes.ofText_eq_flatMap, hostOf, String.toList_ofList,
    String.toList_ofList]
  conv => lhs; rw [← List.takeWhile_append_dropWhile (p := fun c => !endsHost c) (l := cs)]
  rw [List.flatMap_append]
  refine HeadRuns.takeWhile_append (fun b hb => ?_) fun b hb => ?_
  · obtain ⟨c, hc, hbc⟩ := List.mem_flatMap.mp hb
    rw [Bool.not_eq_true']
    by_contra hends
    have hin := List.mem_takeWhile_imp hc
    rw [endsHost_of_mem hbc (Bool.not_eq_false _ ▸ hends)] at hin
    cases hin
  · have hhead := List.head?_dropWhile_not (fun c => !endsHost c) cs
    cases hrest : cs.dropWhile fun c => !endsHost c with
    | nil => rw [hrest] at hb; cases hb
    | cons c rest =>
      rw [hrest] at hb hhead
      obtain ⟨x, hx, hends⟩ := utf8EncodeChar_of_endsHost (c := c) (by simpa using hhead)
      rw [List.flatMap_cons, hx] at hb
      obtain rfl := Option.some.inj hb
      rw [hends]
      rfl

theorem splitScheme_lead (x : Bytes) :
    splitScheme (Bytes.ofText "http://" ++ x) = .ok (some "http", x) := by
  have hname : ([0x68, 0x74, 0x74, 0x70, 0x3a, 0x2f, 0x2f] ++ x).takeWhile isSchemeByte =
      [0x68, 0x74, 0x74, 0x70] := by
    simp [List.takeWhile, isSchemeByte, isAlphanumeric]
  have hlead : Bytes.ofText "http://" = [0x68, 0x74, 0x74, 0x70, 0x3a, 0x2f, 0x2f] := by decide
  unfold splitScheme
  rw [hlead]
  simp only [hname]
  rfl

theorem splitAuthority_eq {x head left : Bytes} (h : splitAuthority x = .ok (head, left)) :
    head = x.takeWhile fun b => !endsAuthority b := by
  unfold splitAuthority at h
  split at h
  next => cases h
  next =>
    dsimp only at h
    split at h
    next => cases h
    next =>
      split at h
      next => exact (Prod.mk.inj (Except.ok.inj h)).1.symm
      next => cases h

theorem eq_of_textOf {s t : String} (h : textOf (Bytes.ofText s) = .ok t) : t = s := by
  unfold textOf at h
  rw [Bytes.toText?_ofText] at h
  exact (Except.ok.inj h).symm

/-- An address behind the scheme names the host up to the first character that ends one. -/
theorem authority_of_parse {s : String} {u : Uri} {cs : List Char}
    (hs : s.toList = "http://".toList ++ cs) (h : parse s = .ok u) :
    u.scheme = some "http" ∧ u.authority = hostOf cs := by
  have hbytes : Bytes.ofText s = Bytes.ofText "http://" ++ Bytes.ofText (String.ofList cs) := by
    rw [Bytes.ofText_eq_flatMap, hs, List.flatMap_append, ← Bytes.ofText_eq_flatMap,
      Bytes.ofText_eq_flatMap (String.ofList cs), String.toList_ofList]
  have hlead : Bytes.ofText "http://" = [0x68, 0x74, 0x74, 0x70, 0x3a, 0x2f, 0x2f] := by decide
  unfold parse at h
  simp only [hbytes, splitScheme_lead] at h
  rw [hlead] at h
  split at h
  next => cases h
  next =>
    rw [if_neg (by simp), if_neg (by simp), if_neg (by simp), Chaining.bind_of_ok rfl] at h
    obtain ⟨⟨head, left⟩, hsplit, h⟩ := Chaining.ok_of_bind h
    dsimp only at h
    split at h
    next => cases h
    next =>
      obtain ⟨pathAndQuery, -, h⟩ := Chaining.ok_of_bind h
      obtain ⟨authority, hauthority, h⟩ := Chaining.ok_of_bind h
      obtain rfl := Except.ok.inj h
      rw [splitAuthority_eq hsplit, takeWhile_ofText] at hauthority
      exact ⟨rfl, eq_of_textOf hauthority⟩

end Uri

/-! ## 5. The sender of an agent -/

namespace HttpSender

/-- A sender that was made of settings has both views of the address in them. -/
theorem of_ofSettings {s : AgentSettings} {disk : Disk} {route : String → Option IpAddress}
    {sender : HttpSender} (h : ofSettings s disk route = .ok sender) :
    s.validate = .ok () ∧ sender.base = s.serverUrl ∧ sender.caller = route s.hostPort := by
  unfold ofSettings at h
  obtain ⟨⟨⟩, hvalid, h⟩ := Chaining.ok_of_bind h
  obtain ⟨sealing, -, h⟩ := Chaining.ok_of_bind h
  obtain rfl := Except.ok.inj h
  exact ⟨hvalid, rfl, rfl⟩

theorem parse_of_request {s : HttpSender} {source : PaddingSource} {path : String}
    {document : Bytes} {r : HttpRequest} (h : s.request source path document = .ok r) :
    Uri.parse (s.base ++ path) = .ok r.uri := by
  unfold request at h
  split at h
  next => cases h
  next payload hpayload =>
    unfold HttpRequest.post at h
    cases huri : Uri.parse (s.base ++ path) with
    | error fault =>
      rw [huri] at h
      cases h
    | ok u =>
      rw [huri] at h
      dsimp only at h
      split at h
      next => rw [← Except.ok.inj h]
      next => cases h

/-- Without keys, every document can be sent to an address. -/
theorem exists_request (s : HttpSender) (hsigning : s.keys.signing = none)
    (hsealing : s.keys.sealing = none) {path : String} {u : Uri}
    (huri : Uri.parse (s.base ++ path) = .ok u) (source : PaddingSource) (document : Bytes) :
    ∃ r, s.request source path document = .ok r := by
  have hencode : s.keys.encode source document =
      .ok ⟨Gzip.compress document, none, true, false⟩ := by
    unfold WireKeys.encode WireKeys.encodeWith WireKeys.sign
    rw [hsealing, hsigning]
    rfl
  unfold request
  rw [hencode]
  dsimp only
  rw [HttpRequest.post_eq huri fun t ht => by cases ht]
  exact ⟨_, rfl⟩

end HttpSender

namespace AgentSettings

/-- Where the views agree, the host of every request is that of the route. -/
theorem ViewsAgree.authority_of_parse {s : AgentSettings} (h : s.ViewsAgree) {path : String}
    (hpath : path.toList.head? = some '/') {u : Uri}
    (hparse : Uri.parse (s.serverUrl ++ path) = .ok u) :
    u.scheme = some "http" ∧ u.authority = Uri.hostOf s.hostPort.toList := by
  obtain ⟨rest, hurl, hrest⟩ := h.rest
  have hsplit : (s.serverUrl ++ path).toList =
      "http://".toList ++ (s.hostPort.toList ++ (rest.toList ++ path.toList)) := by
    rw [hurl, String.toList_append, String.toList_append, String.toList_append, List.append_assoc,
      List.append_assoc]
  have hslash : ∀ c, (rest.toList ++ path.toList).head? = some c → (!Uri.endsHost c) = false := by
    intro c hc
    have hhead : (rest.toList ++ path.toList).head? = some '/' := by
      rcases hrest with rfl | hrest
      · exact hpath
      · rw [List.head?_append, hrest]
        rfl
    obtain rfl := Option.some.inj (hhead.symm.trans hc)
    rfl
  obtain ⟨hscheme, hauthority⟩ := Uri.authority_of_parse hsplit hparse
  refine ⟨hscheme, hauthority.trans ?_⟩
  rw [Uri.hostOf, HeadRuns.takeWhile_append_of_stop hslash, Uri.hostOf]

/-- The two views of the address of a server, for every setting.

They agree if and only if the address has more than slashes behind its scheme and does not repeat
the scheme there, or repeats it in front of a host that is named like one. A sender that is made of
the settings states the address of the route to the one view. If the views agree, each of its
requests goes to the host of that route. -/
theorem route_leads_to_server_iff (s : AgentSettings) :
    (s.ViewsAgree ↔ (∃ c ∈ s.named, c ≠ '/') ∧ (lead <+: s.named → s.hostPort = "http:")) ∧
    ∀ disk route sender, HttpSender.ofSettings s disk route = .ok sender →
      s.validate = .ok () ∧ sender.base = s.serverUrl ∧ sender.caller = route s.hostPort ∧
      (s.ViewsAgree → ∀ source path document r, path.toList.head? = some '/' →
        sender.request source path document = .ok r →
        r.uri.scheme = some "http" ∧ r.uri.authority = Uri.hostOf s.hostPort.toList) := by
  refine ⟨s.viewsAgree_iff, fun disk route sender hsender => ?_⟩
  obtain ⟨hvalid, hbase, hcaller⟩ := HttpSender.of_ofSettings hsender
  refine ⟨hvalid, hbase, hcaller, fun hagree source path document r hpath hrequest => ?_⟩
  have hparse := HttpSender.parse_of_request hrequest
  rw [hbase] at hparse
  exact hagree.authority_of_parse hpath hparse

/-- An address with a path and slashes behind it, and a request of a sender that is made of it. -/
theorem route_leads_to_server_iff_behind_path :
    let s : AgentSettings := { standard with address := "http://10.0.0.1:9000/base//" }
    let route : String → Option IpAddress := fun p =>
      if p = "10.0.0.1:9000" then some (.v4 0x0a000002) else none
    let sender : HttpSender := ⟨s.serverUrl, ⟨none, none, none⟩, route s.hostPort⟩
    HttpSender.ofSettings s default route = .ok sender ∧ s.ViewsAgree ∧
      HttpSender.singlePath.toList.head? = some '/' ∧
      ∃ r, sender.request (fun _ _ => 0) HttpSender.singlePath [] = .ok r ∧
        r.uri.authority = "10.0.0.1:9000" := by
  intro s route sender
  obtain ⟨hagree, hmade⟩ := route_leads_to_server_iff s
  have hvalid : s.validate = .ok () := by decide +kernel
  have hsender : HttpSender.ofSettings s default route = .ok sender := by
    unfold HttpSender.ofSettings
    rw [Chaining.bind_of_ok hvalid]
    rfl
  have hviews : s.ViewsAgree :=
    hagree.mpr ⟨⟨'1', by decide +kernel⟩, fun h => absurd h (by decide +kernel)⟩
  have hpath : HttpSender.singlePath.toList.head? = some '/' := by decide
  have huri : Uri.parse (sender.base ++ HttpSender.singlePath) =
      .ok ⟨some "http", "10.0.0.1:9000", "/base/update", none⟩ := by decide +kernel
  obtain ⟨r, hr⟩ := sender.exists_request rfl rfl huri (fun _ _ => 0) []
  have hhost : Uri.hostOf s.hostPort.toList = "10.0.0.1:9000" := by decide +kernel
  exact ⟨hsender, hviews, hpath, r, hr,
    ((hmade _ _ _ hsender).2.2.2 hviews _ _ _ r hpath hr).2.trans hhost⟩

/-- The scheme twice, and no host at all. -/
theorem repeated_scheme_parts_views :
    let twice : AgentSettings := { standard with address := "http://http://10.0.0.1:9000" }
    let bare : AgentSettings := { standard with address := "http://" }
    let slash : AgentSettings := { standard with address := "/" }
    (twice.validate = .ok () ∧ twice.serverUrl = "http://http://10.0.0.1:9000" ∧
      twice.hostPort = "10.0.0.1:9000" ∧ ¬ twice.ViewsAgree) ∧
    (bare.validate = .ok () ∧ bare.serverUrl = "http://http:" ∧ bare.hostPort = "" ∧
      ¬ bare.ViewsAgree) ∧
    slash.validate = .ok () ∧ slash.serverUrl = "http://" ∧ slash.hostPort = "" ∧
      ¬ slash.ViewsAgree := by
  intro twice bare slash
  have htwice : ¬ twice.ViewsAgree := fun h =>
    absurd ((twice.viewsAgree_iff.mp h).2 (by decide +kernel)) (by decide +kernel)
  have hbare : ¬ bare.ViewsAgree := fun h => by
    have hnamed : bare.named = [] := by decide +kernel
    obtain ⟨c, hc, -⟩ := (bare.viewsAgree_iff.mp h).1
    rw [hnamed] at hc
    cases hc
  have hslash : ¬ slash.ViewsAgree := fun h => by
    have hnamed : slash.named = ['/'] := by decide +kernel
    obtain ⟨c, hc, hne⟩ := (slash.viewsAgree_iff.mp h).1
    rw [hnamed] at hc
    exact hne (List.mem_singleton.mp hc)
  refine ⟨⟨?_, ?_, ?_, htwice⟩, ⟨?_, ?_, ?_, hbare⟩, ?_, ?_, ?_, hslash⟩
  all_goals decide +kernel

end AgentSettings
end Metering
