import Metering.Proofs.AddressText

/-!
Which texts spell addresses.

An address is spelled by numbers between dots or by groups between colons. The grammar says what a
number is made of, where the numbers stand, and how many groups a gap may stand for; it does not
say how a text is read. A reader takes as much as it can, so it finds the spelling of a text that
goes on if nothing behind the spelling could go on a number or a run of groups (`Stops`).

Results, each for a reader and what it reads:
1. `scanNumber_sound`, `scanNumber_complete`: numbers.
2. `scanV4_sound`, `scanV4_complete`: four decimal numbers.
3. `scanGroups_sound`, `scanGroups_complete`: runs of groups.
4. `scanV6_sound`, `scanV6_complete`: groups with a gap or without.
5. `ofText?_eq_some_iff`: a text is read as the address that it spells, and as no other.
6. `SpellsV4.loosen`, `SpellsV6.loosen`: a looser grammar has all spellings of a stricter one.
-/
namespace Metering.IpAddress

/-! ## 1. Numbers -/

/-- The number that digits of a base spell. -/
def numberOf (base : Nat) (ds : List Char) : Nat :=
  ds.foldl (fun n c => n * base + (digitValue? base c).getD 0) 0

/-- Digits that spell a number below a limit. There are one to `most` of them, and zeros stand in
front of others only where the grammar has leading zeros. -/
structure SpellsNumber (base most limit : Nat) (leadingZeros : Bool) (ds : List Char) (n : Nat) :
    Prop where
  ne_nil : ds ≠ []
  isDigit : ∀ c ∈ ds, (digitValue? base c).isSome = true
  length_le : ds.length ≤ most
  value : numberOf base ds = n
  lt : n < limit
  leads : leadingZeros = false → ds.head? = some '0' → ds.length = 1

section Numbers

variable {base most limit n : Nat} {leadingZeros : Bool} {cs ds rest : List Char}

theorem scanNumber_sound (h : scanNumber base most limit leadingZeros cs = some (n, rest)) :
    ∃ ds, cs = ds ++ rest ∧ SpellsNumber base most limit leadingZeros ds n := by
  unfold scanNumber at h
  simp only [] at h
  split at h
  · cases h
  next hfits =>
    split at h
    · cases h
    next hleads =>
      obtain ⟨rfl, rfl⟩ := Prod.mk.inj (Option.some.inj h)
      rw [not_or, not_or] at hfits
      refine ⟨cs.takeWhile fun c => (digitValue? base c).isSome, ?_, hfits.1, ?_,
        Nat.le_of_not_lt hfits.2.1, rfl, Nat.lt_of_not_le hfits.2.2, fun hzeros hhead => ?_⟩
      · rw [HeadRuns.drop_length_takeWhile, List.takeWhile_append_dropWhile]
      · exact fun c hc => List.all_eq_true.mp List.all_takeWhile c hc
      · have hpos := List.length_pos_iff.mpr hfits.1
        have hshort : ¬ 1 < _ := fun hlong => hleads ⟨by rw [hzeros]; rfl, hhead, hlong⟩
        omega

theorem scanNumber_complete (h : SpellsNumber base most limit leadingZeros ds n)
    (hrest : NoDigitAhead base rest) :
    scanNumber base most limit leadingZeros (ds ++ rest) = some (n, rest) := by
  have htake : (ds ++ rest).takeWhile (fun c => (digitValue? base c).isSome) = ds :=
    HeadRuns.takeWhile_append h.isDigit (stops_of_noDigitAhead hrest)
  have hvalue : ds.foldl (fun n c => n * base + (digitValue? base c).getD 0) 0 = n := h.value
  unfold scanNumber
  simp only []
  rw [htake, hvalue, if_neg, if_neg, List.drop_left]
  · rintro ⟨hzeros, hhead, hlong⟩
    have hone := h.leads (Bool.not_eq_true' leadingZeros ▸ hzeros) hhead
    omega
  · rintro (hnil | hlong | hbig)
    · exact h.ne_nil hnil
    · exact absurd h.length_le (Nat.not_le_of_lt hlong)
    · exact absurd h.lt (Nat.not_lt_of_le hbig)

/-- A grammar with leading zeros has all numbers of one without. -/
theorem SpellsNumber.loosen (h : SpellsNumber base most limit leadingZeros ds n) :
    SpellsNumber base most limit true ds n :=
  { h with leads := fun hfalse => nomatch hfalse }

theorem SpellsNumber.not_mem (h : SpellsNumber base most limit leadingZeros ds n) {c : Char}
    (hc : digitValue? base c = none) : c ∉ ds := by
  intro hmem
  have hsome := h.isDigit c hmem
  rw [hc] at hsome
  cases hsome

end Numbers

/-- What is no digit of a base is no digit of a smaller one. -/
theorem NoDigitAhead.mono {small base : Nat} (hle : small ≤ base) {cs : List Char}
    (h : NoDigitAhead base cs) : NoDigitAhead small cs := by
  intro c hc
  refine Option.filter_eq_none_iff.mpr fun d hd hlt => ?_
  have hnone := Option.filter_eq_none_iff.mp (h c hc) d hd
  exact hnone (decide_eq_true (Nat.lt_of_lt_of_le (of_decide_eq_true hlt) hle))

theorem scanChar_eq_some_iff {c : Char} {cs : List Char} {r : Unit × List Char} :
    scanChar c cs = some r ↔ cs = c :: r.2 := by
  cases cs with
  | nil => exact ⟨fun h => (nomatch h), fun h => (nomatch h)⟩
  | cons x rest =>
    by_cases hx : x = c
    · rw [show scanChar c (x :: rest) = some ((), rest) from if_pos hx, hx]
      constructor
      · intro h
        cases h
        rfl
      · intro h
        rw [List.tail_eq_of_cons_eq h]
    · rw [show scanChar c (x :: rest) = none from if_neg hx]
      exact ⟨fun h => (nomatch h), fun h => absurd (List.head_eq_of_cons_eq h) hx⟩

/-! ## 2. Four decimal numbers -/

/-- One of four decimal numbers. -/
abbrev SpellsOctet (g : AddressGrammar) : List Char → Nat → Prop :=
  SpellsNumber 10 3 256 g.leadingZeros

/-- Four decimal numbers between dots. -/
inductive SpellsV4 (g : AddressGrammar) : List Char → Nat → Prop
  | mk {as bs cs ds : List Char} {a b c d : Nat} :
      SpellsOctet g as a → SpellsOctet g bs b → SpellsOctet g cs c → SpellsOctet g ds d →
      SpellsV4 g (as ++ '.' :: (bs ++ '.' :: (cs ++ '.' :: ds)))
        (((a * 256 + b) * 256 + c) * 256 + d)

section V4

variable {g : AddressGrammar} {cs rest : List Char} {n : Nat}

theorem scanV4_sound (h : scanV4 g cs = some (n, rest)) :
    ∃ text, cs = text ++ rest ∧ SpellsV4 g text n := by
  simp only [scanV4, Option.bind_eq_bind, Option.bind_eq_some_iff, Option.pure_def,
    Option.some.injEq, Prod.mk.injEq, scanChar_eq_some_iff] at h
  obtain ⟨a, ha, as, hdot, b, hb, bs, hdot', c, hc, cs', hdot'', d, hd, rfl, rfl⟩ := h
  obtain ⟨ta, htext, ha⟩ := scanNumber_sound ha
  obtain ⟨tb, hbs, hb⟩ := scanNumber_sound hb
  obtain ⟨tc, hcs, hc⟩ := scanNumber_sound hc
  obtain ⟨td, hds, hd⟩ := scanNumber_sound hd
  refine ⟨_, ?_, .mk ha hb hc hd⟩
  rw [htext, hdot, hbs, hdot', hcs, hdot'', hds]
  simp only [List.append_assoc, List.cons_append]

theorem scanV4_complete (h : SpellsV4 g cs n) (hrest : NoDigitAhead 10 rest) :
    scanV4 g (cs ++ rest) = some (n, rest) := by
  cases h with
  | mk ha hb hc hd =>
    have hdot (cs : List Char) : scanChar '.' ('.' :: cs) = some ((), cs) := rfl
    simp only [scanV4, List.append_assoc, List.cons_append, Option.bind_eq_bind, Option.pure_def,
      scanNumber_complete ha (noDigitAhead_dot 10 _), scanNumber_complete hb (noDigitAhead_dot 10 _),
      scanNumber_complete hc (noDigitAhead_dot 10 _), scanNumber_complete hd hrest, hdot,
      Option.bind_some]

theorem SpellsV4.loosen (h : SpellsV4 g cs n) (leastGap : Nat) : SpellsV4 ⟨true, leastGap⟩ cs n := by
  cases h with
  | mk ha hb hc hd => exact .mk ha.loosen hb.loosen hc.loosen hd.loosen

/-- Four decimal numbers are digits and dots. -/
theorem SpellsV4.not_mem (h : SpellsV4 g cs n) {c : Char} (hc : digitValue? 10 c = none)
    (hdot : c ≠ '.') : c ∉ cs := by
  cases h with
  | mk ha hb hc' hd =>
    simp only [List.mem_append, List.mem_cons, not_or]
    exact ⟨ha.not_mem hc, hdot, hb.not_mem hc, hdot, hc'.not_mem hc, hdot, hd.not_mem hc⟩

theorem scanV4_of_noDigit (h : NoDigitAhead 10 cs) : scanV4 g cs = none := by
  simp only [scanV4, scanNumber_of_noDigit h, Option.bind_eq_bind, Option.bind_none]

end V4

/-! ## 3. Runs of groups -/

/-- One group. -/
abbrev SpellsGroup : List Char → Nat → Prop := SpellsNumber 16 4 65536 true

/-- What stands in front of a group. -/
def colonUnless (first : Bool) : List Char := if first then [] else [':']

/-- A run of groups, each behind a colon, or each but the first. Four decimal numbers may stand for
the last two; the mark says whether they do. -/
inductive SpellsGroups (g : AddressGrammar) : Bool → List Char → List Nat → Bool → Prop
  | done {first : Bool} : SpellsGroups g first [] [] false
  | quad {first : Bool} {cs : List Char} {n : Nat} : SpellsV4 g cs n →
      SpellsGroups g first (colonUnless first ++ cs) [n / 65536, n % 65536] true
  | group {first quad : Bool} {ds cs : List Char} {x : Nat} {xs : List Nat} :
      SpellsGroup ds x → SpellsGroups g false cs xs quad →
      SpellsGroups g first (colonUnless first ++ (ds ++ cs)) (x :: xs) quad

/-- What ends a run of groups: nothing goes on its last number, and no group stands behind a colon. -/
structure Stops (rest : List Char) : Prop where
  noDigit : NoDigitAhead 16 rest
  noDot : rest.head? ≠ some '.'
  noGroup : ∀ more, rest = ':' :: more → NoDigitAhead 16 more

theorem Stops.nil : Stops [] where
  noDigit := noDigitAhead_nil 16
  noDot := fun h => nomatch h
  noGroup := fun _ h => nomatch h

theorem Stops.slash (cs : List Char) : Stops ('/' :: cs) where
  noDigit := fun c hc => by cases hc; rfl
  noDot := fun h => nomatch h
  noGroup := fun _ h => nomatch h

theorem Stops.gap (cs : List Char) : Stops (':' :: ':' :: cs) where
  noDigit := noDigitAhead_colon 16 _
  noDot := fun h => nomatch h
  noGroup := fun more h => by
    cases h
    exact noDigitAhead_colon 16 cs

section Groups

variable {g : AddressGrammar} {first quad : Bool} {limit : Nat} {cs ds rest : List Char}
  {xs : List Nat} {x : Nat}

/-- What a reader of groups looks at, past the colon in front if there has to be one. -/
def behindColon (first : Bool) (cs : List Char) : Option (List Char) :=
  if first then some cs else (scanChar ':' cs).map Prod.snd

theorem behindColon_eq_some_iff {inner : List Char} :
    behindColon first cs = some inner ↔ cs = colonUnless first ++ inner := by
  cases first with
  | true => exact Option.some_inj
  | false =>
    have hmap : behindColon false cs = some inner ↔
        ∃ r, scanChar ':' cs = some r ∧ r.2 = inner := Option.map_eq_some_iff
    rw [hmap]
    simp only [scanChar_eq_some_iff]
    constructor
    · rintro ⟨r, rfl, rfl⟩
      rfl
    · intro h
      exact ⟨((), inner), h, rfl⟩

theorem scanGroups_succ (g : AddressGrammar) (limit : Nat) (first : Bool) (cs : List Char) :
    scanGroups g (limit + 1) first cs =
      match behindColon first cs with
      | none => ([], false, cs)
      | some inner =>
        match (if 0 < limit then scanV4 g inner else none) with
        | some (n, rest) => ([n / 65536, n % 65536], true, rest)
        | none =>
          match scanNumber 16 4 65536 true inner with
          | some (n, rest) =>
            let (more, ended, rest) := scanGroups g limit false rest
            (n :: more, ended, rest)
          | none => ([], false, cs) := rfl

theorem scanGroups_sound (h : scanGroups g limit first cs = (xs, quad, rest)) :
    ∃ text, cs = text ++ rest ∧ SpellsGroups g first text xs quad ∧ xs.length ≤ limit := by
  induction limit generalizing first cs xs with
  | zero =>
    cases h
    exact ⟨[], rfl, .done, Nat.le_refl 0⟩
  | succ limit ih =>
    have hstay (h : (([], false, cs) : List Nat × Bool × List Char) = (xs, quad, rest)) :
        ∃ text, cs = text ++ rest ∧ SpellsGroups g first text xs quad ∧
          xs.length ≤ limit + 1 := by
      cases h
      exact ⟨[], rfl, .done, Nat.zero_le _⟩
    rw [scanGroups_succ] at h
    split at h
    next => exact hstay h
    next inner hinner =>
      obtain rfl := behindColon_eq_some_iff.mp hinner
      split at h
      next n rest' hv4 =>
        cases h
        split at hv4
        next hroom =>
          obtain ⟨text, rfl, htext⟩ := scanV4_sound hv4
          exact ⟨_, (List.append_assoc ..).symm, .quad htext, Nat.succ_le_succ hroom⟩
        next => cases hv4
      next =>
        split at h
        next n rest' hnumber =>
          obtain ⟨ds, rfl, hds⟩ := scanNumber_sound hnumber
          rcases hmore : scanGroups g limit false rest' with ⟨more, ended, rest''⟩
          rw [hmore] at h
          cases h
          obtain ⟨text, rfl, htext, hlength⟩ := ih hmore
          refine ⟨_, ?_, .group hds htext, Nat.succ_le_succ hlength⟩
          simp only [List.append_assoc]
        next => exact hstay h

/-- Behind a run there is no other one. -/
theorem scanGroups_stops (hrest : Stops rest) : scanGroups g limit first rest = ([], false, rest) := by
  cases limit with
  | zero => rfl
  | succ limit =>
    rw [scanGroups_succ]
    cases hbehind : behindColon first rest with
    | none => rfl
    | some inner =>
      have hinner : NoDigitAhead 16 inner := by
        have htext := behindColon_eq_some_iff.mp hbehind
        cases first with
        | true => exact (show rest = inner from htext) ▸ hrest.noDigit
        | false => exact hrest.noGroup inner htext
      have hten : NoDigitAhead 10 inner := hinner.mono (by decide)
      simp only [scanV4_of_noDigit hten, ite_self, scanNumber_of_noDigit hinner]

/-- What goes on a run, or ends it, does not go on the group in front. -/
theorem SpellsGroups.behind (h : SpellsGroups g false cs xs quad) (hrest : Stops rest) :
    NoDigitAhead 16 (cs ++ rest) ∧ (cs ++ rest).head? ≠ some '.' := by
  have hcolon (more : List Char) :
      NoDigitAhead 16 (':' :: more) ∧ (':' :: more).head? ≠ some '.' :=
    ⟨noDigitAhead_colon 16 more, fun h => nomatch h⟩
  cases h with
  | done => exact ⟨hrest.noDigit, hrest.noDot⟩
  | quad _ => exact hcolon _
  | group _ _ => exact hcolon _

theorem scanGroups_complete (h : SpellsGroups g first cs xs quad) (hlimit : xs.length ≤ limit)
    (hrest : Stops rest) : scanGroups g limit first (cs ++ rest) = (xs, quad, rest) := by
  induction h generalizing limit with
  | done => exact scanGroups_stops hrest
  | @quad first cs n hv4 =>
    obtain ⟨room, rfl⟩ : ∃ room, limit = room + 1 + 1 := ⟨limit - 2, by simp at hlimit; omega⟩
    have hbehind : behindColon first (colonUnless first ++ cs ++ rest) = some (cs ++ rest) :=
      behindColon_eq_some_iff.mpr (List.append_assoc ..)
    have hread := scanV4_complete hv4 (hrest.noDigit.mono (by decide))
    simp only [scanGroups_succ, hbehind, Nat.zero_lt_succ, if_true, hread]
  | @group first quad ds cs x xs hds hmore ih =>
    obtain ⟨room, rfl⟩ : ∃ room, limit = room + 1 := ⟨limit - 1, by simp at hlimit; omega⟩
    have hbehind : behindColon first (colonUnless first ++ (ds ++ cs) ++ rest) =
        some (ds ++ (cs ++ rest)) :=
      behindColon_eq_some_iff.mpr (by simp only [List.append_assoc])
    obtain ⟨hdigit, hdot⟩ := hmore.behind hrest
    have hv4 : scanV4 g (ds ++ (cs ++ rest)) = none :=
      scanV4_group g (hds.not_mem (by decide)) (hdigit.mono (by decide)) hdot
    have hnumber := scanNumber_complete hds hdigit
    simp only [scanGroups_succ, hbehind, hv4, ite_self, hnumber,
      ih (Nat.le_of_succ_le_succ hlimit)]

theorem SpellsGroups.loosen (h : SpellsGroups g first cs xs quad) (leastGap : Nat) :
    SpellsGroups ⟨true, leastGap⟩ first cs xs quad := by
  induction h with
  | done => exact .done
  | quad hv4 => exact .quad (hv4.loosen leastGap)
  | group hds _ ih => exact .group hds ih

/-- A run of several groups, or of four decimal numbers, has a colon if it is longer than these. -/
theorem SpellsGroups.colon_mem (h : SpellsGroups g first cs xs quad) (hlong : 2 < xs.length) :
    ':' ∈ cs := by
  cases h with
  | done => simp at hlong
  | quad => simp at hlong
  | group _ hmore =>
    refine List.mem_append_right _ (List.mem_append_right _ ?_)
    cases hmore with
    | done => simp at hlong
    | quad _ => exact List.mem_cons_self
    | group _ _ => exact List.mem_cons_self

end Groups

/-! ## 4. Eight groups -/

/-- Eight groups, or fewer with two colons in the place of the others, which are zero. A gap has a
least number of groups to stand for, and eight groups have no gap. -/
inductive SpellsV6 (g : AddressGrammar) : List Char → Nat → Prop
  | full {cs : List Char} {xs : List Nat} {quad : Bool} :
      SpellsGroups g true cs xs quad → xs.length = 8 → SpellsV6 g cs (ofGroups xs)
  | gap {before after : List Char} {xs ys : List Nat} {quad : Bool} {zeros : Nat} :
      SpellsGroups g true before xs false → SpellsGroups g true after ys quad →
      xs.length < 8 → xs.length + zeros + ys.length = 8 → g.leastGap ≤ zeros →
      SpellsV6 g (before ++ ':' :: ':' :: after) (ofGroups (xs ++ List.replicate zeros 0 ++ ys))

section V6

variable {g : AddressGrammar} {cs rest : List Char} {n : Nat}

theorem scanV6_sound (hg : g.leastGap ≤ 1) (h : scanV6 g cs = some (n, rest)) :
    ∃ text, cs = text ++ rest ∧ SpellsV6 g text n := by
  unfold scanV6 at h
  rcases hhead : scanGroups g 8 true cs with ⟨xs, quad, rest'⟩
  rw [hhead] at h
  obtain ⟨before, rfl, hbefore, hfew⟩ := scanGroups_sound hhead
  dsimp only at h
  split at h
  next hall =>
    cases h
    exact ⟨before, rfl, .full hbefore hall⟩
  next hshort =>
    split at h
    · cases h
    next hquad =>
      obtain rfl : quad = false := Bool.eq_false_iff.mpr hquad
      simp only [Option.bind_eq_bind, Option.bind_eq_some_iff, Option.pure_def, Option.some.injEq,
        scanChar_eq_some_iff] at h
      obtain ⟨colon, rfl, inner, hcolon, hresult⟩ := h
      rcases htail : scanGroups g (8 - (xs.length + g.leastGap)) true inner.2
        with ⟨ys, ended, rest''⟩
      rw [htail] at hresult
      dsimp only at hresult
      cases hresult
      obtain ⟨after, hinner, hafter, hroom⟩ := scanGroups_sound htail
      refine ⟨before ++ ':' :: ':' :: after, ?_,
        .gap hbefore hafter (by omega) (by omega) (by omega)⟩
      rw [hcolon, hinner]
      simp only [List.append_assoc, List.cons_append]

theorem scanV6_complete (h : SpellsV6 g cs n) (hrest : Stops rest) :
    scanV6 g (cs ++ rest) = some (n, rest) := by
  cases h with
  | full hall height =>
    have hread := scanGroups_complete hall (Nat.le_of_eq height) hrest
    simp only [scanV6, hread, if_pos height]
  | @gap before after xs ys quad zeros hbefore hafter hshort hsum hleast =>
    have htext : before ++ ':' :: ':' :: after ++ rest =
        before ++ ':' :: ':' :: (after ++ rest) := by
      simp only [List.append_assoc, List.cons_append]
    have hroom : ys.length ≤ 8 - (xs.length + g.leastGap) := by omega
    have hhead := scanGroups_complete hbefore (Nat.le_of_lt hshort) (Stops.gap (after ++ rest))
    have htail := scanGroups_complete hafter hroom hrest
    have hzeros : 8 - xs.length - ys.length = zeros := by omega
    rw [htext, scanV6_gap hhead (Nat.ne_of_lt hshort) htail, hzeros]

theorem SpellsV6.loosen (h : SpellsV6 g cs n) {leastGap : Nat} (hle : leastGap ≤ g.leastGap) :
    SpellsV6 ⟨true, leastGap⟩ cs n := by
  cases h with
  | full hall height => exact .full (hall.loosen leastGap) height
  | gap hbefore hafter hshort hsum hleast =>
    exact .gap (hbefore.loosen leastGap) (hafter.loosen leastGap) hshort hsum
      (Nat.le_trans hle hleast)

theorem SpellsV6.colon_mem (h : SpellsV6 g cs n) : ':' ∈ cs := by
  cases h with
  | full hall height => exact hall.colon_mem (by omega)
  | gap => exact List.mem_append_right _ List.mem_cons_self

end V6

/-! ## 5. Addresses -/

/-- The texts of addresses: four decimal numbers, or eight groups. -/
inductive Spells (g : AddressGrammar) : List Char → IpAddress → Prop
  | v4 {cs : List Char} {n : Nat} : SpellsV4 g cs n → Spells g cs (.v4 (.ofNat 32 n))
  | v6 {cs : List Char} {n : Nat} : SpellsV6 g cs n → Spells g cs (.v6 (.ofNat 128 n))

theorem whole_eq_some_iff {α : Type} {s : Scan α} {cs : List Char} {a : α} :
    whole s cs = some a ↔ s cs = some (a, []) := by
  refine ⟨fun h => ?_, whole_of_eq⟩
  unfold whole at h
  split at h
  next hscan =>
    obtain rfl := Option.some.inj h
    exact hscan
  next => cases h

theorem whole_scanV4_iff {g : AddressGrammar} {cs : List Char} {n : Nat} :
    whole (scanV4 g) cs = some n ↔ SpellsV4 g cs n := by
  rw [whole_eq_some_iff]
  constructor
  · intro h
    obtain ⟨text, rfl, htext⟩ := scanV4_sound h
    rwa [List.append_nil]
  · intro h
    have hread := scanV4_complete h (noDigitAhead_nil 10)
    rwa [List.append_nil] at hread

theorem whole_scanV6_iff {g : AddressGrammar} (hg : g.leastGap ≤ 1) {cs : List Char} {n : Nat} :
    whole (scanV6 g) cs = some n ↔ SpellsV6 g cs n := by
  rw [whole_eq_some_iff]
  constructor
  · intro h
    obtain ⟨text, rfl, htext⟩ := scanV6_sound hg h
    rwa [List.append_nil]
  · intro h
    have hread := scanV6_complete h Stops.nil
    rwa [List.append_nil] at hread

/-- A text with a colon is not one of four decimal numbers. -/
theorem SpellsV6.not_v4 {g g' : AddressGrammar} {cs : List Char} {m n : Nat} (h : SpellsV6 g cs n) :
    ¬ SpellsV4 g' cs m :=
  fun hv4 => hv4.not_mem (by decide) (by decide) h.colon_mem

theorem ofText?_eq_some_iff {s : String} {a : IpAddress} :
    ofText? s = some a ↔ Spells strict s.toList a := by
  have hleast : strict.leastGap ≤ 1 := Nat.le_refl 1
  constructor
  · intro h
    unfold ofText? at h
    split at h
    next n hv4 =>
      cases h
      exact .v4 (whole_scanV4_iff.mp hv4)
    next =>
      obtain ⟨n, hv6, rfl⟩ := Option.map_eq_some_iff.mp h
      exact .v6 ((whole_scanV6_iff hleast).mp hv6)
  · intro h
    unfold ofText?
    cases h with
    | v4 hv4 => rw [whole_scanV4_iff.mpr hv4]
    | v6 hv6 =>
      have hnone : whole (scanV4 strict) s.toList = none :=
        Option.eq_none_iff_forall_ne_some.mpr fun m hm => hv6.not_v4 (whole_scanV4_iff.mp hm)
      rw [hnone, (whole_scanV6_iff hleast).mpr hv6]
      rfl

end Metering.IpAddress
