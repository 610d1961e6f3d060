import Metering.Net.Address
import Metering.Proofs.HeadRuns
import Metering.Proofs.NumberParts

/-!
Addresses are read back from their texts.

A reader of numbers stops where no digit is ahead, so a dot, a colon or the end of the text is all
that has to follow a number. Where a group is due, four decimal numbers are tried first; they are
ruled out by the colon, or the end, behind the group. The groups that a text leaves out are zero,
and there are as many of them as are missing from eight.

Results:
1. `IpAddress.scanNumber_toDigits`: a number is read back from its digits.
2. `IpAddress.scanV4_showV4`: four decimal numbers are read back.
3. `IpAddress.scanGroups_showGroups`: a run of groups is read back up to its end.
4. `IpAddress.longestRun_spec`: the run that is left out consists of zeros.
5. `IpAddress.ofText?_text`: an address is read back from its text.
6. `IpAddress.isPart_of_mem_text`: the characters that a text is made of.
-/
namespace Metering.IpAddress

/-! ## 1. Numbers -/

/-- No digit of a base stands at the head of a text. -/
def NoDigitAhead (base : Nat) (cs : List Char) : Prop :=
  ∀ c, cs.head? = some c → digitValue? base c = none

theorem noDigitAhead_nil (base : Nat) : NoDigitAhead base [] := fun c hc => by cases hc

theorem noDigitAhead_dot (base : Nat) (cs : List Char) : NoDigitAhead base ('.' :: cs) :=
  fun c hc => by cases hc; rfl

theorem noDigitAhead_colon (base : Nat) (cs : List Char) : NoDigitAhead base (':' :: cs) :=
  fun c hc => by cases hc; rfl

theorem digitValue?_digitChar {base d : Nat} (hbase : base ≤ 16) (hd : d < base) :
    digitValue? base (Nat.digitChar d) = some d := by
  have hall : ∀ d < 16, Hex.value? (Nat.digitChar d) = some d := by decide
  unfold digitValue?
  rw [hall d (Nat.lt_of_lt_of_le hd hbase), Option.filter_some, if_pos (decide_eq_true hd)]

theorem isSome_digitValue?_of_mem {base n : Nat} {c : Char} (hone : 1 < base) (hbase : base ≤ 16)
    (hc : c ∈ Nat.toDigits base n) : (digitValue? base c).isSome = true := by
  induction n using Digits.digits_induction hone with
  | single n hlt =>
    rw [Nat.toDigits_of_lt_base hlt, List.mem_singleton] at hc
    rw [hc, digitValue?_digitChar hbase hlt]
    rfl
  | more n hge ih =>
    rw [Nat.toDigits_of_base_le hone hge, List.mem_append, List.mem_singleton] at hc
    rcases hc with hc | rfl
    · exact ih hc
    · rw [digitValue?_digitChar hbase (Nat.mod_lt n (Nat.zero_lt_of_lt hone))]
      rfl

theorem foldl_toDigits {base : Nat} (hone : 1 < base) (hbase : base ≤ 16) (n : Nat) :
    (Nat.toDigits base n).foldl (fun n c => n * base + (digitValue? base c).getD 0) 0 = n := by
  induction n using Digits.digits_induction hone with
  | single n hlt =>
    rw [Nat.toDigits_of_lt_base hlt, List.foldl_cons, List.foldl_nil,
      digitValue?_digitChar hbase hlt, Nat.zero_mul, Nat.zero_add]
    rfl
  | more n hge ih =>
    rw [Nat.toDigits_of_base_le hone hge, List.foldl_append, List.foldl_cons, List.foldl_nil, ih,
      digitValue?_digitChar hbase (Nat.mod_lt n (Nat.zero_lt_of_lt hone))]
    exact Nat.div_add_mod' n base

theorem stops_of_noDigitAhead {base : Nat} {rest : List Char} (h : NoDigitAhead base rest) :
    ∀ c, rest.head? = some c → (digitValue? base c).isSome = false := by
  intro c hc
  rw [h c hc]
  rfl

theorem scanNumber_toDigits {base most limit n : Nat} (leadingZeros : Bool) (hone : 1 < base)
    (hbase : base ≤ 16) (hmost : 0 < most) (hwidth : n < base ^ most) (hlimit : n < limit)
    {rest : List Char} (hrest : NoDigitAhead base rest) :
    scanNumber base most limit leadingZeros (Nat.toDigits base n ++ rest) = some (n, rest) := by
  have htake : (Nat.toDigits base n ++ rest).takeWhile (fun c => (digitValue? base c).isSome) =
      Nat.toDigits base n :=
    HeadRuns.takeWhile_append (fun c hc => isSome_digitValue?_of_mem hone hbase hc)
      (stops_of_noDigitAhead hrest)
  have hlength : (Nat.toDigits base n).length ≤ most :=
    (Nat.length_toDigits_le_iff hone hmost).mpr hwidth
  unfold scanNumber
  simp only []
  rw [htake, foldl_toDigits hone hbase, if_neg, if_neg, List.drop_left]
  · -- A leading zero is the only digit of zero.
    rintro ⟨-, hzero, hlong⟩
    have hn : n = 0 := Classical.byContradiction fun hn =>
      Digits.head?_toDigits_base hone hbase hn hzero
    rw [hn, Nat.toDigits_of_lt_base (by omega)] at hlong
    exact absurd hlong (Nat.lt_irrefl 1)
  · rintro (hnil | hlong | hbig)
    · exact Nat.toDigits_ne_nil hnil
    · omega
    · omega

/-- A number is not read where no digit is ahead. -/
theorem scanNumber_of_noDigit {base most limit : Nat} {leadingZeros : Bool} {cs : List Char}
    (h : NoDigitAhead base cs) : scanNumber base most limit leadingZeros cs = none := by
  have htake : cs.takeWhile (fun c => (digitValue? base c).isSome) = [] :=
    HeadRuns.takeWhile_append (fun c (hc : c ∈ []) => by cases hc) (stops_of_noDigitAhead h)
  unfold scanNumber
  simp only []
  rw [htake, if_pos (Or.inl rfl)]

/-- What follows a number is what follows the digits at the head. -/
theorem rest_of_scanNumber {base most limit : Nat} {leadingZeros : Bool} {cs : List Char}
    {a : Nat × List Char} (h : scanNumber base most limit leadingZeros cs = some a) :
    a.2 = cs.dropWhile fun c => (digitValue? base c).isSome := by
  unfold scanNumber at h
  simp only [] at h
  split at h
  · cases h
  · split at h
    · cases h
    · cases h
      exact HeadRuns.drop_length_takeWhile _ cs

/-! ## 2. Four decimal numbers -/

/-- The parts above a place, and the part at that place. -/
theorem part_step (size n index : Nat) :
    n / 2 ^ (size * (index + 1)) * 2 ^ size + part size n index = n / 2 ^ (size * index) := by
  have hsplit : n / 2 ^ (size * (index + 1)) = n / 2 ^ (size * index) / 2 ^ size := by
    rw [Nat.mul_succ, Nat.pow_add, Nat.div_div_eq_div_mul]
  rw [hsplit]
  exact Nat.div_add_mod' _ _

theorem part_lt (size n index : Nat) : part size n index < 2 ^ size :=
  Nat.mod_lt _ (Nat.two_pow_pos size)

theorem scanV4_showV4 (g : AddressGrammar) {n : Nat} (hn : n < 2 ^ 32) {rest : List Char}
    (hrest : NoDigitAhead 10 rest) : scanV4 g (showV4 n ++ rest) = some (n, rest) := by
  have octet (index : Nat) {tail : List Char} (htail : NoDigitAhead 10 tail) :
      scanNumber 10 3 256 g.leadingZeros (Digits.toDigits (part 8 n index) ++ tail) =
        some (part 8 n index, tail) := by
    have hpart : part 8 n index < 256 := part_lt 8 n index
    exact scanNumber_toDigits _ (by decide) (by decide) (by decide)
      (Nat.lt_trans hpart (by decide)) hpart htail
  have hshow : showV4 n ++ rest = Digits.toDigits (part 8 n 3) ++ '.' ::
      (Digits.toDigits (part 8 n 2) ++ '.' :: (Digits.toDigits (part 8 n 1) ++ '.' ::
        (Digits.toDigits (part 8 n 0) ++ rest))) := by
    simp only [showV4, join, List.map_cons, List.map_nil, List.append_assoc, List.cons_append,
      List.nil_append]
  have hsum : ((part 8 n 3 * 256 + part 8 n 2) * 256 + part 8 n 1) * 256 + part 8 n 0 = n := by
    have h3 : n / 0x100000000 * 256 + part 8 n 3 = n / 0x1000000 := part_step 8 n 3
    have h2 : n / 0x1000000 * 256 + part 8 n 2 = n / 0x10000 := part_step 8 n 2
    have h1 : n / 0x10000 * 256 + part 8 n 1 = n / 0x100 := part_step 8 n 1
    have h0 : n / 0x100 * 256 + part 8 n 0 = n / 1 := part_step 8 n 0
    have hall : n / 0x100000000 = 0 := Nat.div_eq_of_lt hn
    rw [hall, Nat.zero_mul, Nat.zero_add] at h3
    rw [h3, h2, h1, h0, Nat.div_one]
  rw [hshow]
  simp only [scanV4, octet 3 (noDigitAhead_dot 10 _), octet 2 (noDigitAhead_dot 10 _),
    octet 1 (noDigitAhead_dot 10 _), octet 0 hrest, scanChar, Option.bind_eq_bind, Option.bind_some,
    if_true, Option.pure_def, hsum]

/-- Four decimal numbers are not read where the digits at the head do not end in a dot. -/
theorem scanV4_of_no_dot (g : AddressGrammar) {cs : List Char}
    (h : (cs.dropWhile fun c => (digitValue? 10 c).isSome).head? ≠ some '.') :
    scanV4 g cs = none := by
  have hdot (rest : List Char) (hrest : rest.head? ≠ some '.') : scanChar '.' rest = none := by
    cases rest with
    | nil => rfl
    | cons c rest => exact if_neg fun hc => hrest (congrArg some hc)
  -- Whether the first number is read or not, there is no dot behind it.
  cases hscan : scanNumber 10 3 256 g.leadingZeros cs with
  | none => simp only [scanV4, hscan, Option.bind_eq_bind, Option.bind_none]
  | some a =>
    rw [← rest_of_scanNumber hscan] at h
    simp only [scanV4, hscan, Option.bind_eq_bind, Option.bind_some, hdot a.2 h, Option.bind_none]

/-! ## 3. Groups -/

/-- What may stand behind a run of groups: nothing, or the two colons of a gap. -/
def EndsGroups (rest : List Char) : Prop := rest = [] ∨ ∃ more, rest = ':' :: ':' :: more

/-- Groups that go on from one before them. -/
def laterGroups (gs : List Nat) : List Char := gs.flatMap fun x => ':' :: Nat.toDigits 16 x

theorem showGroups_cons (x : Nat) (gs : List Nat) :
    showGroups (x :: gs) = Nat.toDigits 16 x ++ laterGroups gs := by
  induction gs generalizing x with
  | nil => exact (List.append_nil _).symm
  | cons y gs ih =>
    have hjoin : showGroups (x :: y :: gs) = Nat.toDigits 16 x ++ [':'] ++ showGroups (y :: gs) :=
      rfl
    rw [hjoin, ih, List.append_assoc]
    rfl

theorem EndsGroups.noDigitAhead {rest : List Char} (h : EndsGroups rest) (base : Nat) :
    NoDigitAhead base rest := by
  rcases h with rfl | ⟨more, rfl⟩
  · exact noDigitAhead_nil base
  · exact noDigitAhead_colon base _

/-- A colon or the end stands behind a group, whatever follows the run. -/
theorem noDigitAhead_laterGroups {rest : List Char} (h : EndsGroups rest) (base : Nat)
    (gs : List Nat) : NoDigitAhead base (laterGroups gs ++ rest) := by
  cases gs with
  | nil => exact h.noDigitAhead base
  | cons x gs => exact noDigitAhead_colon base _

/-- No four decimal numbers are read from the digits of a group and a colon. -/
theorem scanV4_group (g : AddressGrammar) {ds rest : List Char} (hds : '.' ∉ ds)
    (hdigit : NoDigitAhead 10 rest) (hdot : rest.head? ≠ some '.') :
    scanV4 g (ds ++ rest) = none := by
  refine scanV4_of_no_dot g ?_
  induction ds with
  | nil =>
    cases rest with
    | nil => exact hdot
    | cons c rest =>
      rw [List.nil_append, List.dropWhile_cons_of_neg]
      · exact hdot
      · rw [hdigit c rfl]
        exact Bool.false_ne_true
  | cons d ds ih =>
    rw [List.cons_append]
    by_cases hd : (digitValue? 10 d).isSome = true
    · rw [List.dropWhile_cons, if_pos hd]
      exact ih fun h => hds (List.mem_cons_of_mem d h)
    · rw [List.dropWhile_cons, if_neg hd]
      exact fun h => hds (List.mem_cons.mpr (.inl (Option.some.inj h).symm))

theorem dot_not_mem_toDigits (x : Nat) : '.' ∉ Nat.toDigits 16 x := fun h =>
  Bool.false_ne_true (isSome_digitValue?_of_mem (by decide) (by decide) h)

/-- One group is read, and then the rest of the run. -/
theorem scanGroups_group (g : AddressGrammar) {limit x : Nat} {first : Bool}
    {cs tail : List Char} (hx : x < 65536)
    (hbehind : (if first then some cs else (scanChar ':' cs).map Prod.snd) =
      some (Nat.toDigits 16 x ++ tail))
    (hdigit : ∀ base, NoDigitAhead base tail) (hdot : tail.head? ≠ some '.') :
    scanGroups g (limit + 1) first cs = (x :: (scanGroups g limit false tail).1,
      (scanGroups g limit false tail).2.1, (scanGroups g limit false tail).2.2) := by
  have hv4 : (if 0 < limit then scanV4 g (Nat.toDigits 16 x ++ tail) else none) = none := by
    rw [scanV4_group g (dot_not_mem_toDigits x) (hdigit 10) hdot, ite_self]
  have hnumber : scanNumber 16 4 65536 true (Nat.toDigits 16 x ++ tail) = some (x, tail) :=
    scanNumber_toDigits true (by decide) (by decide) (by decide) hx hx (hdigit 16)
  simp only [scanGroups, hbehind, hv4, hnumber]

/-- A run ends where neither a group nor a colon and a group follows. -/
theorem scanGroups_end (g : AddressGrammar) (limit : Nat) (first : Bool) {rest : List Char}
    (h : EndsGroups rest) : scanGroups g limit first rest = ([], false, rest) := by
  cases limit with
  | zero => rfl
  | succ limit =>
    have hv4 (cs : List Char) (hdigit : NoDigitAhead 10 cs) (hdot : cs.head? ≠ some '.') :
        (if 0 < limit then scanV4 g cs else none) = none := by
      have : scanV4 g ([] ++ cs) = none := scanV4_group g List.not_mem_nil hdigit hdot
      rw [List.nil_append] at this
      rw [this, ite_self]
    rcases h with rfl | ⟨more, rfl⟩
    · cases first with
      | false => rfl
      | true =>
        simp only [scanGroups, if_true, hv4 [] (noDigitAhead_nil 10) (fun h => by cases h),
          scanNumber_of_noDigit (noDigitAhead_nil 16)]
    · have hhead : (':' :: more).head? ≠ some '.' := fun h => by cases h
      have hlong : (':' :: ':' :: more).head? ≠ some '.' := fun h => by cases h
      cases first with
      | false =>
        have hcolon : scanChar ':' (':' :: ':' :: more) = some ((), ':' :: more) := rfl
        simp only [scanGroups, Bool.false_eq_true, if_false, hcolon, Option.map_some,
          hv4 _ (noDigitAhead_colon 10 more) hhead,
          scanNumber_of_noDigit (noDigitAhead_colon 16 more)]
      | true =>
        simp only [scanGroups, if_true, hv4 _ (noDigitAhead_colon 10 (':' :: more)) hlong,
          scanNumber_of_noDigit (noDigitAhead_colon 16 (':' :: more))]

theorem head?_laterGroups {rest : List Char} (h : EndsGroups rest) (gs : List Nat) :
    (laterGroups gs ++ rest).head? ≠ some '.' := by
  intro hdot
  cases gs with
  | nil =>
    rcases h with rfl | ⟨more, rfl⟩
    · cases hdot
    · cases hdot
  | cons x gs => cases hdot

theorem scanGroups_laterGroups (g : AddressGrammar) {gs : List Nat} (hgs : ∀ x ∈ gs, x < 65536)
    {limit : Nat} (hlimit : gs.length ≤ limit) {rest : List Char} (hrest : EndsGroups rest) :
    scanGroups g limit false (laterGroups gs ++ rest) = (gs, false, rest) := by
  induction gs generalizing limit with
  | nil => exact scanGroups_end g limit false hrest
  | cons x gs ih =>
    cases limit with
    | zero => exact absurd hlimit (Nat.not_succ_le_zero _)
    | succ limit =>
      have hmore := ih (fun y hy => hgs y (List.mem_cons_of_mem x hy)) (Nat.le_of_succ_le_succ hlimit)
      have hbehind : (if false = true then some (laterGroups (x :: gs) ++ rest)
          else (scanChar ':' (laterGroups (x :: gs) ++ rest)).map Prod.snd) =
            some (Nat.toDigits 16 x ++ (laterGroups gs ++ rest)) := by
        unfold laterGroups
        rw [List.flatMap_cons, List.append_assoc]
        rfl
      rw [scanGroups_group g (hgs x List.mem_cons_self) hbehind
        (fun base => noDigitAhead_laterGroups hrest base gs) (head?_laterGroups hrest gs), hmore]

theorem scanGroups_showGroups (g : AddressGrammar) {gs : List Nat} (hgs : ∀ x ∈ gs, x < 65536)
    {limit : Nat} (hlimit : gs.length ≤ limit) {rest : List Char} (hrest : EndsGroups rest) :
    scanGroups g limit true (showGroups gs ++ rest) = (gs, false, rest) := by
  cases gs with
  | nil => exact scanGroups_end g limit true hrest
  | cons x gs =>
    cases limit with
    | zero => exact absurd hlimit (Nat.not_succ_le_zero _)
    | succ limit =>
      rw [showGroups_cons, List.append_assoc, scanGroups_group g (hgs x List.mem_cons_self) rfl
        (fun base => noDigitAhead_laterGroups hrest base gs) (head?_laterGroups hrest gs),
        scanGroups_laterGroups g (fun y hy => hgs y (List.mem_cons_of_mem x hy))
          (Nat.le_of_succ_le_succ hlimit) hrest]

/-! ## 4. The run that is left out -/

/-- The groups around the longest run, which itself consists of zeros. -/
theorem longestRun_spec (gs : List Nat) (start : Nat) :
    ∃ before after, gs = before ++ List.replicate (longestRun start gs).2 0 ++ after ∧
      (longestRun start gs).1 = start + before.length := by
  induction gs generalizing start with
  | nil => exact ⟨[], [], rfl, rfl⟩
  | cons x gs ih =>
    simp only [longestRun]
    split
    · -- No later run is longer than the one that starts here.
      refine ⟨[], (x :: gs).dropWhile (· == 0), ?_, rfl⟩
      have hzeros : (x :: gs).takeWhile (· == 0) =
          List.replicate ((x :: gs).takeWhile (· == 0)).length 0 :=
        List.eq_replicate_iff.mpr ⟨rfl, fun y hy => by
          simpa using List.all_eq_true.mp (List.all_takeWhile (p := (· == 0)) (l := x :: gs)) y hy⟩
      rw [List.nil_append, ← hzeros, List.takeWhile_append_dropWhile]
    · obtain ⟨before, after, hgs, hstart⟩ := ih (start + 1)
      refine ⟨x :: before, after, ?_, ?_⟩
      · rw [List.cons_append, List.cons_append, ← hgs]
      · rw [hstart, List.length_cons]
        omega

/-! ## 5. Addresses -/

theorem length_groups (n : Nat) : (groups n).length = 8 := rfl

theorem groups_lt {n x : Nat} (hx : x ∈ groups n) : x < 65536 := by
  obtain ⟨index, -, rfl⟩ := List.mem_map.mp hx
  exact part_lt 16 n index

theorem ofGroups_groups {n : Nat} (hn : n < 2 ^ 128) : ofGroups (groups n) = n := by
  have step (index : Nat) : n / 2 ^ (16 * (index + 1)) * 65536 + part 16 n index =
      n / 2 ^ (16 * index) := part_step 16 n index
  have htop : n / 2 ^ (16 * (7 + 1)) = 0 := Nat.div_eq_of_lt hn
  have h7 := step 7
  rw [htop] at h7
  unfold ofGroups groups
  simp only [List.map_cons, List.map_nil, List.foldl_cons, List.foldl_nil]
  rw [h7, step 6, step 5, step 4, step 3, step 2, step 1, step 0, Nat.mul_zero, Nat.pow_zero,
    Nat.div_one]

/-- Groups on both sides of a gap, which is filled up with zeros. -/
theorem scanV6_gap {g : AddressGrammar} {cs rest after : List Char} {head tail : List Nat}
    {ended : Bool} (hhead : scanGroups g 8 true cs = (head, false, ':' :: ':' :: rest))
    (hshort : head.length ≠ 8)
    (htail : scanGroups g (8 - (head.length + g.leastGap)) true rest = (tail, ended, after)) :
    scanV6 g cs = some
      (ofGroups (head ++ List.replicate (8 - head.length - tail.length) 0 ++ tail), after) := by
  have hcolon (cs : List Char) : scanChar ':' (':' :: cs) = some ((), cs) := rfl
  simp only [scanV6, hhead, if_neg hshort, Bool.false_eq_true, if_false, hcolon,
    Option.bind_eq_bind, Option.bind_some, htail, Option.pure_def]

/-- The last four numbers of an address that stands for one of version 4. -/
theorem scanGroups_mapped (low : Nat) (hlow : low < 2 ^ 32) :
    scanGroups strict 7 true (Nat.toDigits 16 0xffff ++ ':' :: showV4 low) =
      ([0xffff, low / 65536, low % 65536], true, []) := by
  have hv4 : scanV4 strict (showV4 low) = some (low, []) := by
    have := scanV4_showV4 strict hlow (noDigitAhead_nil 10)
    rwa [List.append_nil] at this
  have hcolon : scanChar ':' (':' :: showV4 low) = some ((), showV4 low) := rfl
  have hlast : scanGroups strict 6 false (':' :: showV4 low) =
      ([low / 65536, low % 65536], true, []) := by
    simp only [scanGroups, Bool.false_eq_true, if_false, hcolon, Option.map_some,
      Nat.zero_lt_succ, if_true, hv4]
  rw [scanGroups_group strict (by decide) rfl (fun base => noDigitAhead_colon base _)
    (fun h => by cases h), hlast]

theorem scanV6_showV6 {n : Nat} (hn : n < 2 ^ 128) : scanV6 strict (showV6 n) = some (n, []) := by
  unfold showV6
  split
  · next hmapped =>
    have hdigits : Nat.toDigits 16 0xffff = ['f', 'f', 'f', 'f'] := by decide
    have htext : "::ffff:".toList ++ showV4 (n % 0x100000000) =
        ':' :: ':' :: (Nat.toDigits 16 0xffff ++ ':' :: showV4 (n % 0x100000000)) := by
      rw [hdigits]
      rfl
    have hhead := scanGroups_end strict 8 true (.inr
      ⟨Nat.toDigits 16 0xffff ++ ':' :: showV4 (n % 0x100000000), rfl⟩)
    have htail := scanGroups_mapped (n % 0x100000000) (Nat.mod_lt n (by decide))
    have hnumber : ofGroups ([] ++ List.replicate (8 - 0 - 3) 0 ++
        [0xffff, n % 0x100000000 / 65536, n % 0x100000000 % 65536]) =
          (0xffff * 65536 + n % 0x100000000 / 65536) * 65536 + n % 0x100000000 % 65536 := rfl
    rw [htext, scanV6_gap hhead (by decide) htail]
    refine congrArg (fun n => some (n, [])) (hnumber.trans ?_)
    omega
  · obtain ⟨before, after, hgroups, hstart⟩ := longestRun_spec (groups n) 0
    have hlt : ∀ x ∈ groups n, x < 65536 := fun x hx => groups_lt hx
    have hlength := length_groups n
    simp only []
    split
    · next hgap =>
      -- Only the groups on both sides of the gap are written.
      generalize longestRun 0 (groups n) = run at hgroups hstart hgap
      rw [Nat.zero_add] at hstart
      have hsum : before.length + run.2 + after.length = 8 := by
        rw [hgroups, List.length_append, List.length_append, List.length_replicate] at hlength
        exact hlength
      have htake : (groups n).take run.1 = before := by
        rw [hgroups, List.append_assoc, hstart, List.take_left]
      have hdrop : (groups n).drop (run.1 + run.2) = after := by
        have hlen : run.1 + run.2 = (before ++ List.replicate run.2 0).length := by
          rw [List.length_append, List.length_replicate, hstart]
        rw [hlen, hgroups, List.drop_left]
      have hhead : scanGroups strict 8 true (showGroups before ++ ':' :: ':' :: showGroups after) =
          (before, false, ':' :: ':' :: showGroups after) :=
        scanGroups_showGroups strict (fun x hx => hlt x (List.mem_of_mem_take (htake ▸ hx)))
          (by omega) (.inr ⟨_, rfl⟩)
      have htail : scanGroups strict (8 - (before.length + strict.leastGap)) true
          (showGroups after ++ []) = (after, false, []) :=
        scanGroups_showGroups strict (fun x hx => hlt x (List.mem_of_mem_drop (hdrop ▸ hx)))
          (show after.length ≤ 8 - (before.length + 1) by omega) (.inl rfl)
      have hfill : 8 - before.length - after.length = run.2 := by omega
      rw [List.append_nil] at htail
      rw [htake, hdrop, List.append_assoc]
      refine (scanV6_gap hhead (by omega) htail).trans ?_
      rw [hfill, ← hgroups, ofGroups_groups hn]
    · have hall := scanGroups_showGroups strict hlt (Nat.le_of_eq hlength) (.inl rfl)
      rw [List.append_nil] at hall
      simp only [scanV6, hall, if_pos hlength, ofGroups_groups hn]

theorem whole_of_eq {α : Type} {s : Scan α} {cs : List Char} {a : α} (h : s cs = some (a, [])) :
    whole s cs = some a := by
  unfold whole
  rw [h]

/-- A run of groups has a colon, or ends, where four decimal numbers have the first dot. -/
theorem scanV4_showGroups (g : AddressGrammar) (gs : List Nat) {rest : List Char}
    (hrest : EndsGroups rest) : scanV4 g (showGroups gs ++ rest) = none := by
  cases gs with
  | nil => exact scanV4_group g List.not_mem_nil (hrest.noDigitAhead 10) (head?_laterGroups hrest [])
  | cons x gs =>
    rw [showGroups_cons, List.append_assoc]
    exact scanV4_group g (dot_not_mem_toDigits x) (noDigitAhead_laterGroups hrest 10 gs)
      (head?_laterGroups hrest gs)

theorem scanV4_showV6 (g : AddressGrammar) (n : Nat) : scanV4 g (showV6 n) = none := by
  unfold showV6
  split
  · exact scanV4_showGroups g [] (.inr ⟨_, rfl⟩)
  · simp only []
    split
    · rw [List.append_assoc]
      exact scanV4_showGroups g _ (.inr ⟨_, rfl⟩)
    · have := scanV4_showGroups g (groups n) (.inl rfl)
      rwa [List.append_nil] at this

theorem ofText?_text (a : IpAddress) : ofText? a.text = some a := by
  cases a with
  | v4 bits =>
    have hscan : scanV4 strict (showV4 bits.toNat) = some (bits.toNat, []) := by
      have := scanV4_showV4 strict bits.isLt (noDigitAhead_nil 10)
      rwa [List.append_nil] at this
    unfold ofText? text
    rw [String.toList_ofList, whole_of_eq hscan]
    simp only [BitVec.ofNat_toNat, BitVec.setWidth_eq]
  | v6 bits =>
    have hv4 : whole (scanV4 strict) (showV6 bits.toNat) = none := by
      unfold whole
      rw [scanV4_showV6 strict bits.toNat]
    unfold ofText? text
    rw [String.toList_ofList, hv4, whole_of_eq (scanV6_showV6 bits.isLt)]
    simp only [Option.map_some, BitVec.ofNat_toNat, BitVec.setWidth_eq]

/-! ## 6. Characters -/

/-- What a text of an address is made of: digits of the greater base, dots and colons. -/
def IsPart (c : Char) : Prop := (digitValue? 16 c).isSome = true ∨ c = '.' ∨ c = ':'

theorem isPart_of_mem_join {sep : List Char} {parts : List (List Char)}
    (hsep : ∀ c ∈ sep, IsPart c) (hparts : ∀ part ∈ parts, ∀ c ∈ part, IsPart c) :
    ∀ c ∈ join sep parts, IsPart c := by
  induction parts with
  | nil => exact fun c hc => by cases hc
  | cons x more ih =>
    cases more with
    | nil => exact hparts x List.mem_cons_self
    | cons y more =>
      intro c hc
      rw [join, List.mem_append, List.mem_append] at hc
      · rcases hc with (hc | hc) | hc
        · exact hparts x List.mem_cons_self c hc
        · exact hsep c hc
        · exact ih (fun part hpart => hparts part (List.mem_cons_of_mem x hpart)) c hc
      · exact fun h => by cases h

theorem isPart_of_mem_showV4 {n : Nat} : ∀ c ∈ showV4 n, IsPart c := by
  refine isPart_of_mem_join (fun c hc => .inr (.inl (List.mem_singleton.mp hc))) fun part hpart => ?_
  obtain ⟨index, -, rfl⟩ := List.mem_map.mp hpart
  intro c hc
  have hten := isSome_digitValue?_of_mem (by decide) (by decide) hc
  obtain ⟨d, hd⟩ := Option.isSome_iff_exists.mp hten
  obtain ⟨hvalue, hlt⟩ := Option.filter_eq_some_iff.mp hd
  have hsixteen : d < 16 := Nat.lt_trans (of_decide_eq_true hlt) (by decide)
  refine .inl (Option.isSome_iff_exists.mpr ⟨d, ?_⟩)
  exact Option.filter_eq_some_iff.mpr ⟨hvalue, decide_eq_true hsixteen⟩

theorem isPart_of_mem_showGroups {gs : List Nat} : ∀ c ∈ showGroups gs, IsPart c := by
  refine isPart_of_mem_join (fun c hc => .inr (.inr (List.mem_singleton.mp hc))) fun part hpart => ?_
  obtain ⟨x, -, rfl⟩ := List.mem_map.mp hpart
  exact fun c hc => .inl (isSome_digitValue?_of_mem (by decide) (by decide) hc)

theorem isPart_of_mem_text {a : IpAddress} : ∀ c ∈ a.text.toList, IsPart c := by
  -- The marks of a gap and of the addresses that stand for version 4 are parts as well.
  have hcolons : ∀ c ∈ [':', ':'], IsPart c := fun c hc => by
    rcases List.mem_cons.mp hc with rfl | hc
    · exact .inr (.inr rfl)
    · exact .inr (.inr (List.mem_singleton.mp hc))
  have hmark : ∀ c ∈ "::ffff:".toList, IsPart c := by
    have htext : "::ffff:".toList = [':', ':'] ++ List.replicate 4 'f' ++ [':'] := rfl
    intro c hc
    rw [htext, List.mem_append, List.mem_append, List.mem_replicate, List.mem_singleton] at hc
    rcases hc with (hc | ⟨-, rfl⟩) | rfl
    · exact hcolons c hc
    · exact .inl rfl
    · exact .inr (.inr rfl)
  intro c hc
  cases a with
  | v4 bits =>
    rw [text, String.toList_ofList] at hc
    exact isPart_of_mem_showV4 c hc
  | v6 bits =>
    rw [text, String.toList_ofList] at hc
    unfold showV6 at hc
    split at hc
    · rcases List.mem_append.mp hc with hc | hc
      · exact hmark c hc
      · exact isPart_of_mem_showV4 c hc
    · simp only [] at hc
      split at hc
      · rcases List.mem_append.mp hc with hc | hc
        · rcases List.mem_append.mp hc with hc | hc
          · exact isPart_of_mem_showGroups c hc
          · exact hcolons c hc
        · exact isPart_of_mem_showGroups c hc
      · exact isPart_of_mem_showGroups c hc

/-- The text of an address is not empty, since the empty text is no address. -/
theorem text_ne_empty (a : IpAddress) : a.text ≠ "" := by
  intro h
  have hread := ofText?_text a
  have hempty : ofText? "" = none := by decide
  rw [h, hempty] at hread
  cases hread

end Metering.IpAddress
