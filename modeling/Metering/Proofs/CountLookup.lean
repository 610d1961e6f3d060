import Mathlib.Data.List.DropRight
import Metering.Proofs.CollectorCourse

/-!
The count of polls, looked up in a snapshot.

A snapshot lists the gauges and behind them the count. The count itself is right in every snapshot:
it is the number of passes that count since the snapshot before, up to the greatest one that can be
written. But it is looked up by its id alone, and a gauge may have the same id, which then stands in
front of it: the lookup finds the gauge and answers zero (`pollCount_zero_beside_poll`).

Results:
1. `pollCount_snapshot`: what is looked up in one snapshot.
2. `pollsSince_snapshot`, `pollsSince_record`: the passes that count since the last snapshot, call
   by call.
3. `CountsSince.step`: one turn keeps the count; `CountsSince.run`: every interleaving.
4. `exists_run_of_snapshot`: each snapshot is of the collector as it was after the calls before.
5. `pollCount_of_snapshots`: what is looked up in each snapshot of every history.
-/
namespace Metering

/-! ## 1. One snapshot -/

theorem Table.find_eq_find? {α : Type} (key : String) (entries : List (String × α)) :
    find key entries = (entries.find? fun e => e.1 == key).map Prod.snd := by
  induction entries with
  | nil => rfl
  | cons e rest ih =>
    rw [find, List.find?_cons]
    by_cases hkey : e.1 = key
    · rw [if_pos hkey, beq_iff_eq.mpr hkey]
      rfl
    · rw [if_neg hkey, beq_eq_false_iff_ne.mpr hkey, ih]

namespace Collector

/-- The count that a snapshot shows. -/
def shownPolls (c : Collector) : Int64 := if c.polls < 0 then 0 else c.polls

theorem metrics_snapshot (c : Collector) : c.snapshot.1.metrics =
    c.gauges.entries.map (fun e => ⟨e.1, .gauge e.2⟩) ++
      [⟨pollCountId, .counter c.shownPolls⟩] := rfl

/-- A snapshot has one counter, which is the count. -/
theorem counter_mem_snapshot_iff (c : Collector) (id : String) (d : Int64) :
    ⟨id, .counter d⟩ ∈ c.snapshot.1.metrics ↔ id = pollCountId ∧ d = c.shownPolls := by
  rw [metrics_snapshot, List.mem_append, List.mem_map, List.mem_singleton]
  constructor
  · rintro (⟨e, -, he⟩ | hcount)
    · cases (Update.mk.inj he).2
    · obtain ⟨hid, hvalue⟩ := Update.mk.inj hcount
      exact ⟨hid, Value.counter.inj hvalue⟩
  · rintro ⟨rfl, rfl⟩
    exact .inr rfl

/-- A gauge with the id of the count stands in front of it and is found in its place. -/
theorem pollCount_snapshot (c : Collector) : c.snapshot.1.pollCount =
    if (c.gauges.get? pollCountId).isSome then 0 else c.shownPolls := by
  have hfind : c.snapshot.1.metrics.find? (fun u => u.id == pollCountId) =
      ((c.gauges.entries.find? fun e => e.1 == pollCountId).map fun e => ⟨e.1, .gauge e.2⟩).or
        (some ⟨pollCountId, .counter c.shownPolls⟩) := by
    rw [metrics_snapshot, List.find?_append, List.find?_map]
    rfl
  rw [Snapshot.pollCount, hfind, Table.get?, Table.find_eq_find?]
  cases c.gauges.entries.find? fun e => e.1 == pollCountId <;> rfl

end Collector

/-! ## 2. The calls since a snapshot -/

namespace CollectorCall

/-- The passes that count as polls since the last snapshot. -/
def pollsSince (calls : List CollectorCall) : Nat :=
  PassRecord.polls (passes (calls.rtakeWhile fun call => call ≠ .snapshot))

theorem pollsSince_snapshot (calls : List CollectorCall) :
    pollsSince (calls ++ [.snapshot]) = 0 := by
  rw [pollsSince, List.rtakeWhile_concat_neg _ _ _ (by decide)]
  rfl

theorem pollsSince_record (calls : List CollectorCall) (pass : PassRecord) :
    pollsSince (calls ++ [.record pass]) = pollsSince calls + if pass.isPoll then 1 else 0 := by
  rw [pollsSince, List.rtakeWhile_concat_pos _ _ _ (by simp), passes_append,
    PassRecord.polls_append]
  exact congrArg _ (PassRecord.polls_singleton pass)

end CollectorCall

namespace CountLookupLemmas

open CollectorPool CollectorCall PassRecord CollectorCourseLemmas

variable {p : CollectorPool}

/-! ## 3. The count in every interleaving -/

/-- A poll more; the greatest count stays. -/
theorem toInt_countUp_eq_min (polls : Int64) :
    (Collector.countUp polls).toInt = min (polls.toInt + 1) (2 ^ 63 - 1) := by
  by_cases hroom : polls.toInt + 1 < 2 ^ 63
  · rw [PollCountLemmas.toInt_countUp hroom]
    omega
  · have hone : (1 : Int64).toInt = 1 := by decide
    have hfull : Counter.add? polls 1 = none := by
      simp only [Counter.add?, Counter.ofInt?, Counter.fits, hone]
      rw [if_neg]
      simpa using fun _ => by omega
    have hhigh := polls.toInt_lt
    rw [Collector.countUp, hfull, Option.getD_none]
    omega

theorem calls_turn {k : Nat} {call : CollectorCall} {rest : List CollectorCall}
    (h : p.threads[k]? = some (call :: rest)) : (p.turn k).calls = p.calls ++ [call] := by
  rw [turn_of_call h]
  exact calls_snoc p k call

/-- A collector has counted the polls since the last snapshot, as far as it can count. -/
def CountsSince (p : CollectorPool) : Prop :=
  p.collector.polls.toInt = min (pollsSince p.calls : Int) (2 ^ 63 - 1)

theorem CountsSince.step (h : CountsSince p) (k : Nat) : CountsSince (p.turn k) := by
  rcases turn_cases p k with ⟨call, rest, hcall⟩ | hnone
  · rw [CountsSince, calls_turn hcall, turn_of_call hcall]
    cases call with
    | record pass =>
      show (p.collector.record pass.readings pass.isPoll).polls.toInt = _
      rw [pollsSince_record, Collector.polls_record]
      split
      · rw [toInt_countUp_eq_min, h]
        omega
      · exact h
    | snapshot =>
      rw [pollsSince_snapshot]
      rfl
  · rwa [hnone]

theorem CountsSince.run (h : CountsSince p) (turns : List Nat) : CountsSince (p.run turns) := by
  induction turns generalizing p with
  | nil => exact h
  | cons k turns ih => exact ih (h.step k)

theorem countsSince (threads : List (List CollectorCall)) (turns : List Nat) :
    CountsSince ((start threads).run turns) := by
  have hstart : CountsSince (start threads) := rfl
  exact hstart.run turns

/-- What has been counted is not below zero, so a snapshot shows it as it is. -/
theorem CountsSince.shownPolls (h : CountsSince p) :
    p.collector.shownPolls = p.collector.polls := by
  refine if_neg fun hneg => ?_
  have hlow := Int64.lt_iff_toInt_lt.mp hneg
  rw [h, Int64.toInt_zero] at hlow
  omega

/-! ## 4. The collector behind a snapshot -/

theorem run_snoc (p : CollectorPool) (turns : List Nat) (k : Nat) :
    p.run (turns ++ [k]) = (p.run turns).turn k := List.foldl_concat ..

/-- Each snapshot is of the collector as it was after the calls before. -/
theorem exists_run_of_snapshot {threads : List (List CollectorCall)} (turns : List Nat)
    {before after : List CollectorCall}
    (h : ((start threads).run turns).calls = before ++ .snapshot :: after) :
    ∃ earlier, ((start threads).run earlier).calls = before ∧
      ((start threads).run turns).taken[before.count .snapshot]? =
        some ((start threads).run earlier).collector.snapshot.1 := by
  -- On the last turn, since that is where a list of calls and one of snapshots grow.
  induction turns using List.reverseRecOn generalizing before after with
  | nil => exact (List.append_ne_nil_of_right_ne_nil _ (List.cons_ne_nil _ _) h.symm).elim
  | append_singleton turns k ih =>
    generalize hpool : (start threads).run turns = pool at ih
    rw [run_snoc, hpool] at h ⊢
    rcases turn_cases pool k with ⟨call, rest, hcall⟩ | hnone
    · rw [calls_turn hcall] at h
      rw [turn_of_call hcall]
      rcases split_snoc h with ⟨rfl, rfl⟩ | ⟨more, hmore⟩
      · -- The snapshot that has just been taken.
        refine ⟨turns, by rw [hpool], ?_⟩
        have hlength : pool.taken.length = pool.calls.count .snapshot :=
          hpool ▸ ((Course.start threads).run turns).length
        show (pool.taken ++ [pool.collector.snapshot.1])[pool.calls.count .snapshot]? = _
        rw [← hlength, List.getElem?_concat_length, hpool]
      · obtain ⟨earlier, hearlier, htaken⟩ := ih hmore
        refine ⟨earlier, hearlier, ?_⟩
        cases call with
        | record pass => exact htaken
        | snapshot =>
          exact (List.getElem?_append_left (List.getElem?_eq_some_iff.mp htaken).1).trans htaken
    · rw [hnone] at h ⊢
      exact ih h

end CountLookupLemmas

/-! ## 5. Every history -/

open CollectorPool CollectorCall PassRecord CollectorCourseLemmas CountLookupLemmas in
/-- However the calls of many threads are interleaved, and whatever ids the gauges have: every
snapshot has the count as its one counter of that id, and this is the number of passes that count
since the snapshot before, or the greatest count if they are more. Looked up in the snapshot it is
the same, unless a gauge of that id has been recorded at any time before: then zero is found, which
is the count only if no pass has counted. -/
theorem pollCount_of_snapshots (threads : List (List CollectorCall)) (turns : List Nat) :
    let pool := (CollectorPool.start threads).run turns
    ∀ before after, pool.calls = before ++ .snapshot :: after →
      ∃ (s : Snapshot) (polls : Int64), pool.taken[before.count .snapshot]? = some s ∧
        (∀ d, ⟨pollCountId, .counter d⟩ ∈ s.metrics ↔ d = polls) ∧
        polls.toInt = min (pollsSince before : Int) (2 ^ 63 - 1) ∧
        s.pollCount = (if (latest? (passes before) pollCountId).isSome then 0 else polls) ∧
        (s.pollCount = polls ↔
          latest? (passes before) pollCountId = none ∨ pollsSince before = 0) := by
  intro pool before after hsplit
  obtain ⟨earlier, hcalls, htaken⟩ := exists_run_of_snapshot turns hsplit
  generalize hq : (start threads).run earlier = q at hcalls htaken
  have hcount : CountsSince q := hq ▸ countsSince threads earlier
  have hshown := hcount.shownPolls
  have hgauge : q.collector.gauges.get? pollCountId = latest? (passes before) pollCountId := by
    rw [← hcalls, ← hq]
    exact ((Course.start threads).run earlier).tally.gauges pollCountId
  have hpolls : q.collector.polls.toInt = min (pollsSince before : Int) (2 ^ 63 - 1) :=
    hcalls ▸ hcount
  have hlookup : q.collector.snapshot.1.pollCount =
      if (latest? (passes before) pollCountId).isSome then 0 else q.collector.polls := by
    rw [Collector.pollCount_snapshot, hgauge, hshown]
  refine ⟨q.collector.snapshot.1, q.collector.polls, htaken, fun d => ?_, hpolls, hlookup, ?_⟩
  · rw [Collector.counter_mem_snapshot_iff, hshown]
    exact and_iff_right rfl
  · rw [hlookup]
    cases latest? (passes before) pollCountId with
    | none => exact ⟨fun _ => .inl rfl, fun _ => rfl⟩
    | some x =>
      rw [Option.isSome_some, if_pos rfl]
      have hzero : 0 = q.collector.polls ↔ pollsSince before = 0 := by
        rw [← Int64.toInt_inj, Int64.toInt_zero, hpolls]
        omega
      exact hzero.trans (or_iff_right (Option.some_ne_none x)).symm

open CollectorCall in
/-- Two passes that count, then a snapshot of another thread, and one more such pass, with a gauge
of the id of the count, before the next snapshot. -/
theorem pollCount_of_snapshots_with_gauge_between :
    let threads : List (List CollectorCall) :=
      [[.record ⟨[("Alloc", ⟨1⟩)], true⟩, .record ⟨[], true⟩, .record ⟨[("PollCount", ⟨7⟩)], true⟩],
        [.snapshot, .snapshot]]
    let pool := (CollectorPool.start threads).run [0, 0, 1, 0, 1]
    ∃ s t, pool.taken[0]? = some s ∧ s.pollCount.toInt = 2 ∧
      pool.taken[1]? = some t ∧ t.pollCount = 0 ∧ ⟨"PollCount", .counter 1⟩ ∈ t.metrics := by
  intro threads pool
  have hlookup := pollCount_of_snapshots threads [0, 0, 1, 0, 1]
  obtain ⟨s, two, hs, -, htwo, hfound, -⟩ :=
    hlookup (pool.calls.take 2) (pool.calls.drop 3) (by decide)
  obtain ⟨t, one, ht, hcounter, hone, hzero, -⟩ :=
    hlookup (pool.calls.take 4) (pool.calls.drop 5) (by decide)
  have hsince : pollsSince (pool.calls.take 2) = 2 ∧ pollsSince (pool.calls.take 4) = 1 := by decide
  rw [hsince.1] at htwo
  rw [hsince.2] at hone
  rw [if_neg (by decide)] at hfound
  rw [if_pos (by decide)] at hzero
  have hone : 1 = one := Int64.toInt_inj.mp hone.symm
  exact ⟨s, t, hs, hfound ▸ htwo, ht, hzero, (hcounter 1).mpr hone⟩

/-- One pass that counts, with a gauge of the id of the count: the snapshot has a count of one, and
zero is looked up. -/
theorem pollCount_zero_beside_poll :
    ∃ s, ((CollectorPool.start [[.record ⟨[("PollCount", ⟨7⟩)], true⟩, .snapshot]]).run
        [0, 0]).taken = [s] ∧
      ⟨"PollCount", .counter 1⟩ ∈ s.metrics ∧ s.pollCount = 0 :=
  ⟨_, rfl, by decide, by decide⟩

end Metering
