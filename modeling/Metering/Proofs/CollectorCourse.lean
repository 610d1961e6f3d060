import Metering.Proofs.PollCounts

/-!
A collector that many threads share.

Threads record passes and take snapshots in any order; a call has the collector to itself. A
`CollectorPool` is such a collector with what each thread has still to call, and beside it the calls
that have been made and the snapshots that have been taken. A turn of a thread is its next call, so
every list of turns is an interleaving of the threads' calls.

Results:
1. `callsOf_append_rest`: each thread has made its calls in their order.
2. `shows_snapshot`: what a snapshot shows if the gauges are the latest readings.
3. `Course.step`: one turn keeps the books of passes and snapshots; `Course.run`: every interleaving.
4. `snapshots_conserve_polls`: what all snapshots have shown, and each of them.
-/
namespace Metering

/-! ## 1. Threads and their calls -/

/-- What a thread does with a collector. -/
inductive CollectorCall
  | record (pass : PassRecord)
  | snapshot
deriving DecidableEq

namespace CollectorCall

/-- The pass that a call records. -/
def pass? : CollectorCall → Option PassRecord
  | record pass => some pass
  | snapshot => none

/-- The passes that calls record. -/
def passes (calls : List CollectorCall) : List PassRecord := calls.filterMap pass?

theorem passes_append (calls more : List CollectorCall) :
    passes (calls ++ more) = passes calls ++ passes more := List.filterMap_append

end CollectorCall

/-- A collector and the threads that share it. -/
structure CollectorPool where
  collector : Collector
  /-- What each thread has still to call. -/
  threads : List (List CollectorCall)
  /-- The calls that have been made, oldest first, with the place of the thread. -/
  made : List (Nat × CollectorCall)
  /-- The snapshots that have been taken, oldest first. -/
  taken : List Snapshot

namespace CollectorPool

/-- Nothing has been called yet. -/
def start (threads : List (List CollectorCall)) : CollectorPool := ⟨.empty, threads, [], []⟩

/-- Makes a call. -/
def make (p : CollectorPool) : CollectorCall → CollectorPool
  | .record pass => { p with collector := p.collector.record pass.readings pass.isPoll }
  | .snapshot =>
    { p with collector := p.collector.snapshot.2, taken := p.taken ++ [p.collector.snapshot.1] }

/-- The turn of a thread; one that has no calls left is passed over. -/
def turn (p : CollectorPool) (k : Nat) : CollectorPool :=
  match p.threads[k]? with
  | some (call :: rest) =>
    { p.make call with threads := p.threads.set k rest, made := p.made ++ [(k, call)] }
  | _ => p

/-- One turn after another. -/
def run (p : CollectorPool) (turns : List Nat) : CollectorPool := turns.foldl turn p

/-- The calls in the order in which they were made. -/
def calls (p : CollectorPool) : List CollectorCall := p.made.map Prod.snd

/-- The calls of one thread. -/
def callsOf (p : CollectorPool) (k : Nat) : List CollectorCall :=
  (p.made.filter fun m => m.1 = k).map Prod.snd

end CollectorPool

/-- A snapshot of what some passes have recorded: the last reading of every gauge in the order of
their ids, then a count of polls that is not below zero, and nothing else. -/
def Shows (history : List PassRecord) (s : Snapshot) : Prop :=
  ∃ (readings : Readings) (polls : Int64),
    s.metrics = readings.map (fun r => ⟨r.1, .gauge r.2⟩) ++ [⟨pollCountId, .counter polls⟩] ∧
    readings.Pairwise (fun r t => r.1 < t.1) ∧
    (∀ id x, (id, x) ∈ readings ↔ PassRecord.latest? history id = some x) ∧
    0 ≤ polls.toInt

namespace CollectorCourseLemmas

open CollectorPool CollectorCall PassRecord AgentState PollCountLemmas

variable {p : CollectorPool} {threads : List (List CollectorCall)}

theorem turn_of_call {k : Nat} {call : CollectorCall} {rest : List CollectorCall}
    (h : p.threads[k]? = some (call :: rest)) :
    p.turn k =
      { p.make call with threads := p.threads.set k rest, made := p.made ++ [(k, call)] } := by
  rw [turn, h]

/-- What a turn can be: a call, or nothing if there is none. -/
theorem turn_cases (p : CollectorPool) (k : Nat) :
    (∃ call rest, p.threads[k]? = some (call :: rest)) ∨ p.turn k = p := by
  unfold turn
  split
  next call rest hcall => exact .inl ⟨call, rest, hcall⟩
  next => exact .inr rfl

/-- What a thread has called and what it has still to call are its calls. -/
def KeepsCalls (threads : List (List CollectorCall)) (p : CollectorPool) : Prop :=
  ∀ k calls, threads[k]? = some calls →
    ∃ rest, p.threads[k]? = some rest ∧ calls = p.callsOf k ++ rest

theorem KeepsCalls.turn (h : KeepsCalls threads p) (k : Nat) : KeepsCalls threads (p.turn k) := by
  rcases turn_cases p k with ⟨call, rest, hcall⟩ | hnone
  · rw [turn_of_call hcall]
    intro j calls hj
    obtain ⟨left, hleft, hcalls⟩ := h j calls hj
    by_cases hjk : j = k
    · subst hjk
      obtain rfl := Option.some.inj (hleft.symm.trans hcall)
      refine ⟨rest, ?_, ?_⟩
      · exact List.getElem?_set_self (List.getElem?_eq_some_iff.mp hcall).1
      · rw [hcalls]
        simp [callsOf]
    · refine ⟨left, ?_, ?_⟩
      · exact (List.getElem?_set_ne (Ne.symm hjk)).trans hleft
      · rw [hcalls]
        simp [callsOf, Ne.symm hjk]
  · rwa [hnone]

theorem KeepsCalls.run (h : KeepsCalls threads p) (turns : List Nat) :
    KeepsCalls threads (p.run turns) := by
  induction turns generalizing p with
  | nil => exact h
  | cons k turns ih => exact ih (h.turn k)

/-- Each thread has made its calls in their order. -/
theorem callsOf_append_rest (threads : List (List CollectorCall)) (turns : List Nat) :
    KeepsCalls threads ((start threads).run turns) := by
  have hstart : KeepsCalls threads (start threads) := fun _ calls hcalls => ⟨calls, hcalls, rfl⟩
  exact hstart.run turns

/-! ## 2. One snapshot -/

theorem shown_nonneg (polls : Int64) : 0 ≤ (if polls < 0 then 0 else polls).toInt := by
  split
  next => exact Int.le_of_eq Int64.toInt_zero.symm
  next hpolls => exact Int64.le_iff_toInt_le.mp (Int64.not_lt.mp hpolls)

/-- If the gauges are the latest readings, a snapshot shows them and the count. -/
theorem shows_snapshot {c : Collector} {history : List PassRecord}
    (h : ∀ id, c.gauges.get? id = latest? history id) : Shows history c.snapshot.1 := by
  refine ⟨c.gauges.entries, _, rfl, c.gauges.ordered, fun id x => ?_, shown_nonneg c.polls⟩
  rw [← Table.get?_eq_some_iff, h]

/-! ## 3. Every interleaving -/

/-- A pool as an agent without samplers, which has reported what has been taken. -/
def agent (p : CollectorPool) : AgentState :=
  { AgentState.start [] with collector := p.collector, reports := p.taken }

/-- The books of a pool: what has been counted and shown is what has been recorded, and there is a
snapshot for every call of one, with what had been recorded before. -/
structure Course (p : CollectorPool) : Prop where
  tally : Tally (agent p) (passes p.calls)
  length : p.taken.length = p.calls.count .snapshot
  shows : ∀ before after, p.calls = before ++ .snapshot :: after →
    ∃ s, p.taken[before.count .snapshot]? = some s ∧ Shows (passes before) s

theorem Course.start (threads : List (List CollectorCall)) : Course (.start threads) where
  tally := Tally.start []
  length := rfl
  shows := fun _ _ hsplit => (List.append_ne_nil_of_right_ne_nil _ (List.cons_ne_nil _ _)
    hsplit.symm).elim

/-- A call goes to the end of a list, or it was there before. -/
theorem split_snoc {calls before after : List CollectorCall} {c d : CollectorCall}
    (h : calls ++ [c] = before ++ d :: after) :
    (calls = before ∧ c = d) ∨ ∃ more, calls = before ++ d :: more := by
  rcases List.eq_nil_or_concat after with rfl | ⟨more, last, rfl⟩
  · obtain ⟨hcalls, hlast⟩ := List.append_inj' h rfl
    exact .inl ⟨hcalls, List.head_eq_of_cons_eq hlast⟩
  · rw [List.concat_eq_append, ← List.cons_append, ← List.append_assoc] at h
    exact .inr ⟨more, (List.append_inj' h rfl).1⟩

theorem Course.record (h : Course p) {q : CollectorPool} (pass : PassRecord)
    (hcollector : q.collector = p.collector.record pass.readings pass.isPoll)
    (htaken : q.taken = p.taken) (hcalls : q.calls = p.calls ++ [.record pass]) : Course q where
  tally := by
    rw [hcalls, passes_append]
    exact h.tally.record pass hcollector htaken
  length := by
    rw [htaken, hcalls, h.length, List.count_append]
    rfl
  shows := by
    intro before after hsplit
    rw [hcalls] at hsplit
    rcases split_snoc hsplit with ⟨-, hcall⟩ | ⟨more, hmore⟩
    · cases hcall
    · rw [htaken]
      exact h.shows before more hmore

theorem Course.snapshot (h : Course p) {q : CollectorPool}
    (hcollector : q.collector = p.collector.snapshot.2)
    (htaken : q.taken = p.taken ++ [p.collector.snapshot.1])
    (hcalls : q.calls = p.calls ++ [.snapshot]) : Course q where
  tally := by
    rw [hcalls, passes_append]
    show Tally (agent q) (passes p.calls ++ [])
    rw [List.append_nil]
    exact h.tally.report.same hcollector htaken
  length := by
    rw [htaken, hcalls, List.length_append, h.length, List.count_append]
    rfl
  shows := by
    intro before after hsplit
    rw [hcalls] at hsplit
    rw [htaken]
    rcases split_snoc hsplit with ⟨rfl, -⟩ | ⟨more, hmore⟩
    · -- The snapshot that has just been taken.
      refine ⟨p.collector.snapshot.1, ?_, shows_snapshot h.tally.gauges⟩
      rw [← h.length, List.getElem?_concat_length]
    · obtain ⟨s, hs, hshows⟩ := h.shows before more hmore
      exact ⟨s, (List.getElem?_append_left (List.getElem?_eq_some_iff.mp hs).1).trans hs, hshows⟩

theorem calls_snoc (p : CollectorPool) (k : Nat) (call : CollectorCall) :
    (p.made ++ [(k, call)]).map Prod.snd = p.calls ++ [call] := List.map_append

theorem Course.step (h : Course p) (k : Nat) : Course (p.turn k) := by
  rcases turn_cases p k with ⟨call, rest, hcall⟩ | hnone
  · rw [turn_of_call hcall]
    cases call with
    | record pass => exact h.record pass rfl rfl (calls_snoc p k _)
    | snapshot => exact h.snapshot rfl rfl (calls_snoc p k _)
  · rwa [hnone]

theorem Course.run (h : Course p) (turns : List Nat) : Course (p.run turns) := by
  induction turns generalizing p with
  | nil => exact h
  | cons k turns ih => exact ih (h.step k)

end CollectorCourseLemmas

/-! ## 4. What snapshots show -/

open CollectorPool CollectorCall PassRecord AgentState CollectorCourseLemmas in
/-- However the calls of many threads are interleaved, each of which has made its own in their
order: the polls that all snapshots have shown and those counted since are the passes that count.
There is one snapshot for each call of one. It shows, in the order of their ids, the last reading of
every gauge that had been recorded before, then one count of polls that is not below zero, and
nothing else; and taking it changes no gauge. -/
theorem snapshots_conserve_polls (threads : List (List CollectorCall)) (turns : List Nat) :
    let pool := (CollectorPool.start threads).run turns
    (∀ k calls, threads[k]? = some calls →
      ∃ rest, pool.threads[k]? = some rest ∧ calls = pool.callsOf k ++ rest) ∧
    (polls (passes pool.calls) < 2 ^ 63 →
      reported pool.taken + pool.collector.polls.toInt = polls (passes pool.calls)) ∧
    pool.taken.length = pool.calls.count .snapshot ∧
    (∀ before after, pool.calls = before ++ .snapshot :: after →
      ∃ s, pool.taken[before.count .snapshot]? = some s ∧ Shows (passes before) s) ∧
    (∀ id, pool.collector.gauge? id = latest? (passes pool.calls) id) ∧
    ∀ k rest, pool.threads[k]? = some (.snapshot :: rest) →
      (pool.turn k).collector.gauges = pool.collector.gauges := by
  intro pool
  have hcourse : Course pool := (Course.start threads).run turns
  refine ⟨callsOf_append_rest threads turns, fun hfew => (hcourse.tally.counts hfew).all,
    hcourse.length, hcourse.shows, hcourse.tally.gauges, ?_⟩
  intro k rest hcall
  rw [turn_of_call hcall]
  rfl

open CollectorPool CollectorCall AgentState in
/-- A gauge that is read twice in one pass, one with the id of the count, and a snapshot of one
thread between two passes of another. -/
theorem snapshots_conserve_polls_between_passes :
    let threads : List (List CollectorCall) :=
      [[.record ⟨[("Alloc", ⟨1⟩), ("PollCount", ⟨2⟩), ("Alloc", ⟨3⟩)], true⟩,
        .record ⟨[("Alloc", ⟨4⟩)], true⟩], [.snapshot]]
    let pool := (CollectorPool.start threads).run [0, 1, 0, 1]
    reported pool.taken + pool.collector.polls.toInt = 2 ∧
      ∃ s, pool.taken = [s] ∧
        Shows [⟨[("Alloc", ⟨1⟩), ("PollCount", ⟨2⟩), ("Alloc", ⟨3⟩)], true⟩] s := by
  intro threads pool
  obtain ⟨-, hpolls, hlength, hshows, -⟩ := snapshots_conserve_polls threads [0, 1, 0, 1]
  obtain ⟨s, hs, hshows⟩ := hshows (pool.calls.take 1) (pool.calls.drop 2) (by decide)
  refine ⟨hpolls (by decide), s, ?_, hshows⟩
  obtain ⟨t, ht⟩ := List.length_eq_one_iff.mp hlength
  rw [ht] at hs ⊢
  exact congrArg (fun u => [u]) (Option.some.inj hs)

end Metering
