import Mathlib.Algebra.BigOperators.Group.List.Basic
import Mathlib.Data.List.Flatten
import Metering.Agent.FanOut

/-!
The books of a fan-out.

A `Job` is a metric that a worker has taken, with what its attempts came to. `FanOut.jobs` notes
the jobs of every worker in a course of events, and `Kept` says for each state of a worker what
its jobs look like and what it remembers of them. `Books` is the invariant of a whole fan-out: a
metric is with one worker or still pending, and what has been gathered is what the workers that
have come home have done.

Results:
1. `Books.perm_flatMap_set`: what is collected from a list in which one place changes.
2. `Books.Kept.take` to `Books.Kept.gatherLost`: one worker makes one move.
3. `Books.step`: one move of a fan-out; `Books.run`: every course of events.
4. `Books.isStuck_iff`: before the end, nothing can happen only if every worker is lost while the
   queue is full.
5. `progress_unless_all_lost`: progress, an end of every course of events, and what is counted
   then. The negative result `lost_workers_not_survived`: a fan-out without workers can hang, and
   one that returns can have lost count of a metric.
-/
namespace Metering

/-- A metric that a worker has taken, with what the attempts at it came to. -/
structure Job where
  metric : Update
  outcomes : List Attempt
deriving DecidableEq, Repr

namespace Job

def note (outcome : Attempt) (j : Job) : Job := { j with outcomes := j.outcomes ++ [outcome] }

/-- Notes an attempt at the latest job. -/
def noteLatest (outcome : Attempt) : List Job → List Job
  | [] => []
  | j :: js => j.note outcome :: js

/-- The attempts at the metric. -/
def trials (j : Job) : List Trial := j.outcomes.map (⟨false, [j.metric], ·⟩)

def wasAccepted (j : Job) : Bool := j.outcomes.contains .accepted

def hasCrashed (j : Job) : Bool := j.outcomes.contains .crashed

/-- Attempts were made until one was accepted, or as many as there may be. -/
inductive IsDone (retries : Nat) : Job → Prop
  | accepted {metric : Update} {refusals : Nat} : refusals ≤ retries →
      IsDone retries ⟨metric, List.replicate refusals .refused ++ [.accepted]⟩
  | givenUp {metric : Update} : IsDone retries ⟨metric, List.replicate (retries + 1) .refused⟩

/-- The last attempt has crashed. -/
inductive IsBroken (retries : Nat) : Job → Prop
  | crashed {metric : Update} {refusals : Nat} : refusals ≤ retries →
      IsBroken retries ⟨metric, List.replicate refusals .refused ++ [.crashed]⟩

theorem IsDone.not_crashed {retries : Nat} {j : Job} (h : j.IsDone retries) :
    j.hasCrashed = false := by
  cases h with
  | accepted _ => simp [hasCrashed]
  | givenUp => simp [hasCrashed]

theorem IsBroken.crashes {retries : Nat} {j : Job} (h : j.IsBroken retries) :
    j.hasCrashed = true := by
  cases h with
  | crashed _ => simp [hasCrashed]

end Job

namespace DispatchReport

/-- What jobs come to. -/
def ofJobs (js : List Job) : DispatchReport :=
  ⟨js.countP Job.wasAccepted, js.countP (!Job.wasAccepted ·), 0⟩

theorem ofJobs_append (js ks : List Job) : ofJobs (js ++ ks) = (ofJobs js).add (ofJobs ks) := by
  simp only [ofJobs, add, List.countP_append]

theorem ofJobs_perm {js ks : List Job} (h : js.Perm ks) : ofJobs js = ofJobs ks := by
  simp only [ofJobs, h.countP_eq]

theorem ofJobs_accepted {j : Job} (h : j.wasAccepted = true) (js : List Job) :
    ofJobs (j :: js) = (ofJobs js).countSent := by
  simp [ofJobs, countSent, h]

theorem ofJobs_givenUp {j : Job} (h : j.wasAccepted = false) (js : List Job) :
    ofJobs (j :: js) = (ofJobs js).countFailed := by
  simp [ofJobs, countFailed, h]

theorem counted_ofJobs (js : List Job) : (ofJobs js).sent + (ofJobs js).failed = js.length :=
  by simpa [ofJobs] using (List.length_eq_countP_add_countP Job.wasAccepted (l := js)).symm

end DispatchReport

namespace FanOut

/-- The jobs of every worker after a move, the latest first. -/
def note (f : FanOut) (logs : List (List Job)) : FanOutMove → List (List Job)
  | .take index =>
    match f.queue with
    | m :: _ => logs.modify index (⟨m, []⟩ :: ·)
    | [] => logs
  | .attempt index outcome => logs.modify index (Job.noteLatest outcome)
  | _ => logs

/-- The jobs of every worker after a course of events, if there were some before. -/
def jobsFrom (retries : Nat) : FanOut → List (List Job) → List FanOutMove → List (List Job)
  | _, logs, [] => logs
  | f, logs, m :: moves => jobsFrom retries ((f.step? retries m).getD f) (f.note logs m) moves

/-- The jobs of every worker in a course of events. -/
def jobs (retries : Nat) (f : FanOut) (moves : List FanOutMove) : List (List Job) :=
  f.jobsFrom retries (List.replicate f.workers.length []) moves

/-- The attempt that a move ends. -/
def trial? (f : FanOut) : FanOutMove → Option Trial
  | .attempt index outcome =>
    (f.workers[index]?.bind Worker.metric?).map (⟨false, [·], outcome⟩)
  | _ => none

/-- The attempts in a course of events, in the order in which they end. -/
def trials (retries : Nat) (f : FanOut) : List FanOutMove → List Trial
  | [] => []
  | m :: moves => (f.trial? m).toList ++ trials retries ((f.step? retries m).getD f) moves

/-- The jobs of the workers that were not lost. -/
def survivors (logs : List (List Job)) : List Job :=
  (logs.filter fun js => !js.any Job.hasCrashed).flatten

/-- Not at its end, and nothing can happen. -/
def IsStuck (retries : Nat) (f : FanOut) : Prop :=
  f.hasReturned = false ∧ ∀ m, f.step? retries m = none

/-- No metric is left to take, and none will come. -/
def IsDrained (f : FanOut) : Prop := f.isClosed = true ∧ f.queue = []

namespace Books

/-! ## 1. Lists in which one place changes -/

theorem perm_flatMap_set {α β : Type} (c : α → List β) {l : List α} {i : Nat} {a : α}
    (h : l[i]? = some a) (b : α) :
    ((l.set i b).flatMap c ++ c a).Perm (l.flatMap c ++ c b) := by
  induction l generalizing i with
  | nil => cases h
  | cons first rest ih =>
    cases i with
    | zero =>
      obtain rfl := Option.some.inj h
      simp only [List.set_cons_zero, List.flatMap_cons, List.append_assoc]
      calc (c b ++ (rest.flatMap c ++ c first)).Perm (rest.flatMap c ++ c first ++ c b) :=
            List.perm_append_comm
        List.Perm _ (c first ++ rest.flatMap c ++ c b) := List.perm_append_comm.append_right _
        _ = c first ++ (rest.flatMap c ++ c b) := List.append_assoc ..
    | succ i =>
      simp only [List.set_cons_succ, List.flatMap_cons, List.append_assoc]
      exact (ih h).append_left _

/-- What is collected in addition from a place that gives more. -/
theorem perm_flatMap_set_more {α β : Type} {c : α → List β} {l : List α} {i : Nat} {a b : α}
    (h : l[i]? = some a) (more : List β) (hmore : (c b).Perm (more ++ c a)) :
    ((l.set i b).flatMap c).Perm (l.flatMap c ++ more) := by
  have hperm := (perm_flatMap_set c h b).trans (hmore.append_left _)
  rw [← List.append_assoc] at hperm
  exact (List.perm_append_right_iff _).mp hperm

theorem flatMap_replicate_nil {α β : Type} {c : α → List β} {a : α} (h : c a = []) (n : Nat) :
    (List.replicate n a).flatMap c = [] := by
  rw [List.flatMap_eq_nil_iff]
  intro b hb
  rw [List.eq_of_mem_replicate hb, h]

/-! ## 2. One worker -/

/-- What the jobs of a worker look like, the latest first, and what it remembers of them. -/
inductive Kept (retries : Nat) (f : FanOut) : Worker → List Job → Prop
  | idle {js : List Job} : (∀ j ∈ js, j.IsDone retries) → Kept retries f (.idle (.ofJobs js)) js
  | sending {m : Update} {tried : Nat} {js : List Job} : tried ≤ retries →
      (∀ j ∈ js, j.IsDone retries) →
      Kept retries f (.sending (.ofJobs js) m tried) (⟨m, List.replicate tried .refused⟩ :: js)
  | ended {js : List Job} : f.IsDrained → (∀ j ∈ js, j.IsDone retries) →
      Kept retries f (.ended (.ofJobs js)) js
  | lost {j : Job} {js : List Job} : j.IsBroken retries → (∀ j ∈ js, j.IsDone retries) →
      Kept retries f .lost (j :: js)
  | gathered {js : List Job} : f.IsDrained → (∀ j ∈ js, j.IsDone retries) →
      Kept retries f .gathered js
  | gatheredLost {j : Job} {js : List Job} : f.isClosed = true → j.IsBroken retries →
      (∀ j ∈ js, j.IsDone retries) → Kept retries f .gathered (j :: js)

variable {retries : Nat} {f g : FanOut} {w : Worker} {r : DispatchReport} {js : List Job}

/-- What other workers do makes no difference to a worker. -/
theorem Kept.mono (h : Kept retries f w js) (hclosed : f.isClosed = true → g.isClosed = true)
    (hdrained : f.IsDrained → g.IsDrained) : Kept retries g w js := by
  cases h with
  | idle hdone => exact .idle hdone
  | sending htried hdone => exact .sending htried hdone
  | ended hend hdone => exact .ended (hdrained hend) hdone
  | lost hbroken hdone => exact .lost hbroken hdone
  | gathered hend hdone => exact .gathered (hdrained hend) hdone
  | gatheredLost hend hbroken hdone => exact .gatheredLost (hclosed hend) hbroken hdone

theorem Kept.take (h : Kept retries f (.idle r) js) (m : Update) :
    Kept retries g (.sending r m 0) (⟨m, []⟩ :: js) := by
  cases h with
  | idle hdone => exact .sending (Nat.zero_le _) hdone

theorem Kept.attempt {m : Update} {tried : Nat} (h : Kept retries f (.sending r m tried) js)
    (outcome : Attempt) :
    Kept retries g (Worker.afterAttempt retries outcome r m tried)
      (Job.noteLatest outcome js) := by
  cases h with
  | @sending _ _ js htried hdone =>
    cases outcome with
    | accepted =>
      let j : Job := ⟨m, List.replicate tried .refused ++ [.accepted]⟩
      have hcount : DispatchReport.ofJobs (j :: js) = (DispatchReport.ofJobs js).countSent :=
        DispatchReport.ofJobs_accepted (by simp [j, Job.wasAccepted]) js
      rw [Worker.afterAttempt, ← hcount]
      exact .idle (List.forall_mem_cons.mpr ⟨.accepted htried, hdone⟩)
    | refused =>
      rw [Worker.afterAttempt, Job.noteLatest, Job.note, ← List.replicate_succ']
      by_cases hmore : tried < retries
      · rw [if_pos hmore]
        exact .sending hmore hdone
      · -- the schedule is used up
        obtain rfl : tried = retries := Nat.le_antisymm htried (Nat.le_of_not_lt hmore)
        let j : Job := ⟨m, List.replicate (tried + 1) .refused⟩
        have hcount : DispatchReport.ofJobs (j :: js) = (DispatchReport.ofJobs js).countFailed :=
          DispatchReport.ofJobs_givenUp (by simp [j, Job.wasAccepted]) js
        rw [if_neg hmore, ← hcount]
        exact .idle (List.forall_mem_cons.mpr ⟨.givenUp, hdone⟩)
    | crashed => exact .lost (.crashed htried) hdone

theorem Kept.retire (h : Kept retries f (.idle r) js) (hend : g.IsDrained) :
    Kept retries g (.ended r) js := by
  cases h with
  | idle hdone => exact .ended hend hdone

theorem Kept.gather (h : Kept retries f (.ended r) js) (hsame : f.IsDrained → g.IsDrained) :
    Kept retries g .gathered js := by
  cases h with
  | ended hend hdone => exact .gathered (hsame hend) hdone

theorem Kept.gatherLost (h : Kept retries f .lost js) (hend : g.isClosed = true) :
    Kept retries g .gathered js := by
  cases h with
  | lost hbroken hdone => exact .gatheredLost hend hbroken hdone

/-- A worker remembers the jobs that it has finished. -/
theorem Kept.counts (h : Kept retries f (.ended r) js) :
    r = .ofJobs js ∧ js.any Job.hasCrashed = false := by
  cases h with
  | ended _ hdone =>
    exact ⟨rfl, List.any_eq_false.mpr fun j hj => by simp [(hdone j hj).not_crashed]⟩

theorem Kept.lost_crashed (h : Kept retries f .lost js) : js.any Job.hasCrashed = true := by
  cases h with
  | lost hbroken _ => rw [List.any_cons, hbroken.crashes, Bool.true_or]

theorem Kept.trials {m : Update} {tried : Nat} (h : Kept retries f (.sending r m tried) js)
    (outcome : Attempt) :
    ((Job.noteLatest outcome js).flatMap Job.trials).Perm
      (⟨false, [m], outcome⟩ :: js.flatMap Job.trials) := by
  cases h with
  | @sending _ _ js _ _ =>
    simp only [Job.noteLatest, Job.note, Job.trials, List.flatMap_cons, List.map_append,
      List.map_cons, List.map_nil, List.append_assoc]
    exact List.perm_middle

/-- The jobs of a worker that have been gathered. -/
def credit : Worker × List Job → List Job
  | (.gathered, js) => if js.any Job.hasCrashed then [] else js
  | _ => []

theorem credit_of_ne (h : w ≠ .gathered) : credit (w, js) = [] := by
  cases w with
  | gathered => exact absurd rfl h
  | _ => rfl

theorem afterAttempt_ne_gathered (outcome : Attempt) (m : Update) (tried : Nat) :
    Worker.afterAttempt retries outcome r m tried ≠ .gathered := by
  cases outcome with
  | refused =>
    simp only [Worker.afterAttempt]
    split <;> simp
  | _ => simp [Worker.afterAttempt]

theorem map_metric_noteLatest (outcome : Attempt) (js : List Job) :
    (Job.noteLatest outcome js).map Job.metric = js.map Job.metric := by
  cases js <;> rfl

/-! ## 3. All workers -/

/-- The logs of a crew in which one worker has changed. -/
theorem logs_set {crew : List (Worker × List Job)} {i : Nat} (h : crew[i]? = some (w, js))
    (w' : Worker) (k : List Job → List Job) :
    (crew.set i (w', k js)).map Prod.snd = (crew.map Prod.snd).modify i k := by
  have hlog : (crew.map Prod.snd)[i]? = some js := by rw [List.getElem?_map, h]; rfl
  rw [List.map_set, List.modify_eq_set, hlog]
  rfl

theorem logs_set_same {crew : List (Worker × List Job)} {i : Nat} (h : crew[i]? = some (w, js))
    (w' : Worker) : (crew.set i (w', js)).map Prod.snd = crew.map Prod.snd := by
  have hset := logs_set h w' id
  rwa [List.modify_id] at hset

theorem kept_set {crew : List (Worker × List Job)} {i : Nat} {x : Worker × List Job}
    (h : ∀ y ∈ crew, Kept retries f y.1 y.2) (hclosed : f.isClosed = true → g.isClosed = true)
    (hdrained : f.IsDrained → g.IsDrained) (hx : Kept retries g x.1 x.2) :
    ∀ y ∈ crew.set i x, Kept retries g y.1 y.2 := by
  intro y hy
  rcases List.mem_or_eq_of_mem_set hy with hold | rfl
  · exact (h y hold).mono hclosed hdrained
  · exact hx

end Books

/-- The books of a fan-out after some attempts. -/
structure Books (retries width : Nat) (metrics : List Update) (f : FanOut)
    (crew : List (Worker × List Job)) (past : List Trial) : Prop where
  workers : f.workers = crew.map Prod.fst
  size : crew.length = width
  capacity : f.capacity = width
  room : f.queue.length ≤ width
  closed : f.isClosed = true → f.waiting = []
  kept : ∀ x ∈ crew, Books.Kept retries f x.1 x.2
  taken : (crew.flatMap (fun x => x.2.map Job.metric) ++ f.pending).Perm metrics
  gathered : f.gathered = .ofJobs (crew.flatMap Books.credit)
  tried : (crew.flatMap fun x => x.2.flatMap Job.trials).Perm past

namespace Books

variable {retries width : Nat} {metrics : List Update} {f g : FanOut}
  {crew : List (Worker × List Job)} {past : List Trial}

theorem start (retries width : Nat) (metrics : List Update) :
    Books retries width metrics (.start metrics width)
      (List.replicate width (.idle .none, [])) [] where
  workers := by simp [FanOut.start]
  size := List.length_replicate
  capacity := rfl
  room := Nat.zero_le _
  closed := fun h => by cases h
  kept := by
    intro x hx
    obtain rfl := List.eq_of_mem_replicate hx
    exact .idle fun j hj => absurd hj List.not_mem_nil
  taken := by
    rw [flatMap_replicate_nil rfl]
    exact .refl _
  gathered := by
    rw [flatMap_replicate_nil rfl]
    rfl
  tried := by
    rw [flatMap_replicate_nil rfl]

theorem crew_at (h : Books retries width metrics f crew past) {i : Nat} {w : Worker}
    (hw : f.workers[i]? = some w) : ∃ js, crew[i]? = some (w, js) ∧ Kept retries f w js := by
  rw [h.workers, List.getElem?_map] at hw
  obtain ⟨⟨w, js⟩, hx, rfl⟩ := Option.map_eq_some_iff.mp hw
  exact ⟨js, hx, h.kept _ (List.mem_of_getElem? hx)⟩

/-- One worker changes: it may take metrics from the queue, and its counts may be gathered. -/
theorem setWorker (h : Books retries width metrics f crew past) {i : Nat} {w w' : Worker}
    {js js' : List Job} {queue : List Update} {r : DispatchReport}
    (taken : List Update) (more : List Trial) (hcrew : crew[i]? = some (w, js)) (hqueue : f.queue = taken ++ queue)
    (hmetrics : js'.map Job.metric = taken ++ js.map Job.metric)
    (hkept : Kept retries f w' js') (hcredit : credit (w, js) = [])
    (hgathered : r = f.gathered.add (.ofJobs (credit (w', js'))))
    (htried : (js'.flatMap Job.trials).Perm (more ++ js.flatMap Job.trials)) :
    Books retries width metrics
      { f with queue := queue, workers := f.workers.set i w', gathered := r }
      (crew.set i (w', js')) (past ++ more) where
  workers := by
    rw [List.map_set, ← h.workers]
  size := by rw [List.length_set, h.size]
  capacity := h.capacity
  room := by
    have hroom := h.room
    rw [hqueue, List.length_append] at hroom
    exact Nat.le_trans (Nat.le_add_left _ _) hroom
  closed := h.closed
  kept := by
    have hdrained : f.IsDrained →
        IsDrained { f with queue := queue, workers := f.workers.set i w', gathered := r } := by
      intro hend
      have hempty := hend.2
      rw [hqueue] at hempty
      exact ⟨hend.1, (List.append_eq_nil_iff.mp hempty).2⟩
    exact kept_set h.kept id hdrained (hkept.mono id hdrained)
  taken := by
    have hmore := perm_flatMap_set_more (c := fun x : Worker × List Job => x.2.map Job.metric)
      (b := (w', js')) hcrew taken (.of_eq hmetrics)
    have hpending : f.pending = taken ++ (queue ++ f.waiting) := by
      rw [pending, hqueue, List.append_assoc]
    have htaken := h.taken
    rw [hpending, ← List.append_assoc] at htaken
    exact (hmore.append_right _).trans htaken
  gathered := by
    have hmore := perm_flatMap_set_more (c := credit) (b := (w', js')) hcrew (credit (w', js'))
      (by rw [hcredit, List.append_nil])
    rw [hgathered, DispatchReport.ofJobs_perm hmore, DispatchReport.ofJobs_append, ← h.gathered]
  tried := by
    have hmore := perm_flatMap_set_more (c := fun x : Worker × List Job => x.2.flatMap Job.trials)
      (b := (w', js')) hcrew more htried
    exact hmore.trans (h.tried.append_right more)

/-- One move, of the producer or of one worker. -/
theorem step (h : Books retries width metrics f crew past) {m : FanOutMove}
    (hstep : f.step? retries m = some g) :
    ∃ crew', Books retries width metrics g crew' (past ++ (f.trial? m).toList) ∧
      crew'.map Prod.snd = f.note (crew.map Prod.snd) m := by
  have htried : (crew.flatMap fun x => x.2.flatMap Job.trials).Perm (past ++ []) :=
    (List.append_nil past).symm ▸ h.tried
  cases step_of_step? hstep with
  | @offer m more hwaiting hroom =>
    have hopen : f.isClosed ≠ true := fun hclosed => by
      rw [h.closed hclosed] at hwaiting
      cases hwaiting
    refine ⟨crew, { h with room := ?_, closed := ?_, kept := ?_, taken := ?_, tried := ?_ }, rfl⟩
    · rw [List.length_append, ← h.capacity]
      exact hroom
    · exact fun hclosed => absurd hclosed hopen
    · exact fun x hx => (h.kept x hx).mono id fun hend => absurd hend.1 hopen
    · simpa [pending, hwaiting] using h.taken
    · exact htried
  | close hwaiting hopen =>
    have hundrained : ¬ f.IsDrained := fun hend => absurd hend.1 (by simp [hopen])
    refine ⟨crew, { h with closed := fun _ => hwaiting, kept := ?_, tried := ?_ }, rfl⟩
    · exact fun x hx => (h.kept x hx).mono (fun _ => rfl) fun hend => absurd hend hundrained
    · exact htried
  | @take i r m more hworker hqueue =>
    obtain ⟨js, hcrew, hkept⟩ := h.crew_at hworker
    refine ⟨_, h.setWorker [m] [] hcrew hqueue rfl (hkept.take m) rfl rfl (.refl _), ?_⟩
    rw [note, hqueue]
    exact logs_set hcrew _ (⟨m, []⟩ :: ·)
  | @attempt i r m tried outcome hworker =>
    obtain ⟨js, hcrew, hkept⟩ := h.crew_at hworker
    have htrial : f.trial? (.attempt i outcome) = some ⟨false, [m], outcome⟩ := by
      rw [trial?, hworker]
      rfl
    have hcredit : credit (Worker.afterAttempt retries outcome r m tried,
        Job.noteLatest outcome js) = [] := credit_of_ne (afterAttempt_ne_gathered outcome m tried)
    rw [htrial]
    refine ⟨_, h.setWorker [] _ hcrew rfl (map_metric_noteLatest outcome js)
      (hkept.attempt outcome) rfl ?_ (hkept.trials outcome), logs_set hcrew _ _⟩
    rw [hcredit]
    rfl
  | @retire i r hworker hqueue hclosed =>
    obtain ⟨js, hcrew, hkept⟩ := h.crew_at hworker
    exact ⟨_, h.setWorker [] [] hcrew rfl rfl (hkept.retire ⟨hclosed, hqueue⟩) rfl rfl (.refl _),
      logs_set_same hcrew _⟩
  | @gather i r hclosed hworker =>
    obtain ⟨js, hcrew, hkept⟩ := h.crew_at hworker
    obtain ⟨rfl, hwhole⟩ := hkept.counts
    have hcredit : credit (.gathered, js) = js := by
      rw [credit, hwhole]
      rfl
    refine ⟨_, h.setWorker [] [] hcrew rfl rfl (hkept.gather id) rfl ?_ (.refl _),
      logs_set_same hcrew _⟩
    rw [hcredit]
  | @gatherLost i hclosed hworker =>
    obtain ⟨js, hcrew, hkept⟩ := h.crew_at hworker
    have hcredit : credit (.gathered, js) = [] := by
      rw [credit, hkept.lost_crashed]
      rfl
    refine ⟨_, h.setWorker [] [] hcrew rfl rfl (hkept.gatherLost hclosed) rfl ?_ (.refl _),
      logs_set_same hcrew _⟩
    rw [hcredit]
    rfl

/-- Every course of events. -/
theorem run (h : Books retries width metrics f crew past) {moves : List FanOutMove}
    (hrun : f.run? retries moves = some g) :
    ∃ crew', Books retries width metrics g crew' (past ++ f.trials retries moves) ∧
      crew'.map Prod.snd = f.jobsFrom retries (crew.map Prod.snd) moves := by
  induction moves generalizing f crew past with
  | nil =>
    obtain rfl := Option.some.inj hrun
    exact ⟨crew, by rwa [trials, List.append_nil], rfl⟩
  | cons m moves ih =>
    obtain ⟨f₁, hstep, hrest⟩ := Option.bind_eq_some_iff.mp hrun
    obtain ⟨crew₁, h₁, hlogs₁⟩ := h.step hstep
    obtain ⟨crew', h', hlogs'⟩ := ih h₁ hrest
    refine ⟨crew', ?_, ?_⟩
    · rwa [trials, hstep, Option.getD_some, ← List.append_assoc]
    · rw [jobsFrom, hstep, Option.getD_some, ← hlogs₁]
      exact hlogs'

/-! ## 4. Progress -/

theorem not_stuck {m : FanOutMove} (h : Step retries f m g) : ¬ f.IsStuck retries := by
  intro hstuck
  have hnone := hstuck.2 m
  rw [step?_of_step h] at hnone
  cases hnone

theorem not_closed_of_waiting (h : Books retries width metrics f crew past)
    (hwaiting : f.waiting ≠ []) : f.isClosed = false := by
  cases hclosed : f.isClosed with
  | false => rfl
  | true => exact absurd (h.closed hclosed) hwaiting

/-- While metrics wait, only lost workers can be unable to make a move. -/
theorem lost_of_stuck (h : Books retries width metrics f crew past)
    (hstuck : f.IsStuck retries) (hwaiting : f.waiting ≠ []) (hqueue : f.queue ≠ []) :
    ∀ w ∈ f.workers, w = .lost := by
  intro w hw
  have hopen := h.not_closed_of_waiting hwaiting
  obtain ⟨i, hi⟩ := List.getElem?_of_mem hw
  obtain ⟨js, -, hkept⟩ := h.crew_at hi
  obtain ⟨m, more, hqueue⟩ := List.exists_cons_of_ne_nil hqueue
  cases hkept with
  | idle _ => exact absurd hstuck (not_stuck (.take hi hqueue))
  | sending _ _ => exact absurd hstuck (not_stuck (.attempt .accepted hi))
  | ended hend _ => exact absurd hend.1 (by simp [hopen])
  | lost _ _ => rfl
  | gathered hend _ => exact absurd hend.1 (by simp [hopen])
  | gatheredLost hend _ _ => exact absurd hend (by simp [hopen])

/-- Once every metric has been offered, something can happen until the end. -/
theorem not_stuck_of_none_waiting (hwaiting : f.waiting = []) : ¬ f.IsStuck retries := by
  intro hstuck
  cases hclosed : f.isClosed with
  | false => exact not_stuck (.close hwaiting hclosed) hstuck
  | true =>
    have hleft := hstuck.1
    rw [hasReturned, hclosed, Bool.true_and, List.all_eq_false] at hleft
    obtain ⟨w, hw, hhere⟩ := hleft
    obtain ⟨i, hi⟩ := List.getElem?_of_mem hw
    cases w with
    | idle r =>
      cases hqueue : f.queue with
      | nil => exact not_stuck (.retire hi hqueue hclosed) hstuck
      | cons m more => exact not_stuck (.take hi hqueue) hstuck
    | sending r m tried => exact not_stuck (.attempt .accepted hi) hstuck
    | ended r => exact not_stuck (.gather hclosed hi) hstuck
    | lost => exact not_stuck (.gatherLost hclosed hi) hstuck
    | gathered => exact hhere rfl

theorem isStuck_iff (h : Books retries width metrics f crew past) (hwidth : 1 ≤ width) :
    f.IsStuck retries ↔
      (∀ w ∈ f.workers, w = .lost) ∧ f.queue.length = width ∧ f.waiting ≠ [] := by
  constructor
  · intro hstuck
    have hwaiting : f.waiting ≠ [] := fun hnone => not_stuck_of_none_waiting hnone hstuck
    have hfull : f.queue.length = width := by
      obtain ⟨m, more, hoffer⟩ := List.exists_cons_of_ne_nil hwaiting
      refine Nat.le_antisymm h.room (Nat.le_of_not_lt fun hroom => ?_)
      exact not_stuck (.offer hoffer (h.capacity ▸ hroom)) hstuck
    have hqueue : f.queue ≠ [] := List.ne_nil_of_length_pos (hfull ▸ hwidth)
    exact ⟨h.lost_of_stuck hstuck hwaiting hqueue, hfull, hwaiting⟩
  · rintro ⟨hlost, hfull, hwaiting⟩
    have hopen := h.not_closed_of_waiting hwaiting
    have hnone : ∀ {i : Nat} {w : Worker}, f.workers[i]? = some w → w = .lost :=
      fun hw => hlost _ (List.mem_of_getElem? hw)
    refine ⟨by rw [hasReturned, hopen, Bool.false_and], fun m => ?_⟩
    cases hstep : f.step? retries m with
    | none => rfl
    | some g =>
      cases step_of_step? hstep with
      | offer _ hroom =>
        rw [h.capacity, hfull] at hroom
        exact absurd hroom (Nat.lt_irrefl width)
      | close hnone _ => exact absurd hnone hwaiting
      | take hw _ => cases hnone hw
      | attempt _ hw => cases hnone hw
      | retire hw _ _ => cases hnone hw
      | gather hclosed _ => simp [hopen] at hclosed
      | gatherLost hclosed _ => simp [hopen] at hclosed

/-! ## 5. Crashes and counts -/

/-- No attempt has crashed if none is noted among the jobs of a worker. -/
theorem no_crash_iff (h : Books retries width metrics f crew past) :
    (∀ t ∈ past, t.outcome ≠ .crashed) ↔ ∀ x ∈ crew, x.2.any Job.hasCrashed = false := by
  constructor
  · intro hnone x hx
    refine List.any_eq_false.mpr fun j hj hcrash => ?_
    have hmem : ⟨false, [j.metric], .crashed⟩ ∈ j.trials :=
      List.mem_map_of_mem (List.contains_iff_mem.mp hcrash)
    have hpast : ⟨false, [j.metric], .crashed⟩ ∈ crew.flatMap fun x => x.2.flatMap Job.trials :=
      List.mem_flatMap.mpr ⟨x, hx, List.mem_flatMap.mpr ⟨j, hj, hmem⟩⟩
    exact hnone _ (h.tried.mem_iff.mp hpast) rfl
  · intro hwhole t ht hcrash
    obtain ⟨x, hx, ht⟩ := List.mem_flatMap.mp (h.tried.mem_iff.mpr ht)
    obtain ⟨j, hj, ht⟩ := List.mem_flatMap.mp ht
    obtain ⟨outcome, houtcome, rfl⟩ := List.mem_map.mp ht
    obtain rfl : outcome = .crashed := hcrash
    exact List.any_eq_false.mp (hwhole x hx) j hj (List.contains_iff_mem.mpr houtcome)

/-- A lost worker has at least had the metric at which it crashed. -/
theorem lost_ne_nil {js : List Job} (h : Kept retries f .lost js) : js ≠ [] := by
  cases h with
  | lost _ _ => exact List.cons_ne_nil _ _

/-- When every worker is lost, as many metrics have been taken as there are workers. -/
theorem width_le_taken (h : Books retries width metrics f crew past)
    (hlost : ∀ w ∈ f.workers, w = .lost) :
    width ≤ (crew.flatMap fun x => x.2.map Job.metric).length := by
  have hone : ∀ n ∈ crew.map (fun x => (x.2.map Job.metric).length), 1 ≤ n := by
    intro n hn
    obtain ⟨⟨w, js⟩, hx, rfl⟩ := List.mem_map.mp hn
    obtain rfl : w = .lost := hlost _ (h.workers ▸ List.mem_map_of_mem hx)
    rw [List.length_map]
    exact List.length_pos_of_ne_nil (lost_ne_nil (h.kept _ hx))
  have hsum := List.length_le_sum_of_one_le _ hone
  rwa [List.length_map, h.size, ← List.length_flatMap] at hsum

theorem not_stuck_of_short (h : Books retries width metrics f crew past) (hwidth : 1 ≤ width)
    (hshort : metrics.length ≤ 2 * width) : ¬ f.IsStuck retries := by
  intro hstuck
  obtain ⟨hlost, hfull, hwaiting⟩ := (h.isStuck_iff hwidth).mp hstuck
  have htaken := h.width_le_taken hlost
  have hlength := h.taken.length_eq
  have hmore := List.length_pos_of_ne_nil hwaiting
  simp only [pending, List.length_append] at hlength
  omega

theorem not_stuck_of_no_crash (h : Books retries width metrics f crew past) (hwidth : 1 ≤ width)
    (hnone : ∀ t ∈ past, t.outcome ≠ .crashed) : ¬ f.IsStuck retries := by
  intro hstuck
  obtain ⟨hlost, -, -⟩ := (h.isStuck_iff hwidth).mp hstuck
  obtain ⟨⟨w, js⟩, hx⟩ := List.exists_mem_of_length_pos (l := crew) (h.size ▸ hwidth)
  obtain rfl : w = .lost := hlost _ (h.workers ▸ List.mem_map_of_mem hx)
  have hwhole := h.no_crash_iff.mp hnone _ hx
  rw [(h.kept _ hx).lost_crashed] at hwhole
  cases hwhole

theorem survivors_cons (js : List Job) (logs : List (List Job)) :
    survivors (js :: logs) = (if js.any Job.hasCrashed then [] else js) ++ survivors logs := by
  simp only [survivors, List.filter_cons]
  cases js.any Job.hasCrashed <;> rfl

/-- At the end, the jobs of the workers that were not lost have been gathered. -/
theorem flatMap_credit (hgone : ∀ x ∈ crew, x.1 = .gathered) :
    crew.flatMap credit = survivors (crew.map Prod.snd) := by
  induction crew with
  | nil => rfl
  | cons x crew ih =>
    obtain ⟨hx, hcrew⟩ := List.forall_mem_cons.mp hgone
    obtain ⟨w, js⟩ := x
    obtain rfl : w = .gathered := hx
    rw [List.flatMap_cons, List.map_cons, survivors_cons, ih hcrew]
    rfl

theorem length_survivors_le (logs : List (List Job)) :
    (survivors logs).length ≤ logs.flatten.length :=
  List.filter_sublist.flatten.length_le

theorem length_survivors_lt {logs : List (List Job)} {js : List Job} (hjs : js ∈ logs)
    (hcrash : js.any Job.hasCrashed = true) : (survivors logs).length < logs.flatten.length := by
  induction logs with
  | nil => cases hjs
  | cons first rest ih =>
    rw [survivors_cons, List.flatten_cons, List.length_append, List.length_append]
    rcases List.mem_cons.mp hjs with rfl | hrest
    · have hpos : 0 < js.length := by
        obtain ⟨j, hj, -⟩ := List.any_eq_true.mp hcrash
        exact List.length_pos_of_mem hj
      have hle := length_survivors_le rest
      rw [hcrash, if_pos rfl, List.length_nil]
      omega
    · have hfirst : (if first.any Job.hasCrashed then [] else first).length ≤ first.length := by
        split
        · exact Nat.zero_le _
        · exact Nat.le_refl _
      have hless := ih hrest
      omega

theorem survivors_of_no_crash {logs : List (List Job)}
    (h : ∀ js ∈ logs, js.any Job.hasCrashed = false) : survivors logs = logs.flatten := by
  rw [survivors, List.filter_eq_self.mpr fun js hjs => by rw [h js hjs]; rfl]

theorem gathered_of_returned (h : Books retries width metrics f crew past)
    (hend : f.hasReturned = true) : ∀ x ∈ crew, x.1 = .gathered := by
  rw [hasReturned, Bool.and_eq_true] at hend
  intro x hx
  have hgone := List.all_eq_true.mp hend.2 x.1 (h.workers ▸ List.mem_map_of_mem hx)
  cases hw : x.1 with
  | gathered => rfl
  | _ => rw [hw] at hgone; cases hgone

theorem report_of_returned (h : Books retries width metrics f crew past)
    (hend : f.hasReturned = true) :
    f.gathered = .ofJobs (survivors (crew.map Prod.snd)) := by
  rw [h.gathered, flatMap_credit (h.gathered_of_returned hend)]

/-- If no attempt has crashed, no metric is left when the fan-out has returned. -/
theorem pending_of_returned (h : Books retries width metrics f crew past) (hwidth : 1 ≤ width)
    (hnone : ∀ t ∈ past, t.outcome ≠ .crashed) (hend : f.hasReturned = true) : f.pending = [] := by
  obtain ⟨⟨w, js⟩, hx⟩ := List.exists_mem_of_length_pos (l := crew) (h.size ▸ hwidth)
  obtain rfl : w = .gathered := h.gathered_of_returned hend _ hx
  have hwhole := h.no_crash_iff.mp hnone _ hx
  cases h.kept _ hx with
  | gathered hdrained _ => rw [pending, hdrained.2, h.closed hdrained.1]; rfl
  | gatheredLost _ hbroken _ =>
    rw [List.any_cons, hbroken.crashes] at hwhole
    cases hwhole

/-- If no attempt has crashed, every job is done when the fan-out has returned. -/
theorem done_of_returned (h : Books retries width metrics f crew past)
    (hnone : ∀ t ∈ past, t.outcome ≠ .crashed) (hend : f.hasReturned = true) :
    ∀ j ∈ (crew.map Prod.snd).flatten, j.IsDone retries := by
  intro j hj
  obtain ⟨js, hjs, hj⟩ := List.mem_flatten.mp hj
  obtain ⟨⟨w, js⟩, hx, rfl⟩ := List.mem_map.mp hjs
  obtain rfl : w = .gathered := h.gathered_of_returned hend _ hx
  have hwhole := h.no_crash_iff.mp hnone _ hx
  cases h.kept _ hx with
  | gathered _ hdone => exact hdone j hj
  | gatheredLost _ hbroken _ =>
    rw [List.any_cons, hbroken.crashes] at hwhole
    cases hwhole

theorem trials_perm (h : Books retries width metrics f crew past) :
    ((crew.map Prod.snd).flatten.flatMap Job.trials).Perm past := by
  have hflat : (crew.map Prod.snd).flatten.flatMap Job.trials =
      crew.flatMap fun x => x.2.flatMap Job.trials := by
    rw [← List.flatMap_def, List.flatMap_assoc]
  exact hflat ▸ h.tried

theorem flatten_logs_perm (h : Books retries width metrics f crew past) :
    ((crew.map Prod.snd).flatten.map Job.metric ++ f.pending).Perm metrics := by
  have hmap : (crew.map Prod.snd).flatten.map Job.metric =
      crew.flatMap fun x => x.2.map Job.metric := by
    rw [← List.flatMap_def, List.map_flatMap]
  exact hmap ▸ h.taken

/-- The attempts of a course of events crash where its moves say so. -/
theorem no_crash_moves_iff {moves : List FanOutMove} (hrun : f.run? retries moves = some g) :
    (∀ t ∈ f.trials retries moves, t.outcome ≠ .crashed) ↔
      ∀ i, .attempt i .crashed ∉ moves := by
  induction moves generalizing f with
  | nil => simp [trials]
  | cons m moves ih =>
    obtain ⟨f₁, hstep, hrest⟩ := Option.bind_eq_some_iff.mp hrun
    have hone : (∀ t ∈ (f.trial? m).toList, t.outcome ≠ .crashed) ↔
        ∀ i, .attempt i .crashed ≠ m := by
      cases step_of_step? hstep with
      | @attempt i r u tried outcome hworker => simp [trial?, hworker, Worker.metric?, eq_comm]
      | _ => simp [trial?]
    simp only [trials, hstep, Option.getD_some, List.forall_mem_append, hone, ih hrest,
      List.mem_cons, not_or, forall_and, ne_eq]

/-- The books of a course of events from the start. -/
theorem books_of_run {moves : List FanOutMove}
    (hrun : (FanOut.start metrics width).run? retries moves = some f) :
    ∃ crew, Books retries width metrics f crew ((FanOut.start metrics width).trials retries moves) ∧
      crew.map Prod.snd = (FanOut.start metrics width).jobs retries moves := by
  obtain ⟨crew, hbooks, hlogs⟩ := (Books.start retries width metrics).run hrun
  refine ⟨crew, hbooks, hlogs.trans ?_⟩
  simp [jobs, FanOut.start]

/-- What is counted in the end is everything, unless an attempt has crashed. -/
theorem counted_of_returned (h : Books retries width metrics f crew past) (hwidth : 1 ≤ width)
    (hend : f.hasReturned = true) :
    f.gathered.sent + f.gathered.failed ≤ metrics.length ∧
      (f.gathered.sent + f.gathered.failed = metrics.length ↔
        ∀ t ∈ past, t.outcome ≠ .crashed) := by
  have hcount : f.gathered.sent + f.gathered.failed = (survivors (crew.map Prod.snd)).length := by
    rw [h.report_of_returned hend, DispatchReport.counted_ofJobs]
  have htaken := h.flatten_logs_perm.length_eq
  rw [List.length_append, List.length_map] at htaken
  have hle := length_survivors_le (crew.map Prod.snd)
  refine ⟨by omega, fun heq => ?_, fun hnone => ?_⟩
  · refine h.no_crash_iff.mpr fun x hx => ?_
    cases hcrash : x.2.any Job.hasCrashed with
    | false => rfl
    | true =>
      have hless := length_survivors_lt (List.mem_map_of_mem hx) hcrash
      omega
  · have hwhole : survivors (crew.map Prod.snd) = (crew.map Prod.snd).flatten :=
      survivors_of_no_crash (List.forall_mem_map.mpr (h.no_crash_iff.mp hnone))
    rw [h.pending_of_returned hwidth hnone hend, List.length_nil] at htaken
    rw [hcount, hwhole]
    omega

end Books

/-- Until a fan-out has returned something can happen, unless every worker is lost while the queue
is full and more metrics wait; no course of events goes on for ever, a metric is with one worker
or still pending, and what is reported in the end are the jobs of the workers that were not lost:
all metrics if no attempt has crashed, and fewer if one has. -/
theorem progress_unless_all_lost {retries width : Nat} {metrics : List Update}
    {moves : List FanOutMove} {f : FanOut} (hwidth : 1 ≤ width)
    (hrun : (FanOut.start metrics width).run? retries moves = some f) :
    (f.IsStuck retries ↔
      (∀ w ∈ f.workers, w = .lost) ∧ f.queue.length = width ∧ f.waiting ≠ []) ∧
    (metrics.length ≤ 2 * width → ¬ f.IsStuck retries) ∧
    ((∀ i, .attempt i .crashed ∉ moves) → ¬ f.IsStuck retries) ∧
    moves.length ≤ (FanOut.start metrics width).movesLeft retries ∧
    (((FanOut.start metrics width).jobs retries moves).flatten.map Job.metric ++ f.pending).Perm
      metrics ∧
    (f.hasReturned = true →
      f.gathered = .ofJobs (survivors ((FanOut.start metrics width).jobs retries moves)) ∧
      f.gathered.sent + f.gathered.failed ≤ metrics.length ∧
      (f.gathered.sent + f.gathered.failed = metrics.length ↔
        ∀ i, .attempt i .crashed ∉ moves)) := by
  obtain ⟨crew, hbooks, hlogs⟩ := Books.books_of_run hrun
  have hcrashes := Books.no_crash_moves_iff hrun
  rw [← hlogs]
  refine ⟨hbooks.isStuck_iff hwidth, hbooks.not_stuck_of_short hwidth, ?_, ?_,
    hbooks.flatten_logs_perm, ?_⟩
  · intro hnone
    exact hbooks.not_stuck_of_no_crash hwidth (hcrashes.mpr hnone)
  · have hlength := movesLeft_run hrun
    omega
  · intro hend
    obtain ⟨hle, hall⟩ := hbooks.counted_of_returned hwidth hend
    exact ⟨hbooks.report_of_returned hend, hle, hall.trans hcrashes⟩

/-- One of two workers is lost, and the other one sends what is left. -/
theorem progress_unless_all_lost_one_left :
    let u : Update := ⟨"c", .counter 1⟩
    let moves : List FanOutMove := [.offer, .offer, .take 0, .take 1, .attempt 0 .crashed, .offer,
      .close, .attempt 1 .accepted, .take 1, .attempt 1 .refused, .retire 1, .gather 0, .gather 1]
    ∃ f, 1 ≤ 2 ∧ (FanOut.start [u, u, u] 2).run? 0 moves = some f ∧ f.hasReturned = true ∧
      f.gathered = ⟨1, 1, 0⟩ ∧ ¬ f.IsStuck 0 := by
  intro u moves
  have hrun : (FanOut.start [u, u, u] 2).run? 0 moves =
      some ⟨[], [], 2, true, [.gathered, .gathered], ⟨1, 1, 0⟩⟩ := by decide
  exact ⟨_, by decide, hrun, rfl, rfl,
    (progress_unless_all_lost (by decide) hrun).2.1 (by decide)⟩

/-- With its only worker lost a fan-out hangs, although nothing holds its queue but itself; and one
that returns has not counted the metric at which its worker was lost. -/
theorem lost_workers_not_survived :
    let u : Update := ⟨"c", .counter 1⟩
    (∃ f, (FanOut.start [u, u, u] 1).run? 0 [.offer, .take 0, .offer, .attempt 0 .crashed] = some f ∧
      f.IsStuck 0) ∧
    (∃ f, (FanOut.start [u] 2).run? 0 [.offer, .close, .take 0, .attempt 0 .crashed, .retire 1,
        .gather 0, .gather 1] = some f ∧
      f.hasReturned = true ∧ f.gathered.sent + f.gathered.failed ≠ 1) := by
  intro u
  constructor
  · have hrun : (FanOut.start [u, u, u] 1).run? 0 [.offer, .take 0, .offer, .attempt 0 .crashed] =
        some ⟨[u], [u], 1, false, [.lost], .none⟩ := by decide
    obtain ⟨crew, hbooks, -⟩ := Books.books_of_run hrun
    refine ⟨_, hrun, (hbooks.isStuck_iff (by decide)).mpr ⟨?_, rfl, List.cons_ne_nil _ _⟩⟩
    intro w hw
    exact List.mem_singleton.mp hw
  · exact ⟨⟨[], [], 2, true, [.gathered, .gathered], .none⟩, by decide, rfl, by decide⟩

end FanOut
end Metering
