import Metering.Proofs.CallerCheck
import Metering.Proofs.PoolRuns
import Metering.Proofs.SoundUpdates
import Metering.Server.Serving

/-!
Nothing gets into the ledger that a file could not hold.

`WritesOnly` says of a dialogue that every update it can ask for has a property, whatever answers
it gets. It is kept by every step, so it holds in every interleaving, and what the ledger accepts
has the property because some task asked for it.

Results:
1. `Service.writesOnly_update`, `Service.writesOnly_updateAll`: the dialogues of a service ask for
   the updates that they are given.
2. `Ingest.writesOnly_handle`, `Ingest.writesOnly_call`: a request and a call ask for sound updates
   only.
3. `ServerPool.sound_step`, `Serving.sound_run`: a server that starts with a sound ledger always
   has one.
-/
namespace Metering

/-! ## 1. Dialogues -/

namespace ServerStep

/-- The updates that a step asks for. -/
def writes : {β : Type} → ServerStep β → List Update
  | _, .store call => call.writes
  | _, _ => []

theorem writes_of_not_changes {s : ServerStep β} (h : s.changes = false) : s.writes = [] := by
  cases s with
  | store c => cases c <;> first | rfl | cases h
  | beginSave => rfl
  | replaceFile file metrics => rfl
  | endSave => rfl
  | publish metrics source => rfl

end ServerStep

namespace ServerTask

variable {P : Update → Prop}

/-- Every update that the task can ask for has the property, whatever answers it gets. -/
def WritesOnly (P : Update → Prop) : ServerTask α → Prop
  | .done _ => True
  | .step s next => (∀ u ∈ s.writes, P u) ∧ ∀ r, WritesOnly P (next r)

/-- A step that asks for no update. -/
theorem writesOnly_quiet {s : ServerStep β} {next : β → ServerTask α} (hs : s.writes = [])
    (h : ∀ r, (next r).WritesOnly P) : (step s next).WritesOnly P := by
  refine ⟨fun u hu => ?_, h⟩
  rw [hs] at hu
  cases hu

theorem writesOnly_andThen {t : ServerTask α} {next : α → ServerTask β} (ht : t.WritesOnly P)
    (hnext : ∀ a, (next a).WritesOnly P) : (t.andThen next).WritesOnly P := by
  induction t with
  | done a => exact hnext a
  | step s k ih => exact ⟨ht.1, fun r => ih r (ht.2 r)⟩

theorem writesOnly_map {t : ServerTask α} {f : α → β} (ht : t.WritesOnly P) :
    (t.map f).WritesOnly P := writesOnly_andThen ht fun _ => trivial

/-- A task that touches nothing asks for nothing. -/
theorem writesOnly_of_not_touches {t : ServerTask α} (h : ¬ t.Touches) : t.WritesOnly P := by
  induction t with
  | done a => trivial
  | step s k ih =>
    refine writesOnly_quiet ?_ fun r => ih r fun hr => h (.inr ⟨r, hr⟩)
    exact ServerStep.writes_of_not_changes (Bool.eq_false_iff.mpr fun hc => h (.inl hc))

theorem writesOnly_saveTask (file : SnapshotFile) : file.saveTask.WritesOnly P := by
  refine writesOnly_quiet rfl fun _ => writesOnly_andThen ?_ fun listed => ?_
  · refine writesOnly_quiet rfl fun gauges => ?_
    cases gauges with
    | error e => trivial
    | ok gauges =>
      refine writesOnly_quiet rfl fun counters => ?_
      cases counters <;> trivial
  · cases listed with
    | error e => exact writesOnly_quiet rfl fun _ => trivial
    | ok ms => exact writesOnly_quiet rfl fun _ => writesOnly_quiet rfl fun _ => trivial

end ServerTask

namespace Service

open ServerTask

variable {P : Update → Prop}

theorem writesOnly_afterWrite (v : Service) (ids : List String) (source : Option String) :
    (v.afterWrite ids source).WritesOnly P := by
  have haudit : (if v.audits then ServerTask.single (.publish ids (source.getD "")) else
      .done ()).WritesOnly P := by
    split
    next => exact writesOnly_quiet rfl fun _ => trivial
    next => trivial
  unfold afterWrite
  dsimp only
  split
  next => exact writesOnly_andThen (writesOnly_saveTask _) fun _ => haudit
  next => exact haudit

theorem writesOnly_write (v : Service) {task : StoreTask Unit} (htask : (ofStore task).WritesOnly P)
    (ids : List String) (source : Option String) : (v.write task ids source).WritesOnly P := by
  refine writesOnly_andThen htask fun answer => ?_
  cases answer with
  | error e => trivial
  | ok => exact writesOnly_map (writesOnly_afterWrite v ids source)

theorem writesOnly_update (v : Service) {u : Update} (hu : P u) (source : Option String) :
    (v.update u source).WritesOnly P := by
  refine writesOnly_write v ?_ _ source
  obtain ⟨id, value⟩ := u
  cases value with
  | gauge x => exact ⟨fun w hw => List.mem_singleton.mp hw ▸ hu, fun _ => trivial⟩
  | counter d => exact ⟨fun w hw => List.mem_singleton.mp hw ▸ hu, fun _ => trivial⟩

theorem writesOnly_updateAll (v : Service) {us : List Update} (hus : ∀ u ∈ us, P u)
    (source : Option String) : (v.updateAll us source).WritesOnly P := by
  have hbatch : (ofStore (.single (.batch us))).WritesOnly P := ⟨hus, fun _ => trivial⟩
  exact writesOnly_write v hbatch _ source

end Service

/-! ## 2. Requests and calls -/

namespace Ingest

open ServerTask

theorem decode_of_readBody {i : Ingest} {r : HttpRequest} {decode : Bytes → Except JsonFault α}
    {a : α} (h : i.readBody r decode = .ok a) : decode r.body = .ok a := by
  unfold readBody at h
  obtain ⟨-, -, h⟩ := Chaining.ok_of_bind h
  split at h
  next a' ha =>
    obtain rfl := Except.ok.inj h
    exact ha
  next => cases h

/-- A body leads to what is made of it, or to a refusal. -/
theorem writesOnly_withBody {P : Update → Prop} (i : Ingest) (r : HttpRequest)
    {decode : Bytes → Except JsonFault α} {next : α → ServerTask HttpResponse}
    (hnext : ∀ a, decode r.body = .ok a → (next a).WritesOnly P) :
    (i.withBody r decode next).WritesOnly P := by
  unfold withBody
  split
  next => trivial
  next =>
    split
    next a ha => exact hnext a (decode_of_readBody ha)
    next => trivial

/-- The three writing endpoints, each with its own way to an update. -/
theorem writesOnly_writing (i : Ingest) (r : HttpRequest) {resource : Resource}
    (h : resource.isWrite = true) : (i.endpoint r resource).WritesOnly Update.Sound := by
  cases resource with
  | updateAt kind id value =>
    simp only [endpoint, updateAt]
    split
    next => trivial
    next =>
      split
      next => trivial
      next u hu =>
        exact writesOnly_map (Service.writesOnly_update _ (sound_of_updateOfParts hu) _)
  | update =>
    refine writesOnly_withBody i r fun m hm => ?_
    split
    next => trivial
    next u hu =>
      have hsound := Metric.sound_of_toUpdate (Metric.finite_of_decode hm) hu
      exact writesOnly_map (Service.writesOnly_update _ hsound _)
  | updates =>
    refine writesOnly_withBody i r fun ms hms => ?_
    split
    next => trivial
    next =>
      split
      next => trivial
      next us hus =>
        have hsound := Metric.sound_of_mapM_toUpdate (Metric.finite_of_decodeList hms) hus
        exact writesOnly_map (Service.writesOnly_updateAll _ hsound _)
  | valueAt kind id => cases h
  | value => cases h
  | ping => cases h

theorem writesOnly_endpoint (i : Ingest) (r : HttpRequest) (resource : Resource) :
    (i.endpoint r resource).WritesOnly Update.Sound := by
  cases h : resource.isWrite with
  | true => exact writesOnly_writing i r h
  | false => exact writesOnly_of_not_touches (not_touches_reading h)

/-- A request asks for sound updates only. -/
theorem writesOnly_handle (i : Ingest) (r : HttpRequest) :
    (i.handle r).WritesOnly Update.Sound := by
  unfold handle
  refine writesOnly_map ?_
  split
  next => trivial
  next inner _ =>
    refine writesOnly_map ?_
    unfold dispatch
    split
    next => trivial
    next resource _ =>
      split
      next => exact writesOnly_endpoint i inner resource
      next => trivial

/-- So does a call that came out of a text. -/
theorem writesOnly_call (i : Ingest) {c : RpcCall} (hc : c.args.Writable) :
    (i.call c).WritesOnly Update.Sound := by
  have hupdate : (i.updateCall c).WritesOnly Update.Sound := by
    unfold updateCall
    split
    next => trivial
    next es hes =>
      have hfinite := finite_of_entries hc hes
      have hcounted : ∀ m ∈ counted es, m.Finite := by
        intro m hm
        obtain ⟨o, ho, hom⟩ := List.mem_filterMap.mp (List.mem_of_mem_filter hm)
        exact hfinite o ho m hom
      split
      next => trivial
      next => trivial
      next us _ hus =>
        have hsound := Metric.sound_of_mapM_toUpdate hcounted hus
        exact writesOnly_map (Service.writesOnly_updateAll _ hsound _)
  unfold call
  dsimp only
  split
  next => trivial
  next =>
    split
    next => exact hupdate
    next => trivial

end Ingest

/-! ## 3. Servers at work -/

/-- A ledger that a file can hold: no id is empty, and every gauge is finite. -/
structure Ledger.Sound (l : Ledger) : Prop where
  gauges : ∀ e ∈ l.gauges.entries, e.1 ≠ "" ∧ e.2.isFinite = true
  counters : ∀ e ∈ l.counters.entries, e.1 ≠ ""

namespace Ledger

theorem sound_empty : Ledger.empty.Sound :=
  ⟨fun _ he => absurd he List.not_mem_nil, fun _ he => absurd he List.not_mem_nil⟩

theorem sound_apply {l l' : Ledger} {u : Update} (hl : l.Sound) (hu : u.Sound)
    (h : l.apply u = .ok l') : l'.Sound := by
  obtain ⟨id, value⟩ := u
  cases value with
  | gauge x =>
    obtain rfl := Except.ok.inj h
    refine ⟨fun e he => ?_, hl.counters⟩
    rcases Table.mem_putEntry he with rfl | he
    · exact ⟨hu.id_ne, hu.encodable⟩
    · exact hl.gauges e he
  | counter d =>
    obtain ⟨sum, -, hpure⟩ := Chaining.ok_of_bind (x := total l.counters id d) h
    obtain rfl := Except.ok.inj hpure
    refine ⟨hl.gauges, fun e he => ?_⟩
    rcases Table.mem_putEntry he with rfl | he
    · exact hu.id_ne
    · exact hl.counters e he

theorem sound_foldlM {l l' : Ledger} {us : List Update} (hl : l.Sound) (hus : ∀ u ∈ us, u.Sound)
    (h : us.foldlM apply l = .ok l') : l'.Sound := by
  induction us generalizing l with
  | nil =>
    obtain rfl := Except.ok.inj h
    exact hl
  | cons u us ih =>
    obtain ⟨hu, hus⟩ := List.forall_mem_cons.mp hus
    rw [List.foldlM_cons] at h
    obtain ⟨m, hm, h⟩ := Chaining.ok_of_bind h
    exact ih (sound_apply hl hu hm) hus h

end Ledger

namespace ServerPool

variable {P : Update → Prop} {pool : ServerPool α Ledger}

/-- Every task under way asks for updates with the property only. -/
def WritesOnly (P : Update → Prop) (pool : ServerPool α Ledger) : Prop :=
  ∀ task, .running task ∈ pool.tasks → task.WritesOnly P

theorem writesOnly_set {tasks : List (PoolTask α)}
    (h : ∀ task, .running task ∈ tasks → task.WritesOnly P) (k : Nat) {t : PoolTask α}
    (ht : ∀ task, t = .running task → task.WritesOnly P) :
    ∀ task, .running task ∈ tasks.set k t → task.WritesOnly P := by
  intro task htask
  rcases List.mem_or_eq_of_mem_set htask with hmem | heq
  · exact h task hmem
  · exact ht task heq.symm

/-- A task goes on as it may go on. -/
theorem writesOnly_next (h : pool.WritesOnly P) {k : Nat} {st : ServerStep β}
    {next : β → ServerTask α} (hk : pool.tasks[k]? = some (.running (.step st next))) (r : β) :
    ∀ task, PoolTask.running (next r) = .running task → task.WritesOnly P := by
  rintro task ⟨⟩
  exact (h _ (List.mem_of_getElem? hk)).2 r

theorem writesOnly_turn (h : pool.WritesOnly P) {k : Nat} {after : ServerPool α Ledger}
    (hturn : Turn pool k after) : after.WritesOnly P := by
  cases hturn with
  | idle => exact h
  | call hk => exact writesOnly_set h k (writesOnly_next h hk _)
  | enter hk => exact writesOnly_set h k (writesOnly_next h hk _)
  | hand => exact h
  | leave hk => exact writesOnly_set h k (writesOnly_next h hk _)
  | publish hk => exact writesOnly_set h k (writesOnly_next h hk _)

theorem writesOnly_resume (h : pool.WritesOnly P) (k : Nat) (outcome : Except StoreFault Unit) :
    (pool.resume k outcome).WritesOnly P := by
  unfold resume
  split
  next hk => exact writesOnly_set h _ (writesOnly_next h hk _)
  next => exact h

/-- No move makes a task ask for anything else, unless it starts one that does. -/
theorem writesOnly_step (h : pool.WritesOnly P) (m : PoolMove α)
    (hstart : ∀ task, m = .start task → task.WritesOnly P) :
    (pool.step Ledger.store m).WritesOnly P := by
  have hmoved := moved pool m
  generalize pool.step Ledger.store m = after at hmoved
  cases hmoved with
  | nothing => exact h
  | start task =>
    intro t ht
    rcases List.mem_append.mp ht with ht | ht
    · exact h t ht
    · obtain ⟨⟩ := List.mem_singleton.mp ht
      exact hstart task rfl
  | turn hturn => exact writesOnly_turn h hturn
  | ending =>
    refine writesOnly_resume ?_ _ _
    exact h
  | cancel => exact writesOnly_set h _ fun task htask => nomatch htask

/-- A call that is about to be made is asked for by a task. -/
theorem of_mem_writes (h : pool.WritesOnly P) {k : Nat} {e : StoreEvent}
    (he : pool.event? k = some e) : ∀ {u}, u ∈ e.call.writes → P u := by
  unfold event? at he
  split at he
  next c next hk =>
    obtain rfl := Option.some.inj he
    exact fun hu => (h _ (List.mem_of_getElem? hk)).1 _ hu
  next => cases he

/-- What the ledger accepts is what a task asked for. -/
theorem of_mem_accepts (h : pool.WritesOnly P) (m : PoolMove α) : ∀ u ∈ pool.accepts m, P u := by
  intro u hu
  cases m with
  | turn k =>
    have hu : u ∈ ((pool.event? k).bind StoreEvent.accepted?).elim [] StoreCall.writes := hu
    cases he : pool.event? k with
    | none =>
      rw [he] at hu
      cases hu
    | some e =>
      rw [he, Option.bind_some] at hu
      cases ha : e.accepted? with
      | none =>
        rw [ha] at hu
        cases hu
      | some d =>
        rw [ha] at hu
        exact of_mem_writes h he (StoreEvent.writes_of_accepted? ha ▸ hu)
  | _ => cases hu

theorem sound_step (hpool : pool.WritesOnly Update.Sound) (hstore : pool.state.store.Sound)
    (m : PoolMove α) : (pool.step Ledger.store m).state.store.Sound :=
  Ledger.sound_foldlM hstore (of_mem_accepts hpool m) (foldlM_accepts pool m)

end ServerPool

namespace Serving

/-- The ledger of a server can be held by a file, and so can everything that its tasks ask for. -/
structure Sound (v : Serving Ledger) : Prop where
  store : v.pool.state.store.Sound
  tasks : v.pool.WritesOnly Update.Sound

theorem sound_begin (server : Server) {s : ServerState Ledger} (hs : s.store.Sound) :
    (begin server s).Sound :=
  ⟨hs, fun _ htask => absurd htask List.not_mem_nil⟩

theorem Sound.move {v : Serving Ledger} (hv : v.Sound) {m : PoolMove ServingAnswer}
    (hstart : ∀ task, m = .start task → task.WritesOnly Update.Sound) :
    (v.pool.step Ledger.store m).state.store.Sound ∧
      (v.pool.step Ledger.store m).WritesOnly Update.Sound :=
  ⟨ServerPool.sound_step hv.tasks hv.store m, ServerPool.writesOnly_step hv.tasks m hstart⟩

theorem Sound.take {v : Serving Ledger} (hv : v.Sound) (role : ServingRole)
    {task : ServerTask ServingAnswer} (htask : task.WritesOnly Update.Sound) :
    (v.take Ledger.store role task).Sound := by
  unfold Serving.take
  split
  next =>
    obtain ⟨hstore, htasks⟩ := hv.move (m := .start task) fun t ht => by
      obtain ⟨⟩ := ht
      exact htask
    exact ⟨hstore, htasks⟩
  next => exact hv

theorem writesOnly_finalSave (server : Server) {P : Update → Prop} :
    server.finalSave.WritesOnly P := by
  unfold Server.finalSave
  split
  next => exact ServerTask.writesOnly_map (ServerTask.writesOnly_saveTask _)
  next => trivial

theorem Sound.next {v : Serving Ledger} (hv : v.Sound) : (v.next Ledger.store).Sound := by
  unfold Serving.next
  split
  next => exact ⟨hv.store, hv.tasks⟩
  next => split <;> exact ⟨hv.store, hv.tasks⟩
  next => split <;> exact ⟨hv.store, hv.tasks⟩
  next =>
    split
    next =>
      obtain ⟨hstore, htasks⟩ := hv.move (m := .start (v.server.finalSave.map .saved))
        fun t ht => by
          obtain ⟨⟩ := ht
          exact ServerTask.writesOnly_map (writesOnly_finalSave v.server)
      exact ⟨hstore, htasks⟩
    next => exact hv
  next => split <;> exact ⟨hv.store, hv.tasks⟩
  next => exact hv

/-- Nothing that happens to a server lets anything else in, if its calls come out of texts. -/
theorem Sound.step {v : Serving Ledger} (hv : v.Sound) (m : ServingMove)
    (hcall : ∀ c, m = .call c → ∃ message, RpcCall.decode message = .ok c) :
    (v.step Ledger.store m).Sound := by
  -- A move that starts nothing is a move of the pool.
  have hmove {p : PoolMove ServingAnswer} (hp : ∀ task, p ≠ .start task) :
      Sound { v with pool := v.pool.step Ledger.store p } := by
    obtain ⟨hstore, htasks⟩ := hv.move (m := p) fun t ht => absurd ht (hp t)
    exact ⟨hstore, htasks⟩
  cases m with
  | request r =>
    exact hv.take .request (ServerTask.writesOnly_map (Ingest.writesOnly_handle _ r))
  | call c =>
    obtain ⟨message, hmessage⟩ := hcall c rfl
    have hargs := RpcCall.writable_of_decode hmessage
    exact hv.take .call (ServerTask.writesOnly_map (Ingest.writesOnly_call _ hargs))
  | tick =>
    refine hv.take .clock ?_
    unfold clockSave
    split
    next => trivial
    next => exact ServerTask.writesOnly_map (writesOnly_finalSave v.server)
  | turn k => exact hmove (p := .turn k) fun task => nofun
  | land i => exact hmove (p := .land i) fun task => nofun
  | fail i fault => exact hmove (p := .fail i fault) fun task => nofun
  | leave k =>
    show Sound (if v.canBeLeft k then _ else v)
    split
    next => exact hmove (p := .cancel k) fun task => nofun
    next => exact hv
  | next => exact hv.next

theorem sound_run {v : Serving Ledger} (hv : v.Sound) (moves : List ServingMove)
    (hcalls : ∀ c, .call c ∈ moves → ∃ message, RpcCall.decode message = .ok c) :
    (v.run Ledger.store moves).Sound := by
  induction moves generalizing v with
  | nil => exact hv
  | cons m moves ih =>
    refine ih (hv.step m fun c hc => hcalls c (hc ▸ List.mem_cons_self)) fun c hc => ?_
    exact hcalls c (List.mem_cons_of_mem m hc)

end Serving
end Metering
