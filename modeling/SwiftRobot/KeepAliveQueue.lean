import SwiftRobot.DispatchQueue
import SwiftRobot.KeepAliveDetects

/-!
# The keep-alive on its queue

The closures of the keep-alive wait in the dispatch queue among the functions of the
subscribers, and a worker that takes one runs it some time later. Whatever the workers
do, the dispatcher makes a run in which each closure is run once and behind its time.
-/

namespace SwiftRobot.KeepAliveQueue
open ByteWords ClientDispatcher DispatcherRuns KeepAliveDrops KeepAliveCycle KeepAliveDetects

inductive Job
  -- the closure that was scheduled at this position
  | closure (i : ℕ)
  -- a function that a subscriber was queued with
  | callback (k : ℕ)
  deriving DecidableEq

/-- `hand` are the closures that workers have taken and not yet run. -/
structure State (σ : Type) where
  base : DispatcherRuns.State σ
  queue : DispatchQueue Job
  hand : List ℕ
  clock : ℕ

inductive Move
  -- another thread calls the dispatcher
  | own (e : Event)
  | dispatch (k : ℕ)
  -- a worker takes a function, with the heap's top at position `top`
  | take (top : ℕ)
  -- the worker that took the closure runs it
  | run (i : ℕ)
  | quit

def Move.event? : Move → Option Event
  | .own e => some e
  | .run i => some (.closure i)
  | _ => none

def events (es : List (Env × Move)) : List (Env × Event) :=
  es.filterMap fun e => e.2.event?.map fun event => (e.1, event)

def takeTop (now top : ℕ) (q : DispatchQueue Job) : Option (Job × DispatchQueue Job) :=
  if q.quit_ then none
  else if q.pq_.any (·.1 < now) then
    (q.pq_[top]?.filter q.isLeast).map fun item =>
      (item.2, { q with pq_ := q.pq_.eraseIdx top })
  else match q.q_ with
    | [] => none
    | function :: rest => some (function, { q with q_ := rest })

def submit (k : ℕ) (entries : List (ℕ × Task)) (q : DispatchQueue Job) : DispatchQueue Job :=
  (entries.zipIdx k).foldl (fun q e => q.dispatch_after e.1.1 (.closure e.2)) q

section
variable {σ : Type} (lib : Plist.Library) (app : Application σ)

def State.initial (name : Bytes) (port : UInt16) (connection_type : ConnectionType) (s : σ) :
    State σ := ⟨.initial name port connection_type s, .initial, [], 0⟩

def State.becomes (base : DispatcherRuns.State σ) (s : State σ) : State σ :=
  { s with
    base := base
    queue := submit s.base.dispatcher.scheduled.length
      (base.dispatcher.scheduled.drop s.base.dispatcher.scheduled.length) s.queue }

def State.takes (s : State σ) : Job × DispatchQueue Job → State σ
  | (.closure i, q) => { s with queue := q, hand := s.hand ++ [i] }
  | (.callback _, q) => { s with queue := q }

def State.run (env : Env) (i : ℕ) (s : State σ) : Option (State σ) :=
  if i ∈ s.hand then
    s.base.dispatcher.scheduled[i]?.bind fun entry =>
      ((s.base.dispatcher.runTask env app entry.2 s.base.app []).value).map fun r =>
        { s.becomes ⟨r.1, r.2, s.base.ran ++ [i], env.now⟩ with hand := s.hand.erase i }
  else none

def Move.apply (env : Env) (s : State σ) : Move → Option (State σ)
  | .own (.closure _) => none
  | .own e => (s.base.advance lib app (env, e)).map s.becomes
  | .dispatch k => some { s with queue := s.queue.dispatch (.callback k) }
  | .take top => (takeTop env.now top s.queue).map s.takes
  | .run i => s.run app env i
  | .quit => some { s with queue := s.queue.quit }

def State.advance (s : State σ) (e : Env × Move) : Option (State σ) :=
  if s.clock ≤ e.1.now then
    (e.2.apply lib app e.1 s).map fun s' => { s' with clock := e.1.now }
  else none

def Step (s : State σ) (e : Env × Move) (t : State σ) : Prop := s.advance lib app e = some t

end

theorem takes_of_takeTop {now top : ℕ} {q : DispatchQueue Job} {r : Job × DispatchQueue Job}
    (h : takeTop now top q = some r) : q.Takes now r.1 r.2 := by
  unfold takeTop at h
  split_ifs at h with hquit hdue
  · obtain ⟨item, hitem, rfl⟩ := Option.map_eq_some_iff.mp h
    obtain ⟨htop, hleast⟩ := Option.filter_eq_some_iff.mp hitem
    obtain ⟨hlt, rfl⟩ := List.getElem?_eq_some_iff.mp htop
    have hall : ∀ other ∈ q.pq_, (q.pq_[top]).1 ≤ other.1 := by
      simpa [DispatchQueue.isLeast] using hleast
    obtain ⟨other, hother, hlate⟩ := List.any_eq_true.mp hdue
    rw [List.eraseIdx_eq_take_drop_succ]
    refine .delayed (by simpa using hquit) ?_ hall
      (Nat.lt_of_le_of_lt (hall other hother) (by simpa using hlate))
    rw [List.cons_getElem_drop_succ, List.take_append_drop]
  · cases hq : q.q_ with
    | nil => simp [hq] at h
    | cons f rest =>
      simp only [hq, Option.some.injEq] at h
      subst h
      exact .immediate (by simpa using hquit) (by simpa using hdue) hq

theorem submit_pq {k : ℕ} {entries : List (ℕ × Task)} {q : DispatchQueue Job} :
    (submit k entries q).pq_ =
      q.pq_ ++ (entries.zipIdx k).map fun e => (e.1.1, Job.closure e.2) := by
  unfold submit
  induction entries generalizing k q with
  | nil => simp
  | cons e entries ih =>
    rw [List.zipIdx_cons, List.foldl_cons, ih, List.map_cons, DispatchQueue.dispatch_after,
      List.append_assoc, List.singleton_append]

theorem submit_q {k : ℕ} {entries : List (ℕ × Task)} {q : DispatchQueue Job} :
    (submit k entries q).q_ = q.q_ := by
  unfold submit
  induction entries generalizing k q with
  | nil => simp
  | cons e entries ih => rw [List.zipIdx_cons, List.foldl_cons, ih, DispatchQueue.dispatch_after]

theorem positions_append {k : ℕ} {entries : List (ℕ × Task)} :
    (List.range (k + entries.length)).map Job.closure =
      (List.range k).map Job.closure ++ (entries.zipIdx k).map fun e => Job.closure e.2 := by
  have hnew : (entries.zipIdx k).map (fun e => Job.closure e.2) =
      ((entries.zipIdx k).map Prod.snd).map Job.closure := by
    rw [List.map_map]
    rfl
  rw [hnew, List.zipIdx_map_snd, ← List.map_append, List.range_eq_range', List.range_eq_range',
    ← List.range'_append_1, Nat.zero_add]

theorem scheduled_of_submitted {l entries : List (ℕ × Task)} {due i : ℕ}
    (h : (due, Job.closure i) ∈ (entries.zipIdx l.length).map fun e => (e.1.1, Job.closure e.2)) :
    ∃ task, (l ++ entries)[i]? = some (due, task) := by
  obtain ⟨⟨⟨due', task⟩, k⟩, hin, heq⟩ := List.mem_map.mp h
  obtain ⟨rfl, hk⟩ := Prod.mk.inj heq
  obtain rfl := Job.closure.inj hk
  obtain ⟨hle, hlt, hget⟩ := List.mem_zipIdx hin
  refine ⟨task, ?_⟩
  rw [List.getElem?_append_right hle, List.getElem?_eq_getElem (by omega), ← hget]

section
variable {σ : Type} {lib : Plist.Library} {app : Application σ} {s t : State σ} {env : Env}

structure Queued (s : State σ) : Prop where
  placed : (s.queue.pq_.map Prod.snd ++ (s.base.ran ++ s.hand).map Job.closure).Perm
    ((List.range s.base.dispatcher.scheduled.length).map Job.closure)
  times : ∀ due i, (due, .closure i) ∈ s.queue.pq_ →
    ∃ task, s.base.dispatcher.scheduled[i]? = some (due, task)
  behind : ∀ i ∈ s.hand, ∃ due task,
    s.base.dispatcher.scheduled[i]? = some (due, task) ∧ due < s.clock
  callbacks : ∀ i, .closure i ∉ s.queue.q_
  clock : s.base.clock ≤ s.clock

theorem queued_initial {name : Bytes} {port : UInt16} {connection_type : ConnectionType} {s : σ} :
    Queued (.initial name port connection_type s) where
  placed := List.Perm.refl []
  times _ _ h := absurd h List.not_mem_nil
  behind _ h := absurd h List.not_mem_nil
  callbacks _ := List.not_mem_nil
  clock := Nat.le_refl 0

theorem Queued.closure_injective : Function.Injective Job.closure := fun _ _ => Job.closure.inj

theorem Queued.notRan (h : Queued s) {i : ℕ} (hi : i ∈ s.hand) : i ∉ s.base.ran := by
  have hnodup := (List.nodup_range.map Queued.closure_injective).perm h.placed.symm
  have hplaces := (List.nodup_append.mp hnodup).2.1.of_map
  exact fun hran => (List.nodup_append.mp hplaces).2.2 i hran i hi rfl

theorem Queued.behind_le (h : Queued s) {now : ℕ} (hnow : s.clock ≤ now) : ∀ i ∈ s.hand,
    ∃ due task, s.base.dispatcher.scheduled[i]? = some (due, task) ∧ due < now := by
  intro i hi
  obtain ⟨due, task, hentry, hlt⟩ := h.behind i hi
  exact ⟨due, task, hentry, hlt.trans_le hnow⟩

theorem Queued.becomes (h : Queued s) {base : DispatcherRuns.State σ} {hand : List ℕ} {now : ℕ}
    {more : List (ℕ × Task)}
    (hmore : base.dispatcher.scheduled = s.base.dispatcher.scheduled ++ more)
    (hran : (base.ran ++ hand).Perm (s.base.ran ++ s.hand)) (hhand : hand ⊆ s.hand)
    (hnow : s.clock ≤ now) (hclock : base.clock ≤ now) :
    Queued { s.becomes base with hand := hand, clock := now } := by
  have hsubmitted : (s.becomes base).queue.pq_ = s.queue.pq_ ++
      (more.zipIdx s.base.dispatcher.scheduled.length).map fun e => (e.1.1, .closure e.2) := by
    rw [State.becomes, submit_pq, hmore, List.drop_left]
  have hkept {i : ℕ} {entry : ℕ × Task} (hentry : s.base.dispatcher.scheduled[i]? = some entry) :
      base.dispatcher.scheduled[i]? = some entry := by
    rw [hmore, List.getElem?_append_left (List.getElem?_eq_some_iff.mp hentry).1, hentry]
  refine ⟨?_, fun due i hmem => ?_, fun i hi => ?_, fun i => ?_, hclock⟩
  · change ((s.becomes base).queue.pq_.map Prod.snd ++ (base.ran ++ hand).map Job.closure).Perm
      ((List.range base.dispatcher.scheduled.length).map Job.closure)
    rw [hsubmitted, hmore, List.length_append, positions_append, List.map_append, List.map_map]
    have hold := h.placed
    have hsame := hran.map Job.closure
    rw [List.perm_iff_count] at hold hsame ⊢
    intro job
    have hcount := hold job
    have hcount' := hsame job
    simp only [List.count_append, List.map_append, Function.comp_def] at hcount hcount' ⊢
    omega
  · rw [hsubmitted, List.mem_append] at hmem
    change ∃ task, base.dispatcher.scheduled[i]? = some (due, task)
    rcases hmem with hold | hnew
    · obtain ⟨task, hentry⟩ := h.times due i hold
      exact ⟨task, hkept hentry⟩
    · rw [hmore]
      exact scheduled_of_submitted hnew
  · obtain ⟨due, task, hentry, hlt⟩ := h.behind_le hnow i (hhand hi)
    exact ⟨due, task, hkept hentry, hlt⟩
  · rw [State.becomes, submit_q]
    exact h.callbacks i

theorem Queued.takes (h : Queued s) {now : ℕ} {r : Job × DispatchQueue Job}
    (htakes : s.queue.Takes now r.1 r.2) (hnow : s.clock ≤ now) :
    (s.takes r).base = s.base ∧ Queued { s.takes r with clock := now } := by
  obtain ⟨function, q⟩ := r
  have hclock := h.clock.trans hnow
  have hbehind := h.behind_le hnow
  cases htakes with
  | @delayed before after item hquit hpq hleast hlt =>
    have hplaced := h.placed
    have hin : item.2 ∈ s.queue.pq_.map Prod.snd := by simp [hpq]
    obtain ⟨i, -, hi⟩ := List.mem_map.mp (hplaced.subset (List.mem_append_left _ hin))
    obtain ⟨due, function⟩ := item
    obtain rfl : Job.closure i = function := hi
    refine ⟨rfl, ?_, fun due' j hj => h.times due' j ?_, fun j hj => ?_, h.callbacks, hclock⟩
    · rw [hpq] at hplaced
      rw [List.perm_iff_count] at hplaced ⊢
      intro job
      have hcount := hplaced job
      simp only [State.takes, List.count_append, List.map_append, List.map_cons, List.map_nil,
        List.count_cons, List.count_nil] at hcount ⊢
      omega
    · rw [hpq, List.mem_append, List.mem_cons]
      rcases List.mem_append.mp hj with hj | hj
      · exact Or.inl hj
      · exact Or.inr (Or.inr hj)
    · rcases List.mem_append.mp hj with hj | hj
      · exact hbehind j hj
      · obtain rfl := List.mem_singleton.mp hj
        obtain ⟨task, hentry⟩ := h.times due j (by simp [hpq])
        exact ⟨due, task, hentry, hlt⟩
  | @immediate function rest hquit hdue hq =>
    cases function with
    | closure i => exact absurd (by simp [hq]) (h.callbacks i)
    | callback k =>
      refine ⟨rfl, h.placed, h.times, hbehind, fun i hi => h.callbacks i ?_, hclock⟩
      rw [hq]
      exact List.mem_cons_of_mem _ hi

theorem Queued.own (h : Queued s) {e : Event} (he : ∀ i, e ≠ .closure i)
    {base : DispatcherRuns.State σ} (hs : DispatcherRuns.Step lib app s.base (env, e) base)
    (hnow : s.clock ≤ env.now) : Queued { s.becomes base with clock := env.now } := by
  obtain ⟨-, hclock, hran, -⟩ := Step.effect hs
  obtain ⟨more, hmore, -⟩ := scheduled_step hs
  have hnone : e.ran = [] := by
    cases e with
    | closure i => exact absurd rfl (he i)
    | _ => rfl
  simp only [hnone, List.append_nil] at hran
  refine h.becomes hmore ?_ (List.Subset.refl _) hnow hclock.le
  change (base.ran ++ s.hand).Perm (s.base.ran ++ s.hand)
  rw [hran]

theorem Queued.run (h : Queued s) {i : ℕ} (hs : s.run app env i = some t)
    (hnow : s.clock ≤ env.now) : DispatcherRuns.Step lib app s.base (env, .closure i) t.base ∧
      Queued { t with clock := env.now } := by
  unfold State.run at hs
  split_ifs at hs with hi
  obtain ⟨⟨due, task⟩, hentry, hs⟩ := Option.bind_eq_some_iff.mp hs
  obtain ⟨r, hr, rfl⟩ := Option.map_eq_some_iff.mp hs
  obtain ⟨due', task', hentry', hlt⟩ := h.behind_le hnow i hi
  obtain ⟨rfl, rfl⟩ : due = due' ∧ task = task' := by
    simpa using hentry.symm.trans hentry'
  have hdue : s.base.due? env.now i = some task :=
    State.due?_eq_some.mpr ⟨h.notRan hi, due, hentry, hlt⟩
  have hperform : s.base.perform lib app env (.closure i) = some r := by
    rw [State.perform, hdue]
    exact hr
  have hstep : DispatcherRuns.Step lib app s.base (env, .closure i)
      ⟨r.1, r.2, s.base.ran ++ [i], env.now⟩ := by
    rw [DispatcherRuns.Step, DispatcherRuns.State.advance, if_pos (h.clock.trans hnow), hperform]
    rfl
  obtain ⟨more, hmore, -⟩ := scheduled_step hstep
  refine ⟨hstep, h.becomes hmore ?_ List.erase_subset hnow (Nat.le_refl _)⟩
  change (s.base.ran ++ [i] ++ s.hand.erase i).Perm (s.base.ran ++ s.hand)
  rw [List.append_assoc, List.singleton_append]
  exact (List.perm_cons_erase hi).symm.append_left _

theorem Queued.step (h : Queued s) {e : Env × Move} (hs : Step lib app s e t) :
    Run (DispatcherRuns.Step lib app) s.base (events [e]) t.base ∧ Queued t := by
  obtain ⟨env, move⟩ := e
  unfold Step State.advance at hs
  split_ifs at hs with hnow
  simp only at hs hnow
  obtain ⟨s', hmove, rfl⟩ := Option.map_eq_some_iff.mp hs
  have hclock := h.clock.trans hnow
  have hbehind := h.behind_le hnow
  cases move with
  | own e =>
    have hown : (∀ i, e ≠ .closure i) ∧
        (s.base.advance lib app (env, e)).map s.becomes = some s' := by
      cases e with
      | closure i => exact absurd hmove (by simp [Move.apply])
      | packet | deviceStatus | hub | dispatchMessage | subscribeRequest | start | stop =>
        exact ⟨fun _ => by simp, hmove⟩
    obtain ⟨he, hown⟩ := hown
    obtain ⟨base, hbase, rfl⟩ := Option.map_eq_some_iff.mp hown
    exact ⟨.single hbase, h.own he hbase hnow⟩
  | dispatch k =>
    obtain rfl := Option.some.inj hmove
    refine ⟨.nil, h.placed, h.times, hbehind, fun i hi => ?_, hclock⟩
    rcases List.mem_append.mp hi with hi | hi
    · exact h.callbacks i hi
    · simp at hi
  | take top =>
    obtain ⟨r, hr, rfl⟩ := Option.map_eq_some_iff.mp hmove
    obtain ⟨hbase, hqueued⟩ := h.takes (takes_of_takeTop hr) hnow
    refine ⟨?_, hqueued⟩
    rw [hbase]
    exact .nil
  | run i =>
    have hstep : DispatcherRuns.Step lib app s.base (env, .closure i) s'.base ∧
        Queued { s' with clock := env.now } := h.run hmove hnow
    exact ⟨.single hstep.1, hstep.2⟩
  | quit =>
    obtain rfl := Option.some.inj hmove
    exact ⟨.nil, h.placed, h.times, hbehind, h.callbacks, hclock⟩

theorem Queued.projects {es : List (Env × Move)} (h : Queued s)
    (run : Run (Step lib app) s es t) :
    Run (DispatcherRuns.Step lib app) s.base (events es) t.base := by
  have hboth : Run (DispatcherRuns.Step lib app) s.base (events es) t.base ∧ Queued t := by
    refine run.history_invariant (I := fun es t =>
      Run (DispatcherRuns.Step lib app) s.base (events es) t.base ∧ Queued t)
      (fun es t e u h hs => ?_) ⟨.nil, h⟩
    obtain ⟨hrun, hqueued⟩ := h.2.step hs
    rw [events, List.filterMap_append]
    exact ⟨h.1.append hrun, hqueued⟩
  exact hboth.1

/-- Nothing happens while a closure that is queued or in a worker's hand is due for longer
than `delay`. -/
def InTime (lib : Plist.Library) (app : Application σ) (delay : ℕ) (s : State σ)
    (es : List (Env × Move)) : Prop :=
  ∀ fs t e, fs ++ [e] <+: es → Run (Step lib app) s fs t →
    (∀ item ∈ t.queue.pq_, e.1.now ≤ item.1 + delay) ∧
      ∀ i ∈ t.hand, ∀ entry ∈ t.base.dispatcher.scheduled[i]?, e.1.now ≤ entry.1 + delay

theorem Queued.waiting (h : Queued s) {i due : ℕ} {task : Task}
    (hentry : s.base.dispatcher.scheduled[i]? = some (due, task)) (hran : i ∉ s.base.ran) :
    (due, .closure i) ∈ s.queue.pq_ ∨ i ∈ s.hand := by
  have hlt : i < s.base.dispatcher.scheduled.length := (List.getElem?_eq_some_iff.mp hentry).1
  have hin := h.placed.symm.subset (List.mem_map_of_mem (List.mem_range.mpr hlt))
  rcases List.mem_append.mp hin with hqueue | hplace
  · left
    obtain ⟨⟨due', job⟩, hmem, rfl⟩ := List.mem_map.mp hqueue
    obtain ⟨task', hentry'⟩ := h.times due' i hmem
    obtain ⟨rfl, -⟩ : due = due' ∧ task = task' := by
      simpa using hentry.symm.trans hentry'
    exact hmem
  · obtain ⟨j, hj, heq⟩ := List.mem_map.mp hplace
    obtain rfl := Job.closure.inj heq
    exact Or.inr ((List.mem_append.mp hj).resolve_left hran)

theorem InTime.bound {delay : ℕ} {es fs : List (Env × Move)} {e : Env × Move}
    (h : InTime lib app delay s es) (hs : Queued t) (hfs : fs ++ [e] <+: es)
    (run : Run (Step lib app) s fs t) {i due : ℕ} {task : Task}
    (hentry : t.base.dispatcher.scheduled[i]? = some (due, task)) (hran : i ∉ t.base.ran) :
    e.1.now ≤ due + delay := by
  obtain ⟨hqueue, hhand⟩ := h fs t e hfs run
  rcases hs.waiting hentry hran with hin | hin
  · exact hqueue _ hin
  · exact hhand i hin _ hentry

theorem Queued.run_queued {es : List (Env × Move)} (h : Queued s)
    (run : Run (Step lib app) s es t) : Queued t :=
  run.invariant (fun _ _ _ h hs => (h.step hs).2) h

end

/-- On the queue the dispatcher makes a run of its own, and each closure is in one place. -/
theorem queue_refines {σ : Type} {lib : Plist.Library} {app : Application σ} {name : Bytes}
    {port : UInt16} {connection_type : ConnectionType} {s : σ} {es : List (Env × Move)}
    {t : State σ} (run : Run (Step lib app) (.initial name port connection_type s) es t) :
    Run (DispatcherRuns.Step lib app) (.initial name port connection_type s) (events es) t.base ∧
      (t.queue.pq_.map Prod.snd ++ (t.base.ran ++ t.hand).map Job.closure).Perm
        ((List.range t.base.dispatcher.scheduled.length).map Job.closure) :=
  ⟨queued_initial.projects run, (queued_initial.run_queued run).placed⟩

def oneCheck : List (Env × Move) :=
  [(at' 0, .own .start), (at' 1, .dispatch 7), (at' 2, .take 0), (at' 400, .take 0),
    (at' 401, .run 0)]

theorem queue_refines_oneCheck : ∃ t ∈ oneCheck.foldlM (State.advance silentLibrary silentApp)
    (.initial [66] 5000 .usb ()), t.base.ran = [0] ∧
      Run (DispatcherRuns.Step silentLibrary silentApp) (.initial [66] 5000 .usb ())
        (events oneCheck) t.base ∧
      (t.queue.pq_.map Prod.snd ++ (t.base.ran ++ t.hand).map Job.closure).Perm
        ((List.range t.base.dispatcher.scheduled.length).map Job.closure) := by
  have hend : ∃ t ∈ oneCheck.foldlM (State.advance silentLibrary silentApp)
      (.initial [66] 5000 .usb ()), t.base.ran = [0] := by
    decide +kernel
  obtain ⟨t, ht, hran⟩ := hend
  exact ⟨t, ht, hran, queue_refines (Run.iff_foldlM.mpr ht)⟩

end SwiftRobot.KeepAliveQueue
