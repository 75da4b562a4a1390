import SwiftRobot.DispatchQueue
import SwiftRobot.Support.Mutex
import SwiftRobot.Support.Runs

/-!
# The worker threads of the dispatch queue

`dispatch_queue.cpp`: any number of threads in `dispatch_thread_handler`, step by step
between the points where a thread takes `lock_`, gives it up or runs a function. The
functions are numbered in the order in which they are submitted. What the scheduler, the
clock and the condition variable choose is part of the event: the order of the steps,
what `now()` reads, which maximum is on top of the heap, whom `notify_one` wakes.
-/

namespace SwiftRobot.DispatchThreads
open Mutex

def lt (item other : ℕ × ℕ) : Prop := other.1 < item.1

instance (item other : ℕ × ℕ) : Decidable (lt item other) :=
  inferInstanceAs (Decidable (_ < _))

/-- `std::priority_queue::top`: nothing in the queue is above it. -/
def IsTop (pq : List (ℕ × ℕ)) (item : ℕ × ℕ) : Prop := ∀ other ∈ pq, ¬ lt item other

instance (pq : List (ℕ × ℕ)) (item : ℕ × ℕ) : Decidable (IsTop pq item) :=
  inferInstanceAs (Decidable (∀ _ ∈ pq, _))

inductive Task
  | delayed (time_point function : ℕ)
  | immediate (function : ℕ)
  deriving DecidableEq

def Task.function : Task → ℕ
  | .delayed _ k | .immediate k => k

def Task.immediate? : Task → Option ℕ
  | .immediate k => some k
  | .delayed _ _ => none

/-- Where a worker is in `dispatch_thread_handler`: before its first lock, at the
predicate of `wait`, blocked in it, notified in it, behind it, in a function, behind the
function, at `while(!quit_)`, and done. -/
inductive Phase
  | starting
  | checking
  | waiting
  | woken
  | choosing
  | running (task : Task)
  | returning
  | looping
  | exited
  deriving DecidableEq

def Phase.Inside : Phase → Prop
  | .checking | .choosing | .looping => True
  | _ => False

def Phase.Runs (k : ℕ) : Phase → Prop
  | .running task => task.function = k
  | _ => False

instance (k : ℕ) : DecidablePred (Phase.Runs k)
  | .running task => inferInstanceAs (Decidable (task.function = k))
  | .starting | .checking | .waiting | .woken | .choosing | .returning | .looping | .exited =>
    .isFalse id

structure State (n : ℕ) where
  queue : DispatchQueue ℕ
  lock_ : Option (Fin n)
  threads_ : Fin n → Phase
  submitted : ℕ
  dispatched : List ℕ
  taken : List (ℕ × Task)
  finished : List Task

inductive Event (n : ℕ)
  | lock (w : Fin n)
  | check (w : Fin n)
  | choose (w : Fin n) (now top : ℕ)
  | loop (w : Fin n)
  | finish (w : Fin n)
  | spurious (w : Fin n)
  | dispatch (wakes : Option (Fin n))
  | dispatch_after (time_point : ℕ) (wakes : Option (Fin n))
  | quit

namespace State
variable {n : ℕ}

def initial (n : ℕ) : State n := ⟨.initial, none, fun _ => .starting, 0, [], [], []⟩

def moves (w : Fin n) (phase : Phase) (s : State n) : State n :=
  { s with threads_ := Function.update s.threads_ w phase }

def unlock (s : State n) : State n := { s with lock_ := none }

def Ready (s : State n) : Prop := s.queue.q_ ≠ [] ∨ s.queue.pq_ ≠ [] ∨ s.queue.quit_ = true

instance (s : State n) : Decidable s.Ready := inferInstanceAs (Decidable (_ ∨ _ ∨ _))

/-- A function moved out of the queue is run without the lock. -/
def takes (w : Fin n) (now : ℕ) (task : Task) (queue : DispatchQueue ℕ) (s : State n) : State n :=
  { s.unlock.moves w (.running task) with queue := queue, taken := s.taken ++ [(now, task)] }

def chooseImmediate (w : Fin n) (now : ℕ) (s : State n) : State n :=
  match s.queue.q_ with
  | [] => s.moves w .looping
  | k :: rest => s.takes w now (.immediate k) { s.queue with q_ := rest }

def choose (w : Fin n) (now top : ℕ) (s : State n) : Option (State n) :=
  if s.queue.quit_ then some (s.moves w .looping)
  else match s.queue.pq_ with
    | [] => some (s.chooseImmediate w now)
    | _ :: _ => s.queue.pq_[top]?.bind fun item =>
      if IsTop s.queue.pq_ item then
        if item.1 < now then
          some (s.takes w now (.delayed item.1 item.2)
            { s.queue with pq_ := s.queue.pq_.eraseIdx top })
        else some (s.chooseImmediate w now)
      else none

def notify_one (wakes : Option (Fin n)) (s : State n) : Option (State n) :=
  match wakes with
  | none => if ∀ w, s.threads_ w ≠ .waiting then some s else none
  | some w => if s.threads_ w = .waiting then some (s.moves w .woken) else none

def notify_all (s : State n) : State n :=
  { s with threads_ := fun w => if s.threads_ w = .waiting then .woken else s.threads_ w }

def dispatch (s : State n) : State n :=
  { s with
    queue := s.queue.dispatch s.submitted
    dispatched := s.dispatched ++ [s.submitted]
    submitted := s.submitted + 1 }

def dispatch_after (time_point : ℕ) (s : State n) : State n :=
  { s with
    queue := s.queue.dispatch_after time_point s.submitted
    submitted := s.submitted + 1 }

def quit (s : State n) : State n := { s with queue := s.queue.quit }.notify_all

def lock (w : Fin n) (s : State n) : Option (State n) :=
  match s.threads_ w with
  | .starting | .woken => some ({ s with lock_ := some w }.moves w .checking)
  | .returning => some ({ s with lock_ := some w }.moves w .looping)
  | _ => none

/-- A submission holds the lock from the push to the end of `notify_one`, and the
destructor from `quit_ = true` to the end of `notify_all`: each is one step. -/
def advance (s : State n) : Event n → Option (State n)
  | .lock w => if s.lock_ = none then s.lock w else none
  | .check w =>
    if s.threads_ w = .checking then
      some (if s.Ready then s.moves w .choosing else s.unlock.moves w .waiting)
    else none
  | .choose w now top => if s.threads_ w = .choosing then s.choose w now top else none
  | .loop w =>
    if s.threads_ w = .looping then
      some (if s.queue.quit_ then s.unlock.moves w .exited else s.moves w .checking)
    else none
  | .finish w =>
    match s.threads_ w with
    | .running task => some ({ s with finished := s.finished ++ [task] }.moves w .returning)
    | _ => none
  | .spurious w => if s.threads_ w = .waiting then some (s.moves w .woken) else none
  | .dispatch wakes => if s.lock_ = none then s.dispatch.notify_one wakes else none
  | .dispatch_after time_point wakes =>
    if s.lock_ = none then (s.dispatch_after time_point).notify_one wakes else none
  | .quit => if s.lock_ = none then some s.quit else none

end State

def Step {n : ℕ} (s : State n) (e : Event n) (t : State n) : Prop := s.advance e = some t

section
variable {n : ℕ} {s t : State n} {e : Event n} {w : Fin n}

@[simp]
theorem State.moves_self (phase : Phase) : (s.moves w phase).threads_ w = phase := by
  simp only [State.moves, Function.update_self]

@[simp]
theorem State.takes_self (now : ℕ) (task : Task) (queue : DispatchQueue ℕ) :
    (s.takes w now task queue).threads_ w = .running task := by
  simp only [State.takes, State.moves, Function.update_self]

theorem State.moves_of_ne {v : Fin n} {phase : Phase} (h : v ≠ w) :
    (s.moves w phase).threads_ v = s.threads_ v := by
  simp only [State.moves, Function.update_of_ne h]

inductive Selects (now : ℕ) (q : DispatchQueue ℕ) : Task → DispatchQueue ℕ → Prop
  | delayed {before after : List (ℕ × ℕ)} {item : ℕ × ℕ} : q.quit_ = false →
    q.pq_ = before ++ item :: after → IsTop q.pq_ item → item.1 < now →
    Selects now q (.delayed item.1 item.2) { q with pq_ := before ++ after }
  | immediate {k : ℕ} {rest : List ℕ} : q.quit_ = false →
    (∀ item ∈ q.pq_, ¬ item.1 < now) → q.q_ = k :: rest →
    Selects now q (.immediate k) { q with q_ := rest }

theorem Selects.not_quit {now : ℕ} {q r : DispatchQueue ℕ} {task : Task}
    (h : Selects now q task r) : q.quit_ = false ∧ r.quit_ = false := by
  cases h with
  | delayed hquit _ _ _ => exact ⟨hquit, hquit⟩
  | immediate hquit _ _ => exact ⟨hquit, hquit⟩

theorem IsTop.least {pq : List (ℕ × ℕ)} {item other : ℕ × ℕ} (h : IsTop pq item)
    (hother : other ∈ pq) : item.1 ≤ other.1 :=
  Nat.le_of_not_lt (h other hother)

theorem IsTop.none_due {pq : List (ℕ × ℕ)} {item : ℕ × ℕ} {now : ℕ} (h : IsTop pq item)
    (hnow : ¬ item.1 < now) : ∀ other ∈ pq, ¬ other.1 < now := by
  intro other hother hlt
  have hle := h.least hother
  omega

theorem Selects.takes {now : ℕ} {q r : DispatchQueue ℕ} {task : Task}
    (h : Selects now q task r) : q.Takes now task.function r := by
  cases h with
  | delayed hquit hpq htop hnow => exact .delayed hquit hpq (fun _ => htop.least) hnow
  | immediate hquit hdue hq => exact .immediate hquit hdue hq

structure Notified (a b : Fin n → Phase) : Prop where
  each : ∀ w, b w = a w ∨ (a w = .waiting ∧ b w = .woken)
  wakes : (∃ w, a w = .waiting) → ∃ w, b w = .woken

inductive Stepped (s : State n) : Event n → State n → Prop
  | begins {w : Fin n} : s.lock_ = none → s.threads_ w = .starting ∨ s.threads_ w = .woken →
    Stepped s (.lock w) ({ s with lock_ := some w }.moves w .checking)
  | resumes {w : Fin n} : s.lock_ = none → s.threads_ w = .returning →
    Stepped s (.lock w) ({ s with lock_ := some w }.moves w .looping)
  | ready {w : Fin n} : s.threads_ w = .checking → s.Ready →
    Stepped s (.check w) (s.moves w .choosing)
  | blocks {w : Fin n} : s.threads_ w = .checking → ¬ s.Ready →
    Stepped s (.check w) (s.unlock.moves w .waiting)
  | takes {w : Fin n} {now top : ℕ} {task : Task} {queue : DispatchQueue ℕ} :
    s.threads_ w = .choosing → Selects now s.queue task queue →
    Stepped s (.choose w now top) (s.takes w now task queue)
  | passes {w : Fin n} {now top : ℕ} : s.threads_ w = .choosing →
    Stepped s (.choose w now top) (s.moves w .looping)
  | again {w : Fin n} : s.threads_ w = .looping → s.queue.quit_ = false →
    Stepped s (.loop w) (s.moves w .checking)
  | leaves {w : Fin n} : s.threads_ w = .looping → s.queue.quit_ = true →
    Stepped s (.loop w) (s.unlock.moves w .exited)
  | finish {w : Fin n} {task : Task} : s.threads_ w = .running task →
    Stepped s (.finish w) ({ s with finished := s.finished ++ [task] }.moves w .returning)
  | spurious {w : Fin n} : s.threads_ w = .waiting →
    Stepped s (.spurious w) (s.moves w .woken)
  | dispatch {wakes : Option (Fin n)} {threads : Fin n → Phase} : s.lock_ = none →
    Notified s.threads_ threads →
    Stepped s (.dispatch wakes) { s.dispatch with threads_ := threads }
  | dispatch_after {time_point : ℕ} {wakes : Option (Fin n)} {threads : Fin n → Phase} :
    s.lock_ = none → Notified s.threads_ threads →
    Stepped s (.dispatch_after time_point wakes)
      { s.dispatch_after time_point with threads_ := threads }
  | quit : s.lock_ = none → Stepped s .quit s.quit

theorem notified_of_notify_one {wakes : Option (Fin n)} (h : s.notify_one wakes = some t) :
    ∃ threads, Notified s.threads_ threads ∧ t = { s with threads_ := threads } := by
  cases wakes with
  | none =>
    simp only [State.notify_one, Option.ite_none_right_eq_some, Option.some.injEq] at h
    obtain ⟨hnone, rfl⟩ := h
    refine ⟨s.threads_, ⟨fun _ => Or.inl rfl, ?_⟩, rfl⟩
    rintro ⟨w, hw⟩
    exact absurd hw (hnone w)
  | some v =>
    simp only [State.notify_one, Option.ite_none_right_eq_some, Option.some.injEq] at h
    obtain ⟨hv, rfl⟩ := h
    refine ⟨_, ⟨fun w => ?_, fun _ => ⟨v, State.moves_self _⟩⟩, rfl⟩
    by_cases hw : w = v
    · subst hw
      exact Or.inr ⟨hv, State.moves_self _⟩
    · exact Or.inl (State.moves_of_ne hw)

theorem notified_all : Notified s.threads_ s.notify_all.threads_ := by
  constructor
  · intro w
    by_cases hw : s.threads_ w = .waiting <;> simp [State.notify_all, hw]
  · rintro ⟨w, hw⟩
    exact ⟨w, by simp [State.notify_all, hw]⟩

theorem Stepped.of_chooseImmediate {now top : ℕ} (hw : s.threads_ w = .choosing)
    (hquit : s.queue.quit_ = false) (hdue : ∀ item ∈ s.queue.pq_, ¬ item.1 < now) :
    Stepped s (.choose w now top) (s.chooseImmediate w now) := by
  unfold State.chooseImmediate
  split
  next => exact .passes hw
  next k rest hq => exact .takes hw (.immediate hquit hdue hq)

theorem Stepped.of_choose {now top : ℕ} (hw : s.threads_ w = .choosing)
    (h : s.choose w now top = some t) : Stepped s (.choose w now top) t := by
  unfold State.choose at h
  split_ifs at h with hquit
  · rw [← Option.some.inj h]
    exact .passes hw
  · have hquit : s.queue.quit_ = false := by simpa using hquit
    split at h
    next hpq =>
      rw [← Option.some.inj h]
      exact .of_chooseImmediate hw hquit (by simp [hpq])
    next =>
      obtain ⟨item, hitem, h⟩ := Option.bind_eq_some_iff.mp h
      split_ifs at h with htop hnow
      · obtain ⟨hlt, hget⟩ := List.getElem?_eq_some_iff.mp hitem
        have hsplit : s.queue.pq_ = s.queue.pq_.take top ++ item :: s.queue.pq_.drop (top + 1) := by
          rw [← hget, List.getElem_cons_drop, List.take_append_drop]
        rw [← Option.some.inj h, List.eraseIdx_eq_take_drop_succ]
        exact .takes hw (.delayed hquit hsplit htop hnow)
      · rw [← Option.some.inj h]
        exact .of_chooseImmediate hw hquit (htop.none_due hnow)

theorem Stepped.of_step (h : Step s e t) : Stepped s e t := by
  unfold Step at h
  cases e with
  | lock w =>
    simp only [State.advance, State.lock, Option.ite_none_right_eq_some] at h
    obtain ⟨hlock, h⟩ := h
    cases hw : s.threads_ w <;> simp only [hw, Option.some.injEq, reduceCtorEq] at h
    · exact h ▸ .begins hlock (Or.inl hw)
    · exact h ▸ .begins hlock (Or.inr hw)
    · exact h ▸ .resumes hlock hw
  | check w =>
    simp only [State.advance, Option.ite_none_right_eq_some, Option.some.injEq] at h
    obtain ⟨hw, rfl⟩ := h
    split_ifs with hready
    · exact .ready hw hready
    · exact .blocks hw hready
  | choose w now top =>
    simp only [State.advance, Option.ite_none_right_eq_some] at h
    exact .of_choose h.1 h.2
  | loop w =>
    simp only [State.advance, Option.ite_none_right_eq_some, Option.some.injEq] at h
    obtain ⟨hw, rfl⟩ := h
    split_ifs with hquit
    · exact .leaves hw hquit
    · exact .again hw (by simpa using hquit)
  | finish w =>
    cases hw : s.threads_ w <;>
      simp only [State.advance, hw, Option.some.injEq, reduceCtorEq] at h
    exact h ▸ .finish hw
  | spurious w =>
    simp only [State.advance, Option.ite_none_right_eq_some, Option.some.injEq] at h
    exact h.2 ▸ .spurious h.1
  | dispatch wakes =>
    simp only [State.advance, Option.ite_none_right_eq_some] at h
    obtain ⟨threads, hthreads, rfl⟩ := notified_of_notify_one h.2
    exact .dispatch h.1 hthreads
  | dispatch_after time_point wakes =>
    simp only [State.advance, Option.ite_none_right_eq_some] at h
    obtain ⟨threads, hthreads, rfl⟩ := notified_of_notify_one h.2
    exact .dispatch_after h.1 hthreads
  | quit =>
    simp only [State.advance, Option.ite_none_right_eq_some, Option.some.injEq] at h
    exact h.2 ▸ .quit h.1

end

end SwiftRobot.DispatchThreads
