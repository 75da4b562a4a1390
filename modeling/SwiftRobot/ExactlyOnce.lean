import SwiftRobot.DispatchThreads
import Mathlib.Data.List.Count
import Mathlib.Data.List.Range

/-!
# Every function runs once

A function that was submitted is in one place: in `q_`, in `pq_`, in the hand of one
worker or among the finished ones. The functions given to `dispatch` leave `q_` in the
order in which they came.
-/

namespace SwiftRobot.ExactlyOnce
open DispatchThreads Mutex

section
variable {n : ℕ} {s t : State n} {e : Event n} {es : List (Event n)} {w : Fin n}

def runningOn (s : State n) (k : ℕ) : ℕ := count (Phase.Runs k) s.threads_

def queuedIn (q : DispatchQueue ℕ) (k : ℕ) : ℕ := q.q_.count k + (q.pq_.map Prod.snd).count k

def finishedTimes (s : State n) (k : ℕ) : ℕ := (s.finished.map Task.function).count k

def takenTimes (s : State n) (k : ℕ) : ℕ := (s.taken.map fun take => take.2.function).count k

/-- Function `k` was submitted once or not at all; it is in the queue until it is taken, and
what was taken is with a worker or finished. -/
structure Placed (s : State n) (k : ℕ) : Prop where
  queued : queuedIn s.queue k + takenTimes s k = (List.range s.submitted).count k
  carried : takenTimes s k = runningOn s k + finishedTimes s k

theorem runningOn_idle {p phase : Phase} {k : ℕ} (hw : s.threads_ w = p) (hp : ¬ p.Runs k)
    (hphase : ¬ phase.Runs k) : runningOn (s.moves w phase) k = runningOn s k := by
  have hmoves := count_update (Phase.Runs k) s.threads_ w phase
  rw [hw, if_neg hp, if_neg hphase] at hmoves
  exact hmoves

theorem count_running (task : Task) (k : ℕ) :
    (if (Phase.running task).Runs k then 1 else 0) = [task.function].count k := by
  by_cases hk : task.function = k
  · have hruns : (Phase.running task).Runs k := hk
    rw [if_pos hruns, hk, List.count_singleton_self]
  · have hruns : ¬ (Phase.running task).Runs k := hk
    rw [if_neg hruns, List.count_eq_zero_of_not_mem (by simpa using Ne.symm hk)]

theorem runningOn_takes {task : Task} (hw : s.threads_ w = .choosing) (k : ℕ) :
    runningOn (s.moves w (.running task)) k = runningOn s k + [task.function].count k := by
  have hmoves := count_update (Phase.Runs k) s.threads_ w (.running task)
  rw [hw, if_neg (show ¬ Phase.Runs k .choosing from id), count_running] at hmoves
  exact hmoves

theorem runningOn_finish {task : Task} (hw : s.threads_ w = .running task) (k : ℕ) :
    runningOn (s.moves w .returning) k + [task.function].count k = runningOn s k := by
  have hmoves := count_update (Phase.Runs k) s.threads_ w .returning
  rw [hw, if_neg (show ¬ Phase.Runs k .returning from id), count_running] at hmoves
  exact hmoves

theorem count_notified {a b : Fin n → Phase} (h : Notified a b) (k : ℕ) :
    count (Phase.Runs k) b = count (Phase.Runs k) a := by
  apply count_congr
  intro w
  rcases h.each w with hw | ⟨ha, hb⟩
  · rw [hw]
  · rw [ha, hb]
    exact Iff.rfl

theorem selects_queuedIn {now : ℕ} {q r : DispatchQueue ℕ} {task : Task}
    (h : Selects now q task r) (k : ℕ) :
    queuedIn r k + [task.function].count k = queuedIn q k := by
  cases h with
  | delayed _ hpq _ _ =>
    simp only [queuedIn, hpq, List.map_append, List.map_cons, List.count_append, List.count_cons,
      List.count_nil, Task.function]
    omega
  | immediate _ _ hq =>
    simp only [queuedIn, hq, List.count_cons, List.count_nil, Task.function]
    omega

theorem Placed.moves {p phase : Phase} {lock_ : Option (Fin n)} {k : ℕ} (hp : Placed s k)
    (hw : s.threads_ w = p) (hidle : ¬ p.Runs k) (hphase : ¬ phase.Runs k) :
    Placed ({ s with lock_ := lock_ }.moves w phase) k := by
  have hrunning : runningOn ({ s with lock_ := lock_ }.moves w phase) k = runningOn s k :=
    runningOn_idle hw hidle hphase
  refine ⟨hp.queued, ?_⟩
  rw [hrunning]
  exact hp.carried

theorem Placed.takes {now : ℕ} {task : Task} {queue : DispatchQueue ℕ} {k : ℕ}
    (hp : Placed s k) (hw : s.threads_ w = .choosing) (h : Selects now s.queue task queue) :
    Placed (s.takes w now task queue) k := by
  have hqueue := selects_queuedIn h k
  have hrunning : runningOn (s.takes w now task queue) k =
      runningOn s k + [task.function].count k := runningOn_takes hw k
  have htaken : takenTimes (s.takes w now task queue) k =
      takenTimes s k + [task.function].count k := by
    simp only [takenTimes, State.takes, List.map_append, List.count_append, List.map_singleton]
  have hqueued := hp.queued
  have hcarried := hp.carried
  constructor
  · change queuedIn queue k + _ = (List.range s.submitted).count k
    omega
  · change _ = _ + finishedTimes s k
    omega

theorem Placed.finish {task : Task} {k : ℕ} (hp : Placed s k) (hw : s.threads_ w = .running task) :
    Placed ({ s with finished := s.finished ++ [task] }.moves w .returning) k := by
  have hrunning : runningOn ({ s with finished := s.finished ++ [task] }.moves w .returning) k +
      [task.function].count k = runningOn s k := runningOn_finish hw k
  have hfinished : finishedTimes ({ s with finished := s.finished ++ [task] }.moves w .returning) k =
      finishedTimes s k + [task.function].count k := by
    simp only [finishedTimes, State.moves, List.map_append, List.count_append, List.map_singleton]
  have hcarried := hp.carried
  refine ⟨hp.queued, ?_⟩
  change takenTimes s k = _
  omega

theorem Placed.submitted {threads : Fin n → Phase} {q : DispatchQueue ℕ} {dispatched : List ℕ}
    {k : ℕ} (hp : Placed s k) (hn : Notified s.threads_ threads)
    (hq : queuedIn q k = queuedIn s.queue k + [s.submitted].count k) :
    Placed { s with
      queue := q, threads_ := threads, dispatched := dispatched, submitted := s.submitted + 1 } k := by
  have hqueued := hp.queued
  constructor
  · change queuedIn q k + takenTimes s k = (List.range (s.submitted + 1)).count k
    rw [List.range_succ, List.count_append]
    omega
  · change takenTimes s k = count (Phase.Runs k) threads + finishedTimes s k
    rw [count_notified hn]
    exact hp.carried

theorem Placed.step {k : ℕ} (hp : Placed s k) (h : Step s e t) : Placed t k := by
  cases Stepped.of_step h with
  | begins _ hw =>
    rcases hw with hw | hw
    · exact hp.moves hw id id
    · exact hp.moves hw id id
  | resumes _ hw => exact hp.moves hw id id
  | ready hw _ => exact hp.moves hw id id
  | blocks hw _ => exact hp.moves hw id id
  | takes hw hs => exact hp.takes hw hs
  | passes hw => exact hp.moves hw id id
  | again hw _ => exact hp.moves hw id id
  | leaves hw _ => exact hp.moves hw id id
  | finish hw => exact hp.finish hw
  | spurious hw => exact hp.moves hw id id
  | dispatch _ hn =>
    apply hp.submitted hn
    simp only [queuedIn, State.dispatch, DispatchQueue.dispatch, List.count_append]
    omega
  | dispatch_after _ hn =>
    apply hp.submitted hn
    simp only [queuedIn, State.dispatch_after, DispatchQueue.dispatch_after, List.map_append,
      List.count_append, List.map_singleton]
    omega
  | quit _ =>
    refine ⟨hp.queued, ?_⟩
    change takenTimes s k = count (Phase.Runs k) s.notify_all.threads_ + finishedTimes s k
    rw [count_notified notified_all]
    exact hp.carried

theorem placed (run : Run Step (State.initial n) es s) (k : ℕ) : Placed s k := by
  refine run.invariant (I := fun s => Placed s k) (fun _ _ _ => Placed.step) ⟨rfl, ?_⟩
  have hrunning : runningOn (State.initial n) k = 0 := count_eq_zero _ fun _ => id
  rw [hrunning]
  rfl

theorem not_queued_of_taken (run : Run Step (State.initial n) es s) {now : ℕ} {task : Task}
    (htaken : (now, task) ∈ s.taken) : queuedIn s.queue task.function = 0 := by
  have hqueued := (placed run task.function).queued
  have hone : (List.range s.submitted).count task.function ≤ 1 :=
    List.nodup_iff_count_le_one.mp List.nodup_range _
  have hpos : 0 < takenTimes s task.function :=
    List.count_pos_iff.mpr (List.mem_map_of_mem (f := fun take => take.2.function) htaken)
  omega

def takenImmediate (s : State n) : List ℕ := s.taken.filterMap fun take => take.2.immediate?

def Ordered (s : State n) : Prop := takenImmediate s ++ s.queue.q_ = s.dispatched

theorem Ordered.takes {now : ℕ} {task : Task} {queue : DispatchQueue ℕ} (ho : Ordered s)
    (h : Selects now s.queue task queue) : Ordered (s.takes w now task queue) := by
  have htaken : takenImmediate (s.takes w now task queue) =
      takenImmediate s ++ task.immediate?.toList := by
    change (s.taken ++ [(now, task)]).filterMap _ = _
    rw [List.filterMap_append]
    cases task with
    | delayed _ _ => rfl
    | immediate _ => rfl
  have hqueue : task.immediate?.toList ++ queue.q_ = s.queue.q_ := by
    cases h with
    | delayed _ _ _ _ => rfl
    | immediate _ _ hq => rw [hq]; rfl
  calc takenImmediate (s.takes w now task queue) ++ queue.q_
      = takenImmediate s ++ (task.immediate?.toList ++ queue.q_) := by
        rw [htaken, List.append_assoc]
    _ = s.dispatched := by rw [hqueue, ho]

theorem Ordered.step (ho : Ordered s) (h : Step s e t) : Ordered t := by
  cases Stepped.of_step h with
  | takes _ hs => exact ho.takes hs
  | dispatch _ _ =>
    change takenImmediate s ++ (s.queue.q_ ++ [s.submitted]) = s.dispatched ++ [s.submitted]
    rw [← List.append_assoc, ho]
  | _ => exact ho

section
variable {s t : State 1} {e : Event 1} {w : Fin 1}

def inHand : Phase → List Task
  | .running task => [task]
  | _ => []

def Serial (s : State 1) : Prop := ∀ w, s.taken.map Prod.snd = s.finished ++ inHand (s.threads_ w)

theorem Serial.moves {p phase : Phase} (hs : Serial s) (hw : s.threads_ w = p)
    (hp : inHand p = inHand phase) : Serial (s.moves w phase) := by
  intro v
  have hv := hs w
  rw [hw, hp] at hv
  rw [Subsingleton.elim v w, State.moves_self]
  exact hv

theorem Serial.notified {threads : Fin 1 → Phase} (hs : Serial s)
    (hn : Notified s.threads_ threads) : Serial { s with threads_ := threads } := by
  intro v
  have hv := hs v
  rcases hn.each v with hsame | ⟨hwaiting, hwoken⟩
  · change _ = _ ++ inHand (threads v)
    rw [hsame]
    exact hv
  · change _ = _ ++ inHand (threads v)
    rw [hwoken]
    rw [hwaiting] at hv
    exact hv

theorem Serial.step (hs : Serial s) (h : Step s e t) : Serial t := by
  cases Stepped.of_step h with
  | begins _ hw =>
    rcases hw with hw | hw
    · exact hs.moves hw rfl
    · exact hs.moves hw rfl
  | resumes _ hw => exact hs.moves hw rfl
  | ready hw _ => exact hs.moves hw rfl
  | blocks hw _ => exact hs.moves hw rfl
  | @takes w now top task queue hw hsel =>
    intro v
    have hv := hs w
    rw [hw] at hv
    change s.taken.map Prod.snd = s.finished ++ [] at hv
    rw [Subsingleton.elim v w, State.takes_self]
    change (s.taken ++ [(now, task)]).map Prod.snd = s.finished ++ [task]
    rw [List.map_append, hv, List.append_nil]
    rfl
  | passes hw => exact hs.moves hw rfl
  | again hw _ => exact hs.moves hw rfl
  | leaves hw _ => exact hs.moves hw rfl
  | @finish w task hw =>
    intro v
    have hv := hs w
    rw [hw] at hv
    rw [Subsingleton.elim v w, State.moves_self]
    change s.taken.map Prod.snd = (s.finished ++ [task]) ++ []
    rw [List.append_nil]
    exact hv
  | spurious hw => exact hs.moves hw rfl
  | dispatch _ hn => exact hs.notified hn
  | dispatch_after _ hn => exact hs.notified hn
  | quit _ => exact hs.notified notified_all

theorem Serial.finished_immediate (hs : Serial s) (ho : Ordered s) :
    s.finished.filterMap Task.immediate? <+: s.dispatched := by
  have htaken : takenImmediate s = (s.taken.map Prod.snd).filterMap Task.immediate? := by
    rw [List.filterMap_map]
    rfl
  rw [← ho, htaken, hs ⟨0, by decide⟩, List.filterMap_append, List.append_assoc]
  exact List.prefix_append _ _

end

/-- Before `quit_` is set and behind it, a function that was submitted is in `q_` or `pq_`,
with one worker or finished. -/
theorem function_exactlyOnce (run : Run Step (State.initial n) es s) :
    (∀ k < s.submitted, s.queue.q_.count k + (s.queue.pq_.map Prod.snd).count k +
      runningOn s k + finishedTimes s k = 1) ∧
    takenImmediate s ++ s.queue.q_ = s.dispatched ∧
    (n = 1 → s.finished.filterMap Task.immediate? <+: s.dispatched) := by
  have hstart : Ordered (State.initial n) := rfl
  have hordered : Ordered s := run.invariant (fun _ _ _ => Ordered.step) hstart
  refine ⟨?_, hordered, ?_⟩
  · intro k hk
    have hqueued := (placed run k).queued
    have hcarried := (placed run k).carried
    rw [List.count_eq_one_of_mem List.nodup_range (List.mem_range.mpr hk), queuedIn] at hqueued
    omega
  · intro hn
    subst hn
    have hserial : Serial s := run.invariant (fun _ _ _ => Serial.step) fun _ => rfl
    exact hserial.finished_immediate hordered

end

def threeSubmitted : List (Event 2) :=
  let first : Fin 2 := ⟨0, Nat.zero_lt_two⟩
  let second : Fin 2 := ⟨1, Nat.one_lt_two⟩
  [.dispatch none, .dispatch_after 3 none, .dispatch none, .lock first, .check first,
    .choose first 5 0, .lock second, .check second, .choose second 5 0, .finish second]

theorem function_exactlyOnce_three : ∃ s : State 2,
    Run Step (State.initial 2) threeSubmitted s ∧ s.submitted = 3 ∧
      (∀ k < s.submitted, s.queue.q_.count k + (s.queue.pq_.map Prod.snd).count k +
        runningOn s k + finishedTimes s k = 1) ∧
      takenImmediate s ++ s.queue.q_ = s.dispatched ∧
      (2 = 1 → s.finished.filterMap Task.immediate? <+: s.dispatched) := by
  have hend : ∃ s ∈ threeSubmitted.foldlM State.advance (State.initial 2), s.submitted = 3 := by
    decide +kernel
  obtain ⟨s, hs, hsubmitted⟩ := hend
  have run : Run Step (State.initial 2) threeSubmitted s := Run.iff_foldlM.mpr hs
  exact ⟨s, run, hsubmitted, function_exactlyOnce run⟩

end SwiftRobot.ExactlyOnce
