import SwiftRobot.DispatchThreads
import Mathlib.Data.Finset.Max
import Mathlib.Data.List.Count

/-!
# Wake-ups and the shutdown of the dispatch queue

One `notify_one` for a submission is enough: no step leaves work in the queue and every
worker blocked. Once `quit_` is set nobody blocks and nothing is taken, and every worker
is a fixed number of its own steps away from its exit.
-/

namespace SwiftRobot.WakeUps
open DispatchThreads Mutex

section
variable {n : ℕ} {s t u : State n} {e : Event n} {es fs : List (Event n)} {w : Fin n}

def Pending (s : State n) : Prop := s.queue.q_ ≠ [] ∨ s.queue.pq_ ≠ []

def Event.worker? : Event n → Option (Fin n)
  | .lock w | .check w | .choose w _ _ | .loop w | .finish w | .spurious w => some w
  | .dispatch _ | .dispatch_after _ _ | .quit => none

theorem Notified.awake {a b : Fin n → Phase} (h : Notified a b) (w : Fin n) :
    ∃ v, b v ≠ .waiting := by
  by_cases hw : a w = .waiting
  · obtain ⟨v, hv⟩ := h.wakes ⟨w, hw⟩
    exact ⟨v, by rw [hv]; exact Phase.noConfusion⟩
  · rcases h.each w with hsame | ⟨hwaiting, -⟩
    · exact ⟨w, hsame ▸ hw⟩
    · exact absurd hwaiting hw

theorem moves_awake {phase : Phase} (h : phase ≠ .waiting) :
    ∃ v, (s.moves w phase).threads_ v ≠ .waiting :=
  ⟨w, by rw [State.moves_self]; exact h⟩

theorem step_awake (hn : 0 < n) (h : Step s e t) :
    (∃ w, t.threads_ w ≠ .waiting) ∨ ¬ Pending t := by
  cases Stepped.of_step h with
  | begins _ _ => exact Or.inl (moves_awake (by decide))
  | resumes _ _ => exact Or.inl (moves_awake (by decide))
  | ready _ _ => exact Or.inl (moves_awake (by decide))
  | blocks _ hready =>
    right
    intro hpending
    apply hready
    rcases hpending with hq | hpq
    · exact Or.inl hq
    · exact Or.inr (Or.inl hpq)
  | @takes w now top task queue _ _ =>
    exact Or.inl ⟨w, by rw [State.takes_self]; exact Phase.noConfusion⟩
  | passes _ => exact Or.inl (moves_awake (by decide))
  | again _ _ => exact Or.inl (moves_awake (by decide))
  | leaves _ _ => exact Or.inl (moves_awake (by decide))
  | finish _ => exact Or.inl (moves_awake (by decide))
  | spurious _ => exact Or.inl (moves_awake (by decide))
  | dispatch _ hnotified => exact Or.inl (Notified.awake hnotified ⟨0, hn⟩)
  | dispatch_after _ hnotified => exact Or.inl (Notified.awake hnotified ⟨0, hn⟩)
  | quit _ => exact Or.inl (Notified.awake notified_all ⟨0, hn⟩)

theorem awake (hn : 0 < n) (run : Run Step (State.initial n) es s) :
    (∃ w, s.threads_ w ≠ .waiting) ∨ ¬ Pending s := by
  refine run.invariant (I := fun s => (∃ w, s.threads_ w ≠ .waiting) ∨ ¬ Pending s)
    (fun _ _ _ _ => step_awake hn) ?_
  exact Or.inl ⟨⟨0, hn⟩, by exact Phase.noConfusion⟩

theorem guarded_notified {a b : Fin n → Phase} {lock_ : Option (Fin n)} (h : Notified a b)
    (hg : Guarded Phase.Inside a lock_) : Guarded Phase.Inside b lock_ := by
  intro w
  rcases h.each w with hw | ⟨ha, hb⟩
  · rw [hw]
    exact hg w
  · have hw := hg w
    rw [ha] at hw
    rw [hb]
    exact hw

theorem guarded_step (hg : Guarded Phase.Inside s.threads_ s.lock_) (h : Step s e t) :
    Guarded Phase.Inside t.threads_ t.lock_ := by
  cases Stepped.of_step h with
  | begins hlock _ =>
    rw [hlock] at hg
    exact hg.acquire trivial
  | resumes hlock _ =>
    rw [hlock] at hg
    exact hg.acquire trivial
  | ready hw _ => exact hg.moves hw Iff.rfl
  | blocks hw _ => exact hg.release hw trivial id
  | takes hw _ => exact hg.release hw trivial id
  | passes hw => exact hg.moves hw Iff.rfl
  | again hw _ => exact hg.moves hw Iff.rfl
  | leaves hw _ => exact hg.release hw trivial id
  | finish hw => exact hg.moves hw Iff.rfl
  | spurious hw => exact hg.moves hw Iff.rfl
  | dispatch _ hn => exact guarded_notified hn hg
  | dispatch_after _ hn => exact guarded_notified hn hg
  | quit _ => exact guarded_notified notified_all hg

theorem guarded (run : Run Step (State.initial n) es s) :
    Guarded Phase.Inside s.threads_ s.lock_ := by
  refine run.invariant (I := fun s => Guarded Phase.Inside s.threads_ s.lock_)
    (fun _ _ _ => guarded_step) ?_
  intro w
  exact ⟨False.elim, fun h => by contradiction⟩

theorem exists_isTop {pq : List (ℕ × ℕ)} (h : pq ≠ []) : ∃ item ∈ pq, IsTop pq item := by
  obtain ⟨item, hitem, hleast⟩ :=
    pq.toFinset.exists_min_image Prod.fst (List.toFinset_nonempty_iff pq |>.mpr h)
  refine ⟨item, List.mem_toFinset.mp hitem, ?_⟩
  intro other hother
  exact Nat.not_lt_of_le (hleast other (List.mem_toFinset.mpr hother))

theorem choose_isSome (now : ℕ) : ∃ top t, s.choose w now top = some t := by
  unfold State.choose
  split_ifs with hquit
  · exact ⟨0, _, rfl⟩
  · cases hpq : s.queue.pq_ with
    | nil => exact ⟨0, _, rfl⟩
    | cons first rest =>
      obtain ⟨item, hitem, htop⟩ := exists_isTop (List.cons_ne_nil first rest)
      obtain ⟨top, hget⟩ := List.getElem?_of_mem hitem
      by_cases hnow : item.1 < now
      · exact ⟨top, _, by simp only [hget, Option.bind_some, if_pos htop, if_pos hnow]; rfl⟩
      · exact ⟨top, _, by simp only [hget, Option.bind_some, if_pos htop, if_neg hnow]; rfl⟩

theorem inside_steps (hw : (s.threads_ w).Inside) :
    ∃ e t, Event.worker? e = some w ∧ Step s e t := by
  cases hphase : s.threads_ w with
  | checking => exact ⟨.check w, _, rfl, by rw [Step, State.advance, if_pos hphase]⟩
  | choosing =>
    obtain ⟨top, t, ht⟩ := choose_isSome (s := s) (w := w) 0
    exact ⟨.choose w 0 top, t, rfl, by rw [Step, State.advance, if_pos hphase, ht]⟩
  | looping => exact ⟨.loop w, _, rfl, by rw [Step, State.advance, if_pos hphase]⟩
  | _ => exact absurd hw (by rw [hphase]; exact id)

/-- A worker that is neither blocked nor gone can take a step, or waits for the lock of one
that can. -/
theorem goes_on (hg : Guarded Phase.Inside s.threads_ s.lock_) (hwaiting : s.threads_ w ≠ .waiting)
    (hexited : s.threads_ w ≠ .exited) :
    ∃ v e t, Event.worker? e = some v ∧ Step s e t ∧ (v = w ∨ s.lock_ = some v) := by
  have howner : ∀ v, s.lock_ = some v →
      ∃ v e t, Event.worker? e = some v ∧ Step s e t ∧ (v = w ∨ s.lock_ = some v) := by
    intro v hv
    obtain ⟨e, t, he, h⟩ := inside_steps ((hg v).mpr hv)
    exact ⟨v, e, t, he, h, Or.inr hv⟩
  have hlocks : (∃ t, s.lock w = some t) →
      ∃ v e t, Event.worker? e = some v ∧ Step s e t ∧ (v = w ∨ s.lock_ = some v) := by
    intro ⟨t, ht⟩
    cases hlock : s.lock_ with
    | some v => exact hlock ▸ howner v hlock
    | none => exact ⟨w, .lock w, t, rfl, by rw [Step, State.advance, if_pos hlock, ht], Or.inl rfl⟩
  cases hphase : s.threads_ w with
  | starting => exact hlocks ⟨_, by rw [State.lock, hphase]⟩
  | woken => exact hlocks ⟨_, by rw [State.lock, hphase]⟩
  | returning => exact hlocks ⟨_, by rw [State.lock, hphase]⟩
  | running task => exact ⟨w, .finish w, _, rfl, by rw [Step, State.advance, hphase], Or.inl rfl⟩
  | waiting => exact absurd hphase hwaiting
  | exited => exact absurd hphase hexited
  | checking | choosing | looping =>
    have hinside : (s.threads_ w).Inside := by
      rw [hphase]
      trivial
    exact howner w ((hg w).mp hinside)

/-- The steps that a worker has left to its exit once `quit_` is set. -/
def left : Phase → ℕ
  | .exited => 0
  | .looping => 1
  | .choosing | .returning => 2
  | .checking | .running _ => 3
  | .starting | .woken => 4
  | .waiting => 5

theorem left_eq_zero {phase : Phase} : left phase = 0 ↔ phase = .exited := by
  cases phase <;> simp [left]

structure Quitting (s : State n) : Prop where
  quit : s.queue.quit_ = true
  awake : ∀ w, s.threads_ w ≠ .waiting

theorem Quitting.notified {threads : Fin n → Phase} (hq : Quitting s)
    (hn : Notified s.threads_ threads) : threads = s.threads_ := by
  funext w
  rcases hn.each w with hsame | ⟨hwaiting, -⟩
  · exact hsame
  · exact absurd hwaiting (hq.awake w)

def Nearer (a b : Fin n → Phase) : Option (Fin n) → Prop
  | none => b = a
  | some w => ∃ phase, b = Function.update a w phase ∧ phase ≠ .waiting ∧
      left phase + 1 = left (a w)

theorem Quitting.moves (hq : Quitting s) (h : Step s e t) :
    t.queue.quit_ = true ∧ t.taken = s.taken ∧
      Nearer s.threads_ t.threads_ (Event.worker? e) := by
  have hquit := hq.quit
  cases Stepped.of_step h with
  | begins _ hw =>
    refine ⟨hquit, rfl, _, rfl, by decide, ?_⟩
    rcases hw with hw | hw <;> rw [hw] <;> rfl
  | resumes _ hw => exact ⟨hquit, rfl, _, rfl, by decide, by rw [hw]; rfl⟩
  | ready hw _ => exact ⟨hquit, rfl, _, rfl, by decide, by rw [hw]; rfl⟩
  | blocks _ hready => exact absurd (Or.inr (Or.inr hquit)) hready
  | takes _ hsel =>
    rw [hsel.not_quit.1] at hquit
    contradiction
  | passes hw => exact ⟨hquit, rfl, _, rfl, by decide, by rw [hw]; rfl⟩
  | again _ hnot =>
    rw [hnot] at hquit
    contradiction
  | leaves hw _ => exact ⟨hquit, rfl, _, rfl, by decide, by rw [hw]; rfl⟩
  | finish hw => exact ⟨hquit, rfl, _, rfl, by decide, by rw [hw]; rfl⟩
  | spurious hw => exact absurd hw (hq.awake _)
  | dispatch _ hn => exact ⟨hquit, rfl, hq.notified hn⟩
  | dispatch_after _ hn => exact ⟨hquit, rfl, hq.notified hn⟩
  | quit _ => exact ⟨rfl, rfl, hq.notified notified_all⟩

theorem Nearer.awake {a b : Fin n → Phase} {o : Option (Fin n)} (h : Nearer a b o)
    (ha : ∀ w, a w ≠ .waiting) : ∀ w, b w ≠ .waiting := by
  intro w
  cases o with
  | none => exact (congrFun h w).symm ▸ ha w
  | some v =>
    obtain ⟨phase, rfl, hphase, -⟩ := h
    rw [Function.update_apply]
    split_ifs
    · exact hphase
    · exact ha w

theorem Nearer.left {a b : Fin n → Phase} {o : Option (Fin n)} (h : Nearer a b o) (w : Fin n) :
    left (b w) + o.toList.count w = left (a w) := by
  cases o with
  | none => exact congrArg WakeUps.left (congrFun h w)
  | some v =>
    obtain ⟨phase, rfl, -, hleft⟩ := h
    rw [Option.toList_some, Function.update_apply]
    split_ifs with hw
    · rw [hw, List.count_singleton_self, hleft]
    · rw [List.count_singleton, if_neg (by simpa using Ne.symm hw), Nat.add_zero]

theorem Quitting.step (hq : Quitting s) (h : Step s e t) : Quitting t := by
  obtain ⟨hquit, -, hnearer⟩ := hq.moves h
  exact ⟨hquit, hnearer.awake hq.awake⟩

theorem Quitting.of_step (hs : s.queue.quit_ = true → Quitting s) (h : Step s e t)
    (ht : t.queue.quit_ = true) : Quitting t := by
  have hback : t.queue.quit_ = s.queue.quit_ → Quitting t := fun hsame =>
    (hs (hsame.symm.trans ht)).step h
  cases Stepped.of_step h with
  | @takes w now top task queue _ hsel =>
    have hquit : queue.quit_ = true := ht
    rw [hsel.not_quit.2] at hquit
    contradiction
  | quit _ =>
    refine ⟨ht, fun w => ?_⟩
    by_cases hw : s.threads_ w = .waiting <;> simp [State.quit, State.notify_all, hw]
  | _ => exact hback rfl

theorem quitting (run : Run Step (State.initial n) es s) (hquit : s.queue.quit_ = true) :
    Quitting s := by
  refine run.invariant (I := fun s => s.queue.quit_ = true → Quitting s)
    (fun _ _ _ hs h => Quitting.of_step hs h) ?_ hquit
  intro h
  contradiction

def ownSteps (fs : List (Event n)) (w : Fin n) : ℕ := (fs.filterMap Event.worker?).count w

/-- A run from a state in which `quit_` is set. -/
structure Shutdown (s : State n) (fs : List (Event n)) (u : State n) : Prop where
  quitting : Quitting u
  taken : u.taken = s.taken
  left : ∀ w, left (u.threads_ w) + ownSteps fs w = left (s.threads_ w)

theorem Shutdown.of_run (hq : Quitting s) (run : Run Step s fs u) : Shutdown s fs u := by
  refine run.history_invariant (I := Shutdown s) ?_ ⟨hq, rfl, fun _ => rfl⟩
  intro fs t e u hs h
  obtain ⟨hquit, htaken, hnearer⟩ := hs.quitting.moves h
  refine ⟨⟨hquit, hnearer.awake hs.quitting.awake⟩, htaken.trans hs.taken, fun w => ?_⟩
  have hown : ownSteps (fs ++ [e]) w = ownSteps fs w + (Event.worker? e).toList.count w := by
    rw [ownSteps, List.filterMap_append, List.count_append, ownSteps]
    cases he : Event.worker? e with
    | none => rw [List.filterMap_cons_none he, List.filterMap_nil, Option.toList_none]
    | some v => rw [List.filterMap_cons_some he, List.filterMap_nil, Option.toList_some]
  have hleft := hs.left w
  have hstep := hnearer.left w
  omega

/-- Work in the queue never meets a row of blocked workers, and behind `quit_ = true` every
worker's own steps lead to its exit. -/
theorem no_lost_wakeup (run : Run Step (State.initial n) es s) (hn : 0 < n) :
    ¬ (Pending s ∧ ∀ w, s.threads_ w = .waiting) ∧
    (s.queue.quit_ = true → ∀ fs u, Run Step s fs u →
      u.taken = s.taken ∧ (∀ w, u.threads_ w ≠ .waiting) ∧
      ∀ w, ownSteps fs w ≤ left (s.threads_ w) ∧
        (u.threads_ w = .exited ↔ ownSteps fs w = left (s.threads_ w)) ∧
        (u.threads_ w ≠ .exited →
          ∃ v e t, Event.worker? e = some v ∧ Step u e t ∧ (v = w ∨ u.lock_ = some v))) := by
  constructor
  · rintro ⟨hpending, hall⟩
    rcases awake hn run with ⟨w, hw⟩ | hnone
    · exact hw (hall w)
    · exact hnone hpending
  · intro hquit fs u hrun
    have hs := Shutdown.of_run (quitting run hquit) hrun
    refine ⟨hs.taken, hs.quitting.awake, fun w => ?_⟩
    have hleft := hs.left w
    refine ⟨by omega, ?_, goes_on (guarded (run.append hrun)) (hs.quitting.awake w)⟩
    rw [← left_eq_zero]
    omega

end
def oneBlocked : List (Event 2) :=
  let first : Fin 2 := ⟨0, Nat.zero_lt_two⟩
  let second : Fin 2 := ⟨1, Nat.one_lt_two⟩
  [.dispatch none, .lock first, .check first, .choose first 0 0, .lock second, .check second,
    .dispatch (some second), .quit]

theorem no_lost_wakeup_oneBlocked : ∃ s : State 2, Run Step (State.initial 2) oneBlocked s ∧
    Pending s ∧ s.queue.quit_ = true ∧ ¬ (Pending s ∧ ∀ w, s.threads_ w = .waiting) ∧
    ∀ fs u, Run Step s fs u → u.taken = s.taken ∧ (∀ w, u.threads_ w ≠ .waiting) ∧
      ∀ w, ownSteps fs w ≤ left (s.threads_ w) ∧
        (u.threads_ w = .exited ↔ ownSteps fs w = left (s.threads_ w)) ∧
        (u.threads_ w ≠ .exited →
          ∃ v e t, Event.worker? e = some v ∧ Step u e t ∧ (v = w ∨ u.lock_ = some v)) := by
  have hend : ∃ s ∈ oneBlocked.foldlM State.advance (State.initial 2),
      s.queue.q_ = [1] ∧ s.queue.quit_ = true := by
    decide +kernel
  obtain ⟨s, hs, hq, hquit⟩ := hend
  have run : Run Step (State.initial 2) oneBlocked s := Run.iff_foldlM.mpr hs
  obtain ⟨hawake, hshutdown⟩ := no_lost_wakeup run (by decide)
  exact ⟨s, run, Or.inl (by simp [hq]), hquit, hawake, hshutdown hquit⟩

end SwiftRobot.WakeUps
