import SwiftRobot.ExactlyOnce

/-!
# Deadlines in order

No delayed function starts before its time point, an immediate one starts only when no
delayed one is due, and of two delayed functions in the queue the earlier one leaves it
first. The clock may read anything: nothing here needs it to be monotone.
-/

namespace SwiftRobot.DeadlineOrder
open DispatchThreads ExactlyOnce

section
variable {n : ℕ} {s t u : State n} {e : Event n} {es fs : List (Event n)} {w : Fin n}

theorem selects_of_choose {now top : ℕ} {task : Task} (h : Step s (.choose w now top) t)
    (hw : t.threads_ w = .running task) : Selects now s.queue task t.queue := by
  cases Stepped.of_step h with
  | takes _ hsel =>
    rw [State.takes_self, Phase.running.injEq] at hw
    exact hw ▸ hsel
  | passes _ =>
    rw [State.moves_self] at hw
    contradiction

theorem delayed_due {now time_point k : ℕ} {q r : DispatchQueue ℕ}
    (h : Selects now q (.delayed time_point k) r) :
    (time_point, k) ∈ q.pq_ ∧ time_point < now ∧ ∀ item ∈ q.pq_, time_point ≤ item.1 := by
  cases h with
  | delayed _ hpq htop hnow =>
    refine ⟨?_, hnow, fun _ => htop.least⟩
    rw [hpq]
    exact List.mem_append_right _ List.mem_cons_self

theorem immediate_none_due {now k : ℕ} {q r : DispatchQueue ℕ}
    (h : Selects now q (.immediate k) r) : ∀ item ∈ q.pq_, ¬ item.1 < now := by
  cases h with
  | immediate _ hdue _ => exact hdue

theorem Selects.keeps {now : ℕ} {q r : DispatchQueue ℕ} {task : Task} (h : Selects now q task r)
    {item : ℕ × ℕ} (hitem : item ∈ q.pq_) : item ∈ r.pq_ ∨ task = .delayed item.1 item.2 := by
  cases h with
  | delayed _ hpq _ _ =>
    rw [hpq, List.mem_append, List.mem_cons] at hitem
    rcases hitem with hbefore | rfl | hafter
    · exact Or.inl (List.mem_append_left _ hbefore)
    · exact Or.inr rfl
    · exact Or.inl (List.mem_append_right _ hafter)
  | immediate _ _ _ => exact Or.inl hitem

theorem step_taken (h : Step s e t) :
    (t.taken = s.taken ∧ ∀ item ∈ s.queue.pq_, item ∈ t.queue.pq_) ∨
    ∃ now task, t.taken = s.taken ++ [(now, task)] ∧ Selects now s.queue task t.queue := by
  cases Stepped.of_step h with
  | takes _ hsel => exact Or.inr ⟨_, _, rfl, hsel⟩
  | dispatch_after _ _ => exact Or.inl ⟨rfl, fun _ => List.mem_append_left _⟩
  | _ => exact Or.inl ⟨rfl, fun _ => id⟩

def Due (s : State n) : Prop :=
  ∀ now time_point k, (now, .delayed time_point k) ∈ s.taken → time_point < now

theorem Due.step (hd : Due s) (h : Step s e t) : Due t := by
  intro now time_point k htaken
  rcases step_taken h with ⟨hsame, -⟩ | ⟨now', task, happ, hsel⟩
  · rw [hsame] at htaken
    exact hd _ _ _ htaken
  · rw [happ, List.mem_append, List.mem_singleton] at htaken
    rcases htaken with hold | hnew
    · exact hd _ _ _ hold
    · obtain ⟨rfl, rfl⟩ := Prod.mk.inj hnew
      exact (delayed_due hsel).2.1

/-- Of the two items the first is in the queue or taken, and taken before the second. -/
structure Precedes (first second : ℕ × ℕ) (s : State n) : Prop where
  waits : first ∈ s.queue.pq_ ∨ ∃ now, (now, .delayed first.1 first.2) ∈ s.taken
  before : ∀ before after now, s.taken = before ++ (now, .delayed second.1 second.2) :: after →
    ∃ now', (now', .delayed first.1 first.2) ∈ before

theorem Precedes.step {first second : ℕ × ℕ} (hlt : first.1 < second.1)
    (hp : Precedes first second s) (h : Step s e t) : Precedes first second t := by
  rcases step_taken h with ⟨hsame, hkeeps⟩ | ⟨now, task, happ, hsel⟩
  · refine ⟨?_, hsame ▸ hp.before⟩
    rw [hsame]
    exact hp.waits.imp_left (hkeeps first)
  · constructor
    · rw [happ]
      rcases hp.waits with hwaits | ⟨now', htaken⟩
      · refine (Selects.keeps hsel hwaits).imp_right fun htask => ⟨now, ?_⟩
        rw [htask]
        exact List.mem_append_right _ List.mem_cons_self
      · exact Or.inr ⟨now', List.mem_append_left _ htaken⟩
    · intro before after now' hsplit
      rw [happ] at hsplit
      rcases List.eq_nil_or_concat after with rfl | ⟨after, last, rfl⟩
      · -- the second item is the one taken now, so that the first is no longer in the queue
        obtain ⟨rfl, hlast⟩ := List.append_inj' hsplit rfl
        obtain ⟨rfl, rfl⟩ := Prod.mk.inj (List.cons.inj hlast).1
        refine hp.waits.resolve_left fun hwaits => ?_
        have hle := (delayed_due hsel).2.2 first hwaits
        omega
      · rw [List.concat_eq_append, ← List.cons_append, ← List.append_assoc] at hsplit
        exact hp.before _ _ _ (List.append_inj' hsplit rfl).1

theorem precedes (run : Run Step (State.initial n) es s) {first second : ℕ × ℕ}
    (hfirst : first ∈ s.queue.pq_) (hsecond : second ∈ s.queue.pq_) : Precedes first second s := by
  refine ⟨Or.inl hfirst, ?_⟩
  intro before after now htaken
  have hmem : (now, Task.delayed second.1 second.2) ∈ s.taken := by
    rw [htaken]
    exact List.mem_append_right _ List.mem_cons_self
  have hnone := not_queued_of_taken run hmem
  have hcount : 0 < (s.queue.pq_.map Prod.snd).count second.2 :=
    List.count_pos_iff.mpr (List.mem_map_of_mem hsecond)
  rw [queuedIn, Task.function] at hnone
  omega

theorem deadline_order (run : Run Step (State.initial n) es s) :
    (∀ w now top t time_point k, Step s (.choose w now top) t →
      t.threads_ w = .running (.delayed time_point k) →
      (time_point, k) ∈ s.queue.pq_ ∧ time_point < now ∧
        ∀ item ∈ s.queue.pq_, time_point ≤ item.1) ∧
    (∀ w now top t k, Step s (.choose w now top) t → t.threads_ w = .running (.immediate k) →
      ∀ item ∈ s.queue.pq_, ¬ item.1 < now) ∧
    (∀ now time_point k, (now, .delayed time_point k) ∈ s.taken → time_point < now) ∧
    ∀ first ∈ s.queue.pq_, ∀ second ∈ s.queue.pq_, first.1 < second.1 → ∀ fs u, Run Step s fs u →
      ∀ before after now, u.taken = before ++ (now, .delayed second.1 second.2) :: after →
        ∃ now', (now', .delayed first.1 first.2) ∈ before := by
  refine ⟨?_, ?_, ?_, ?_⟩
  · intro w now top t time_point k h hw
    exact delayed_due (selects_of_choose h hw)
  · intro w now top t k h hw
    exact immediate_none_due (selects_of_choose h hw)
  · have hnone : Due (State.initial n) := fun _ _ _ h => absurd h List.not_mem_nil
    have hdue : Due s := run.invariant (fun _ _ _ => Due.step) hnone
    exact hdue
  · intro first hfirst second hsecond hlt fs u hrun
    have hp : Precedes first second u :=
      hrun.invariant (fun _ _ _ => Precedes.step hlt) (precedes run hfirst hsecond)
    exact hp.before

end

def twoDelayed : List (Event 2) := [.dispatch_after 4 none, .dispatch_after 3 none]

theorem deadline_order_two : ∃ s : State 2, Run Step (State.initial 2) twoDelayed s ∧
    s.queue.pq_ = [(4, 0), (3, 1)] ∧ ∀ fs u, Run Step s fs u → ∀ before after now,
      u.taken = before ++ (now, .delayed 4 0) :: after →
        ∃ now', (now', .delayed 3 1) ∈ before := by
  have hend : ∃ s ∈ twoDelayed.foldlM State.advance (State.initial 2),
      s.queue.pq_ = [(4, 0), (3, 1)] := by
    decide +kernel
  obtain ⟨s, hs, hpq⟩ := hend
  have run : Run Step (State.initial 2) twoDelayed s := Run.iff_foldlM.mpr hs
  obtain ⟨-, -, -, horder⟩ := deadline_order run
  exact ⟨s, run, hpq, horder (3, 1) (by simp [hpq]) (4, 0) (by simp [hpq]) (by decide)⟩

def bothTaken : List (Event 2) :=
  let first : Fin 2 := ⟨0, Nat.zero_lt_two⟩
  let second : Fin 2 := ⟨1, Nat.one_lt_two⟩
  twoDelayed ++ [.lock first, .check first, .choose first 5 1, .lock second, .check second,
    .choose second 5 0]

example : ∃ s ∈ bothTaken.foldlM State.advance (State.initial 2),
    s.taken = [(5, .delayed 3 1), (5, .delayed 4 0)] := by
  decide +kernel

end SwiftRobot.DeadlineOrder
