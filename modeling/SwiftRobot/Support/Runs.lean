import Mathlib.Data.List.Induction
import Mathlib.Tactic.Common

/-!
# Runs of a step relation

A run is a list of events, oldest first, that leads from one state to another.
Every invariant of a system in this development is proved through
`Run.invariant`, and every relation between the two ends through `Run.relates`.
-/

namespace SwiftRobot

inductive Run {σ ε : Type} (step : σ → ε → σ → Prop) (s : σ) : List ε → σ → Prop
  | nil : Run step s [] s
  | snoc {es : List ε} {t u : σ} {e : ε} : Run step s es t → step t e u → Run step s (es ++ [e]) u

namespace Run
variable {σ ε : Type} {step : σ → ε → σ → Prop} {s t u : σ} {es fs : List ε}

theorem invariant {I : σ → Prop} (hstep : ∀ t e u, I t → step t e u → I u) (hs : I s)
    (run : Run step s es u) : I u := by
  induction run with
  | nil => exact hs
  | snoc _ h ih => exact hstep _ _ _ ih h

theorem history_invariant {I : List ε → σ → Prop}
    (hstep : ∀ es t e u, I es t → step t e u → I (es ++ [e]) u) (hs : I [] s)
    (run : Run step s es u) : I es u := by
  induction run with
  | nil => exact hs
  | snoc _ h ih => exact hstep _ _ _ _ ih h

theorem relates {R : σ → σ → Prop} (hrefl : ∀ t, R t t)
    (htrans : ∀ {t u v}, R t u → R u v → R t v) (hstep : ∀ t e u, step t e u → R t u)
    (run : Run step s es u) : R s u := by
  induction run with
  | nil => exact hrefl s
  | snoc _ h ih => exact htrans ih (hstep _ _ _ h)

theorem length_le {m : σ → ℕ} (hstep : ∀ t e u, step t e u → m u < m t) (run : Run step s es u) :
    es.length + m u ≤ m s := by
  induction run with
  | nil => simp
  | snoc _ h ih =>
    have hlt := hstep _ _ _ h
    rw [List.length_append, List.length_singleton]
    omega

theorem mono {step' : σ → ε → σ → Prop} (hle : ∀ t e u, step t e u → step' t e u)
    (run : Run step s es u) : Run step' s es u := by
  induction run with
  | nil => exact .nil
  | snoc _ h ih => exact ih.snoc (hle _ _ _ h)

theorem restrict {p : ε → Prop} (hp : ∀ e ∈ es, p e) (run : Run step s es u) :
    Run (fun t e u => step t e u ∧ p e) s es u := by
  induction run with
  | nil => exact .nil
  | snoc _ h ih =>
    exact (ih fun e he => hp e (List.mem_append_left _ he)).snoc ⟨h, hp _ (by simp)⟩

theorem append (h₁ : Run step s es t) (h₂ : Run step t fs u) : Run step s (es ++ fs) u := by
  induction h₂ with
  | nil => simpa using h₁
  | snoc _ h ih =>
    rw [← List.append_assoc]
    exact ih.snoc h

theorem simulates {τ φ : Type} {step' : τ → φ → τ → Prop} {R : σ → τ → Prop}
    (hstep : ∀ t e u t', R t t' → step t e u → ∃ fs u', Run step' t' fs u' ∧ R u u') {s' : τ}
    (hs : R s s') (run : Run step s es u) : ∃ fs u', Run step' s' fs u' ∧ R u u' := by
  induction run with
  | nil => exact ⟨[], s', .nil, hs⟩
  | snoc _ h ih =>
    obtain ⟨fs, t', run', ht⟩ := ih
    obtain ⟨fs', u', run'', hu⟩ := hstep _ _ _ _ ht h
    exact ⟨fs ++ fs', u', run'.append run'', hu⟩

theorem single {e : ε} (h : step s e t) : Run step s [e] t := by
  have hnil : Run step s [] s := .nil
  exact hnil.snoc h

theorem nil_iff : Run step s [] t ↔ s = t := by
  constructor
  · intro run
    generalize hes : ([] : List ε) = es at run
    cases run with
    | nil => rfl
    | snoc _ _ => simp at hes
  · rintro rfl
    exact .nil

theorem snoc_iff {e : ε} : Run step s (es ++ [e]) u ↔ ∃ t, Run step s es t ∧ step t e u := by
  constructor
  · intro run
    generalize hfs : es ++ [e] = fs at run
    cases run with
    | nil => simp at hfs
    | snoc h hs =>
      obtain ⟨rfl, he⟩ := List.append_inj' hfs rfl
      cases he
      exact ⟨_, h, hs⟩
  · rintro ⟨t, run, h⟩
    exact run.snoc h

theorem append_iff : Run step s (es ++ fs) u ↔ ∃ t, Run step s es t ∧ Run step t fs u := by
  constructor
  · intro run
    induction fs using List.reverseRecOn generalizing u with
    | nil => exact ⟨u, by simpa using run, .nil⟩
    | append_singleton fs e ih =>
      rw [← List.append_assoc, snoc_iff] at run
      obtain ⟨v, run, h⟩ := run
      obtain ⟨t, h₁, h₂⟩ := ih run
      exact ⟨t, h₁, h₂.snoc h⟩
  · rintro ⟨t, h₁, h₂⟩
    exact h₁.append h₂

theorem cons_iff {e : ε} : Run step s (e :: es) u ↔ ∃ t, step s e t ∧ Run step t es u := by
  rw [← List.singleton_append, append_iff]
  refine exists_congr fun t => and_congr_left fun _ => ?_
  rw [← List.nil_append [e], snoc_iff]
  simp only [nil_iff, exists_eq_left']

theorem iff_foldlM {f : σ → ε → Option σ} :
    Run (fun s e u => f s e = some u) s es u ↔ es.foldlM f s = some u := by
  induction es using List.reverseRecOn generalizing u with
  | nil => simp [nil_iff]
  | append_singleton es e ih =>
    rw [snoc_iff, List.foldlM_append]
    simp only [ih, List.foldlM_cons, List.foldlM_nil, Option.bind_eq_bind,
      Option.bind_eq_some_iff, Option.pure_def, Option.some.injEq, exists_eq_right]

theorem relates_of_foldlM {R : σ → σ → Prop} {f : σ → ε → Option σ} (hrefl : ∀ t, R t t)
    (htrans : ∀ {t u v}, R t u → R u v → R t v)
    (hstep : ∀ e ∈ es, ∀ t u, f t e = some u → R t u) (h : es.foldlM f s = some u) : R s u := by
  have run := (iff_foldlM.mpr h).restrict fun _ he => he
  exact run.relates hrefl htrans fun t e u hs => hstep e hs.2 t u hs.1

theorem holds_of_foldlM {f : σ → ε → Option σ} {P : σ → ε → Prop} [hP : ∀ s e, Decidable (P s e)]
    (h : (es.foldlM (fun s e => if P s e then f s e else none) s).isSome) {e : ε}
    (hfs : fs ++ [e] <+: es) (run : Run (fun s e u => f s e = some u) s fs t) : P t e := by
  induction fs generalizing s es with
  | nil =>
    obtain ⟨rest, rfl⟩ := hfs
    obtain rfl := nil_iff.mp run
    by_contra hnot
    simp [hnot] at h
  | cons e' fs ih =>
    obtain ⟨rest, rfl⟩ := hfs
    obtain ⟨s', hs, run⟩ := cons_iff.mp run
    rw [List.cons_append, List.cons_append, List.foldlM_cons] at h
    split_ifs at h
    · rw [hs] at h
      exact ih h (List.prefix_append _ _) run
    · contradiction

theorem visited_of_foldlM {f : σ → ε → Option σ} {P : σ → Prop} [DecidablePred P] (hs : P s)
    (h : (es.foldlM (fun s e => (f s e).filter P) s).isSome) (hfs : fs <+: es)
    (run : Run (fun s e u => f s e = some u) s fs t) : P t := by
  induction fs generalizing s es with
  | nil =>
    obtain rfl := nil_iff.mp run
    exact hs
  | cons e fs ih =>
    obtain ⟨rest, rfl⟩ := hfs
    obtain ⟨s', hstep, run⟩ := cons_iff.mp run
    rw [List.cons_append, List.foldlM_cons, hstep] at h
    by_cases hP : P s'
    · rw [Option.filter_some, if_pos (decide_eq_true hP)] at h
      exact ih hP h (List.prefix_append _ _) run
    · rw [Option.filter_some, if_neg (by simpa using hP)] at h
      contradiction

/-- A state that some first part of the run leads to. -/
def Visits (step : σ → ε → σ → Prop) (s : σ) (es : List ε) (t : σ) : Prop :=
  ∃ fs, fs <+: es ∧ Run step s fs t

theorem Visits.invariant {I : σ → Prop} (hstep : ∀ t e u, I t → step t e u → I u) (hs : I s)
    (h : Visits step s es t) : I t := by
  obtain ⟨fs, -, run⟩ := h
  exact run.invariant hstep hs

def Takes (step : σ → ε → σ → Prop) (s : σ) (es : List ε) (t : σ) (e : ε) (u : σ) : Prop :=
  ∃ fs, fs ++ [e] <+: es ∧ Run step s fs t ∧ step t e u

theorem Takes.visits {e : ε} (h : Takes step s es t e u) : Visits step s es u := by
  obtain ⟨fs, hfs, run, hs⟩ := h
  exact ⟨fs ++ [e], hfs, run.snoc hs⟩

theorem Takes.holds {e : ε} (h : Takes step s es t e u) : step t e u := by
  obtain ⟨fs, -, -, hs⟩ := h
  exact hs

theorem Visits.invariant_of_takes {I : σ → Prop} (hs : I s)
    (hstep : ∀ t e u, Takes step s es t e u → I t → I u) (h : Visits step s es t) : I t := by
  obtain ⟨fs, hfs, run⟩ := h
  induction run with
  | nil => exact hs
  | snoc run hlast ih =>
    exact hstep _ _ _ ⟨_, hfs, run, hlast⟩ (ih ((List.prefix_append _ _).trans hfs))

theorem history_invariant_of_takes {I : List ε → σ → Prop} (hs : I [] s)
    (hstep : ∀ fs t e u, fs ++ [e] <+: es → Run step s fs t → step t e u → I fs t → I (fs ++ [e]) u)
    (hfs : fs <+: es) (run : Run step s fs t) : I fs t := by
  induction run with
  | nil => exact hs
  | snoc run hlast ih =>
    exact hstep _ _ _ _ hfs run hlast (ih ((List.prefix_append _ _).trans hfs))

end Run

def Reachable {σ ε : Type} (step : σ → ε → σ → Prop) (init : σ → Prop) (s : σ) : Prop :=
  ∃ s₀ es, init s₀ ∧ Run step s₀ es s

theorem Reachable.invariant {σ ε : Type} {step : σ → ε → σ → Prop} {init : σ → Prop} {s : σ}
    {I : σ → Prop} (hinit : ∀ s, init s → I s) (hstep : ∀ t e u, I t → step t e u → I u)
    (h : Reachable step init s) : I s := by
  obtain ⟨s₀, es, h₀, run⟩ := h
  exact run.invariant hstep (hinit s₀ h₀)

end SwiftRobot
