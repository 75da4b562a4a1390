import Mathlib.Data.List.Basic
import Mathlib.Tactic.Common

/-!
# Runs whose events are apart by a key

Every event has a key, and the state has a view for every key. An event changes the view of
its own key only, in a way that depends on nothing else. Then a run does to each view what
the events of that key do alone, however the events of other keys lie between them.
-/

namespace SwiftRobot

structure Apart (σ ε κ ν : Type) where
  step : σ → ε → Option σ
  key : ε → κ
  view : σ → κ → ν
  own : ν → ε → Option ν
  view_step : ∀ s e, (step s e).map (view · (key e)) = own (view s (key e)) e
  view_other : ∀ {s e t}, step s e = some t → ∀ {k}, k ≠ key e → view t k = view s k

namespace Apart
variable {σ ε κ ν : Type} (sys : Apart σ ε κ ν)

def run (s : σ) (es : List ε) : Option σ := es.foldlM sys.step s

section
variable {sys} {s : σ} {k : κ} {es : List ε}

theorem run_of_own (hkey : ∀ e ∈ es, sys.key e = k) {v : ν}
    (h : es.foldlM sys.own (sys.view s k) = some v) :
    ∃ t, sys.run s es = some t ∧ sys.view t k = v := by
  induction es generalizing s with
  | nil => exact ⟨s, rfl, Option.some.inj h⟩
  | cons e es ih =>
    obtain ⟨hk, hkeys⟩ := List.forall_mem_cons.mp hkey
    rw [List.foldlM_cons] at h
    obtain ⟨w, hown, hrest⟩ := Option.bind_eq_some_iff.mp h
    have hview := sys.view_step s e
    rw [hk, hown] at hview
    obtain ⟨u, hstep, rfl⟩ := Option.map_eq_some_iff.mp hview
    obtain ⟨t, hrun, hv⟩ := ih hkeys hrest
    refine ⟨t, ?_, hv⟩
    rw [run, List.foldlM_cons, hstep]
    exact hrun

end

section
variable [DecidableEq κ]

def stream (k : κ) (es : List ε) : List ε := es.filter fun e => sys.key e = k

variable {sys} {s t : σ} {k : κ} {es : List ε}

theorem view_of_run (h : sys.run s es = some t) :
    (sys.stream k es).foldlM sys.own (sys.view s k) = some (sys.view t k) := by
  induction es generalizing s with
  | nil =>
    rw [Option.some.inj h]
    rfl
  | cons e es ih =>
    rw [run, List.foldlM_cons] at h
    obtain ⟨u, hstep, hrest⟩ := Option.bind_eq_some_iff.mp h
    have hview := ih hrest
    by_cases hk : sys.key e = k
    · have hown := sys.view_step s e
      rw [hstep, Option.map_some, hk] at hown
      rw [stream, List.filter_cons_of_pos (by simpa using hk), List.foldlM_cons, ← hown]
      exact hview
    · rw [stream, List.filter_cons_of_neg (by simpa using hk),
        ← sys.view_other hstep (Ne.symm hk)]
      exact hview

end

end Apart
end SwiftRobot
