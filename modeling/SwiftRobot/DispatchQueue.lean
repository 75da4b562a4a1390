import Mathlib.Data.List.Basic
import Mathlib.Tactic.Common

/-!
# The dispatch queue

`dispatch_queue.h`: immediate functions wait in order in `q_`, delayed ones with
their time points in `pq_`. What a worker does with the lock in its hand is the
relation `Takes`: a delayed function that is due goes before every immediate one, and
among delayed functions one with the least time point goes first.
-/

namespace SwiftRobot

structure DispatchQueue (τ : Type) where
  pq_ : List (ℕ × τ)
  q_ : List τ
  quit_ : Bool

namespace DispatchQueue
variable {τ : Type}

def initial : DispatchQueue τ := ⟨[], [], false⟩

def dispatch (function : τ) (q : DispatchQueue τ) : DispatchQueue τ :=
  { q with q_ := q.q_ ++ [function] }

def dispatch_after (time_point : ℕ) (function : τ) (q : DispatchQueue τ) : DispatchQueue τ :=
  { q with pq_ := q.pq_ ++ [(time_point, function)] }

def quit (q : DispatchQueue τ) : DispatchQueue τ := { q with quit_ := true }

inductive Takes (now : ℕ) (q : DispatchQueue τ) : τ → DispatchQueue τ → Prop
  | delayed {before after : List (ℕ × τ)} {item : ℕ × τ} : q.quit_ = false →
    q.pq_ = before ++ item :: after → (∀ other ∈ q.pq_, item.1 ≤ other.1) → item.1 < now →
    Takes now q item.2 { q with pq_ := before ++ after }
  | immediate {function : τ} {rest : List τ} : q.quit_ = false →
    (∀ item ∈ q.pq_, ¬ item.1 < now) → q.q_ = function :: rest →
    Takes now q function { q with q_ := rest }

def isLeast (q : DispatchQueue τ) (item : ℕ × τ) : Bool := q.pq_.all fun other => item.1 ≤ other.1

/-- Among delayed functions with the same time point the first one goes first. -/
def take? (now : ℕ) (q : DispatchQueue τ) : Option (τ × DispatchQueue τ) :=
  if q.quit_ then none
  else if q.pq_.any (·.1 < now) then
    (q.pq_.find? q.isLeast).map fun item => (item.2, { q with pq_ := q.pq_.eraseP q.isLeast })
  else match q.q_ with
    | [] => none
    | function :: rest => some (function, { q with q_ := rest })

theorem takes_of_take? {now : ℕ} {q r : DispatchQueue τ} {function : τ}
    (h : q.take? now = some (function, r)) : q.Takes now function r := by
  simp only [take?] at h
  split_ifs at h with hquit hdue
  · obtain ⟨item, hfind, hitem⟩ := Option.map_eq_some_iff.mp h
    simp only [Prod.mk.injEq] at hitem
    obtain ⟨rfl, rfl⟩ := hitem
    obtain ⟨hleast, before, after, hpq, hbefore⟩ := List.find?_eq_some_iff_append.mp hfind
    have herase : q.pq_.eraseP q.isLeast = before ++ after := by
      rw [hpq]
      rw [List.eraseP_append_right _ (by simpa using hbefore), List.eraseP_cons_of_pos hleast]
    have hall : ∀ other ∈ q.pq_, item.1 ≤ other.1 := by simpa [isLeast] using hleast
    obtain ⟨other, hother, hlt⟩ := List.any_eq_true.mp hdue
    rw [herase]
    exact .delayed (by simpa using hquit) hpq hall
      (Nat.lt_of_le_of_lt (hall other hother) (by simpa using hlt))
  · cases hq : q.q_ with
    | nil => simp [hq] at h
    | cons f rest =>
      simp only [hq, Option.some.injEq, Prod.mk.injEq] at h
      obtain ⟨rfl, rfl⟩ := h
      exact .immediate (by simpa using hquit) (by simpa using hdue) hq

end DispatchQueue
end SwiftRobot
