import Mathlib.Data.Nat.Notation
import Mathlib.Logic.Relation

/-!
# Loops that get closer to their end

A loop is given by its turns, and `loop` takes at most so many of them. Where every turn
that goes on makes a measure smaller, that many turns are enough, and any number of
them that is enough gives the same.
-/

namespace SwiftRobot
namespace Loops
variable {σ α ε : Type}

/-- How a turn of a loop ends, unless it fails. -/
inductive Turn (σ α : Type)
  | again (s : σ)
  | done (a : α)

def loop (turn : σ → Except ε (Turn σ α)) (out : ε) : ℕ → σ → Except ε α
  | 0, _ => .error out
  | n + 1, s =>
    match turn s with
    | .error e => .error e
    | .ok (.done a) => .ok a
    | .ok (.again s) => loop turn out n s

variable {turn : σ → Except ε (Turn σ α)} {out : ε} {μ : σ → ℕ}

abbrev Follows (turn : σ → Except ε (Turn σ α)) (s s' : σ) : Prop := turn s = .ok (.again s')

abbrev Reaches (turn : σ → Except ε (Turn σ α)) : σ → σ → Prop :=
  Relation.ReflTransGen (Follows turn)

def Measured (turn : σ → Except ε (Turn σ α)) (μ : σ → ℕ) : Prop :=
  ∀ s s', Follows turn s s' → μ s' < μ s

theorem Measured.loop_enough (h : Measured turn μ) {n m : ℕ} {s : σ} (hn : μ s < n)
    (hm : μ s < m) : loop turn out n s = loop turn out m s := by
  induction n generalizing m s with
  | zero => omega
  | succ n ih =>
    obtain ⟨m, rfl⟩ : ∃ k, m = k + 1 := ⟨m - 1, by omega⟩
    rw [loop, loop]
    split
    next => rfl
    next => rfl
    next s' hs =>
      have hless := h s s' hs
      exact ih (by omega) (by omega)

theorem Measured.loop_reaches (h : Measured turn μ) {s s' : σ} (hr : Reaches turn s s') :
    loop turn out (μ s + 1) s = loop turn out (μ s' + 1) s' := by
  induction hr using Relation.ReflTransGen.head_induction_on with
  | refl => rfl
  | @head s₁ s₂ hs _ ih =>
    have hless := h s₁ s₂ hs
    have hturn : loop turn out (μ s₁ + 1) s₁ = loop turn out (μ s₁) s₂ := by rw [loop, hs]
    rw [← ih, hturn]
    exact h.loop_enough hless (by omega)

theorem Measured.loop_done (h : Measured turn μ) {s s' : σ} {a : α} {n : ℕ}
    (hr : Reaches turn s s') (hdone : turn s' = .ok (.done a)) (hn : μ s < n) :
    loop turn out n s = .ok a := by
  rw [h.loop_enough hn (Nat.lt_succ_self _), h.loop_reaches hr, loop, hdone]

theorem Measured.loop_ends (h : Measured turn μ) {s : σ} {n : ℕ} (hn : μ s < n)
    (hout : ∀ s, turn s ≠ .error out) : loop turn out n s ≠ .error out := by
  induction n generalizing s with
  | zero => omega
  | succ n ih =>
    rw [loop]
    split
    next e hs => exact fun he => hout s (by rw [hs, Except.error.inj he])
    next => exact nofun
    next s' hs =>
      have hless := h s s' hs
      exact ih (by omega)

end Loops
end SwiftRobot
