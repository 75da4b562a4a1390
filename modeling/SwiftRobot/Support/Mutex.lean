import Mathlib.Data.Finset.Card
import Mathlib.Data.Fintype.Basic
import Mathlib.Logic.Function.Basic
import Mathlib.Tactic.Common

/-!
# A lock and the phases of the threads

Every thread is in a phase. A lock guards some of the phases when the thread that is in
one of them is exactly the thread that holds the lock.
-/

namespace SwiftRobot.Mutex
variable {θ φ : Type} {inside : φ → Prop} {phases : θ → φ}

def Guarded (inside : φ → Prop) (phases : θ → φ) (lock : Option θ) : Prop :=
  ∀ w, inside (phases w) ↔ lock = some w

namespace Guarded
variable {lock : Option θ} {p q : φ} {v w : θ}

theorem unique (h : Guarded inside phases lock) (hv : inside (phases v))
    (hw : inside (phases w)) : v = w := by
  have hlock := (h v).mp hv
  rw [(h w).mp hw, Option.some.injEq] at hlock
  exact hlock.symm

theorem not_inside (h : Guarded inside phases none) (w : θ) : ¬ inside (phases w) := by
  intro hw
  have hlock := (h w).mp hw
  contradiction

variable [DecidableEq θ]

theorem acquire (h : Guarded inside phases none) (hp : inside p) :
    Guarded inside (Function.update phases v p) (some v) := by
  intro w
  rw [Function.update_apply, Option.some.injEq]
  split_ifs with hw
  · exact ⟨fun _ => hw.symm, fun _ => hp⟩
  · exact ⟨fun hin => absurd hin (h.not_inside w), fun hv => absurd hv.symm hw⟩

theorem moves (h : Guarded inside phases lock) (hv : phases v = q) (hp : inside p ↔ inside q) :
    Guarded inside (Function.update phases v p) lock := by
  intro w
  rw [Function.update_apply]
  split_ifs with hw
  · rw [hp, ← hv, hw]
    exact h v
  · exact h w

theorem release (h : Guarded inside phases lock) (hv : phases v = q) (hq : inside q)
    (hp : ¬ inside p) : Guarded inside (Function.update phases v p) none := by
  intro w
  rw [Function.update_apply]
  split_ifs with hw
  · simpa using hp
  · have hout : ¬ inside (phases w) := fun hin => hw (h.unique hin (hv ▸ hq))
    simpa using hout

end Guarded

section
variable [Fintype θ] (P : φ → Prop) [DecidablePred P]

def count (phases : θ → φ) : ℕ := (Finset.univ.filter fun w => P (phases w)).card

theorem count_update [DecidableEq θ] (phases : θ → φ) (v : θ) (p : φ) :
    count P (Function.update phases v p) + (if P (phases v) then 1 else 0) =
      count P phases + (if P p then 1 else 0) := by
  have hsplit : ∀ f : θ → φ, count P f =
      ((Finset.univ.erase v).filter fun w => P (f w)).card + if P (f v) then 1 else 0 := by
    intro f
    rw [count, ← Finset.insert_erase (Finset.mem_univ v), Finset.filter_insert]
    split_ifs with hv
    · rw [Finset.card_insert_of_notMem (by simp), Finset.erase_insert (by simp)]
    · rw [Finset.erase_insert (by simp), Nat.add_zero]
  have hothers : ((Finset.univ.erase v).filter fun w => P (Function.update phases v p w)) =
      (Finset.univ.erase v).filter fun w => P (phases w) := by
    apply Finset.filter_congr
    intro w hw
    rw [Function.update_of_ne (Finset.ne_of_mem_erase hw)]
  rw [hsplit (Function.update phases v p), hsplit phases, hothers, Function.update_self]
  omega

theorem count_congr {f g : θ → φ} (h : ∀ w, P (f w) ↔ P (g w)) : count P f = count P g := by
  apply congrArg Finset.card
  apply Finset.filter_congr
  intro w _
  exact h w

theorem count_eq_zero {f : θ → φ} (h : ∀ w, ¬ P (f w)) : count P f = 0 := by
  rw [count, Finset.filter_false_of_mem fun w _ => h w, Finset.card_empty]

end
end SwiftRobot.Mutex
