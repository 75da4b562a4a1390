import Mathlib.Logic.Function.Basic
import Mathlib.Tactic.Common

/-!
# Numbers that are given out again

A table says what each number in use stands for. Every time a number is given out it gets
a serial, so that a number that was taken back can be told from the same number given out
again. What was given out under a number stays there as long as it is not taken back.
-/

namespace SwiftRobot

structure Handles (ν α : Type) where
  entry : ν → Option (α × ℕ)
  made : ℕ

namespace Handles
variable {ν α : Type} [DecidableEq ν] {h : Handles ν α} {n m : ν} {a : α} {x : α × ℕ}

def give (n : ν) (a : α) (h : Handles ν α) : Handles ν α :=
  ⟨Function.update h.entry n (some (a, h.made)), h.made + 1⟩

def take (n : ν) (h : Handles ν α) : Handles ν α :=
  { h with entry := Function.update h.entry n none }

def Serial (h : Handles ν α) : Prop := ∀ n, ∀ x ∈ h.entry n, x.2 < h.made

@[simp] theorem entry_give_self : (h.give n a).entry n = some (a, h.made) :=
  Function.update_self _ _ _

@[simp] theorem entry_take_self : (h.take n).entry n = none := Function.update_self _ _ _

@[simp] theorem made_give : (h.give n a).made = h.made + 1 := rfl

@[simp] theorem made_take : (h.take n).made = h.made := rfl

theorem entry_give_of_ne (hne : m ≠ n) : (h.give n a).entry m = h.entry m :=
  Function.update_of_ne hne _ _

theorem entry_take_of_ne (hne : m ≠ n) : (h.take n).entry m = h.entry m :=
  Function.update_of_ne hne _ _

theorem mem_entry_give : x ∈ (h.give n a).entry m ↔
    m = n ∧ x = (a, h.made) ∨ m ≠ n ∧ x ∈ h.entry m := by
  by_cases hm : m = n
  · subst hm
    simp [Option.mem_def, eq_comm]
  · simp [hm, entry_give_of_ne hm]

theorem mem_entry_take : x ∈ (h.take n).entry m ↔ m ≠ n ∧ x ∈ h.entry m := by
  by_cases hm : m = n
  · subst hm
    simp
  · simp [hm, entry_take_of_ne hm]

theorem give_keeps (hfree : h.entry n = none) (hx : x ∈ h.entry m) :
    x ∈ (h.give n a).entry m := by
  refine mem_entry_give.mpr (Or.inr ⟨?_, hx⟩)
  rintro rfl
  rw [hfree] at hx
  contradiction

theorem take_keeps (hx : x ∈ h.entry m) (hn : x ∉ h.entry n) : x ∈ (h.take n).entry m := by
  refine mem_entry_take.mpr ⟨?_, hx⟩
  rintro rfl
  exact hn hx

theorem Serial.give (hs : h.Serial) : (h.give n a).Serial := by
  intro m x hx
  rw [made_give]
  rcases mem_entry_give.mp hx with ⟨-, rfl⟩ | ⟨-, hx⟩
  · exact Nat.lt_succ_self _
  · exact Nat.lt_succ_of_lt (hs m x hx)

theorem Serial.take (hs : h.Serial) : (h.take n).Serial := by
  intro m x hx
  exact hs m x (mem_entry_take.mp hx).2

end Handles
end SwiftRobot
