import Mathlib.Data.List.Basic
import Mathlib.Data.List.Infix
import Mathlib.Tactic.Common
import Mathlib.Tactic.Ring

/-!
# Segments of a list

`Placed l p xs` says that `xs` stands in `l` from position `p` on. What is placed can be
taken apart, and stays placed when the list grows at its front, at the same distance from
the end.
-/

namespace SwiftRobot

def Placed {α : Type} (l : List α) (p : ℕ) (xs : List α) : Prop :=
  ∃ before after, l = before ++ (xs ++ after) ∧ before.length = p

namespace Placed
variable {α : Type} {l xs ys : List α} {p : ℕ} {x : α}

theorem le (h : Placed l p xs) : p + xs.length ≤ l.length := by
  obtain ⟨before, after, rfl, rfl⟩ := h
  simp only [List.length_append]
  omega

theorem drop_take (h : Placed l p xs) : (l.drop p).take xs.length = xs := by
  obtain ⟨before, after, rfl, rfl⟩ := h
  rw [List.drop_left, List.take_left]

theorem getElem? (h : Placed l p (x :: xs)) : l[p]? = some x := by
  obtain ⟨before, after, rfl, rfl⟩ := h
  simp

theorem left (h : Placed l p (xs ++ ys)) : Placed l p xs := by
  obtain ⟨before, after, rfl, rfl⟩ := h
  exact ⟨before, ys ++ after, by simp, rfl⟩

theorem right (h : Placed l p (xs ++ ys)) : Placed l (p + xs.length) ys := by
  obtain ⟨before, after, rfl, rfl⟩ := h
  exact ⟨before ++ xs, after, by simp, by simp⟩

theorem tail (h : Placed l p (x :: xs)) : Placed l (p + 1) xs :=
  (show Placed l p ([x] ++ xs) from h).right

theorem of_suffix {after : List α} (h : xs ++ after <:+ l) :
    Placed l (l.length - (xs ++ after).length) xs := by
  obtain ⟨before, rfl⟩ := h
  exact ⟨before, after, rfl, by simp⟩

theorem flatMap {β : Type} {f : β → List α} {bs : List β} {n : ℕ} (h : Placed l p (bs.flatMap f))
    (hf : ∀ b ∈ bs, (f b).length = n) {i : ℕ} {b : β} (hi : bs[i]? = some b) :
    Placed l (p + i * n) (f b) := by
  induction bs generalizing p i with
  | nil => simp at hi
  | cons c bs ih =>
    rw [List.flatMap_cons] at h
    obtain ⟨hc, hbs⟩ := List.forall_mem_cons.mp hf
    cases i with
    | zero =>
      obtain rfl : c = b := by simpa using hi
      simpa using h.left
    | succ i =>
      have hrest := ih h.right hbs (by simpa using hi)
      have hp : p + n + i * n = p + (i + 1) * n := by ring
      rwa [hc, hp] at hrest

end Placed
end SwiftRobot
