import Mathlib.Data.Finset.Card

/-!
# Recursion cut off at a depth

A recursion is given by its body, which may call its argument, and `limited n` runs
it with `n` calls nested at most: deeper calls answer `deep`. When only finitely many
calls get deeper than one level, some number of nested calls is as good as any larger
one, and a recursion that is still too deep there is without end.
-/

namespace SwiftRobot
namespace BoundedRecursion
variable {ι ρ : Type} {deep : ρ}

def limited (deep : ρ) (body : (ι → ρ) → ι → ρ) : ℕ → ι → ρ
  | 0, _ => deep
  | n + 1, x => body (limited deep body n) x

def Agrees (deep : ρ) (g g' : ι → ρ) : Prop := ∀ x, g x = deep ∨ g x = g' x

/-- A body that cannot tell how deep it is called. -/
def Uniform (deep : ρ) (body : (ι → ρ) → ι → ρ) : Prop :=
  ∀ g g', Agrees deep g g' → Agrees deep (body g) (body g')

variable {body : (ι → ρ) → ι → ρ}

theorem Agrees.trans {g g' g'' : ι → ρ} (h : Agrees deep g g') (h' : Agrees deep g' g'') :
    Agrees deep g g'' := by
  intro x
  rcases h x with hx | hx
  · exact Or.inl hx
  · rw [hx]
    exact h' x

theorem limited_succ (hbody : Uniform deep body) (n : ℕ) :
    Agrees deep (limited deep body n) (limited deep body (n + 1)) := by
  induction n with
  | zero => exact fun _ => Or.inl rfl
  | succ n ih => exact hbody _ _ ih

theorem limited_mono (hbody : Uniform deep body) {n m : ℕ} (h : n ≤ m) :
    Agrees deep (limited deep body n) (limited deep body m) := by
  induction m, h using Nat.le_induction with
  | base => exact fun _ => Or.inr rfl
  | succ m _ ih => exact ih.trans (limited_succ hbody m)

theorem limited_of_answer (hbody : Uniform deep body) {n m : ℕ} (h : n ≤ m) {x : ι}
    (hx : limited deep body n x ≠ deep) : limited deep body m x = limited deep body n x :=
  ((limited_mono hbody h x).resolve_left hx).symm

theorem limited_stable {n : ℕ} (h : limited deep body n = limited deep body (n + 1)) {m : ℕ}
    (hm : n ≤ m) : limited deep body m = limited deep body n := by
  induction m, hm using Nat.le_induction with
  | base => rfl
  | succ m _ ih =>
    funext x
    calc limited deep body (m + 1) x = body (limited deep body m) x := rfl
      _ = body (limited deep body n) x := by rw [ih]
      _ = limited deep body n x := (congrFun h x).symm

open Classical in
noncomputable def unanswered (deep : ρ) (body : (ι → ρ) → ι → ρ) (calls : Finset ι) (n : ℕ) :
    Finset ι :=
  calls.filter fun x => limited deep body (n + 1) x = deep

theorem mem_unanswered {calls : Finset ι} {n : ℕ} {x : ι} :
    x ∈ unanswered deep body calls n ↔ x ∈ calls ∧ limited deep body (n + 1) x = deep := by
  simp only [unanswered, Finset.mem_filter]

theorem limited_eq_of_card (hbody : Uniform deep body) {calls : Finset ι}
    (hcalls : ∀ x, limited deep body 1 x = deep → x ∈ calls) {n : ℕ}
    (hcard : (unanswered deep body calls n).card ≤ (unanswered deep body calls (n + 1)).card) :
    limited deep body (n + 1) = limited deep body (n + 2) := by
  have hsub : unanswered deep body calls (n + 1) ⊆ unanswered deep body calls n := by
    intro x hx
    obtain ⟨hmem, hdeep⟩ := mem_unanswered.mp hx
    refine mem_unanswered.mpr ⟨hmem, ?_⟩
    by_contra hne
    exact hne ((limited_of_answer hbody (Nat.le_succ _) hne).symm.trans hdeep)
  have heq := Finset.eq_of_subset_of_card_le hsub hcard
  funext x
  rcases limited_succ hbody (n + 1) x with hx | hx
  · have hone : limited deep body 1 x = deep := by
      by_contra hne
      exact hne ((limited_of_answer hbody (by omega) hne).symm.trans hx)
    have hmem : x ∈ unanswered deep body calls (n + 1) := by
      rw [heq]
      exact mem_unanswered.mpr ⟨hcalls x hone, hx⟩
    rw [hx, (mem_unanswered.mp hmem).2]
  · exact hx

/-- With one level more than there are calls to go deeper for, every call has the answer
that it has with any number of levels above that. -/
theorem limited_settles (hbody : Uniform deep body) {calls : Finset ι}
    (hcalls : ∀ x, limited deep body 1 x = deep → x ∈ calls) {m : ℕ} (hm : calls.card + 1 ≤ m) :
    limited deep body m = limited deep body (calls.card + 1) := by
  have hstep : ∀ k, (∃ n < k, limited deep body (n + 1) = limited deep body (n + 2)) ∨
      (unanswered deep body calls k).card + k ≤ calls.card := by
    intro k
    induction k with
    | zero =>
      have hsub : unanswered deep body calls 0 ⊆ calls := fun x hx => (mem_unanswered.mp hx).1
      exact Or.inr (Finset.card_le_card hsub)
    | succ k ih =>
      rcases ih with ⟨n, hn, h⟩ | hle
      · exact Or.inl ⟨n, by omega, h⟩
      · by_cases hcard :
          (unanswered deep body calls k).card ≤ (unanswered deep body calls (k + 1)).card
        · exact Or.inl ⟨k, by omega, limited_eq_of_card hbody hcalls hcard⟩
        · exact Or.inr (by omega)
  rcases hstep (calls.card + 1) with ⟨n, hn, h⟩ | hle
  · exact (limited_stable h (by omega)).trans (limited_stable h (by omega)).symm
  · omega

theorem limited_acc {good : ρ → Prop} (hdeep : ¬ good deep) {calls : ι → ι → Prop}
    (hbody : ∀ g x, good (body g x) → ∀ y, calls x y → good (g y)) {n : ℕ} {x : ι}
    (hx : good (limited deep body n x)) : Acc (fun y x => calls x y) x := by
  induction n generalizing x with
  | zero => exact absurd hx hdeep
  | succ n ih => exact Acc.intro x fun y hy => ih (hbody _ x hx y hy)

theorem limited_of_acc {n : ℕ} (hn : limited deep body (n + 1) = limited deep body n)
    {calls : ι → ι → Prop}
    (hbody : ∀ g x, (∀ y, calls x y → g y ≠ deep) → body g x ≠ deep) {x : ι}
    (hx : Acc (fun y x => calls x y) x) : limited deep body n x ≠ deep := by
  induction hx with
  | intro x _ ih =>
    rw [← congrFun hn x]
    exact hbody _ x ih

end BoundedRecursion
end SwiftRobot
