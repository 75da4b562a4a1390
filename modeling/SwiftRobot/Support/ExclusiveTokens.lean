import Mathlib.Logic.Function.Basic
import Mathlib.Tactic.Common

/-!
# One token for each owner

Items lie at places, and every item has an owner. An owner's token is taken to put an
item of his at a place, and given back when the item goes. `Serial` says that the token
is gone while an item is there, and that there is one such item at most; `Conserved`
says that a token which is gone is held by an item. Both survive every `Change`; a
`Leak`, where the item goes and keeps the token, spares only the first.
-/

namespace SwiftRobot

/-- What lies where, and whose token is free. -/
structure Ledger (π ι ο : Type) where
  at? : π → Option ι
  free : ο → Bool

namespace Ledger
variable {π ι ο : Type} (owner : ι → ο)

section
variable [DecidableEq ο] (a b : Ledger π ι ο)

inductive Change : Prop
  | moves (back : π → π) : (∀ p i, b.at? p = some i → a.at? (back p) = some i) →
    (∀ p q, (b.at? p).isSome → (b.at? q).isSome → back p = back q → p = q) →
    (∀ p i, a.at? p = some i → ∃ q, b.at? q = some i) → b.free = a.free → Change
  | acquires (p : π) (i : ι) : a.free (owner i) = true → a.at? p = none → b.at? p = some i →
    (∀ q, q ≠ p → b.at? q = a.at? q) → b.free = Function.update a.free (owner i) false → Change
  | releases (p : π) (i : ι) : a.at? p = some i → b.at? p = none →
    (∀ q, q ≠ p → b.at? q = a.at? q) → b.free = Function.update a.free (owner i) true → Change

structure Leak (p : π) (i : ι) : Prop where
  had : a.at? p = some i
  gone : b.at? p = none
  others : ∀ q, q ≠ p → b.at? q = a.at? q
  free : b.free = a.free

end

structure Serial (a : Ledger π ι ο) : Prop where
  taken : ∀ p i, a.at? p = some i → a.free (owner i) = false
  unique : ∀ p q i j, a.at? p = some i → a.at? q = some j → owner i = owner j → p = q

def Conserved (a : Ledger π ι ο) : Prop :=
  ∀ o, a.free o = false → ∃ p i, a.at? p = some i ∧ owner i = o

variable {owner} {a b : Ledger π ι ο}

theorem Change.same [DecidableEq ο] (hat : ∀ p, b.at? p = a.at? p) (hfree : b.free = a.free) :
    Change owner a b :=
  .moves id (fun p _ h => (hat p).symm.trans h) (fun _ _ _ _ h => h)
    (fun p _ h => ⟨p, (hat p).trans h⟩) hfree

theorem Change.carried [DecidableEq ο] [DecidableEq π] {p q : π} (hp : b.at? p = none)
    (hq : b.at? q = a.at? p) (hfrom : a.at? q = none)
    (hothers : ∀ r, r ≠ p → r ≠ q → b.at? r = a.at? r) (hfree : b.free = a.free) :
    Change owner a b := by
  have hback : ∀ r i, b.at? r = some i → r ≠ p := by
    rintro r i hr rfl
    simp [hp] at hr
  refine .moves (fun r => if r = q then p else r) ?_ ?_ ?_ hfree
  · intro r i hr
    split_ifs with hrq
    · rw [← hq, ← hrq, hr]
    · rw [← hothers r (hback r i hr) hrq, hr]
  · intro r r' hr hr' h
    obtain ⟨i, hi⟩ := Option.isSome_iff_exists.mp hr
    obtain ⟨j, hj⟩ := Option.isSome_iff_exists.mp hr'
    have hne := hback r i hi
    have hne' := hback r' j hj
    split_ifs at h with h1 h2 h2
    · rw [h1, h2]
    · exact absurd h.symm hne'
    · exact absurd h hne
    · exact h
  · intro r i hr
    by_cases hrp : r = p
    · exact ⟨q, by rw [hq, ← hrp, hr]⟩
    · have hrq : r ≠ q := by
        rintro rfl
        simp [hfrom] at hr
      exact ⟨r, by rw [hothers r hrp hrq, hr]⟩

theorem at_of_gone {p q : π} {j : ι} (hgone : b.at? p = none)
    (hothers : ∀ q, q ≠ p → b.at? q = a.at? q) (hq : b.at? q = some j) :
    q ≠ p ∧ a.at? q = some j := by
  have hne : q ≠ p := by
    rintro rfl
    simp [hgone] at hq
  exact ⟨hne, (hothers q hne).symm.trans hq⟩

theorem Change.source [DecidableEq ο] (hc : Change owner a b) {p : π} {i : ι}
    (hp : b.at? p = some i) :
    (∃ q, a.at? q = some i) ∨ (a.free (owner i) = true ∧ b.free (owner i) = false) := by
  cases hc with
  | moves back hback _ _ _ => exact Or.inl ⟨back p, hback p i hp⟩
  | acquires q j hfree _ hq hothers hfree' =>
    by_cases hpq : p = q
    · have hij : i = j := by
        rw [hpq, hq, Option.some.injEq] at hp
        exact hp.symm
      subst hij
      exact Or.inr ⟨hfree, by rw [hfree', Function.update_self]⟩
    · exact Or.inl ⟨p, (hothers p hpq).symm.trans hp⟩
  | releases q j _ hgone hothers _ => exact Or.inl ⟨p, (at_of_gone hgone hothers hp).2⟩

theorem Serial.change [DecidableEq ο] (hs : Serial owner a) (hc : Change owner a b) :
    Serial owner b := by
  cases hc with
  | moves back hback hinj _ hfree =>
    constructor
    · intro p i hp
      rw [hfree]
      exact hs.taken _ i (hback p i hp)
    · intro p q i j hp hq ho
      exact hinj p q (by simp [hp]) (by simp [hq]) (hs.unique _ _ i j (hback p i hp) (hback q j hq) ho)
  | acquires p i hfree hnone hp hothers hfree' =>
    -- every other item has another owner: the token of this one was free
    have hother : ∀ q j, q ≠ p → b.at? q = some j → a.at? q = some j ∧ owner j ≠ owner i := by
      intro q j hq hj
      rw [hothers q hq] at hj
      refine ⟨hj, fun ho => ?_⟩
      have htaken := hs.taken q j hj
      rw [ho, hfree] at htaken
      exact Bool.true_eq_false.mp htaken
    constructor
    · intro q j hj
      rw [hfree', Function.update_apply]
      split_ifs with ho
      · rfl
      · by_cases hq : q = p
        · subst hq
          rw [hp, Option.some.injEq] at hj
          exact absurd (congrArg owner hj.symm) ho
        · exact hs.taken q j (hother q j hq hj).1
    · intro q r j k hj hk ho
      by_cases hq : q = p
      · by_cases hr : r = p
        · rw [hq, hr]
        · have hi : i = j := by
            rw [hq, hp, Option.some.injEq] at hj
            exact hj
          exact absurd (ho.symm.trans (congrArg owner hi.symm)) (hother r k hr hk).2
      · by_cases hr : r = p
        · have hi : i = k := by
            rw [hr, hp, Option.some.injEq] at hk
            exact hk
          exact absurd (ho.trans (congrArg owner hi.symm)) (hother q j hq hj).2
        · exact hs.unique q r j k (hother q j hq hj).1 (hother r k hr hk).1 ho
  | releases p i hp hgone hothers hfree =>
    constructor
    · intro q j hj
      obtain ⟨hq, hj⟩ := at_of_gone hgone hothers hj
      have ho : owner j ≠ owner i := fun ho => hq (hs.unique q p j i hj hp ho)
      rw [hfree, Function.update_of_ne ho]
      exact hs.taken q j hj
    · intro q r j k hj hk ho
      exact hs.unique q r j k (at_of_gone hgone hothers hj).2 (at_of_gone hgone hothers hk).2 ho

theorem Serial.leak {p : π} {i : ι} (hs : Serial owner a) (hl : Leak a b p i) :
    Serial owner b := by
  constructor
  · intro q j hj
    rw [hl.free]
    exact hs.taken q j (at_of_gone hl.gone hl.others hj).2
  · intro q r j k hj hk ho
    exact hs.unique q r j k (at_of_gone hl.gone hl.others hj).2
      (at_of_gone hl.gone hl.others hk).2 ho

theorem Conserved.change [DecidableEq ο] (ha : Conserved owner a)
    (hc : Change owner a b) : Conserved owner b := by
  intro o ho
  cases hc with
  | moves back _ _ hforth hfree =>
    rw [hfree] at ho
    obtain ⟨p, i, hp, hi⟩ := ha o ho
    obtain ⟨q, hq⟩ := hforth p i hp
    exact ⟨q, i, hq, hi⟩
  | acquires p i _ hnone hp hothers hfree =>
    by_cases hi : o = owner i
    · exact ⟨p, i, hp, hi.symm⟩
    · rw [hfree, Function.update_of_ne hi] at ho
      obtain ⟨q, j, hq, hj⟩ := ha o ho
      have hne : q ≠ p := by
        rintro rfl
        simp [hnone] at hq
      exact ⟨q, j, (hothers q hne).trans hq, hj⟩
  | releases p i hp hgone hothers hfree =>
    have hi : o ≠ owner i := by
      rintro rfl
      rw [hfree, Function.update_self] at ho
      exact Bool.true_eq_false.mp ho
    rw [hfree, Function.update_of_ne hi] at ho
    obtain ⟨q, j, hq, hj⟩ := ha o ho
    have hne : q ≠ p := by
      rintro rfl
      rw [hp, Option.some.injEq] at hq
      exact hi (hj.symm.trans (congrArg owner hq.symm))
    exact ⟨q, j, (hothers q hne).trans hq, hj⟩

variable (owner) in
def Gone (a : Ledger π ι ο) (o : ο) : Prop :=
  a.free o = false ∧ ∀ p i, a.at? p = some i → owner i ≠ o

theorem Serial.leaked {p : π} {i : ι} (hs : Serial owner a) (hl : Leak a b p i) :
    b.Gone owner (owner i) := by
  constructor
  · rw [hl.free]
    exact hs.taken p i hl.had
  · intro q j hj ho
    obtain ⟨hq, hj⟩ := at_of_gone hl.gone hl.others hj
    exact hq (hs.unique q p j i hj hl.had ho)

theorem Gone.change [DecidableEq ο] {o : ο} (hg : a.Gone owner o) (hc : Change owner a b) :
    b.Gone owner o := by
  obtain ⟨hfree, hnone⟩ := hg
  cases hc with
  | moves back hback _ _ hsame =>
    exact ⟨by rw [hsame, hfree], fun p i hp => hnone _ i (hback p i hp)⟩
  | acquires p i havail _ hp hothers hfree' =>
    have ho : o ≠ owner i := by
      rintro rfl
      exact absurd (hfree.symm.trans havail) Bool.false_ne_true
    refine ⟨by rw [hfree', Function.update_of_ne ho, hfree], fun q j hq => ?_⟩
    by_cases hqp : q = p
    · have hij : i = j := Option.some.inj (hp.symm.trans (hqp ▸ hq))
      rw [← hij]
      exact ho.symm
    · exact hnone q j ((hothers q hqp).symm.trans hq)
  | releases p i hp hgone hothers hfree' =>
    refine ⟨?_, fun q j hq => hnone q j (at_of_gone hgone hothers hq).2⟩
    rw [hfree', Function.update_of_ne (hnone p i hp).symm, hfree]

theorem Gone.leak {o : ο} {p : π} {i : ι} (hg : a.Gone owner o) (hl : Leak a b p i) :
    b.Gone owner o :=
  ⟨by rw [hl.free, hg.1], fun q j hq => hg.2 q j (at_of_gone hl.gone hl.others hq).2⟩

theorem Change.kept [DecidableEq ο] (hc : Change owner a b) {p : π} {i : ι}
    (hp : a.at? p = some i) (htaken : b.free (owner i) = false) : ∃ q, b.at? q = some i := by
  cases hc with
  | moves _ _ _ hforth _ => exact hforth p i hp
  | acquires q j _ hnone _ hothers _ =>
    have hpq : p ≠ q := by
      rintro rfl
      simp [hnone] at hp
    exact ⟨p, (hothers p hpq).trans hp⟩
  | releases q j hq _ hothers hfree =>
    have hpq : p ≠ q := by
      rintro rfl
      have hij : i = j := Option.some.inj (hp.symm.trans hq)
      rw [hfree, hij, Function.update_self] at htaken
      exact Bool.true_eq_false.mp htaken
    exact ⟨p, (hothers p hpq).trans hp⟩

end Ledger
end SwiftRobot
