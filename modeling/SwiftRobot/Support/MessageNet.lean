import SwiftRobot.Support.Runs
import Mathlib.Algebra.GroupWithZero.Nat
import Mathlib.Logic.Function.Basic

/-!
# Messages in flight between nodes

A node answers a message with messages to any nodes. What is in flight is delivered in any
order. Where the answers to a message weigh less than the message, a run is no longer than
what is in flight weighs; and it can go on as long as some node can handle its message.
-/

namespace SwiftRobot

structure MessageNet (θ ς μ : Type) where
  node : θ → ς
  inFlight : List (θ × μ)

namespace MessageNet
variable {θ ς μ ε : Type} [DecidableEq θ]

section
variable (handle : θ → ε → μ → ς → Option (ς × List (θ × μ)))

/-- The message at some place is taken out, and what its node answers goes into flight. -/
def deliver (net : MessageNet θ ς μ) (e : ℕ × ε) : Option (MessageNet θ ς μ) := do
  let m ← net.inFlight[e.1]?
  let r ← handle m.1 e.2 m.2 (net.node m.1)
  return ⟨Function.update net.node m.1 r.1, net.inFlight.eraseIdx e.1 ++ r.2⟩

def Step (net : MessageNet θ ς μ) (e : ℕ × ε) (net' : MessageNet θ ς μ) : Prop :=
  deliver handle net e = some net'

end

def total (weight : μ → ℕ) (ms : List (θ × μ)) : ℕ := (ms.map fun m => weight m.2).sum

section
variable {handle : θ → ε → μ → ς → Option (ς × List (θ × μ))} {weight : μ → ℕ}
  {net net' : MessageNet θ ς μ} {e : ℕ × ε} {es : List (ℕ × ε)}

theorem Step.delivered (h : Step handle net e net') :
    ∃ i m s out, net.inFlight[e.1]? = some (i, m) ∧ handle i e.2 m (net.node i) = some (s, out) ∧
      net' = ⟨Function.update net.node i s, net.inFlight.eraseIdx e.1 ++ out⟩ := by
  obtain ⟨m, hm, h⟩ := Option.bind_eq_some_iff.mp h
  obtain ⟨r, hr, h⟩ := Option.bind_eq_some_iff.mp h
  exact ⟨m.1, m.2, r.1, r.2, hm, hr, (Option.some.inj h).symm⟩

omit [DecidableEq θ] in
theorem total_append (ms ns : List (θ × μ)) :
    total weight (ms ++ ns) = total weight ms + total weight ns := by
  rw [total, List.map_append, List.sum_append]
  rfl

omit [DecidableEq θ] in
theorem total_eraseIdx {ms : List (θ × μ)} {k : ℕ} {m : θ × μ} (hm : ms[k]? = some m) :
    weight m.2 + total weight (ms.eraseIdx k) = total weight ms := by
  induction ms generalizing k with
  | nil => simp at hm
  | cons a ms ih =>
    cases k with
    | zero =>
      rw [List.getElem?_cons_zero, Option.some.injEq] at hm
      rw [hm]
      rfl
    | succ k =>
      have hrest := ih (by simpa using hm)
      simp only [total, List.eraseIdx_cons_succ, List.map_cons, List.sum_cons] at hrest ⊢
      omega

theorem Step.total_lt (hweight : ∀ i e m s s' out, handle i e m s = some (s', out) →
    total weight out < weight m) (h : Step handle net e net') :
    total weight net'.inFlight < total weight net.inFlight := by
  obtain ⟨i, m, s, out, hm, hout, rfl⟩ := h.delivered
  have hlt := hweight i e.2 m _ s out hout
  have herase : weight m + total weight (net.inFlight.eraseIdx e.1) = total weight net.inFlight :=
    total_eraseIdx hm
  rw [total_append]
  omega

theorem deliveries_le (hweight : ∀ i e m s s' out, handle i e m s = some (s', out) →
    total weight out < weight m) (run : Run (Step handle) net es net') :
    es.length + total weight net'.inFlight ≤ total weight net.inFlight :=
  run.length_le (m := fun net => total weight net.inFlight) fun _ _ _ h => h.total_lt hweight

theorem inFlight_eq_nil (hable : ∀ m ∈ net.inFlight, ∃ e, (handle m.1 e m.2 (net.node m.1)).isSome)
    (hstuck : ∀ e net', ¬ Step handle net e net') : net.inFlight = [] := by
  cases hflight : net.inFlight with
  | nil => rfl
  | cons m ms =>
    obtain ⟨e, he⟩ := hable m (by rw [hflight]; exact List.mem_cons_self)
    obtain ⟨r, hr⟩ := Option.isSome_iff_exists.mp he
    refine absurd ?_ (hstuck (0, e) ⟨Function.update net.node m.1 r.1, ms ++ r.2⟩)
    simp [Step, deliver, hflight, hr]

end
end MessageNet
end SwiftRobot
