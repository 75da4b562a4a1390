import SwiftRobot.Support.Handles
import SwiftRobot.Support.Runs
import Mathlib.Data.Int.Order.Basic

/-!
# The descriptors of the socket clients

`socket_client.cpp`: `open` keeps the number that `socket` returned in `socket_fd`, which
is 0 before any call, and `close` shuts down and closes that number. It is never reset: a
client that is closed once more takes whatever the number stands for by then.
-/

namespace SwiftRobot.Descriptors

inductive Owner (θ : Type)
  | process
  | client (c : θ)
  deriving DecidableEq

/-- `opened` is no field of the source: it is the descriptor of the latest successful
`open`, as long as the client has not closed it. -/
structure Client where
  socket_fd : ℤ
  opened : Option ℕ

structure State (θ : Type) where
  table : Handles ℤ (Owner θ)
  clients : θ → Client

inductive Attempt
  -- `socket` fails
  | refused
  -- `connect` fails, or what comes between
  | unconnected (fd : ℤ)
  | connected (fd : ℤ)

inductive Event (θ : Type)
  -- whether the file is there and is a socket
  | open' (c : θ) (found : Bool) (a : Attempt)
  | openAddress (c : θ) (a : Attempt)
  -- whether `shutdown` succeeds
  | close (c : θ) (shut : Bool)

namespace State
variable {θ : Type} [DecidableEq θ]

def initial (others : List ℤ) : State θ where
  table := ⟨fun n => if 0 ≤ n ∧ n ∈ others then some (.process, 0) else none, 1⟩
  clients := fun _ => ⟨0, none⟩

def setClient (c : θ) (k : Client) (s : State θ) : State θ :=
  { s with clients := Function.update s.clients c k }

def socket (c : θ) (fd : ℤ) (s : State θ) : Option (State θ) :=
  if 0 ≤ fd ∧ s.table.entry fd = none then
    some ({ s with table := s.table.give fd (.client c) }.setClient c
      { s.clients c with socket_fd := fd })
  else none

def connect (c : θ) (a : Attempt) (s : State θ) : Option (State θ) :=
  match a with
  | .refused => some (s.setClient c { s.clients c with socket_fd := -1 })
  | .unconnected fd => s.socket c fd
  | .connected fd => (s.socket c fd).map fun t =>
      t.setClient c { t.clients c with opened := some s.table.made }

def open' (c : θ) (found : Bool) (a : Attempt) (s : State θ) : Option (State θ) :=
  if found then s.connect c a else some s

def openAddress (c : θ) (a : Attempt) (s : State θ) : Option (State θ) := s.connect c a

def close (c : θ) (shut : Bool) (s : State θ) : Option (State θ) :=
  if shut then (s.table.entry (s.clients c).socket_fd).map fun x =>
    { s with table := s.table.take (s.clients c).socket_fd }.setClient c
      { s.clients c with
        opened := if (s.clients c).opened = some x.2 then none else (s.clients c).opened }
  else some s

def advance (s : State θ) : Event θ → Option (State θ)
  | .open' c found a => s.open' c found a
  | .openAddress c a => s.openAddress c a
  | .close c shut => s.close c shut

/-- The number of the client stands for what its latest successful `open` has opened. -/
def Own (s : State θ) (c : θ) : Prop :=
  ∃ k ∈ (s.clients c).opened, (.client c, k) ∈ s.table.entry (s.clients c).socket_fd

end State

section
variable {θ : Type} [DecidableEq θ]

def Step (s : State θ) (e : Event θ) (t : State θ) : Prop := s.advance e = some t

def Event.reaches : Event θ → Option (θ × Bool)
  | .open' c true (.connected _) => some (c, true)
  | .open' c true _ => some (c, false)
  | .open' _ false _ => none
  | .openAddress c (.connected _) => some (c, true)
  | .openAddress c _ => some (c, false)
  | .close c true => some (c, false)
  | .close _ false => none

/-- The last call on the client that got to a descriptor was an `open` that succeeded. -/
def Open (c : θ) (es : List (Event θ)) : Prop :=
  ((es.filterMap Event.reaches).filter fun r => r.1 = c).getLast? = some (c, true)

instance (c : θ) (es : List (Event θ)) : Decidable (Open c es) :=
  inferInstanceAs (Decidable (_ = _))

variable {s t u : State θ} {e : Event θ} {es fs : List (Event θ)} {c d : θ} {others : List ℤ}

theorem open_snoc_of_ne (h : ∀ r ∈ e.reaches, r.1 ≠ c) : Open c (es ++ [e]) ↔ Open c es := by
  rw [Open, List.filterMap_append, List.filter_append]
  cases hr : e.reaches with
  | none =>
    rw [List.filterMap_cons_none hr, List.filterMap_nil, List.filter_nil, List.append_nil]
    rfl
  | some r =>
    rw [List.filterMap_cons_some hr, List.filterMap_nil,
      List.filter_cons_of_neg (by simpa using h r hr), List.filter_nil, List.append_nil]
    rfl

theorem open_snoc_self {b : Bool} (h : e.reaches = some (c, b)) :
    Open c (es ++ [e]) ↔ b = true := by
  rw [Open, List.filterMap_append, List.filter_append, List.filterMap_cons_some h,
    List.filterMap_nil, List.filter_cons_of_pos (by simp), List.filter_nil, List.getLast?_concat,
    Option.some.injEq, Prod.mk.injEq, and_iff_right rfl]

def State.given (c : θ) (fd : ℤ) (opened : Option ℕ) (s : State θ) : State θ :=
  { s with table := s.table.give fd (.client c) }.setClient c ⟨fd, opened⟩

inductive Effect (s : State θ) (e : Event θ) : State θ → Prop
  | same : e.reaches = none → Effect s e s
  | refused {c : θ} : e.reaches = some (c, false) →
    Effect s e (s.setClient c ⟨-1, (s.clients c).opened⟩)
  | given {c : θ} {fd : ℤ} {b : Bool} : e.reaches = some (c, b) → 0 ≤ fd →
    s.table.entry fd = none →
    Effect s e (s.given c fd (if b then some s.table.made else (s.clients c).opened))
  | closes {c : θ} {x : Owner θ × ℕ} : e = .close c true →
    x ∈ s.table.entry (s.clients c).socket_fd →
    Effect s e ({ s with table := s.table.take (s.clients c).socket_fd }.setClient c
      { s.clients c with
        opened := if (s.clients c).opened = some x.2 then none else (s.clients c).opened })

theorem Effect.of_connect {a : Attempt}
    (hr : e.reaches = some (c, match a with | .connected _ => true | _ => false))
    (h : s.connect c a = some t) : Effect s e t := by
  have hgiven : ∀ {fd : ℤ} {v : State θ}, s.socket c fd = some v →
      0 ≤ fd ∧ s.table.entry fd = none ∧ v = s.given c fd (s.clients c).opened := by
    intro fd v hv
    simp only [State.socket, Option.ite_none_right_eq_some, Option.some.injEq] at hv
    obtain ⟨⟨hfd, hfree⟩, rfl⟩ := hv
    exact ⟨hfd, hfree, rfl⟩
  cases a with
  | refused =>
    rw [← Option.some.inj h]
    exact .refused hr
  | unconnected fd =>
    obtain ⟨hfd, hfree, rfl⟩ := hgiven h
    exact .given hr hfd hfree
  | connected fd =>
    obtain ⟨v, hv, rfl⟩ := Option.map_eq_some_iff.mp h
    obtain ⟨hfd, hfree, rfl⟩ := hgiven hv
    have heffect := Effect.given hr hfd hfree
    simpa [State.given, State.setClient] using heffect

theorem Effect.of_step (h : Step s e t) : Effect s e t := by
  unfold Step at h
  cases e with
  | open' c found a =>
    cases found with
    | false =>
      rw [← Option.some.inj h]
      exact .same rfl
    | true => exact .of_connect (by cases a <;> rfl) h
  | openAddress c a => exact .of_connect (by cases a <;> rfl) h
  | close c shut =>
    cases shut with
    | false =>
      rw [← Option.some.inj h]
      exact .same rfl
    | true =>
      obtain ⟨x, hx, rfl⟩ := Option.map_eq_some_iff.mp h
      exact .closes rfl hx

theorem setClient_self {k : Client} : (s.setClient c k).clients c = k := Function.update_self _ _ _

theorem setClient_of_ne {k : Client} (h : d ≠ c) : (s.setClient c k).clients d = s.clients d :=
  Function.update_of_ne h _ _

structure Known (es : List (Event θ)) (s : State θ) : Prop where
  serial : s.table.Serial
  below : ∀ c, ∀ k ∈ (s.clients c).opened, k < s.table.made
  negative : s.table.entry (-1) = none
  stale : ∀ c, ¬ Open c es → ∀ k ∈ (s.clients c).opened,
    ∀ x ∈ s.table.entry (s.clients c).socket_fd, x.2 ≠ k

theorem Known.initial (others : List ℤ) : Known [] (State.initial (θ := θ) others) := by
  refine ⟨?_, ?_, ?_, ?_⟩
  · intro n x hx
    simp only [State.initial, Option.mem_def, Option.ite_none_right_eq_some] at hx
    rw [← Option.some.inj hx.2]
    exact Nat.zero_lt_one
  · intro c k hk
    contradiction
  · simp [State.initial]
  · intro c _ k hk
    contradiction

theorem Known.moved {b : Bool} {table : Handles ℤ (Owner θ)} {k : Client} (h : Known es s)
    (hr : e.reaches = some (c, b)) (hserial : table.Serial) (hmade : s.table.made ≤ table.made)
    (hnegative : table.entry (-1) = none) (hbelow : ∀ j ∈ k.opened, j < table.made)
    (hstale : b = false → ∀ j ∈ k.opened, ∀ x ∈ table.entry k.socket_fd, x.2 ≠ j)
    (hnew : ∀ n, ∀ x ∈ table.entry n, x ∈ s.table.entry n ∨ x.2 = s.table.made) :
    Known (es ++ [e]) ({ s with table := table }.setClient c k) := by
  refine ⟨hserial, fun d j hj => ?_, hnegative, fun d hd j hj x hx => ?_⟩
  · by_cases hdc : d = c
    · subst hdc
      rw [setClient_self] at hj
      exact hbelow j hj
    · rw [setClient_of_ne hdc] at hj
      exact Nat.lt_of_lt_of_le (h.below d j hj) hmade
  · by_cases hdc : d = c
    · subst hdc
      rw [setClient_self] at hj hx
      rw [open_snoc_self hr, Bool.not_eq_true] at hd
      exact hstale hd j hj x hx
    · rw [setClient_of_ne hdc] at hj hx
      rw [open_snoc_of_ne (by simpa [hr] using Ne.symm hdc)] at hd
      rcases hnew _ x hx with hx | hx
      · exact h.stale d hd j hj x hx
      · have hlt := h.below d j hj
        omega

theorem Known.step (h : Known es s) (hs : Step s e t) : Known (es ++ [e]) t := by
  cases Effect.of_step hs with
  | same hr =>
    refine ⟨h.serial, h.below, h.negative, fun c hc => h.stale c ?_⟩
    rwa [open_snoc_of_ne (by simp [hr])] at hc
  | @refused c hr =>
    refine h.moved hr h.serial (Nat.le_refl _) h.negative (h.below c) (fun _ j _ x hx => ?_)
      fun n x hx => Or.inl hx
    rw [h.negative] at hx
    contradiction
  | @given c fd b hr hfd hfree =>
    refine h.moved hr h.serial.give (Nat.le_succ _) ?_ (fun j hj => ?_) (fun hb j hj x hx => ?_)
      fun n x hx => ?_
    · rw [Handles.entry_give_of_ne (by omega)]
      exact h.negative
    · rw [Handles.made_give]
      split_ifs at hj
      · rw [← Option.some.inj hj]
        exact Nat.lt_succ_self _
      · exact Nat.lt_succ_of_lt (h.below c j hj)
    · rw [hb] at hj
      have hlt := h.below c j hj
      rw [Handles.entry_give_self, Option.mem_def, Option.some.injEq] at hx
      rw [← hx]
      exact Nat.ne_of_gt hlt
    · rcases Handles.mem_entry_give.mp hx with ⟨-, rfl⟩ | ⟨-, hx⟩
      · exact Or.inr rfl
      · exact Or.inl hx
  | @closes c x he hx =>
    have hr : e.reaches = some (c, false) := by
      rw [he]
      rfl
    refine h.moved hr h.serial.take (Nat.le_refl _) ?_ (fun j hj => ?_) (fun _ j _ y hy => ?_)
      fun n y hy => Or.inl (Handles.mem_entry_take.mp hy).2
    · cases hfree : (s.table.take (s.clients c).socket_fd).entry (-1) with
      | none => rfl
      | some y =>
        have hy := (Handles.mem_entry_take.mp hfree).2
        rw [h.negative] at hy
        contradiction
    · split_ifs at hj
      · contradiction
      · exact h.below c j hj
    · rw [Handles.entry_take_self] at hy
      contradiction

def Held (es : List (Event θ)) (s : State θ) : Prop := ∀ c, Open c es → s.Own c

theorem Held.moved {b : Bool} {table : Handles ℤ (Owner θ)} {k : Client} (h : Held es s)
    (hr : e.reaches = some (c, b))
    (hkeeps : ∀ d ≠ c, ∀ j n, (.client d, j) ∈ s.table.entry n → (.client d, j) ∈ table.entry n)
    (hown : b = true → ∃ j ∈ k.opened, (.client c, j) ∈ table.entry k.socket_fd) :
    Held (es ++ [e]) ({ s with table := table }.setClient c k) := by
  intro d hd
  by_cases hdc : d = c
  · subst hdc
    rw [open_snoc_self hr] at hd
    rw [State.Own, setClient_self]
    exact hown hd
  · rw [open_snoc_of_ne (by simpa [hr] using Ne.symm hdc)] at hd
    obtain ⟨j, hj, hentry⟩ := h d hd
    rw [State.Own, setClient_of_ne hdc]
    exact ⟨j, hj, hkeeps d hdc j _ hentry⟩

theorem Held.step (h : Held es s) (hclose : ∀ c, e = .close c true → s.Own c)
    (hs : Step s e t) : Held (es ++ [e]) t := by
  cases Effect.of_step hs with
  | same hr =>
    intro c hc
    rw [open_snoc_of_ne (by simp [hr])] at hc
    exact h c hc
  | refused hr => exact h.moved hr (fun _ _ _ _ hentry => hentry) nofun
  | @given c fd b hr hfd hfree =>
    refine h.moved hr (fun d hd j n hentry => Handles.give_keeps hfree hentry) fun hb => ?_
    rw [if_pos hb]
    exact ⟨s.table.made, rfl, Handles.entry_give_self⟩
  | @closes c x he hx =>
    obtain ⟨k, hk, hentry⟩ := hclose c he
    have hr : e.reaches = some (c, false) := by
      rw [he]
      rfl
    refine h.moved hr (fun d hd j n hother => ?_) nofun
    refine Handles.take_keeps hother fun hsame => ?_
    rw [Option.mem_def.mp hsame, Option.mem_def, Option.some.injEq, Prod.mk.injEq] at hentry
    exact hd (Owner.client.inj hentry.1)

theorem known (run : Run Step (State.initial others) es s) : Known es s :=
  run.history_invariant (fun _ _ _ _ h => h.step) (Known.initial others)

/-- Whatever numbers the kernel gives out again, every `close` that shuts something down takes
what the client itself has opened, exactly when every such `close` is made on an open client. -/
theorem closes_own_iff (others : List ℤ) (es : List (Event θ)) :
    (∀ fs c t u, fs ++ [.close c true] <+: es → Run Step (State.initial others) fs t →
      Step t (.close c true) u → t.Own c) ↔
    ∀ fs c t u, fs ++ [.close c true] <+: es → Run Step (State.initial others) fs t →
      Step t (.close c true) u → Open c fs := by
  constructor
  · intro hown fs c t u hfs run hs
    obtain ⟨k, hk, hentry⟩ := hown fs c t u hfs run hs
    by_contra hopen
    exact (known run).stale c hopen k hk _ hentry rfl
  · intro hopen fs c t u hfs run hs
    have hheld : Held fs t := by
      refine Run.history_invariant_of_takes (I := Held) nofun (fun gs t e u hgs run hs h => ?_)
        ((List.prefix_append _ _).trans hfs) run
      refine h.step (fun c he => h c ?_) hs
      subst he
      exact hopen gs c t u hgs run hs
    exact hheld c (hopen fs c t u hfs run hs)

end

def reused : List (Event (Fin 2)) :=
  let first : Fin 2 := ⟨0, Nat.zero_lt_two⟩
  let second : Fin 2 := ⟨1, Nat.one_lt_two⟩
  [.open' first true (.connected 3), .close first true, .open' second true (.connected 3)]

theorem closed_twice_takes_other : ¬ ∀ (others : List ℤ) (es : List (Event (Fin 2))) (c : Fin 2)
    (t u : State (Fin 2)), Run Step (State.initial others) es t → Step t (.close c true) u →
      t.Own c := by
  intro hall
  have hend : ∃ t ∈ reused.foldlM State.advance (State.initial [0, 1, 2]),
      (t.advance (.close ⟨0, Nat.zero_lt_two⟩ true)).isSome = true ∧
        (t.clients ⟨0, Nat.zero_lt_two⟩).opened = none := by
    decide +kernel
  obtain ⟨t, ht, hclose, hopened⟩ := hend
  obtain ⟨u, hu⟩ := Option.isSome_iff_exists.mp hclose
  obtain ⟨k, hk, -⟩ := hall [0, 1, 2] reused _ t u (Run.iff_foldlM.mpr ht) hu
  rw [hopened] at hk
  contradiction

end SwiftRobot.Descriptors
