import Mathlib.Data.List.Basic

/-!
# Replicating a growing list over an ordered link

The owner of a list announces it with full snapshots and with single increments.
A replica applies the announcements in the order they were sent: a snapshot
overwrites what it held, an increment is appended. `agreement` is the general
fact behind such a link: nothing is lost when a snapshot overwrites an increment,
because the announcements as a whole replay to the owner's list. A snapshot may be
cut short by a function `trim` of the list; what it keeps is then what is replayed.
-/

namespace SwiftRobot.ListReplica
variable {α : Type}

inductive Note (α : Type)
  | snapshot (l : List α)
  | increment (a : α)
  | silent

def Note.apply (held : List α) : Note α → List α
  | .snapshot l => l
  | .increment a => held ++ [a]
  | .silent => held

def Note.carried : Note α → List α
  | .snapshot l => l
  | .increment a => [a]
  | .silent => []

def replay (held : List α) (notes : List (Note α)) : List α := notes.foldl Note.apply held

def carried (notes : List (Note α)) : List α := notes.flatMap Note.carried

@[simp] theorem replay_nil (held : List α) : replay held [] = held := rfl

theorem replay_append (held : List α) (ns ms : List (Note α)) :
    replay held (ns ++ ms) = replay (replay held ns) ms := List.foldl_append

theorem replay_snoc (held : List α) (ns : List (Note α)) (n : Note α) :
    replay held (ns ++ [n]) = n.apply (replay held ns) := by
  rw [replay_append]
  rfl

theorem mem_carried {a : α} {ns : List (Note α)} :
    a ∈ carried ns ↔ ∃ n ∈ ns, a ∈ n.carried := List.mem_flatMap

theorem carried_append (ns ms : List (Note α)) : carried (ns ++ ms) = carried ns ++ carried ms :=
  List.flatMap_append

theorem mem_of_mem_replay {a : α} {held : List α} {ns : List (Note α)}
    (h : a ∈ replay held ns) : a ∈ held ∨ a ∈ carried ns := by
  induction ns generalizing held with
  | nil => exact Or.inl h
  | cons n ns ih =>
    rw [mem_carried]
    rcases ih h with h | h
    · cases n with
      | snapshot l => exact Or.inr ⟨_, List.mem_cons_self, h⟩
      | increment b =>
        rcases List.mem_append.mp h with h | h
        · exact Or.inl h
        · exact Or.inr ⟨_, List.mem_cons_self, h⟩
      | silent => exact Or.inl h
    · obtain ⟨m, hm, ha⟩ := mem_carried.mp h
      exact Or.inr ⟨m, List.mem_cons_of_mem _ hm, ha⟩

/-- The replica has applied `applied`, and `flight` is still on its way. If the whole
history replays to the owner's list and never carries anything else, then the
replica together with what is in flight has exactly the owner's elements. -/
theorem agreement {owner : List α} {applied flight : List (Note α)}
    (hreplay : replay [] (applied ++ flight) = owner)
    (hcarried : ∀ a ∈ carried (applied ++ flight), a ∈ owner) (a : α) :
    (a ∈ replay [] applied ∨ a ∈ carried flight) ↔ a ∈ owner := by
  constructor
  · rintro (h | h)
    · rcases mem_of_mem_replay h with h | h
      · exact absurd h List.not_mem_nil
      · exact hcarried a (by rw [carried_append]; exact List.mem_append_left _ h)
    · exact hcarried a (by rw [carried_append]; exact List.mem_append_right _ h)
  · intro h
    rw [← hreplay, replay_append] at h
    exact mem_of_mem_replay h

def Note.IsSnapshot : Note α → Prop
  | .snapshot _ => True
  | _ => False

def Note.later (added : List α) : Note α → List α
  | .snapshot _ => []
  | .increment a => added ++ [a]
  | .silent => added

def later (notes : List (Note α)) : List α := notes.foldl Note.later []

theorem later_snoc (ns : List (Note α)) (n : Note α) : later (ns ++ [n]) = n.later (later ns) := by
  simp [later]

/-- The owner of a list tells of it: first a snapshot, then every new element as it
comes, and at any time the list again or something else. -/
inductive Told (trim : List α → List α) : List α → List (Note α) → Prop
  | begin (l : List α) : Told trim l [.snapshot (trim l)]
  | snapshot {l : List α} {ns : List (Note α)} : Told trim l ns →
    Told trim l (ns ++ [.snapshot (trim l)])
  | increment {l : List α} {ns : List (Note α)} (a : α) : Told trim l ns →
    Told trim (l ++ [a]) (ns ++ [.increment a])
  | silent {l : List α} {ns : List (Note α)} : Told trim l ns → Told trim l (ns ++ [.silent])

section
variable {trim : List α → List α} {l : List α} {ns : List (Note α)}

theorem Told.head (h : Told trim l ns) : ∃ n rest, ns = n :: rest ∧ n.IsSnapshot := by
  induction h with
  | begin l => exact ⟨_, _, rfl, trivial⟩
  | snapshot _ ih | increment _ _ ih | silent _ ih =>
    obtain ⟨n, rest, rfl, hn⟩ := ih
    exact ⟨n, _, rfl, hn⟩

theorem Told.split (h : Told trim l ns) :
    ∃ base, l = base ++ later ns ∧ replay [] ns = trim base ++ later ns := by
  induction h with
  | begin l => exact ⟨l, by simp [later, Note.later], by simp [replay, later, Note.apply, Note.later]⟩
  | @snapshot l ns _ ih => exact ⟨l, by simp [later_snoc, Note.later],
      by simp [later_snoc, replay_snoc, Note.later, Note.apply]⟩
  | increment a _ ih =>
    obtain ⟨base, hl, hr⟩ := ih
    refine ⟨base, ?_, ?_⟩
    · rw [later_snoc, Note.later, ← List.append_assoc, ← hl]
    · rw [later_snoc, replay_snoc, hr, Note.later, Note.apply, List.append_assoc]
  | silent _ ih =>
    obtain ⟨base, hl, hr⟩ := ih
    exact ⟨base, by rw [later_snoc]; exact hl, by rw [later_snoc, replay_snoc]; exact hr⟩

theorem Told.mem_of_carried (htrim : ∀ l, trim l ⊆ l) (h : Told trim l ns) {a : α}
    (ha : a ∈ carried ns) : a ∈ l := by
  induction h with
  | begin l => exact htrim l (by simpa [carried, Note.carried] using ha)
  | snapshot _ ih =>
    rw [carried_append, List.mem_append] at ha
    rcases ha with ha | ha
    · exact ih ha
    · exact htrim _ (by simpa [carried, Note.carried] using ha)
  | increment b _ ih =>
    rw [carried_append, List.mem_append] at ha
    rcases ha with ha | ha
    · exact List.mem_append_left _ (ih ha)
    · exact List.mem_append_right _ (by simpa [carried, Note.carried] using ha)
  | silent _ ih => exact ih (by simpa [carried, Note.carried] using ha)

def surviving (trim : List α → List α) (l : List α) (ns : List (Note α)) : List α :=
  trim (l.take (l.length - (later ns).length)) ++ later ns

theorem Told.replay_eq (h : Told trim l ns) : replay [] ns = surviving trim l ns := by
  obtain ⟨base, hl, hr⟩ := h.split
  have hbase : l.take (l.length - (later ns).length) = base := by
    conv_lhs => rw [hl]
    simp
  rw [hr, surviving, hbase]

theorem Told.mem_of_surviving (htrim : ∀ l, trim l ⊆ l) (h : Told trim l ns) {a : α}
    (ha : a ∈ surviving trim l ns) : a ∈ l := by
  rw [← h.replay_eq] at ha
  rcases mem_of_mem_replay ha with ha | ha
  · exact absurd ha List.not_mem_nil
  · exact h.mem_of_carried htrim ha

theorem Told.surviving_eq (hwhole : ∀ k, trim (l.take k) = l.take k) (h : Told trim l ns) :
    surviving trim l ns = l := by
  obtain ⟨base, hl, -⟩ := h.split
  rw [surviving, hwhole]
  conv_rhs => rw [← List.take_append_drop (l.length - (later ns).length) l]
  rw [List.append_cancel_left_eq]
  conv_rhs => rw [hl]
  simp

theorem Told.agreement {applied flight : List (Note α)} (htrim : ∀ l, trim l ⊆ l)
    (hwhole : ∀ k, trim (l.take k) = l.take k) (h : Told trim l (applied ++ flight)) (a : α) :
    (a ∈ replay [] applied ∨ a ∈ carried flight) ↔ a ∈ l := by
  have hreplay : replay [] (applied ++ flight) = l := by
    rw [h.replay_eq, h.surviving_eq hwhole]
  exact ListReplica.agreement hreplay (fun b hb => h.mem_of_carried htrim hb) a

end

end SwiftRobot.ListReplica
