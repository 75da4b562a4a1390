import Mathlib.Order.Defs.LinearOrder
import Mathlib.Order.Lattice
import Mathlib.Data.List.Basic

/-!
# Maps kept as key-sorted lists

The entries are strictly sorted by key, and the proof of it is a field: iterating a
map in key order is iterating its list, and a search for the first entry with a
property finds the one with the least key.
-/

namespace SwiftRobot

structure OrderedMap (κ β : Type) [LinearOrder κ] where
  entries : List (κ × β)
  sorted : entries.Pairwise (fun a b => a.1 < b.1)

namespace OrderedMap
variable {κ β : Type} [LinearOrder κ]

def empty : OrderedMap κ β := ⟨[], List.Pairwise.nil⟩

def find? (m : OrderedMap κ β) (k : κ) : Option β := m.entries.lookup k

def place (k : κ) (v : β) : List (κ × β) → List (κ × β)
  | [] => [(k, v)]
  | (k', v') :: rest =>
    if k < k' then (k, v) :: (k', v') :: rest
    else if k = k' then (k, v) :: rest
    else (k', v') :: place k v rest

theorem mem_place {k : κ} {v : β} {e : κ × β} {l : List (κ × β)} (h : e ∈ place k v l) :
    e = (k, v) ∨ e ∈ l := by
  induction l with
  | nil => simpa [place] using h
  | cons a rest ih =>
    obtain ⟨k', v'⟩ := a
    simp only [place] at h
    split_ifs at h with h1 h2
    · simpa using h
    · rcases List.mem_cons.mp h with rfl | h
      · exact Or.inl rfl
      · exact Or.inr (List.mem_cons_of_mem _ h)
    · rcases List.mem_cons.mp h with rfl | h
      · exact Or.inr List.mem_cons_self
      · rcases ih h with h | h
        · exact Or.inl h
        · exact Or.inr (List.mem_cons_of_mem _ h)

theorem place_sorted (k : κ) (v : β) {l : List (κ × β)}
    (h : l.Pairwise (fun a b => a.1 < b.1)) :
    (place k v l).Pairwise (fun a b => a.1 < b.1) := by
  induction l with
  | nil => simp [place]
  | cons a rest ih =>
    obtain ⟨k', v'⟩ := a
    obtain ⟨hhead, htail⟩ := List.pairwise_cons.mp h
    simp only [place]
    split_ifs with h1 h2
    · refine List.pairwise_cons.mpr ⟨?_, h⟩
      intro b hb
      rcases List.mem_cons.mp hb with rfl | hb
      · exact h1
      · exact h1.trans (hhead b hb)
    · subst h2
      exact List.pairwise_cons.mpr ⟨hhead, htail⟩
    · refine List.pairwise_cons.mpr ⟨?_, ih htail⟩
      intro b hb
      rcases mem_place hb with rfl | hb
      · exact lt_of_le_of_ne (not_lt.mp h1) (Ne.symm h2)
      · exact hhead b hb

def insert (m : OrderedMap κ β) (k : κ) (v : β) : OrderedMap κ β :=
  ⟨place k v m.entries, place_sorted k v m.sorted⟩

def insertAll (m : OrderedMap κ β) (entries : List (κ × β)) : OrderedMap κ β :=
  entries.foldl (fun m e => m.insert e.1 e.2) m

def mapValues (f : β → β) (m : OrderedMap κ β) : OrderedMap κ β :=
  ⟨m.entries.map fun e => (e.1, f e.2), by
    rw [List.pairwise_map]
    exact m.sorted⟩

@[simp] theorem find?_empty (k : κ) : (empty : OrderedMap κ β).find? k = none := rfl

@[simp] theorem find?_insert_self (m : OrderedMap κ β) (k : κ) (v : β) :
    (m.insert k v).find? k = some v := by
  obtain ⟨l, hl⟩ := m
  change (place k v l).lookup k = some v
  clear hl
  induction l with
  | nil => simp [place]
  | cons a rest ih =>
    obtain ⟨k', v'⟩ := a
    simp only [place]
    split_ifs with h1 h2
    · simp
    · simp
    · rw [List.lookup_cons, show (k == k') = false by simpa using h2]
      exact ih

theorem find?_insert_of_ne (m : OrderedMap κ β) {k j : κ} (v : β) (h : j ≠ k) :
    (m.insert k v).find? j = m.find? j := by
  obtain ⟨l, hl⟩ := m
  change (place k v l).lookup j = l.lookup j
  clear hl
  have hjk : (j == k) = false := by simpa using h
  induction l with
  | nil => simp [place, List.lookup_cons, hjk]
  | cons a rest ih =>
    obtain ⟨k', v'⟩ := a
    simp only [place]
    split_ifs with h1 h2
    · simp [List.lookup_cons, hjk]
    · subst h2
      simp [List.lookup_cons, hjk]
    · simp only [List.lookup_cons, ih]

theorem find?_insert (m : OrderedMap κ β) (k j : κ) (v : β) :
    (m.insert k v).find? j = if j = k then some v else m.find? j := by
  split_ifs with h
  · rw [h, find?_insert_self]
  · exact m.find?_insert_of_ne v h

theorem place_place (k : κ) (v w : β) (l : List (κ × β)) :
    place k w (place k v l) = place k w l := by
  induction l with
  | nil => simp [place]
  | cons a rest ih =>
    simp only [place]
    split_ifs with h1 h2
    · simp [place]
    · simp [place]
    · rw [place, if_neg h1, if_neg h2, ih]

@[simp] theorem insert_insert (m : OrderedMap κ β) (k : κ) (v w : β) :
    (m.insert k v).insert k w = m.insert k w := by
  simp only [insert, place_place]

theorem mem_entries_iff (m : OrderedMap κ β) (k : κ) (v : β) :
    (k, v) ∈ m.entries ↔ m.find? k = some v := by
  obtain ⟨l, hl⟩ := m
  change (k, v) ∈ l ↔ l.lookup k = some v
  induction l with
  | nil => simp
  | cons a rest ih =>
    obtain ⟨k', v'⟩ := a
    obtain ⟨hhead, htail⟩ := List.pairwise_cons.mp hl
    rw [List.mem_cons, List.lookup_cons, ih htail]
    by_cases hk : k = k'
    · subst hk
      have habs : rest.lookup k ≠ some v := by
        intro h
        exact absurd (hhead (k, v) ((ih htail).mpr h)) (lt_irrefl _)
      simp [habs, eq_comm]
    · have hbeq : (k == k') = false := by simpa using hk
      simp [hk, hbeq]

theorem place_of_mem {k : κ} {v : β} {l : List (κ × β)} (hl : l.Pairwise (fun a b => a.1 < b.1))
    (h : (k, v) ∈ l) : place k v l = l := by
  induction l with
  | nil => exact absurd h List.not_mem_nil
  | cons a rest ih =>
    obtain ⟨hhead, htail⟩ := List.pairwise_cons.mp hl
    rcases List.mem_cons.mp h with rfl | h
    · simp [place]
    · have hlt : a.1 < k := hhead (k, v) h
      rw [place, if_neg (not_lt.mpr hlt.le), if_neg hlt.ne', ih htail h]

theorem insert_of_find? (m : OrderedMap κ β) {k : κ} {v : β} (h : m.find? k = some v) :
    m.insert k v = m := by
  have hplace := place_of_mem m.sorted ((m.mem_entries_iff k v).mpr h)
  simp only [insert, hplace]

theorem place_last {k : κ} (v : β) {l : List (κ × β)} (h : ∀ e ∈ l, e.1 < k) :
    place k v l = l ++ [(k, v)] := by
  induction l with
  | nil => rfl
  | cons e l ih =>
    obtain ⟨hhead, hrest⟩ := List.forall_mem_cons.mp h
    rw [place, if_neg hhead.not_gt, if_neg hhead.ne', ih hrest, List.cons_append]

theorem insertAll_of_sorted (m : OrderedMap κ β) {entries : List (κ × β)}
    (h : (m.entries ++ entries).Pairwise fun a b => a.1 < b.1) :
    (m.insertAll entries).entries = m.entries ++ entries := by
  induction entries generalizing m with
  | nil => simp [insertAll]
  | cons e entries ih =>
    have hlast : (m.insert e.1 e.2).entries = m.entries ++ [e] :=
      place_last e.2 fun e' he' => (List.pairwise_append.mp h).2.2 e' he' e List.mem_cons_self
    have hih := ih (m.insert e.1 e.2) (by rwa [hlast, List.append_assoc])
    rw [hlast, List.append_assoc] at hih
    exact hih

theorem mem_insertAll {m : OrderedMap κ β} {entries : List (κ × β)} {e : κ × β}
    (h : e ∈ (m.insertAll entries).entries) : e ∈ m.entries ∨ e ∈ entries := by
  induction entries generalizing m with
  | nil => exact Or.inl h
  | cons a entries ih =>
    rcases ih h with h | h
    · rcases mem_place h with rfl | h
      · exact Or.inr List.mem_cons_self
      · exact Or.inl h
    · exact Or.inr (List.mem_cons_of_mem a h)

@[simp] theorem find?_mapValues (f : β → β) (m : OrderedMap κ β) (k : κ) :
    (m.mapValues f).find? k = (m.find? k).map f := by
  obtain ⟨l, hl⟩ := m
  change (l.map fun e => (e.1, f e.2)).lookup k = (l.lookup k).map f
  clear hl
  induction l with
  | nil => rfl
  | cons a rest ih =>
    obtain ⟨k', v'⟩ := a
    simp only [List.map_cons, List.lookup_cons, ih]
    cases k == k' <;> rfl

theorem entries_split (m : OrderedMap κ β) {k : κ} {v : β} (h : m.find? k = some v) :
    ∃ before after, m.entries = before ++ (k, v) :: after ∧
      (∀ e ∈ before, e.1 ≠ k) ∧ ∀ e ∈ after, e.1 ≠ k := by
  obtain ⟨before, after, hsplit⟩ := List.append_of_mem ((m.mem_entries_iff k v).mpr h)
  have hsorted := m.sorted
  rw [hsplit, List.pairwise_append, List.pairwise_cons] at hsorted
  obtain ⟨-, ⟨hafter, -⟩, hbefore⟩ := hsorted
  exact ⟨before, after, hsplit, fun e he => (hbefore e he (k, v) List.mem_cons_self).ne,
    fun e he => (hafter e he).ne'⟩

theorem flatMap_entries {γ : Type} (m : OrderedMap κ β) {k : κ} {v : β}
    (h : m.find? k = some v) {f : κ × β → List γ} (hf : ∀ e ∈ m.entries, e.1 ≠ k → f e = []) :
    m.entries.flatMap f = f (k, v) := by
  obtain ⟨before, after, hsplit, hbefore, hafter⟩ := m.entries_split h
  rw [hsplit] at hf ⊢
  have hb : before.flatMap f = [] := List.flatMap_eq_nil_iff.mpr fun e he =>
    hf e (List.mem_append_left _ he) (hbefore e he)
  have ha : after.flatMap f = [] := List.flatMap_eq_nil_iff.mpr fun e he =>
    hf e (List.mem_append_right _ (List.mem_cons_of_mem _ he)) (hafter e he)
  rw [List.flatMap_append, List.flatMap_cons, hb, ha, List.nil_append, List.append_nil]

theorem count_entries [BEq κ] [LawfulBEq κ] (m : OrderedMap κ β) (k : κ) (f : β → ℕ) :
    (m.entries.flatMap fun e => List.replicate (f e.2) e.1).count k =
      ((m.find? k).map f).getD 0 := by
  have hnone : ∀ l : List (κ × β), (∀ e ∈ l, e.1 ≠ k) →
      (l.flatMap fun e => List.replicate (f e.2) e.1).count k = 0 := by
    intro l hl
    rw [List.count_eq_zero, List.mem_flatMap]
    rintro ⟨e, he, hmem⟩
    exact hl e he (List.eq_of_mem_replicate hmem).symm
  cases hfind : m.find? k with
  | none =>
    refine hnone m.entries fun e he hk => ?_
    subst hk
    rw [mem_entries_iff, hfind] at he
    exact absurd he (by simp)
  | some v =>
    obtain ⟨before, after, hsplit, hbefore, hafter⟩ := m.entries_split hfind
    have hb := hnone before hbefore
    have ha := hnone after hafter
    rw [hsplit, List.flatMap_append, List.flatMap_cons, List.count_append, List.count_append, hb, ha,
      List.count_replicate_self]
    simp

def first (m : OrderedMap κ β) (p : κ × β → Bool) : Option (κ × β) := m.entries.find? p

theorem first_eq_some_iff (m : OrderedMap κ β) (p : κ × β → Bool) (k : κ) (v : β) :
    m.first p = some (k, v) ↔ m.find? k = some v ∧ p (k, v) = true ∧
      ∀ j w, m.find? j = some w → p (j, w) = true → k ≤ j := by
  simp only [first, ← mem_entries_iff]
  obtain ⟨l, hl⟩ := m
  change l.find? p = some (k, v) ↔ (k, v) ∈ l ∧ p (k, v) = true ∧
    ∀ j w, (j, w) ∈ l → p (j, w) = true → k ≤ j
  induction l with
  | nil => simp
  | cons a rest ih =>
    obtain ⟨hhead, htail⟩ := List.pairwise_cons.mp hl
    by_cases ha : p a = true
    · rw [List.find?_cons_of_pos ha, Option.some.injEq]
      constructor
      · rintro rfl
        refine ⟨List.mem_cons_self, ha, ?_⟩
        intro j w hj _
        rcases List.mem_cons.mp hj with hj | hj
        · exact (congrArg Prod.fst hj).ge
        · exact (hhead (j, w) hj).le
      · rintro ⟨hmem, -, hleast⟩
        rcases List.mem_cons.mp hmem with h | h
        · exact h.symm
        · have hle := hleast a.1 a.2 List.mem_cons_self ha
          exact absurd (hhead (k, v) h) (not_lt.mpr hle)
    · rw [List.find?_cons_of_neg ha, ih htail]
      have hskip : ∀ j w, (j, w) ∈ a :: rest → p (j, w) = true → (j, w) ∈ rest := by
        intro j w hj hp
        rcases List.mem_cons.mp hj with h | h
        · exact absurd (h ▸ hp) ha
        · exact h
      constructor
      · rintro ⟨hmem, hp, hleast⟩
        exact ⟨List.mem_cons_of_mem _ hmem, hp,
          fun j w hj hw => hleast j w (hskip j w hj hw) hw⟩
      · rintro ⟨hmem, hp, hleast⟩
        exact ⟨hskip k v hmem hp, hp, fun j w hj hw => hleast j w (List.mem_cons_of_mem _ hj) hw⟩

theorem first_eq_none_iff (m : OrderedMap κ β) (p : κ × β → Bool) :
    m.first p = none ↔ ∀ j w, m.find? j = some w → p (j, w) = false := by
  simp only [first, List.find?_eq_none, ← mem_entries_iff, Prod.forall, Bool.not_eq_true]

end OrderedMap
end SwiftRobot
