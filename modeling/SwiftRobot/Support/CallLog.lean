import Mathlib.Data.List.Nodup
import Mathlib.Logic.Function.Basic
import SwiftRobot.Support.Runs

/-!
# Calls to listeners

A call is made to a key and then offered to the listeners of that key, one after the
other. Calls overlap, and listeners come while calls are under way. The order in which
a listener is offered its calls goes through the calls to its key since it came, and
respects real time: a call that had returned when another one began does not come after
it.
-/

namespace SwiftRobot

/-- Listeners are numbered as they come, each with its key and the number of calls that
had begun before; calls are numbered as they begin. `pending` has the listeners that a
call under way is still to be offered to, and an offer is a listener and a call. -/
structure CallLog (κ : Type) where
  listeners : List (κ × ℕ)
  calls : List κ
  offers : List (ℕ × ℕ)
  pending : ℕ → Option (List ℕ)
  ended : List ℕ
  endedBefore : ℕ → List ℕ

namespace CallLog
variable {κ : Type} {g h : CallLog κ}

inductive Step (g : CallLog κ) : CallLog κ → Prop
  | join (key : κ) : Step g { g with listeners := g.listeners ++ [(key, g.calls.length)] }
  | begin (key : κ) (l : List ℕ) : l.Nodup →
    (∀ s, s ∈ l ↔ ∃ since, g.listeners[s]? = some (key, since)) →
    Step g
      { g with
        calls := g.calls ++ [key]
        pending := Function.update g.pending g.calls.length (some l)
        endedBefore := Function.update g.endedBefore g.calls.length g.ended }
  | offer {call s : ℕ} {rest : List ℕ} : g.pending call = some (s :: rest) →
    Step g
      { g with
        offers := g.offers ++ [(s, call)]
        pending := Function.update g.pending call (some rest) }
  | finish {call : ℕ} : g.pending call = some [] →
    Step g
      { g with
        pending := Function.update g.pending call none
        ended := g.ended ++ [call] }

def Hears (g : CallLog κ) (s k : ℕ) : Prop :=
  ∃ key since, g.listeners[s]? = some (key, since) ∧ g.calls[k]? = some key ∧ since ≤ k

theorem Hears.lt {s k : ℕ} (hh : g.Hears s k) : k < g.calls.length := by
  obtain ⟨key, since, -, hk, -⟩ := hh
  exact (List.getElem?_eq_some_iff.mp hk).1

theorem getElem?_of_prefix {α : Type} {l m : List α} {i : ℕ} {a : α} (hlm : l <+: m)
    (h : l[i]? = some a) : m[i]? = some a := by
  obtain ⟨t, rfl⟩ := hlm
  rw [List.getElem?_append_left (List.getElem?_eq_some_iff.mp h).1, h]

theorem Hears.mono {s k : ℕ} (hh : g.Hears s k) (hl : g.listeners <+: h.listeners)
    (hc : g.calls <+: h.calls) : h.Hears s k := by
  obtain ⟨key, since, hs, hk, hle⟩ := hh
  exact ⟨key, since, getElem?_of_prefix hl hs, getElem?_of_prefix hc hk, hle⟩

theorem hears_of_join {key : κ} {s k : ℕ}
    (hh : Hears { g with listeners := g.listeners ++ [(key, g.calls.length)] } s k) :
    g.Hears s k := by
  obtain ⟨key', since, hs, hk, hle⟩ := hh
  refine ⟨key', since, ?_, hk, hle⟩
  have hlt : k < g.calls.length := (List.getElem?_eq_some_iff.mp hk).1
  simp only [List.getElem?_append] at hs
  split_ifs at hs with hslt
  · exact hs
  · obtain ⟨_, hlast⟩ := List.getElem?_eq_some_iff.mp hs
    simp only [List.getElem_singleton, Prod.mk.injEq] at hlast
    omega

theorem hears_of_begin {key : κ} {s k : ℕ} (hh : h.Hears s k) (hl : h.listeners = g.listeners)
    (hc : h.calls = g.calls ++ [key]) :
    g.Hears s k ∨ k = g.calls.length ∧ ∃ since, g.listeners[s]? = some (key, since) := by
  obtain ⟨key', since, hs, hk, hle⟩ := hh
  rw [hl] at hs
  rw [hc] at hk
  by_cases hkl : k = g.calls.length
  · subst hkl
    have hkey : key = key' := by simpa using hk
    exact Or.inr ⟨rfl, since, hkey ▸ hs⟩
  · have hlt : k < g.calls.length := by
      have hle := (List.getElem?_eq_some_iff.mp hk).1
      simp only [List.length_append, List.length_singleton] at hle
      omega
    rw [List.getElem?_append_left hlt] at hk
    exact Or.inl ⟨key', since, hs, hk, hle⟩

structure Awaits (g : CallLog κ) (k : ℕ) (l : List ℕ) : Prop where
  notEnded : k ∉ g.ended
  nodup : l.Nodup
  hears : ∀ s ∈ l, g.Hears s k
  fresh : ∀ s ∈ l, (s, k) ∉ g.offers
  lt : k < g.calls.length

structure Sound (g : CallLog κ) : Prop where
  since : ∀ (s : ℕ) (key : κ) (n : ℕ), g.listeners[s]? = some (key, n) → n ≤ g.calls.length
  awaits : ∀ k l, g.pending k = some l → g.Awaits k l
  hears : ∀ s k, (s, k) ∈ g.offers → g.Hears s k
  once : g.offers.Nodup
  realTime : g.offers.Pairwise (fun a b => b.2 ∉ g.endedBefore a.2)
  ended : ∀ k ∈ g.ended, k < g.calls.length
  before : ∀ j k, k ∈ g.endedBefore j → k ∈ g.ended ∧ k < j
  complete : ∀ s k, g.Hears s k → (s, k) ∈ g.offers ∨ ∃ l, g.pending k = some l ∧ s ∈ l

theorem Sound.join (hg : g.Sound) (key : κ) :
    Sound { g with listeners := g.listeners ++ [(key, g.calls.length)] } := by
  set h : CallLog κ := { g with listeners := g.listeners ++ [(key, g.calls.length)] }
  have hmono : ∀ s k, g.Hears s k → h.Hears s k := fun s k hh =>
    hh.mono (List.prefix_append _ _) List.prefix_rfl
  constructor
  · intro s key' since hs
    simp only [h, List.getElem?_append] at hs
    split_ifs at hs with hslt
    · exact hg.since s key' since hs
    · obtain ⟨_, hlast⟩ := List.getElem?_eq_some_iff.mp hs
      simp only [List.getElem_singleton, Prod.mk.injEq] at hlast
      exact Nat.le_of_eq hlast.2.symm
  · intro k l hk
    have ha := hg.awaits k l hk
    exact ⟨ha.notEnded, ha.nodup, fun s hs => hmono s k (ha.hears s hs), ha.fresh, ha.lt⟩
  · exact fun s k ho => hmono s k (hg.hears s k ho)
  · exact hg.once
  · exact hg.realTime
  · exact hg.ended
  · exact hg.before
  · exact fun s k hh => hg.complete s k (hears_of_join hh)

theorem Sound.begin (hg : g.Sound) (key : κ) {l : List ℕ} (hl : l.Nodup)
    (hlisted : ∀ s, s ∈ l ↔ ∃ since, g.listeners[s]? = some (key, since)) :
    Sound
      { g with
        calls := g.calls ++ [key]
        pending := Function.update g.pending g.calls.length (some l)
        endedBefore := Function.update g.endedBefore g.calls.length g.ended } := by
  set h : CallLog κ :=
    { g with
      calls := g.calls ++ [key]
      pending := Function.update g.pending g.calls.length (some l)
      endedBefore := Function.update g.endedBefore g.calls.length g.ended }
  have hlen : h.calls.length = g.calls.length + 1 := by simp [h]
  have hmono : ∀ s k, g.Hears s k → h.Hears s k := fun s k hh =>
    hh.mono List.prefix_rfl (List.prefix_append _ _)
  have hbefore : ∀ j, j ≠ g.calls.length → h.endedBefore j = g.endedBefore j := fun j hj =>
    Function.update_of_ne hj _ _
  constructor
  · intro s key' since hs
    have hle := hg.since s key' since hs
    omega
  · intro k l' hk
    by_cases hkl : k = g.calls.length
    · subst hkl
      have hll : l' = l := by simpa [h, eq_comm] using hk
      subst hll
      refine ⟨fun hend => absurd (hg.ended _ hend) (Nat.lt_irrefl _), hl, fun s hs => ?_,
        fun s _ ho => absurd (hg.hears s _ ho).lt (Nat.lt_irrefl _), by omega⟩
      obtain ⟨since, hs⟩ := (hlisted s).mp hs
      exact ⟨key, since, hs, by simp [h], hg.since s key since hs⟩
    · simp only [h, Function.update_of_ne hkl] at hk
      have ha := hg.awaits k l' hk
      exact ⟨ha.notEnded, ha.nodup, fun s hs => hmono s k (ha.hears s hs), ha.fresh,
        by have := ha.lt; omega⟩
  · exact fun s k ho => hmono s k (hg.hears s k ho)
  · exact hg.once
  · refine hg.realTime.imp_of_mem fun {a b} ha _ hab => ?_
    have hne : a.2 ≠ g.calls.length := Nat.ne_of_lt (hg.hears a.1 a.2 ha).lt
    rwa [hbefore _ hne]
  · intro k hk
    have hlt := hg.ended k hk
    omega
  · intro j k hk
    by_cases hj : j = g.calls.length
    · simp only [h, hj, Function.update_self] at hk
      exact ⟨hk, hj ▸ hg.ended k hk⟩
    · rw [hbefore j hj] at hk
      exact hg.before j k hk
  · intro s k hh
    rcases hears_of_begin hh (g := g) rfl rfl with hh | ⟨rfl, since, hs⟩
    · rcases hg.complete s k hh with ho | ⟨l', hl', hsl⟩
      · exact Or.inl ho
      · have hkl : k ≠ g.calls.length := Nat.ne_of_lt hh.lt
        exact Or.inr ⟨l', by simp only [h, Function.update_of_ne hkl, hl'], hsl⟩
    · exact Or.inr ⟨l, by simp [h], (hlisted s).mpr ⟨since, hs⟩⟩

theorem Sound.offer (hg : g.Sound) {call s : ℕ} {rest : List ℕ}
    (hp : g.pending call = some (s :: rest)) :
    Sound
      { g with
        offers := g.offers ++ [(s, call)]
        pending := Function.update g.pending call (some rest) } := by
  set h : CallLog κ :=
    { g with
      offers := g.offers ++ [(s, call)]
      pending := Function.update g.pending call (some rest) }
  have ha := hg.awaits call _ hp
  obtain ⟨hs, hrest⟩ := List.nodup_cons.mp ha.nodup
  have hoffers : ∀ p, p ∈ h.offers ↔ p ∈ g.offers ∨ p = (s, call) := by simp [h]
  constructor
  · exact hg.since
  · intro k l hk
    by_cases hkc : k = call
    · subst hkc
      have hll : l = rest := by simpa [h, eq_comm] using hk
      subst hll
      refine ⟨ha.notEnded, hrest, fun t ht => ha.hears t (List.mem_cons_of_mem _ ht),
        fun t ht ho => ?_, ha.lt⟩
      rcases (hoffers _).mp ho with ho | ho
      · exact ha.fresh t (List.mem_cons_of_mem _ ht) ho
      · have hts : t = s := congrArg Prod.fst ho
        exact hs (hts ▸ ht)
    · simp only [h, Function.update_of_ne hkc] at hk
      have hk' := hg.awaits k l hk
      refine ⟨hk'.notEnded, hk'.nodup, hk'.hears, fun t ht ho => ?_, hk'.lt⟩
      rcases (hoffers _).mp ho with ho | ho
      · exact hk'.fresh t ht ho
      · exact hkc (congrArg Prod.snd ho)
  · intro t k ho
    rcases (hoffers _).mp ho with ho | ho
    · exact hg.hears t k ho
    · obtain ⟨rfl, rfl⟩ := Prod.mk.injEq .. ▸ ho
      exact ha.hears _ List.mem_cons_self
  · exact hg.once.append (List.nodup_singleton _)
      (List.disjoint_singleton.mpr (ha.fresh s List.mem_cons_self))
  · refine List.pairwise_append.mpr ⟨hg.realTime, List.pairwise_singleton _ _, ?_⟩
    intro a _ b hb hab
    rw [List.mem_singleton.mp hb] at hab
    exact ha.notEnded (hg.before _ _ hab).1
  · exact hg.ended
  · exact hg.before
  · intro t k hh
    rcases hg.complete t k hh with ho | ⟨l, hl, ht⟩
    · exact Or.inl ((hoffers _).mpr (Or.inl ho))
    · by_cases hkc : k = call
      · subst hkc
        have hll : l = s :: rest := Option.some.inj (hl.symm.trans hp)
        subst hll
        rcases List.mem_cons.mp ht with rfl | ht
        · exact Or.inl ((hoffers _).mpr (Or.inr rfl))
        · exact Or.inr ⟨rest, by simp [h], ht⟩
      · exact Or.inr ⟨l, by simp only [h, Function.update_of_ne hkc, hl], ht⟩

theorem Sound.finish (hg : g.Sound) {call : ℕ} (hp : g.pending call = some []) :
    Sound
      { g with
        pending := Function.update g.pending call none
        ended := g.ended ++ [call] } := by
  set h : CallLog κ :=
    { g with
      pending := Function.update g.pending call none
      ended := g.ended ++ [call] }
  have hpending : ∀ k l, h.pending k = some l → k ≠ call ∧ g.pending k = some l := by
    intro k l hk
    by_cases hkc : k = call
    · simp [h, hkc] at hk
    · exact ⟨hkc, by simpa only [h, Function.update_of_ne hkc] using hk⟩
  have hended : ∀ k, k ∈ h.ended ↔ k ∈ g.ended ∨ k = call := by simp [h]
  constructor
  · exact hg.since
  · intro k l hk
    obtain ⟨hkc, hk⟩ := hpending k l hk
    have ha := hg.awaits k l hk
    refine ⟨fun hend => ?_, ha.nodup, ha.hears, ha.fresh, ha.lt⟩
    rcases (hended k).mp hend with hend | hend
    · exact ha.notEnded hend
    · exact hkc hend
  · exact hg.hears
  · exact hg.once
  · exact hg.realTime
  · intro k hk
    rcases (hended k).mp hk with hk | rfl
    · exact hg.ended k hk
    · exact (hg.awaits _ _ hp).lt
  · exact fun j k hk => ⟨(hended k).mpr (Or.inl (hg.before j k hk).1), (hg.before j k hk).2⟩
  · intro s k hh
    rcases hg.complete s k hh with ho | ⟨l, hl, hs⟩
    · exact Or.inl ho
    · have hkc : k ≠ call := by
        rintro rfl
        have hnil : l = [] := Option.some.inj (hl.symm.trans hp)
        exact absurd (hnil ▸ hs) List.not_mem_nil
      exact Or.inr ⟨l, by simp only [h, Function.update_of_ne hkc, hl], hs⟩

def empty : CallLog κ := ⟨[], [], [], fun _ => none, [], fun _ => []⟩

theorem sound_empty : (empty : CallLog κ).Sound := by
  constructor <;> simp [empty, Hears]

theorem Sound.step (hg : g.Sound) (hs : g.Step h) : h.Sound := by
  cases hs with
  | join key => exact hg.join key
  | begin key l hl hlisted => exact hg.begin key hl hlisted
  | offer hp => exact hg.offer hp
  | finish hp => exact hg.finish hp

def offered (g : CallLog κ) (s : ℕ) : List ℕ := (g.offers.filter (·.1 = s)).map (·.2)

theorem mem_offered {s k : ℕ} : k ∈ g.offered s ↔ (s, k) ∈ g.offers := by
  simp [offered]

theorem Sound.order (hg : g.Sound) (s : ℕ) :
    ∃ later, (g.offered s ++ later).Nodup ∧ (∀ k, k ∈ g.offered s ++ later ↔ g.Hears s k) ∧
      (g.offered s ++ later).Pairwise (fun j k => k ∉ g.endedBefore j) := by
  classical
  let later := (List.range g.calls.length).filter fun k => g.Hears s k ∧ (s, k) ∉ g.offers
  have hlater : ∀ k, k ∈ later ↔ g.Hears s k ∧ (s, k) ∉ g.offers := by
    intro k
    simp only [later, List.mem_filter, List.mem_range, decide_eq_true_eq]
    exact and_iff_right_of_imp fun h => h.1.lt
  have hnodup : (g.offered s).Nodup := by
    refine List.Nodup.map_on ?_ (hg.once.filter _)
    intro a ha b hb hab
    have ha' : a.1 = s := by simpa using (List.mem_filter.mp ha).2
    have hb' : b.1 = s := by simpa using (List.mem_filter.mp hb).2
    exact Prod.ext (ha'.trans hb'.symm) hab
  refine ⟨later, ?_, fun k => ?_, List.pairwise_append.mpr ⟨?_, ?_, ?_⟩⟩
  · refine hnodup.append (List.nodup_range.filter _) fun k hk hk' => ?_
    exact ((hlater k).mp hk').2 (mem_offered.mp hk)
  · rw [List.mem_append, mem_offered, hlater]
    constructor
    · rintro (ho | ⟨hh, -⟩)
      · exact hg.hears s k ho
      · exact hh
    · intro hh
      by_cases ho : (s, k) ∈ g.offers
      · exact Or.inl ho
      · exact Or.inr ⟨hh, ho⟩
  · exact List.pairwise_map.mpr (hg.realTime.filter _)
  · refine (List.pairwise_lt_range.filter _).imp fun {j k} hjk hk => ?_
    exact absurd (hg.before j k hk).2 (by omega)
  · -- a call that has yet to be offered has not returned
    intro j _ k hk hkj
    obtain ⟨hh, ho⟩ := (hlater k).mp hk
    rcases hg.complete s k hh with ho' | ⟨l, hl, -⟩
    · exact ho ho'
    · exact (hg.awaits k l hl).notEnded (hg.before j k hkj).1

end CallLog
end SwiftRobot
