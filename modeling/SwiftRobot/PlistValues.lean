import SwiftRobot.Plist
import SwiftRobot.Support.OrderedMap

/-!
# The values of a property list

A value is a scalar, an array of values or a dictionary. The entries of a dictionary
are a `std::map`: `Keyed` says that every dictionary inside has its keys in order,
and `entriesOf` is what assigning keys one after another leaves.
-/

namespace SwiftRobot.Plist
open ByteWords

/-- The values that hold no others; `other` is any type the writers do not know. -/
inductive Scalar
  | int32 (v : Int32)
  | int64 (v : Int64)
  | short (v : Int16)
  | string (s : Bytes)
  | data (bs : Bytes)
  | double (v : DoubleBits)
  | float (v : FloatBits)
  | date (time : Int64)
  | bool (b : Bool)
  | other
  deriving DecidableEq

inductive Value
  | scalar (s : Scalar)
  | array (items : List Value)
  | dictionary (entries : List (Bytes × Value))

namespace Value

/-- Induction over a value and everything inside. -/
@[induction_eliminator]
theorem inductionOn {p : Value → Prop} (scalar : ∀ s, p (.scalar s))
    (array : ∀ items, (∀ v ∈ items, p v) → p (.array items))
    (dictionary : ∀ entries, (∀ e ∈ entries, p e.2) → p (.dictionary entries)) (v : Value) :
    p v := by
  refine Value.rec (motive_1 := p) (motive_2 := fun items => ∀ v ∈ items, p v)
    (motive_3 := fun entries => ∀ e ∈ entries, p e.2) (motive_4 := fun e => p e.2)
    scalar array dictionary ?_ ?_ ?_ ?_ ?_ v
  all_goals simp +contextual

mutual

def mapScalars (f : Scalar → Scalar) : Value → Value
  | scalar s => scalar (f s)
  | array items => array (mapItems f items)
  | dictionary entries => dictionary (mapEntries f entries)

def mapItems (f : Scalar → Scalar) : List Value → List Value
  | [] => []
  | v :: items => mapScalars f v :: mapItems f items

def mapEntries (f : Scalar → Scalar) : List (Bytes × Value) → List (Bytes × Value)
  | [] => []
  | (key, v) :: entries => (key, mapScalars f v) :: mapEntries f entries

end

mutual

/-- Every dictionary inside has its keys in order, as iterating a map gives them, and every
scalar inside has the property. -/
def KeyedWith (p : Scalar → Prop) : Value → Prop
  | scalar s => p s
  | array items => KeyedItems p items
  | dictionary entries => entries.Pairwise (fun a b => a.1 < b.1) ∧ KeyedEntries p entries

def KeyedItems (p : Scalar → Prop) : List Value → Prop
  | [] => True
  | v :: items => KeyedWith p v ∧ KeyedItems p items

def KeyedEntries (p : Scalar → Prop) : List (Bytes × Value) → Prop
  | [] => True
  | (_, v) :: entries => KeyedWith p v ∧ KeyedEntries p entries

end

def Keyed (v : Value) : Prop := v.KeyedWith fun _ => True

variable {p : Scalar → Prop}

theorem keyedWith_array {items : List Value} :
    (array items).KeyedWith p ↔ ∀ v ∈ items, v.KeyedWith p := by
  rw [KeyedWith]
  induction items with
  | nil => simp [KeyedItems]
  | cons v items ih => rw [KeyedItems, ih, List.forall_mem_cons]

theorem keyedWith_dictionary {entries : List (Bytes × Value)} :
    (dictionary entries).KeyedWith p ↔
      entries.Pairwise (fun a b => a.1 < b.1) ∧ ∀ e ∈ entries, e.2.KeyedWith p := by
  have hentries : KeyedEntries p entries ↔ ∀ e ∈ entries, e.2.KeyedWith p := by
    induction entries with
    | nil => simp [KeyedEntries]
    | cons e entries ih => rw [KeyedEntries, ih, List.forall_mem_cons]
  rw [KeyedWith, hentries]

theorem KeyedWith.mono {q : Scalar → Prop} (hpq : ∀ s, p s → q s) {v : Value}
    (h : v.KeyedWith p) : v.KeyedWith q := by
  induction v with
  | scalar s => exact hpq s h
  | array items ih =>
    rw [keyedWith_array] at h ⊢
    exact fun v hv => ih v hv (h v hv)
  | dictionary entries ih =>
    rw [keyedWith_dictionary] at h ⊢
    exact ⟨h.1, fun e he => ih e he (h.2 e he)⟩

theorem mapItems_eq (f : Scalar → Scalar) (items : List Value) :
    mapItems f items = items.map (mapScalars f) := by
  induction items with
  | nil => rfl
  | cons v items ih => rw [mapItems, ih, List.map_cons]

theorem mapEntries_eq (f : Scalar → Scalar) (entries : List (Bytes × Value)) :
    mapEntries f entries = entries.map fun e => (e.1, e.2.mapScalars f) := by
  induction entries with
  | nil => rfl
  | cons e entries ih =>
    obtain ⟨key, v⟩ := e
    rw [mapEntries, ih, List.map_cons]

theorem mapScalars_congr {f g : Scalar → Scalar} (hfg : ∀ s, p s → f s = g s) {v : Value}
    (h : v.KeyedWith p) : v.mapScalars f = v.mapScalars g := by
  induction v with
  | scalar s => rw [mapScalars, mapScalars, hfg s h]
  | array items ih =>
    rw [keyedWith_array] at h
    rw [mapScalars, mapScalars, mapItems_eq, mapItems_eq]
    exact congrArg array (List.map_congr_left fun v hv => ih v hv (h v hv))
  | dictionary entries ih =>
    rw [keyedWith_dictionary] at h
    rw [mapScalars, mapScalars, mapEntries_eq, mapEntries_eq]
    exact congrArg dictionary
      (List.map_congr_left fun e he => congrArg (Prod.mk e.1) (ih e he (h.2 e he)))

mutual

def toAny : Value → Any
  | scalar (.int32 v) => .int32 v
  | scalar (.int64 v) => .int64 v
  | scalar (.string s) => .string s
  | dictionary entries => .dictionary (toAnyEntries entries)
  | _ => .other

def toAnyEntries : List (Bytes × Value) → Dictionary
  | [] => []
  | (key, v) :: entries => (key, toAny v) :: toAnyEntries entries

end

end Value
end SwiftRobot.Plist
