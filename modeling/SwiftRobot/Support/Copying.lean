import SwiftRobot.Support.ByteWords

/-!
# Bytes written by a sequence of block copies

A list of `Copy`s is what a serializer does to the buffer it is given: each copy
places a block at an offset, and a later copy overwrites an earlier one.
-/

namespace SwiftRobot.Copying
open SwiftRobot.ByteWords

structure Copy where
  offset : ℕ
  data : Bytes
  deriving DecidableEq, Repr

def Copy.at? (c : Copy) (i : ℕ) : Option UInt8 :=
  if c.offset ≤ i then c.data[i - c.offset]? else none

def written : List Copy → ℕ → Option UInt8
  | [], _ => none
  | c :: cs, i => (written cs i).or (c.at? i)

/-- The copies write exactly the positions `0 .. n-1`. -/
def Covers (cs : List Copy) (n : ℕ) : Prop := ∀ i, (written cs i).isSome ↔ i < n

/-- The buffer after the copies. Writes past its end are not in it: `Covers` is
the statement that there are none. -/
def store (cs : List Copy) (buffer : Bytes) : Bytes :=
  buffer.mapIdx fun i b => (written cs i).getD b

def consecutive : ℕ → List Bytes → List Copy
  | _, [] => []
  | offset, b :: bs => ⟨offset, b⟩ :: consecutive (offset + b.length) bs

@[simp] theorem store_length (cs : List Copy) (buffer : Bytes) :
    (store cs buffer).length = buffer.length := by
  simp [store]

theorem written_eq_of_store {cs : List Copy} {buffer : Bytes} {i : ℕ} {b : UInt8}
    (hw : written cs i = some b) (hi : i < buffer.length) : (store cs buffer)[i]? = some b := by
  simp [store, hw, hi]

theorem written_consecutive (offset : ℕ) (bs : List Bytes) (i : ℕ) :
    written (consecutive offset bs) i =
      if offset ≤ i then bs.flatten[i - offset]? else none := by
  induction bs generalizing offset with
  | nil => simp [consecutive, written]
  | cons b bs ih =>
    simp only [consecutive, written, ih, Copy.at?, List.flatten_cons]
    by_cases hlow : offset ≤ i
    · by_cases hmid : offset + b.length ≤ i
      · have hsub : i - offset - b.length = i - (offset + b.length) := by omega
        have hout : b[i - offset]? = none := List.getElem?_eq_none (by omega)
        rw [if_pos hmid, if_pos hlow, if_pos hlow, List.getElem?_append_right (by omega), hsub,
          hout, Option.or_none]
      · rw [if_neg hmid, if_pos hlow, if_pos hlow, List.getElem?_append_left (by omega),
          Option.none_or]
    · rw [if_neg (by omega), if_neg hlow, if_neg hlow, Option.none_or]

theorem map_consecutive (offset k : ℕ) (bs : List Bytes) :
    ((consecutive offset bs).map fun c => (⟨c.offset + k, c.data⟩ : Copy)) =
      consecutive (offset + k) bs := by
  induction bs generalizing offset with
  | nil => rfl
  | cons b bs ih =>
    simp only [consecutive, List.map_cons, ih]
    rw [Nat.add_right_comm]

theorem written_consecutive_zero (bs : List Bytes) (i : ℕ) :
    written (consecutive 0 bs) i = bs.flatten[i]? := by
  simp [written_consecutive]

theorem consecutive_covers (bs : List Bytes) : Covers (consecutive 0 bs) bs.flatten.length := by
  intro i
  rw [written_consecutive_zero]
  simp

theorem store_consecutive_append (bs : List Bytes) (buffer : Bytes)
    (hl : bs.flatten.length ≤ buffer.length) :
    store (consecutive 0 bs) buffer = bs.flatten ++ buffer.drop bs.flatten.length := by
  apply List.ext_getElem?
  intro i
  by_cases hi : i < bs.flatten.length
  · have hf : bs.flatten[i]? = some bs.flatten[i] := List.getElem?_eq_getElem _
    rw [List.getElem?_append_left hi, hf]
    exact written_eq_of_store (by rw [written_consecutive_zero, hf]) (by omega)
  · have hw : written (consecutive 0 bs) i = none := by
      rw [written_consecutive_zero, List.getElem?_eq_none (by omega)]
    have hi' : bs.flatten.length + (i - bs.flatten.length) = i := by omega
    rw [List.getElem?_append_right (by omega), List.getElem?_drop, hi']
    simp [store, hw]

theorem store_consecutive (bs : List Bytes) (buffer : Bytes)
    (hl : buffer.length = bs.flatten.length) : store (consecutive 0 bs) buffer = bs.flatten := by
  rw [store_consecutive_append bs buffer hl.ge, ← hl, List.drop_length, List.append_nil]

end SwiftRobot.Copying
