import SwiftRobot.Support.ByteWords

/-!
# Objects as their members lie in memory

The members of an object follow each other in the order of their declaration, each at
the next multiple of its alignment. What lies between them, and after the last one, is
padding: nothing is said about its contents, and a copy that takes a byte of it, or a
byte from outside the object, has no result here.
-/

namespace SwiftRobot.ObjectLayout
open SwiftRobot.ByteWords

structure Member where
  align : ℕ
  bytes : Bytes

def alignUp (align n : ℕ) : ℕ := (n + (align - 1)) / align * align

def memberByte (position : ℕ) : List Member → ℕ → Option UInt8
  | [], _ => none
  | m :: ms, i =>
    let start := alignUp m.align position
    if i < start then none
    else (m.bytes[i - start]?).or (memberByte (start + m.bytes.length) ms i)

def endOf (position : ℕ) : List Member → ℕ
  | [] => position
  | m :: ms => endOf (alignUp m.align position + m.bytes.length) ms

def alignOf (ms : List Member) : ℕ := ms.foldr (fun m n => max m.align n) 1

/-- The end of the last member, rounded up to the largest alignment. -/
def objectSize (ms : List Member) : ℕ := alignUp (alignOf ms) (endOf 0 ms)

def copied (ms : List Member) (start : ℕ) : ℕ → Option Bytes
  | 0 => some []
  | count + 1 => do
    let b ← memberByte 0 ms start
    let bs ← copied ms (start + 1) count
    return b :: bs

def Packed (position : ℕ) : List Member → Prop
  | [] => True
  | m :: ms => alignUp m.align position = position ∧ Packed (position + m.bytes.length) ms

def contents (ms : List Member) : Bytes := ms.flatMap Member.bytes

@[simp] theorem contents_cons (m : Member) (ms : List Member) :
    contents (m :: ms) = m.bytes ++ contents ms := rfl

theorem memberByte_of_packed {position : ℕ} {ms : List Member} (h : Packed position ms) {i : ℕ}
    (hi : position ≤ i) : memberByte position ms i = (contents ms)[i - position]? := by
  induction ms generalizing position with
  | nil => rfl
  | cons m ms ih =>
    obtain ⟨hstart, hrest⟩ := h
    simp only [memberByte, hstart, if_neg (Nat.not_lt.mpr hi), contents_cons]
    by_cases hin : i < position + m.bytes.length
    · have hbyte : i - position < m.bytes.length := by omega
      rw [List.getElem?_append_left hbyte, List.getElem?_eq_getElem hbyte, Option.some_or]
    · have hsub : i - position - m.bytes.length = i - (position + m.bytes.length) := by omega
      rw [List.getElem?_append_right (by omega), List.getElem?_eq_none (by omega),
        Option.none_or, hsub]
      exact ih hrest (by omega)

theorem copied_of_packed {ms : List Member} (h : Packed 0 ms) {start count : ℕ}
    (hc : start + count ≤ (contents ms).length) :
    copied ms start count = some (((contents ms).drop start).take count) := by
  induction count generalizing start with
  | zero => rfl
  | succ count ih =>
    have hin : start < (contents ms).length := by omega
    have hbyte : memberByte 0 ms start = some (contents ms)[start] := by
      rw [memberByte_of_packed h (Nat.zero_le _), Nat.sub_zero, List.getElem?_eq_getElem hin]
    have hrest : copied ms (start + 1) count = _ := ih (by omega)
    simp only [copied, hbyte, hrest, Option.bind_eq_bind, Option.bind_some, Option.pure_def]
    rw [List.drop_eq_getElem_cons hin, List.take_succ_cons]

theorem copied_single (align : ℕ) (bs : Bytes) :
    copied [⟨align, bs⟩] 0 bs.length = some bs := by
  have hup : alignUp align 0 = 0 := by
    simp only [alignUp, Nat.zero_add]
    rcases Nat.eq_zero_or_pos align with rfl | hpos
    · rfl
    · rw [Nat.div_eq_of_lt (by omega), Nat.zero_mul]
  have hpacked : Packed 0 [(⟨align, bs⟩ : Member)] := ⟨hup, trivial⟩
  have hcontents : contents [(⟨align, bs⟩ : Member)] = bs := List.append_nil bs
  rw [copied_of_packed hpacked (by rw [hcontents, Nat.zero_add]), hcontents, List.drop_zero,
    List.take_length]

end SwiftRobot.ObjectLayout
