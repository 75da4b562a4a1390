import SwiftRobot.Support.ByteWords
import Mathlib.Data.List.TakeWhile
import Mathlib.Order.Defs.LinearOrder

/-!
# Reads of a block of memory, with the positions they touch

A `Reading α` is run on a block of mapped bytes. It returns a value, or nothing
when it leaves the block, and the spans it touched in order. Nothing is hidden by
a failure: the span that left the block is still in the trace.
-/

namespace SwiftRobot.Reading
open SwiftRobot.ByteWords

structure Span where
  start : ℤ
  count : ℕ
  deriving DecidableEq, Repr

def Span.Below (n : ℕ) (s : Span) : Prop :=
  ∀ i : ℕ, i < s.count → 0 ≤ s.start + i ∧ s.start + i < n

theorem Span.below_iff {n : ℕ} {s : Span} :
    s.Below n ↔ s.count = 0 ∨ (0 ≤ s.start ∧ s.start + s.count ≤ n) := by
  constructor
  · intro h
    by_cases hc : s.count = 0
    · exact Or.inl hc
    · have hfirst := h 0 (by omega)
      have hlast := h (s.count - 1) (by omega)
      right
      omega
  · rintro (hc | ⟨h0, h1⟩) i hi
    · omega
    · omega

structure Trace (α : Type) where
  value : Option α
  spans : List Span

end Reading

def Reading (α : Type) : Type := ByteWords.Bytes → Reading.Trace α

namespace Reading
open SwiftRobot.ByteWords
variable {α β : Type}

instance : Monad Reading where
  pure a := fun _ => ⟨some a, []⟩
  bind r f := fun mem =>
    match (r mem).value with
    | none => ⟨none, (r mem).spans⟩
    | some a => ⟨(f a mem).value, (r mem).spans ++ (f a mem).spans⟩

/-- The source runs on with no defined meaning: it touches nothing more here. -/
def fault : Reading α := fun _ => ⟨none, []⟩

/-- A read of memory that is no part of the block. -/
def outside : Reading α := fun _ => ⟨none, [⟨-1, 1⟩]⟩

def bytesAt (start : ℤ) (count : ℕ) : Reading Bytes := fun mem =>
  ⟨if count = 0 then some []
    else if 0 ≤ start ∧ start + count ≤ mem.length then
      some ((mem.drop start.toNat).take count)
    else none, [⟨start, count⟩]⟩

def bytes (start count : ℕ) : Reading Bytes := bytesAt start count

/-- The text up to the first NUL from `start` on; the NUL itself is read too. -/
def cstring (start : ℕ) : Reading Bytes := fun mem =>
  let text := (mem.drop start).takeWhile (· ≠ 0)
  ⟨if start + text.length < mem.length then some text else none,
    [⟨start, text.length + 1⟩]⟩

def word (w : Word α) (start : ℕ) : Reading α := do
  let bs ← bytes start w.width
  return w.ofBytes bs

/-- The run of `r` on `mem` touches positions `0 .. n-1` only. -/
def Within (n : ℕ) (r : Reading α) (mem : Bytes) : Prop :=
  ∀ s ∈ (r mem).spans, s.Below n

@[simp] theorem pure_value (a : α) (mem : Bytes) : ((pure a : Reading α) mem).value = some a := rfl

@[simp] theorem within_pure (n : ℕ) (a : α) (mem : Bytes) : Within n (pure a : Reading α) mem := by
  intro s hs
  exact absurd hs (List.not_mem_nil)

@[simp] theorem fault_value (mem : Bytes) : ((fault : Reading α) mem).value = none := rfl

@[simp] theorem within_fault (n : ℕ) (mem : Bytes) : Within n (fault : Reading α) mem := by
  intro s hs
  exact absurd hs (List.not_mem_nil)

@[simp] theorem outside_value (mem : Bytes) : ((outside : Reading α) mem).value = none := rfl

@[simp] theorem not_within_outside (n : ℕ) (mem : Bytes) :
    ¬ Within n (outside : Reading α) mem := by
  intro h
  have hspan := (h ⟨-1, 1⟩ (List.mem_singleton_self _) 0 (by simp)).1
  simp at hspan

@[simp] theorem bind_value (r : Reading α) (f : α → Reading β) (mem : Bytes) :
    ((r >>= f) mem).value = (r mem).value.bind fun a => (f a mem).value := by
  change (match (r mem).value with
    | none => (⟨none, (r mem).spans⟩ : Trace β)
    | some a => ⟨(f a mem).value, (r mem).spans ++ (f a mem).spans⟩).value = _
  cases (r mem).value <;> rfl

theorem within_bind {n : ℕ} {r : Reading α} {f : α → Reading β} {mem : Bytes} :
    Within n (r >>= f) mem ↔
      Within n r mem ∧ ∀ a, (r mem).value = some a → Within n (f a) mem := by
  have hrun : ((r >>= f) mem).spans = (match (r mem).value with
    | none => (⟨none, (r mem).spans⟩ : Trace β)
    | some a => ⟨(f a mem).value, (r mem).spans ++ (f a mem).spans⟩).spans := rfl
  unfold Within
  rw [hrun]
  cases hv : (r mem).value with
  | none => simp
  | some a => simp [List.mem_append, or_imp, forall_and]

theorem foldlM_value (f : β → α → Reading β) (l : List α) (b : β) (mem : Bytes) :
    ((l.foldlM f b) mem).value = l.foldlM (fun b a => (f b a mem).value) b := by
  induction l generalizing b with
  | nil => rfl
  | cons a l ih =>
    rw [List.foldlM_cons, List.foldlM_cons, bind_value]
    exact Option.bind_congr fun b _ => ih b

@[simp] theorem map_value (f : α → β) (r : Reading α) (mem : Bytes) :
    ((f <$> r) mem).value = (r mem).value.map f := by
  change ((r >>= fun a => pure (f a)) mem).value = _
  rw [bind_value]
  cases (r mem).value <;> rfl

@[simp] theorem within_map {n : ℕ} {f : α → β} {r : Reading α} {mem : Bytes} :
    Within n (f <$> r) mem ↔ Within n r mem := by
  change Within n (r >>= fun a => pure (f a)) mem ↔ _
  rw [within_bind]
  exact ⟨fun h => h.1, fun h => ⟨h, fun a _ => within_pure _ _ _⟩⟩

def ofOption : Option α → Reading α
  | some a => pure a
  | none => fault

@[simp] theorem ofOption_value (o : Option α) (mem : Bytes) : ((ofOption o) mem).value = o := by
  cases o <;> rfl

@[simp] theorem within_ofOption (n : ℕ) (o : Option α) (mem : Bytes) :
    Within n (ofOption o) mem := by
  cases o with
  | none => exact within_fault n mem
  | some a => exact within_pure n a mem

theorem within_bind_of_value {n : ℕ} {r : Reading α} {f : α → Reading β} {mem : Bytes} {a : α}
    (hr : Within n r mem) (ha : (r mem).value = some a) :
    Within n (r >>= f) mem ↔ Within n (f a) mem := by
  rw [within_bind]
  constructor
  · exact fun h => h.2 a ha
  · refine fun h => ⟨hr, fun b hb => ?_⟩
    rw [ha, Option.some.injEq] at hb
    exact hb ▸ h

theorem within_bytes {n start count : ℕ} {mem : Bytes} :
    Within n (bytes start count) mem ↔ count = 0 ∨ start + count ≤ n := by
  have hspans : ((bytes start count) mem).spans = [⟨start, count⟩] := rfl
  unfold Within
  rw [hspans, List.forall_mem_singleton, Span.below_iff]
  dsimp only
  omega

theorem within_bytesAt {n count : ℕ} {start : ℤ} {mem : Bytes} :
    Within n (bytesAt start count) mem ↔ count = 0 ∨ (0 ≤ start ∧ start + count ≤ n) := by
  have hspans : ((bytesAt start count) mem).spans = [⟨start, count⟩] := rfl
  unfold Within
  rw [hspans, List.forall_mem_singleton, Span.below_iff]

theorem bytes_value (start count : ℕ) (mem : Bytes) (h : start + count ≤ mem.length) :
    ((bytes start count) mem).value = some ((mem.drop start).take count) := by
  simp only [bytes, bytesAt]
  by_cases hc : count = 0
  · simp [hc]
  · rw [if_neg hc, if_pos (by omega)]
    simp

theorem bytes_length {start count : ℕ} {mem bs : Bytes}
    (h : ((bytes start count) mem).value = some bs) : bs.length = count := by
  simp only [bytes, bytesAt] at h
  split_ifs at h with hc hb
  · simp only [Option.some.injEq] at h
    simp [← h, hc]
  · simp only [Option.some.injEq] at h
    rw [← h, List.length_take, List.length_drop]
    omega

theorem bytes_value_middle (front block back : Bytes) (start count : ℕ)
    (hs : start = front.length) (hc : count = block.length) :
    ((bytes start count) (front ++ (block ++ back))).value = some block := by
  rw [bytes_value _ _ _ (by simp [hs, hc]), hs, hc, List.drop_left, List.take_left]

theorem word_value_middle (w : Word α) (front back : Bytes) (a : α) (start : ℕ)
    (hs : start = front.length) :
    ((word w start) (front ++ (w.bytes a ++ back))).value = some a := by
  have hb := bytes_value_middle front (w.bytes a) back start w.width hs (w.bytes_length a).symm
  simp only [word, bind_value, hb, Option.bind_some, pure_value, w.ofBytes_bytes]

theorem within_word {n start : ℕ} {w : Word α} {mem : Bytes} :
    Within n (word w start) mem ↔ start + w.width ≤ n := by
  have hp := w.width_pos
  unfold word
  rw [within_bind, within_bytes]
  constructor
  · rintro ⟨h | h, -⟩
    · omega
    · exact h
  · exact fun h => ⟨Or.inr h, fun a _ => within_pure _ _ _⟩

theorem word_value (w : Word α) (start : ℕ) (mem : Bytes) (h : start + w.width ≤ mem.length) :
    ((word w start) mem).value = some (w.ofBytes ((mem.drop start).take w.width)) := by
  simp only [word, bind_value, bytes_value _ _ _ h, Option.bind_some, pure_value]

theorem bytes_value_front (payload tail : Bytes) (start count : ℕ)
    (h : start + count ≤ payload.length) :
    ((bytes start count) (payload ++ tail)).value = some ((payload.drop start).take count) := by
  rw [bytes_value _ _ _ (by rw [List.length_append]; omega), List.drop_append_of_le_length (by omega),
    List.take_append_of_le_length (by rw [List.length_drop]; omega)]

theorem word_value_front (w : Word α) (payload tail : Bytes) (start : ℕ)
    (h : start + w.width ≤ payload.length) :
    ((word w start) (payload ++ tail)).value =
      some (w.ofBytes ((payload.drop start).take w.width)) := by
  rw [word_value _ _ _ (by rw [List.length_append]; omega), List.drop_append_of_le_length (by omega),
    List.take_append_of_le_length (by rw [List.length_drop]; omega)]

theorem takeWhile_append_of_mem {p : UInt8 → Bool} {front : Bytes} (back : Bytes)
    (h : ∃ b ∈ front, p b = false) :
    (front ++ back).takeWhile p = front.takeWhile p := by
  induction front with
  | nil => simp at h
  | cons b front ih =>
    cases hb : p b with
    | false => simp [List.takeWhile, hb]
    | true =>
      have hrest : ∃ c ∈ front, p c = false := by
        obtain ⟨c, hc, hpc⟩ := h
        rcases List.mem_cons.mp hc with rfl | hc
        · simp [hb] at hpc
        · exact ⟨c, hc, hpc⟩
      simp [hb, ih hrest]

theorem length_takeWhile_lt_iff {front : Bytes} :
    (front.takeWhile (· ≠ 0)).length < front.length ↔ 0 ∈ front := by
  induction front with
  | nil => simp
  | cons b front ih =>
    by_cases hb : b = 0
    · simp [hb]
    · simp only [List.takeWhile, ne_eq, hb, not_false_eq_true, decide_true, List.length_cons,
        Nat.add_lt_add_iff_right, List.mem_cons]
      rw [ih]
      constructor
      · exact Or.inr
      · rintro (h | h)
        · exact absurd h.symm hb
        · exact h

theorem takeWhile_append_nul (payload back : Bytes) :
    (payload ++ 0 :: back).takeWhile (· ≠ 0) = payload.takeWhile (· ≠ 0) := by
  induction payload with
  | nil => simp
  | cons b payload ih =>
    rw [List.cons_append, List.takeWhile_cons, List.takeWhile_cons, ih]

theorem cstring_value (payload tail : Bytes) (start : ℕ) (h : 0 ∈ payload.drop start) :
    ((cstring start) (payload ++ tail)).value =
      some ((payload.drop start).takeWhile (· ≠ 0)) := by
  have hle : start ≤ payload.length := by
    by_contra hgt
    rw [List.drop_eq_nil_of_le (by omega)] at h
    simp at h
  have hlt := length_takeWhile_lt_iff.mpr h
  rw [List.length_drop] at hlt
  simp only [cstring, List.drop_append_of_le_length hle]
  rw [takeWhile_append_of_mem tail ⟨0, h, by simp⟩, if_pos]
  simp only [List.length_append]
  omega

theorem within_cstring {payload tail : Bytes} {start : ℕ} :
    Within payload.length (cstring start) (payload ++ tail) ↔ 0 ∈ payload.drop start := by
  have hspans : ((cstring start) (payload ++ tail)).spans =
      [⟨start, (((payload ++ tail).drop start).takeWhile (· ≠ 0)).length + 1⟩] := rfl
  unfold Within
  rw [hspans, List.forall_mem_singleton, Span.below_iff]
  dsimp only
  constructor
  · rintro (h | ⟨-, h⟩)
    · omega
    · by_contra hn
      have hle : start ≤ payload.length := by omega
      rw [List.drop_append_of_le_length hle] at h
      -- without a NUL the text runs at least to the end of the block
      have hall : ∀ b ∈ payload.drop start, decide (b ≠ 0) = true := by
        intro b hb
        simp only [ne_eq, decide_not, Bool.not_eq_eq_eq_not, Bool.not_true, decide_eq_false_iff_not]
        rintro rfl
        exact hn hb
      rw [List.takeWhile_append_of_pos hall, List.length_append, List.length_drop] at h
      omega
  · intro h
    have hle : start ≤ payload.length := by
      by_contra hgt
      rw [List.drop_eq_nil_of_le (by omega)] at h
      simp at h
    have hlt := length_takeWhile_lt_iff.mpr h
    rw [List.length_drop] at hlt
    rw [List.drop_append_of_le_length hle, takeWhile_append_of_mem tail ⟨0, h, by simp⟩]
    right
    omega

theorem cstring_value_middle (front text back : Bytes) (start : ℕ) (hs : start = front.length)
    (ht : 0 ∉ text) :
    ((cstring start) (front ++ (text ++ 0 :: back))).value = some text := by
  have hmem : 0 ∈ (front ++ (text ++ 0 :: back)).drop start := by
    rw [hs, List.drop_left]
    simp
  have hv := cstring_value _ [] start hmem
  rw [List.append_nil] at hv
  rw [hv, hs, List.drop_left]
  have hall : ∀ b ∈ text, decide (b ≠ 0) = true := by
    intro b hb
    simp only [ne_eq, decide_not, Bool.not_eq_eq_eq_not, Bool.not_true, decide_eq_false_iff_not]
    rintro rfl
    exact ht hb
  rw [List.takeWhile_append_of_pos hall]
  simp

theorem bind_spans {r : Reading α} {f : α → Reading β} {mem : Bytes} {a : α}
    (ha : (r mem).value = some a) :
    ((r >>= f) mem).spans = (r mem).spans ++ (f a mem).spans := by
  change (match (r mem).value with
    | none => (⟨none, (r mem).spans⟩ : Trace β)
    | some a => ⟨(f a mem).value, (r mem).spans ++ (f a mem).spans⟩).spans = _
  rw [ha]

theorem bytes_some {start count : ℕ} {mem bs : Bytes}
    (h : ((bytes start count) mem).value = some bs) :
    (count = 0 ∨ start + count ≤ mem.length) ∧ (mem.drop start).take count = bs := by
  simp only [bytes, bytesAt] at h
  split_ifs at h with hc hb
  · rw [Option.some.injEq] at h
    exact ⟨Or.inl hc, by rw [hc, List.take_zero, h]⟩
  · rw [Option.some.injEq] at h
    exact ⟨Or.inr (by omega), by simpa using h⟩

theorem word_some {w : Word α} {start : ℕ} {mem : Bytes} {a : α}
    (h : ((word w start) mem).value = some a) :
    start + w.width ≤ mem.length ∧ (mem.drop start).take w.width = w.bytes a ∧
      ((word w start) mem).spans = [⟨start, w.width⟩] := by
  rw [word, bind_value, Option.bind_eq_some_iff] at h
  obtain ⟨bs, hbs, ha⟩ := h
  obtain ⟨hin, htake⟩ := bytes_some hbs
  have hpos := w.width_pos
  rw [pure_value, Option.some.injEq] at ha
  refine ⟨by omega, ?_, ?_⟩
  · rw [htake, ← ha, w.bytes_ofBytes _ (bytes_length hbs)]
  · rw [word, bind_spans hbs]
    rfl

theorem take_takeWhile {l : Bytes} (h : (l.takeWhile (· ≠ 0)).length < l.length) :
    l.take ((l.takeWhile (· ≠ 0)).length + 1) = l.takeWhile (· ≠ 0) ++ [0] := by
  induction l with
  | nil => simp at h
  | cons b l ih =>
    by_cases hb : b = 0
    · simp [hb]
    · have hcons : (b :: l).takeWhile (· ≠ 0) = b :: l.takeWhile (· ≠ 0) :=
        List.takeWhile_cons_of_pos (by simpa using hb)
      rw [hcons] at h ⊢
      rw [List.length_cons, List.take_succ_cons, ih (by simpa using h), List.cons_append]

theorem cstring_some {start : ℕ} {mem text : Bytes}
    (h : ((cstring start) mem).value = some text) :
    start + text.length < mem.length ∧ (mem.drop start).take (text.length + 1) = text ++ [0] ∧
      ((cstring start) mem).spans = [⟨start, text.length + 1⟩] := by
  simp only [cstring] at h ⊢
  split_ifs at h with hlt
  rw [Option.some.injEq] at h
  rw [h] at hlt ⊢
  refine ⟨hlt, ?_, rfl⟩
  rw [← h]
  refine take_takeWhile ?_
  rw [h, List.length_drop]
  omega

end SwiftRobot.Reading
