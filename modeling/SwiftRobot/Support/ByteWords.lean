import Mathlib.Data.List.Lex
import Mathlib.Data.Nat.Basic
import Mathlib.Order.Basic
import Mathlib.Tactic.Ring
import Mathlib.Tactic.Cases

/-!
# Little-endian words over a type of values

A `Word α` fixes how a value of a fixed-width machine type is laid out in memory
on a little-endian host: its width in bytes, its unsigned value, and the inverse.
The round-trip laws are fields, so every codec built from words inherits them.
-/

namespace SwiftRobot.ByteWords

abbrev Bytes := List UInt8

instance uint8LinearOrder : LinearOrder UInt8 where
  le_refl := fun _ => UInt8.le_refl _
  le_trans := fun _ _ _ => UInt8.le_trans
  lt_iff_le_not_ge := fun a b => by
    simp only [UInt8.le_iff_toNat_le, UInt8.lt_iff_toNat_lt]
    omega
  le_antisymm := fun _ _ => UInt8.le_antisymm
  le_total := UInt8.le_total
  toDecidableLE := inferInstance
  toDecidableEq := inferInstance
  toDecidableLT := inferInstance

def encode : ℕ → ℕ → Bytes
  | 0, _ => []
  | w + 1, n => UInt8.ofNat n :: encode w (n / 256)

def decode : Bytes → ℕ
  | [] => 0
  | b :: bs => b.toNat + 256 * decode bs

@[simp] theorem encode_length (w n : ℕ) : (encode w n).length = w := by
  induction w generalizing n with
  | zero => rfl
  | succ w ih => simp [encode, ih]

theorem decode_lt (bs : Bytes) : decode bs < 256 ^ bs.length := by
  induction bs with
  | nil => simp [decode]
  | cons b bs ih =>
    have hb : b.toNat < 256 := b.toNat_lt
    simp only [decode, List.length_cons, pow_succ]
    omega

theorem decode_encode (w n : ℕ) (hn : n < 256 ^ w) : decode (encode w n) = n := by
  induction w generalizing n with
  | zero =>
    have h0 : n = 0 := by simpa using hn
    simp [encode, decode, h0]
  | succ w ih =>
    have hq : n / 256 < 256 ^ w := by
      rw [pow_succ] at hn
      exact Nat.div_lt_of_lt_mul (by omega)
    simp only [encode, decode, ih _ hq, UInt8.toNat_ofNat']
    omega

theorem encode_decode (bs : Bytes) : encode bs.length (decode bs) = bs := by
  induction bs with
  | nil => rfl
  | cons b bs ih =>
    have hb : b.toNat < 256 := b.toNat_lt
    have hq : (b.toNat + 256 * decode bs) / 256 = decode bs := by omega
    have hr : UInt8.ofNat (b.toNat + 256 * decode bs) = b := by
      apply UInt8.toNat_inj.mp
      simp only [UInt8.toNat_ofNat']
      omega
    simp only [List.length_cons, decode, encode, hq, hr, ih]

theorem decode_append (xs ys : Bytes) :
    decode (xs ++ ys) = decode xs + 256 ^ xs.length * decode ys := by
  induction xs with
  | nil => simp [decode]
  | cons x xs ih =>
    simp only [List.cons_append, decode, ih, List.length_cons]
    ring

theorem decode_nulls (n : ℕ) : decode (List.replicate n 0) = 0 := by
  induction n with
  | zero => rfl
  | succ n ih => simp [List.replicate_succ, decode, ih]

structure Word (α : Type) where
  width : ℕ
  width_pos : 0 < width
  bits : α → ℕ
  value : ℕ → α
  bits_lt : ∀ a, bits a < 256 ^ width
  value_bits : ∀ a, value (bits a) = a
  bits_value : ∀ n, n < 256 ^ width → bits (value n) = n

namespace Word
variable {α : Type} (w : Word α)

def bytes (a : α) : Bytes := encode w.width (w.bits a)

def ofBytes (bs : Bytes) : α := w.value (decode bs)

@[simp] theorem bytes_length (a : α) : (w.bytes a).length = w.width := encode_length _ _

@[simp] theorem ofBytes_bytes (a : α) : w.ofBytes (w.bytes a) = a := by
  simp only [ofBytes, bytes, decode_encode _ _ (w.bits_lt a), w.value_bits]

theorem bytes_ofBytes (bs : Bytes) (hl : bs.length = w.width) : w.bytes (w.ofBytes bs) = bs := by
  have hd : decode bs < 256 ^ w.width := hl ▸ decode_lt bs
  simp only [bytes, ofBytes, w.bits_value _ hd]
  rw [← hl, encode_decode]

def flat (xs : List α) : Bytes := xs.flatMap w.bytes

def words : ℕ → Bytes → List α
  | 0, _ => []
  | n + 1, bs => w.ofBytes (bs.take w.width) :: words n (bs.drop w.width)

@[simp] theorem flat_nil : w.flat [] = [] := rfl

@[simp] theorem flat_cons (x : α) (xs : List α) : w.flat (x :: xs) = w.bytes x ++ w.flat xs := rfl

@[simp] theorem flat_length (xs : List α) : (w.flat xs).length = xs.length * w.width := by
  induction xs with
  | nil => simp
  | cons x xs ih =>
    simp only [flat_cons, List.length_append, bytes_length, ih, List.length_cons]
    ring

@[simp] theorem words_length (n : ℕ) (bs : Bytes) : (w.words n bs).length = n := by
  induction n generalizing bs with
  | zero => rfl
  | succ n ih => simp [words, ih]

theorem words_flat_append (xs : List α) (rest : Bytes) :
    w.words xs.length (w.flat xs ++ rest) = xs := by
  induction xs with
  | nil => rfl
  | cons x xs ih =>
    simp only [List.length_cons, words, flat_cons, List.append_assoc]
    rw [List.take_left' (w.bytes_length x), List.drop_left' (w.bytes_length x), ofBytes_bytes, ih]

theorem words_flat (xs : List α) : w.words xs.length (w.flat xs) = xs := by
  simpa using w.words_flat_append xs []

theorem flat_words (n : ℕ) (bs : Bytes) (hl : bs.length = n * w.width) :
    w.flat (w.words n bs) = bs := by
  induction n generalizing bs with
  | zero =>
    have h0 : bs = [] := List.eq_nil_of_length_eq_zero (by simpa using hl)
    simp [words, h0]
  | succ n ih =>
    have hs : (n + 1) * w.width = n * w.width + w.width := by ring
    have ht : (bs.take w.width).length = w.width := by
      rw [List.length_take]
      omega
    have hd : (bs.drop w.width).length = n * w.width := by
      rw [List.length_drop]
      omega
    simp only [words, flat_cons, w.bytes_ofBytes _ ht, ih _ hd, List.take_append_drop]

theorem flat_take (n : ℕ) (xs : List α) :
    (w.flat xs).take (n * w.width) = w.flat (xs.take n) := by
  induction n generalizing xs with
  | zero => simp
  | succ n ih =>
    cases xs with
    | nil => simp
    | cons x xs =>
      have hn : (n + 1) * w.width = (w.bytes x).length + n * w.width := by
        rw [w.bytes_length x]
        ring
      rw [flat_cons, List.take_succ_cons, flat_cons, hn, List.take_length_add_append, ih]

end Word

def Word.ofBitVec {α : Type} (width : ℕ) (hw : 0 < width) (toBits : α → BitVec (8 * width))
    (ofBits : BitVec (8 * width) → α) (of_to : ∀ a, ofBits (toBits a) = a)
    (to_of : ∀ v, toBits (ofBits v) = v) : Word α where
  width := width
  width_pos := hw
  bits := fun a => (toBits a).toNat
  value := fun n => ofBits (BitVec.ofNat _ n)
  bits_lt := fun a => by
    have h := (toBits a).isLt
    rwa [pow_mul] at h
  value_bits := fun a => by simp [of_to]
  bits_value := fun n hn => by
    rw [to_of, BitVec.toNat_ofNat, Nat.mod_eq_of_lt]
    rwa [pow_mul]

def uint8 : Word UInt8 :=
  .ofBitVec 1 (by decide) UInt8.toBitVec UInt8.ofBitVec (fun _ => rfl) (fun _ => rfl)
def uint16 : Word UInt16 :=
  .ofBitVec 2 (by decide) UInt16.toBitVec UInt16.ofBitVec (fun _ => rfl) (fun _ => rfl)
def uint32 : Word UInt32 :=
  .ofBitVec 4 (by decide) UInt32.toBitVec UInt32.ofBitVec (fun _ => rfl) (fun _ => rfl)
def int8 : Word Int8 :=
  .ofBitVec 1 (by decide) Int8.toBitVec Int8.ofBitVec (fun _ => rfl) (fun _ => rfl)
def int16 : Word Int16 :=
  .ofBitVec 2 (by decide) Int16.toBitVec Int16.ofBitVec (fun _ => rfl) (fun _ => rfl)
def int32 : Word Int32 :=
  .ofBitVec 4 (by decide) Int32.toBitVec Int32.ofBitVec (fun _ => rfl) (fun _ => rfl)

def int64 : Word Int64 :=
  .ofBitVec 8 (by decide) Int64.toBitVec Int64.ofBitVec (fun _ => rfl) (fun _ => rfl)

/-- A single-precision float, kept as its four-byte pattern. -/
abbrev FloatBits := BitVec 32
def float : Word FloatBits :=
  .ofBitVec 4 (by decide) id id (fun _ => rfl) (fun _ => rfl)

abbrev DoubleBits := BitVec 64
def double : Word DoubleBits :=
  .ofBitVec 8 (by decide) id id (fun _ => rfl) (fun _ => rfl)

@[simp] theorem uint8_width : uint8.width = 1 := rfl
@[simp] theorem uint16_width : uint16.width = 2 := rfl
@[simp] theorem uint32_width : uint32.width = 4 := rfl
@[simp] theorem int8_width : int8.width = 1 := rfl
@[simp] theorem int16_width : int16.width = 2 := rfl
@[simp] theorem int32_width : int32.width = 4 := rfl
@[simp] theorem int64_width : int64.width = 8 := rfl
@[simp] theorem float_width : float.width = 4 := rfl
@[simp] theorem double_width : double.width = 8 := rfl

theorem uint16_bytes_length (a : UInt16) : (uint16.bytes a).length = 2 := Word.bytes_length _ _
theorem uint32_bytes_length (a : UInt32) : (uint32.bytes a).length = 4 := Word.bytes_length _ _

theorem uint8_bytes (a : UInt8) : uint8.bytes a = [a] := by
  simp [Word.bytes, encode, uint8, Word.ofBitVec]

theorem uint8_flat (xs : List UInt8) : uint8.flat xs = xs := by
  induction xs with
  | nil => rfl
  | cons x xs ih =>
    rw [Word.flat_cons, uint8_bytes, ih]
    rfl

@[simp] theorem uint16_bits (a : UInt16) : uint16.bits a = a.toNat := rfl
@[simp] theorem uint32_bits (a : UInt32) : uint32.bits a = a.toNat := rfl

end SwiftRobot.ByteWords
