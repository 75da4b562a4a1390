import SwiftRobot.Messages

/-!
# The array codecs

All seven arrays write a byte count and the elements. What differs is how many
elements the reader makes room for: the byte range constructor of `UInt8Array`
gets it right, and the division by `sizeof(uint32_t)` of the six others agrees
with the writer only for elements of four bytes.
-/

namespace SwiftRobot.ArrayCodecs
open ByteWords Copying Reading Messages

inductive ArrayType
  | uint8 | uint16 | uint32 | int8 | int16 | int32 | float
  deriving DecidableEq, Repr

namespace ArrayType

abbrev Elem : ArrayType → Type
  | uint8 => UInt8
  | uint16 => UInt16
  | uint32 => UInt32
  | int8 => Int8
  | int16 => Int16
  | int32 => Int32
  | float => FloatBits

def word : (t : ArrayType) → Word t.Elem
  | uint8 => ByteWords.uint8
  | uint16 => ByteWords.uint16
  | uint32 => ByteWords.uint32
  | int8 => ByteWords.int8
  | int16 => ByteWords.int16
  | int32 => ByteWords.int32
  | float => ByteWords.float

def serialize : (t : ArrayType) → BaseArray t.Elem → List Copy
  | uint8 => UInt8Array.serialize
  | uint16 => UInt16Array.serialize
  | uint32 => UInt32Array.serialize
  | int8 => Int8Array.serialize
  | int16 => Int16Array.serialize
  | int32 => Int32Array.serialize
  | float => FloatArray.serialize

def getSize : (t : ArrayType) → BaseArray t.Elem → UInt32
  | uint8 => UInt8Array.getSize
  | uint16 => UInt16Array.getSize
  | uint32 => UInt32Array.getSize
  | int8 => Int8Array.getSize
  | int16 => Int16Array.getSize
  | int32 => Int32Array.getSize
  | float => FloatArray.getSize

def deserialize : (t : ArrayType) → ℕ → Reading (Decoded (BaseArray t.Elem))
  | uint8 => UInt8Array.deserialize
  | uint16 => UInt16Array.deserialize
  | uint32 => UInt32Array.deserialize
  | int8 => Int8Array.deserialize
  | int16 => Int16Array.deserialize
  | int32 => Int32Array.deserialize
  | float => FloatArray.deserialize

/-- `serialize` writes exactly `getSize()` bytes, and from a buffer of that size
`deserialize` recovers the vector and copies nothing outside it. -/
def RoundTrip (t : ArrayType) (data : List t.Elem) : Prop :=
  ∀ size : UInt32, let m : BaseArray t.Elem := ⟨size, data⟩
    Covers (t.serialize m) (t.getSize m).toNat ∧
    ∀ buffer : Bytes, buffer.length = (t.getSize m).toNat →
      ∃ d, (t.deserialize 0 (store (t.serialize m) buffer)).value = some d ∧
        d.msg.data.length = data.length ∧ d.msg.data = data ∧ d.overrun = 0

end ArrayType

section
variable {α : Type} (w : Word α)

def arrayBytes (data : List α) : Bytes :=
  uint32.bytes (UInt32.ofNat (data.length * w.width)) ++ w.flat data

theorem arrayBytes_length (data : List α) :
    (arrayBytes w data).length = 4 + data.length * w.width := by
  simp [arrayBytes]

theorem toNat_size {n : ℕ} (h : n + 4 < 2 ^ 32) : (UInt32.ofNat n).toNat = n := by
  rw [UInt32.toNat_ofNat']
  omega

theorem toNat_arrayGetSize (m : BaseArray α) (h : m.data.length * w.width + 4 < 2 ^ 32) :
    (arrayGetSize w m).toNat = (arrayBytes w m.data).length := by
  rw [arrayBytes_length, arrayGetSize, UInt32.toNat_ofNat']
  omega

theorem arraySerialize_eq (m : BaseArray α) (h : m.data.length * w.width + 4 < 2 ^ 32) :
    arraySerialize w m =
      consecutive 0 [uint32.bytes (UInt32.ofNat (m.data.length * w.width)), w.flat m.data] := by
  have htake : (w.flat m.data).take (UInt32.ofNat (m.data.length * w.width)).toNat =
      w.flat m.data := by
    rw [toNat_size h, List.take_of_length_le (by simp)]
  simp only [arraySerialize, consecutive, htake, Word.bytes_length, uint32_width, Nat.zero_add]

theorem arraySerialize_covers (m : BaseArray α) (h : m.data.length * w.width + 4 < 2 ^ 32) :
    Covers (arraySerialize w m) (arrayGetSize w m).toNat := by
  rw [arraySerialize_eq w m h, toNat_arrayGetSize w m h]
  simpa [arrayBytes] using consecutive_covers
    [uint32.bytes (UInt32.ofNat (m.data.length * w.width)), w.flat m.data]

theorem arraySerialize_store (m : BaseArray α) (h : m.data.length * w.width + 4 < 2 ^ 32)
    (buffer : Bytes) (hb : buffer.length = (arrayGetSize w m).toNat) :
    store (arraySerialize w m) buffer = arrayBytes w m.data := by
  rw [arraySerialize_eq w m h, store_consecutive]
  · simp [arrayBytes]
  · rw [hb, toNat_arrayGetSize w m h]
    simp [arrayBytes]

theorem array_reads (front back : Bytes) (data : List α) (h : data.length * w.width + 4 < 2 ^ 32) :
    ((word uint32 front.length) (front ++ (arrayBytes w data ++ back))).value =
        some (UInt32.ofNat (data.length * w.width)) ∧
      ((bytes (front.length + 4) (UInt32.ofNat (data.length * w.width)).toNat)
        (front ++ (arrayBytes w data ++ back))).value = some (w.flat data) := by
  constructor
  · rw [arrayBytes, List.append_assoc]
    exact word_value_middle uint32 front _ _ _ rfl
  · have hs : front ++ (arrayBytes w data ++ back) =
        (front ++ uint32.bytes (UInt32.ofNat (data.length * w.width))) ++ (w.flat data ++ back) := by
      simp [arrayBytes]
    rw [hs]
    exact bytes_value_middle _ _ _ _ _ (by simp) (by rw [toNat_size h, w.flat_length])

theorem uint8Array_deserialize_arrayBytes (front back : Bytes) (data : List UInt8)
    (h : data.length + 4 < 2 ^ 32) :
    (UInt8Array.deserialize front.length (front ++ (arrayBytes uint8 data ++ back))).value =
      some ⟨⟨UInt32.ofNat data.length, data⟩, 0⟩ := by
  have hw : data.length * uint8.width = data.length := by simp
  obtain ⟨hsize, hdata⟩ := array_reads uint8 front back data (by omega)
  rw [hw] at hsize hdata
  rw [uint8_flat] at hdata
  simp only [UInt8Array.deserialize, bind_value, hsize, Option.bind_some, hdata, pure_value]

theorem arrayDeserialize_arrayBytes (front back : Bytes) (data : List α)
    (h : data.length * w.width + 4 < 2 ^ 32) (divisor : ℕ) :
    (arrayDeserialize w divisor front.length (front ++ (arrayBytes w data ++ back))).value =
      some ⟨⟨UInt32.ofNat (data.length * w.width),
        w.words (data.length * w.width / divisor) (w.flat data)⟩,
        data.length * w.width - data.length * w.width / divisor * w.width⟩ := by
  obtain ⟨hsize, hdata⟩ := array_reads w front back data h
  rw [toNat_size h] at hdata
  simp only [arrayDeserialize, bind_value, hsize, Option.bind_some, hdata, pure_value, toNat_size h]

theorem count_eq_iff (n : ℕ) (hw : w.width ≤ 4) :
    n * w.width / 4 = n ↔ w.width = 4 ∨ n = 0 := by
  constructor
  · intro h
    by_contra hn
    have hlt : n * w.width < n * 4 := Nat.mul_lt_mul_of_pos_left (by omega) (by omega)
    omega
  · rintro (h | h)
    · rw [h]
      omega
    · simp [h]

theorem arrayDeserialize_recovers_iff (m : BaseArray α) (buffer : Bytes) (hw : w.width ≤ 4)
    (h : m.data.length * w.width + 4 < 2 ^ 32) (hb : buffer.length = (arrayGetSize w m).toNat) :
    (∃ d, (arrayDeserialize w 4 0 (store (arraySerialize w m) buffer)).value = some d ∧
      d.msg.data.length = m.data.length ∧ d.msg.data = m.data ∧ d.overrun = 0) ↔
    w.width = 4 ∨ m.data = [] := by
  have hv := arrayDeserialize_arrayBytes w [] [] m.data h 4
  simp only [List.nil_append, List.append_nil, List.length_nil] at hv
  rw [arraySerialize_store w m h buffer hb, hv]
  constructor
  · rintro ⟨d, hd, hlen, -⟩
    rw [Option.some.injEq] at hd
    rw [← hd, Word.words_length, count_eq_iff w _ hw] at hlen
    exact hlen.imp_right List.eq_nil_of_length_eq_zero
  · intro hc
    have hcount : m.data.length * w.width / 4 = m.data.length :=
      (count_eq_iff w _ hw).mpr (hc.imp_right fun h0 => by simp [h0])
    refine ⟨_, rfl, ?_, ?_, ?_⟩
    · simp [hcount]
    · rw [hcount, w.words_flat]
    · simp [hcount]

end

theorem uint8Array_recovers (m : UInt8Array) (buffer : Bytes) (h : m.data.length + 4 < 2 ^ 32)
    (hb : buffer.length = (UInt8Array.getSize m).toNat) :
    ∃ d, (UInt8Array.deserialize 0 (store (UInt8Array.serialize m) buffer)).value = some d ∧
      d.msg.data.length = m.data.length ∧ d.msg.data = m.data ∧ d.overrun = 0 := by
  have hv := uint8Array_deserialize_arrayBytes [] [] m.data h
  simp only [List.nil_append, List.append_nil, List.length_nil] at hv
  rw [UInt8Array.serialize, arraySerialize_store uint8 m (by simpa using h) buffer hb, hv]
  exact ⟨_, rfl, rfl, rfl, rfl⟩

theorem roundTrip_of_divide {α : Type} (w : Word α) (data : List α) (hw : w.width ≤ 4)
    (h : data.length * w.width + 4 < 2 ^ 32) :
    (∀ size : UInt32, let m : BaseArray α := ⟨size, data⟩
      Covers (arraySerialize w m) (arrayGetSize w m).toNat ∧
      ∀ buffer : Bytes, buffer.length = (arrayGetSize w m).toNat →
        ∃ d, (arrayDeserialize w 4 0 (store (arraySerialize w m) buffer)).value = some d ∧
          d.msg.data.length = data.length ∧ d.msg.data = data ∧ d.overrun = 0) ↔
    w.width = 4 ∨ data = [] := by
  constructor
  · intro hr
    obtain ⟨-, hread⟩ := hr 0
    have hl := List.length_replicate (n := (arrayGetSize w ⟨0, data⟩).toNat) (a := (0 : UInt8))
    exact (arrayDeserialize_recovers_iff w ⟨0, data⟩ _ hw h hl).mp (hread _ hl)
  · intro hc size
    exact ⟨arraySerialize_covers w _ h,
      fun buffer hb => (arrayDeserialize_recovers_iff w ⟨size, data⟩ buffer hw h hb).mpr hc⟩

/-- The array codecs round-trip for `UInt8Array` and for elements of four bytes; the
others only for the empty vector. -/
theorem array_roundTrip_iff (t : ArrayType) (data : List t.Elem)
    (h : data.length * t.word.width + 4 < 2 ^ 32) :
    t.RoundTrip data ↔ t ∈ [ArrayType.uint8, .uint32, .int32, .float] ∨ data = [] := by
  cases t with
  | uint8 =>
    have hbytes : data.length * 1 + 4 < 2 ^ 32 := h
    rw [Nat.mul_one] at hbytes
    refine iff_of_true ?_ (Or.inl (by decide))
    intro size
    exact ⟨arraySerialize_covers uint8 _ h,
      fun buffer hb => uint8Array_recovers ⟨size, data⟩ buffer hbytes hb⟩
  | uint16 => exact (roundTrip_of_divide uint16 data (by decide) h).trans (by simp)
  | uint32 => exact (roundTrip_of_divide uint32 data (by decide) h).trans (by simp)
  | int8 => exact (roundTrip_of_divide int8 data (by decide) h).trans (by simp)
  | int16 => exact (roundTrip_of_divide int16 data (by decide) h).trans (by simp)
  | int32 => exact (roundTrip_of_divide int32 data (by decide) h).trans (by simp)
  | float => exact (roundTrip_of_divide float data (by decide) h).trans (by simp)

theorem array_roundTrip_iff_float :
    [(1 : FloatBits), 2].length * ArrayType.float.word.width + 4 < 2 ^ 32 ∧
      (ArrayType.float.RoundTrip [1, 2] ↔
        ArrayType.float ∈ [ArrayType.uint8, .uint32, .int32, .float] ∨ [(1 : FloatBits), 2] = []) :=
  ⟨by decide, array_roundTrip_iff .float [1, 2] (by decide)⟩

/-- Two 16-bit elements arrive as one, and two bytes are copied past the vector. -/
theorem uint16Array_loses_elements : ¬ ArrayType.uint16.RoundTrip [0x00be, 0xffef] := by
  intro h
  obtain ⟨d, hd, hlen, -⟩ := (h 0).2 (List.replicate 8 0) rfl
  have hv : (ArrayType.uint16.deserialize 0 (store (ArrayType.uint16.serialize
      ⟨0, [0x00be, 0xffef]⟩) (List.replicate 8 0))).value = some ⟨⟨4, [0x00be]⟩, 2⟩ := rfl
  rw [hv, Option.some.injEq] at hd
  rw [← hd] at hlen
  exact absurd hlen (by decide)

end SwiftRobot.ArrayCodecs
