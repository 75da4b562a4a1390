import SwiftRobot.BinaryPlist
import SwiftRobot.Support.Segments
import Mathlib.Tactic.IntervalCases

/-!
# Reading one object back

What each of the writers puts into the table is read back by its parser, wherever it
stands there. Numbers lose their upper nulls on the way and get them back.
-/

namespace SwiftRobot.Plist.Binary
open ByteWords
variable {α : Type} {cv : Conversions} {d : PlistHelperData}

theorem decode_dropNulls (minBytes : ℕ) (bytes : Bytes) :
    decode (dropNulls minBytes bytes).reverse = decode bytes.reverse := by
  induction bytes with
  | nil => rfl
  | cons b bytes ih =>
    unfold dropNulls
    split
    · rename_i h
      rw [ih, List.reverse_cons, decode_append, h.1]
      simp [decode]
    · rfl

@[simp] theorem decode_regulateNullBytes (origBytes : Bytes) (minBytes : ℕ) :
    decode (regulateNullBytes origBytes minBytes) = decode origBytes := by
  simp only [regulateNullBytes, decode_append, decode_dropNulls, List.reverse_reverse,
    decode_nulls, Nat.mul_zero, Nat.add_zero]

theorem dropNulls_length (minBytes : ℕ) (bytes : Bytes) :
    (dropNulls minBytes bytes).length ≤ bytes.length := by
  induction bytes with
  | nil => exact le_rfl
  | cons b bytes ih =>
    unfold dropNulls
    split
    · exact ih.trans (Nat.le_succ _)
    · exact le_rfl

theorem le_regulateNullBytes_length (origBytes : Bytes) (minBytes : ℕ) :
    minBytes ≤ (regulateNullBytes origBytes minBytes).length := by
  simp only [regulateNullBytes, List.length_append, List.length_replicate]
  omega

theorem regulateNullBytes_length_le (origBytes : Bytes) (minBytes : ℕ) :
    (regulateNullBytes origBytes minBytes).length ≤ max minBytes origBytes.length := by
  have hle := dropNulls_length minBytes origBytes.reverse
  rw [List.length_reverse] at hle
  simp only [regulateNullBytes, List.length_append, List.length_replicate, List.length_reverse]
  omega

theorem dropNulls_significant {minBytes : ℕ} {bytes : Bytes}
    (h : minBytes < (dropNulls minBytes bytes).length) :
    256 ^ ((dropNulls minBytes bytes).length - 1) ≤ decode (dropNulls minBytes bytes).reverse := by
  induction bytes with
  | nil => simp [dropNulls] at h
  | cons b bytes ih =>
    unfold dropNulls at h ⊢
    split_ifs at h ⊢ with hb
    · exact ih h
    · have hne : b.toNat ≠ 0 := by
        intro h0
        apply hb
        exact ⟨UInt8.toNat_inj.mp h0, h⟩
      have hpos : 256 ^ bytes.length * 1 ≤ 256 ^ bytes.length * b.toNat :=
        Nat.mul_le_mul_left _ (by omega)
      simp only [List.reverse_cons, decode_append, decode, List.length_reverse,
        List.length_cons, Nat.add_sub_cancel, Nat.mul_zero, Nat.add_zero]
      omega

theorem regulateNullBytes_length_of_lt {origBytes : Bytes} {minBytes k : ℕ} (hk : minBytes ≤ k)
    (h : decode origBytes < 256 ^ k) : (regulateNullBytes origBytes minBytes).length ≤ k := by
  simp only [regulateNullBytes, List.length_append, List.length_replicate, List.length_reverse]
  by_cases hmin : minBytes < (dropNulls minBytes origBytes.reverse).length
  · have hsig := dropNulls_significant hmin
    rw [decode_dropNulls, List.reverse_reverse] at hsig
    have hlt := hsig.trans_lt h
    have hexp := (Nat.pow_lt_pow_iff_right (by omega : 1 < 256)).mp hlt
    omega
  · omega

theorem lt_of_regulateNullBytes_length (origBytes : Bytes) (minBytes : ℕ) :
    decode origBytes < 256 ^ (regulateNullBytes origBytes minBytes).length := by
  have h := decode_lt (regulateNullBytes origBytes minBytes)
  rwa [decode_regulateNullBytes] at h

theorem bytesToInt_regulated (w : Word α) {bytes : Bytes} (h : bytes.length ≤ w.width) :
    bytesToInt w (regulateNullBytes bytes w.width) true = w.value (decode bytes) := by
  have hge := le_regulateNullBytes_length bytes w.width
  have hle := regulateNullBytes_length_le bytes w.width
  have hlen : (regulateNullBytes bytes w.width).length = w.width := by omega
  rw [bytesToInt, if_pos rfl, Word.ofBytes, List.take_of_length_le hlen.le,
    decode_regulateNullBytes]

theorem byteAt_placed {table rest : Bytes} {p : ℕ} {b : UInt8} (h : Placed table p (b :: rest)) :
    byteAt table p = .ok b := by
  rw [byteAt, if_neg (by omega), Int.toNat_natCast, h.getElem?]

theorem copyRange_placed {table xs : Bytes} {p : ℕ} (h : Placed table p xs) :
    copyRange table p xs.length = .ok xs := by
  have hle := h.le
  rw [copyRange, if_neg (by omega), if_pos (by omega), Int.toNat_natCast, Int.toNat_natCast,
    h.drop_take]

theorem copyVectorRange_placed {table xs : Bytes} {p : ℕ} (h : Placed table p xs) :
    copyVectorRange table p xs.length = .ok xs := by
  have hle := h.le
  rw [copyVectorRange, if_neg (by omega), copyRange_placed h]

theorem nextpow2_ilog2 {mark : UInt8} (hmark : mark ∈ [0x10, 0x20]) {n : ℕ} (hpos : 1 ≤ n)
    (hle : n ≤ 8) :
    let width := nextpow2 (UInt32.ofNat n)
    let header := mark ||| ilog2 width
    n ≤ width.toNat ∧ width.toNat ≤ 8 ∧ header &&& 0xF0 = mark ∧
      2 ^ (header &&& 0xf).toNat = width.toNat := by
  rcases List.mem_pair.mp hmark with rfl | rfl <;> interval_cases n <;> decide

theorem writeNumber_cases {bytes : Bytes} {mark : UInt8} (hmark : mark ∈ [0x10, 0x20])
    (hpos : 1 ≤ bytes.length) (hle : bytes.length ≤ 8) :
    ∃ header buffer, writeNumber mark bytes = header :: buffer ∧ header &&& 0xF0 = mark ∧
      buffer.length = 2 ^ (header &&& 0xf).toNat ∧ buffer.length ≤ 8 ∧
      decode buffer.reverse = decode bytes := by
  obtain ⟨hfits, h8, hkind, hcount⟩ := nextpow2_ilog2 hmark hpos hle
  unfold writeNumber
  generalize nextpow2 (UInt32.ofNat bytes.length) = width at *
  have hlen : (bytes ++ List.replicate (width.toNat - bytes.length) 0).reverse.length =
      width.toNat := by
    rw [List.length_reverse, List.length_append, List.length_replicate]
    omega
  refine ⟨_, _, rfl, hkind, hlen.trans hcount.symm, hlen.trans_le h8, ?_⟩
  rw [List.reverse_reverse, decode_append, decode_nulls, Nat.mul_zero, Nat.add_zero]

theorem number_placed {table bytes : Bytes} {mark : UInt8} {p : ℕ} (hmark : mark ∈ [0x10, 0x20])
    (hpos : 1 ≤ bytes.length) (hle : bytes.length ≤ 8)
    (h : Placed table p (writeNumber mark bytes)) :
    ∃ header buffer, byteAt table p = .ok header ∧ header &&& 0xF0 = mark ∧
      copyVectorRange table (p + 1) (2 ^ (header &&& 0xf).toNat) = .ok buffer ∧
      buffer.length ≤ 8 ∧ decode buffer.reverse = decode bytes ∧
      (writeNumber mark bytes).length = 2 ^ (header &&& 0xf).toNat + 1 := by
  obtain ⟨header, buffer, hnumber, hkind, hlen, h8, hdecode⟩ := writeNumber_cases hmark hpos hle
  rw [hnumber] at h ⊢
  have hcopy := copyVectorRange_placed h.tail
  rw [hlen] at hcopy
  refine ⟨header, buffer, byteAt_placed h, hkind, by exact_mod_cast hcopy, h8, hdecode, ?_⟩
  rw [List.length_cons, hlen]

theorem parseBinaryInt_placed {value : Int64} {p : ℕ}
    (h : Placed d.objectTable p (writeBinaryInteger value)) :
    parseBinaryInt d p = .ok (value, ((writeBinaryInteger value).length : ℤ) - 1) := by
  have hpos := le_regulateNullBytes_length (int64.bytes value) 1
  have hle := regulateNullBytes_length_le (int64.bytes value) 1
  rw [Word.bytes_length, int64_width] at hle
  obtain ⟨header, buffer, hbyte, -, hcopy, h8, hdecode, hlen⟩ :=
    number_placed (by simp) hpos (by omega) h
  rw [decode_regulateNullBytes] at hdecode
  rw [← List.length_reverse] at h8
  have hvalue := bytesToInt_regulated int64 h8
  rw [hdecode, int64_width] at hvalue
  unfold parseBinaryInt
  simp only [bind, Except.bind, hbyte, hcopy, hvalue, pure, Except.pure]
  have hround := Word.ofBytes_bytes int64 value
  rw [Word.ofBytes] at hround
  rw [hround, writeBinaryInteger, hlen]
  simp

theorem parseBinaryReal_placed {value : DoubleBits} {p : ℕ}
    (h : Placed d.objectTable p (writeBinaryDouble value)) :
    parseBinaryReal d p = .ok value := by
  have hbytes : doubleToBytes value true = double.bytes value := rfl
  rw [writeBinaryDouble, hbytes] at h
  have hpos := le_regulateNullBytes_length (double.bytes value) 4
  have hle := regulateNullBytes_length_le (double.bytes value) 4
  rw [Word.bytes_length, double_width] at hle
  obtain ⟨header, buffer, hbyte, -, hcopy, h8, hdecode, -⟩ :=
    number_placed (by simp) (by omega) (by omega) h
  rw [decode_regulateNullBytes] at hdecode
  rw [← List.length_reverse] at h8
  have hvalue := bytesToInt_regulated double h8
  rw [hdecode, double_width] at hvalue
  have hround := Word.ofBytes_bytes double value
  rw [Word.ofBytes, ← hvalue] at hround
  unfold parseBinaryReal
  simp only [bind, Except.bind, hbyte, hcopy, pure, Except.pure]
  exact congrArg _ hround

theorem mark_small {mark : UInt8} (hmark : mark ∈ [0x40, 0x50, 0xA0, 0xD0]) {n : ℕ} (hn : n < 15) :
    let header := mark ||| UInt8.ofNat n
    header &&& 0xF0 = mark ∧ header &&& 0xf < 15 ∧ (header &&& 0xf).toNat = n := by
  simp only [List.mem_cons, List.not_mem_nil, or_false] at hmark
  rcases hmark with rfl | rfl | rfl | rfl <;> interval_cases n <;> decide

theorem mark_large {mark : UInt8} (hmark : mark ∈ [0x40, 0x50, 0xA0, 0xD0]) :
    let header := mark ||| 0xf
    header &&& 0xF0 = mark ∧ ¬ header &&& 0xf < 15 := by
  simp only [List.mem_cons, List.not_mem_nil, or_false] at hmark
  rcases hmark with rfl | rfl | rfl | rfl <;> decide

theorem header_placed {mark : UInt8} (hmark : mark ∈ [0x40, 0x50, 0xA0, 0xD0]) {n p : ℕ}
    {rest : Bytes} (h : Placed d.objectTable p (writeHeader mark n ++ rest)) :
    ∃ header, byteAt d.objectTable p = .ok header ∧ header &&& 0xF0 = mark ∧
      getCount d p header = .ok (Int32.ofNat n, (writeHeader mark n).length) := by
  by_cases hn : n < 15
  · obtain ⟨hkind, hlt, hcount⟩ := mark_small hmark hn
    rw [writeHeader, if_pos hn] at h ⊢
    refine ⟨_, byteAt_placed h, hkind, ?_⟩
    simp only [getCount, if_pos hlt, hcount]
    rfl
  · obtain ⟨hkind, hlt⟩ := mark_large hmark
    rw [writeHeader, if_neg hn] at h ⊢
    refine ⟨_, byteAt_placed h, hkind, ?_⟩
    have hint := parseBinaryInt_placed h.tail.left
    rw [Nat.cast_succ] at hint
    simp only [getCount, if_neg hlt, bind, Except.bind, hint, pure, Except.pure,
      Int64.toInt32_ofNat', List.length_cons]
    congr 2
    push_cast
    ring

theorem toInt_ofNat_of_placed {table rest xs : Bytes} {p : ℕ} (h : Placed table p (rest ++ xs))
    (hsize : table.length < 2 ^ 31) : (Int32.ofNat xs.length).toInt = xs.length := by
  have hle := h.le
  rw [List.length_append] at hle
  exact Int32.toInt_ofNat_of_lt (by omega)

theorem parseBinaryByteArray_placed {byteArray : Bytes} {p : ℕ}
    (hsize : d.objectTable.length < 2 ^ 31)
    (h : Placed d.objectTable p (writeBinaryByteArray byteArray)) :
    parseBinaryByteArray d p = .ok byteArray := by
  obtain ⟨header, hbyte, -, hcount⟩ := header_placed (by simp) h
  have hcopy := copyRange_placed h.right
  rw [Nat.cast_add, add_comm] at hcopy
  unfold parseBinaryByteArray
  simp only [bind, Except.bind, hbyte, hcount, toInt_ofNat_of_placed h hsize]
  exact hcopy

theorem parseBinaryString_placed {value : Bytes} {p : ℕ} (hsize : d.objectTable.length < 2 ^ 31)
    (h : Placed d.objectTable p (writeBinaryString value true)) :
    parseBinaryString d p = .ok value := by
  rw [writeBinaryString, if_pos rfl] at h
  obtain ⟨header, hbyte, -, hcount⟩ := header_placed (by simp) h
  have hcopy := copyVectorRange_placed h.right
  rw [Nat.cast_add, add_comm] at hcopy
  unfold parseBinaryString
  simp only [bind, Except.bind, hbyte, hcount, toInt_ofNat_of_placed h hsize]
  exact hcopy

theorem parseBinaryBool_placed {value : Bool} {p : ℕ}
    (h : Placed d.objectTable p (writeBinaryBool value)) : parseBinaryBool d p = .ok value := by
  unfold parseBinaryBool
  cases value with
  | true => simp only [bind, Except.bind, byteAt_placed (show Placed _ p [0x09] from h)]; rfl
  | false => simp only [bind, Except.bind, byteAt_placed (show Placed _ p [0x08] from h)]; rfl

theorem parseBinaryDate_placed {date : Int64} {p : ℕ}
    (h : Placed d.objectTable p (writeBinaryDate cv date)) :
    parseBinaryDate cv d p = .ok (cv.setTimeFromAppleEpoch (cv.timeAsAppleEpoch date)) := by
  have hcopy := copyVectorRange_placed h.tail
  have hbytes : doubleToBytes (cv.timeAsAppleEpoch date) false =
      (double.bytes (cv.timeAsAppleEpoch date)).reverse := rfl
  rw [hbytes, List.length_reverse, Word.bytes_length, double_width, Nat.cast_succ] at hcopy
  have hwhole := List.take_of_length_le (l := (double.bytes (cv.timeAsAppleEpoch date)).reverse)
    (i := 8) (by simp)
  have hround : bytesToDouble (double.bytes (cv.timeAsAppleEpoch date)).reverse false =
      cv.timeAsAppleEpoch date := by
    rw [bytesToDouble, if_neg (by decide), hwhole, List.reverse_reverse, Word.ofBytes_bytes]
  unfold parseBinaryDate
  simp only [bind, Except.bind, pure, Except.pure]
  have h8 : ((8 : ℕ) : ℤ) = 8 := rfl
  rw [← h8, hcopy]
  simp only [hround]

def reread (cv : Conversions) : Scalar → Scalar
  | .int32 v => .int64 v.toInt64
  | .short v => .int64 v.toInt64
  | .float v => .double (cv.doubleOfFloat v)
  | .date time => .date (cv.setTimeFromAppleEpoch (cv.timeAsAppleEpoch time))
  | s => s

theorem parseObject_of_header {parse : Int32 → Parsing Value} {objRef : Int32} {p : ℕ}
    {header : UInt8} (hoff : offsetAt d objRef = .ok p) (hbyte : byteAt d.objectTable p = .ok header)
    {kind : UInt8} (hkind : header &&& 0xF0 = kind) :
    parseObject cv d parse objRef = parseKind cv d parse objRef p kind.toNat := by
  unfold parseObject
  rw [hoff]
  simp only [bind, Except.bind, hbyte, hkind]

theorem parseObject_integer {parse : Int32 → Parsing Value} {objRef : Int32} {p : ℕ}
    {value : Int64} (hoff : offsetAt d objRef = .ok p)
    (h : Placed d.objectTable p (writeBinaryInteger value)) :
    parseObject cv d parse objRef = .ok (.scalar (.int64 value)) := by
  have hpos := le_regulateNullBytes_length (int64.bytes value) 1
  have hle := regulateNullBytes_length_le (int64.bytes value) 1
  rw [Word.bytes_length, int64_width] at hle
  obtain ⟨header, -, hbyte, hkind, -⟩ := number_placed (by simp) hpos (by omega) h
  rw [parseObject_of_header hoff hbyte hkind]
  change _ <$> parseBinaryInt d p = _
  rw [parseBinaryInt_placed h]
  rfl

theorem parseObject_double {parse : Int32 → Parsing Value} {objRef : Int32} {p : ℕ}
    {value : DoubleBits} (hoff : offsetAt d objRef = .ok p)
    (h : Placed d.objectTable p (writeBinaryDouble value)) :
    parseObject cv d parse objRef = .ok (.scalar (.double value)) := by
  have hpos := le_regulateNullBytes_length (double.bytes value) 4
  have hle := regulateNullBytes_length_le (double.bytes value) 4
  rw [Word.bytes_length, double_width] at hle
  have hnumber : Placed d.objectTable p
    (writeNumber 0x20 (regulateNullBytes (double.bytes value) 4)) := h
  obtain ⟨header, -, hbyte, hkind, -⟩ := number_placed (by simp) (by omega) (by omega) hnumber
  rw [parseObject_of_header hoff hbyte hkind]
  change _ <$> parseBinaryReal d p = _
  rw [parseBinaryReal_placed h]
  rfl

theorem parseObject_scalar {parse : Int32 → Parsing Value} {objRef : Int32} {p : ℕ}
    {s : Scalar} {bytes : Bytes} (hs : writeScalar cv s = some bytes)
    (hsize : d.objectTable.length < 2 ^ 31) (hoff : offsetAt d objRef = .ok p)
    (h : Placed d.objectTable p bytes) :
    parseObject cv d parse objRef = .ok (.scalar (reread cv s)) := by
  cases s with
  | int32 v =>
    cases hs
    exact parseObject_integer hoff h
  | int64 v =>
    cases hs
    exact parseObject_integer hoff h
  | short v =>
    cases hs
    exact parseObject_integer hoff h
  | double v =>
    cases hs
    exact parseObject_double hoff h
  | float v =>
    cases hs
    exact parseObject_double hoff h
  | string value =>
    cases hs
    obtain ⟨header, hbyte, hkind, -⟩ := header_placed (by simp) h
    rw [parseObject_of_header hoff hbyte hkind]
    change _ <$> parseBinaryString d p = _
    rw [parseBinaryString_placed hsize h]
    rfl
  | data byteArray =>
    cases hs
    obtain ⟨header, hbyte, hkind, -⟩ := header_placed (by simp) h
    rw [parseObject_of_header hoff hbyte hkind]
    change _ <$> parseBinaryByteArray d p = _
    rw [parseBinaryByteArray_placed hsize h]
    rfl
  | date time =>
    cases hs
    have hkind : (0x33 : UInt8) &&& 0xF0 = 0x30 := by decide
    rw [parseObject_of_header hoff (byteAt_placed h) hkind]
    change _ <$> parseBinaryDate cv d p = _
    rw [parseBinaryDate_placed h]
    rfl
  | bool b =>
    cases hs
    have hheader : ∃ header, byteAt d.objectTable p = .ok header ∧ header &&& 0xF0 = 0x00 := by
      cases b with
      | true => exact ⟨0x09, byteAt_placed h, by decide⟩
      | false => exact ⟨0x08, byteAt_placed h, by decide⟩
    obtain ⟨header, hbyte, hkind⟩ := hheader
    rw [parseObject_of_header hoff hbyte hkind]
    change _ <$> parseBinaryBool d p = _
    rw [parseBinaryBool_placed h]
    rfl
  | other => cases hs

end SwiftRobot.Plist.Binary
