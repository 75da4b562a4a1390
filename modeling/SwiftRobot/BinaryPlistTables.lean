import SwiftRobot.BinaryPlistRoundTrip

/-!
# The tables of a written list

All offsets are written with as many bytes as the root's length needs. An object that
starts in the last bytes of a table can need one byte more: the table of the offsets is
then cut at the wrong places.
-/

namespace SwiftRobot.Plist.Binary
open ByteWords BoundedRecursion
variable {cv : Conversions} {d : PlistHelperData}

theorem turns_eq {n k : ℕ} (hk : 1 ≤ k) : (n * k + k - 1) / k = n := by
  have hsplit : n * k + k - 1 = k - 1 + k * n := by
    rw [Nat.mul_comm]
    omega
  rw [hsplit, Nat.add_mul_div_left _ _ (by omega), Nat.div_eq_of_lt (by omega), Nat.zero_add]

theorem parseOffsetTable_of_length {offsets : List Int32} {k : ℕ} (hk : 1 ≤ k) (h4 : k ≤ 4)
    (hlen : ∀ offset ∈ offsets, (writeOffset k offset).length = k) :
    parseOffsetTable k (offsets.flatMap (writeOffset k)) = .ok offsets := by
  have htotal := flatMap_length hlen
  have hplaced : Placed (offsets.flatMap (writeOffset k)) 0 (offsets.flatMap (writeOffset k)) :=
    ⟨[], [], by simp, rfl⟩
  rw [parseOffsetTable, if_neg (by omega)]
  simp only [htotal, turns_eq hk]
  apply mapM_of_forall₂
  rw [List.forall₂_iff_get]
  refine ⟨by simp, fun i hi hi' => ?_⟩
  have hi'' := List.getElem_mem hi'
  have hoffset := hplaced.flatMap hlen (List.getElem?_eq_getElem hi')
  have hcopy := copyVectorRange_placed hoffset
  rw [hlen _ hi'', Nat.zero_add] at hcopy
  have hle : (writeOffset k offsets[i]).reverse.length ≤ int32.width := by
    rw [List.length_reverse, hlen _ hi'']
    exact h4
  have hvalue := bytesToInt_regulated int32 hle
  have hround := Word.ofBytes_bytes int32 offsets[i]
  rw [writeOffset, List.reverse_reverse, decode_regulateNullBytes, int32_width] at hvalue
  rw [Word.ofBytes, ← hvalue] at hround
  simp only [List.get_eq_getElem, List.getElem_range, hcopy, bind, Except.bind, pure, Except.pure]
  rw [writeOffset, List.reverse_reverse, hround]

theorem mapM_length {α β : Type} {f : α → Parsing β} {l : List α} {bs : List β}
    (h : l.mapM f = .ok bs) : bs.length = l.length := by
  induction l generalizing bs with
  | nil =>
    cases h
    rfl
  | cons a l ih =>
    rw [List.mapM_cons] at h
    obtain ⟨b, -, h⟩ := bind_ok h
    obtain ⟨rest, hrest, h⟩ := bind_ok h
    cases h
    simp [ih hrest]

theorem length_of_parseOffsetTable {offsets : List Int32} {k : ℕ} (hk : 1 ≤ k)
    (h : parseOffsetTable k (offsets.flatMap (writeOffset k)) = .ok offsets) :
    ∀ offset ∈ offsets, (writeOffset k offset).length = k := by
  have hge : ∀ offset, k ≤ (writeOffset k offset).length := fun offset => by
    rw [writeOffset, List.length_reverse]
    exact le_regulateNullBytes_length _ _
  rw [parseOffsetTable, if_neg (by omega)] at h
  have hcount := mapM_length h
  rw [List.length_range] at hcount
  have htotal : (offsets.flatMap (writeOffset k)).length ≤ offsets.length * k := by
    by_contra hlt
    have hsucc : (offsets.length + 1) * k ≤ (offsets.flatMap (writeOffset k)).length + k - 1 := by
      rw [Nat.succ_mul]
      omega
    have hle := (Nat.le_div_iff_mul_le (show 0 < k by omega)).mpr hsucc
    omega
  clear h hcount
  induction offsets with
  | nil => simp
  | cons offset offsets ih =>
    rw [List.flatMap_cons, List.length_append, List.length_cons, Nat.succ_mul] at htotal
    have hoffset := hge offset
    have hrest : offsets.length * k ≤ (offsets.flatMap (writeOffset k)).length := by
      clear ih htotal
      induction offsets with
      | nil => simp
      | cons offset offsets ih =>
        rw [List.flatMap_cons, List.length_append, List.length_cons, Nat.succ_mul]
        have hoffset := hge offset
        omega
    exact List.forall_mem_cons.mpr ⟨by omega, ih (by omega)⟩

theorem writeOffset_length_iff {offset : Int32} {k : ℕ} :
    (writeOffset k offset).length = k ↔ offset.toUInt32.toNat < 256 ^ k := by
  have hbits : decode (int32.bytes offset) = offset.toUInt32.toNat := by
    rw [Word.bytes, decode_encode _ _ (int32.bits_lt _)]
    rfl
  rw [writeOffset, List.length_reverse]
  constructor
  · intro h
    have hlt := lt_of_regulateNullBytes_length (int32.bytes offset) k
    rwa [h, hbits] at hlt
  · intro h
    apply le_antisymm
    · exact regulateNullBytes_length_of_lt le_rfl (hbits.trans_lt h)
    · exact le_regulateNullBytes_length _ _

/-- No offset needs more bytes than the root's length, which all are written with. -/
def OffsetsFit (d : PlistHelperData) : Prop :=
  ∀ offset ∈ offsetsOf d, offset.toUInt32.toNat < 256 ^ offsetByteSizeOf d

instance (d : PlistHelperData) : Decidable (OffsetsFit d) :=
  List.decidableBAll _ (offsetsOf d)

theorem offsetByteSizeOf_bounds (d : PlistHelperData) :
    1 ≤ offsetByteSizeOf d ∧ offsetByteSizeOf d ≤ 4 := by
  refine ⟨le_regulateNullBytes_length _ _, ?_⟩
  have hle := regulateNullBytes_length_le (int32.bytes (rootEntry d)) 1
  rw [Word.bytes_length, int32_width] at hle
  exact hle

/-- The table of the offsets can be read back where they all fit, and only there. -/
theorem parseOffsetTable_iff (d : PlistHelperData) :
    parseOffsetTable (offsetByteSizeOf d) (writeOffsets d) = .ok (offsetsOf d) ↔ OffsetsFit d := by
  obtain ⟨hpos, h4⟩ := offsetByteSizeOf_bounds d
  unfold OffsetsFit
  simp only [← writeOffset_length_iff]
  exact ⟨length_of_parseOffsetTable hpos, parseOffsetTable_of_length hpos h4⟩

/-- The objects take 262 bytes, the boolean starts at byte 261, and offsets have one byte. -/
example : (writeObjects plainConversions (.array
    [.scalar (.data (List.replicate 247 7)), .scalar (.bool true)])).map
      (fun d => (offsetsOf d, offsetByteSizeOf d, decide (OffsetsFit d))) =
    some ([8, 11, 261], 1, false) := by
  decide +kernel

theorem writeTrailer_length (d : PlistHelperData) (totalRefs : Int32) :
    (writeTrailer d totalRefs).length = 32 := by
  simp [writeTrailer]

theorem byteSize_read {n : ℕ} (h : n ≤ 4) :
    (bytesToInt int32 (regulateNullBytes [UInt8.ofNat n] 4) true).toInt.toNat = n := by
  have hle : [UInt8.ofNat n].length ≤ int32.width := by simp
  have hvalue := bytesToInt_regulated int32 hle
  rw [int32_width] at hvalue
  rw [hvalue]
  interval_cases n <;> rfl

theorem parseTrailer_writeTrailer {totalRefs : Int32} (hsize : d.objRefSize ≤ 4)
    (hlen : d.objectTable.length < 2 ^ 63) :
    (parseTrailer (writeTrailer d totalRefs)).offsetByteSize = offsetByteSizeOf d ∧
      (parseTrailer (writeTrailer d totalRefs)).objRefSize = d.objRefSize ∧
      (parseTrailer (writeTrailer d totalRefs)).offsetTableOffset.toInt = d.objectTable.length := by
  have hwhole : Placed (writeTrailer d totalRefs) 0 (writeTrailer d totalRefs) :=
    ⟨[], [], by simp, rfl⟩
  have hsizes := hwhole.right
  have htail := hsizes.right.right.right
  simp only [List.length_replicate, List.length_cons, List.length_nil, List.length_reverse,
    Word.bytes_length, int64_width, Nat.zero_add] at hsizes htail
  have hpair : Placed (writeTrailer d totalRefs) 6
      ([UInt8.ofNat (offsetByteSizeOf d)] ++ [UInt8.ofNat d.objRefSize]) := hsizes.left
  have hfirst := hpair.left
  have hsecond := hpair.right
  simp only [List.length_singleton] at hsecond
  have hlast := htail.drop_take
  simp only [List.length_reverse, Word.bytes_length, int64_width] at hlast
  refine ⟨?_, ?_, ?_⟩
  · simp only [parseTrailer]
    rw [show (1 : ℕ) = [UInt8.ofNat (offsetByteSizeOf d)].length from rfl, hfirst.drop_take]
    exact byteSize_read (offsetByteSizeOf_bounds d).2
  · simp only [parseTrailer]
    rw [show (1 : ℕ) = [UInt8.ofNat d.objRefSize].length from rfl, hsecond.drop_take]
    exact byteSize_read hsize
  · simp only [parseTrailer, hlast]
    rw [bytesToInt, if_neg (by decide), int64_width, List.take_of_length_le (by simp),
      List.reverse_reverse, Word.ofBytes_bytes, Int64.toInt_ofNat_of_lt hlen]

theorem writeObjects_cases {v : Value} (h : writeObjects cv v = some d) :
    ∃ d₁ N, countAny v = N + 1 ∧ d = prepend d₁ (text "bplist00") ∧
      d₁.offsetTable.length = N ∧ N < d₁.objectTable.length ∧
      d₁.refCount + Int32.ofNat N = Int32.ofNat N ∧
      d₁.objRefSize = (regulateNullBytes (int32.bytes (Int32.ofNat N)) 1).length ∧
      ∃ d₀, d₀.offsetTable = [] ∧ writeBinary cv d₀ v = some d₁ := by
  obtain ⟨N, hN⟩ : ∃ N, countAny v = N + 1 := by
    cases v <;> exact ⟨_, rfl⟩
  have hrefs : Int32.ofNat (countAny v) - 1 = Int32.ofNat N := by
    rw [hN, Int32.ofNat_add]
    grind
  simp only [writeObjects, hrefs] at h
  obtain ⟨d₁, hwrite, rfl⟩ := Option.map_eq_some_iff.mp h
  obtain ⟨hgrows, hlen, hsize⟩ := writes v _ _ hwrite
  have hcount := hgrows.refCount
  simp only [List.length_nil] at hlen hsize hcount
  have hpushed : d₁.offsetTable.length = N := by omega
  refine ⟨d₁, N, hN, rfl, hpushed, by omega, ?_, hgrows.refSize, _, rfl, hwrite⟩
  rw [← hpushed, hcount, hpushed]
  grind

theorem getElem?_offsetsOf {d₁ : PlistHelperData} {N : ℕ} (hpushed : d.offsetTable.length = N)
    (hd : d₁.offsetTable = d.offsetTable) {j : ℕ} {entry : Int32}
    (hj : d.offsetTable[j]? = some entry) :
    (offsetsOf d₁)[N - j]? = some (Int32.ofNat d₁.objectTable.length - entry) := by
  obtain ⟨hlt, -⟩ := List.getElem?_eq_some_iff.mp hj
  rw [offsetsOf, List.getElem?_map, List.getElem?_reverse (by rw [List.length_append, hd]; simp; omega),
    List.length_append, List.length_singleton, hd, List.getElem?_append_left (by omega),
    show d.offsetTable.length + 1 - 1 - (N - j) = j by omega, hj]
  rfl

theorem magic_length (d₁ : PlistHelperData) :
    (prepend d₁ (text "bplist00")).objectTable.length = d₁.objectTable.length + 8 := by
  simp only [prepend, List.length_append]
  rw [Nat.add_comm]
  rfl

theorem writeObjects_refSize {v : Value} (h : writeObjects cv v = some d) : d.objRefSize ≤ 4 := by
  obtain ⟨d₁, N, -, rfl, -, -, -, hrefSize, -⟩ := writeObjects_cases h
  have hmax := regulateNullBytes_length_le (int32.bytes (Int32.ofNat N)) 1
  rw [Word.bytes_length, int32_width] at hmax
  exact hrefSize.trans_le hmax

theorem offsetsOf_root (d₁ : PlistHelperData) :
    (offsetsOf (prepend d₁ (text "bplist00")))[0]? = some (Int32.ofNat 8) := by
  have hentry : rootEntry (prepend d₁ (text "bplist00")) = Int32.ofNat d₁.objectTable.length := by
    rw [rootEntry, magic_length, Nat.add_sub_cancel]
  rw [offsetsOf, hentry, List.reverse_append, List.reverse_singleton, List.singleton_append,
    List.map_cons, List.getElem?_cons_zero, magic_length, ofNat_sub_ofNat (Nat.le_add_right _ _),
    Nat.add_sub_cancel_left]

/-- Tables with the objects and their offsets have the root at their start, and it leads to
everything below. -/
theorem returns_root {t : PlistHelperData} {v : Value} (h : writeObjects cv v = some d)
    (hkeyed : v.Keyed) (hlen : d.objectTable.length < 2 ^ 31)
    (hobjects : t.objectTable = d.objectTable) (hoffsets : t.offsetTable = offsetsOf d)
    (hrefSize : t.objRefSize = d.objRefSize) :
    Returns cv t 0 (v.mapScalars (reread cv)) := by
  have hle := writeObjects_refSize h
  obtain ⟨d₁, N, -, rfl, hpushed, hN, hcount, hsize, d₀, -, hwrite⟩ := writeObjects_cases h
  have hrefSize' : t.objRefSize = d₁.objRefSize := hrefSize
  have hfit := lt_of_regulateNullBytes_length (int32.bytes (Int32.ofNat N)) 1
  have hpos := le_regulateNullBytes_length (int32.bytes (Int32.ofNat N)) 1
  rw [magic_length] at hlen
  rw [decode_int32_ofNat (by omega), ← hsize, ← hrefSize'] at hfit
  rw [← hsize, ← hrefSize'] at hpos
  have htotal : t.objectTable.length = d₁.objectTable.length + 8 := by
    rw [hobjects, magic_length]
  have hsmall : Small t N := ⟨by omega, by omega, hpos, hrefSize.trans_le hle, hfit⟩
  have hleads : Leads t N d₁ := by
    refine ⟨?_, hrefSize', by rw [hpushed, hcount], hpushed.le, fun j entry hj => ?_⟩
    · rw [hobjects]
      exact List.suffix_append _ _
    · have hsame : (prepend d₁ (text "bplist00")).offsetTable = d₁.offsetTable := rfl
      rw [hoffsets, hobjects]
      exact getElem?_offsetsOf hpushed hsame hj
  have hoff : offsetAt t (Int32.ofNat 0) =
      .ok ((t.objectTable.length - d₁.objectTable.length : ℕ) : ℤ) := by
    rw [offsetAt_ofNat (by decide) (hoffsets ▸ offsetsOf_root d₁), htotal, Nat.add_sub_cancel_left]
    rfl
  exact readsBack hsmall v hkeyed _ _ hwrite hleads _ hoff

theorem parsePlist_written {v : Value} {totalRefs : Int32} (h : writeObjects cv v = some d)
    (hkeyed : v.Keyed) (hlen : d.objectTable.length < 2 ^ 31) (hfit : OffsetsFit d) :
    parsePlist cv (writeTrailer d totalRefs) d.objectTable (writeOffsets d) =
      .ok (v.mapScalars (reread cv)) := by
  obtain ⟨hbyteSize, hrefSize, -⟩ :=
    @parseTrailer_writeTrailer d totalRefs (writeObjects_refSize h) (by omega)
  unfold parsePlist
  simp only [hbyteSize, (parseOffsetTable_iff d).mpr hfit]
  exact returns_root h hkeyed hlen rfl rfl hrefSize

theorem parts_written {v : Value} {payload : Bytes} (hobjects : writeObjects cv v = some d)
    (hwrite : writePlistBinary cv v = some payload) (hlen : payload.length < 2 ^ 31) :
    ∃ totalRefs, d.objectTable.length < 2 ^ 31 ∧
      copyRange payload ((payload.length : ℤ) - 32) 32 = .ok (writeTrailer d totalRefs) ∧
      (parseTrailer (writeTrailer d totalRefs)).offsetTableOffset.toInt = d.objectTable.length ∧
      copyRange payload 0 d.objectTable.length = .ok d.objectTable ∧
      copyRange payload d.objectTable.length (payload.length - d.objectTable.length - 32) =
        .ok (writeOffsets d) := by
  have hpayload : d.objectTable ++ (writeOffsets d ++
      writeTrailer d (Int32.ofNat (countAny v) - 1)) = payload := by
    rw [writePlistBinary, hobjects] at hwrite
    exact Option.some.inj hwrite
  have htrailerLen := writeTrailer_length d (Int32.ofNat (countAny v) - 1)
  have hwhole : Placed payload 0 payload := ⟨[], [], by simp, rfl⟩
  have hcut := hwhole
  rw [← hpayload] at hcut
  have htrailer := hcut.right.right
  have hoffsets := hcut.right.left
  have htable := hcut.left
  rw [hpayload] at htrailer hoffsets htable
  have hsum := congrArg List.length hpayload
  rw [List.length_append, List.length_append, htrailerLen] at hsum
  obtain ⟨-, -, hoffset⟩ :=
    @parseTrailer_writeTrailer d (Int32.ofNat (countAny v) - 1) (writeObjects_refSize hobjects)
      (by omega)
  refine ⟨Int32.ofNat (countAny v) - 1, by omega, ?_, hoffset, copyRange_placed htable, ?_⟩
  · have hcopy := copyRange_placed htrailer
    rw [htrailerLen, Nat.zero_add] at hcopy
    have hindex : (payload.length : ℤ) - 32 =
        (d.objectTable.length + (writeOffsets d).length : ℕ) := by omega
    rw [hindex]
    exact hcopy
  · have hcopy := copyRange_placed hoffsets
    rw [Nat.zero_add] at hcopy
    have hsize : (payload.length : ℤ) - d.objectTable.length - 32 = (writeOffsets d).length := by
      omega
    rw [hsize]
    exact hcopy

/-- A list that was written is read back, up to the widths of its numbers, where all its
offsets fit. -/
theorem readPlistBinary_writePlistBinary {v : Value} {payload : Bytes}
    (hobjects : writeObjects cv v = some d) (hfit : OffsetsFit d)
    (hwrite : writePlistBinary cv v = some payload) (hlen : payload.length < 2 ^ 31)
    (hkeyed : v.Keyed) : readPlistBinary cv payload = .ok (v.mapScalars (reread cv)) := by
  obtain ⟨totalRefs, htableLen, htrailer, hoffset, htable, hoffsets⟩ :=
    parts_written hobjects hwrite hlen
  rw [readPlistBinary, htrailer]
  simp only [bind, Except.bind, hoffset, htable, hoffsets]
  exact parsePlist_written hobjects hkeyed htableLen hfit

def resultMessage (number : Int64) : Value :=
  .dictionary [(text "MessageType", .scalar (.string (text "Result"))),
    (text "Number", .scalar (.int64 number))]

theorem resultMessage_readBack : ∃ payload, writePlistBinary plainConversions (resultMessage 3) =
    some payload ∧ readPlistBinary plainConversions payload = .ok (resultMessage 3) := by
  have hkeyed : (resultMessage 3).Keyed := by
    simp only [resultMessage, Value.Keyed, Value.KeyedWith, Value.KeyedEntries]
    decide
  exact ⟨_, rfl, readPlistBinary_writePlistBinary (v := resultMessage 3) rfl (by decide) rfl
    (by decide) hkeyed⟩

end SwiftRobot.Plist.Binary
