import SwiftRobot.BinaryPlistDepth
import SwiftRobot.BinaryPlistObjects

/-!
# What was written is read back

The writer is followed backwards from the tables it ends with. Each of its states
`Leads` to them: what it has in the table stays at the same distance from the end, and
what it remembers of an object becomes the entry of the offset table that the reference
to the object names.
-/

namespace SwiftRobot.Plist.Binary
open ByteWords BoundedRecursion
variable {α β : Type} {cv : Conversions} {d : PlistHelperData}

theorem mapM_of_forall₂ {f : α → Parsing β} {l : List α} {bs : List β}
    (h : List.Forall₂ (fun a b => f a = .ok b) l bs) : l.mapM f = .ok bs := by
  induction h with
  | nil => rfl
  | cons hb _ ih =>
    rw [List.mapM_cons, hb, ih]
    rfl

theorem parseRef_placed {ref : Int32} {p : ℕ} (h4 : d.objRefSize ≤ 4)
    (hlen : (writeRef d ref).length = d.objRefSize)
    (h : Placed d.objectTable p (writeRef d ref)) : parseRef d p = .ok ref := by
  have hcopy := copyVectorRange_placed h
  rw [hlen] at hcopy
  have hle : (writeRef d ref).reverse.length ≤ int32.width := by
    rw [List.length_reverse, hlen]
    exact h4
  have hvalue := bytesToInt_regulated int32 hle
  have hround := Word.ofBytes_bytes int32 ref
  rw [writeRef, List.reverse_reverse, decode_regulateNullBytes, int32_width] at hvalue
  rw [Word.ofBytes, ← hvalue] at hround
  unfold parseRef
  simp only [bind, Except.bind, hcopy, pure, Except.pure]
  rw [writeRef, List.reverse_reverse, hround]

theorem flatMap_length {f : β → List α} {bs : List β} {n : ℕ} (hf : ∀ b ∈ bs, (f b).length = n) :
    (bs.flatMap f).length = bs.length * n := by
  induction bs with
  | nil => simp
  | cons b bs ih =>
    obtain ⟨hb, hbs⟩ := List.forall_mem_cons.mp hf
    rw [List.flatMap_cons, List.length_append, hb, ih hbs, List.length_cons]
    ring

theorem int_of_lt {v : ℕ} (h : v < 2 ^ 31) : int v = .ok v := by
  have hin : -2147483648 ≤ (v : ℤ) ∧ (v : ℤ) ≤ 2147483647 := by omega
  rw [int, if_pos hin]

theorem getRefsForContainers_placed {objRef : Int32} {mark : UInt8} {n p : ℕ} {refs : List Int32}
    (hmark : mark ∈ [0xA0, 0xD0]) (hrefs : refs.length = n * if mark = 0xD0 then 2 else 1)
    (hsize : d.objectTable.length < 2 ^ 31) (hpos : 1 ≤ d.objRefSize) (h4 : d.objRefSize ≤ 4)
    (hlen : ∀ ref ∈ refs, (writeRef d ref).length = d.objRefSize)
    (hoff : offsetAt d objRef = .ok p)
    (h : Placed d.objectTable p (writeHeader mark n ++ refs.flatMap (writeRef d))) :
    getRefsForContainers d objRef = .ok refs := by
  have hmarks : mark ∈ [(0x40 : UInt8), 0x50, 0xA0, 0xD0] := by
    rcases List.mem_pair.mp hmark with rfl | rfl <;> simp
  obtain ⟨header, hbyte, hkind, hcount⟩ := header_placed hmarks h
  have hle := h.le
  rw [List.length_append, flatMap_length hlen] at hle
  have hturns : refs.length ≤ refs.length * d.objRefSize := Nat.le_mul_of_pos_right _ hpos
  have hn : n ≤ refs.length := by
    rw [hrefs]
    split <;> omega
  have hmult : (n : ℤ) * (if header &&& 0xF0 = 0xD0 then 2 else 1) = (refs.length : ℕ) := by
    rw [hkind, hrefs]
    split <;> push_cast <;> rfl
  have htotal : ((refs.length : ℕ) : ℤ) * d.objRefSize = (refs.length * d.objRefSize : ℕ) := by
    push_cast
    rfl
  have hstart : ((writeHeader mark n).length : ℤ) + p = (p + (writeHeader mark n).length : ℕ) := by
    push_cast
    ring
  have hend : ((p + (writeHeader mark n).length : ℕ) : ℤ) + (refs.length * d.objRefSize : ℕ) =
      (p + (writeHeader mark n).length + refs.length * d.objRefSize : ℕ) := by
    push_cast
    ring
  have hdiff : (((p + (writeHeader mark n).length + refs.length * d.objRefSize : ℕ) : ℤ) -
      (p + (writeHeader mark n).length : ℕ)) / d.objRefSize = refs.length := by
    rw [← hend, add_sub_cancel_left, ← htotal, Int.mul_ediv_cancel _ (by omega)]
  have hparts : List.Forall₂ (fun (turn : ℕ) ref =>
      parseRef d ((p + (writeHeader mark n).length : ℕ) + (turn : ℤ) * d.objRefSize) = .ok ref)
      (List.range refs.length) refs := by
    rw [List.forall₂_iff_get]
    refine ⟨by simp, fun i hi hi' => ?_⟩
    have hplaced := h.right.flatMap hlen (List.getElem?_eq_getElem hi')
    have hparse := parseRef_placed h4 (hlen _ (List.getElem_mem hi')) hplaced
    simpa using hparse
  unfold getRefsForContainers
  simp only [hoff, bind, Except.bind, hbyte, hcount, Int32.toInt_ofNat_of_lt (show n < 2 ^ 31 by omega),
    hmult, int_of_lt (show refs.length < 2 ^ 31 by omega), htotal,
    int_of_lt (show refs.length * d.objRefSize < 2 ^ 31 by omega), hstart, hend,
    int_of_lt (show p + (writeHeader mark n).length + refs.length * d.objRefSize < 2 ^ 31 by omega),
    if_neg (show d.objRefSize ≠ 0 by omega), hdiff, Int.toNat_natCast]
  exact mapM_of_forall₂ hparts

def Returns (cv : Conversions) (d : PlistHelperData) (objRef : Int32) (v : Value) : Prop :=
  parseBinary cv d (d.offsetTable.length + 1) objRef = .ok v

theorem Returns.of_parseObject {objRef : Int32} {v : Value}
    (h : parseObject cv d (parseBinary cv d (d.offsetTable.length + 1)) objRef = .ok v) :
    Returns cv d objRef v := by
  have hsettled := @parseBinary_settles cv d _ (Nat.le_succ (d.offsetTable.length + 1))
  rw [Returns, ← hsettled]
  exact h

theorem parseKind_array {parse : Int32 → Parsing Value} {objRef : Int32} {p : ℤ}
    {refs : List Int32} (hrefs : getRefsForContainers d objRef = .ok refs) :
    parseKind cv d parse objRef p (0xA0 : UInt8).toNat =
      Value.array <$> parseBinaryArray parse refs := by
  have hkind : (0xA0 : UInt8).toNat = 160 := rfl
  rw [hkind, parseKind, hrefs]
  rfl

theorem parseKind_dictionary {parse : Int32 → Parsing Value} {objRef : Int32} {p : ℤ}
    {refs : List Int32} (hrefs : getRefsForContainers d objRef = .ok refs) :
    parseKind cv d parse objRef p (0xD0 : UInt8).toNat =
      (fun dict => Value.dictionary dict.entries) <$> parseBinaryDictionary parse refs := by
  have hkind : (0xD0 : UInt8).toNat = 208 := rfl
  rw [hkind, parseKind, hrefs]
  rfl

theorem Returns.array {objRef : Int32} {p : ℕ} {header : UInt8} {refs : List Int32}
    {items : List Value} (hoff : offsetAt d objRef = .ok p)
    (hbyte : byteAt d.objectTable p = .ok header) (hkind : header &&& 0xF0 = 0xA0)
    (hrefs : getRefsForContainers d objRef = .ok refs)
    (hitems : List.Forall₂ (Returns cv d) refs items) :
    Returns cv d objRef (.array items) := by
  apply Returns.of_parseObject
  rw [parseObject_of_header hoff hbyte hkind, parseKind_array hrefs, parseBinaryArray,
    mapM_of_forall₂ hitems]
  rfl

theorem parseBinaryEntries_returns {parse : Int32 → Parsing Value}
    {keyRefs valueRefs : List Int32} {entries : List (Bytes × Value)}
    {dict : OrderedMap Bytes Value}
    (hkeys : List.Forall₂ (fun r e => parse r = .ok (.scalar (.string e.1))) keyRefs entries)
    (hvalues : List.Forall₂ (fun r e => parse r = .ok e.2) valueRefs entries) :
    parseBinaryEntries parse (keyRefs.zip valueRefs) dict = .ok (dict.insertAll entries) := by
  induction hkeys generalizing valueRefs dict with
  | nil =>
    cases hvalues
    rfl
  | cons hkey _ ih =>
    cases hvalues with
    | cons hvalue hvalues =>
      simp only [List.zip_cons_cons, parseBinaryEntries, bind, Except.bind, hkey, hvalue]
      exact ih hvalues

theorem Returns.dictionary {objRef : Int32} {p : ℕ} {header : UInt8}
    {keyRefs valueRefs : List Int32} {entries : List (Bytes × Value)}
    (hoff : offsetAt d objRef = .ok p) (hbyte : byteAt d.objectTable p = .ok header)
    (hkind : header &&& 0xF0 = 0xD0)
    (hrefs : getRefsForContainers d objRef = .ok (keyRefs ++ valueRefs))
    (hkeys : List.Forall₂ (fun r e => Returns cv d r (.scalar (.string e.1))) keyRefs entries)
    (hvalues : List.Forall₂ (fun r e => Returns cv d r e.2) valueRefs entries)
    (hsorted : entries.Pairwise fun a b => a.1 < b.1) :
    Returns cv d objRef (.dictionary entries) := by
  apply Returns.of_parseObject
  have hhalf : (keyRefs ++ valueRefs).length / 2 = keyRefs.length := by
    rw [List.length_append, hkeys.length_eq, hvalues.length_eq]
    omega
  have hparse : parseBinaryDictionary (parseBinary cv d (d.offsetTable.length + 1))
      (keyRefs ++ valueRefs) = .ok (OrderedMap.empty.insertAll entries) := by
    simp only [parseBinaryDictionary, hhalf, List.take_left, List.drop_left]
    exact parseBinaryEntries_returns hkeys hvalues
  have hentries := OrderedMap.insertAll_of_sorted OrderedMap.empty hsorted
  rw [parseObject_of_header hoff hbyte hkind, parseKind_dictionary hrefs, hparse]
  exact congrArg (fun l => Except.ok (Value.dictionary l)) hentries

theorem writeItems_cons {item : Value} {items : List Value} {d₁ : PlistHelperData}
    {refs : List Int32} (h : writeItems cv d (item :: items) = some (d₁, refs)) :
    ∃ d₂ refs₂ d₃, writeItems cv d items = some (d₂, refs₂) ∧ writeBinary cv d₂ item = some d₃ ∧
      pushObject d₃ refs₂ = (d₁, refs) := by
  rw [writeItems] at h
  split at h
  · cases h
  · rename_i d₂ refs₂ hitems
    split at h
    · cases h
    · rename_i d₃ hitem
      exact ⟨d₂, refs₂, d₃, hitems, hitem, Option.some.inj h⟩

theorem writeValues_eq (d : PlistHelperData) (entries : List (Bytes × Value)) :
    writeValues cv d entries = writeItems cv d (entries.map Prod.snd) := by
  induction entries with
  | nil => rw [writeValues, List.map_nil, writeItems]
  | cons e entries ih =>
    obtain ⟨key, value⟩ := e
    rw [writeValues, List.map_cons, writeItems, ih]

theorem writeKeys_eq (d : PlistHelperData) (refs : List Int32) (keys : List Bytes) :
    ∃ d₁ keyRefs, writeItems cv d (keys.map fun key => .scalar (.string key)) =
        some (d₁, keyRefs) ∧
      writeKeys cv d refs keys = (d₁, keyRefs ++ refs) := by
  induction keys with
  | nil =>
    refine ⟨d, [], ?_, rfl⟩
    rw [List.map_nil, writeItems]
  | cons key keys ih =>
    obtain ⟨d₁, keyRefs, hitems, hkeys⟩ := ih
    let d₂ := prepend d₁ (writeBinaryString key true)
    refine ⟨(pushObject d₂ keyRefs).1, (pushObject d₂ keyRefs).2, ?_, ?_⟩
    · rw [List.map_cons, writeItems, hitems]
      simp only [writeBinary, writeScalar, Option.map_some]
      rfl
    · rw [writeKeys, hkeys]
      rfl

theorem writeBinary_array {items : List Value} {d₁ : PlistHelperData}
    (h : writeBinary cv d (.array items) = some d₁) :
    ∃ d₂ refs, writeItems cv d items = some (d₂, refs) ∧
      d₁ = writeContainer d₂ 0xA0 items.length refs := by
  rw [writeBinary] at h
  split at h
  · cases h
  · rename_i d₂ refs hitems
    exact ⟨d₂, refs, hitems, (Option.some.inj h).symm⟩

theorem writeBinary_dictionary {entries : List (Bytes × Value)} {d₁ : PlistHelperData}
    (h : writeBinary cv d (.dictionary entries) = some d₁) :
    ∃ d₂ valueRefs d₃ keyRefs, writeItems cv d (entries.map Prod.snd) = some (d₂, valueRefs) ∧
      writeItems cv d₂ (entries.map fun e => .scalar (.string e.1)) = some (d₃, keyRefs) ∧
      d₁ = writeContainer d₃ 0xD0 entries.length (keyRefs ++ valueRefs) := by
  rw [writeBinary, writeValues_eq] at h
  split at h
  · cases h
  · rename_i d₂ valueRefs hvalues
    obtain ⟨d₃, keyRefs, hkeys, hwrite⟩ :=
      @writeKeys_eq cv d₂ valueRefs (entries.map Prod.fst)
    rw [hwrite] at h
    rw [List.map_map] at hkeys
    exact ⟨d₂, valueRefs, d₃, keyRefs, hvalues, hkeys, (Option.some.inj h).symm⟩

structure Grows (d d₁ : PlistHelperData) : Prop where
  objects : d.objectTable <:+ d₁.objectTable
  offsets : d.offsetTable <+: d₁.offsetTable
  refSize : d₁.objRefSize = d.objRefSize
  refCount : d₁.refCount + Int32.ofNat d₁.offsetTable.length =
    d.refCount + Int32.ofNat d.offsetTable.length

theorem Grows.refl (d : PlistHelperData) : Grows d d :=
  ⟨List.suffix_rfl, List.prefix_rfl, rfl, rfl⟩

theorem Grows.trans {d₁ d₂ : PlistHelperData} (h : Grows d d₁) (h' : Grows d₁ d₂) : Grows d d₂ :=
  ⟨h.objects.trans h'.objects, h.offsets.trans h'.offsets, h'.refSize.trans h.refSize,
    h'.refCount.trans h.refCount⟩

theorem grows_prepend (d : PlistHelperData) (buffer : Bytes) : Grows d (prepend d buffer) :=
  ⟨List.suffix_append _ _, List.prefix_rfl, rfl, rfl⟩

theorem grows_pushObject (d : PlistHelperData) (refs : List Int32) :
    Grows d (pushObject d refs).1 := by
  refine ⟨List.suffix_rfl, List.prefix_append _ _, rfl, ?_⟩
  simp only [pushObject, List.length_append, List.length_singleton, Int32.ofNat_add]
  grind

def Writes (cv : Conversions) (v : Value) : Prop :=
  ∀ d d₁, writeBinary cv d v = some d₁ →
    Grows d d₁ ∧ d₁.offsetTable.length + 1 = d.offsetTable.length + countAny v ∧
      d.objectTable.length + countAny v ≤ d₁.objectTable.length

theorem writeItems_grows {items : List Value} (hitems : ∀ v ∈ items, Writes cv v)
    {d₁ : PlistHelperData} {refs : List Int32} (h : writeItems cv d items = some (d₁, refs)) :
    Grows d d₁ ∧ d₁.offsetTable.length = d.offsetTable.length + countArray items ∧
      d.objectTable.length + countArray items ≤ d₁.objectTable.length ∧
      refs.length = items.length := by
  induction items generalizing d₁ refs with
  | nil =>
    rw [writeItems] at h
    cases h
    exact ⟨.refl d, rfl, le_rfl, rfl⟩
  | cons item items ih =>
    obtain ⟨hitem, hrest⟩ := List.forall_mem_cons.mp hitems
    obtain ⟨d₂, refs₂, d₃, hitems, hwrite, hpush⟩ := writeItems_cons h
    obtain ⟨hgrows, hlen, hsize, hrefs⟩ := ih hrest hitems
    obtain ⟨hgrows', hlen', hsize'⟩ := hitem _ _ hwrite
    have hpushed := grows_pushObject d₃ refs₂
    rw [hpush] at hpushed
    cases hpush
    refine ⟨(hgrows.trans hgrows').trans hpushed, ?_, ?_, by simp [hrefs]⟩
    · simp only [List.length_append, List.length_singleton, countArray]
      omega
    · simp only [countArray]
      omega

theorem countDictionary_eq (entries : List (Bytes × Value)) :
    countDictionary entries = countArray (entries.map Prod.snd) + entries.length := by
  induction entries with
  | nil => rfl
  | cons e entries ih =>
    obtain ⟨key, value⟩ := e
    simp only [countDictionary, ih, List.map_cons, countArray, List.length_cons]
    omega

theorem countArray_strings (entries : List (Bytes × Value)) :
    countArray (entries.map fun e => .scalar (.string e.1)) = entries.length := by
  induction entries with
  | nil => rfl
  | cons e entries ih =>
    simp only [List.map_cons, countArray, countAny, ih, List.length_cons]
    omega

theorem writeHeader_length_pos (mark : UInt8) (size : ℕ) : 0 < (writeHeader mark size).length := by
  unfold writeHeader
  split <;> simp

theorem writeScalar_length_pos {s : Scalar} {bytes : Bytes} (h : writeScalar cv s = some bytes) :
    0 < bytes.length := by
  cases s with
  | other => cases h
  | bool b =>
    cases h
    cases b <;> simp [writeBinaryBool]
  | string value =>
    cases h
    have hpos := writeHeader_length_pos 0x50 value.length
    rw [writeBinaryString, if_pos rfl, List.length_append]
    omega
  | data byteArray =>
    cases h
    have hpos := writeHeader_length_pos 0x40 byteArray.length
    rw [writeBinaryByteArray, List.length_append]
    omega
  | _ =>
    cases h
    exact Nat.succ_pos _

theorem writes_scalar (s : Scalar) : Writes cv (.scalar s) := by
  intro d d₁ h
  rw [writeBinary] at h
  obtain ⟨bytes, hbytes, rfl⟩ := Option.map_eq_some_iff.mp h
  refine ⟨grows_prepend d bytes, rfl, ?_⟩
  have hpos := writeScalar_length_pos hbytes
  simp only [prepend, List.length_append, countAny]
  omega

theorem writes (v : Value) : Writes cv v := by
  induction v with
  | scalar s => exact writes_scalar s
  | array items ih =>
    intro d d₁ h
    obtain ⟨d₂, refs, hitems, rfl⟩ := writeBinary_array h
    obtain ⟨hgrows, hlen, hsize, -⟩ := writeItems_grows ih hitems
    have hpos := writeHeader_length_pos 0xA0 items.length
    refine ⟨hgrows.trans (grows_prepend _ _), ?_, ?_⟩
    · simp only [writeContainer, prepend, countAny]
      omega
    · simp only [writeContainer, prepend, countAny, List.length_append]
      omega
  | dictionary entries ih =>
    intro d d₁ h
    obtain ⟨d₂, valueRefs, d₃, keyRefs, hvalues, hkeys, rfl⟩ := writeBinary_dictionary h
    obtain ⟨hgrows, hlen, hsize, -⟩ := writeItems_grows
      (fun v hv => by
        obtain ⟨e, he, rfl⟩ := List.mem_map.mp hv
        exact ih e he) hvalues
    obtain ⟨hgrows', hlen', hsize', -⟩ := writeItems_grows
      (fun v hv => by
        obtain ⟨e, -, rfl⟩ := List.mem_map.mp hv
        exact writes_scalar _) hkeys
    have hpos := writeHeader_length_pos 0xD0 entries.length
    rw [countArray_strings] at hlen' hsize'
    refine ⟨(hgrows.trans hgrows').trans (grows_prepend _ _), ?_, ?_⟩
    · simp only [writeContainer, prepend, countAny, countDictionary_eq]
      omega
    · simp only [writeContainer, prepend, countAny, countDictionary_eq, List.length_append]
      omega

structure Small (t : PlistHelperData) (N : ℕ) : Prop where
  objects : t.objectTable.length < 2 ^ 31
  refs : N < 2 ^ 31
  refSize_pos : 1 ≤ t.objRefSize
  refSize_le : t.objRefSize ≤ 4
  refs_fit : N < 256 ^ t.objRefSize

structure Leads (t : PlistHelperData) (N : ℕ) (d : PlistHelperData) : Prop where
  objects : d.objectTable <:+ t.objectTable
  refSize : t.objRefSize = d.objRefSize
  refCount : d.refCount + Int32.ofNat d.offsetTable.length = Int32.ofNat N
  pushed : d.offsetTable.length ≤ N
  offsets : ∀ j h, d.offsetTable[j]? = some h →
    t.offsetTable[N - j]? = some (Int32.ofNat t.objectTable.length - h)

variable {t : PlistHelperData} {N : ℕ}

theorem Leads.back {d₁ : PlistHelperData} (h : Leads t N d₁) (hgrows : Grows d d₁) :
    Leads t N d where
  objects := hgrows.objects.trans h.objects
  refSize := h.refSize.trans hgrows.refSize
  refCount := hgrows.refCount.symm.trans h.refCount
  pushed := hgrows.offsets.length_le.trans h.pushed
  offsets := by
    intro j entry hj
    obtain ⟨more, hmore⟩ := hgrows.offsets
    apply h.offsets
    rw [← hmore, List.getElem?_append_left (List.getElem?_eq_some_iff.mp hj).1, hj]

theorem offsetAt_ofNat {r : ℕ} {offset : Int32} (hr : r < 2 ^ 31)
    (h : t.offsetTable[r]? = some offset) : offsetAt t (Int32.ofNat r) = .ok offset.toInt := by
  rw [offsetAt, Int32.toInt_ofNat_of_lt hr, if_neg (by omega), Int.toNat_natCast, h]

theorem int32_bits_ofNat {n : ℕ} (h : n < 2 ^ 31) : int32.bits (Int32.ofNat n) = n := by
  change (BitVec.ofNat 32 n).toNat = n
  rw [BitVec.toNat_ofNat, Nat.mod_eq_of_lt (by omega)]

theorem decode_int32_ofNat {n : ℕ} (h : n < 2 ^ 31) : decode (int32.bytes (Int32.ofNat n)) = n := by
  rw [Word.bytes, decode_encode _ _ (int32.bits_lt _), int32_bits_ofNat h]

theorem writeRef_length {r : ℕ} (hr : r < 2 ^ 31) (hfit : r < 256 ^ d.objRefSize) :
    (writeRef d (Int32.ofNat r)).length = d.objRefSize := by
  rw [writeRef, List.length_reverse]
  apply le_antisymm
  · apply regulateNullBytes_length_of_lt le_rfl
    rwa [decode_int32_ofNat hr]
  · exact le_regulateNullBytes_length _ _

theorem ofNat_sub_ofNat {n m : ℕ} (h : m ≤ n) :
    Int32.ofNat n - Int32.ofNat m = Int32.ofNat (n - m) := by
  have hsum : Int32.ofNat (n - m) + Int32.ofNat m = Int32.ofNat n := by
    rw [← Int32.ofNat_add, Nat.sub_add_cancel h]
  rw [← hsum]
  grind

theorem Leads.pushed_object (hsmall : Small t N) {d₂ : PlistHelperData} {refs : List Int32}
    (h : Leads t N (pushObject d₂ refs).1) :
    offsetAt t d₂.refCount = .ok ((t.objectTable.length - d₂.objectTable.length : ℕ) : ℤ) ∧
      (writeRef t d₂.refCount).length = t.objRefSize := by
  have hback := h.back (grows_pushObject d₂ refs)
  have hcount : d₂.refCount = Int32.ofNat (N - d₂.offsetTable.length) := by
    have hsum := hback.refCount
    rw [← ofNat_sub_ofNat hback.pushed, ← hsum]
    grind
  have hobjects := hback.objects.length_le
  have hsize := hsmall.objects
  have hrefs := hsmall.refs
  have hlast : (pushObject d₂ refs).1.offsetTable[d₂.offsetTable.length]? =
      some (Int32.ofNat d₂.objectTable.length) := by
    simp [pushObject]
  have hoffset := h.offsets _ _ hlast
  rw [ofNat_sub_ofNat hobjects] at hoffset
  rw [hcount]
  constructor
  · rw [offsetAt_ofNat (by omega) hoffset, Int32.toInt_ofNat_of_lt (by omega)]
  · exact writeRef_length (by omega) ((Nat.sub_le _ _).trans_lt hsmall.refs_fit)

def ReadsBack (cv : Conversions) (t : PlistHelperData) (N : ℕ) (v : Value) : Prop :=
  ∀ d d₁, writeBinary cv d v = some d₁ → Leads t N d₁ → ∀ objRef,
    offsetAt t objRef = .ok ((t.objectTable.length - d₁.objectTable.length : ℕ) : ℤ) →
    Returns cv t objRef (v.mapScalars (reread cv))

theorem items_readBack (hsmall : Small t N) {items : List Value}
    (hitems : ∀ v ∈ items, ReadsBack cv t N v) {d₁ : PlistHelperData} {refs : List Int32}
    (h : writeItems cv d items = some (d₁, refs)) (hleads : Leads t N d₁) :
    List.Forall₂ (fun ref v => Returns cv t ref (v.mapScalars (reread cv))) refs items ∧
      ∀ ref ∈ refs, (writeRef t ref).length = t.objRefSize := by
  induction items generalizing d₁ refs with
  | nil =>
    rw [writeItems] at h
    cases h
    exact ⟨.nil, by simp⟩
  | cons item items ih =>
    obtain ⟨hitem, hrest⟩ := List.forall_mem_cons.mp hitems
    obtain ⟨d₂, refs₂, d₃, hitems, hwrite, hpush⟩ := writeItems_cons h
    have hpushed : Leads t N (pushObject d₃ refs₂).1 := by
      rw [hpush]
      exact hleads
    cases hpush
    obtain ⟨hoffset, hlen⟩ := hpushed.pushed_object hsmall
    have hleads₃ := hpushed.back (grows_pushObject d₃ refs₂)
    obtain ⟨hread, hlens⟩ := ih hrest hitems (hleads₃.back (writes item _ _ hwrite).1)
    exact ⟨.cons (hitem _ _ hwrite hleads₃ _ hoffset) hread,
      List.forall_mem_cons.mpr ⟨hlen, hlens⟩⟩

theorem Leads.placed {buffer : Bytes} (h : Leads t N (prepend d buffer)) :
    Placed t.objectTable (t.objectTable.length - (prepend d buffer).objectTable.length) buffer :=
  Placed.of_suffix h.objects

theorem writeRef_congr {d₁ : PlistHelperData} (h : t.objRefSize = d₁.objRefSize) :
    writeRef d₁ = writeRef t := by
  funext ref
  rw [writeRef, writeRef, h]

theorem container_placed (hsmall : Small t N) {mark : UInt8} (hmark : mark ∈ [0xA0, 0xD0])
    {n : ℕ} {refs : List Int32} (hrefs : refs.length = n * if mark = 0xD0 then 2 else 1)
    (hlens : ∀ ref ∈ refs, (writeRef t ref).length = t.objRefSize)
    (hleads : Leads t N (writeContainer d mark n refs)) {objRef : Int32}
    (hoff : offsetAt t objRef = .ok
      ((t.objectTable.length - (writeContainer d mark n refs).objectTable.length : ℕ) : ℤ)) :
    getRefsForContainers t objRef = .ok refs ∧
      ∃ header, byteAt t.objectTable
          ((t.objectTable.length - (writeContainer d mark n refs).objectTable.length : ℕ) : ℤ) =
        .ok header ∧ header &&& 0xF0 = mark := by
  have hmarks : mark ∈ [(0x40 : UInt8), 0x50, 0xA0, 0xD0] := by
    rcases List.mem_pair.mp hmark with rfl | rfl <;> simp
  have hsize : t.objRefSize = d.objRefSize := hleads.refSize
  have hplaced : Placed t.objectTable
      (t.objectTable.length - (writeContainer d mark n refs).objectTable.length)
      (writeHeader mark n ++ refs.flatMap (writeRef t)) := by
    rw [← writeRef_congr hsize]
    exact hleads.placed
  obtain ⟨header, hbyte, hkind, -⟩ := header_placed hmarks hplaced
  exact ⟨getRefsForContainers_placed hmark hrefs hsmall.objects hsmall.refSize_pos
    hsmall.refSize_le hlens hoff hplaced, header, hbyte, hkind⟩

theorem readsBack_scalar (hsmall : Small t N) (s : Scalar) : ReadsBack cv t N (.scalar s) := by
  intro d d₁ h hleads objRef hoff
  rw [writeBinary] at h
  obtain ⟨bytes, hbytes, rfl⟩ := Option.map_eq_some_iff.mp h
  exact Returns.of_parseObject (parseObject_scalar hbytes hsmall.objects hoff hleads.placed)

theorem readsBack (hsmall : Small t N) (v : Value) (hkeyed : v.Keyed) : ReadsBack cv t N v := by
  induction v with
  | scalar s => exact readsBack_scalar hsmall s
  | array items ih =>
    intro d d₁ h hleads objRef hoff
    obtain ⟨d₂, refs, hitems, rfl⟩ := writeBinary_array h
    have hback := hleads.back (grows_prepend _ _)
    obtain ⟨hread, hlens⟩ := items_readBack hsmall
      (fun v hv => ih v hv (Value.keyedWith_array.mp hkeyed v hv)) hitems hback
    obtain ⟨-, -, -, hlen⟩ := writeItems_grows (fun v _ => writes v) hitems
    obtain ⟨hrefs, header, hbyte, hkind⟩ :=
      container_placed hsmall (by simp) (by simpa using hlen) hlens hleads hoff
    rw [Value.mapScalars, Value.mapItems_eq]
    exact Returns.array hoff hbyte hkind hrefs (List.forall₂_map_right_iff.mpr hread)
  | dictionary entries ih =>
    intro d d₁ h hleads objRef hoff
    obtain ⟨d₂, valueRefs, d₃, keyRefs, hvalues, hkeys, rfl⟩ := writeBinary_dictionary h
    have hback := hleads.back (grows_prepend _ _)
    obtain ⟨hgrows, -, -, hkeyLen⟩ := writeItems_grows (fun v _ => writes v) hkeys
    obtain ⟨-, -, -, hvalueLen⟩ := writeItems_grows (fun v _ => writes v) hvalues
    obtain ⟨hreadKeys, hkeyLens⟩ := items_readBack hsmall
      (fun v hv => by
        obtain ⟨e, -, rfl⟩ := List.mem_map.mp hv
        exact readsBack_scalar hsmall _) hkeys hback
    obtain ⟨hreadValues, hvalueLens⟩ := items_readBack hsmall
      (fun v hv => by
        obtain ⟨e, he, rfl⟩ := List.mem_map.mp hv
        exact ih e he ((Value.keyedWith_dictionary.mp hkeyed).2 e he)) hvalues (hback.back hgrows)
    have hlens : ∀ ref ∈ keyRefs ++ valueRefs, (writeRef t ref).length = t.objRefSize := by
      intro ref href
      rcases List.mem_append.mp href with href | href
      · exact hkeyLens ref href
      · exact hvalueLens ref href
    have hlen : (keyRefs ++ valueRefs).length = entries.length * 2 := by
      rw [List.length_append, hkeyLen, hvalueLen, List.length_map, List.length_map]
      ring
    obtain ⟨hrefs, header, hbyte, hkind⟩ :=
      container_placed hsmall (by simp) (by simpa using hlen) hlens hleads hoff
    rw [Value.mapScalars, Value.mapEntries_eq]
    refine Returns.dictionary hoff hbyte hkind hrefs ?_ ?_ ?_
    · rw [List.forall₂_map_right_iff] at hreadKeys ⊢
      exact hreadKeys
    · rw [List.forall₂_map_right_iff] at hreadValues ⊢
      exact hreadValues
    · rw [List.pairwise_map]
      exact (Value.keyedWith_dictionary.mp hkeyed).1

end SwiftRobot.Plist.Binary
