import SwiftRobot.XmlPlist
import SwiftRobot.XmlRoundTrip

/-!
# A property list that was written as XML is read

Integers come back as the widest ones, reals and dates as what their texts are read as, and
data as it is. A string comes back as the parser leaves its text, and so does a key: two
keys that differ in their line ends only, or in their space, become one.
-/

namespace SwiftRobot.XmlPlist
open ByteWords Plist Xml

theorem return_convertEnds (afterReturn : Bool) (s : Bytes) : 13 ∉ convertEnds afterReturn s := by
  induction s generalizing afterReturn with
  | nil => exact List.not_mem_nil
  | cons c s ih =>
    rw [convertEnds]
    split_ifs with hfeed hreturn
    · exact ih false
    · simpa using ih (c = 13)
    · simpa [Ne.symm hreturn] using ih (c = 13)

theorem convertEnds_eq {s : Bytes} (h : 13 ∉ s) : convertEnds false s = s := by
  induction s with
  | nil => rfl
  | cons c s ih =>
    rw [List.mem_cons, not_or] at h
    have hc : c ≠ 13 := Ne.symm h.1
    simp [convertEnds, hc, ih h.2]

theorem zero_cString (s : Bytes) : 0 ∉ cString s := by
  intro h
  simpa using List.mem_takeWhile_imp h

def readText (s : Bytes) : Bytes := rereadText (cString s)

/-- A text that is read as it was written. -/
def Kept (s : Bytes) : Prop := 0 ∉ s ∧ 13 ∉ s ∧ (s = [] ∨ s.all isSpace = false)

theorem Kept.readText_eq {s : Bytes} (h : Kept s) : readText s = s := by
  obtain ⟨h0, h13, hspace⟩ := h
  rw [readText, cString_eq h0, rereadText, convertEnds_eq h13]
  rcases hspace with rfl | hspace
  · rfl
  · rw [if_neg (by simp [hspace])]

theorem kept_readText (s : Bytes) : Kept (readText s) := by
  rw [readText, rereadText]
  split_ifs with hspace
  · exact ⟨List.not_mem_nil, List.not_mem_nil, Or.inl rfl⟩
  · refine ⟨?_, return_convertEnds false _, Or.inr ?_⟩
    · intro h
      rcases mem_convertEnds h with h | h
      · exact zero_cString s h
      · exact absurd h (by decide)
    · -- a character that is not space is never left out or replaced
      have hstays (s : Bytes) (afterReturn : Bool) (h : (convertEnds afterReturn s).all isSpace = true) :
          s.all isSpace = true := by
        induction s generalizing afterReturn with
        | nil => rfl
        | cons c s ih =>
          rw [convertEnds] at h
          split_ifs at h with hfeed hreturn
          · simp only [Bool.and_eq_true, decide_eq_true_eq] at hfeed
            rw [List.all_cons, hfeed.2, ih false h]
            rfl
          · rw [List.all_cons] at h ⊢
            rw [ih _ (Bool.and_eq_true_iff.mp h).2, hreturn]
            rfl
          · rw [List.all_cons, Bool.and_eq_true] at h ⊢
            exact ⟨h.1, ih _ h.2⟩
      cases hall : (convertEnds false (cString s)).all isSpace with
      | false => rfl
      | true => exact absurd (hstays _ false hall) hspace

theorem readText_eq_iff {s : Bytes} : readText s = s ↔ Kept s :=
  ⟨fun h => h ▸ kept_readText s, Kept.readText_eq⟩

theorem filter_readText {q : UInt8 → Bool} (hq : ∀ c, isSpace c = true → q c = false) {s : Bytes}
    (h0 : 0 ∉ s) : (readText s).filter q = s.filter q := by
  have hconvert (s : Bytes) (afterReturn : Bool) :
      (convertEnds afterReturn s).filter q = s.filter q := by
    induction s generalizing afterReturn with
    | nil => rfl
    | cons c s ih =>
      rw [convertEnds]
      split_ifs with hfeed hreturn
      · simp only [Bool.and_eq_true, decide_eq_true_eq] at hfeed
        rw [ih, List.filter_cons_of_neg (by simp [hfeed.2, hq 10 (by decide)])]
      · rw [List.filter_cons_of_neg (by simp [hq 10 (by decide)]), ih,
          List.filter_cons_of_neg (by simp [hreturn, hq 13 (by decide)])]
      · rw [List.filter_cons, List.filter_cons, ih]
  rw [readText, cString_eq h0, rereadText]
  split_ifs with hspace
  · symm
    rw [List.filter_nil, List.filter_eq_nil_iff]
    intro c hc
    simp [hq c (List.all_eq_true.mp hspace c hc)]
  · exact hconvert s false

theorem digit_char {c : Char} (hc : c.isDigit = true) :
    isDigit (UInt8.ofNat c.toNat) = true ∧
      (UInt8.ofNat c.toNat - char '0').toNat = c.toNat - '0'.toNat := by
  have hrange : 48 ≤ c.toNat ∧ c.toNat ≤ 57 := by
    simpa [Char.isDigit, UInt32.le_iff_toNat_le] using hc
  obtain ⟨n, hn⟩ : ∃ n, n = c.toNat := ⟨_, rfl⟩
  rw [← hn] at hrange ⊢
  obtain ⟨hlow, hhigh⟩ := hrange
  interval_cases n <;> decide

theorem digits_isDigit {n : ℕ} {c : UInt8} (hc : c ∈ digits n) : isDigit c = true := by
  obtain ⟨c, hmem, rfl⟩ := List.mem_map.mp hc
  exact (digit_char (Nat.isDigit_of_mem_toDigits (by decide) (by decide) hmem)).1

theorem leadingNumber_digits (n : ℕ) : leadingNumber (digits n) = n := by
  have hall : (digits n).takeWhile isDigit = digits n :=
    List.takeWhile_eq_self_iff.mpr fun c hc => digits_isDigit hc
  have hfold (cs : List Char) (hcs : ∀ c ∈ cs, c.isDigit = true) (init : ℕ) :
      (cs.map fun c => UInt8.ofNat c.toNat).foldl
        (fun n c => 10 * n + (c - char '0').toNat) init = Nat.ofDigitChars 10 cs init := by
    induction cs generalizing init with
    | nil => simp
    | cons c cs ih =>
      obtain ⟨hc, hrest⟩ := List.forall_mem_cons.mp hcs
      rw [List.map_cons, List.foldl_cons, (digit_char hc).2, ih hrest, Nat.ofDigitChars_cons]
  rw [leadingNumber, hall, digits,
    hfold _ (fun c hc => Nat.isDigit_of_mem_toDigits (by decide) (by decide) hc),
    Nat.ofDigitChars_ten_toDigits]

theorem isDigit_plain {c : UInt8} (h : isDigit c = true) :
    isCSpace c = false ∧ isSpace c = false ∧ c ≠ char '-' ∧ c ≠ char '+' ∧ c ≠ 0 ∧ c ≠ 13 := by
  simp only [isDigit, Bool.and_eq_true, decide_eq_true_eq, UInt8.le_iff_toNat_le] at h
  obtain ⟨n, hn, rfl⟩ : ∃ n, n = c.toNat ∧ c = UInt8.ofNat n := ⟨_, rfl, UInt8.ofNat_toNat.symm⟩
  rw [← hn] at h
  obtain ⟨hlow, hhigh⟩ : 48 ≤ n ∧ n ≤ 57 := h
  clear hn
  interval_cases n <;> decide

theorem digits_cons (n : ℕ) : ∃ c s, digits n = c :: s ∧ isDigit c = true := by
  have hne : digits n ≠ [] := by
    rw [digits, Ne, List.map_eq_nil_iff]
    exact Nat.toDigits_ne_nil
  obtain ⟨c, s, hcons⟩ := List.exists_cons_of_ne_nil hne
  exact ⟨c, s, hcons, digits_isDigit (hcons ▸ List.mem_cons_self)⟩

theorem saturate_toInt (v : Int64) : saturate v.toInt = v := by
  have hlow := v.le_toInt
  have hhigh := v.toInt_lt
  rw [saturate, if_neg (by omega), if_neg (by omega), Int64.ofInt_toInt]

theorem atoll_stringFromInt (v : Int64) : atoll (stringFromInt v.toInt) = v := by
  obtain ⟨c, s, hcons, hc⟩ := digits_cons v.toInt.natAbs
  obtain ⟨hspace, -, hminus, hplus, -⟩ := isDigit_plain hc
  have hnumber := leadingNumber_digits v.toInt.natAbs
  rw [atoll, stringFromInt]
  split_ifs with hneg
  · have habs : -(v.toInt.natAbs : ℤ) = v.toInt := by omega
    rw [List.dropWhile_cons_of_neg (by decide)]
    simp only [if_true, hnumber, habs, saturate_toInt]
  · have habs : (v.toInt.natAbs : ℤ) = v.toInt := by omega
    rw [hcons] at hnumber ⊢
    rw [List.dropWhile_cons_of_neg (by simp [hspace])]
    simp only [hminus, hplus, if_false, hnumber, habs, saturate_toInt]

theorem kept_stringFromInt (v : ℤ) : Kept (stringFromInt v) := by
  obtain ⟨c, s, hcons, hc⟩ := digits_cons v.natAbs
  have hplain : ∀ x ∈ digits v.natAbs, 0 ≠ x ∧ 13 ≠ x := fun x hx =>
    have hx := (isDigit_plain (digits_isDigit hx)).2.2.2.2
    ⟨hx.1.symm, hx.2.symm⟩
  have hdigits : 0 ∉ digits v.natAbs ∧ 13 ∉ digits v.natAbs :=
    ⟨fun h => (hplain 0 h).1 rfl, fun h => (hplain 13 h).2 rfl⟩
  rw [stringFromInt]
  split_ifs with hneg
  · refine ⟨?_, ?_, Or.inr rfl⟩
    · rw [List.mem_cons, not_or]
      exact ⟨by decide, hdigits.1⟩
    · rw [List.mem_cons, not_or]
      exact ⟨by decide, hdigits.2⟩
  · refine ⟨hdigits.1, hdigits.2, Or.inr ?_⟩
    rw [hcons, List.all_cons, (isDigit_plain hc).2.1]
    rfl

theorem mem_put {endl : Bytes} {lineOctets : ℕ} {data : Bytes} {c : UInt8}
    (h : c ∈ Base64.put endl lineOctets data) : Base64.known c = true ∨ c ∈ endl := by
  have hsextet {v : UInt8} (hv : v.toNat < 64) : Base64.known (Base64.charAt v.toNat) = true := by
    simp [Base64.known, Base64.getCharType_sextet hv]
  have hequal : Base64.known Base64.equalSign = true := by decide
  induction lineOctets, data using Base64.put.induct with
  | case1 => simp [Base64.put] at h
  | case2 lineOctets a =>
    obtain ⟨h0, h1, -⟩ := Base64.numbers_lt ⟨a, 0, 0⟩
    simp only [Base64.put, List.mem_cons, List.not_mem_nil, or_false] at h
    rcases h with rfl | rfl | rfl | rfl
    exacts [Or.inl (hsextet h0), Or.inl (hsextet h1), Or.inl hequal, Or.inl hequal]
  | case3 lineOctets a b =>
    obtain ⟨h0, h1, h2, -⟩ := Base64.numbers_lt ⟨a, b, 0⟩
    simp only [Base64.put, List.mem_cons, List.not_mem_nil, or_false] at h
    rcases h with rfl | rfl | rfl | rfl
    exacts [Or.inl (hsextet h0), Or.inl (hsextet h1), Or.inl (hsextet h2), Or.inl hequal]
  | case4 lineOctets a b c rest ih0 ih =>
    obtain ⟨h0, h1, h2, h3⟩ := Base64.numbers_lt ⟨a, b, c⟩
    rw [Base64.put, List.mem_append] at h
    rcases h with h | h
    · simp only [List.mem_cons, List.not_mem_nil, or_false] at h
      rcases h with rfl | rfl | rfl | rfl
      exacts [Or.inl (hsextet h0), Or.inl (hsextet h1), Or.inl (hsextet h2), Or.inl (hsextet h3)]
    · split_ifs at h
      · rcases List.mem_append.mp h with h | h
        · exact Or.inr h
        · exact ih0 h
      · exact ih h

theorem base64Decode_readText (data : Bytes) :
    Base64.base64Decode (readText (Base64.base64Encode data)) = data := by
  have hlf : ∀ c ∈ Base64.lf, Base64.getCharType c = .unknown := by
    simp [Base64.lf, Base64.getCharType_lineFeed]
  have hspace : ∀ c, isSpace c = true → Base64.known c = false := by
    intro c hc
    simp only [isSpace, Bool.or_eq_true, decide_eq_true_eq] at hc
    rcases hc with ((rfl | rfl) | rfl) | rfl <;> decide
  have h0 : 0 ∉ Base64.base64Encode data := by
    intro h
    rcases mem_put h with h | h <;> exact absurd h (by decide)
  rw [Base64.base64Decode, ← Base64.get_filter, filter_readText hspace h0, Base64.get_filter]
  exact Base64.get_put hlf 0 data

/-- A scalar that is not a string, once it was written and read: a real or a date is what the
reader makes of its text, which has six digits of a real. -/
def widen (texts : Texts) : Scalar → Scalar
  | .int32 v => .int64 v.toInt64
  | .short v => .int64 v.toInt64
  | .double v => .double (texts.atof (readText (texts.stringFromDouble v)))
  | .float v => .double (texts.atof (readText (texts.stringFromFloat v)))
  | .date time =>
    .date ((texts.setTimeFromXMLConvention (readText (texts.timeAsXMLConvention time))).getD 0)
  | s => s

def readScalar (texts : Texts) : Scalar → Scalar
  | .string s => .string (readText s)
  | s => widen texts s

mutual

def readValue (texts : Texts) : Value → Value
  | .scalar s => .scalar (readScalar texts s)
  | .array items => .array (readItems texts items)
  | .dictionary entries =>
    .dictionary (OrderedMap.empty.insertAll (readEntries texts entries)).entries

def readItems (texts : Texts) : List Value → List Value
  | [] => []
  | v :: items => readValue texts v :: readItems texts items

def readEntries (texts : Texts) : List (Bytes × Value) → List (Bytes × Value)
  | [] => []
  | (key, v) :: entries => (readText key, readValue texts v) :: readEntries texts entries

end

/-- A scalar that can be written, and read where it is a date. -/
def Legible (texts : Texts) : Scalar → Prop
  | .date time =>
    (texts.setTimeFromXMLConvention (readText (texts.timeAsXMLConvention time))).isSome
  | .other => False
  | _ => True

structure Written (texts : Texts) (v : Value) (n : Node) : Prop where
  plain : Plain n
  back : ∃ n', Xml.reread n = [n'] ∧ n'.name ≠ text "key" ∧
    parse texts n' = .ok (readValue texts v)

theorem plain_simple {name : String} (hname : PlainName (text name)) (s : Bytes) :
    Plain (writeXMLSimpleNode name s) :=
  .text hname (by simp) (zero_cString s)

theorem reread_simple (name : String) (s : Bytes) :
    ∃ children, Xml.reread (writeXMLSimpleNode name s) = [.element (text name) [] children] ∧
      (Node.element (text name) [] children).firstValue = readText s := by
  refine ⟨Xml.reread (.pcdata (cString s)), ?_, ?_⟩
  · rw [writeXMLSimpleNode, Xml.reread, rereadAll, rereadAll, List.append_nil]
  · rw [Xml.reread, readText, rereadText]
    split_ifs <;> rfl

section
variable {texts : Texts}

theorem written_simple {name : String} (hname : PlainName (text name))
    (hkey : text name ≠ text "key") {s : Bytes} {v : Value}
    (hread : ∀ children, (Node.element (text name) [] children).firstValue = readText s →
      parse texts (.element (text name) [] children) = .ok (readValue texts v)) :
    Written texts v (writeXMLSimpleNode name s) := by
  obtain ⟨children, hback, hvalue⟩ := reread_simple name s
  exact ⟨plain_simple hname s, _, hback, hkey, hread children hvalue⟩

theorem parse_integer {children : List Node} {s : Bytes}
    (h : (Node.element (text "integer") [] children).firstValue = s) :
    parse texts (.element (text "integer") [] children) = .ok (.scalar (.int64 (atoll s))) := by
  rw [← h]
  rfl

theorem written_integer (v : Int64) {s : Scalar} (hs : readScalar texts s = .int64 v) :
    Written texts (.scalar s) (writeXMLSimpleNode "integer" (stringFromInt v.toInt)) := by
  apply written_simple (by decide) (by decide)
  intro children hvalue
  rw [parse_integer hvalue, (kept_stringFromInt _).readText_eq, atoll_stringFromInt, readValue, hs]

theorem written_scalar {s : Scalar} (hs : Legible texts s) :
    ∃ n, writeScalar texts s = .ok n ∧ Written texts (.scalar s) n := by
  cases s with
  | int32 v =>
    refine ⟨_, rfl, ?_⟩
    rw [← Int32.toInt_toInt64]
    exact written_integer v.toInt64 rfl
  | int64 v => exact ⟨_, rfl, written_integer v rfl⟩
  | short v =>
    refine ⟨_, rfl, ?_⟩
    rw [← Int16.toInt_toInt64]
    exact written_integer v.toInt64 rfl
  | string s =>
    refine ⟨_, rfl, written_simple (by decide) (by decide) fun children hvalue => ?_⟩
    rw [readValue, readScalar, ← hvalue]
    rfl
  | data bytes =>
    refine ⟨_, rfl, written_simple (by decide) (by decide) fun children hvalue => ?_⟩
    have hback : parse texts (.element (text "data") [] children) =
        .ok (.scalar (.data (Base64.base64Decode
          (Node.element (text "data") [] children).firstValue))) := rfl
    rw [hback, hvalue, base64Decode_readText]
    rfl
  | double v =>
    refine ⟨_, rfl, written_simple (by decide) (by decide) fun children hvalue => ?_⟩
    simp only [readValue, readScalar, widen, ← hvalue]
    rfl
  | float v =>
    refine ⟨_, rfl, written_simple (by decide) (by decide) fun children hvalue => ?_⟩
    simp only [readValue, readScalar, widen, ← hvalue]
    rfl
  | date time =>
    refine ⟨_, rfl, written_simple (by decide) (by decide) fun children hvalue => ?_⟩
    obtain ⟨time', htime⟩ := Option.isSome_iff_exists.mp hs
    simp only [readValue, readScalar, widen, htime, Option.getD_some]
    rw [← hvalue] at htime
    rw [parse]
    iterate 8 rw [if_neg (by decide)]
    rw [if_pos rfl, htime]
  | bool value =>
    cases value with
    | false =>
      exact ⟨_, rfl, .elements (by decide) (by simp) (by simp), _, rfl, by decide, rfl⟩
    | true =>
      exact ⟨_, rfl, .elements (by decide) (by simp) (by simp), _, rfl, by decide, rfl⟩
  | other => exact absurd hs id

theorem written_items {items : List Value}
    (h : ∀ v ∈ items, ∃ n, writeXMLNode texts v = .ok n ∧ Written texts v n) :
    ∃ nodes, writeXMLArray texts items = .ok nodes ∧ (∀ n ∈ nodes, Plain n) ∧
      parseArray texts (rereadAll nodes) = .ok (readItems texts items) := by
  induction items with
  | nil => exact ⟨[], rfl, by simp, rfl⟩
  | cons v items ih =>
    obtain ⟨⟨n, hwrite, hplain, n', hback, -, hparse⟩, hrest⟩ := List.forall_mem_cons.mp h
    obtain ⟨nodes, hwrites, hplains, hparses⟩ := ih hrest
    refine ⟨n :: nodes, ?_, List.forall_mem_cons.mpr ⟨hplain, hplains⟩, ?_⟩
    · rw [writeXMLArray, hwrite, hwrites]
      rfl
    · rw [rereadAll, hback, List.singleton_append, parseArray, hparse, hparses, readItems]
      rfl

theorem written_entries {entries : List (Bytes × Value)}
    (h : ∀ e ∈ entries, ∃ n, writeXMLNode texts e.2 = .ok n ∧ Written texts e.2 n)
    (dict : OrderedMap Bytes Value) :
    ∃ nodes, writeXMLDictionary texts entries = .ok nodes ∧ (∀ n ∈ nodes, Plain n) ∧
      parseDictionary texts dict (rereadAll nodes) =
        .ok (dict.insertAll (readEntries texts entries)) := by
  induction entries generalizing dict with
  | nil => exact ⟨[], rfl, by simp, rfl⟩
  | cons e entries ih =>
    obtain ⟨key, v⟩ := e
    obtain ⟨⟨n, hwrite, hplain, n', hback, hkey, hparse⟩, hrest⟩ := List.forall_mem_cons.mp h
    obtain ⟨nodes, hwrites, hplains, hparses⟩ :=
      ih hrest (dict.insert (readText key) (readValue texts v))
    obtain ⟨children, hkeyNode, hvalue⟩ := reread_simple "key" key
    refine ⟨writeXMLSimpleNode "key" key :: n :: nodes, ?_, ?_, ?_⟩
    · rw [writeXMLDictionary, hwrite, hwrites]
      rfl
    · exact List.forall_mem_cons.mpr
        ⟨plain_simple (by decide) key, List.forall_mem_cons.mpr ⟨hplain, hplains⟩⟩
    · rw [rereadAll, rereadAll, hkeyNode, hback, List.singleton_append, List.singleton_append,
        parseDictionary, if_pos (by rfl), if_neg hkey, hparse, hvalue]
      exact hparses

theorem name_ne_key (name : String) (h : text name ≠ text "key") (children : List Node) :
    (Node.element (text name) [] children).name ≠ text "key" := h

theorem written {v : Value} (hv : v.KeyedWith (Legible texts)) :
    ∃ n, writeXMLNode texts v = .ok n ∧ Written texts v n := by
  induction v with
  | scalar s => exact written_scalar hv
  | array items ih =>
    rw [Value.keyedWith_array] at hv
    obtain ⟨nodes, hwrites, hplains, hparses⟩ := written_items fun v hmem => ih v hmem (hv v hmem)
    refine ⟨.element (text "array") [] nodes, ?_, .elements (by decide) (by simp) hplains, _,
      by rw [Xml.reread], name_ne_key "array" (by decide) _, ?_⟩
    · rw [writeXMLNode, hwrites]
      rfl
    · have hback : parse texts (.element (text "array") [] (rereadAll nodes)) =
          (parseArray texts (rereadAll nodes)).map .array := rfl
      rw [hback, hparses, readValue]
      rfl
  | dictionary entries ih =>
    rw [Value.keyedWith_dictionary] at hv
    obtain ⟨nodes, hwrites, hplains, hparses⟩ :=
      written_entries (fun e hmem => ih e hmem (hv.2 e hmem)) OrderedMap.empty
    refine ⟨.element (text "dict") [] nodes, ?_, .elements (by decide) (by simp) hplains, _,
      by rw [Xml.reread], name_ne_key "dict" (by decide) _, ?_⟩
    · rw [writeXMLNode, hwrites]
      rfl
    · have hback : parse texts (.element (text "dict") [] (rereadAll nodes)) =
          (parseDictionary texts OrderedMap.empty (rereadAll nodes)).map
            fun dict => .dictionary dict.entries := rfl
      rw [hback, hparses, readValue]
      rfl

end

theorem parse_plistDocument {n : Node} (h : Plain n) :
    Xml.parse (save (plistDocument n)) =
      .ok (Xml.reread (.element (text "plist") [(text "version", text "1.0")] [n])) := by
  have hpiece : DoctypePiece (text "plist PUBLIC ") (text "-//Apple//DTD PLIST 1.0//EN") :=
    ⟨@of_decide_eq_true _ (List.decidableBAll _ _) rfl, by decide⟩
  have hpiece' : DoctypePiece (text " ")
      (text "http://www.apple.com/DTDs/PropertyList-1.0.dtd") :=
    ⟨@of_decide_eq_true _ (List.decidableBAll _ _) rfl, by decide⟩
  have hversion : PlainAttribute (text "version", text "1.0") :=
    ⟨by decide, by decide, by decide⟩
  have hencoding : PlainAttribute (text "encoding", text "UTF-8") :=
    ⟨by decide, by decide, by decide⟩
  have hroot : Plain (.element (text "plist") [(text "version", text "1.0")] [n]) :=
    .elements (by decide) (by simpa using hversion) (by simpa using h)
  exact parse_save (List.forall_mem_cons.mpr ⟨hversion, by simpa using hencoding⟩) (by decide)
    hpiece hpiece' (by decide) hroot

theorem loadBuffer_plistDocument (convert : Encoding → Bytes → Bytes) (n : Node) :
    loadBuffer convert (save (plistDocument n)) = Xml.parse (save (plistDocument n)) := by
  have hstart : ∃ rest, save (plistDocument n) = text "<?xm" ++ rest := ⟨_, rfl⟩
  obtain ⟨rest, hrest⟩ := hstart
  rw [hrest]
  rfl

theorem readPlistXML_writePlistXML (texts : Texts) (convert : Encoding → Bytes → Bytes)
    {v : Value} (hv : v.KeyedWith (Legible texts)) :
    ∃ contents, writePlistXML texts v = .ok contents ∧
      readPlistXML texts convert contents = some (.ok (readValue texts v)) := by
  obtain ⟨n, hwrite, hplain, n', hback, -, hparse⟩ := written hv
  refine ⟨save (plistDocument n), ?_, ?_⟩
  · rw [writePlistXML, hwrite]
    rfl
  · rw [readPlistXML, loadBuffer_plistDocument, parse_plistDocument hplain, Xml.reread, rereadAll,
      hback]
    exact congrArg some hparse

mutual

def textsOf : Value → List Bytes
  | .scalar (.string s) => [s]
  | .scalar _ => []
  | .array items => textsOfItems items
  | .dictionary entries => textsOfEntries entries

def textsOfItems : List Value → List Bytes
  | [] => []
  | v :: items => textsOf v ++ textsOfItems items

def textsOfEntries : List (Bytes × Value) → List Bytes
  | [] => []
  | (key, v) :: entries => key :: (textsOf v ++ textsOfEntries entries)

end

theorem textsOfItems_eq (items : List Value) : textsOfItems items = items.flatMap textsOf := by
  induction items with
  | nil => rfl
  | cons v items ih => rw [textsOfItems, ih, List.flatMap_cons]

theorem textsOfEntries_eq (entries : List (Bytes × Value)) :
    textsOfEntries entries = entries.flatMap fun e => e.1 :: textsOf e.2 := by
  induction entries with
  | nil => rfl
  | cons e entries ih => rw [textsOfEntries, ih, List.flatMap_cons, List.cons_append]

section
variable (texts : Texts)

theorem readItems_eq (items : List Value) : readItems texts items = items.map (readValue texts) := by
  induction items with
  | nil => rfl
  | cons v items ih => rw [readItems, ih, List.map_cons]

theorem readEntries_eq (entries : List (Bytes × Value)) :
    readEntries texts entries = entries.map fun e => (readText e.1, readValue texts e.2) := by
  induction entries with
  | nil => rfl
  | cons e entries ih => rw [readEntries, ih, List.map_cons]

theorem readDictionary_eq_iff {entries : List (Bytes × Value)}
    (hsorted : entries.Pairwise fun a b => a.1 < b.1) :
    readValue texts (.dictionary entries) = (Value.dictionary entries).mapScalars (widen texts) ↔
      ∀ e ∈ entries, Kept e.1 ∧ readValue texts e.2 = e.2.mapScalars (widen texts) := by
  rw [readValue, Value.mapScalars, readEntries_eq, Value.mapEntries_eq, Value.dictionary.injEq]
  have hkept (hkeys : ∀ e ∈ entries, Kept e.1) :
      (OrderedMap.empty.insertAll (entries.map fun e =>
        (readText e.1, readValue texts e.2))).entries =
          entries.map fun e => (e.1, readValue texts e.2) := by
    rw [List.map_congr_left fun e he => by rw [(hkeys e he).readText_eq]]
    apply OrderedMap.insertAll_of_sorted
    exact List.pairwise_map.mpr hsorted
  constructor
  · intro heq
    have hkeys : ∀ e ∈ entries, Kept e.1 := by
      intro e he
      have hmem : (e.1, e.2.mapScalars (widen texts)) ∈ (OrderedMap.empty.insertAll
          (entries.map fun e => (readText e.1, readValue texts e.2))).entries := by
        rw [heq]
        exact List.mem_map_of_mem he
      rcases OrderedMap.mem_insertAll hmem with h | h
      · exact absurd h List.not_mem_nil
      · obtain ⟨e', -, he'⟩ := List.mem_map.mp h
        rw [← congrArg Prod.fst he']
        exact kept_readText e'.1
    rw [hkept hkeys, List.map_inj_left] at heq
    exact fun e he => ⟨hkeys e he, congrArg Prod.snd (heq e he)⟩
  · intro h
    rw [hkept fun e he => (h e he).1]
    exact List.map_congr_left fun e he => congrArg (Prod.mk e.1) (h e he).2

theorem readValue_eq_iff {v : Value} (hv : v.Keyed) :
    readValue texts v = v.mapScalars (widen texts) ↔ ∀ s ∈ textsOf v, Kept s := by
  induction v with
  | scalar s =>
    cases s
    case string s => simp [readValue, readScalar, Value.mapScalars, widen, textsOf, readText_eq_iff]
    all_goals simp [readValue, readScalar, Value.mapScalars, textsOf]
  | array items ih =>
    rw [Value.Keyed, Value.keyedWith_array] at hv
    rw [readValue, readItems_eq, Value.mapScalars, Value.mapItems_eq, Value.array.injEq,
      List.map_inj_left, textsOf, textsOfItems_eq]
    constructor
    · intro h s hs
      obtain ⟨v, hmem, hs⟩ := List.mem_flatMap.mp hs
      exact (ih v hmem (hv v hmem)).mp (h v hmem) s hs
    · intro h v hmem
      exact (ih v hmem (hv v hmem)).mpr fun s hs => h s (List.mem_flatMap.mpr ⟨v, hmem, hs⟩)
  | dictionary entries ih =>
    rw [Value.Keyed, Value.keyedWith_dictionary] at hv
    rw [readDictionary_eq_iff texts hv.1, textsOf, textsOfEntries_eq]
    constructor
    · intro h s hs
      obtain ⟨e, hmem, hs⟩ := List.mem_flatMap.mp hs
      rcases List.mem_cons.mp hs with rfl | hs
      · exact (h e hmem).1
      · exact (ih e hmem (hv.2 e hmem)).mp (h e hmem).2 s hs
    · intro h e hmem
      refine ⟨h e.1 (List.mem_flatMap.mpr ⟨e, hmem, List.mem_cons_self⟩),
        (ih e hmem (hv.2 e hmem)).mpr fun s hs => ?_⟩
      exact h s (List.mem_flatMap.mpr ⟨e, hmem, List.mem_cons_of_mem _ hs⟩)

end

/-- A list that was written is read, with its numbers and dates as their texts are read;
nothing else changes if and only if no string and no key has a null or a carriage return, or
is of space alone. -/
theorem xmlList_readBack (texts : Texts) (convert : Encoding → Bytes → Bytes) {v : Value}
    (hv : v.KeyedWith (Legible texts)) :
    ∃ contents, writePlistXML texts v = .ok contents ∧
      readPlistXML texts convert contents = some (.ok (readValue texts v)) ∧
      (readValue texts v = v.mapScalars (widen texts) ↔ ∀ s ∈ textsOf v, Kept s) := by
  obtain ⟨contents, hwrite, hread⟩ := readPlistXML_writePlistXML texts convert hv
  exact ⟨contents, hwrite, hread, readValue_eq_iff texts (hv.mono fun _ _ => trivial)⟩

def twoLines : Value :=
  .dictionary [(text "Label", .scalar (.string (text "one\r\ntwo"))),
    (text "PairRecordData", .scalar (.data [0, 13, 255]))]

theorem twoLines_readBack : ∃ contents, writePlistXML plainTexts twoLines = .ok contents ∧
    readPlistXML plainTexts (fun _ s => s) contents = some (.ok (readValue plainTexts twoLines)) ∧
    readValue plainTexts twoLines ≠ twoLines.mapScalars (widen plainTexts) := by
  have hlegible : twoLines.KeyedWith (Legible plainTexts) := by
    have hless : text "Label" < text "PairRecordData" := by decide
    rw [twoLines, Value.keyedWith_dictionary]
    refine ⟨List.pairwise_pair.mpr hless, fun e he => ?_⟩
    rcases List.mem_pair.mp he with rfl | rfl
    all_goals trivial
  obtain ⟨contents, hwrite, hread, hsame⟩ := xmlList_readBack plainTexts (fun _ s => s) hlegible
  refine ⟨contents, hwrite, hread, fun heq => ?_⟩
  have hmem : text "one\r\ntwo" ∈ textsOf twoLines := .tail _ (.head _)
  have hreturn : 13 ∈ text "one\r\ntwo" := by decide
  exact (hsame.mp heq _ hmem).2.1 hreturn

end SwiftRobot.XmlPlist
