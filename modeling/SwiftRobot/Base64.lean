import SwiftRobot.Plist
import Mathlib.Data.List.Basic
import Mathlib.Tactic.IntervalCases

/-!
# The text of a data value

`put` writes three bytes as four characters and ends a line after eighteen such
quartets, `get` reads the characters back and passes over those it does not know.
The iterators' state bits and the positions they return are not kept: both callers
drop them.
-/

namespace SwiftRobot.Plist.Base64
open ByteWords

def base64Chars : Bytes := text "ABCDEFGHIJKLMNOPQRSTUVWXYZabcdefghijklmnopqrstuvwxyz0123456789+/"

def charAt (n : ℕ) : UInt8 := base64Chars.getD n 0

def equalSign : UInt8 := 61
def lineFeed : UInt8 := 10

inductive CharType
  | value (v : UInt8)
  | equal
  | unknown
  deriving DecidableEq

/-- A character of 128 or more is negative for the source, and below every bound there. -/
def getCharType (c : UInt8) : CharType :=
  if charAt 62 = c then .value 62
  else if charAt 63 = c then .value 63
  else if charAt 0 ≤ c ∧ c ≤ charAt 25 then .value (c - charAt 0)
  else if charAt 26 ≤ c ∧ c ≤ charAt 51 then .value (c - charAt 26 + 26)
  else if charAt 52 ≤ c ∧ c ≤ charAt 61 then .value (c - charAt 52 + 52)
  else if c = equalSign then .equal
  else .unknown

structure Three2Four where
  data0 : UInt8
  data1 : UInt8
  data2 : UInt8

namespace Three2Four

def zero : Three2Four := ⟨0, 0, 0⟩

variable (g : Three2Four) (ch : UInt8)

def b64_0 : UInt8 := (g.data0 &&& 0xFC) >>> 2
def b64_1 : UInt8 := ((g.data0 &&& 0x03) <<< 4) + ((g.data1 &&& 0xF0) >>> 4)
def b64_2 : UInt8 := ((g.data1 &&& 0x0F) <<< 2) + ((g.data2 &&& 0xC0) >>> 6)
def b64_3 : UInt8 := g.data2 &&& 0x3F

def setB64_0 : Three2Four :=
  { g with data0 := ((ch &&& 0x3F) <<< 2) ||| (0x03 &&& g.data0) }

def setB64_1 : Three2Four :=
  { g with
    data0 := ((ch &&& 0x30) >>> 4) ||| (0xFC &&& g.data0)
    data1 := ((ch &&& 0x0F) <<< 4) ||| (0x0F &&& g.data1) }

def setB64_2 : Three2Four :=
  { g with
    data1 := ((ch &&& 0x3C) >>> 2) ||| (0xF0 &&& g.data1)
    data2 := ((ch &&& 0x03) <<< 6) ||| (0x3F &&& g.data2) }

def setB64_3 : Three2Four :=
  { g with data2 := (ch &&& 0x3F) ||| (0xC0 &&& g.data2) }

end Three2Four

def put (endl : Bytes) (lineOctets : ℕ) : Bytes → Bytes
  | [] => []
  | [a] =>
    let g : Three2Four := ⟨a, 0, 0⟩
    [charAt g.b64_0.toNat, charAt g.b64_1.toNat, equalSign, equalSign]
  | [a, b] =>
    let g : Three2Four := ⟨a, b, 0⟩
    [charAt g.b64_0.toNat, charAt g.b64_1.toNat, charAt g.b64_2.toNat, equalSign]
  | a :: b :: c :: rest =>
    let g : Three2Four := ⟨a, b, c⟩
    [charAt g.b64_0.toNat, charAt g.b64_1.toNat, charAt g.b64_2.toNat, charAt g.b64_3.toNat] ++
      if lineOctets = 17 then endl ++ put endl 0 rest else put endl (lineOctets + 1) rest

/-- How many characters of a quartet have been taken. -/
inductive Place
  | first
  | second (g : Three2Four)
  | third (g : Three2Four)
  | fourth (g : Three2Four)

/-- A quartet that ends early, or that starts with a sign of its end, gives nothing; what
stands behind the sign is not read. -/
def get : Place → Bytes → Bytes
  | _, [] => []
  | place, c :: cs =>
    match getCharType c, place with
    | .unknown, _ => get place cs
    | .equal, .first => []
    | .value v, .first => get (.second (Three2Four.zero.setB64_0 v)) cs
    | .equal, .second _ => []
    | .value v, .second g => get (.third (g.setB64_1 v)) cs
    | .equal, .third g => [((g.setB64_2 0).setB64_3 0).data0]
    | .value v, .third g => get (.fourth (g.setB64_2 v)) cs
    | .equal, .fourth g => [(g.setB64_3 0).data0, (g.setB64_3 0).data1]
    | .value v, .fourth g =>
      (g.setB64_3 v).data0 :: (g.setB64_3 v).data1 :: (g.setB64_3 v).data2 :: get .first cs

def lf : Bytes := [lineFeed]

def base64Encode (data : Bytes) : Bytes := put lf 0 data

/-- The text is a C string: the caller's node never holds a null. -/
def base64Decode (encodedData : Bytes) : Bytes := get .first encodedData

theorem toNat_low {x mask : UInt8} (k : ℕ) (hmask : mask.toNat = 2 ^ k - 1) :
    (x &&& mask).toNat = x.toNat % 2 ^ k := by
  rw [UInt8.toNat_and, hmask, Nat.and_two_pow_sub_one_eq_mod]

theorem toNat_shifted {x mask k : UInt8} (j : ℕ) (hk : k.toNat < 8)
    (hmask : mask.toNat >>> k.toNat = 2 ^ j - 1) :
    ((x &&& mask) >>> k).toNat = x.toNat / 2 ^ k.toNat % 2 ^ j := by
  rw [UInt8.toNat_shiftRight, Nat.mod_eq_of_lt hk, UInt8.toNat_and, Nat.shiftRight_and_distrib,
    hmask, Nat.and_two_pow_sub_one_eq_mod, Nat.shiftRight_eq_div_pow]

theorem toNat_raised {x mask k : UInt8} (j : ℕ) (hk : k.toNat < 8) (hjk : j + k.toNat ≤ 8)
    (hmask : mask.toNat = 2 ^ j - 1) :
    ((x &&& mask) <<< k).toNat = x.toNat % 2 ^ j * 2 ^ k.toNat := by
  have hlt : x.toNat % 2 ^ j * 2 ^ k.toNat < 256 := by
    calc x.toNat % 2 ^ j * 2 ^ k.toNat
        < 2 ^ j * 2 ^ k.toNat :=
          Nat.mul_lt_mul_of_pos_right (Nat.mod_lt _ (by positivity)) (by positivity)
      _ = 2 ^ (j + k.toNat) := (pow_add 2 _ _).symm
      _ ≤ 2 ^ 8 := Nat.pow_le_pow_right (by omega) hjk
  rw [UInt8.toNat_shiftLeft, toNat_low j hmask, Nat.mod_eq_of_lt hk, Nat.shiftLeft_eq,
    Nat.mod_eq_of_lt hlt]

theorem toNat_or {x y : UInt8} (k : ℕ) (hx : x.toNat < 2 ^ k) (hy : y.toNat % 2 ^ k = 0) :
    (x ||| y).toNat = x.toNat + y.toNat := by
  obtain ⟨q, hq⟩ := Nat.dvd_of_mod_eq_zero hy
  rw [UInt8.toNat_or, hq, Nat.or_comm, Nat.add_comm, Nat.two_pow_add_eq_or_of_lt hx]

theorem and_high (x : UInt8) : (x.toNat % 4 = 0 → 0xFC &&& x = x) ∧
    (x.toNat % 16 = 0 → 0xF0 &&& x = x) ∧ (x.toNat % 64 = 0 → 0xC0 &&& x = x) := by
  have hall : ∀ n < 256, (n % 4 = 0 → 0xFC &&& n = n) ∧ (n % 16 = 0 → 0xF0 &&& n = n) ∧
      (n % 64 = 0 → 0xC0 &&& n = n) := by decide +kernel
  simpa only [← UInt8.toNat_inj, UInt8.toNat_and, UInt8.reduceToNat] using hall x.toNat x.toNat_lt

namespace Three2Four

theorem written {s0 s1 s2 s3 : UInt8} (h0 : s0.toNat < 64) (h1 : s1.toNat < 64)
    (h2 : s2.toNat < 64) (h3 : s3.toNat < 64) :
    let g := (((zero.setB64_0 s0).setB64_1 s1).setB64_2 s2).setB64_3 s3
    g.data0.toNat = 4 * s0.toNat + s1.toNat / 16 ∧
      g.data1.toNat = 16 * (s1.toNat % 16) + s2.toNat / 4 ∧
      g.data2.toNat = 64 * (s2.toNat % 4) + s3.toNat := by
  have ha : ((s0 &&& 0x3F) <<< 2).toNat = s0.toNat * 4 := by
    rw [toNat_raised 6 (by decide) (by decide) (by decide)]
    simp only [UInt8.reduceToNat]
    omega
  have hb : ((s1 &&& 0x30) >>> 4).toNat = s1.toNat / 16 := by
    rw [toNat_shifted 2 (by decide) (by decide)]
    simp only [UInt8.reduceToNat]
    omega
  have hc : ((s1 &&& 0x0F) <<< 4).toNat = s1.toNat % 16 * 16 :=
    toNat_raised 4 (by decide) (by decide) (by decide)
  have hd : ((s2 &&& 0x3C) >>> 2).toNat = s2.toNat / 4 := by
    rw [toNat_shifted 4 (by decide) (by decide)]
    simp only [UInt8.reduceToNat]
    omega
  have he : ((s2 &&& 0x03) <<< 6).toNat = s2.toNat % 4 * 64 :=
    toNat_raised 2 (by decide) (by decide) (by decide)
  have hf : (s3 &&& 0x3F).toNat = s3.toNat := by
    rw [toNat_low 6 (by decide)]
    omega
  simp only [setB64_0, setB64_1, setB64_2, setB64_3, zero, UInt8.and_zero, UInt8.or_zero]
  refine ⟨?_, ?_, ?_⟩
  · rw [(and_high ((s0 &&& 0x3F) <<< 2)).1 (by omega), toNat_or 2 (by omega) (by omega)]
    omega
  · rw [(and_high ((s1 &&& 0x0F) <<< 4)).2.1 (by omega), toNat_or 4 (by omega) (by omega)]
    omega
  · rw [(and_high ((s2 &&& 0x03) <<< 6)).2.2 (by omega), toNat_or 6 (by omega) (by omega)]
    omega

theorem numbers (g : Three2Four) :
    g.b64_0.toNat = g.data0.toNat / 4 ∧
      g.b64_1.toNat = g.data0.toNat % 4 * 16 + g.data1.toNat / 16 ∧
      g.b64_2.toNat = g.data1.toNat % 16 * 4 + g.data2.toNat / 64 ∧
      g.b64_3.toNat = g.data2.toNat % 64 := by
  have h0 := g.data0.toNat_lt
  have h1 := g.data1.toNat_lt
  have h2 := g.data2.toNat_lt
  have hb : ((g.data0 &&& 0x03) <<< 4).toNat = g.data0.toNat % 4 * 16 :=
    toNat_raised 2 (by decide) (by decide) (by decide)
  have hb' : ((g.data1 &&& 0xF0) >>> 4).toNat = g.data1.toNat / 16 % 16 :=
    toNat_shifted 4 (by decide) (by decide)
  have hc : ((g.data1 &&& 0x0F) <<< 2).toNat = g.data1.toNat % 16 * 4 :=
    toNat_raised 4 (by decide) (by decide) (by decide)
  have hc' : ((g.data2 &&& 0xC0) >>> 6).toNat = g.data2.toNat / 64 % 4 :=
    toNat_shifted 2 (by decide) (by decide)
  refine ⟨?_, ?_, ?_, toNat_low 6 (by decide)⟩
  · rw [b64_0, toNat_shifted 6 (by decide) (by decide)]
    simp only [UInt8.reduceToNat]
    omega
  · rw [b64_1, UInt8.toNat_add]
    omega
  · rw [b64_2, UInt8.toNat_add]
    omega

end Three2Four

def known (c : UInt8) : Bool := getCharType c ≠ .unknown

theorem getCharType_charAt : ∀ n < 64, getCharType (charAt n) = .value (UInt8.ofNat n) := by
  decide +kernel

theorem getCharType_sextet {v : UInt8} (hv : v.toNat < 64) :
    getCharType (charAt v.toNat) = .value v := by
  rw [getCharType_charAt _ hv, UInt8.ofNat_toNat]

theorem getCharType_equalSign : getCharType equalSign = .equal := by decide

theorem getCharType_lineFeed : getCharType lineFeed = .unknown := by decide

theorem get_filter (place : Place) (cs : Bytes) : get place (cs.filter known) = get place cs := by
  induction cs generalizing place with
  | nil => rfl
  | cons c cs ih =>
    cases htype : getCharType c with
    | unknown =>
      rw [List.filter_cons_of_neg (by simp [known, htype]), ih]
      cases place <;> simp only [get, htype]
    | equal =>
      rw [List.filter_cons_of_pos (by simp [known, htype])]
      cases place <;> simp only [get, htype]
    | value v =>
      rw [List.filter_cons_of_pos (by simp [known, htype])]
      cases place <;> simp only [get, htype, ih]

theorem numbers_lt (g : Three2Four) : g.b64_0.toNat < 64 ∧ g.b64_1.toNat < 64 ∧
    g.b64_2.toNat < 64 ∧ g.b64_3.toNat < 64 := by
  obtain ⟨h0, h1, h2, h3⟩ := g.numbers
  have ha := g.data0.toNat_lt
  have hb := g.data1.toNat_lt
  have hc := g.data2.toNat_lt
  omega

theorem written_numbers (g : Three2Four) :
    (((Three2Four.zero.setB64_0 g.b64_0).setB64_1 g.b64_1).setB64_2 g.b64_2).setB64_3 g.b64_3 =
      g := by
  obtain ⟨h0, h1, h2, h3⟩ := g.numbers
  obtain ⟨hl0, hl1, hl2, hl3⟩ := numbers_lt g
  obtain ⟨hw0, hw1, hw2⟩ := Three2Four.written hl0 hl1 hl2 hl3
  have ha := g.data0.toNat_lt
  have hb := g.data1.toNat_lt
  have hc := g.data2.toNat_lt
  have hext : ∀ g' : Three2Four, g'.data0.toNat = g.data0.toNat →
      g'.data1.toNat = g.data1.toNat → g'.data2.toNat = g.data2.toNat → g' = g := by
    intro g' e0 e1 e2
    cases g
    cases g'
    simp_all [UInt8.toNat_inj]
  apply hext <;> omega

theorem get_put {endl : Bytes} (hendl : ∀ c ∈ endl, getCharType c = .unknown) (lineOctets : ℕ)
    (data : Bytes) : get .first (put endl lineOctets data) = data := by
  have hskip (cs : Bytes) : get .first (endl ++ cs) = get .first cs := by
    rw [← get_filter, List.filter_append, List.filter_eq_nil_iff.mpr, List.nil_append, get_filter]
    intro c hc
    simp [known, hendl c hc]
  have hlast (a b : UInt8) : (⟨a, b, 0⟩ : Three2Four).b64_3 = 0 := UInt8.zero_and
  have hlasts (a : UInt8) : (⟨a, 0, 0⟩ : Three2Four).b64_2 = 0 := by
    simp [Three2Four.b64_2]
  induction lineOctets, data using put.induct with
  | case1 => rfl
  | case2 lineOctets a =>
    obtain ⟨h0, h1, -⟩ := numbers_lt ⟨a, 0, 0⟩
    have hback := congrArg Three2Four.data0 (written_numbers ⟨a, 0, 0⟩)
    rw [hlasts, hlast] at hback
    simpa only [put, get, getCharType_sextet h0, getCharType_sextet h1, getCharType_equalSign,
      List.cons.injEq, and_true] using hback
  | case3 lineOctets a b =>
    obtain ⟨h0, h1, h2, -⟩ := numbers_lt ⟨a, b, 0⟩
    have hback := written_numbers ⟨a, b, 0⟩
    rw [hlast] at hback
    simp only [put, get, getCharType_sextet h0, getCharType_sextet h1, getCharType_sextet h2,
      getCharType_equalSign, hback]
  | case4 lineOctets a b c rest ih0 ih =>
    obtain ⟨h0, h1, h2, h3⟩ := numbers_lt ⟨a, b, c⟩
    rw [put]
    simp only [List.cons_append, List.nil_append, get, getCharType_sextet h0,
      getCharType_sextet h1, getCharType_sextet h2, getCharType_sextet h3, written_numbers]
    split_ifs
    · rw [hskip, ih0]
    · rw [ih]

theorem charAt_ne_lineFeed {v : UInt8} (hv : v.toNat < 64) : charAt v.toNat ≠ lineFeed := by
  rintro heq
  have htype := getCharType_sextet hv
  rw [heq, getCharType_lineFeed] at htype
  cases htype

theorem put_lines (lineOctets : ℕ) (data start : Bytes) (hn : lineOctets ≤ 17)
    (hlength : start.length = 4 * lineOctets) (hstart : lineFeed ∉ start) :
    ∀ line ∈ (start ++ put lf lineOctets data).splitOn lineFeed, line.length ≤ 72 := by
  have hsingle (line : Bytes) (hno : lineFeed ∉ line) (hle : line.length ≤ 72) :
      ∀ l ∈ line.splitOn lineFeed, l.length ≤ 72 := by
    intro l hl
    rw [List.splitOn, List.splitOnP_eq_singleton] at hl
    · rwa [List.mem_singleton.mp hl]
    · intro x hx
      simpa using ne_of_mem_of_not_mem hx hno
  induction lineOctets, data using put.induct generalizing start with
  | case1 =>
    apply hsingle
    · simpa [put] using hstart
    · simp only [put, List.append_nil]
      omega
  | case2 lineOctets a =>
    obtain ⟨h0, h1, -⟩ := numbers_lt ⟨a, 0, 0⟩
    apply hsingle
    · simp [put, hstart, (charAt_ne_lineFeed h0).symm, (charAt_ne_lineFeed h1).symm]
      decide
    · simp [put]
      omega
  | case3 lineOctets a b =>
    obtain ⟨h0, h1, h2, -⟩ := numbers_lt ⟨a, b, 0⟩
    apply hsingle
    · simp [put, hstart, (charAt_ne_lineFeed h0).symm, (charAt_ne_lineFeed h1).symm,
        (charAt_ne_lineFeed h2).symm]
      decide
    · simp [put]
      omega
  | case4 lineOctets a b c rest ih0 ih =>
    obtain ⟨h0, h1, h2, h3⟩ := numbers_lt ⟨a, b, c⟩
    rw [put]
    generalize hquartet : [charAt (Three2Four.mk a b c).b64_0.toNat, _, _, _] = quartet
    have hfour : quartet.length = 4 := by rw [← hquartet]; rfl
    have hno : lineFeed ∉ start ++ quartet := by
      simp [← hquartet, hstart, (charAt_ne_lineFeed h0).symm, (charAt_ne_lineFeed h1).symm,
        (charAt_ne_lineFeed h2).symm, (charAt_ne_lineFeed h3).symm]
    rw [← List.append_assoc]
    split_ifs with hend
    · intro l hl
      rw [lf, List.singleton_append, List.splitOn, List.splitOnP_append_cons _ _ (by simp)] at hl
      rcases List.mem_append.mp hl with hl | hl
      · refine hsingle _ hno ?_ l hl
        rw [List.length_append]
        omega
      · exact ih0 [] (by omega) rfl List.not_mem_nil l hl
    · refine ih (start ++ quartet) (by omega) ?_ hno
      rw [List.length_append]
      omega

/-- The text keeps to the lines it may have, and the data is read back from it however its
lines are broken or indented again. -/
theorem base64_wrapped (data : Bytes) :
    (∀ line ∈ (base64Encode data).splitOn lineFeed, line.length ≤ 72) ∧
      ∀ cs : Bytes, cs.filter known = (base64Encode data).filter known →
        base64Decode cs = data := by
  constructor
  · exact put_lines 0 data [] (by omega) rfl List.not_mem_nil
  · rintro cs hcs
    have hlf : ∀ c ∈ lf, getCharType c = .unknown := by
      simp [lf, getCharType_lineFeed]
    rw [base64Decode, ← get_filter, hcs, get_filter]
    exact get_put hlf 0 data

example : base64Decode (text " U3d\r\n pZ\t nQ=\n=") = text "Swift" := by decide

end SwiftRobot.Plist.Base64
