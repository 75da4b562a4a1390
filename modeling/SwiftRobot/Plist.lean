import SwiftRobot.Support.Reading

/-!
# Reading property lists

`readPlist` decides between the binary and the XML format, and cuts a binary list
into its three parts. These are all the reads it makes of the block it is given;
the two parsers work on copies, and are parameters like the XML writer and the
allocator. An exception is the result `none`: both callers catch it. A parser that
leaves its copies, or its stack, is one that has read outside of the block.
-/

namespace SwiftRobot.Plist
open ByteWords Reading

def text (s : String) : Bytes := s.toList.map fun c => UInt8.ofNat c.toNat

inductive Any
  | int32 (v : Int32)
  | int64 (v : Int64)
  | string (s : Bytes)
  | dictionary (entries : List (Bytes × Any))
  | other

abbrev Dictionary := List (Bytes × Any)

def Any.int64? : Any → Option Int64
  | .int64 v => some v
  | _ => none

def Any.string? : Any → Option Bytes
  | .string s => some s
  | _ => none

def Any.dictionary? : Any → Option Dictionary
  | .dictionary entries => some entries
  | _ => none

/-- Every key is looked up without a check, and every cast throws on another type:
nothing comes back in either case. -/
def Dictionary.integer? (d : Dictionary) (key : String) : Option Int64 :=
  (d.lookup (text key)).bind Any.int64?

def Dictionary.string? (d : Dictionary) (key : String) : Option Bytes :=
  (d.lookup (text key)).bind Any.string?

def Dictionary.dictionary? (d : Dictionary) (key : String) : Option Dictionary :=
  (d.lookup (text key)).bind Any.dictionary?

/-- How a parse ends without a value: an exception, an access outside of a vector or an
`int` that overflows, or more nested calls than there is room for. -/
inductive Fault
  | thrown
  | undefined
  | deep
  deriving DecidableEq, Repr

abbrev Parsing := Except Fault

/-- The vendored parsers, which are given copies, the writer, and the sizes the
allocator can serve. -/
structure Library where
  parseXML : Bytes → Parsing Any
  parseBinary : Bytes → Bytes → Bytes → Parsing Any
  writePlistXML : Dictionary → Bytes
  allocates : ℕ → Bool

variable (lib : Library)

def bigEndianInt64 (bs : Bytes) : ℤ := (BitVec.ofNat 64 (decode bs.reverse)).toInt

/-- A vector of a negative length, or of one that is too large, throws before the copy. -/
def getRange (index size : ℤ) : Reading (Option Bytes) :=
  if size < 0 ∨ lib.allocates size.toNat = false then pure none
  else some <$> bytesAt index size.toNat

def caught : Parsing Any → Reading (Option Any)
  | .ok message => pure (some message)
  | .error .thrown => pure none
  | .error _ => outside

def readBinary (size : ℕ) : Reading (Option Any) := do
  match ← getRange lib ((size : ℤ) - 32) 32 with
  | none => return none
  | some trailer =>
    let offsetTableOffset := bigEndianInt64 (trailer.drop 24)
    match ← getRange lib 0 offsetTableOffset with
    | none => return none
    | some objectTable =>
      match ← getRange lib offsetTableOffset (size - offsetTableOffset - 32) with
      | none => return none
      | some offsetTable => caught (lib.parseBinary trailer objectTable offsetTable)

def readXML (size : ℕ) : Reading (Option Any) := do
  let contents ← bytes 0 size
  caught (lib.parseXML contents)

/-- The eight bytes of the magic are copied before anything is known of the size. -/
def readPlist (size : ℕ) : Reading (Option Dictionary) :=
  if size = 0 then pure none
  else do
    let magicHeader ← bytes 0 8
    let message ← if magicHeader = text "bplist00" then readBinary lib size else readXML lib size
    return message.bind Any.dictionary?

def offsetTableOffset (payload : Bytes) : ℤ :=
  bigEndianInt64 (payload.drop (payload.length - 8))

def Ends (parsed : Parsing Any) : Prop := ∀ fault, parsed = .error fault → fault = .thrown

def cut (payload : Bytes) (index size : ℤ) : Option Bytes :=
  if size < 0 ∨ lib.allocates size.toNat = false then none
  else some ((payload.drop index.toNat).take size.toNat)

/-- The parser ends on the two tables, where neither copy throws. -/
def TablesEnd (payload : Bytes) (offset : ℤ) (parse : Bytes → Bytes → Parsing Any) : Prop :=
  ∀ objectTable, cut lib payload 0 offset = some objectTable →
    ∀ offsetTable, cut lib payload offset (payload.length - offset - 32) = some offsetTable →
      Ends (parse objectTable offsetTable)

/-- The payload has all the bytes that are read of it: the magic, and for a binary list its
trailer and the object table the trailer speaks of. The parser ends on it. -/
def Holds (payload : Bytes) : Prop :=
  payload = [] ∨ 8 ≤ payload.length ∧
    if payload.take 8 = text "bplist00" then
      lib.allocates 32 = true → 32 ≤ payload.length ∧
        (0 ≤ offsetTableOffset payload → lib.allocates (offsetTableOffset payload).toNat = true →
          offsetTableOffset payload ≤ payload.length) ∧
        TablesEnd lib payload (offsetTableOffset payload)
          (lib.parseBinary (payload.drop (payload.length - 32)))
    else Ends (lib.parseXML payload)

theorem within_caught {n : ℕ} {parsed : Parsing Any} {mem : Bytes} :
    Within n (caught parsed) mem ↔ Ends parsed := by
  unfold Ends
  match parsed with
  | .ok message => simp [caught]
  | .error .thrown => simp [caught]
  | .error .undefined => simp [caught]
  | .error .deep => simp [caught]

theorem caught_value {parsed : Parsing Any} (h : Ends parsed) (mem : Bytes) :
    ((caught parsed) mem).value = some parsed.toOption := by
  match parsed with
  | .ok message => rfl
  | .error .thrown => rfl
  | .error .undefined => exact absurd (h _ rfl) (by decide)
  | .error .deep => exact absurd (h _ rfl) (by decide)

theorem within_getRange {n : ℕ} {index size : ℤ} {mem : Bytes} :
    Within n (getRange lib index size) mem ↔
      (0 < size → lib.allocates size.toNat = true → 0 ≤ index ∧ index + size ≤ n) := by
  unfold getRange
  split_ifs with h
  · simp only [within_pure, true_iff]
    rintro hpos halloc
    rcases h with h | h
    · omega
    · simp [h] at halloc
  · rw [within_map, within_bytesAt]
    have halloc : lib.allocates size.toNat = true := by simpa using fun hf => h (Or.inr hf)
    simp only [halloc, forall_const]
    omega

theorem getRange_value {payload tail : Bytes} {index size : ℤ}
    (h : Within payload.length (getRange lib index size) (payload ++ tail)) :
    ((getRange lib index size) (payload ++ tail)).value = some (cut lib payload index size) := by
  rw [within_getRange] at h
  unfold getRange cut
  split_ifs with hthrow
  · rfl
  · obtain ⟨hsize, halloc⟩ := not_or.mp hthrow
    have halloc : lib.allocates size.toNat = true := by simpa using halloc
    rw [map_value]
    rcases (not_lt.mp hsize).eq_or_lt with rfl | hpos
    · simp [bytesAt]
    · obtain ⟨hindex, hin⟩ := h hpos halloc
      have hb := bytes_value_front payload tail index.toNat size.toNat (by omega)
      rw [bytes, Int.toNat_of_nonneg hindex] at hb
      rw [hb]
      rfl

theorem within_tables {payload tail : Bytes} (offset : ℤ) (parse : Bytes → Bytes → Parsing Any) :
    Within payload.length (do
      match ← getRange lib 0 offset with
      | none => return none
      | some objectTable =>
        match ← getRange lib offset (payload.length - offset - 32) with
        | none => return none
        | some offsetTable => caught (parse objectTable offsetTable) : Reading (Option Any))
        (payload ++ tail) ↔
      (0 ≤ offset → lib.allocates offset.toNat = true → offset ≤ payload.length) ∧
        TablesEnd lib payload offset parse := by
  by_cases hobjects : Within payload.length (getRange lib 0 offset) (payload ++ tail)
  · have hoffset := (within_getRange lib).mp hobjects
    rw [within_bind_of_value hobjects (getRange_value lib hobjects), TablesEnd]
    have hin : 0 ≤ offset → lib.allocates offset.toNat = true → offset ≤ payload.length := by
      intro h0 halloc
      rcases h0.eq_or_lt with h0 | hpos
      · omega
      · have hle := (hoffset hpos halloc).2
        omega
    cases hcut : cut lib payload 0 offset with
    | none => simpa using hin
    | some objectTable =>
      have h0 : 0 ≤ offset := by
        rw [cut] at hcut
        split_ifs at hcut with hthrow
        omega
      have hoffsets : Within payload.length
          (getRange lib offset (payload.length - offset - 32)) (payload ++ tail) :=
        (within_getRange lib).mpr fun _ _ => ⟨h0, by omega⟩
      simp only [Option.some.injEq, forall_eq']
      rw [within_bind_of_value hoffsets (getRange_value lib hoffsets)]
      cases cut lib payload offset (payload.length - offset - 32) with
      | none => simpa using hin
      | some offsetTable => simpa [within_caught] using fun _ => hin
  · refine iff_of_false (fun h => hobjects (within_bind.mp h).1) fun h => ?_
    refine hobjects ((within_getRange lib).mpr fun hpos halloc => ⟨le_refl _, ?_⟩)
    have hle := h.1 hpos.le halloc
    omega

theorem within_readBinary {payload tail : Bytes} :
    Within payload.length (readBinary lib payload.length) (payload ++ tail) ↔
      (lib.allocates 32 = true → 32 ≤ payload.length ∧
        (0 ≤ offsetTableOffset payload → lib.allocates (offsetTableOffset payload).toNat = true →
          offsetTableOffset payload ≤ payload.length) ∧
        TablesEnd lib payload (offsetTableOffset payload)
          (lib.parseBinary (payload.drop (payload.length - 32)))) := by
  unfold readBinary
  have hto : (32 : ℤ).toNat = 32 := rfl
  by_cases htrailer : Within payload.length (getRange lib ((payload.length : ℤ) - 32) 32)
      (payload ++ tail)
  · have hin := (within_getRange lib).mp htrailer
    rw [within_bind_of_value htrailer (getRange_value lib htrailer), cut, hto]
    by_cases halloc : lib.allocates 32 = true
    · have h32 : 32 ≤ payload.length := by
        have hstart := (hin (by omega) halloc).1
        omega
      have hcut : (payload.drop ((payload.length : ℤ) - 32).toNat).take 32 =
          payload.drop (payload.length - 32) := by
        rw [show ((payload.length : ℤ) - 32).toNat = payload.length - 32 by omega]
        apply List.take_of_length_le
        rw [List.length_drop]
        omega
      have hoffset : (payload.drop (payload.length - 32)).drop 24 =
          payload.drop (payload.length - 8) := by
        rw [List.drop_drop]
        congr 1
        omega
      rw [if_neg (by simp [halloc]), hcut]
      simp only [hoffset, h32, halloc, true_and, forall_const]
      exact within_tables lib _ _
    · rw [if_pos (Or.inr (by simpa using halloc))]
      simp [halloc]
  · refine iff_of_false (fun h => htrailer (within_bind.mp h).1) fun h => htrailer ?_
    refine (within_getRange lib).mpr fun _ halloc => ?_
    have h32 := (h halloc).1
    omega

theorem within_readPlist {payload tail : Bytes} :
    Within payload.length (readPlist lib payload.length) (payload ++ tail) ↔
      Holds lib payload := by
  unfold readPlist Holds
  by_cases hnil : payload = []
  · simp [hnil]
  · have hlen : payload.length ≠ 0 := by simpa using hnil
    rw [if_neg hlen]
    simp only [hnil, false_or]
    by_cases h8 : 8 ≤ payload.length
    · have hmagic := bytes_value_front payload tail 0 8 (by omega)
      rw [List.drop_zero] at hmagic
      rw [within_bind_of_value (within_bytes.mpr (by omega)) hmagic]
      simp only [h8, true_and]
      by_cases hbin : payload.take 8 = text "bplist00"
      · simp only [hbin, if_true]
        rw [within_bind, within_readBinary lib]
        simp
      · have hcontents := bytes_value_front payload tail 0 payload.length (by omega)
        rw [List.drop_zero, List.take_length] at hcontents
        simp only [hbin, if_false]
        rw [within_bind, readXML, within_bind_of_value (within_bytes.mpr (by omega)) hcontents,
          within_caught]
        simp
    · simp only [h8, false_and, iff_false]
      rw [within_bind, within_bytes]
      omega

end SwiftRobot.Plist
