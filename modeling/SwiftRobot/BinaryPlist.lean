import SwiftRobot.PlistValues
import SwiftRobot.Support.BoundedRecursion

/-!
# Binary property lists

The object table is filled from its end: every object is inserted at the front, and
what `offsetTable` remembers of an object until the last step is how long the table
was then. References count down in the same order. The parser follows them with no
bound on how deep they lead, and indexes two of its vectors without a check.
-/

namespace SwiftRobot.Plist
open ByteWords

/-- What the code leaves to the compiler and to `boost::locale`: the conversions between
floating-point numbers and times, and from UTF-16, which throws on malformed text. -/
structure Conversions where
  doubleOfFloat : FloatBits → DoubleBits
  timeAsAppleEpoch : Int64 → DoubleBits
  setTimeFromAppleEpoch : DoubleBits → Int64
  utf_to_utf : List Int16 → Option Bytes

def plainConversions : Conversions where
  doubleOfFloat v := v.setWidth 64
  timeAsAppleEpoch time := time.toBitVec
  setTimeFromAppleEpoch v := Int64.ofBitVec v
  utf_to_utf _ := none

structure PlistHelperData where
  offsetTable : List Int32
  objectTable : Bytes
  offsetByteSize : ℕ
  offsetTableOffset : Int64
  objRefSize : ℕ
  refCount : Int32

namespace Binary

def dropNulls (minBytes : ℕ) : Bytes → Bytes
  | [] => []
  | b :: bytes => if b = 0 ∧ minBytes < bytes.length + 1 then dropNulls minBytes bytes
      else b :: bytes

/-- For no bytes the source reads in front of the vector: the parser never gets here then. -/
def regulateNullBytes (origBytes : Bytes) (minBytes : ℕ) : Bytes :=
  let bytes := (dropNulls minBytes origBytes.reverse).reverse
  bytes ++ List.replicate (minBytes - bytes.length) 0

def bytesToInt {α : Type} (w : Word α) (bytes : Bytes) (littleEndian : Bool) : α :=
  w.ofBytes (if littleEndian then bytes.take w.width else (bytes.take w.width).reverse)

def bytesToDouble (bytes : Bytes) (littleEndian : Bool) : DoubleBits :=
  double.ofBytes (if littleEndian then bytes.take 8 else (bytes.take 8).reverse)

def doubleToBytes (val : DoubleBits) (littleEndian : Bool) : Bytes :=
  if littleEndian then double.bytes val else (double.bytes val).reverse

def nextpow2 (x : UInt32) : UInt32 :=
  let x := x - 1
  let x := x ||| (x >>> 1)
  let x := x ||| (x >>> 2)
  let x := x ||| (x >>> 4)
  let x := x ||| (x >>> 8)
  let x := x ||| (x >>> 16)
  x + 1

def ilog2 (x : UInt32) : UInt8 := UInt8.ofNat (Nat.log2 x.toNat)

def prepend (d : PlistHelperData) (buffer : Bytes) : PlistHelperData :=
  { d with objectTable := buffer ++ d.objectTable }

def writeNumber (mark : UInt8) (bytes : Bytes) : Bytes :=
  let width := nextpow2 (UInt32.ofNat bytes.length)
  let buffer := bytes ++ List.replicate (width.toNat - bytes.length) 0
  (mark ||| ilog2 width) :: buffer.reverse

def writeBinaryInteger (value : Int64) : Bytes :=
  writeNumber 0x10 (regulateNullBytes (int64.bytes value) 1)

def writeBinaryDouble (value : DoubleBits) : Bytes :=
  writeNumber 0x20 (regulateNullBytes (doubleToBytes value true) 4)

/-- The header of an object of several parts: from fifteen parts on an integer object
follows that has their number. -/
def writeHeader (mark : UInt8) (size : ℕ) : Bytes :=
  if size < 15 then [mark ||| UInt8.ofNat size]
  else (mark ||| 0xf) :: writeBinaryInteger (Int64.ofNat size)

def writeBinaryByteArray (byteArray : Bytes) : Bytes :=
  writeHeader 0x40 byteArray.length ++ byteArray

def writeBinaryString (value : Bytes) (head : Bool) : Bytes :=
  (if head then writeHeader 0x50 value.length else []) ++ value

def writeBinaryBool (value : Bool) : Bytes := if value then [0x09] else [0x08]

def writeBinaryDate (cv : Conversions) (date : Int64) : Bytes :=
  0x33 :: doubleToBytes (cv.timeAsAppleEpoch date) false

def writeScalar (cv : Conversions) : Scalar → Option Bytes
  | .int32 v => some (writeBinaryInteger v.toInt64)
  | .int64 v => some (writeBinaryInteger v)
  | .short v => some (writeBinaryInteger v.toInt64)
  | .string s => some (writeBinaryString s true)
  | .data bytes => some (writeBinaryByteArray bytes)
  | .double v => some (writeBinaryDouble v)
  | .float v => some (writeBinaryDouble (cv.doubleOfFloat v))
  | .date time => some (writeBinaryDate cv time)
  | .bool b => some (writeBinaryBool b)
  | .other => none

def writeRef (d : PlistHelperData) (ref : Int32) : Bytes :=
  (regulateNullBytes (int32.bytes ref) d.objRefSize).reverse

def writeContainer (d : PlistHelperData) (mark : UInt8) (size : ℕ) (refs : List Int32) :
    PlistHelperData :=
  prepend d (writeHeader mark size ++ refs.flatMap (writeRef d))

def pushObject (d : PlistHelperData) (refs : List Int32) : PlistHelperData × List Int32 :=
  ({ d with
      offsetTable := d.offsetTable ++ [Int32.ofNat d.objectTable.length]
      refCount := d.refCount - 1 },
    d.refCount :: refs)

def writeKeys (cv : Conversions) (d : PlistHelperData) (refs : List Int32) :
    List Bytes → PlistHelperData × List Int32
  | [] => (d, refs)
  | key :: keys =>
    let (d, refs) := writeKeys cv d refs keys
    pushObject (prepend d (writeBinaryString key true)) refs

mutual

def writeBinary (cv : Conversions) (d : PlistHelperData) : Value → Option PlistHelperData
  | .scalar s => (writeScalar cv s).map (prepend d)
  | .array items =>
    match writeItems cv d items with
    | none => none
    | some (d, refs) => some (writeContainer d 0xA0 items.length refs)
  | .dictionary entries =>
    match writeValues cv d entries with
    | none => none
    | some (d, refs) =>
      let (d, refs) := writeKeys cv d refs (entries.map Prod.fst)
      some (writeContainer d 0xD0 entries.length refs)

def writeItems (cv : Conversions) (d : PlistHelperData) :
    List Value → Option (PlistHelperData × List Int32)
  | [] => some (d, [])
  | item :: items =>
    match writeItems cv d items with
    | none => none
    | some (d, refs) =>
      match writeBinary cv d item with
      | none => none
      | some d => some (pushObject d refs)

def writeValues (cv : Conversions) (d : PlistHelperData) :
    List (Bytes × Value) → Option (PlistHelperData × List Int32)
  | [] => some (d, [])
  | (_, value) :: entries =>
    match writeValues cv d entries with
    | none => none
    | some (d, refs) =>
      match writeBinary cv d value with
      | none => none
      | some d => some (pushObject d refs)

end

mutual

def countAny : Value → ℕ
  | .scalar _ => 1
  | .array items => countArray items + 1
  | .dictionary entries => countDictionary entries + 1

def countArray : List Value → ℕ
  | [] => 0
  | item :: items => countAny item + countArray items

def countDictionary : List (Bytes × Value) → ℕ
  | [] => 0
  | (_, value) :: entries => 1 + countAny value + countDictionary entries

end

def rootEntry (d : PlistHelperData) : Int32 := Int32.ofNat (d.objectTable.length - 8)

/-- As many bytes as that length needs. -/
def offsetByteSizeOf (d : PlistHelperData) : ℕ :=
  (regulateNullBytes (int32.bytes (rootEntry d)) 1).length

def offsetsOf (d : PlistHelperData) : List Int32 :=
  (d.offsetTable ++ [rootEntry d]).reverse.map fun entry =>
    Int32.ofNat d.objectTable.length - entry

def writeOffset (offsetByteSize : ℕ) (offset : Int32) : Bytes :=
  (regulateNullBytes (int32.bytes offset) offsetByteSize).reverse

def writeOffsets (d : PlistHelperData) : Bytes :=
  (offsetsOf d).flatMap (writeOffset (offsetByteSizeOf d))

def writeTrailer (d : PlistHelperData) (totalRefs : Int32) : Bytes :=
  List.replicate 6 0 ++ ([UInt8.ofNat (offsetByteSizeOf d), UInt8.ofNat d.objRefSize] ++
    ((int64.bytes (totalRefs.toInt64 + 1)).reverse ++
      (int64.bytes 0 ++ (int64.bytes (Int64.ofNat d.objectTable.length)).reverse)))

def writeObjects (cv : Conversions) (message : Value) : Option PlistHelperData :=
  let totalRefs := Int32.ofNat (countAny message) - 1
  let d : PlistHelperData :=
    { offsetTable := []
      objectTable := []
      offsetByteSize := 0
      offsetTableOffset := 0
      objRefSize := (regulateNullBytes (int32.bytes totalRefs) 1).length
      refCount := totalRefs }
  (writeBinary cv d message).map fun d => prepend d (writeBinaryString (text "bplist00") false)

def writePlistBinary (cv : Conversions) (message : Value) : Option Bytes :=
  (writeObjects cv message).map fun d =>
    d.objectTable ++ (writeOffsets d ++ writeTrailer d (Int32.ofNat (countAny message) - 1))

def byteAt (bytes : Bytes) (index : ℤ) : Parsing UInt8 :=
  if index < 0 then .error .undefined
  else match bytes[index.toNat]? with
    | some b => .ok b
    | none => .error .undefined

def offsetAt (d : PlistHelperData) (objRef : Int32) : Parsing ℤ :=
  if objRef.toInt < 0 then .error .undefined
  else match d.offsetTable[objRef.toInt.toNat]? with
    | some offset => .ok offset.toInt
    | none => .error .undefined

def int (v : ℤ) : Parsing ℤ :=
  if -2147483648 ≤ v ∧ v ≤ 2147483647 then .ok v else .error .undefined

def copyRange (origBytes : Bytes) (index size : ℤ) : Parsing Bytes :=
  if size < 0 then .error .thrown
  else if 0 ≤ index ∧ index + size ≤ origBytes.length then
    .ok ((origBytes.drop index.toNat).take size.toNat)
  else .error .undefined

/-- The copy out of a vector looks at where it ends, not at where it starts. -/
def copyVectorRange (origBytes : Bytes) (index size : ℤ) : Parsing Bytes :=
  if (origBytes.length : ℤ) < index + size then .error .thrown
  else copyRange origBytes index size

def parseBinaryInt (d : PlistHelperData) (headerPosition : ℤ) : Parsing (Int64 × ℤ) := do
  let header ← byteAt d.objectTable headerPosition
  let intByteCount : ℤ := 2 ^ (header &&& 0xf).toNat
  let buffer ← copyVectorRange d.objectTable (headerPosition + 1) intByteCount
  return (bytesToInt int64 (regulateNullBytes buffer.reverse 8) true, intByteCount)

def getCount (d : PlistHelperData) (bytePosition : ℤ) (headerByte : UInt8) :
    Parsing (Int32 × ℤ) := do
  let headerByteTrail := headerByte &&& 0xf
  if headerByteTrail < 15 then return (Int32.ofNat headerByteTrail.toNat, 1)
  else
    let (count, startOffset) ← parseBinaryInt d (bytePosition + 1)
    return (count.toInt32, startOffset + 2)

def parseBinaryBool (d : PlistHelperData) (headerPosition : ℤ) : Parsing Bool := do
  let header ← byteAt d.objectTable headerPosition
  if header = 0x09 then return true
  else if header = 0x08 then return false
  else throw .thrown

def parseBinaryReal (d : PlistHelperData) (headerPosition : ℤ) : Parsing DoubleBits := do
  let header ← byteAt d.objectTable headerPosition
  let byteCount : ℤ := 2 ^ (header &&& 0xf).toNat
  let buffer ← copyVectorRange d.objectTable (headerPosition + 1) byteCount
  return bytesToDouble (regulateNullBytes buffer.reverse 8) true

def parseBinaryDate (cv : Conversions) (d : PlistHelperData) (headerPosition : ℤ) :
    Parsing Int64 := do
  let buffer ← copyVectorRange d.objectTable (headerPosition + 1) 8
  return cv.setTimeFromAppleEpoch (bytesToDouble buffer false)

/-- The only copy without a look at the size of the table. -/
def parseBinaryByteArray (d : PlistHelperData) (headerPosition : ℤ) : Parsing Bytes := do
  let headerByte ← byteAt d.objectTable headerPosition
  let (byteCount, byteStartPosition) ← getCount d headerPosition headerByte
  copyRange d.objectTable (byteStartPosition + headerPosition) byteCount.toInt

def parseBinaryString (d : PlistHelperData) (headerPosition : ℤ) : Parsing Bytes := do
  let headerByte ← byteAt d.objectTable headerPosition
  let (charCount, charStartPosition) ← getCount d headerPosition headerByte
  copyVectorRange d.objectTable (charStartPosition + headerPosition) charCount.toInt

def swapPairs : Bytes → Bytes
  | a :: b :: bytes => b :: a :: swapPairs bytes
  | bytes => bytes

def parseBinaryUnicode (cv : Conversions) (d : PlistHelperData) (headerPosition : ℤ) :
    Parsing Bytes := do
  let headerByte ← byteAt d.objectTable headerPosition
  let (charCount, charStartPosition) ← getCount d headerPosition headerByte
  let size ← int (charCount.toInt * 2)
  let characterBytes ← copyVectorRange d.objectTable (charStartPosition + headerPosition) size
  let u16chars := int16.words (characterBytes.length / 2) (swapPairs characterBytes)
  match cv.utf_to_utf u16chars with
  | some result => return result
  | none => throw .thrown

def parseRef (d : PlistHelperData) (i : ℤ) : Parsing Int32 := do
  let refBuffer ← copyVectorRange d.objectTable i d.objRefSize
  return bytesToInt int32 (regulateNullBytes refBuffer.reverse 4) true

/-- With references of no bytes, or a negative count, the loop over them ends at once. -/
def getRefsForContainers (d : PlistHelperData) (objRef : Int32) : Parsing (List Int32) := do
  let headerPosition ← offsetAt d objRef
  let headerByte ← byteAt d.objectTable headerPosition
  let (refCount, startOffset) ← getCount d headerPosition headerByte
  let mult : ℤ := if headerByte &&& 0xF0 = 0xD0 then 2 else 1
  let refStartPosition := startOffset + headerPosition
  let size ← int (refCount.toInt * mult)
  let size ← int (size * d.objRefSize)
  let refEnd ← int (refStartPosition + size)
  let turns := if d.objRefSize = 0 then 0
    else ((refEnd - refStartPosition) / d.objRefSize).toNat
  (List.range turns).mapM fun (turn : ℕ) => parseRef d (refStartPosition + turn * d.objRefSize)

def parseBinaryArray (parse : Int32 → Parsing Value) (refs : List Int32) :
    Parsing (List Value) :=
  refs.mapM parse

def parseBinaryEntries (parse : Int32 → Parsing Value) :
    List (Int32 × Int32) → OrderedMap Bytes Value → Parsing (OrderedMap Bytes Value)
  | [], dict => .ok dict
  | (keyRef, valueRef) :: refs, dict => do
    let keyAny ← parse keyRef
    match keyAny with
    | .scalar (.string key) =>
      let value ← parse valueRef
      parseBinaryEntries parse refs (dict.insert key value)
    | _ => throw .thrown

def parseBinaryDictionary (parse : Int32 → Parsing Value) (refs : List Int32) :
    Parsing (OrderedMap Bytes Value) :=
  let refCount := refs.length / 2
  parseBinaryEntries parse ((refs.take refCount).zip (refs.drop refCount)) .empty

def parseKind (cv : Conversions) (d : PlistHelperData) (parse : Int32 → Parsing Value)
    (objRef : Int32) (headerPosition : ℤ) : ℕ → Parsing Value
  | 0x00 => (.scalar ∘ .bool) <$> parseBinaryBool d headerPosition
  | 0x10 => (fun v => .scalar (.int64 v.1)) <$> parseBinaryInt d headerPosition
  | 0x20 => (.scalar ∘ .double) <$> parseBinaryReal d headerPosition
  | 0x30 => (.scalar ∘ .date) <$> parseBinaryDate cv d headerPosition
  | 0x40 => (.scalar ∘ .data) <$> parseBinaryByteArray d headerPosition
  | 0x50 => (.scalar ∘ .string) <$> parseBinaryString d headerPosition
  | 0x60 => (.scalar ∘ .string) <$> parseBinaryUnicode cv d headerPosition
  | 0xD0 => do
    let refs ← getRefsForContainers d objRef
    (fun dict => .dictionary dict.entries) <$> parseBinaryDictionary parse refs
  | 0xA0 => do
    let refs ← getRefsForContainers d objRef
    .array <$> parseBinaryArray parse refs
  | _ => throw .thrown

def parseObject (cv : Conversions) (d : PlistHelperData) (parse : Int32 → Parsing Value)
    (objRef : Int32) : Parsing Value := do
  let headerPosition ← offsetAt d objRef
  let header ← byteAt d.objectTable headerPosition
  parseKind cv d parse objRef headerPosition (header &&& 0xF0).toNat

/-- With at most so many calls nested. -/
def parseBinary (cv : Conversions) (d : PlistHelperData) : ℕ → Int32 → Parsing Value :=
  BoundedRecursion.limited (.error .deep) (parseObject cv d)

def parseTrailer (trailer : Bytes) : PlistHelperData where
  offsetTable := []
  objectTable := []
  offsetByteSize :=
    (bytesToInt int32 (regulateNullBytes ((trailer.drop 6).take 1) 4) true).toInt.toNat
  offsetTableOffset := bytesToInt int64 ((trailer.drop 24).take 8) false
  objRefSize :=
    (bytesToInt int32 (regulateNullBytes ((trailer.drop 7).take 1) 4) true).toInt.toNat
  refCount := bytesToInt int32 ((trailer.drop 12).take 4) false

/-- Offsets of no bytes lead in front of an empty vector. -/
def parseOffsetTable (offsetByteSize : ℕ) (offsetTableBytes : Bytes) : Parsing (List Int32) :=
  if offsetByteSize = 0 ∧ offsetTableBytes ≠ [] then .error .undefined
  else
    let turns := (offsetTableBytes.length + offsetByteSize - 1) / offsetByteSize
    (List.range turns).mapM fun (i : ℕ) => do
      let temp ← copyVectorRange offsetTableBytes (i * offsetByteSize : ℕ) offsetByteSize
      return bytesToInt int32 (regulateNullBytes temp.reverse 4) true

/-- The parser on the three parts that `readPlist` cuts a payload into. As many calls may
nest as there are objects, and one more: no parse that ends nests more. -/
def parsePlist (cv : Conversions) (trailer objectTable offsetTableBytes : Bytes) :
    Parsing Value := do
  let d := parseTrailer trailer
  let offsetTable ← parseOffsetTable d.offsetByteSize offsetTableBytes
  let d := { d with offsetTable := offsetTable, objectTable := objectTable }
  parseBinary cv d (offsetTable.length + 1) 0

def readPlistBinary (cv : Conversions) (payload : Bytes) : Parsing Value := do
  let trailer ← copyRange payload ((payload.length : ℤ) - 32) 32
  let offsetTableOffset := (parseTrailer trailer).offsetTableOffset.toInt
  let objectTable ← copyRange payload 0 offsetTableOffset
  let offsetTableBytes ← copyRange payload offsetTableOffset
    (payload.length - offsetTableOffset - 32)
  parsePlist cv trailer objectTable offsetTableBytes

end Binary
end SwiftRobot.Plist
