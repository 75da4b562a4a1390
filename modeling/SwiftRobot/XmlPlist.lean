import SwiftRobot.Base64
import SwiftRobot.PlistValues
import SwiftRobot.XmlParser

/-!
# Property lists as XML

Every value is an element, a dictionary an element of keys and values in turn. Numbers
are written in decimal; data as base64. A list is read through the first child of its
`plist` element; what is thrown is the text of the error.
-/

namespace SwiftRobot.XmlPlist
open ByteWords Plist Xml

/-- What the code leaves to the C++ streams, to `atof`, and to the calendar functions, which
throw on a date before 1970. -/
structure Texts where
  stringFromDouble : DoubleBits → Bytes
  stringFromFloat : FloatBits → Bytes
  atof : Bytes → DoubleBits
  timeAsXMLConvention : Int64 → Bytes
  setTimeFromXMLConvention : Bytes → Option Int64

def plainTexts : Texts where
  stringFromDouble _ := text "0"
  stringFromFloat _ := text "0"
  atof _ := 0
  timeAsXMLConvention _ := text "2001-01-01T00:00:00Z"
  setTimeFromXMLConvention _ := some 978307200

def digits (n : ℕ) : Bytes := (Nat.toDigits 10 n).map fun c => UInt8.ofNat c.toNat

def stringFromInt (v : ℤ) : Bytes :=
  if v < 0 then char '-' :: digits v.natAbs else digits v.natAbs

def isDigit (c : UInt8) : Bool := char '0' ≤ c && c ≤ char '9'

def isCSpace (c : UInt8) : Bool := isSpace c || c = 11 || c = 12

def leadingNumber (s : Bytes) : ℕ :=
  (s.takeWhile isDigit).foldl (fun n c => 10 * n + (c - char '0').toNat) 0

def saturate (v : ℤ) : Int64 :=
  if v < -9223372036854775808 then Int64.minValue
  else if 9223372036854775807 < v then Int64.maxValue
  else Int64.ofInt v

/-- Too large a number gives the largest one, as in `strtoll`. -/
def atoll (s : Bytes) : Int64 :=
  let s := s.dropWhile isCSpace
  match s with
  | [] => 0
  | c :: s' =>
    if c = char '-' then saturate (-(leadingNumber s' : ℤ))
    else if c = char '+' then saturate (leadingNumber s')
    else saturate (leadingNumber s)

abbrev Throwing := Except Bytes

def writeXMLSimpleNode (name : String) (s : Bytes) : Node :=
  .element (text name) [] [.pcdata (cString s)]

def writeScalar (texts : Texts) : Scalar → Throwing Node
  | .int32 v => .ok (writeXMLSimpleNode "integer" (stringFromInt v.toInt))
  | .int64 v => .ok (writeXMLSimpleNode "integer" (stringFromInt v.toInt))
  | .short v => .ok (writeXMLSimpleNode "integer" (stringFromInt v.toInt))
  | .string s => .ok (writeXMLSimpleNode "string" s)
  | .data bytes => .ok (writeXMLSimpleNode "data" (Base64.base64Encode bytes))
  | .double v => .ok (writeXMLSimpleNode "real" (texts.stringFromDouble v))
  | .float v => .ok (writeXMLSimpleNode "real" (texts.stringFromFloat v))
  | .date time => .ok (writeXMLSimpleNode "date" (texts.timeAsXMLConvention time))
  | .bool value => .ok (.element (if value then text "true" else text "false") [] [])
  | .other => .error (text "Plist Error: Can't serialize type ")

mutual

def writeXMLNode (texts : Texts) : Value → Throwing Node
  | .scalar s => writeScalar texts s
  | .array items => (writeXMLArray texts items).map (.element (text "array") [])
  | .dictionary entries => (writeXMLDictionary texts entries).map (.element (text "dict") [])

def writeXMLArray (texts : Texts) : List Value → Throwing (List Node)
  | [] => .ok []
  | item :: items =>
    match writeXMLNode texts item with
    | .error message => .error message
    | .ok n => (writeXMLArray texts items).map (n :: ·)

def writeXMLDictionary (texts : Texts) : List (Bytes × Value) → Throwing (List Node)
  | [] => .ok []
  | (key, value) :: entries =>
    match writeXMLNode texts value with
    | .error message => .error message
    | .ok n => (writeXMLDictionary texts entries).map fun nodes =>
      writeXMLSimpleNode "key" key :: n :: nodes

end

def plistDocument (message : Node) : List Node :=
  [.declaration [(text "version", text "1.0"), (text "encoding", text "UTF-8")],
    .doctype (text ("plist PUBLIC \"-//Apple//DTD PLIST 1.0//EN\" " ++
      "\"http://www.apple.com/DTDs/PropertyList-1.0.dtd\"")),
    .element (text "plist") [(text "version", text "1.0")] [message]]

def writePlistXML (texts : Texts) (message : Value) : Throwing Bytes :=
  (writeXMLNode texts message).map fun n => save (plistDocument n)

mutual

def parse (texts : Texts) : Node → Throwing Value
  | .element name attributes children =>
    let value := (Node.element name attributes children).firstValue
    if name = text "dict" then
      (parseDictionary texts OrderedMap.empty children).map fun dict => .dictionary dict.entries
    else if name = text "array" then (parseArray texts children).map .array
    else if name = text "string" then .ok (.scalar (.string value))
    else if name = text "integer" then .ok (.scalar (.int64 (atoll value)))
    else if name = text "real" then .ok (.scalar (.double (texts.atof value)))
    else if name = text "false" then .ok (.scalar (.bool false))
    else if name = text "true" then .ok (.scalar (.bool true))
    else if name = text "data" then .ok (.scalar (.data (Base64.base64Decode value)))
    else if name = text "date" then
      match texts.setTimeFromXMLConvention value with
      | some time => .ok (.scalar (.date time))
      | none => .error (text "Plist::Date::set() date invalid")
    else .error (text "Plist: XML unknown node type " ++ name)
  | n => .error (text "Plist: XML unknown node type " ++ n.name)

def parseArray (texts : Texts) : List Node → Throwing (List Value)
  | [] => .ok []
  | n :: nodes =>
    match parse texts n with
    | .error message => .error message
    | .ok value => (parseArray texts nodes).map (value :: ·)

def parseDictionary (texts : Texts) (dict : OrderedMap Bytes Value) :
    List Node → Throwing (OrderedMap Bytes Value)
  | [] => .ok dict
  | [n] =>
    if n.name = text "key" then
      .error (text "Plist: XML dictionary value expected for key " ++ n.firstValue ++
        text "but not found")
    else .error (text "Plist: XML dictionary key expected but not found")
  | n :: value :: nodes =>
    if n.name = text "key" then
      if value.name = text "key" then
        .error (text "Plist: XML dictionary value expected for key " ++ n.firstValue ++
          text "but found another key node")
      else
        match parse texts value with
        | .error message => .error message
        | .ok v => parseDictionary texts (dict.insert n.firstValue v) nodes
    else .error (text "Plist: XML dictionary key expected but not found")

end

/-- The branch of `readPlist` for a list that is not binary; nothing is said where the document
is left. -/
def readPlistXML (texts : Texts) (convert : Encoding → Bytes → Bytes) (contents : Bytes) :
    Option (Throwing Value) :=
  match loadBuffer convert contents with
  | .error .outside => none
  | .error _ => some (.error (text "Plist: XML parsed with error "))
  | .ok doc =>
    match (doc.find? fun n => n.name = text "plist").bind fun n => n.children.head? with
    | none => some (.error (text "Plist: XML unknown node type "))
    | some rootNode => some (parse texts rootNode)

end SwiftRobot.XmlPlist
