import SwiftRobot.BinaryPlist
import SwiftRobot.XmlPlist

/-!
# The property lists of a platform

The parameters of the reader replaced by the two parsers and the writer. What is left open is
what the code is compiled with and runs on.
-/

namespace SwiftRobot.Plist
open ByteWords Binary XmlPlist

structure Platform where
  conversions : Conversions
  texts : Texts
  convert : Xml.Encoding → Bytes → Bytes
  allocates : ℕ → Bool

mutual

def ofAny : Any → Value
  | .int32 v => .scalar (.int32 v)
  | .int64 v => .scalar (.int64 v)
  | .string s => .scalar (.string s)
  | .dictionary entries => .dictionary (ofEntries entries)
  | .other => .scalar .other

def ofEntries : Dictionary → List (Bytes × Value)
  | [] => []
  | (key, a) :: entries => (key, ofAny a) :: ofEntries entries

end

namespace Platform
variable (p : Platform)

def parseXML (contents : Bytes) : Parsing Value :=
  match readPlistXML p.texts p.convert contents with
  | none => .error .undefined
  | some (.error _) => .error .thrown
  | some (.ok v) => .ok v

def library : Library where
  parseXML contents := (p.parseXML contents).map Value.toAny
  parseBinary trailer objectTable offsetTable :=
    (parsePlist p.conversions trailer objectTable offsetTable).map Value.toAny
  writePlistXML dict := (writePlistXML p.texts (.dictionary (ofEntries dict))).toOption.getD []
  allocates := p.allocates

end Platform

def plainPlatform : Platform := ⟨plainConversions, plainTexts, fun _ s => s, fun _ => true⟩

/-- An offset behind the object table leads out of it. -/
example : plainPlatform.library.parseBinary [0, 0, 0, 0, 0, 0, 1, 1] [] [200] =
    .error .undefined := by rfl

end SwiftRobot.Plist
