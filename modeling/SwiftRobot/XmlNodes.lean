import SwiftRobot.Plist

/-!
# XML documents, and how they are saved

The nodes of `pugixml` that a property list is made of, and `xml_document::save` as it
is called here: one tab for each level from the second on, no byte order mark, UTF-8
as it stands. Names and values are C strings.
-/

namespace SwiftRobot.Xml
open ByteWords Plist

/-- What is left of a text where it is handed over as a C string. -/
def cString (s : Bytes) : Bytes := s.takeWhile (· ≠ 0)

abbrev Attribute := Bytes × Bytes

inductive Node
  | element (name : Bytes) (attributes : List Attribute) (children : List Node)
  | pcdata (value : Bytes)
  | cdata (value : Bytes)
  | declaration (attributes : List Attribute)
  | doctype (value : Bytes)

namespace Node

/-- Induction over a node and everything inside. -/
@[induction_eliminator]
theorem inductionOn {p : Node → Prop}
    (element : ∀ name attributes children, (∀ n ∈ children, p n) →
      p (.element name attributes children))
    (pcdata : ∀ value, p (.pcdata value)) (cdata : ∀ value, p (.cdata value))
    (declaration : ∀ attributes, p (.declaration attributes))
    (doctype : ∀ value, p (.doctype value)) (n : Node) : p n := by
  refine Node.rec (motive_1 := p) (motive_2 := fun children => ∀ n ∈ children, p n)
    element pcdata cdata declaration doctype ?_ ?_ n
  all_goals simp +contextual

def name : Node → Bytes
  | element name _ _ => name
  | declaration _ => text "xml"
  | _ => []

def value : Node → Bytes
  | pcdata value | cdata value | doctype value => value
  | _ => []

def children : Node → List Node
  | element _ _ children => children
  | _ => []

def firstValue (n : Node) : Bytes := (n.children.head?.map value).getD []

end Node

def char (c : Char) : UInt8 := UInt8.ofNat c.toNat

def isSpace (c : UInt8) : Bool := c = 32 || c = 9 || c = 10 || c = 13

def isStartSymbol (c : UInt8) : Bool :=
  128 ≤ c || (char 'a' ≤ c && c ≤ char 'z') || (char 'A' ≤ c && c ≤ char 'Z') ||
    c = char '_' || c = char ':'

def isSymbol (c : UInt8) : Bool :=
  isStartSymbol c || (char '0' ≤ c && c ≤ char '9') || c = char '-' || c = char '.'

def specialPcdata (c : UInt8) : Bool :=
  (c < 32 && c ≠ 9 && c ≠ 10 && c ≠ 13) || c = char '&' || c = char '<' || c = char '>'

def specialAttr (c : UInt8) : Bool :=
  (c < 32 && c ≠ 9) || c = char '&' || c = char '<' || c = char '>' || c = char '"'

def escaped (c : UInt8) : Bytes :=
  if c = char '&' then text "&amp;"
  else if c = char '<' then text "&lt;"
  else if c = char '>' then text "&gt;"
  else if c = char '"' then text "&quot;"
  else text "&#" ++ [c / 10 + char '0', c % 10 + char '0', char ';']

def textOutputEscaped (special : UInt8 → Bool) (s : Bytes) : Bytes :=
  s.flatMap fun c => if special c then escaped c else [c]

def orAnonymous (name : Bytes) : Bytes := if name = [] then text ":anonymous" else name

def outputAttribute (a : Attribute) : Bytes :=
  char ' ' :: (orAnonymous a.1 ++ (text "=\"" ++ (textOutputEscaped specialAttr a.2 ++ [char '"'])))

def outputAttributes (attributes : List Attribute) : Bytes := attributes.flatMap outputAttribute

/-- A section ends at `]]>`: what the text has of it is shared by two sections. -/
def outputCdata : Bytes → Bytes
  | [] => text "]]>"
  | 93 :: 93 :: 62 :: s => text "]]" ++ (text "]]><![CDATA[" ++ outputCdata (62 :: s))
  | c :: s => c :: outputCdata s

def indentation (depth : ℕ) : Bytes := List.replicate (depth - 1) 9

def lineEnd : Bytes := [10]

mutual

def nodeOutput (depth : ℕ) : Node → Bytes
  | .element name attributes children =>
    let name := orAnonymous name
    indentation depth ++ (char '<' :: (name ++ (outputAttributes attributes ++
      match children with
      | [] => text " />" ++ lineEnd
      | [.pcdata value] =>
        char '>' :: (textOutputEscaped specialPcdata value ++
          (text "</" ++ (name ++ (char '>' :: lineEnd))))
      | [.cdata value] =>
        char '>' :: (text "<![CDATA[" ++ (outputCdata value ++
          (text "</" ++ (name ++ (char '>' :: lineEnd)))))
      | children =>
        char '>' :: (lineEnd ++ (nodesOutput (depth + 1) children ++
          (indentation depth ++ (text "</" ++ (name ++ (char '>' :: lineEnd)))))))))
  | .pcdata value => indentation depth ++ (textOutputEscaped specialPcdata value ++ lineEnd)
  | .cdata value => indentation depth ++ (text "<![CDATA[" ++ (outputCdata value ++ lineEnd))
  | .declaration attributes =>
    indentation depth ++ (text "<?xml" ++ (outputAttributes attributes ++ (text "?>" ++ lineEnd)))
  | .doctype value =>
    indentation depth ++ (text "<!DOCTYPE" ++
      ((if value = [] then [] else char ' ' :: value) ++ (char '>' :: lineEnd)))

def nodesOutput (depth : ℕ) : List Node → Bytes
  | [] => []
  | n :: nodes => nodeOutput depth n ++ nodesOutput depth nodes

end

def hasDeclaration : List Node → Bool
  | [] => false
  | .declaration _ :: _ => true
  | .element _ _ _ :: _ => false
  | _ :: nodes => hasDeclaration nodes

def save (doc : List Node) : Bytes :=
  (if hasDeclaration doc then [] else text "<?xml version=\"1.0\"?>" ++ lineEnd) ++
    nodesOutput 0 doc

end SwiftRobot.Xml
