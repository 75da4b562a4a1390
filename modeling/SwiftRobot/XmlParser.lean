import SwiftRobot.XmlNodes
import SwiftRobot.Support.Loops

/-!
# How an XML document is loaded

`xml_parser::parse` with the default options: CDATA sections are kept, escapes and ends
of lines are converted, comments, processing instructions, declarations and the document
type are passed over. The loops of the parser that build a text are modes here, and what
goes into a text is collected instead of being moved over the gaps in it. The last byte
of the buffer, `endch`, was replaced by the null that ends the string.
-/

namespace SwiftRobot.Xml
open ByteWords Plist Loops

/-- `xml_parse_status`; `outside` stands for a read behind the buffer, and `internalError`
for a parse that was given too few turns. -/
inductive Status
  | internalError
  | unrecognizedTag
  | badPi
  | badComment
  | badCdata
  | badDoctype
  | badStartElement
  | badAttribute
  | badEndElement
  | endElementMismatch
  | outside
  deriving DecidableEq, Repr

def utf8 (ch : UInt32) : Bytes :=
  let lead (mark shift : UInt32) : UInt8 := (mark ||| (ch >>> shift)).toUInt8
  let trail (shift : UInt32) : UInt8 := (0x80 ||| ((ch >>> shift) &&& 0x3F)).toUInt8
  if ch < 0x80 then [ch.toUInt8]
  else if ch < 0x800 then [lead 0xC0 6, trail 0]
  else if ch < 0x10000 then [lead 0xE0 12, trail 6, trail 0]
  else [lead 0xF0 18, trail 12, trail 6, trail 0]

def decimalDigit (c : UInt8) : Option UInt32 :=
  if char '0' ≤ c ∧ c ≤ char '9' then some (c - char '0').toUInt32 else none

def hexDigit (c : UInt8) : Option UInt32 :=
  if char '0' ≤ c ∧ c ≤ char '9' then some (c - char '0').toUInt32
  else if char 'a' ≤ (c ||| 32) ∧ (c ||| 32) ≤ char 'f' then
    some ((c ||| 32) - char 'a' + 10).toUInt32
  else none

def scanCode (digit : UInt8 → Option UInt32) (base ucsc : UInt32) :
    Bytes → Option (UInt32 × Bytes)
  | [] => none
  | c :: s =>
    match digit c with
    | some d => scanCode digit base (base * ucsc + d) s
    | none => if c = char ';' then some (ucsc, s) else none

def characterCode (digit : UInt8 → Option UInt32) (base : UInt32) (s : Bytes) :
    Option (Bytes × Bytes) :=
  if s.head? = some (char ';') then none
  else (scanCode digit base 0 s).map fun r => (utf8 r.1, r.2)

def stripPrefix (start s : Bytes) : Option Bytes :=
  if start <+: s then some (s.drop start.length) else none

def knownEscape (s : Bytes) : Option (Bytes × Bytes) :=
  match stripPrefix (text "#x") s with
  | some s => characterCode hexDigit 16 s
  | none =>
    match stripPrefix (text "#") s with
    | some s => characterCode decimalDigit 10 s
    | none =>
      [(text "amp;", char '&'), (text "apos;", char '\''), (text "gt;", char '>'),
        (text "lt;", char '<'), (text "quot;", char '"')].findSome? fun e =>
          (stripPrefix e.1 s).map fun s => ([e.2], s)

/-- What an ampersand and the text behind it stand for, and what is left of the text. Where
nothing known follows, the ampersand stands for itself: what was looked at is plain text. -/
def strconvEscape (s : Bytes) : Bytes × Bytes := (knownEscape s).getD ([char '&'], s)

inductive Mode
  | content
  -- behind the `<` of a tag
  | tag
  -- between the attributes of the element that was opened last
  | attributes
  | value (name : Bytes) (quote : UInt8) (read : Bytes)
  | pcdata (read : Bytes)
  | cdata (read : Bytes)
  -- in so many groups of a document type, and in so many sections to ignore
  | doctype (groups ignores : ℕ)

structure OpenElement where
  name : Bytes
  attributes : List Attribute
  children : List Node

/-- The cursor is the element that was opened last, or the document. A null ends `rest`; the
strings `behind` it are what the buffer has after that null, up to its last byte. -/
structure Parser where
  mode : Mode
  rest : Bytes
  opened : List OpenElement
  top : List Node
  behind : List Bytes

namespace Parser

def goto (p : Parser) (mode : Mode) (rest : Bytes) : Parser := { p with mode := mode, rest := rest }

def passNull (p : Parser) (mode : Mode) : Except Status Parser :=
  match p.behind with
  | [] => .error .outside
  | rest :: behind => .ok { p with mode := mode, rest := rest, behind := behind }

def append (p : Parser) (n : Node) : Parser :=
  match p.opened with
  | [] => { p with top := p.top ++ [n] }
  | o :: opened => { p with opened := { o with children := o.children ++ [n] } :: opened }

def push (p : Parser) (name : Bytes) : Parser := { p with opened := ⟨name, [], []⟩ :: p.opened }

def pop (p : Parser) : Parser :=
  match p.opened with
  | [] => p
  | o :: opened => ({ p with opened := opened }).append (.element o.name o.attributes o.children)

def addAttribute (p : Parser) (a : Attribute) : Parser :=
  match p.opened with
  | [] => p
  | o :: opened => { p with opened := { o with attributes := o.attributes ++ [a] } :: opened }

end Parser

def scanFor (stop : Bytes → Bool) : Bytes → Bytes
  | [] => []
  | c :: s => if stop (c :: s) then c :: s else scanFor stop s

section
variable (endch : UInt8)

def endsWith (s : Bytes) (e : UInt8) : Bool :=
  match s with
  | [] => endch = e
  | c :: _ => c = e

abbrev Parsed := Except Status Parser

def contentStep (p : Parser) (c : UInt8) (s : Bytes) : Parsed :=
  if c = char '<' then .ok (p.goto .tag s)
  else
    let behind := (c :: s).dropWhile isSpace
    if behind.head? = some (char '<') then .ok (p.goto .content behind)
    else if p.opened.isEmpty then
      match (c :: s).dropWhile (· ≠ char '<') with
      | [] => .ok (p.goto .content [])
      | _ :: s => .ok (p.goto .tag s)
    else .ok (p.goto (.pcdata []) (c :: s))

def startTag (p : Parser) (s : Bytes) : Parsed :=
  let p := p.push (s.takeWhile isSymbol)
  match s.dropWhile isSymbol with
  | [] => if endch = char '>' then .ok (p.goto .content []) else .error .badStartElement
  | ch :: s =>
    if ch = char '>' then .ok (p.goto .content s)
    else if isSpace ch then .ok (p.goto .attributes s)
    else if ch = char '/' ∧ endsWith endch s (char '>') then .ok (p.pop.goto .content (s.drop 1))
    else .error .badStartElement

def endTag (p : Parser) (s : Bytes) : Parsed :=
  match p.opened with
  | [] => .error .endElementMismatch
  | o :: _ =>
    if s.takeWhile isSymbol = o.name then
      match (s.dropWhile isSymbol).dropWhile isSpace with
      | [] => if endch = char '>' then .ok (p.pop.goto .content []) else .error .badEndElement
      | c :: s => if c = char '>' then .ok (p.pop.goto .content s) else .error .badEndElement
    else if s ++ [endch] = o.name then .error .badEndElement
    else .error .endElementMismatch

def parseQuestion (p : Parser) (s : Bytes) : Parsed :=
  if (s.head?.map isStartSymbol).getD false then
    match scanFor (fun s => s.head? = some (char '?') && endsWith endch s.tail (char '>'))
        (s.dropWhile isSymbol) with
    | [] => .error .badPi
    | _ :: s => .ok (p.goto .content (s.drop 1))
  else .error .badPi

def parseExclamation (p : Parser) (s : Bytes) : Parsed :=
  if s.head? = some (char '-') then
    match stripPrefix (text "--") s with
    | none => .error .badComment
    | some s =>
      match scanFor (fun s => text "--" <+: s && endsWith endch (s.drop 2) (char '>')) s with
      | [] => .error .badComment
      | s => .ok (p.goto .content (s.drop 3))
  else if s.head? = some (char '[') then
    match stripPrefix (text "[CDATA[") s with
    | none => .error .badCdata
    | some s => .ok (p.goto (.cdata []) s)
  else if text "DOCTYP" <+: s ∧ endsWith endch (s.drop 6) (char 'E') then
    if p.opened.isEmpty then .ok (p.goto (.doctype 1 0) s) else .error .badDoctype
  else if s = [] ∧ endch = char '-' then .error .badComment
  else if s = [] ∧ endch = char '[' then .error .badCdata
  else .error .unrecognizedTag

def tagStep (p : Parser) : Bytes → Parsed
  | [] => .error (if endch = char '?' then .badPi else .unrecognizedTag)
  | c :: s =>
    if isStartSymbol c then startTag endch p (c :: s)
    else if c = char '/' then endTag endch p s
    else if c = char '?' then parseQuestion endch p s
    else if c = char '!' then parseExclamation endch p s
    else .error .unrecognizedTag

def attributeStep (p : Parser) (s : Bytes) : Parsed :=
  match s.dropWhile isSymbol with
  | [] | [_] => .error .badAttribute
  | ch :: behind =>
    match if isSpace ch then behind.dropWhile isSpace else ch :: behind with
    | [] => .error .badAttribute
    | ch :: s' =>
      match s'.dropWhile isSpace with
      | [] => .error .badAttribute
      | quote :: s' =>
        if ch = char '=' ∧ (quote = char '"' ∨ quote = char '\'') then
          .ok (p.goto (.value (s.takeWhile isSymbol) quote []) s')
        else .error .badAttribute

def attributesStep (p : Parser) (s : Bytes) : Parsed :=
  match s.dropWhile isSpace with
  | [] => if endch = char '>' then .ok (p.goto .content []) else .error .badStartElement
  | c :: s =>
    if isStartSymbol c then attributeStep p (c :: s)
    else if c = char '/' ∧ endsWith endch s (char '>') then .ok (p.pop.goto .content (s.drop 1))
    else if c = char '>' then .ok (p.goto .content s)
    else .error .badStartElement

def behindReturn (s : Bytes) : Bytes := if s.head? = some 10 then s.drop 1 else s

def valueStep (p : Parser) (name : Bytes) (quote : UInt8) (read : Bytes) : Bytes → Parsed
  | [] => .error .badAttribute
  | c :: s =>
    if c = quote then
      if (s.head?.map isStartSymbol).getD false then .error .badAttribute
      else .ok ((p.addAttribute (name, cString read)).goto .attributes s)
    else if c = 13 then .ok (p.goto (.value name quote (read ++ [32])) (behindReturn s))
    else if isSpace c then .ok (p.goto (.value name quote (read ++ [32])) s)
    else if c = char '&' then
      .ok (p.goto (.value name quote (read ++ (strconvEscape s).1)) (strconvEscape s).2)
    else .ok (p.goto (.value name quote (read ++ [c])) s)

def pcdataStep (p : Parser) (read : Bytes) : Bytes → Parsed
  | [] => .error .endElementMismatch
  | c :: s =>
    if c = char '<' then
      .ok ((p.append (.pcdata (cString read))).goto (if s = [] then .content else .tag) s)
    else if c = 13 then .ok (p.goto (.pcdata (read ++ [10])) (behindReturn s))
    else if c = char '&' then
      .ok (p.goto (.pcdata (read ++ (strconvEscape s).1)) (strconvEscape s).2)
    else .ok (p.goto (.pcdata (read ++ [c])) s)

def cdataStep (p : Parser) (read : Bytes) : Bytes → Parsed
  | [] => .error .badCdata
  | c :: s =>
    if c = 13 then .ok (p.goto (.cdata (read ++ [10])) (behindReturn s))
    else if text "]]" <+: c :: s ∧ endsWith endch ((c :: s).drop 2) (char '>') then
      .ok ((p.append (.cdata read)).goto .content (s.drop 2))
    else .ok (p.goto (.cdata (read ++ [c])) s)

/-- What stands in quotes, an instruction or a comment; behind a comment one character more
is passed over, whatever it is: nothing is left where it is the null. -/
def doctypePrimitive (s : Bytes) : Except Status (Option Bytes) :=
  match s with
  | [] => .error .badDoctype
  | c :: s' =>
    if c = char '"' ∨ c = char '\'' then
      match scanFor (fun s => s.head? = some c) s' with
      | [] => .error .badDoctype
      | _ :: s' => .ok (some s')
    else
      match stripPrefix (text "<?") s with
      | some s => match scanFor (text "?>" <+: ·) s with
        | [] => .error .badDoctype
        | s => .ok (some (s.drop 2))
      | none =>
        match stripPrefix (text "<!--") s with
        | some s => match scanFor (text "-->" <+: ·) s with
          | [] => .error .badDoctype
          | s => .ok (if s.length = 3 then none else some (s.drop 4))
        | none => .error .badDoctype

def ignoreStep (p : Parser) (groups ignores : ℕ) : Bytes → Parsed
  | [] => .error .badDoctype
  | c :: s =>
    if text "<![" <+: c :: s then .ok (p.goto (.doctype groups (ignores + 1)) s)
    else if text "]]>" <+: c :: s then .ok (p.goto (.doctype groups (ignores - 1)) (s.drop 2))
    else .ok (p.goto (.doctype groups ignores) s)

def groupStep (p : Parser) (groups : ℕ) : Bytes → Parsed
  | [] =>
    if groups = 1 ∧ endch = char '>' then .ok (p.goto .content []) else .error .badDoctype
  | c :: s =>
    if text "<!" <+: c :: s ∧ ¬ text "<!-" <+: c :: s then
      if text "<![" <+: c :: s then .ok (p.goto (.doctype groups 1) s)
      else .ok (p.goto (.doctype (groups + 1) 0) s)
    else if c = char '<' ∨ c = char '"' ∨ c = char '\'' then
      match doctypePrimitive (c :: s) with
      | .error status => .error status
      | .ok none => p.passNull (.doctype groups 0)
      | .ok (some s) => .ok (p.goto (.doctype groups 0) s)
    else if c = char '>' then
      .ok (p.goto (if groups = 1 then .content else .doctype (groups - 1) 0) s)
    else .ok (p.goto (.doctype groups 0) s)

def step (p : Parser) : Parsed :=
  match p.mode with
  | .content =>
    match p.rest with
    | [] => .ok p
    | c :: s => contentStep p c s
  | .tag => tagStep endch p p.rest
  | .attributes => attributesStep endch p p.rest
  | .value name quote read => valueStep p name quote read p.rest
  | .pcdata read => pcdataStep p read p.rest
  | .cdata read => cdataStep endch p read p.rest
  | .doctype groups 0 => groupStep endch p groups p.rest
  | .doctype groups ignores => ignoreStep p groups ignores p.rest

def Parser.ended (p : Parser) : Bool :=
  match p.mode, p.rest with
  | .content, [] => true
  | _, _ => false

def turn (p : Parser) : Except Status (Turn Parser (List Node)) :=
  if p.ended then if p.opened.isEmpty then .ok (.done p.top) else .error .endElementMismatch
  else (step endch p).map .again

end

def behindNull : Bytes → List Bytes
  | [] => []
  | c :: s => if c = 0 then cString s :: behindNull s else behindNull s

def Parser.initial (buffer : Bytes) : Parser := ⟨.content, cString buffer, [], [], behindNull buffer⟩

def parse (buffer : Bytes) : Except Status (List Node) :=
  match buffer.getLast? with
  | none => .ok []
  | some endch =>
    match loop (turn endch) .internalError (3 * buffer.length) (.initial buffer.dropLast) with
    | .error status => .error status
    | .ok doc => if endch = char '<' then .error .unrecognizedTag else .ok doc

inductive Encoding
  | utf8
  | utf16_le
  | utf16_be
  | utf32_le
  | utf32_be
  deriving DecidableEq, Repr

def guessBufferEncoding (d0 d1 d2 d3 : UInt8) : Encoding :=
  if d0 = 0 ∧ d1 = 0 ∧ d2 = 0xfe ∧ d3 = 0xff then .utf32_be
  else if d0 = 0xff ∧ d1 = 0xfe ∧ d2 = 0 ∧ d3 = 0 then .utf32_le
  else if d0 = 0xfe ∧ d1 = 0xff then .utf16_be
  else if d0 = 0xff ∧ d1 = 0xfe then .utf16_le
  else if d0 = 0xef ∧ d1 = 0xbb ∧ d2 = 0xbf then .utf8
  else if d0 = 0 ∧ d1 = 0 ∧ d2 = 0 ∧ d3 = 0x3c then .utf32_be
  else if d0 = 0x3c ∧ d1 = 0 ∧ d2 = 0 ∧ d3 = 0 then .utf32_le
  else if d0 = 0 ∧ d1 = 0x3c ∧ d2 = 0 ∧ d3 = 0x3f then .utf16_be
  else if d0 = 0x3c ∧ d1 = 0 ∧ d2 = 0x3f ∧ d3 = 0 then .utf16_le
  else if d0 = 0x3c ∧ d1 = 0x3f ∧ d2 = 0x78 ∧ d3 = 0x6d then .utf8
  else if d0 = 0 ∧ d1 = 0x3c then .utf16_be
  else if d0 = 0x3c ∧ d1 = 0 then .utf16_le
  else .utf8

def getBufferEncoding (contents : Bytes) : Encoding :=
  match contents with
  | d0 :: d1 :: d2 :: d3 :: _ => guessBufferEncoding d0 d1 d2 d3
  | _ => .utf8

/-- `convert` turns a text in another encoding into UTF-8. -/
def loadBuffer (convert : Encoding → Bytes → Bytes) (contents : Bytes) :
    Except Status (List Node) :=
  match getBufferEncoding contents with
  | .utf8 => parse contents
  | encoding => parse (convert encoding contents)

def Mode.weight : Mode → ℕ
  | .value _ _ _ | .pcdata _ | .cdata _ => 0
  | .content | .tag => 1
  | .attributes | .doctype _ _ => 2

def Parser.left (p : Parser) : ℕ := 3 * (p.behind.map List.length).sum

def Parser.measure (p : Parser) : ℕ := 3 * p.rest.length + p.mode.weight + p.left

@[simp] theorem Parser.left_push (p : Parser) (name : Bytes) : (p.push name).left = p.left := rfl

@[simp] theorem Parser.left_append (p : Parser) (n : Node) : (p.append n).left = p.left := by
  unfold Parser.append
  split <;> rfl

@[simp] theorem Parser.left_pop (p : Parser) : p.pop.left = p.left := by
  unfold Parser.pop
  split
  · rfl
  · rw [Parser.left_append]
    rfl

@[simp] theorem Parser.left_addAttribute (p : Parser) (a : Attribute) :
    (p.addAttribute a).left = p.left := by
  unfold Parser.addAttribute
  split <;> rfl

@[simp] theorem Parser.measure_goto (p : Parser) (mode : Mode) (rest : Bytes) :
    (p.goto mode rest).measure = 3 * rest.length + mode.weight + p.left := rfl

theorem scanFor_length_le (stop : Bytes → Bool) (s : Bytes) :
    (scanFor stop s).length ≤ s.length := by
  induction s with
  | nil => rfl
  | cons c s ih =>
    rw [scanFor]
    split_ifs
    · rfl
    · exact ih.trans (Nat.le_succ _)

theorem dropWhile_length_le (q : UInt8 → Bool) (s : Bytes) :
    (s.dropWhile q).length ≤ s.length :=
  (List.dropWhile_suffix q).length_le

theorem behindReturn_length_le (s : Bytes) : (behindReturn s).length ≤ s.length := by
  rw [behindReturn]
  split_ifs
  · simp
  · rfl

theorem stripPrefix_length {start s s' : Bytes} (h : stripPrefix start s = some s') :
    s'.length ≤ s.length := by
  rw [stripPrefix] at h
  split_ifs at h
  rw [← Option.some.inj h, List.length_drop]
  exact Nat.sub_le _ _

theorem characterCode_length {digit : UInt8 → Option UInt32} {base : UInt32} {s : Bytes}
    {r : Bytes × Bytes} (h : characterCode digit base s = some r) : r.2.length ≤ s.length := by
  have hscan : ∀ ucsc (s : Bytes) (r : UInt32 × Bytes), scanCode digit base ucsc s = some r →
      r.2.length ≤ s.length := by
    intro ucsc s
    induction s generalizing ucsc with
    | nil => simp [scanCode]
    | cons c s ih =>
      intro r hr
      rw [scanCode] at hr
      split at hr
      next => exact (ih _ r hr).trans (Nat.le_succ _)
      next =>
        split_ifs at hr
        rw [← Option.some.inj hr]
        exact Nat.le_succ _
  rw [characterCode] at h
  split_ifs at h
  obtain ⟨r', hr', rfl⟩ := Option.map_eq_some_iff.mp h
  exact hscan 0 s r' hr'

theorem strconvEscape_length_le (s : Bytes) : (strconvEscape s).2.length ≤ s.length := by
  rw [strconvEscape]
  cases hknown : knownEscape s with
  | none => exact le_refl _
  | some r =>
    rw [Option.getD_some]
    rw [knownEscape] at hknown
    split at hknown
    next s' hstrip => exact (characterCode_length hknown).trans (stripPrefix_length hstrip)
    next =>
      split at hknown
      next s' hstrip => exact (characterCode_length hknown).trans (stripPrefix_length hstrip)
      next =>
        obtain ⟨e, -, he⟩ := List.exists_of_findSome?_eq_some hknown
        obtain ⟨s', hstrip, rfl⟩ := Option.map_eq_some_iff.mp he
        exact stripPrefix_length hstrip

section
variable {endch : UInt8} {p p' : Parser}

theorem contentStep_measure {c : UInt8} {s : Bytes} (h : contentStep p c s = .ok p') :
    p'.measure < 3 * (c :: s).length + 1 + p.left := by
  rw [contentStep] at h
  simp only at h
  split_ifs at h with hlt hbehind hopened
  · cases h
    simp only [Parser.measure_goto, Mode.weight, List.length_cons]
    omega
  · -- the first character is not the `<` that was found, so it was taken
    cases h
    have hle := dropWhile_length_le isSpace s
    cases hspace : isSpace c with
    | true =>
      rw [List.dropWhile_cons_of_pos hspace]
      simp only [Parser.measure_goto, Mode.weight, List.length_cons]
      omega
    | false =>
      rw [List.dropWhile_cons_of_neg (by simp [hspace])] at hbehind
      exact absurd (Option.some.inj hbehind) hlt
  · have hle := dropWhile_length_le (· ≠ char '<') (c :: s)
    split at h
    next =>
      cases h
      simp [Mode.weight]
    next s' hdrop =>
      cases h
      rw [hdrop, List.length_cons] at hle
      simp only [Parser.measure_goto, Mode.weight]
      omega
  · cases h
    simp [Mode.weight]

theorem startTag_measure {c : UInt8} {s : Bytes} (hc : isStartSymbol c = true)
    (h : startTag endch p (c :: s) = .ok p') : p'.measure < 3 * (c :: s).length + 1 + p.left := by
  have hsymbol : isSymbol c = true := by simp [isSymbol, hc]
  rw [startTag, List.dropWhile_cons_of_pos hsymbol] at h
  have hle := dropWhile_length_le isSymbol s
  split at h
  next =>
    split_ifs at h
    cases h
    simp [Mode.weight]
  next ch s' hdrop =>
    rw [hdrop, List.length_cons] at hle
    split_ifs at h <;> cases h <;>
      simp only [Parser.measure_goto, Parser.left_push, Parser.left_pop, Mode.weight,
        List.length_cons, List.length_drop] <;> omega

theorem endTag_measure {s : Bytes} (h : endTag endch p s = .ok p') :
    p'.measure < 3 * s.length + 4 + p.left := by
  have hle := (dropWhile_length_le isSpace _).trans (dropWhile_length_le isSymbol s)
  rw [endTag] at h
  split at h
  next => cases h
  next =>
    split at h
    next =>
      split at h
      next =>
        split_ifs at h
        cases h
        simp [Mode.weight]
      next c s' hdrop =>
        rw [hdrop, List.length_cons] at hle
        split_ifs at h
        cases h
        simp only [Parser.measure_goto, Parser.left_pop, Mode.weight]
        omega
    next =>
      split_ifs at h

theorem parseQuestion_measure {s : Bytes} (h : parseQuestion endch p s = .ok p') :
    p'.measure < 3 * s.length + 4 + p.left := by
  rw [parseQuestion] at h
  split_ifs at h
  have hle := (scanFor_length_le (fun s => s.head? = some (char '?') &&
    endsWith endch s.tail (char '>')) _).trans (dropWhile_length_le isSymbol s)
  split at h
  next => cases h
  next c s' hscan =>
    cases h
    rw [hscan, List.length_cons] at hle
    simp only [Parser.measure_goto, Mode.weight, List.length_drop]
    omega

theorem parseExclamation_measure {s : Bytes} (h : parseExclamation endch p s = .ok p') :
    p'.measure < 3 * s.length + 4 + p.left := by
  rw [parseExclamation] at h
  split_ifs at h with hdash hbracket hdoctype hopened
  · split at h
    next => cases h
    next s' hstrip =>
      have hle := (scanFor_length_le (fun s => text "--" <+: s &&
        endsWith endch (s.drop 2) (char '>')) s').trans (stripPrefix_length hstrip)
      split at h
      next => cases h
      next =>
        cases h
        simp only [Parser.measure_goto, Mode.weight, List.length_drop]
        omega
  · split at h
    next => cases h
    next s' hstrip =>
      have hle := stripPrefix_length hstrip
      cases h
      simp only [Parser.measure_goto, Mode.weight]
      omega
  · cases h
    simp only [Parser.measure_goto, Mode.weight]
    omega

theorem tagStep_measure {s : Bytes} (h : tagStep endch p s = .ok p') :
    p'.measure < 3 * s.length + 1 + p.left := by
  rw [tagStep.eq_def] at h
  split at h
  next => cases h
  next c s =>
    rw [List.length_cons]
    split_ifs at h with hstart
    · exact startTag_measure hstart h
    · exact endTag_measure h
    · exact parseQuestion_measure h
    · exact parseExclamation_measure h

theorem attributeStep_measure {c : UInt8} {s : Bytes} (hc : isStartSymbol c = true)
    (h : attributeStep p (c :: s) = .ok p') : p'.measure < 3 * s.length + 2 + p.left := by
  have hsymbol : isSymbol c = true := by simp [isSymbol, hc]
  rw [attributeStep, List.dropWhile_cons_of_pos hsymbol] at h
  have hle := dropWhile_length_le isSymbol s
  split at h
  next => cases h
  next => cases h
  next ch behind _ hdrop =>
    rw [hdrop, List.length_cons] at hle
    have hbehind : (if isSpace ch = true then behind.dropWhile isSpace else ch :: behind).length ≤
        s.length := by
      split_ifs
      · have hle' := dropWhile_length_le isSpace behind
        omega
      · simpa using hle
    split at h
    next => cases h
    next ch' s' hs' =>
      rw [hs', List.length_cons] at hbehind
      have hle' := dropWhile_length_le isSpace s'
      split at h
      next => cases h
      next quote s'' hs'' =>
        rw [hs'', List.length_cons] at hle'
        split_ifs at h
        cases h
        simp only [Parser.measure_goto, Mode.weight]
        omega

theorem attributesStep_measure {s : Bytes} (h : attributesStep endch p s = .ok p') :
    p'.measure < 3 * s.length + 2 + p.left := by
  have hle := dropWhile_length_le isSpace s
  rw [attributesStep] at h
  split at h
  next =>
    split_ifs at h
    cases h
    simp [Mode.weight]
  next c s' hdrop =>
    rw [hdrop, List.length_cons] at hle
    split_ifs at h with hstart
    · have hless := attributeStep_measure hstart h
      omega
    all_goals
      cases h
      simp only [Parser.measure_goto, Parser.left_pop, Mode.weight, List.length_drop]
      omega

theorem valueStep_measure {name read s : Bytes} {quote : UInt8}
    (h : valueStep p name quote read s = .ok p') : p'.measure < 3 * s.length + p.left := by
  rw [valueStep.eq_def] at h
  split at h
  next => cases h
  next c s =>
    have hreturn := behindReturn_length_le s
    have hescape := strconvEscape_length_le s
    split_ifs at h
    all_goals
      cases h
      simp only [Parser.measure_goto, Parser.left_addAttribute, Mode.weight, List.length_cons]
      omega

theorem pcdataStep_measure {read s : Bytes} (h : pcdataStep p read s = .ok p') :
    p'.measure < 3 * s.length + p.left := by
  rw [pcdataStep.eq_def] at h
  split at h
  next => cases h
  next c s =>
    have hreturn := behindReturn_length_le s
    have hescape := strconvEscape_length_le s
    have htag : (if s = [] then Mode.content else .tag).weight = 1 := by split_ifs <;> rfl
    split_ifs at h
    all_goals
      cases h
      simp_all only [Parser.measure_goto, Parser.left_append, Mode.weight, List.length_cons]
      omega

theorem cdataStep_measure {read s : Bytes} (h : cdataStep endch p read s = .ok p') :
    p'.measure < 3 * s.length + p.left := by
  rw [cdataStep.eq_def] at h
  split at h
  next => cases h
  next c s =>
    have hreturn := behindReturn_length_le s
    split_ifs at h
    all_goals
      cases h
      simp only [Parser.measure_goto, Parser.left_append, Mode.weight, List.length_cons,
        List.length_drop]
      omega

theorem doctypePrimitive_length {c : UInt8} {s s' : Bytes}
    (h : doctypePrimitive (c :: s) = .ok (some s')) : s'.length ≤ s.length := by
  rw [doctypePrimitive] at h
  split at h
  next =>
    have hle := scanFor_length_le (fun s => s.head? = some c) s
    split at h
    next => cases h
    next c' s₁ hscan =>
      cases h
      rw [hscan, List.length_cons] at hle
      omega
  next =>
    split at h
    next s₁ hstrip =>
      have hle := scanFor_length_le (text "?>" <+: ·) s₁
      rw [stripPrefix] at hstrip
      split_ifs at hstrip
      cases hstrip
      split at h
      next => cases h
      next =>
        cases h
        simp [text] at hle ⊢
        omega
    next =>
      split at h
      next s₁ hstrip =>
        have hle := scanFor_length_le (text "-->" <+: ·) s₁
        rw [stripPrefix] at hstrip
        split_ifs at hstrip
        cases hstrip
        split at h
        next => cases h
        next =>
          split_ifs at h
          · cases h
          · cases h
            simp [text] at hle ⊢
            omega
      next => cases h

theorem passNull_measure {mode : Mode} (h : p.passNull mode = .ok p') :
    p'.measure = mode.weight + p.left := by
  rw [Parser.passNull] at h
  split at h
  next => cases h
  next rest behind hbehind =>
    cases h
    simp only [Parser.measure, Parser.left, hbehind, List.map_cons, List.sum_cons]
    ring

theorem groupStep_measure {groups : ℕ} {s : Bytes} (h : groupStep endch p groups s = .ok p') :
    p'.measure < 3 * s.length + 2 + p.left := by
  rw [groupStep.eq_def] at h
  split at h
  next =>
    split_ifs at h
    cases h
    simp [Mode.weight]
  next c s =>
    have hend : (if groups = 1 then Mode.content else .doctype (groups - 1) 0).weight ≤ 2 := by
      split_ifs <;> simp [Mode.weight]
    split at h
    next =>
      split_ifs at h <;> cases h <;> simp [Mode.weight]
    next =>
      split at h
      next =>
        split at h
        next => cases h
        next =>
          have hless := passNull_measure h
          rw [List.length_cons]
          simp only [Mode.weight] at hless
          omega
        next s' hprimitive =>
          have hle := doctypePrimitive_length hprimitive
          cases h
          simp only [Parser.measure_goto, Mode.weight, List.length_cons]
          omega
      next =>
        split at h
        next =>
          cases h
          simp only [Parser.measure_goto, List.length_cons]
          omega
        next =>
          cases h
          simp only [Parser.measure_goto, Mode.weight, List.length_cons]
          omega

theorem ignoreStep_measure {groups ignores : ℕ} {s : Bytes}
    (h : ignoreStep p groups ignores s = .ok p') : p'.measure < 3 * s.length + 2 + p.left := by
  rw [ignoreStep.eq_def] at h
  split at h
  next => cases h
  next c s =>
    split_ifs at h
    all_goals
      cases h
      simp only [Parser.measure_goto, Mode.weight, List.length_cons, List.length_drop]
      omega

theorem step_measure (hended : p.ended = false) (h : step endch p = .ok p') :
    p'.measure < p.measure := by
  have hmeasure : p.measure = 3 * p.rest.length + p.mode.weight + p.left := rfl
  rw [step] at h
  rw [hmeasure]
  split at h
  next hmode =>
    split at h
    next hrest => simp [Parser.ended, hmode, hrest] at hended
    next c s hrest =>
      rw [hmode, hrest]
      exact contentStep_measure h
  next hmode =>
    rw [hmode]
    exact tagStep_measure h
  next hmode =>
    rw [hmode]
    exact attributesStep_measure h
  next hmode =>
    rw [hmode]
    exact valueStep_measure h
  next hmode =>
    rw [hmode]
    exact pcdataStep_measure h
  next hmode =>
    rw [hmode]
    exact cdataStep_measure h
  next hmode =>
    rw [hmode]
    exact groupStep_measure h
  next hmode =>
    rw [hmode]
    exact ignoreStep_measure h

theorem measured (endch : UInt8) : Measured (turn endch) Parser.measure := by
  intro p p' h
  rw [Follows, turn] at h
  split at h
  next =>
    split_ifs at h
    cases h
  next hended =>
    cases hstep : step endch p with
    | error status => simp [hstep, Except.map] at h
    | ok p₁ =>
      rw [hstep] at h
      cases h
      exact step_measure (by simpa using hended) hstep

end

theorem doctypePrimitive_ne (s : Bytes) : doctypePrimitive s ≠ .error .internalError := by
  unfold doctypePrimitive
  repeat' split
  all_goals simp

theorem step_ne (endch : UInt8) (p : Parser) : step endch p ≠ .error .internalError := by
  unfold step
  split
  · split
    · exact nofun
    · unfold contentStep
      simp only
      repeat' split
      all_goals simp
  · unfold tagStep startTag endTag parseQuestion parseExclamation
    repeat' split
    all_goals simp
  · unfold attributesStep attributeStep
    repeat' split
    all_goals simp
  · unfold valueStep
    repeat' split
    all_goals simp
  · unfold pcdataStep
    repeat' split
    all_goals simp
  · unfold cdataStep
    repeat' split
    all_goals simp
  · unfold groupStep Parser.passNull
    repeat' split
    case h_1 status hprimitive =>
      rintro ⟨rfl⟩
      exact doctypePrimitive_ne _ hprimitive
    all_goals simp
  · unfold ignoreStep
    repeat' split
    all_goals simp

theorem turn_ne (endch : UInt8) (p : Parser) : turn endch p ≠ .error .internalError := by
  rw [turn]
  split_ifs
  · exact nofun
  · simp
  · have hne := step_ne endch p
    cases hstep : step endch p with
    | ok p' => exact nofun
    | error status =>
      rw [hstep] at hne
      simpa [Except.map] using hne

theorem strings_length (s : Bytes) :
    (cString s).length + ((behindNull s).map List.length).sum ≤ s.length := by
  induction s with
  | nil => simp [cString, behindNull]
  | cons c s ih =>
    by_cases hc : c = 0
    · have hfirst : cString (c :: s) = [] := by simp [cString, hc]
      rw [hfirst, behindNull, if_pos hc, List.map_cons, List.sum_cons, List.length_cons,
        List.length_nil]
      omega
    · have hfirst : cString (c :: s) = c :: cString s := by simp [cString, hc]
      rw [hfirst, behindNull, if_neg hc, List.length_cons, List.length_cons]
      omega

theorem initial_measure {buffer : Bytes} {endch : UInt8} (h : buffer.getLast? = some endch) :
    (Parser.initial buffer.dropLast).measure < 3 * buffer.length := by
  have hle := strings_length buffer.dropLast
  have hlen : buffer.length = buffer.dropLast.length + 1 := by
    cases buffer with
    | nil => cases h
    | cons c s => simp
  simp only [Parser.measure, Parser.initial, Parser.left, Mode.weight]
  omega

theorem parse_ne (buffer : Bytes) : parse buffer ≠ .error .internalError := by
  unfold parse
  split
  next => exact nofun
  next endch hlast =>
    have hends : loop (turn endch) .internalError (3 * buffer.length)
        (.initial buffer.dropLast) ≠ .error .internalError :=
      (measured endch).loop_ends (initial_measure hlast) (turn_ne endch)
    split
    next status hrun => simpa [hrun] using hends
    next => split_ifs <;> simp

/-- Whatever the contents, loading them comes to an end, with at most three turns for a byte. -/
theorem loadBuffer_ends (convert : Encoding → Bytes → Bytes) (contents : Bytes) :
    loadBuffer convert contents ≠ .error .internalError := by
  rw [loadBuffer]
  split <;> exact parse_ne _

/-- A comment that ends a document type makes the parser step over the last null. -/
example : loadBuffer (fun _ s => s) (text "<!DOCTYPE <!---->x") = .error .outside := by rfl

end SwiftRobot.Xml
