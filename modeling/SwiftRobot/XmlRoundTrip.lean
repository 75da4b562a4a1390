import SwiftRobot.XmlParser
import Mathlib.Tactic.IntervalCases

/-!
# A document that was saved is loaded

What the parser makes of each piece of what the writer puts out. A text comes back with
its line ends converted, and one of space alone does not come back at all.
-/

namespace SwiftRobot.Xml
open ByteWords Plist Loops

def convertEnds (afterReturn : Bool) : Bytes → Bytes
  | [] => []
  | c :: s =>
    if afterReturn && c = 10 then convertEnds false s
    else (if c = 13 then 10 else c) :: convertEnds (c = 13) s

def rereadText (s : Bytes) : Bytes := if s.all isSpace then [] else convertEnds false s

mutual

/-- What a node is after it was saved and loaded again. -/
def reread : Node → List Node
  | .element name attributes children => [.element name attributes (rereadAll children)]
  | .pcdata value => if value.all isSpace then [] else [.pcdata (convertEnds false value)]
  | .cdata value => [.cdata (convertEnds false value)]
  | .declaration _ | .doctype _ => []

def rereadAll : List Node → List Node
  | [] => []
  | n :: nodes => reread n ++ rereadAll nodes

end

theorem cString_eq {s : Bytes} (h : 0 ∉ s) : cString s = s := by
  rw [cString, List.takeWhile_eq_self_iff]
  intro x hx
  simpa using ne_of_mem_of_not_mem hx h

theorem behindNull_eq {s : Bytes} (h : 0 ∉ s) : behindNull s = [] := by
  induction s with
  | nil => rfl
  | cons c s ih =>
    obtain ⟨hc, hs⟩ : ¬ 0 = c ∧ 0 ∉ s := by simpa [not_or] using h
    rw [behindNull, if_neg (fun h0 => hc h0.symm), ih hs]

theorem mem_convertEnds {x : UInt8} {v : Bytes} {afterReturn : Bool}
    (h : x ∈ convertEnds afterReturn v) : x ∈ v ∨ x = 10 := by
  induction v generalizing afterReturn with
  | nil => cases h
  | cons c v ih =>
    rw [convertEnds] at h
    split_ifs at h
    · exact (ih h).imp_left (List.mem_cons_of_mem c)
    · rcases List.mem_cons.mp h with h | h
      · exact Or.inr h
      · exact (ih h).imp_left (List.mem_cons_of_mem c)
    · rcases List.mem_cons.mp h with h | h
      · exact Or.inl (h ▸ List.mem_cons_self)
      · exact (ih h).imp_left (List.mem_cons_of_mem c)

theorem strconvEscape_escaped {c : UInt8}
    (h : c < 32 ∨ c = char '&' ∨ c = char '<' ∨ c = char '>' ∨ c = char '"') (t : Bytes) :
    ∃ e, escaped c = char '&' :: e ∧ strconvEscape (e ++ t) = ([c], t) ∧ char '<' ∉ e ∧ 0 ∉ e := by
  rcases h with h | rfl | rfl | rfl | rfl
  · obtain ⟨n, hn, rfl⟩ : ∃ n < 32, c = UInt8.ofNat n :=
      ⟨c.toNat, UInt8.lt_iff_toNat_lt.mp h, UInt8.ofNat_toNat.symm⟩
    interval_cases n <;> exact ⟨_, rfl, rfl, by decide, by decide⟩
  · exact ⟨text "amp;", rfl, rfl, by decide, by decide⟩
  · exact ⟨text "lt;", rfl, rfl, by decide, by decide⟩
  · exact ⟨text "gt;", rfl, rfl, by decide, by decide⟩
  · exact ⟨text "quot;", rfl, rfl, by decide, by decide⟩

def outputChar (special : UInt8 → Bool) (c : UInt8) : Bytes :=
  if special c then escaped c else [c]

theorem specialPcdata_cases {c : UInt8} (h : specialPcdata c = true) :
    (c < 32 ∨ c = char '&' ∨ c = char '<' ∨ c = char '>' ∨ c = char '"') ∧ isSpace c = false := by
  simp only [specialPcdata, Bool.or_eq_true, Bool.and_eq_true, decide_eq_true_eq] at h
  rcases h with (((⟨⟨⟨hlt, h9⟩, h10⟩, h13⟩ | h) | h) | h)
  · refine ⟨Or.inl hlt, ?_⟩
    have h32 : c ≠ 32 := by
      rintro rfl
      exact absurd hlt (by decide)
    simp_all [isSpace]
  all_goals subst h; decide

theorem specialAttr_cases {c : UInt8} (h : specialAttr c = true) :
    c < 32 ∨ c = char '&' ∨ c = char '<' ∨ c = char '>' ∨ c = char '"' := by
  simp only [specialAttr, Bool.or_eq_true, Bool.and_eq_true, decide_eq_true_eq] at h
  tauto

section
variable {endch : UInt8} (p : Parser)

theorem append_goto (mode : Mode) (rest : Bytes) (n : Node) :
    (p.goto mode rest).append n = (p.append n).goto mode rest := by
  obtain ⟨m, r, opened, top⟩ := p
  cases opened <;> rfl

theorem step_content (c : UInt8) (s : Bytes) :
    step endch (p.goto .content (c :: s)) = contentStep (p.goto .content (c :: s)) c s := rfl

theorem step_tag (s : Bytes) :
    step endch (p.goto .tag s) = tagStep endch (p.goto .tag s) s := rfl

theorem step_attributes (s : Bytes) :
    step endch (p.goto .attributes s) = attributesStep endch (p.goto .attributes s) s := rfl

theorem step_value (name read s : Bytes) (quote : UInt8) :
    step endch (p.goto (.value name quote read) s) =
      valueStep (p.goto (.value name quote read) s) name quote read s := rfl

theorem step_pcdata (read s : Bytes) :
    step endch (p.goto (.pcdata read) s) = pcdataStep (p.goto (.pcdata read) s) read s := rfl

theorem reaches_step {mode : Mode} {rest : Bytes} {p' : Parser}
    (hended : (p.goto mode rest).ended = false) (h : step endch (p.goto mode rest) = .ok p') :
    Reaches (turn endch) (p.goto mode rest) p' := by
  apply Relation.ReflTransGen.single
  rw [Follows, turn, if_neg (by simp [hended]), h]
  rfl

theorem reaches_pcdata_char {c : UInt8} (hc : c ≠ 13) (read t : Bytes) :
    Reaches (turn endch) (p.goto (.pcdata read) (outputChar specialPcdata c ++ t))
      (p.goto (.pcdata (read ++ [c])) t) := by
  rw [outputChar]
  split_ifs with hspecial
  · obtain ⟨e, he, hread, -⟩ := strconvEscape_escaped (specialPcdata_cases hspecial).1 t
    rw [he, List.cons_append]
    apply reaches_step p rfl
    rw [step_pcdata, pcdataStep, if_neg (by decide), if_neg (by decide), if_pos rfl, hread]
    rfl
  · have hplain : c ≠ char '&' ∧ c ≠ char '<' := by
      constructor <;> rintro rfl <;> exact hspecial (by decide)
    apply reaches_step p rfl
    rw [List.singleton_append, step_pcdata, pcdataStep, if_neg hplain.2, if_neg hc, if_neg hplain.1]
    rfl

theorem outputChar_head {c : UInt8} (h : c ≠ 10) (t : Bytes) :
    behindReturn (outputChar specialPcdata c ++ t) = outputChar specialPcdata c ++ t := by
  rw [behindReturn, if_neg]
  rw [outputChar]
  split_ifs with hspecial
  · obtain ⟨e, he, -⟩ := strconvEscape_escaped (specialPcdata_cases hspecial).1 t
    rw [he]
    simp [char]
  · simpa using h

theorem reaches_pcdata (v read t : Bytes) (afterReturn : Bool) :
    Reaches (turn endch)
      (p.goto (.pcdata read) (if afterReturn then
        behindReturn (textOutputEscaped specialPcdata v ++ char '<' :: t)
        else textOutputEscaped specialPcdata v ++ char '<' :: t))
      (p.goto (.pcdata (read ++ convertEnds afterReturn v)) (char '<' :: t)) := by
  induction v generalizing read afterReturn with
  | nil =>
    have hhead : behindReturn (char '<' :: t) = char '<' :: t := by
      rw [behindReturn, if_neg (by simp [char])]
    simp only [textOutputEscaped, List.flatMap_nil, List.nil_append, hhead, ite_self, convertEnds,
      List.append_nil]
    exact .refl
  | cons c v ih =>
    have hout : textOutputEscaped specialPcdata (c :: v) ++ char '<' :: t =
        outputChar specialPcdata c ++ (textOutputEscaped specialPcdata v ++ char '<' :: t) := by
      simp [textOutputEscaped, outputChar]
    rw [hout]
    by_cases hfeed : afterReturn = true ∧ c = 10
    · -- the line feed was passed over with the carriage return
      obtain ⟨rfl, rfl⟩ := hfeed
      exact ih read false
    · have hstay : (if afterReturn = true then
          behindReturn (outputChar specialPcdata c ++ (textOutputEscaped specialPcdata v ++
            char '<' :: t))
          else outputChar specialPcdata c ++ (textOutputEscaped specialPcdata v ++ char '<' :: t)) =
          outputChar specialPcdata c ++ (textOutputEscaped specialPcdata v ++ char '<' :: t) := by
        split_ifs with hafter
        · exact outputChar_head (fun hc => hfeed ⟨hafter, hc⟩) _
        · rfl
      have hconvert : convertEnds afterReturn (c :: v) =
          (if c = 13 then 10 else c) :: convertEnds (c = 13) v := by
        rw [convertEnds, if_neg (by simpa using hfeed)]
      rw [hstay, hconvert, List.append_cons read]
      by_cases hc : c = 13
      · subst hc
        exact .trans (reaches_step p rfl rfl) (ih (read ++ [10]) true)
      · have hih := ih (read ++ [c]) false
        rw [if_neg (by decide)] at hih
        simp only [hc, if_false, decide_false]
        exact (reaches_pcdata_char p hc read _).trans hih

theorem output_ne_lt (v : Bytes) : char '<' ∉ textOutputEscaped specialPcdata v := by
  rw [textOutputEscaped, List.mem_flatMap]
  rintro ⟨c, -, hc⟩
  split_ifs at hc with hspecial
  · obtain ⟨e, he, -, hno, -⟩ := strconvEscape_escaped (specialPcdata_cases hspecial).1 []
    rw [he] at hc
    rcases List.mem_cons.mp hc with hc | hc
    · exact absurd hc (by decide)
    · exact hno hc
  · rw [List.mem_singleton] at hc
    subst hc
    exact hspecial (by decide)

theorem output_all_space (v : Bytes) :
    (textOutputEscaped specialPcdata v).all isSpace = v.all isSpace := by
  induction v with
  | nil => rfl
  | cons c v ih =>
    have hc : (if specialPcdata c then escaped c else [c]).all isSpace = isSpace c := by
      split_ifs with hspecial
      · obtain ⟨hcases, hspace⟩ := specialPcdata_cases hspecial
        obtain ⟨e, he, -⟩ := strconvEscape_escaped hcases []
        rw [he, hspace]
        rfl
      · simp
    rw [textOutputEscaped, List.flatMap_cons, List.all_append, hc, List.all_cons]
    rw [textOutputEscaped] at ih
    rw [ih]

def Parser.appendAll (p : Parser) (nodes : List Node) : Parser := nodes.foldl Parser.append p

theorem reaches_lt (t : Bytes) :
    Reaches (turn endch) (p.goto .content (char '<' :: t)) (p.goto .tag t) := by
  apply reaches_step p rfl
  rw [step_content, contentStep, if_pos rfl]
  rfl

theorem reaches_space {space : Bytes} (hspace : space.all isSpace = true) (t : Bytes) :
    Reaches (turn endch) (p.goto .content (space ++ char '<' :: t)) (p.goto .tag t) := by
  refine .trans ?_ (reaches_lt p t)
  cases space with
  | nil => exact .refl
  | cons c space =>
    have hc : c ≠ char '<' := by
      rintro rfl
      simp [isSpace, char] at hspace
    have hbehind : (c :: space ++ char '<' :: t).dropWhile isSpace = char '<' :: t := by
      rw [List.dropWhile_append_of_pos (by simpa using hspace)]
      exact List.dropWhile_cons_of_neg (by decide)
    apply reaches_step p rfl
    rw [List.cons_append] at hbehind ⊢
    rw [step_content, contentStep, if_neg hc]
    simp only [hbehind, List.head?_cons, if_true]
    rfl

theorem reaches_text (hopened : p.opened.isEmpty = false) {v : Bytes} (hv : 0 ∉ v) {t : Bytes}
    (ht : t ≠ []) :
    Reaches (turn endch) (p.goto .content (textOutputEscaped specialPcdata v ++ char '<' :: t))
      ((p.appendAll (reread (.pcdata v))).goto .tag t) := by
  have hall := output_all_space v
  have hno := output_ne_lt v
  have hread := @reaches_pcdata endch p v [] t false
  rw [if_neg (by decide), List.nil_append] at hread
  rw [reread]
  generalize textOutputEscaped specialPcdata v = out at hall hno hread ⊢
  split_ifs with hspace
  · exact reaches_space p (hall.trans hspace) t
  · obtain ⟨x, hx, hxspace⟩ : ∃ x ∈ out, isSpace x = false := by
      rw [← hall] at hspace
      simpa using hspace
    have hne : out.dropWhile isSpace ≠ [] := by
      intro hnil
      have hx' := List.dropWhile_eq_nil_iff.mp hnil x hx
      simp [hxspace] at hx'
    have hbehind : (out ++ char '<' :: t).dropWhile isSpace =
        out.dropWhile isSpace ++ char '<' :: t := by
      rw [List.dropWhile_append, if_neg (by simpa using hne)]
    have hhead : ((out ++ char '<' :: t).dropWhile isSpace).head? ≠ some (char '<') := by
      rw [hbehind, List.head?_append_of_ne_nil _ hne]
      exact fun hlt => hno ((List.dropWhile_sublist _).subset (List.mem_of_head? hlt))
    have hstart : Reaches (turn endch) (p.goto .content (out ++ char '<' :: t))
        (p.goto (.pcdata []) (out ++ char '<' :: t)) := by
      cases out with
      | nil => exact absurd hx List.not_mem_nil
      | cons c out =>
        have hc : c ≠ char '<' := fun hc => hno (hc ▸ List.mem_cons_self)
        apply reaches_step p rfl
        rw [List.cons_append] at hhead ⊢
        rw [step_content, contentStep, if_neg hc]
        simp only [hhead, if_false]
        rw [show (p.goto Mode.content (c :: (out ++ char '<' :: t))).opened = p.opened from rfl,
          hopened]
        rfl
    refine hstart.trans (hread.trans ?_)
    have hvalue : cString (convertEnds false v) = convertEnds false v := by
      apply cString_eq
      intro h0
      rcases mem_convertEnds h0 with h0 | h0
      · exact hv h0
      · exact absurd h0 (by decide)
    apply reaches_step p rfl
    rw [step_pcdata, pcdataStep, if_pos rfl, if_neg ht, hvalue, append_goto]
    rfl

theorem reaches_value_char {c : UInt8} (hc : c ≠ 9) (name read t : Bytes) :
    Reaches (turn endch) (p.goto (.value name (char '"') read) (outputChar specialAttr c ++ t))
      (p.goto (.value name (char '"') (read ++ [c])) t) := by
  rw [outputChar]
  split_ifs with hspecial
  · obtain ⟨e, he, hread, -⟩ := strconvEscape_escaped (specialAttr_cases hspecial) t
    rw [he, List.cons_append]
    apply reaches_step p rfl
    rw [step_value, valueStep, if_neg (by decide), if_neg (by decide), if_neg (by decide),
      if_pos rfl, hread]
    rfl
  · have hplain : c ≠ char '"' ∧ c ≠ 13 ∧ c ≠ char '&' ∧ c ≠ 10 := by
      refine ⟨?_, ?_, ?_, ?_⟩ <;> rintro rfl <;> exact hspecial (by decide)
    apply reaches_step p rfl
    rw [List.singleton_append, step_value, valueStep, if_neg hplain.1, if_neg hplain.2.1]
    split_ifs with hspace hamp
    · have h32 : c = 32 := by
        simpa [isSpace, hc, hplain.2.1, hplain.2.2.2] using hspace
      rw [h32]
      rfl
    · exact absurd hamp hplain.2.2.1
    · rfl

theorem reaches_value {v : Bytes} (hv : 9 ∉ v) (name read t : Bytes) :
    Reaches (turn endch)
      (p.goto (.value name (char '"') read) (textOutputEscaped specialAttr v ++ char '"' :: t))
      (p.goto (.value name (char '"') (read ++ v)) (char '"' :: t)) := by
  induction v generalizing read with
  | nil =>
    rw [List.append_nil]
    exact .refl
  | cons c v ih =>
    rw [List.mem_cons, not_or] at hv
    have hout : textOutputEscaped specialAttr (c :: v) ++ char '"' :: t =
        outputChar specialAttr c ++ (textOutputEscaped specialAttr v ++ char '"' :: t) := by
      simp [textOutputEscaped, outputChar]
    rw [hout, List.append_cons read]
    exact (reaches_value_char p (Ne.symm hv.1) name read _).trans (ih hv.2 (read ++ [c]))

def PlainName (name : Bytes) : Prop :=
  (name.head?.map isStartSymbol).getD false = true ∧ name.all isSymbol = true

instance (name : Bytes) : Decidable (PlainName name) := by
  unfold PlainName
  infer_instance

def PlainAttribute (a : Attribute) : Prop := PlainName a.1 ∧ 0 ∉ a.2 ∧ 9 ∉ a.2

section
variable {name : Bytes} (hname : PlainName name)
include hname

theorem PlainName.orAnonymous_eq : orAnonymous name = name := by
  rw [orAnonymous, if_neg]
  rintro rfl
  exact absurd hname.1 (by decide)

theorem PlainName.cut {c : UInt8} (hc : isSymbol c = false) (s : Bytes) :
    (name ++ c :: s).takeWhile isSymbol = name ∧ (name ++ c :: s).dropWhile isSymbol = c :: s := by
  have hall : ∀ x ∈ name, isSymbol x = true := by simpa using hname.2
  constructor
  · rw [List.takeWhile_append_of_pos hall, List.takeWhile_cons_of_neg (by simp [hc]), List.append_nil]
  · rw [List.dropWhile_append_of_pos hall, List.dropWhile_cons_of_neg (by simp [hc])]

theorem PlainName.cons : ∃ c s, name = c :: s ∧ isStartSymbol c = true := by
  obtain ⟨hhead, -⟩ := hname
  cases name with
  | nil => exact absurd hhead (by decide)
  | cons c s => exact ⟨c, s, rfl, by simpa using hhead⟩

end

theorem isSpace_of_isStartSymbol {c : UInt8} (h : isStartSymbol c = true) : isSpace c = false := by
  by_contra hspace
  rw [Bool.not_eq_false] at hspace
  simp only [isSpace, Bool.or_eq_true, decide_eq_true_eq] at hspace
  rcases hspace with ((rfl | rfl) | rfl) | rfl <;> exact absurd h (by decide)

theorem dropWhile_space {space s : Bytes} (hspace : space.all isSpace = true)
    (hs : (s.head?.map isSpace).getD false = false) : (space ++ s).dropWhile isSpace = s := by
  rw [List.dropWhile_append_of_pos (by simpa using hspace)]
  cases s with
  | nil => rfl
  | cons c s => exact List.dropWhile_cons_of_neg (by simpa using hs)

theorem addAttribute_goto (mode : Mode) (rest : Bytes) (a : Attribute) :
    (p.goto mode rest).addAttribute a = (p.addAttribute a).goto mode rest := by
  obtain ⟨m, r, opened, top⟩ := p
  cases opened <;> rfl

theorem reaches_attribute {a : Attribute} (ha : PlainAttribute a) {space : Bytes}
    (hspace : space.all isSpace = true) {t : Bytes}
    (ht : (t.head?.map isStartSymbol).getD false = false) :
    Reaches (turn endch) (p.goto .attributes (space ++ ((outputAttribute a).tail ++ t)))
      ((p.addAttribute a).goto .attributes t) := by
  obtain ⟨hname, h0, h9⟩ := ha
  obtain ⟨c, s, hcons, hc⟩ := hname.cons
  have htail : (outputAttribute a).tail ++ t =
      a.1 ++ char '=' :: char '"' :: (textOutputEscaped specialAttr a.2 ++ char '"' :: t) := by
    rw [outputAttribute, hname.orAnonymous_eq]
    simp [text, char]
  obtain ⟨htake, hdrop⟩ := hname.cut (c := char '=') (by decide)
    (char '"' :: (textOutputEscaped specialAttr a.2 ++ char '"' :: t))
  rw [htail]
  have hopen : Reaches (turn endch) (p.goto .attributes (space ++ (a.1 ++ char '=' :: char '"' ::
        (textOutputEscaped specialAttr a.2 ++ char '"' :: t))))
      (p.goto (.value a.1 (char '"') []) (textOutputEscaped specialAttr a.2 ++ char '"' :: t)) := by
    apply reaches_step p rfl
    rw [step_attributes, attributesStep,
      dropWhile_space hspace (by simp [hcons, isSpace_of_isStartSymbol hc])]
    rw [hcons, List.cons_append] at htake hdrop ⊢
    simp only [hc, if_true]
    rw [attributeStep, hdrop, htake]
    rfl
  refine hopen.trans ((reaches_value p h9 a.1 [] t).trans ?_)
  apply reaches_step p rfl
  rw [step_value, valueStep, if_pos rfl, if_neg (by simp [ht]), List.nil_append, cString_eq h0,
    addAttribute_goto]
  rfl

def Parser.opening (p : Parser) (o : OpenElement) : Parser := { p with opened := o :: p.opened }

def Parser.addAttributes (p : Parser) (attributes : List Attribute) : Parser :=
  attributes.foldl Parser.addAttribute p

theorem reaches_attributes {attributes : List Attribute}
    (ha : ∀ a ∈ attributes, PlainAttribute a) {t : Bytes}
    (ht : (t.head?.map isStartSymbol).getD false = false) :
    Reaches (turn endch) (p.goto .attributes (outputAttributes attributes ++ t))
      ((p.addAttributes attributes).goto .attributes t) := by
  induction attributes generalizing p with
  | nil => exact .refl
  | cons a attributes ih =>
    obtain ⟨hfirst, hrest⟩ := List.forall_mem_cons.mp ha
    have hout : outputAttributes (a :: attributes) ++ t =
        [char ' '] ++ ((outputAttribute a).tail ++ (outputAttributes attributes ++ t)) := by
      simp [outputAttributes, outputAttribute]
    have hnext : ((outputAttributes attributes ++ t).head?.map isStartSymbol).getD false = false := by
      cases attributes with
      | nil => exact ht
      | cons b attributes => rfl
    rw [hout]
    exact (reaches_attribute p hfirst (by decide) hnext).trans (ih (p.addAttribute a) hrest)

theorem push_addAttributes (name : Bytes) (attributes : List Attribute) :
    (p.push name).addAttributes attributes = p.opening ⟨name, attributes, []⟩ := by
  have hadd (read : List Attribute) : (p.opening ⟨name, read, []⟩).addAttributes attributes =
      p.opening ⟨name, read ++ attributes, []⟩ := by
    induction attributes generalizing read with
    | nil => rw [List.append_nil]; rfl
    | cons a attributes ih => rw [List.append_cons]; exact ih (read ++ [a])
  exact hadd []

theorem opening_appendAll (o : OpenElement) (nodes : List Node) :
    (p.opening o).appendAll nodes = p.opening { o with children := o.children ++ nodes } := by
  induction nodes generalizing o with
  | nil => rw [List.append_nil]; rfl
  | cons n nodes ih =>
    rw [List.append_cons]
    exact ih { o with children := o.children ++ [n] }

theorem opening_pop (o : OpenElement) (mode : Mode) (rest : Bytes) :
    ((p.opening o).goto mode rest).pop =
      (p.append (.element o.name o.attributes o.children)).goto mode rest :=
  append_goto p mode rest _

section
variable {name : Bytes} (hname : PlainName name)
include hname

theorem step_startTag (rest : Bytes) : step endch (p.goto .tag (name ++ rest)) =
    startTag endch (p.goto .tag (name ++ rest)) (name ++ rest) := by
  obtain ⟨c, s, hcons, hc⟩ := hname.cons
  rw [step_tag, hcons, List.cons_append, tagStep, if_pos hc]

theorem reaches_push (t : Bytes) :
    Reaches (turn endch) (p.goto .tag (name ++ char ' ' :: t))
      ((p.push name).goto .attributes t) := by
  obtain ⟨htake, hdrop⟩ := hname.cut (c := char ' ') (by decide) t
  apply reaches_step p rfl
  rw [step_startTag p hname, startTag, hdrop, htake]
  rfl

variable {attributes : List Attribute} (ha : ∀ a ∈ attributes, PlainAttribute a)
include ha

theorem reaches_tag (hne : attributes ≠ []) {t : Bytes}
    (ht : (t.head?.map isStartSymbol).getD false = false) :
    Reaches (turn endch) (p.goto .tag (name ++ (outputAttributes attributes ++ t)))
      ((p.opening ⟨name, attributes, []⟩).goto .attributes t) := by
  rw [← push_addAttributes]
  obtain ⟨a, attributes, rfl⟩ := List.exists_cons_of_ne_nil hne
  obtain ⟨hfirst, hrest⟩ := List.forall_mem_cons.mp ha
  have hout : outputAttributes (a :: attributes) ++ t =
      char ' ' :: ([] ++ ((outputAttribute a).tail ++ (outputAttributes attributes ++ t))) := by
    simp [outputAttributes, outputAttribute]
  have hnext : ((outputAttributes attributes ++ t).head?.map isStartSymbol).getD false = false := by
    cases attributes with
    | nil => exact ht
    | cons b attributes => rfl
  rw [hout]
  exact (reaches_push p hname _).trans ((reaches_attribute (p.push name) hfirst rfl hnext).trans
    (reaches_attributes _ hrest ht))

theorem reaches_startTag (t : Bytes) :
    Reaches (turn endch) (p.goto .tag (name ++ (outputAttributes attributes ++ char '>' :: t)))
      ((p.opening ⟨name, attributes, []⟩).goto .content t) := by
  by_cases hne : attributes = []
  · subst hne
    obtain ⟨htake, hdrop⟩ := hname.cut (c := char '>') (by decide) t
    apply reaches_step p rfl
    rw [outputAttributes, List.flatMap_nil, List.nil_append, step_startTag p hname, startTag,
      hdrop, htake]
    rfl
  · exact (reaches_tag p hname ha hne (by rfl)).trans (reaches_step _ rfl rfl)

theorem reaches_emptyTag (t : Bytes) :
    Reaches (turn endch) (p.goto .tag (name ++ (outputAttributes attributes ++ (text " />" ++ t))))
      ((p.append (.element name attributes [])).goto .content t) := by
  have hend (space : Bytes) (hspace : space.all isSpace = true) :
      Reaches (turn endch)
        ((p.opening ⟨name, attributes, []⟩).goto .attributes (space ++ (text "/>" ++ t)))
        ((p.append (.element name attributes [])).goto .content t) := by
    apply reaches_step _ rfl
    rw [step_attributes, attributesStep, dropWhile_space hspace (by rfl)]
    change Except.ok (Parser.goto _ .content t) = _
    rw [opening_pop]
    rfl
  by_cases hne : attributes = []
  · subst hne
    exact (reaches_push p hname (text "/>" ++ t)).trans (hend [] rfl)
  · exact (reaches_tag p hname ha hne (by rfl)).trans (hend [char ' '] rfl)

omit ha in
theorem reaches_endTag (children : List Node) (t : Bytes) :
    Reaches (turn endch)
      ((p.opening ⟨name, attributes, children⟩).goto .tag (char '/' :: (name ++ char '>' :: t)))
      ((p.append (.element name attributes children)).goto .content t) := by
  obtain ⟨htake, hdrop⟩ := hname.cut (c := char '>') (by decide) t
  apply reaches_step _ rfl
  rw [step_tag, tagStep, if_neg (by decide), if_pos rfl, endTag, htake, hdrop]
  change (if name = name then Except.ok (Parser.goto _ .content t) else _) = _
  rw [if_pos rfl, opening_pop]
  rfl

end

inductive Plain : Node → Prop
  | text {name : Bytes} {attributes : List Attribute} {value : Bytes} : PlainName name →
    (∀ a ∈ attributes, PlainAttribute a) → 0 ∉ value →
    Plain (.element name attributes [.pcdata value])
  | elements {name : Bytes} {attributes : List Attribute} {children : List Node} :
    PlainName name → (∀ a ∈ attributes, PlainAttribute a) → (∀ n ∈ children, Plain n) →
    Plain (.element name attributes children)

theorem indentation_space (depth : ℕ) : (indentation depth).all isSpace = true := by
  simp [indentation, isSpace]

def ReadBack (endch : UInt8) (n : Node) : Prop :=
  ∀ depth, ∃ out, nodeOutput depth n = out ++ lineEnd ∧
    ∀ (p : Parser) (space t : Bytes), space.all isSpace = true →
      Reaches (turn endch) (p.goto .content (space ++ (out ++ t)))
        ((p.appendAll (reread n)).goto .content t)

theorem appendAll_append (nodes nodes' : List Node) :
    p.appendAll (nodes ++ nodes') = (p.appendAll nodes).appendAll nodes' :=
  List.foldl_append

theorem reaches_nodes {nodes : List Node} (h : ∀ n ∈ nodes, ReadBack endch n) (depth : ℕ)
    {space : Bytes} (hspace : space.all isSpace = true) (t : Bytes) :
    ∃ space', space'.all isSpace = true ∧
      Reaches (turn endch) (p.goto .content (space ++ (nodesOutput depth nodes ++ t)))
        ((p.appendAll (rereadAll nodes)).goto .content (space' ++ t)) := by
  induction nodes generalizing p space with
  | nil => exact ⟨space, hspace, .refl⟩
  | cons n nodes ih =>
    obtain ⟨hfirst, hrest⟩ := List.forall_mem_cons.mp h
    obtain ⟨out, hout, hread⟩ := hfirst depth
    obtain ⟨space', hspace', hnodes⟩ := ih (p.appendAll (reread n)) hrest
      (show lineEnd.all isSpace = true from rfl)
    refine ⟨space', hspace', ?_⟩
    have hcut : nodesOutput depth (n :: nodes) ++ t =
        out ++ (lineEnd ++ (nodesOutput depth nodes ++ t)) := by
      simp [nodesOutput, hout]
    rw [hcut, rereadAll, appendAll_append]
    exact (hread p space _ hspace).trans hnodes

theorem readBack_text {name : Bytes} {attributes : List Attribute} {value : Bytes}
    (hname : PlainName name) (ha : ∀ a ∈ attributes, PlainAttribute a) (hvalue : 0 ∉ value) :
    ReadBack endch (.element name attributes [.pcdata value]) := by
  intro depth
  refine ⟨indentation depth ++ (char '<' :: (name ++ (outputAttributes attributes ++
    char '>' :: (textOutputEscaped specialPcdata value ++ char '<' ::
      (char '/' :: (name ++ [char '>'])))))), ?_, fun p space t hspace => ?_⟩
  · simp [nodeOutput, hname.orAnonymous_eq, text, char]
  · have hopened : (p.opening ⟨name, attributes, []⟩).opened.isEmpty = false := rfl
    have htext := @reaches_text endch _ hopened _ hvalue
      (t := char '/' :: (name ++ [char '>']) ++ t) (by simp)
    rw [opening_appendAll, List.nil_append] at htext
    have hcut : space ++ (indentation depth ++ (char '<' :: (name ++ (outputAttributes attributes ++
        char '>' :: (textOutputEscaped specialPcdata value ++ char '<' ::
          (char '/' :: (name ++ [char '>'])))))) ++ t) =
        (space ++ indentation depth) ++ char '<' :: (name ++ (outputAttributes attributes ++
          char '>' :: (textOutputEscaped specialPcdata value ++ char '<' ::
            (char '/' :: (name ++ [char '>']) ++ t)))) := by
      simp
    have hindent : (space ++ indentation depth).all isSpace = true := by
      rw [List.all_append, hspace, indentation_space, Bool.and_self]
    rw [hcut]
    refine (reaches_space p hindent _).trans ((reaches_startTag p hname ha _).trans
      (htext.trans ?_))
    have hend := @reaches_endTag endch p name hname attributes (reread (.pcdata value)) t
    simpa [Parser.appendAll, reread, rereadAll] using hend

theorem nodeOutput_elements {name : Bytes} (hname : PlainName name) (attributes : List Attribute)
    {children : List Node} (hplain : ∀ n ∈ children, Plain n) (hne : children ≠ []) (depth : ℕ) :
    nodeOutput depth (.element name attributes children) =
      indentation depth ++ (char '<' :: (name ++ (outputAttributes attributes ++
        char '>' :: (lineEnd ++ (nodesOutput (depth + 1) children ++ (indentation depth ++
          (text "</" ++ (name ++ (char '>' :: lineEnd))))))))) := by
  rcases children with _ | ⟨n, _ | ⟨n', children⟩⟩
  · exact absurd rfl hne
  · cases hplain n List.mem_cons_self <;> simp [nodeOutput, hname.orAnonymous_eq]
  · clear hplain
    cases n <;> simp [nodeOutput, hname.orAnonymous_eq]

theorem readBack_elements {name : Bytes} {attributes : List Attribute} {children : List Node}
    (hname : PlainName name) (ha : ∀ a ∈ attributes, PlainAttribute a)
    (hplain : ∀ n ∈ children, Plain n) (hchildren : ∀ n ∈ children, ReadBack endch n) :
    ReadBack endch (.element name attributes children) := by
  intro depth
  by_cases hne : children = []
  · subst hne
    refine ⟨indentation depth ++ (char '<' :: (name ++ (outputAttributes attributes ++
      text " />"))), ?_, fun p space t hspace => ?_⟩
    · simp [nodeOutput, hname.orAnonymous_eq, text, char]
    · have hcut : space ++ (indentation depth ++ (char '<' :: (name ++ (outputAttributes attributes ++
          text " />"))) ++ t) = (space ++ indentation depth) ++ char '<' :: (name ++
            (outputAttributes attributes ++ (text " />" ++ t))) := by
        simp
      have hindent : (space ++ indentation depth).all isSpace = true := by
        rw [List.all_append, hspace, indentation_space, Bool.and_self]
      rw [hcut]
      exact (reaches_space p hindent _).trans (reaches_emptyTag p hname ha t)
  · have hout := nodeOutput_elements hname attributes hplain hne depth
    refine ⟨indentation depth ++ (char '<' :: (name ++ (outputAttributes attributes ++
      char '>' :: (lineEnd ++ (nodesOutput (depth + 1) children ++ (indentation depth ++
        char '<' :: char '/' :: (name ++ [char '>']))))))), ?_, fun p space t hspace => ?_⟩
    · rw [hout]
      simp [text, char]
    · obtain ⟨space', hspace', hnodes⟩ := reaches_nodes (p.opening ⟨name, attributes, []⟩) hchildren
        (depth + 1) (show lineEnd.all isSpace = true from rfl)
        (indentation depth ++ char '<' :: char '/' :: (name ++ char '>' :: t))
      rw [opening_appendAll, List.nil_append] at hnodes
      have hcut : space ++ (indentation depth ++ (char '<' :: (name ++
          (outputAttributes attributes ++ char '>' :: (lineEnd ++ (nodesOutput (depth + 1) children ++
            (indentation depth ++ char '<' :: char '/' :: (name ++ [char '>']))))))) ++ t) =
          (space ++ indentation depth) ++ char '<' :: (name ++ (outputAttributes attributes ++
            char '>' :: (lineEnd ++ (nodesOutput (depth + 1) children ++
              (indentation depth ++ char '<' :: char '/' :: (name ++ char '>' :: t)))))) := by
        simp
      have hindent (front : Bytes) (hfront : front.all isSpace = true) :
          (front ++ indentation depth).all isSpace = true := by
        rw [List.all_append, hfront, indentation_space, Bool.and_self]
      rw [hcut]
      refine (reaches_space p (hindent space hspace) _).trans
        ((reaches_startTag p hname ha _).trans (hnodes.trans ?_))
      rw [← List.append_assoc]
      exact (reaches_space _ (hindent space' hspace') _).trans (reaches_endTag p hname _ t)

theorem Plain.readBack {n : Node} (h : Plain n) : ReadBack endch n := by
  induction h with
  | text hname ha hvalue => exact readBack_text hname ha hvalue
  | elements hname ha hplain ih => exact readBack_elements hname ha hplain ih

end

theorem zero_output {special : UInt8 → Bool} (hzero : special 0 = true)
    (hspecial : ∀ c, special c = true →
      c < 32 ∨ c = char '&' ∨ c = char '<' ∨ c = char '>' ∨ c = char '"') (v : Bytes) :
    0 ∉ textOutputEscaped special v := by
  rw [textOutputEscaped, List.mem_flatMap]
  rintro ⟨c, -, hc⟩
  split_ifs at hc with hcase
  · obtain ⟨e, he, -, -, hno⟩ := strconvEscape_escaped (hspecial c hcase) []
    rw [he] at hc
    rcases List.mem_cons.mp hc with hc | hc
    · exact absurd hc (by decide)
    · exact hno hc
  · rw [List.mem_singleton] at hc
    subst hc
    exact hcase hzero

theorem PlainName.zero {name : Bytes} (h : PlainName name) : 0 ∉ name := by
  intro h0
  have hsymbol := List.all_eq_true.mp h.2 0 h0
  exact absurd hsymbol (by decide)

theorem zero_outputAttributes {attributes : List Attribute}
    (ha : ∀ a ∈ attributes, PlainAttribute a) : 0 ∉ outputAttributes attributes := by
  rw [outputAttributes, List.mem_flatMap]
  rintro ⟨a, hmem, h0⟩
  have hname := (ha a hmem).1
  have hvalue := zero_output (by decide) (fun c => specialAttr_cases) a.2
  rw [outputAttribute, hname.orAnonymous_eq] at h0
  have hname0 := hname.zero
  simp only [List.mem_cons, List.mem_append, hname0, hvalue, false_or] at h0
  revert h0
  decide

theorem Plain.zero {n : Node} (h : Plain n) (depth : ℕ) : 0 ∉ nodeOutput depth n := by
  have hindent (depth : ℕ) : 0 ∉ indentation depth := by simp [indentation]
  induction h generalizing depth with
  | @text name attributes value hname ha hvalue =>
    have hname0 := hname.zero
    have hout := zero_output (by decide) (fun c h => (specialPcdata_cases h).1) value
    have hattributes := zero_outputAttributes ha
    simp [nodeOutput, hname.orAnonymous_eq, hname0, hout, hattributes, hindent, lineEnd]
    decide
  | @elements name attributes children hname ha hplain ih =>
    have hname0 := hname.zero
    have hattributes := zero_outputAttributes ha
    have hnodes (nodes : List Node) (h : ∀ n ∈ nodes, ∀ depth, 0 ∉ nodeOutput depth n)
        (depth : ℕ) : 0 ∉ nodesOutput depth nodes := by
      induction nodes with
      | nil => exact List.not_mem_nil
      | cons n nodes ihn =>
        obtain ⟨hfirst, hrest⟩ := List.forall_mem_cons.mp h
        rw [nodesOutput, List.mem_append, not_or]
        exact ⟨hfirst depth, ihn hrest⟩
    by_cases hne : children = []
    · subst hne
      simp [nodeOutput, hname.orAnonymous_eq, hname0, hattributes, hindent, lineEnd]
      decide
    · rw [nodeOutput_elements hname attributes hplain hne]
      simp [hname0, hattributes, hindent, hnodes children ih, lineEnd]
      decide

theorem scanFor_front {stop : Bytes → Bool} {front : Bytes}
    (h : ∀ c ∈ front, ∀ s, stop (c :: s) = false) {s : Bytes} (hs : stop s = true) (hne : s ≠ []) :
    scanFor stop (front ++ s) = s := by
  induction front with
  | nil =>
    obtain ⟨c, s, rfl⟩ := List.exists_cons_of_ne_nil hne
    rw [List.nil_append, scanFor, if_pos hs]
  | cons c front ih =>
    obtain ⟨hfirst, hrest⟩ := List.forall_mem_cons.mp h
    rw [List.cons_append, scanFor, if_neg (by simp [hfirst])]
    exact ih hrest

def DoctypePiece (plain quoted : Bytes) : Prop :=
  (∀ c ∈ plain, c ≠ char '<' ∧ c ≠ char '>' ∧ c ≠ char '"' ∧ c ≠ char '\'') ∧ char '"' ∉ quoted

section
variable {endch : UInt8} (p : Parser)

theorem reaches_declaration {front : Bytes} (hfront : char '?' ∉ front)
    (hhead : (front.head?.map isSymbol).getD false = false) (t : Bytes) :
    Reaches (turn endch) (p.goto .content (text "<?xml" ++ (front ++ (text "?>" ++ t))))
      (p.goto .content t) := by
  refine (reaches_lt p (text "?xml" ++ (front ++ (text "?>" ++ t)))).trans ?_
  have hdrop : (text "xml" ++ (front ++ (text "?>" ++ t))).dropWhile isSymbol =
      front ++ (text "?>" ++ t) := by
    rw [List.dropWhile_append_of_pos (List.all_eq_true.mp rfl)]
    cases front with
    | nil => rfl
    | cons c front => exact List.dropWhile_cons_of_neg (by simpa using hhead)
  have hscan : scanFor (fun s => s.head? = some (char '?') && endsWith endch s.tail (char '>'))
      (front ++ (text "?>" ++ t)) = text "?>" ++ t := by
    refine scanFor_front (fun c hc s => ?_) rfl (by simp [text])
    have hne : c ≠ char '?' := ne_of_mem_of_not_mem hc hfront
    simp [hne]
  apply reaches_step p rfl
  rw [step_tag]
  change tagStep endch _ (char '?' :: (text "xml" ++ (front ++ (text "?>" ++ t)))) = _
  rw [tagStep, if_neg (by decide), if_neg (by decide), if_pos rfl, parseQuestion,
    if_pos (by rfl), hdrop, hscan]
  rfl

theorem reaches_doctypePiece {plain quoted : Bytes} (h : DoctypePiece plain quoted) (t : Bytes) :
    Reaches (turn endch)
      (p.goto (.doctype 1 0) (plain ++ char '"' :: (quoted ++ char '"' :: t)))
      (p.goto (.doctype 1 0) t) := by
  obtain ⟨hplain, hquoted⟩ := h
  induction plain with
  | nil =>
    have hscan : scanFor (fun s => s.head? = some (char '"')) (quoted ++ char '"' :: t) =
        char '"' :: t := by
      refine scanFor_front (fun c hc s => ?_) (by simp) (by simp)
      have hne : c ≠ char '"' := ne_of_mem_of_not_mem hc hquoted
      simp [hne]
    apply reaches_step p rfl
    change groupStep endch _ 1 (char '"' :: (quoted ++ char '"' :: t)) = _
    rw [groupStep, if_neg (by simp [text, char]), if_pos (by decide), doctypePrimitive,
      if_pos (by decide), hscan]
    rfl
  | cons c plain ih =>
    obtain ⟨⟨hlt, hgt, hdouble, hsingle⟩, hrest⟩ := List.forall_mem_cons.mp hplain
    refine .trans ?_ (ih hrest)
    apply reaches_step p rfl
    change groupStep endch _ 1 (c :: (plain ++ char '"' :: (quoted ++ char '"' :: t))) = _
    have hopen : ¬ text "<!" <+: c :: (plain ++ char '"' :: (quoted ++ char '"' :: t)) := by
      rintro ⟨u, hu⟩
      exact hlt (List.cons.inj hu).1.symm
    rw [groupStep, if_neg (fun h => hopen h.1), if_neg (by simp [hlt, hdouble, hsingle]),
      if_neg hgt]
    rfl

theorem reaches_doctype (hopened : p.opened = []) {plain quoted plain' quoted' : Bytes}
    (h : DoctypePiece plain quoted) (h' : DoctypePiece plain' quoted') {space : Bytes}
    (hspace : space.all isSpace = true) (t : Bytes) :
    Reaches (turn endch) (p.goto .content (space ++ (text "<!DOCTYPE" ++ (char ' ' :: (plain ++
        char '"' :: (quoted ++ char '"' :: (plain' ++ char '"' :: (quoted' ++ char '"' ::
          char '>' :: t))))))))
      (p.goto .content t) := by
  generalize hbehind : plain' ++ char '"' :: (quoted' ++ char '"' :: char '>' :: t) = behind
  have hstart : DoctypePiece (text "DOCTYPE" ++ char ' ' :: plain) quoted := by
    have hword : ∀ c ∈ text "DOCTYPE",
        c ≠ char '<' ∧ c ≠ char '>' ∧ c ≠ char '"' ∧ c ≠ char '\'' :=
      @of_decide_eq_true _ (List.decidableBAll _ _) rfl
    refine ⟨fun c hc => ?_, h.2⟩
    rcases List.mem_append.mp hc with hc | hc
    · exact hword c hc
    · rcases List.mem_cons.mp hc with rfl | hc
      · decide
      · exact h.1 c hc
  refine (reaches_space p hspace (text "!DOCTYPE" ++ (char ' ' :: (plain ++
    char '"' :: (quoted ++ char '"' :: behind))))).trans ?_
  have hnone (s : Bytes) : (p.goto .tag s).opened.isEmpty = true := List.isEmpty_iff.mpr hopened
  have hopen : Reaches (turn endch)
      (p.goto .tag (text "!DOCTYPE" ++ (char ' ' :: (plain ++
        char '"' :: (quoted ++ char '"' :: behind)))))
      (p.goto (.doctype 1 0) ((text "DOCTYPE" ++ char ' ' :: plain) ++
        char '"' :: (quoted ++ char '"' :: behind))) := by
    apply reaches_step p rfl
    rw [step_tag]
    change tagStep endch _ (char '!' :: (text "DOCTYPE" ++ (char ' ' :: (plain ++
      char '"' :: (quoted ++ char '"' :: behind))))) = _
    rw [tagStep, if_neg (by decide), if_neg (by decide), if_neg (by decide), if_pos rfl,
      parseExclamation, if_neg (by simp [text, char]), if_neg (by simp [text, char]),
      if_pos ⟨⟨_, rfl⟩, rfl⟩, if_pos (hnone _)]
    simp
    rfl
  refine hopen.trans ((reaches_doctypePiece p hstart behind).trans ?_)
  rw [← hbehind]
  refine (reaches_doctypePiece p h' (char '>' :: t)).trans (reaches_step p rfl ?_)
  change groupStep endch _ 1 (char '>' :: t) = _
  rw [groupStep, if_neg (by simp [text, char]), if_neg (by decide), if_pos rfl]
  rfl

end

/-- A document with a declaration, a document type and an element is loaded after it was
saved, whatever texts stand in the element. -/
theorem parse_save {attributes : List Attribute} (ha : ∀ a ∈ attributes, PlainAttribute a)
    (hquestion : char '?' ∉ outputAttributes attributes) {plain quoted plain' quoted' : Bytes}
    (h : DoctypePiece plain quoted) (h' : DoctypePiece plain' quoted')
    (h0 : 0 ∉ plain ++ quoted ++ plain' ++ quoted') {root : Node} (hroot : Plain root) :
    parse (save [.declaration attributes, .doctype (plain ++ char '"' :: (quoted ++ char '"' ::
      (plain' ++ char '"' :: (quoted' ++ [char '"'])))), root]) = .ok (reread root) := by
  obtain ⟨out, hout, hread⟩ := @Plain.readBack 10 root hroot 0
  generalize hvalue : plain ++ char '"' :: (quoted ++ char '"' :: (plain' ++ char '"' ::
    (quoted' ++ [char '"']))) = value
  have hne : value ≠ [] := by
    rw [← hvalue]
    simp
  have hfront (t : Bytes) : char ' ' :: (value ++ char '>' :: t) = char ' ' :: (plain ++ char '"' ::
      (quoted ++ char '"' :: (plain' ++ char '"' :: (quoted' ++ char '"' :: char '>' :: t)))) := by
    rw [← hvalue]
    simp
  let text' := text "<?xml" ++ (outputAttributes attributes ++ (text "?>" ++ (lineEnd ++
    (text "<!DOCTYPE" ++ (char ' ' :: (value ++ char '>' :: (lineEnd ++ out)))))))
  have hsave : save [.declaration attributes, .doctype value, root] = text' ++ lineEnd := by
    simp [save, hasDeclaration, nodesOutput, nodeOutput, indentation, hne, hout, text']
  have hzero : 0 ∉ text' := by
    have hroot0 := hroot.zero 0
    rw [hout, List.mem_append, not_or] at hroot0
    have hattributes := zero_outputAttributes ha
    have hvalue0 : 0 ∉ value := by
      rw [← hvalue]
      simp only [List.mem_append, not_or] at h0
      simp [h0]
      decide
    simp [text', lineEnd, hroot0.1, hattributes, hvalue0]
    decide
  have hparse : Reaches (turn 10) ⟨.content, text', [], [], []⟩ ⟨.content, [], [], reread root, []⟩ := by
    have hhead : ((outputAttributes attributes).head?.map isSymbol).getD false = false := by
      cases attributes <;> rfl
    have htop (nodes read : List Node) :
        (Parser.mk .content [] [] read []).appendAll nodes = ⟨.content, [], [], read ++ nodes, []⟩ := by
      induction nodes generalizing read with
      | nil => rw [List.append_nil]; rfl
      | cons n nodes ih => rw [List.append_cons]; exact ih (read ++ [n])
    have hdoctype := @reaches_doctype 10 ⟨.content, [], [], [], []⟩ rfl _ _ _ _ h h' lineEnd rfl
      (lineEnd ++ out)
    rw [← hfront] at hdoctype
    have hlast := hread ⟨.content, [], [], [], []⟩ lineEnd [] rfl
    rw [htop, List.append_nil] at hlast
    exact (reaches_declaration ⟨.content, [], [], [], []⟩ hquestion hhead _).trans
      (hdoctype.trans hlast)
  have hlast : (text' ++ lineEnd).getLast? = some 10 := by simp [lineEnd]
  have hfirst : (text' ++ lineEnd).dropLast = text' := by simp [lineEnd]
  unfold parse
  rw [hsave]
  simp only [hlast]
  have hinitial : Parser.initial (text' ++ lineEnd).dropLast = ⟨.content, text', [], [], []⟩ := by
    rw [hfirst, Parser.initial, cString_eq hzero, behindNull_eq hzero]
  have hturns := initial_measure hlast
  rw [hinitial] at hturns ⊢
  rw [(measured 10).loop_done hparse rfl hturns]
  rfl

end SwiftRobot.Xml
