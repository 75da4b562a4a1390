import SwiftRobot.BinaryPlist

/-!
# How deep a parse goes

Only the items of an array and the keys and values of a dictionary are parsed by
nested calls. What those refer to decides whether the calls come to an end.
-/

namespace SwiftRobot.Plist.Binary
open ByteWords BoundedRecursion
variable {α β : Type} {cv : Conversions} {d : PlistHelperData}

def Shallow (p : Parsing α) : Prop := p ≠ .error .deep

theorem shallow_pure (a : α) : Shallow (pure a : Parsing α) := by
  intro h
  cases h

theorem shallow_thrown : Shallow (throw .thrown : Parsing α) := by
  intro h
  cases h

theorem shallow_bind {p : Parsing α} {f : α → Parsing β} (hp : Shallow p)
    (hf : ∀ a, Shallow (f a)) : Shallow (p >>= f) := by
  cases p with
  | ok a => exact hf a
  | error e =>
    intro h
    apply hp
    cases h
    rfl

theorem shallow_map {p : Parsing α} (f : α → β) (hp : Shallow p) : Shallow (f <$> p) := by
  cases p with
  | ok a =>
    intro h
    cases h
  | error e =>
    intro h
    apply hp
    cases h
    rfl

theorem shallow_mapM {f : α → Parsing β} (hf : ∀ a, Shallow (f a)) (l : List α) :
    Shallow (l.mapM f) := by
  induction l with
  | nil =>
    rw [List.mapM_nil]
    exact shallow_pure _
  | cons a l ih =>
    rw [List.mapM_cons]
    exact shallow_bind (hf a) fun b => shallow_bind ih fun bs => shallow_pure _

theorem shallow_byteAt (bytes : Bytes) (index : ℤ) : Shallow (byteAt bytes index) := by
  intro h
  unfold byteAt at h
  split at h
  · cases h
  · split at h <;> cases h

theorem shallow_offsetAt (objRef : Int32) : Shallow (offsetAt d objRef) := by
  intro h
  unfold offsetAt at h
  split at h
  · cases h
  · split at h <;> cases h

theorem shallow_int (v : ℤ) : Shallow (int v) := by
  intro h
  unfold int at h
  split at h <;> cases h

theorem shallow_copyRange (origBytes : Bytes) (index size : ℤ) :
    Shallow (copyRange origBytes index size) := by
  intro h
  unfold copyRange at h
  split at h
  · cases h
  · split at h <;> cases h

theorem shallow_copyVectorRange (origBytes : Bytes) (index size : ℤ) :
    Shallow (copyVectorRange origBytes index size) := by
  unfold copyVectorRange
  split
  · exact shallow_thrown
  · exact shallow_copyRange _ _ _

theorem shallow_parseBinaryInt (p : ℤ) : Shallow (parseBinaryInt d p) :=
  shallow_bind (shallow_byteAt _ _) fun _ =>
    shallow_bind (shallow_copyVectorRange _ _ _) fun _ => shallow_pure _

theorem shallow_getCount (p : ℤ) (headerByte : UInt8) : Shallow (getCount d p headerByte) := by
  unfold getCount
  simp only
  split
  · exact shallow_pure _
  · exact shallow_bind (shallow_parseBinaryInt _) fun _ => shallow_pure _

theorem shallow_parseBinaryBool (p : ℤ) : Shallow (parseBinaryBool d p) := by
  refine shallow_bind (shallow_byteAt _ _) fun header => ?_
  split
  · exact shallow_pure _
  · split
    · exact shallow_pure _
    · exact shallow_thrown

theorem shallow_parseBinaryReal (p : ℤ) : Shallow (parseBinaryReal d p) :=
  shallow_bind (shallow_byteAt _ _) fun _ =>
    shallow_bind (shallow_copyVectorRange _ _ _) fun _ => shallow_pure _

theorem shallow_parseBinaryDate (p : ℤ) : Shallow (parseBinaryDate cv d p) :=
  shallow_bind (shallow_copyVectorRange _ _ _) fun _ => shallow_pure _

theorem shallow_parseBinaryByteArray (p : ℤ) : Shallow (parseBinaryByteArray d p) :=
  shallow_bind (shallow_byteAt _ _) fun _ =>
    shallow_bind (shallow_getCount _ _) fun _ => shallow_copyRange _ _ _

theorem shallow_parseBinaryString (p : ℤ) : Shallow (parseBinaryString d p) :=
  shallow_bind (shallow_byteAt _ _) fun _ =>
    shallow_bind (shallow_getCount _ _) fun _ => shallow_copyVectorRange _ _ _

theorem shallow_parseBinaryUnicode (p : ℤ) : Shallow (parseBinaryUnicode cv d p) := by
  refine shallow_bind (shallow_byteAt _ _) fun _ => shallow_bind (shallow_getCount _ _) fun _ =>
    shallow_bind (shallow_int _) fun _ => shallow_bind (shallow_copyVectorRange _ _ _) fun _ => ?_
  simp only
  split
  · exact shallow_pure _
  · exact shallow_thrown

theorem shallow_parseRef (i : ℤ) : Shallow (parseRef d i) :=
  shallow_bind (shallow_copyVectorRange _ _ _) fun _ => shallow_pure _

theorem shallow_getRefsForContainers (objRef : Int32) :
    Shallow (getRefsForContainers d objRef) :=
  shallow_bind (shallow_offsetAt _) fun _ => shallow_bind (shallow_byteAt _ _) fun _ =>
    shallow_bind (shallow_getCount _ _) fun _ => shallow_bind (shallow_int _) fun _ =>
      shallow_bind (shallow_int _) fun _ => shallow_bind (shallow_int _) fun _ =>
        shallow_mapM (fun _ => shallow_parseRef _) _

/-- What one object is before anything inside is parsed. -/
inductive Shape
  | closed (result : Parsing Value)
  | array (refs : List Int32)
  | dictionary (refs : List Int32)

def Shape.parsed (parse : Int32 → Parsing Value) : Shape → Parsing Value
  | closed result => result
  | array refs => Value.array <$> parseBinaryArray parse refs
  | dictionary refs =>
    (fun dict => Value.dictionary dict.entries) <$> parseBinaryDictionary parse refs

def Shape.refs : Shape → List Int32
  | closed _ => []
  | array refs => refs
  | dictionary refs =>
    ((refs.take (refs.length / 2)).zip (refs.drop (refs.length / 2))).flatMap fun e => [e.1, e.2]

def containerShape (d : PlistHelperData) (make : List Int32 → Shape) (objRef : Int32) : Shape :=
  match getRefsForContainers d objRef with
  | .ok refs => make refs
  | .error e => .closed (.error e)

def shapeOfKind (cv : Conversions) (d : PlistHelperData) (objRef : Int32) (headerPosition : ℤ) :
    ℕ → Shape
  | 0x00 => .closed ((.scalar ∘ .bool) <$> parseBinaryBool d headerPosition)
  | 0x10 => .closed ((fun v => .scalar (.int64 v.1)) <$> parseBinaryInt d headerPosition)
  | 0x20 => .closed ((.scalar ∘ .double) <$> parseBinaryReal d headerPosition)
  | 0x30 => .closed ((.scalar ∘ .date) <$> parseBinaryDate cv d headerPosition)
  | 0x40 => .closed ((.scalar ∘ .data) <$> parseBinaryByteArray d headerPosition)
  | 0x50 => .closed ((.scalar ∘ .string) <$> parseBinaryString d headerPosition)
  | 0x60 => .closed ((.scalar ∘ .string) <$> parseBinaryUnicode cv d headerPosition)
  | 0xD0 => containerShape d .dictionary objRef
  | 0xA0 => containerShape d .array objRef
  | _ => .closed (throw .thrown)

def shape (cv : Conversions) (d : PlistHelperData) (objRef : Int32) : Shape :=
  match offsetAt d objRef with
  | .error e => .closed (.error e)
  | .ok headerPosition =>
    match byteAt d.objectTable headerPosition with
    | .error e => .closed (.error e)
    | .ok header => shapeOfKind cv d objRef headerPosition (header &&& 0xF0).toNat

theorem parseKind_shape (parse : Int32 → Parsing Value) (objRef : Int32) (headerPosition : ℤ)
    (kind : ℕ) : parseKind cv d parse objRef headerPosition kind =
      (shapeOfKind cv d objRef headerPosition kind).parsed parse := by
  unfold parseKind
  split
  case h_8 | h_9 =>
    unfold shapeOfKind containerShape
    cases getRefsForContainers d objRef <;> rfl
  case h_10 =>
    unfold shapeOfKind
    split <;> first | contradiction | rfl
  all_goals rfl

theorem parseObject_shape (parse : Int32 → Parsing Value) (objRef : Int32) :
    parseObject cv d parse objRef = (shape cv d objRef).parsed parse := by
  unfold parseObject shape
  cases offsetAt d objRef with
  | error e => rfl
  | ok headerPosition =>
    simp only [bind, Except.bind]
    cases byteAt d.objectTable headerPosition with
    | error e => rfl
    | ok header => exact parseKind_shape parse objRef headerPosition _

theorem shallow_error {p : Parsing α} {e : Fault} (hp : Shallow p) (h : p = .error e) :
    Shallow (.error e : Parsing β) := by
  intro hdeep
  apply hp
  cases hdeep
  exact h

theorem containerShape_closed {make : List Int32 → Shape} {objRef : Int32}
    {result : Parsing Value} (hmake : ∀ refs, make refs ≠ .closed result)
    (h : containerShape d make objRef = .closed result) : Shallow result := by
  unfold containerShape at h
  split at h
  · exact absurd h (hmake _)
  · rename_i e he
    cases h
    exact shallow_error (shallow_getRefsForContainers objRef) he

theorem shapeOfKind_closed {objRef : Int32} {headerPosition : ℤ} {kind : ℕ}
    {result : Parsing Value} (h : shapeOfKind cv d objRef headerPosition kind = .closed result) :
    Shallow result := by
  unfold shapeOfKind at h
  split at h
  case h_8 => exact containerShape_closed (fun _ => Shape.noConfusion) h
  case h_9 => exact containerShape_closed (fun _ => Shape.noConfusion) h
  all_goals cases h
  · exact shallow_map _ (shallow_parseBinaryBool _)
  · exact shallow_map _ (shallow_parseBinaryInt _)
  · exact shallow_map _ (shallow_parseBinaryReal _)
  · exact shallow_map _ (shallow_parseBinaryDate _)
  · exact shallow_map _ (shallow_parseBinaryByteArray _)
  · exact shallow_map _ (shallow_parseBinaryString _)
  · exact shallow_map _ (shallow_parseBinaryUnicode _)
  · exact shallow_thrown

theorem shape_closed {objRef : Int32} {result : Parsing Value}
    (h : shape cv d objRef = .closed result) : Shallow result := by
  unfold shape at h
  split at h
  · rename_i e he
    cases h
    exact shallow_error (shallow_offsetAt objRef) he
  · split at h
    · rename_i e he
      cases h
      exact shallow_error (shallow_byteAt _ _) he
    · exact shapeOfKind_closed h

theorem agrees_bind {p p' : Parsing α} {f f' : α → Parsing β} (hp : p = .error .deep ∨ p = p')
    (hf : ∀ a, f a = .error .deep ∨ f a = f' a) :
    (p >>= f) = .error .deep ∨ (p >>= f) = (p' >>= f') := by
  rcases hp with rfl | rfl
  · exact Or.inl rfl
  · cases p with
    | ok a => exact hf a
    | error e => exact Or.inr rfl

theorem agrees_map {p p' : Parsing α} (f : α → β) (hp : p = .error .deep ∨ p = p') :
    f <$> p = .error .deep ∨ f <$> p = f <$> p' := by
  rcases hp with rfl | rfl
  · exact Or.inl rfl
  · exact Or.inr rfl

theorem agrees_mapM {f f' : α → Parsing β} (h : Agrees (.error .deep) f f') (l : List α) :
    l.mapM f = .error .deep ∨ l.mapM f = l.mapM f' := by
  induction l with
  | nil => exact Or.inr rfl
  | cons a l ih =>
    simp only [List.mapM_cons]
    exact agrees_bind (h a) fun b => agrees_bind ih fun bs => Or.inr rfl

theorem agrees_entries {parse parse' : Int32 → Parsing Value}
    (h : Agrees (.error .deep) parse parse') (refs : List (Int32 × Int32))
    (dict : OrderedMap Bytes Value) :
    parseBinaryEntries parse refs dict = .error .deep ∨
      parseBinaryEntries parse refs dict = parseBinaryEntries parse' refs dict := by
  induction refs generalizing dict with
  | nil => exact Or.inr rfl
  | cons e refs ih =>
    refine agrees_bind (h e.1) fun keyAny => ?_
    split
    · exact agrees_bind (h e.2) fun value => ih _
    · exact Or.inr rfl

theorem uniform_parseObject : Uniform (.error .deep) (parseObject cv d) := by
  intro parse parse' h objRef
  rw [parseObject_shape, parseObject_shape]
  cases shape cv d objRef with
  | closed result => exact Or.inr rfl
  | array refs => exact agrees_map _ (agrees_mapM h refs)
  | dictionary refs => exact agrees_map _ (agrees_entries h _ _)

theorem shallow_entries {parse : Int32 → Parsing Value} (refs : List (Int32 × Int32))
    (dict : OrderedMap Bytes Value) (h : ∀ e ∈ refs, Shallow (parse e.1) ∧ Shallow (parse e.2)) :
    Shallow (parseBinaryEntries parse refs dict) := by
  induction refs generalizing dict with
  | nil => exact shallow_pure _
  | cons e refs ih =>
    obtain ⟨hhead, hrest⟩ := List.forall_mem_cons.mp h
    refine shallow_bind hhead.1 fun keyAny => ?_
    split
    · exact shallow_bind hhead.2 fun value => ih _ hrest
    · exact shallow_thrown

theorem bind_ok {p : Parsing α} {f : α → Parsing β} {b : β} (h : p >>= f = .ok b) :
    ∃ a, p = .ok a ∧ f a = .ok b := by
  cases p with
  | ok a => exact ⟨a, rfl, h⟩
  | error e => cases h

theorem map_ok {p : Parsing α} {f : α → β} {b : β} (h : f <$> p = .ok b) :
    ∃ a, p = .ok a ∧ f a = b := by
  cases p with
  | ok a =>
    cases h
    exact ⟨a, rfl, rfl⟩
  | error e => cases h

theorem mapM_ok {f : α → Parsing β} {l : List α} {bs : List β} (h : l.mapM f = .ok bs) :
    ∀ a ∈ l, ∃ b, f a = .ok b := by
  induction l generalizing bs with
  | nil => simp
  | cons a l ih =>
    rw [List.mapM_cons] at h
    obtain ⟨b, hb, h⟩ := bind_ok h
    obtain ⟨rest, hrest, -⟩ := bind_ok h
    exact List.forall_mem_cons.mpr ⟨⟨b, hb⟩, ih hrest⟩

theorem entries_ok {parse : Int32 → Parsing Value} {refs : List (Int32 × Int32)}
    {dict result : OrderedMap Bytes Value} (h : parseBinaryEntries parse refs dict = .ok result) :
    ∀ e ∈ refs, (∃ v, parse e.1 = .ok v) ∧ ∃ v, parse e.2 = .ok v := by
  induction refs generalizing dict with
  | nil => simp
  | cons e refs ih =>
    obtain ⟨keyAny, hkey, h⟩ := bind_ok h
    split at h
    · obtain ⟨value, hvalue, h⟩ := bind_ok h
      exact List.forall_mem_cons.mpr ⟨⟨⟨_, hkey⟩, ⟨value, hvalue⟩⟩, ih h⟩
    · cases h

/-- Parsing `x` takes a nested call to parse `y`. -/
def Refers (cv : Conversions) (d : PlistHelperData) (x y : Int32) : Prop :=
  y ∈ (shape cv d x).refs

theorem parseObject_deep {parse : Int32 → Parsing Value} {objRef : Int32}
    (h : ∀ y, Refers cv d objRef y → parse y ≠ .error .deep) :
    parseObject cv d parse objRef ≠ .error .deep := by
  rw [parseObject_shape]
  unfold Refers at h
  cases hs : shape cv d objRef with
  | closed result => exact shape_closed hs
  | array refs =>
    rw [hs] at h
    refine shallow_map _ ?_
    clear hs
    unfold parseBinaryArray
    induction refs with
    | nil => exact shallow_pure _
    | cons r refs ih =>
      rw [List.mapM_cons]
      refine shallow_bind (h r List.mem_cons_self) fun b => shallow_bind (ih ?_) fun bs =>
        shallow_pure _
      exact fun y hy => h y (List.mem_cons_of_mem _ hy)
  | dictionary refs =>
    rw [hs] at h
    refine shallow_map _ (shallow_entries _ _ fun e he => ⟨h e.1 ?_, h e.2 ?_⟩)
    · exact List.mem_flatMap.mpr ⟨e, he, by simp⟩
    · exact List.mem_flatMap.mpr ⟨e, he, by simp⟩

def Parsed (p : Parsing Value) : Prop := ∃ v, p = .ok v

theorem parseObject_ok {parse : Int32 → Parsing Value} {objRef : Int32}
    (h : Parsed (parseObject cv d parse objRef)) :
    ∀ y, Refers cv d objRef y → Parsed (parse y) := by
  obtain ⟨v, h⟩ := h
  rw [parseObject_shape] at h
  intro y hy
  unfold Refers at hy
  cases hs : shape cv d objRef with
  | closed result =>
    rw [hs] at hy
    cases hy
  | array refs =>
    rw [hs] at hy h
    obtain ⟨items, hitems, -⟩ := map_ok h
    exact mapM_ok hitems y hy
  | dictionary refs =>
    rw [hs] at hy h
    obtain ⟨dict, hdict, -⟩ := map_ok h
    obtain ⟨e, he, hy⟩ := List.mem_flatMap.mp hy
    obtain ⟨hkey, hvalue⟩ := entries_ok hdict e he
    rcases List.mem_pair.mp hy with rfl | rfl
    · exact hkey
    · exact hvalue

theorem offsetAt_of_deep {objRef : Int32}
    (h : limited (.error .deep) (parseObject cv d) 1 objRef = .error .deep) :
    objRef ∈ (Finset.range d.offsetTable.length).image Int32.ofNat := by
  have hoff : ∃ p, offsetAt d objRef = .ok p := by
    by_contra hnot
    apply shallow_offsetAt (d := d) objRef
    cases hp : offsetAt d objRef with
    | ok p => exact absurd ⟨p, hp⟩ hnot
    | error e =>
      change parseObject cv d _ objRef = _ at h
      unfold parseObject at h
      rw [hp] at h
      have herror : (.error e : Parsing Value) = .error .deep := h
      cases herror
      rfl
  obtain ⟨p, hp⟩ := hoff
  unfold offsetAt at hp
  split at hp
  · cases hp
  · rename_i hneg
    split at hp
    · rename_i offset hget
      obtain ⟨hlt, -⟩ := List.getElem?_eq_some_iff.mp hget
      refine Finset.mem_image.mpr ⟨objRef.toInt.toNat, Finset.mem_range.mpr hlt, ?_⟩
      rw [← Int32.ofInt_eq_ofNat, Int.toNat_of_nonneg (not_lt.mp hneg), Int32.ofInt_toInt]
    · cases hp

theorem parseBinary_settles {n : ℕ} (hn : d.offsetTable.length + 1 ≤ n) :
    parseBinary cv d n = parseBinary cv d (d.offsetTable.length + 1) := by
  have hcard := Finset.card_image_le (s := Finset.range d.offsetTable.length)
    (f := Int32.ofNat)
  rw [Finset.card_range] at hcard
  have hsettles : ∀ m, d.offsetTable.length + 1 ≤ m → parseBinary cv d m = _ := fun m hm =>
    limited_settles uniform_parseObject (fun x => offsetAt_of_deep) (by omega)
  rw [hsettles n hn, hsettles _ le_rfl]

/-- One call for every object, and one more, are as many as any parse nests that ends: more
change nothing. It can only be without end where objects contain themselves, and then it
never has a value. -/
theorem parseBinary_depth (cv : Conversions) (d : PlistHelperData) (objRef : Int32) :
    (∀ n, d.offsetTable.length + 1 ≤ n →
        parseBinary cv d n objRef = parseBinary cv d (d.offsetTable.length + 1) objRef) ∧
      ((∃ n, Parsed (parseBinary cv d n objRef)) → Acc (fun y x => Refers cv d x y) objRef) ∧
      (Acc (fun y x => Refers cv d x y) objRef →
        parseBinary cv d (d.offsetTable.length + 1) objRef ≠ .error .deep) := by
  refine ⟨fun n hn => congrFun (parseBinary_settles hn) objRef, ?_, fun hacc => ?_⟩
  · rintro ⟨n, hv⟩
    have hdeep : ¬ Parsed (.error .deep) := by simp [Parsed]
    have hlimited : Parsed (limited (.error .deep) (parseObject cv d) n objRef) := hv
    exact limited_acc hdeep (fun parse x h => parseObject_ok h) hlimited
  · have hsettled := @parseBinary_settles cv d _ (Nat.le_succ (d.offsetTable.length + 1))
    exact limited_of_acc hsettled (fun parse x h => parseObject_deep h) hacc

def selfContaining : PlistHelperData where
  offsetTable := [0]
  objectTable := [0xA1, 0]
  offsetByteSize := 1
  offsetTableOffset := 2
  objRefSize := 1
  refCount := 1

theorem selfContaining_deep :
    (∀ n, 2 ≤ n → parseBinary plainConversions selfContaining n 0 = .error .deep) ∧
      ¬ Acc (fun y x => Refers plainConversions selfContaining x y) 0 := by
  obtain ⟨hsettled, -, hends⟩ := parseBinary_depth plainConversions selfContaining 0
  exact ⟨fun n hn => hsettled n hn, fun hacc => hends hacc rfl⟩

end SwiftRobot.Plist.Binary
