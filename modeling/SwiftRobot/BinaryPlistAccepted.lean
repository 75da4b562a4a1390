import SwiftRobot.BinaryPlistTables

/-!
# What an accepted list is

Whatever bytes are parsed, a value that comes out holds numbers of the widest type only
and dictionaries with their keys in order. It can be written again, and reads as itself.
-/

namespace SwiftRobot.Plist.Binary
open ByteWords BoundedRecursion
variable {cv : Conversions} {d : PlistHelperData}

def Wide : Scalar → Prop
  | .int64 _ | .string _ | .data _ | .double _ | .date _ | .bool _ => True
  | _ => False

theorem shapeOfKind_wide {objRef : Int32} {headerPosition : ℤ} {kind : ℕ} {v : Value}
    (h : shapeOfKind cv d objRef headerPosition kind = .closed (.ok v)) :
    v.KeyedWith Wide := by
  have hcontainer : ∀ make : List Int32 → Shape, (∀ refs, make refs ≠ .closed (.ok v)) →
      containerShape d make objRef ≠ .closed (.ok v) := by
    intro make hmake hc
    unfold containerShape at hc
    split at hc
    · exact hmake _ hc
    · cases hc
  have hscalar : ∀ {α : Type} {p : Parsing α} {f : α → Scalar},
      (fun a => Value.scalar (f a)) <$> p = .ok v → (∀ a, Wide (f a)) → v.KeyedWith Wide := by
    intro α p f hp hf
    obtain ⟨a, -, rfl⟩ := map_ok hp
    exact hf a
  unfold shapeOfKind at h
  split at h
  case h_8 => exact absurd h (hcontainer _ fun _ => Shape.noConfusion)
  case h_9 => exact absurd h (hcontainer _ fun _ => Shape.noConfusion)
  case h_10 => cases h
  all_goals exact hscalar (Shape.closed.inj h) fun _ => trivial

theorem shape_wide {objRef : Int32} {v : Value} (h : shape cv d objRef = .closed (.ok v)) :
    v.KeyedWith Wide := by
  unfold shape at h
  split at h
  · cases h
  · split at h
    · cases h
    · exact shapeOfKind_wide h

theorem mapM_forall {α β : Type} {f : α → Parsing β} {P : β → Prop} (hf : ∀ a b, f a = .ok b → P b)
    {l : List α} {bs : List β} (h : l.mapM f = .ok bs) : ∀ b ∈ bs, P b := by
  induction l generalizing bs with
  | nil =>
    cases h
    simp
  | cons a l ih =>
    rw [List.mapM_cons] at h
    obtain ⟨b, hb, h⟩ := bind_ok h
    obtain ⟨rest, hrest, h⟩ := bind_ok h
    cases h
    exact List.forall_mem_cons.mpr ⟨hf a b hb, ih hrest⟩

theorem entries_forall {parse : Int32 → Parsing Value} {P : Value → Prop}
    (hparse : ∀ r v, parse r = .ok v → P v) {refs : List (Int32 × Int32)}
    {dict result : OrderedMap Bytes Value} (hdict : ∀ e ∈ dict.entries, P e.2)
    (h : parseBinaryEntries parse refs dict = .ok result) : ∀ e ∈ result.entries, P e.2 := by
  induction refs generalizing dict with
  | nil =>
    cases h
    exact hdict
  | cons r refs ih =>
    obtain ⟨keyAny, -, h⟩ := bind_ok h
    split at h
    · obtain ⟨value, hvalue, h⟩ := bind_ok h
      refine ih (fun e he => ?_) h
      rcases OrderedMap.mem_place he with rfl | he
      · exact hparse _ _ hvalue
      · exact hdict e he
    · cases h

theorem parseBinary_wide {n : ℕ} {objRef : Int32} {v : Value}
    (h : parseBinary cv d n objRef = .ok v) : v.KeyedWith Wide := by
  induction n generalizing objRef v with
  | zero => cases h
  | succ n ih =>
    have hobject : parseObject cv d (parseBinary cv d n) objRef = .ok v := h
    rw [parseObject_shape] at hobject
    cases hs : shape cv d objRef with
    | closed result =>
      rw [hs] at hobject
      have hresult : result = .ok v := hobject
      rw [hresult] at hs
      exact shape_wide hs
    | array refs =>
      rw [hs] at hobject
      obtain ⟨items, hitems, rfl⟩ := map_ok hobject
      exact Value.keyedWith_array.mpr (mapM_forall (fun _ _ hr => ih hr) hitems)
    | dictionary refs =>
      rw [hs] at hobject
      obtain ⟨dict, hdict, rfl⟩ := map_ok hobject
      exact Value.keyedWith_dictionary.mpr ⟨dict.sorted,
        entries_forall (fun _ _ hr => ih hr) (by simp [OrderedMap.empty]) hdict⟩

theorem writeItems_isSome {items : List Value}
    (hitems : ∀ v ∈ items, ∀ d, ∃ d₁, writeBinary cv d v = some d₁) (d : PlistHelperData) :
    ∃ d₁ refs, writeItems cv d items = some (d₁, refs) := by
  induction items with
  | nil => exact ⟨d, [], by rw [writeItems]⟩
  | cons v items ih =>
    obtain ⟨hv, hrest⟩ := List.forall_mem_cons.mp hitems
    obtain ⟨d₁, refs, hwrite⟩ := ih hrest
    obtain ⟨d₂, hwrite'⟩ := hv d₁
    refine ⟨(pushObject d₂ refs).1, (pushObject d₂ refs).2, ?_⟩
    rw [writeItems, hwrite]
    simp only [hwrite']

theorem writeBinary_isSome {v : Value} (h : v.KeyedWith (· ≠ .other)) (d : PlistHelperData) :
    ∃ d₁, writeBinary cv d v = some d₁ := by
  induction v generalizing d with
  | scalar s =>
    rw [writeBinary]
    cases s with
    | other => exact absurd rfl h
    | _ => exact ⟨_, rfl⟩
  | array items ih =>
    rw [Value.keyedWith_array] at h
    obtain ⟨d₁, refs, hitems⟩ := writeItems_isSome (fun v hv d => ih v hv (h v hv) d) d
    exact ⟨writeContainer d₁ 0xA0 items.length refs, by rw [writeBinary, hitems]⟩
  | dictionary entries ih =>
    rw [Value.keyedWith_dictionary] at h
    have hvalues : ∀ v ∈ entries.map Prod.snd, ∀ d, ∃ d₁, writeBinary cv d v = some d₁ := by
      intro v hv d
      obtain ⟨e, he, rfl⟩ := List.mem_map.mp hv
      exact ih e he (h.2 e he) d
    obtain ⟨d₁, refs, hitems⟩ := writeItems_isSome hvalues d
    obtain ⟨d₂, keyRefs, -, hkeys⟩ := @writeKeys_eq cv d₁ refs (entries.map Prod.fst)
    refine ⟨writeContainer d₂ 0xD0 entries.length (keyRefs ++ refs), ?_⟩
    rw [writeBinary, writeValues_eq, hitems]
    simp only [hkeys]

theorem writeObjects_isSome {v : Value} (h : v.KeyedWith (· ≠ .other)) :
    ∃ d, writeObjects cv v = some d := by
  simp only [writeObjects, Option.map_eq_some_iff]
  obtain ⟨d₁, hwrite⟩ := writeBinary_isSome h _
  exact ⟨_, d₁, hwrite, rfl⟩

/-- What reading again changes of a value that was read: the times of dates, as far as the
conversions are not exact. -/
def redate (cv : Conversions) : Scalar → Scalar
  | .date time => .date (cv.setTimeFromAppleEpoch (cv.timeAsAppleEpoch time))
  | s => s

/-- A value that was read from any bytes can be written, and is read from there again. -/
theorem readPlistBinary_rewritten {payload : Bytes} {v : Value}
    (h : readPlistBinary cv payload = .ok v) :
    v.Keyed ∧ ∃ d rewritten, writeObjects cv v = some d ∧
      writePlistBinary cv v = some rewritten ∧
      (OffsetsFit d → rewritten.length < 2 ^ 31 →
        readPlistBinary cv rewritten = .ok (v.mapScalars (redate cv))) := by
  obtain ⟨trailer, -, h⟩ := bind_ok h
  obtain ⟨objectTable, -, h⟩ := bind_ok h
  obtain ⟨offsetTableBytes, -, h⟩ := bind_ok h
  obtain ⟨offsetTable, -, h⟩ := bind_ok h
  have hwide := parseBinary_wide h
  have hkeyed : v.Keyed := hwide.mono fun _ _ => trivial
  have hknown : v.KeyedWith (· ≠ .other) := hwide.mono fun s hs => by
    rintro rfl
    exact hs
  have hsame : v.mapScalars (reread cv) = v.mapScalars (redate cv) :=
    Value.mapScalars_congr (fun s hs => by cases s <;> first | rfl | cases hs) hwide
  obtain ⟨d, hobjects⟩ := @writeObjects_isSome cv v hknown
  obtain ⟨rewritten, hwrite⟩ : ∃ rewritten, writePlistBinary cv v = some rewritten := by
    rw [writePlistBinary, hobjects]
    exact ⟨_, rfl⟩
  refine ⟨hkeyed, d, rewritten, hobjects, hwrite, fun hfit hlen => ?_⟩
  rw [← hsame]
  exact readPlistBinary_writePlistBinary hobjects hfit hwrite hlen hkeyed

theorem resultMessage_rewritten : ∃ rewritten,
    writePlistBinary plainConversions (resultMessage 3) = some rewritten ∧
      readPlistBinary plainConversions rewritten =
        .ok ((resultMessage 3).mapScalars (redate plainConversions)) := by
  have hread : readPlistBinary plainConversions
      ((writePlistBinary plainConversions (resultMessage 3)).getD []) = .ok (resultMessage 3) := rfl
  have hfit : ∀ d ∈ writeObjects plainConversions (resultMessage 3), OffsetsFit d := by decide
  have hlen : ∀ rewritten ∈ writePlistBinary plainConversions (resultMessage 3),
      rewritten.length < 2 ^ 31 := by decide
  obtain ⟨-, d, rewritten, hobjects, hwrite, hagain⟩ := readPlistBinary_rewritten hread
  exact ⟨rewritten, hwrite, hagain (hfit d hobjects) (hlen rewritten hwrite)⟩

end SwiftRobot.Plist.Binary
