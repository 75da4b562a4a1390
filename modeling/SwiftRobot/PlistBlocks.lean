import SwiftRobot.BinaryPlistTables
import SwiftRobot.Connection
import SwiftRobot.PlistPlatform
import SwiftRobot.XmlPlistRoundTrip

/-!
# Property lists in the blocks that are received

With the parsers of a platform, what the reader makes of a block is what they make of the
payload, whatever lies behind it.
-/

namespace SwiftRobot.PlistBlocks
open ByteWords Reading PacketHeaders Plist Plist.Binary Xml XmlPlist

def parsed (p : Platform) (payload : Bytes) : Parsing Value :=
  if payload.take 8 = text "bplist00" then readPlistBinary p.conversions payload
  else p.parseXML payload

section
variable {p : Platform} {payload tail : Bytes}

theorem copyRange_ok {index size : ℤ} {bytes : Bytes}
    (h : copyRange payload index size = .ok bytes) :
    (0 ≤ size ∧ 0 ≤ index ∧ index + size ≤ payload.length) ∧
      (payload.drop index.toNat).take size.toNat = bytes := by
  rw [copyRange] at h
  split_ifs at h with hneg hin
  exact ⟨⟨not_lt.mp hneg, hin⟩, Except.ok.inj h⟩

theorem cut_copyRange (halloc : ∀ n ≤ payload.length, p.allocates n = true) (index size : ℤ)
    (h0 : 0 ≤ index)
    (hin : 0 < size → p.allocates size.toNat = true → index + size ≤ payload.length)
    (hle : index ≤ payload.length) :
    cut p.library payload index size = (copyRange payload index size).toOption := by
  by_cases hneg : size < 0
  · rw [cut, if_pos (Or.inl hneg), copyRange, if_pos hneg]
    rfl
  by_cases hserved : p.allocates size.toNat = true
  · have hend : index + size ≤ payload.length := by
      rcases (not_lt.mp hneg).eq_or_lt with h | h
      · omega
      · exact hin h hserved
    have hallocates : ¬ p.library.allocates size.toNat = false := by simpa [Platform.library]
    rw [cut, if_neg (not_or.mpr ⟨hneg, hallocates⟩), copyRange, if_neg hneg, if_pos ⟨h0, hend⟩]
    rfl
  · -- a size that cannot be served is larger than the payload
    have hlarge : ¬ index + size ≤ payload.length := by
      intro hend
      exact hserved (halloc _ (by omega))
    have hrefused : p.library.allocates size.toNat = false := Bool.eq_false_of_not_eq_true hserved
    rw [cut, if_pos (Or.inr hrefused), copyRange, if_neg hneg, if_neg (fun h => hlarge h.2)]
    rfl

theorem trailer_offset {trailer : Bytes} (hlen : trailer.length = 32) :
    (parseTrailer trailer).offsetTableOffset.toInt = bigEndianInt64 (trailer.drop 24) := by
  have hwhole : (trailer.drop 24).take 8 = trailer.drop 24 :=
    List.take_of_length_le (by simp [hlen])
  have hagain : (trailer.drop 24).take int64.width = trailer.drop 24 := hwhole
  simp only [parseTrailer, bytesToInt, hwhole, hagain]
  rfl

theorem toOption_map (r : Parsing Value) :
    (r.map Value.toAny).toOption = r.toOption.map Value.toAny := by
  cases r <;> rfl

theorem tables_value (tail : Bytes) (halloc : ∀ n ≤ payload.length, p.allocates n = true)
    {offset : ℤ}
    (hoffset : 0 ≤ offset → p.allocates offset.toNat = true → offset ≤ payload.length)
    {parse : Bytes → Bytes → Parsing Value}
    (hends : TablesEnd p.library payload offset fun objectTable offsetTable =>
      (parse objectTable offsetTable).map Value.toAny) :
    ((do
      match ← getRange p.library 0 offset with
      | none => return none
      | some objectTable =>
        match ← getRange p.library offset (payload.length - offset - 32) with
        | none => return none
        | some offsetTable => caught ((parse objectTable offsetTable).map Value.toAny) :
          Reading (Option Any)) (payload ++ tail)).value =
      some ((do
        let objectTable ← copyRange payload 0 offset
        let offsetTable ← copyRange payload offset (payload.length - offset - 32)
        parse objectTable offsetTable : Parsing Value).toOption.map Value.toAny) := by
  have hin (hpos : 0 < offset) (hserved : p.allocates offset.toNat = true) :
      0 + offset ≤ payload.length := by
    have hle := hoffset hpos.le hserved
    omega
  have hobjects := cut_copyRange halloc 0 offset (le_refl 0) hin (by omega)
  rw [bind_value, getRange_value p.library
    ((within_getRange p.library).mpr fun hpos hserved => ⟨le_refl 0, hin hpos hserved⟩), hobjects]
  cases hcopy : copyRange payload 0 offset with
  | error fault => rfl
  | ok objectTable =>
    obtain ⟨⟨h0, -, hend⟩, -⟩ := copyRange_ok hcopy
    have hoffsets := cut_copyRange halloc offset (payload.length - offset - 32) h0
      (by omega) (by omega)
    change ((do
      match ← getRange p.library offset (payload.length - offset - 32) with
      | none => return none
      | some offsetTable => caught ((parse objectTable offsetTable).map Value.toAny) :
        Reading (Option Any)) (payload ++ tail)).value = _
    rw [bind_value, getRange_value p.library
      ((within_getRange p.library).mpr fun _ _ => ⟨h0, by omega⟩), hoffsets]
    cases hcopy' : copyRange payload offset (payload.length - offset - 32) with
    | error fault => rfl
    | ok offsetTable =>
      rw [hcopy] at hobjects
      rw [hcopy'] at hoffsets
      have hparse := hends objectTable hobjects offsetTable hoffsets
      exact (caught_value hparse _).trans (congrArg some (toOption_map _))

theorem readPlistBinary_trailer {cv : Conversions} {trailer : Bytes}
    (h : copyRange payload ((payload.length : ℤ) - 32) 32 = .ok trailer) :
    readPlistBinary cv payload = (do
      let objectTable ← copyRange payload 0 (parseTrailer trailer).offsetTableOffset.toInt
      let offsetTable ← copyRange payload (parseTrailer trailer).offsetTableOffset.toInt
        (payload.length - (parseTrailer trailer).offsetTableOffset.toInt - 32)
      parsePlist cv trailer objectTable offsetTable) := by
  rw [readPlistBinary, h]
  rfl

theorem trailer_cut (h32 : 32 ≤ payload.length) : ∃ trailer,
    copyRange payload ((payload.length : ℤ) - 32) 32 = .ok trailer ∧
      (parseTrailer trailer).offsetTableOffset.toInt = offsetTableOffset payload ∧
      bigEndianInt64 (trailer.drop 24) = offsetTableOffset payload := by
  have hstart : ((payload.length : ℤ) - 32).toNat = payload.length - 32 := by omega
  have hlen : (payload.drop (payload.length - 32)).length = 32 := by
    rw [List.length_drop]
    omega
  have hlast : bigEndianInt64 ((payload.drop (payload.length - 32)).drop 24) =
      offsetTableOffset payload := by
    rw [offsetTableOffset, List.drop_drop]
    congr 2
    omega
  refine ⟨payload.drop (payload.length - 32), ?_, (trailer_offset hlen).trans hlast, hlast⟩
  rw [copyRange, if_neg (by omega), if_pos (by omega), hstart, List.take_of_length_le]
  exact hlen.le

theorem readBinary_value (halloc : ∀ n ≤ payload.length + 32, p.allocates n = true)
    (h32 : 32 ≤ payload.length)
    (hoffset : 0 ≤ offsetTableOffset payload →
      p.allocates (offsetTableOffset payload).toNat = true →
      offsetTableOffset payload ≤ payload.length)
    (hends : TablesEnd p.library payload (offsetTableOffset payload)
      (p.library.parseBinary (payload.drop (payload.length - 32)))) :
    (readBinary p.library payload.length (payload ++ tail)).value =
      some ((readPlistBinary p.conversions payload).toOption.map Value.toAny) := by
  have hserved : ∀ n ≤ payload.length, p.allocates n = true := fun n hn => halloc n (by omega)
  obtain ⟨trailer, hcut, htrailer, hlast⟩ := trailer_cut h32
  have hstart : ((payload.length : ℤ) - 32).toNat = payload.length - 32 := by omega
  have htake : payload.drop (payload.length - 32) = trailer := by
    rw [← (copyRange_ok hcut).2, hstart, List.take_of_length_le]
    simp
    omega
  rw [htake] at hends
  have htables := tables_value tail hserved hoffset hends
  have hcopy := cut_copyRange hserved ((payload.length : ℤ) - 32) 32 (by omega) (by omega)
    (by omega)
  rw [hcut] at hcopy
  rw [readPlistBinary_trailer hcut, htrailer, ← htables, readBinary, bind_value,
    getRange_value p.library ((within_getRange p.library).mpr fun _ _ => by omega), hcopy]
  simp only [Except.toOption, Option.bind_some, hlast]
  rfl

theorem readPlist_value (halloc : ∀ n ≤ payload.length + 32, p.allocates n = true)
    (hholds : Holds p.library payload) (hne : payload ≠ []) :
    (readPlist p.library payload.length (payload ++ tail)).value =
      some ((parsed p payload).toOption.bind fun v => v.toAny.dictionary?) := by
  have hlen : payload.length ≠ 0 := by simpa using hne
  obtain ⟨h8, hlist⟩ := hholds.resolve_left hne
  have hmagic := bytes_value_front payload tail 0 8 (by omega)
  rw [List.drop_zero] at hmagic
  have hcontents := bytes_value_front payload tail 0 payload.length (by omega)
  rw [List.drop_zero, List.take_length] at hcontents
  rw [readPlist, if_neg hlen, bind_value, hmagic, Option.bind_some, parsed]
  split_ifs at hlist ⊢ with hbin
  · obtain ⟨h32, hoffset, hends⟩ := hlist (halloc 32 (by omega))
    rw [bind_value, readBinary_value halloc h32 hoffset hends]
    cases (readPlistBinary p.conversions payload).toOption <;> rfl
  · rw [bind_value, readXML, bind_value, hcontents, Option.bind_some, caught_value hlist]
    change some (Option.bind (Except.toOption (Except.map Value.toAny _)) Any.dictionary?) = _
    rw [toOption_map]
    cases (p.parseXML payload).toOption <;> rfl

theorem start_of_written {texts : Texts} {v : Value} (h : writePlistXML texts v = .ok payload) :
    ∃ rest, payload = text "<?xml ve" ++ rest := by
  rw [writePlistXML] at h
  cases hnode : writeXMLNode texts v with
  | error message =>
    rw [hnode] at h
    cases h
  | ok n =>
    rw [hnode] at h
    cases h
    exact ⟨_, rfl⟩

theorem parsed_xml {v : Value} (hv : v.KeyedWith (Legible p.texts))
    (hwrite : writePlistXML p.texts v = .ok payload) :
    Holds p.library payload ∧ parsed p payload = .ok (readValue p.texts v) := by
  obtain ⟨contents, hwrite', hread⟩ := readPlistXML_writePlistXML p.texts p.convert hv
  obtain rfl := Except.ok.inj (hwrite.symm.trans hwrite')
  obtain ⟨rest, rfl⟩ := start_of_written hwrite
  have hmagic : (text "<?xml ve" ++ rest).take 8 ≠ text "bplist00" := by
    have hstart : (text "<?xml ve" ++ rest).take 8 = text "<?xml ve" := List.take_left' rfl
    rw [hstart]
    decide
  have hlen : 8 ≤ (text "<?xml ve" ++ rest).length := by
    rw [List.length_append]
    exact Nat.le_add_right _ _
  have hparse : p.parseXML (text "<?xml ve" ++ rest) = .ok (readValue p.texts v) := by
    rw [Platform.parseXML, hread]
  refine ⟨Or.inr ⟨hlen, ?_⟩, ?_⟩
  · rw [if_neg hmagic]
    intro fault hfault
    change (p.parseXML _).map Value.toAny = _ at hfault
    rw [hparse] at hfault
    cases hfault
  · rw [parsed, if_neg hmagic, hparse]

theorem parsed_ne_nil {v : Value} (hparsed : parsed p payload = .ok v) : payload ≠ [] := by
  rintro rfl
  cases hparsed

end

def waiting : Connection :=
  { Connection.ofDevice ⟨1, 0, 0, 0, [], []⟩ 8080 with status := .connecting }

end SwiftRobot.PlistBlocks
