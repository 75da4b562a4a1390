import SwiftRobot.Support.ObjectLayout
import SwiftRobot.ArrayCodecs

/-!
# The codecs of the messages with fields

`Image`, `IMU`, `Drive` and `Odometry` copy a span of their own object, counted by a
literal or by `sizeof`. The objects are laid out here member by member, the empty base
taking no room, so that a count which runs into padding or past the object shows.
-/

namespace SwiftRobot.StructuredCodecs
open ByteWords Copying Reading Messages ArrayCodecs ObjectLayout

def floatMember (x : FloatBits) : Member := ⟨4, float.bytes x⟩

def IMU.members (m : IMU) : List Member := m.fields.map floatMember

def Odometry.members (m : Odometry) : List Member := m.fields.map floatMember

def Drive.members (m : Drive) : List Member :=
  [floatMember m.throttle, floatMember m.brake, floatMember m.steer, ⟨1, uint8.bytes m.reverse⟩]

def Image.members (m : Image) : List Member :=
  [⟨2, uint16.bytes m.width⟩, ⟨2, uint16.bytes m.height⟩, ⟨1, m.pixelFormat.toList⟩]

/-- The word that is copied from the array itself; its elements lie in a block of their own. -/
def UInt8Array.members (m : UInt8Array) : List Member := [⟨4, uint32.bytes m.size⟩]

/-- What `serialize` takes from the object's memory. -/
def UInt8Array.copies (m : UInt8Array) : Option (List Copy) := do
  let size := UInt32.ofNat m.data.length
  let head ← copied (UInt8Array.members { m with size }) 0 4
  let elements ← copied [⟨1, m.data⟩] 0 size.toNat
  return [⟨0, head⟩, ⟨4, elements⟩]

def Image.copies (m : Image) : Option (List Copy) := do
  let head ← copied (Image.members m) 0 8
  let pixels ← UInt8Array.copies m.pixelArray
  return ⟨0, head⟩ :: pixels.map fun c => ⟨c.offset + 8, c.data⟩

def IMU.copies (m : IMU) : Option (List Copy) := do
  let bs ← copied (IMU.members m) 0 (objectSize (IMU.members m))
  return [⟨0, bs⟩]

def Drive.copies (m : Drive) : Option (List Copy) := do
  let bs ← copied (Drive.members m) 0 13
  return [⟨0, bs⟩]

def Odometry.copies (m : Odometry) : Option (List Copy) := do
  let bs ← copied (Odometry.members m) 0 (objectSize (Odometry.members m))
  return [⟨0, bs⟩]

inductive Structured
  | image (m : Image)
  | imu (m : IMU)
  | drive (m : Drive)
  | odometry (m : Odometry)

def Structured.msg : Structured → Msg
  | image m => .image m
  | imu m => .imu m
  | drive m => .drive m
  | odometry m => .odometry m

def Structured.copies : Structured → Option (List Copy)
  | image m => Image.copies m
  | imu m => IMU.copies m
  | drive m => Drive.copies m
  | odometry m => Odometry.copies m

def Structured.Fits : Structured → Prop
  | image m => m.pixelArray.data.length + 12 < 2 ^ 32
  | imu _ | drive _ | odometry _ => True

/-- `serialize` copies bytes of the object's members only, writes exactly `getSize()` bytes,
and `deserialize` of them, whatever follows, is the message. -/
def Structured.RoundTrip (m : Structured) : Prop :=
  m.copies = some m.msg.serialize ∧ Covers m.msg.serialize m.msg.getSize.toNat ∧
  ∀ front back buffer : Bytes, buffer.length = m.msg.getSize.toNat →
    ∃ d, (m.msg.kind.deserialize front.length
        (front ++ (store m.msg.serialize buffer ++ back))).value = some d ∧
      d.msg.contents = m.msg.contents ∧ d.overrun = 0

theorem roundTrip_of_consecutive {m : Structured} (blocks : List Bytes)
    (hcopies : m.copies = some (consecutive 0 blocks))
    (hserialize : m.msg.serialize = consecutive 0 blocks)
    (hsize : m.msg.getSize.toNat = blocks.flatten.length)
    (hread : ∀ front back : Bytes, ∃ d,
      (m.msg.kind.deserialize front.length (front ++ (blocks.flatten ++ back))).value = some d ∧
        d.msg.contents = m.msg.contents ∧ d.overrun = 0) : m.RoundTrip := by
  refine ⟨hcopies.trans (congrArg some hserialize.symm), ?_, fun front back buffer hbuffer => ?_⟩
  · rw [hserialize, hsize]
    exact consecutive_covers blocks
  · rw [hserialize, store_consecutive blocks buffer (hbuffer.trans hsize)]
    exact hread front back

theorem floats_packed (xs : List FloatBits) {position : ℕ} (h : 4 ∣ position) :
    Packed position (xs.map floatMember) := by
  induction xs generalizing position with
  | nil => trivial
  | cons x xs ih =>
    have hlen : (floatMember x).bytes.length = 4 := Word.bytes_length _ _
    refine ⟨?_, ih (by rw [hlen]; omega)⟩
    simp only [floatMember, alignUp]
    omega

theorem contents_floats (xs : List FloatBits) : contents (xs.map floatMember) = float.flat xs := by
  induction xs with
  | nil => rfl
  | cons x xs ih =>
    rw [List.map_cons, contents_cons, ih, Word.flat_cons]
    rfl

theorem copied_floats (xs : List FloatBits) :
    copied (xs.map floatMember) 0 (4 * xs.length) = some (float.flat xs) := by
  have hlen : (float.flat xs).length = 4 * xs.length := by simp [Nat.mul_comm]
  rw [copied_of_packed (floats_packed xs (Nat.dvd_zero 4)), contents_floats, List.drop_zero,
    ← hlen, List.take_length]
  rw [contents_floats, hlen, Nat.zero_add]

theorem objectSize_floats (x : FloatBits) (xs : List FloatBits) :
    objectSize ((x :: xs).map floatMember) = 4 * (xs.length + 1) := by
  have hend : ∀ (ys : List FloatBits) (position : ℕ), 4 ∣ position →
      endOf position (ys.map floatMember) = position + 4 * ys.length := by
    intro ys
    induction ys with
    | nil => exact fun _ _ => rfl
    | cons y ys ih =>
      intro position hposition
      have hlen : (floatMember y).bytes.length = 4 := Word.bytes_length _ _
      have hup : alignUp (floatMember y).align position = position := by
        simp only [floatMember, alignUp]
        omega
      rw [List.map_cons, endOf, hup, hlen, ih _ (by omega), List.length_cons]
      omega
  have halign : ∀ ys : List FloatBits, alignOf (ys.map floatMember) ≤ 4 := by
    intro ys
    induction ys with
    | nil => decide
    | cons y ys ih => exact max_le (le_refl 4) ih
  have hmax : alignOf ((x :: xs).map floatMember) = 4 := max_eq_left (halign xs)
  rw [objectSize, hmax, hend _ 0 (Nat.dvd_zero 4), List.length_cons]
  simp only [alignUp]
  omega

theorem floatField_flat (xs : List FloatBits) (rest : Bytes) {i : ℕ} (hi : i < xs.length) :
    floatField (float.flat xs ++ rest) i = xs[i] := by
  induction xs generalizing i with
  | nil => simp at hi
  | cons x xs ih =>
    have hx : (float.bytes x).length = 4 := Word.bytes_length _ _
    cases i with
    | zero =>
      simp only [floatField, Word.flat_cons, List.append_assoc, Nat.mul_zero, List.drop_zero,
        List.getElem_cons_zero]
      rw [List.take_left' hx, Word.ofBytes_bytes]
    | succ i =>
      have hnext := ih (Nat.lt_of_succ_lt_succ hi)
      have hdrop : 4 * (i + 1) = (float.bytes x).length + 4 * i := by omega
      simp only [floatField, Word.flat_cons, List.append_assoc, List.getElem_cons_succ] at hnext ⊢
      rw [hdrop, List.drop_length_add_append]
      exact hnext

theorem floatField_read (xs : List FloatBits) {i : ℕ} (hi : i < xs.length) :
    floatField (float.flat xs) i = xs[i] := by
  simpa using floatField_flat xs [] hi

theorem imu_copied (m : IMU) :
    copied (IMU.members m) 0 (objectSize (IMU.members m)) = some (float.flat m.fields) := by
  rw [IMU.members, IMU.fields, objectSize_floats]
  exact copied_floats m.fields

theorem odometry_copied (m : Odometry) :
    copied (Odometry.members m) 0 (objectSize (Odometry.members m)) =
      some (float.flat m.fields) := by
  rw [Odometry.members, Odometry.fields, objectSize_floats]
  exact copied_floats m.fields

theorem imu_roundTrip (m : IMU) : (Structured.imu m).RoundTrip := by
  have hlen : (float.flat m.fields).length = 36 := Word.flat_length _ _
  refine roundTrip_of_consecutive [float.flat m.fields] ?_ rfl ?_ fun front back => ?_
  · simp only [Structured.copies, IMU.copies, imu_copied]
    rfl
  · rw [List.flatten_singleton, hlen]
    rfl
  · have hread := bytes_value_middle front (float.flat m.fields) back _ 36 rfl hlen.symm
    refine ⟨⟨.imu m, 0⟩, ?_, rfl, rfl⟩
    simp only [Structured.msg, Msg.kind, MsgKind.deserialize, map_value, IMU.deserialize,
      bind_value, List.flatten_singleton, hread, Option.bind_some, pure_value, Option.map_some]
    simp [floatField_read, IMU.fields, Decoded.map, -Word.flat_cons]

theorem odometry_roundTrip (m : Odometry) : (Structured.odometry m).RoundTrip := by
  have hlen : (float.flat m.fields).length = 24 := Word.flat_length _ _
  refine roundTrip_of_consecutive [float.flat m.fields] ?_ rfl ?_ fun front back => ?_
  · simp only [Structured.copies, Odometry.copies, odometry_copied]
    rfl
  · rw [List.flatten_singleton, hlen]
    rfl
  · have hread := bytes_value_middle front (float.flat m.fields) back _ 24 rfl hlen.symm
    refine ⟨⟨.odometry m, 0⟩, ?_, rfl, rfl⟩
    simp only [Structured.msg, Msg.kind, MsgKind.deserialize, map_value, Odometry.deserialize,
      bind_value, List.flatten_singleton, hread, Option.bind_some, pure_value, Option.map_some]
    simp [floatField_read, Odometry.fields, Decoded.map, -Word.flat_cons]

def driveBytes (m : Drive) : Bytes :=
  float.flat [m.throttle, m.brake, m.steer] ++ uint8.bytes m.reverse

theorem driveBytes_length (m : Drive) : (driveBytes m).length = 13 := by
  simp [driveBytes]

theorem drive_packed (m : Drive) : Packed 0 (Drive.members m) := by
  simp [Drive.members, Packed, floatMember, alignUp]

theorem drive_contents (m : Drive) : contents (Drive.members m) = driveBytes m := by
  simp [contents, Drive.members, driveBytes, floatMember]

theorem drive_copied (m : Drive) : copied (Drive.members m) 0 13 = some (driveBytes m) := by
  have hlen := driveBytes_length m
  rw [copied_of_packed (drive_packed m) (by rw [drive_contents, hlen]), drive_contents,
    List.drop_zero, ← hlen, List.take_length]

theorem drive_roundTrip (m : Drive) : (Structured.drive m).RoundTrip := by
  have hlen := driveBytes_length m
  refine roundTrip_of_consecutive [driveBytes m] ?_ rfl ?_ fun front back => ?_
  · simp only [Structured.copies, Drive.copies, drive_copied]
    rfl
  · rw [List.flatten_singleton, hlen]
    rfl
  · have hread := bytes_value_middle front (driveBytes m) back _ 13 rfl hlen.symm
    have hfloat := fun i => floatField_flat [m.throttle, m.brake, m.steer]
      (uint8.bytes m.reverse) (i := i)
    have hreverse : (driveBytes m).getD 12 0 = m.reverse := by
      rw [driveBytes, List.getD_eq_getElem?_getD, List.getElem?_append_right (by simp),
        uint8_bytes]
      simp
    refine ⟨⟨.drive m, 0⟩, ?_, rfl, rfl⟩
    simp only [Structured.msg, Msg.kind, MsgKind.deserialize, map_value, Drive.deserialize,
      bind_value, List.flatten_singleton, hread, Option.bind_some, pure_value, Option.map_some,
      hreverse]
    simp [driveBytes, hfloat, Decoded.map, -Word.flat_cons]

theorem header_length (m : Image) : m.header.length = 8 := by
  simp [Image.header]

theorem image_packed (m : Image) : Packed 0 (Image.members m) := by
  simp [Image.members, Packed, alignUp]

theorem image_contents (m : Image) : contents (Image.members m) = m.header := by
  simp [contents, Image.members, Image.header]

theorem image_copied (m : Image) : copied (Image.members m) 0 8 = some m.header := by
  have hlen := header_length m
  rw [copied_of_packed (image_packed m) (by rw [image_contents, hlen]), image_contents,
    List.drop_zero, ← hlen, List.take_length]

theorem header_fields (m : Image) :
    uint16.ofBytes (m.header.take 2) = m.width ∧
      uint16.ofBytes ((m.header.drop 2).take 2) = m.height ∧
      (Vector.ofFn fun i : Fin 4 => m.header.getD (4 + i) 0) = m.pixelFormat := by
  have hwidth := uint16_bytes_length m.width
  have hheight := uint16_bytes_length m.height
  refine ⟨?_, ?_, ?_⟩
  · rw [Image.header, List.append_assoc, List.take_left' hwidth, Word.ofBytes_bytes]
  · rw [Image.header, List.append_assoc, List.drop_left' hwidth, List.take_left' hheight,
      Word.ofBytes_bytes]
  · ext i hi
    have hfront : (uint16.bytes m.width ++ uint16.bytes m.height).length = 4 := by
      rw [List.length_append, hwidth, hheight]
    rw [Vector.getElem_ofFn, Image.header, List.getD_eq_getElem?_getD,
      List.getElem?_append_right (by omega), hfront]
    simp [hi]

def arrayBlocks (m : UInt8Array) : List Bytes :=
  [uint32.bytes (UInt32.ofNat m.data.length), m.data]

theorem uint8Array_serialize (m : UInt8Array) (h : m.data.length + 4 < 2 ^ 32) :
    UInt8Array.serialize m = consecutive 0 (arrayBlocks m) := by
  have hs := arraySerialize_eq uint8 m (by simpa using h)
  rw [uint8_width, Nat.mul_one, uint8_flat] at hs
  exact hs

theorem uint8Array_copies (m : UInt8Array) (h : m.data.length + 4 < 2 ^ 32) :
    UInt8Array.copies m = some (consecutive 0 (arrayBlocks m)) := by
  have hword : copied (UInt8Array.members { m with size := UInt32.ofNat m.data.length }) 0 4 =
      some (uint32.bytes (UInt32.ofNat m.data.length)) := copied_single 4 _
  have helements : copied [⟨1, m.data⟩] 0 m.data.length = some m.data := copied_single 1 m.data
  simp only [UInt8Array.copies, hword, toNat_size h, helements, Option.bind_eq_bind,
    Option.bind_some, Option.pure_def, arrayBlocks, consecutive, uint32_bytes_length]

theorem image_serialize (m : Image) (h : m.pixelArray.data.length + 4 < 2 ^ 32) :
    m.serialize = consecutive 0 (m.header :: arrayBlocks m.pixelArray) := by
  have hlen : 0 + m.header.length = 0 + 8 := by rw [header_length]
  rw [Image.serialize, uint8Array_serialize _ h, map_consecutive, consecutive, hlen]

theorem image_copies (m : Image) (h : m.pixelArray.data.length + 4 < 2 ^ 32) :
    Image.copies m = some (consecutive 0 (m.header :: arrayBlocks m.pixelArray)) := by
  have hlen : 0 + m.header.length = 0 + 8 := by rw [header_length]
  simp only [Image.copies, image_copied, uint8Array_copies _ h, Option.bind_eq_bind,
    Option.bind_some, Option.pure_def]
  rw [map_consecutive, consecutive, hlen]

theorem image_deserialize (m : Image) (front back : Bytes)
    (h : m.pixelArray.data.length + 4 < 2 ^ 32) :
    (Image.deserialize front.length
        (front ++ ((m.header :: arrayBlocks m.pixelArray).flatten ++ back))).value =
      some ⟨{ m with pixelArray := ⟨UInt32.ofNat m.pixelArray.data.length,
        m.pixelArray.data⟩ }, 0⟩ := by
  have hlen := header_length m
  obtain ⟨hwidth, hheight, hformat⟩ := header_fields m
  have hpixels := uint8Array_deserialize_arrayBytes (front ++ m.header) back m.pixelArray.data h
  have hbytes : arrayBytes uint8 m.pixelArray.data = (arrayBlocks m.pixelArray).flatten := by
    simp [arrayBytes, arrayBlocks, uint8_flat]
  rw [List.length_append, hlen, hbytes, List.append_assoc] at hpixels
  have hread := bytes_value_middle front m.header ((arrayBlocks m.pixelArray).flatten ++ back)
    front.length 8 rfl hlen.symm
  rw [List.flatten_cons, List.append_assoc, Image.deserialize]
  simp only [bind_value, hread, hpixels, Option.bind_some, pure_value, hwidth, hheight, hformat]

theorem image_roundTrip (m : Image) (h : m.pixelArray.data.length + 12 < 2 ^ 32) :
    (Structured.image m).RoundTrip := by
  have hfits : m.pixelArray.data.length + 4 < 2 ^ 32 := by omega
  refine roundTrip_of_consecutive (m.header :: arrayBlocks m.pixelArray) (image_copies m hfits)
    (image_serialize m hfits) ?_ fun front back => ?_
  · have hpixels : (UInt8Array.getSize m.pixelArray).toNat = 4 + m.pixelArray.data.length := by
      rw [UInt8Array.getSize, arrayGetSize, UInt32.toNat_ofNat', uint8_width]
      omega
    have hblocks : (m.header :: arrayBlocks m.pixelArray).flatten.length =
        8 + (4 + m.pixelArray.data.length) := by
      simp [arrayBlocks, header_length]
    rw [hblocks]
    change (UInt32.ofNat (2 * 2 + 1 * 4 + (UInt8Array.getSize m.pixelArray).toNat)).toNat = _
    rw [hpixels, UInt32.toNat_ofNat']
    omega
  · have hread := image_deserialize m front back hfits
    refine ⟨⟨.image { m with pixelArray := ⟨UInt32.ofNat m.pixelArray.data.length,
      m.pixelArray.data⟩ }, 0⟩, ?_, rfl, rfl⟩
    simp only [Structured.msg, Msg.kind, MsgKind.deserialize, map_value, hread, Option.map_some,
      Decoded.map]

theorem structured_roundTrip (m : Structured) (h : m.Fits) : m.RoundTrip := by
  cases m with
  | image m => exact image_roundTrip m h
  | imu m => exact imu_roundTrip m
  | drive m => exact drive_roundTrip m
  | odometry m => exact odometry_roundTrip m

/-- One pixel of three bytes, in the format `RGB8`. -/
theorem structured_roundTrip_pixel :
    (Structured.image ⟨1, 1, #v[82, 71, 66, 56], ⟨0, [10, 20, 30]⟩⟩).Fits ∧
      (Structured.image ⟨1, 1, #v[82, 71, 66, 56], ⟨0, [10, 20, 30]⟩⟩).RoundTrip := by
  have hfits : (Structured.image ⟨1, 1, #v[82, 71, 66, 56], ⟨0, [10, 20, 30]⟩⟩).Fits := by
    simp [Structured.Fits]
  exact ⟨hfits, structured_roundTrip _ hfits⟩

end SwiftRobot.StructuredCodecs
