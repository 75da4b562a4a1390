import SwiftRobot.Support.Copying
import SwiftRobot.Support.Reading

/-!
# The message types and their codecs

Serializers are the block copies they make into the buffer they are given;
deserializers read from a position of a received block. Element counts and byte
counts are kept apart as in the source: `size` is a byte count, and the vector a
deserializer allocates has its own element count. Bytes copied past that vector
are counted in `overrun`.
-/

namespace SwiftRobot.Messages
open ByteWords Copying Reading

/-- A message together with the number of bytes its deserializer copied past the
vector it had allocated. -/
structure Decoded (M : Type) where
  msg : M
  overrun : ℕ

structure BaseArray (α : Type) where
  size : UInt32
  data : List α
  deriving DecidableEq, Repr

abbrev UInt8Array := BaseArray UInt8
abbrev UInt16Array := BaseArray UInt16
abbrev UInt32Array := BaseArray UInt32
abbrev Int8Array := BaseArray Int8
abbrev Int16Array := BaseArray Int16
abbrev Int32Array := BaseArray Int32
abbrev FloatArray := BaseArray FloatBits

section
variable {α : Type} (w : Word α)

/-- `size` is computed in 64 bits and stored in 32; the second copy takes `size` bytes. -/
def arraySerialize (m : BaseArray α) : List Copy :=
  let size := UInt32.ofNat (m.data.length * w.width)
  [⟨0, uint32.bytes size⟩, ⟨4, (w.flat m.data).take size.toNat⟩]

def arrayGetSize (m : BaseArray α) : UInt32 := UInt32.ofNat (4 + m.data.length * w.width)

/-- The vector gets `size / divisor` elements, and `size` bytes are copied into it. -/
def arrayDeserialize (divisor dat : ℕ) : Reading (Decoded (BaseArray α)) := do
  let size ← word uint32 dat
  let count := size.toNat / divisor
  let copied ← bytes (dat + 4) size.toNat
  return ⟨⟨size, w.words count copied⟩, size.toNat - count * w.width⟩

end

def UInt8Array.serialize (m : UInt8Array) : List Copy := arraySerialize uint8 m
def UInt16Array.serialize (m : UInt16Array) : List Copy := arraySerialize uint16 m
def UInt32Array.serialize (m : UInt32Array) : List Copy := arraySerialize uint32 m
def Int8Array.serialize (m : Int8Array) : List Copy := arraySerialize int8 m
def Int16Array.serialize (m : Int16Array) : List Copy := arraySerialize int16 m
def Int32Array.serialize (m : Int32Array) : List Copy := arraySerialize int32 m
def FloatArray.serialize (m : FloatArray) : List Copy := arraySerialize float m

def UInt8Array.getSize (m : UInt8Array) : UInt32 := arrayGetSize uint8 m
def UInt16Array.getSize (m : UInt16Array) : UInt32 := arrayGetSize uint16 m
def UInt32Array.getSize (m : UInt32Array) : UInt32 := arrayGetSize uint32 m
def Int8Array.getSize (m : Int8Array) : UInt32 := arrayGetSize int8 m
def Int16Array.getSize (m : Int16Array) : UInt32 := arrayGetSize int16 m
def Int32Array.getSize (m : Int32Array) : UInt32 := arrayGetSize int32 m
def FloatArray.getSize (m : FloatArray) : UInt32 := arrayGetSize float m

/-- The one array whose vector is built from the byte range itself. -/
def UInt8Array.deserialize (dat : ℕ) : Reading (Decoded UInt8Array) := do
  let size ← word uint32 dat
  let data ← bytes (dat + 4) size.toNat
  return ⟨⟨size, data⟩, 0⟩

-- every other type divides by sizeof(uint32_t), whatever its element width
def UInt16Array.deserialize (dat : ℕ) : Reading (Decoded UInt16Array) := arrayDeserialize uint16 4 dat
def UInt32Array.deserialize (dat : ℕ) : Reading (Decoded UInt32Array) := arrayDeserialize uint32 4 dat
def Int8Array.deserialize (dat : ℕ) : Reading (Decoded Int8Array) := arrayDeserialize int8 4 dat
def Int16Array.deserialize (dat : ℕ) : Reading (Decoded Int16Array) := arrayDeserialize int16 4 dat
def Int32Array.deserialize (dat : ℕ) : Reading (Decoded Int32Array) := arrayDeserialize int32 4 dat
def FloatArray.deserialize (dat : ℕ) : Reading (Decoded FloatArray) := arrayDeserialize float 4 dat

inductive Status
  | attached
  | detached
  | connected
  | disconnected
  deriving DecidableEq, Repr

def Status.code : Status → UInt8
  | .attached => 0
  | .detached => 1
  | .connected => 2
  | .disconnected => 3

def Status.ofCode? (b : UInt8) : Option Status :=
  [Status.attached, .detached, .connected, .disconnected].find? fun s => s.code == b

structure UpdateMsg where
  clientID : Bytes
  status : Status
  deriving DecidableEq, Repr

/-- The status byte goes to position 1, over the text when there is one. -/
def UpdateMsg.serialize (m : UpdateMsg) : List Copy :=
  [⟨0, m.clientID ++ [0]⟩, ⟨1, [m.status.code]⟩]

def UpdateMsg.getSize (m : UpdateMsg) : UInt32 := UInt32.ofNat (m.clientID.length + 1 + 1)

def UpdateMsg.deserialize (dat : ℕ) : Reading (Decoded UpdateMsg) := do
  let clientID ← cstring dat
  let b ← word uint8 (dat + clientID.length + 1)
  match Status.ofCode? b with
  | some status => return ⟨⟨clientID, status⟩, 0⟩
  | none => fault

structure Image where
  width : UInt16
  height : UInt16
  pixelFormat : Vector UInt8 4
  pixelArray : UInt8Array
  deriving DecidableEq, Repr

def Image.header (m : Image) : Bytes :=
  uint16.bytes m.width ++ uint16.bytes m.height ++ m.pixelFormat.toList

def Image.serialize (m : Image) : List Copy :=
  ⟨0, m.header⟩ ::
    (UInt8Array.serialize m.pixelArray).map fun c => ⟨c.offset + 8, c.data⟩

def Image.getSize (m : Image) : UInt32 :=
  UInt32.ofNat (2 * 2 + 1 * 4 + (UInt8Array.getSize m.pixelArray).toNat)

def Image.deserialize (dat : ℕ) : Reading (Decoded Image) := do
  let head ← bytes dat 8
  let pixels ← UInt8Array.deserialize (dat + 8)
  return ⟨⟨uint16.ofBytes (head.take 2), uint16.ofBytes ((head.drop 2).take 2),
    Vector.ofFn fun i => head.getD (4 + i) 0, pixels.msg⟩, pixels.overrun⟩

structure IMU where
  orientationX : FloatBits
  orientationY : FloatBits
  orientationZ : FloatBits
  angularVelocityX : FloatBits
  angularVelocityY : FloatBits
  angularVelocityZ : FloatBits
  linearAccelerationX : FloatBits
  linearAccelerationY : FloatBits
  linearAccelerationZ : FloatBits
  deriving DecidableEq, Repr

def IMU.fields (m : IMU) : List FloatBits :=
  [m.orientationX, m.orientationY, m.orientationZ, m.angularVelocityX, m.angularVelocityY,
    m.angularVelocityZ, m.linearAccelerationX, m.linearAccelerationY, m.linearAccelerationZ]

def floatField (bs : Bytes) (i : ℕ) : FloatBits := float.ofBytes ((bs.drop (4 * i)).take 4)

def IMU.serialize (m : IMU) : List Copy := [⟨0, float.flat m.fields⟩]

def IMU.getSize (_ : IMU) : UInt32 := 36

def IMU.deserialize (dat : ℕ) : Reading (Decoded IMU) := do
  let bs ← bytes dat 36
  return ⟨⟨floatField bs 0, floatField bs 1, floatField bs 2, floatField bs 3, floatField bs 4,
    floatField bs 5, floatField bs 6, floatField bs 7, floatField bs 8⟩, 0⟩

structure Drive where
  throttle : FloatBits
  brake : FloatBits
  steer : FloatBits
  reverse : UInt8
  deriving DecidableEq, Repr

def Drive.serialize (m : Drive) : List Copy :=
  [⟨0, float.flat [m.throttle, m.brake, m.steer] ++ uint8.bytes m.reverse⟩]

def Drive.getSize (_ : Drive) : UInt32 := 3 * 4 + 1

def Drive.deserialize (dat : ℕ) : Reading (Decoded Drive) := do
  let bs ← bytes dat 13
  return ⟨⟨floatField bs 0, floatField bs 1, floatField bs 2, bs.getD 12 0⟩, 0⟩

structure Odometry where
  positionX : FloatBits
  positionY : FloatBits
  positionZ : FloatBits
  roll : FloatBits
  pitch : FloatBits
  yaw : FloatBits
  deriving DecidableEq, Repr

def Odometry.fields (m : Odometry) : List FloatBits :=
  [m.positionX, m.positionY, m.positionZ, m.roll, m.pitch, m.yaw]

def Odometry.serialize (m : Odometry) : List Copy := [⟨0, float.flat m.fields⟩]

def Odometry.getSize (_ : Odometry) : UInt32 := 24

def Odometry.deserialize (dat : ℕ) : Reading (Decoded Odometry) := do
  let bs ← bytes dat 24
  return ⟨⟨floatField bs 0, floatField bs 1, floatField bs 2, floatField bs 3, floatField bs 4,
    floatField bs 5⟩, 0⟩

inductive MsgKind
  | uint8Array | uint16Array | uint32Array | int8Array | int16Array | int32Array | floatArray
  | updateMsg | image | imu | drive | odometry
  deriving DecidableEq, Repr

def MsgKind.type : MsgKind → UInt16
  | .uint8Array => 0x0001
  | .uint16Array => 0x0002
  | .uint32Array => 0x0003
  | .int8Array => 0x0004
  | .int16Array => 0x0005
  | .int32Array => 0x0006
  | .floatArray => 0x0007
  | .updateMsg => 0x0101
  | .image => 0x0201
  | .imu => 0x0202
  | .drive => 0x0301
  | .odometry => 0x0401

inductive Msg
  | uint8Array (m : UInt8Array)
  | uint16Array (m : UInt16Array)
  | uint32Array (m : UInt32Array)
  | int8Array (m : Int8Array)
  | int16Array (m : Int16Array)
  | int32Array (m : Int32Array)
  | floatArray (m : FloatArray)
  | updateMsg (m : UpdateMsg)
  | image (m : Image)
  | imu (m : IMU)
  | drive (m : Drive)
  | odometry (m : Odometry)
  deriving DecidableEq, Repr

def Msg.kind : Msg → MsgKind
  | .uint8Array _ => .uint8Array
  | .uint16Array _ => .uint16Array
  | .uint32Array _ => .uint32Array
  | .int8Array _ => .int8Array
  | .int16Array _ => .int16Array
  | .int32Array _ => .int32Array
  | .floatArray _ => .floatArray
  | .updateMsg _ => .updateMsg
  | .image _ => .image
  | .imu _ => .imu
  | .drive _ => .drive
  | .odometry _ => .odometry

def Msg.type (m : Msg) : UInt16 := m.kind.type

def Msg.serialize : Msg → List Copy
  | .uint8Array m => UInt8Array.serialize m
  | .uint16Array m => UInt16Array.serialize m
  | .uint32Array m => UInt32Array.serialize m
  | .int8Array m => Int8Array.serialize m
  | .int16Array m => Int16Array.serialize m
  | .int32Array m => Int32Array.serialize m
  | .floatArray m => FloatArray.serialize m
  | .updateMsg m => m.serialize
  | .image m => m.serialize
  | .imu m => m.serialize
  | .drive m => m.serialize
  | .odometry m => m.serialize

def Msg.getSize : Msg → UInt32
  | .uint8Array m => UInt8Array.getSize m
  | .uint16Array m => UInt16Array.getSize m
  | .uint32Array m => UInt32Array.getSize m
  | .int8Array m => Int8Array.getSize m
  | .int16Array m => Int16Array.getSize m
  | .int32Array m => Int32Array.getSize m
  | .floatArray m => FloatArray.getSize m
  | .updateMsg m => m.getSize
  | .image m => m.getSize
  | .imu m => m.getSize
  | .drive m => m.getSize
  | .odometry m => m.getSize

def Decoded.map {M N : Type} (f : M → N) (d : Decoded M) : Decoded N := ⟨f d.msg, d.overrun⟩

def MsgKind.deserialize (dat : ℕ) : MsgKind → Reading (Decoded Msg)
  | .uint8Array => Decoded.map .uint8Array <$> UInt8Array.deserialize dat
  | .uint16Array => Decoded.map .uint16Array <$> UInt16Array.deserialize dat
  | .uint32Array => Decoded.map .uint32Array <$> UInt32Array.deserialize dat
  | .int8Array => Decoded.map .int8Array <$> Int8Array.deserialize dat
  | .int16Array => Decoded.map .int16Array <$> Int16Array.deserialize dat
  | .int32Array => Decoded.map .int32Array <$> Int32Array.deserialize dat
  | .floatArray => Decoded.map .floatArray <$> FloatArray.deserialize dat
  | .updateMsg => Decoded.map .updateMsg <$> UpdateMsg.deserialize dat
  | .image => Decoded.map .image <$> Image.deserialize dat
  | .imu => Decoded.map .imu <$> IMU.deserialize dat
  | .drive => Decoded.map .drive <$> Drive.deserialize dat
  | .odometry => Decoded.map .odometry <$> Odometry.deserialize dat

def Msg.contents : Msg → Msg
  | .uint8Array m => .uint8Array { m with size := 0 }
  | .uint16Array m => .uint16Array { m with size := 0 }
  | .uint32Array m => .uint32Array { m with size := 0 }
  | .int8Array m => .int8Array { m with size := 0 }
  | .int16Array m => .int16Array { m with size := 0 }
  | .int32Array m => .int32Array { m with size := 0 }
  | .floatArray m => .floatArray { m with size := 0 }
  | .image m => .image { m with pixelArray := { m.pixelArray with size := 0 } }
  | m => m

/-- The base struct: its serializer writes nothing, and passing a message by value
as a `Message` keeps nothing else of it. -/
structure Message where
  deriving DecidableEq, Repr

def Message.serialize (_ : Message) : List Copy := []
def Message.type : UInt16 := 0
def Msg.slice (_ : Msg) : Message := ⟨⟩

theorem written_message (m : Message) (i : ℕ) : written m.serialize i = none := rfl

theorem written_zero (m : Msg) : (written m.serialize 0).isSome := by
  cases m <;> first | rfl | simp [Msg.serialize, UpdateMsg.serialize, written, Copy.at?]

end SwiftRobot.Messages
