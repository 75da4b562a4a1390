import SwiftRobot.Support.Copying
import SwiftRobot.Support.Reading

/-!
# The headers of the packets between two peers

`swiftrobot_packet.h`: the packet types with their numbers, and the three headers
a payload can begin with. A Connect or ConnectAck payload is a `MessageConnectHeader`
and nothing else; a Message payload is a `MessagePacketHeader` and a body.
-/

namespace SwiftRobot.PacketHeaders
open ByteWords Copying Reading

inductive PacketType
  | usbMuxResult | usbMuxConnect | usbMuxListen | usbMuxDeviceAdd | usbMuxDeviceRemove
  | usbMuxPlistPayload
  | message | subscribeRequest | keepAliveRequest | keepAliveResponse | connect | connectAck
  deriving DecidableEq, Repr

def PacketType.code : PacketType → UInt32
  | .usbMuxResult => 1
  | .usbMuxConnect => 2
  | .usbMuxListen => 3
  | .usbMuxDeviceAdd => 4
  | .usbMuxDeviceRemove => 5
  | .usbMuxPlistPayload => 8
  | .message => 9
  | .subscribeRequest => 10
  | .keepAliveRequest => 11
  | .keepAliveResponse => 12
  | .connect => 13
  | .connectAck => 14

def PacketType.all : List PacketType :=
  [.usbMuxResult, .usbMuxConnect, .usbMuxListen, .usbMuxDeviceAdd, .usbMuxDeviceRemove,
    .usbMuxPlistPayload, .message, .subscribeRequest, .keepAliveRequest, .keepAliveResponse,
    .connect, .connectAck]

/-- Codes without a name are not of any type: the switch over them does nothing. -/
def PacketType.ofCode? (c : UInt32) : Option PacketType := PacketType.all.find? (·.code == c)

@[simp] theorem PacketType.ofCode?_code (t : PacketType) : PacketType.ofCode? t.code = some t := by
  cases t <;> rfl

theorem PacketType.code_of_ofCode? {c : UInt32} {t : PacketType}
    (h : PacketType.ofCode? c = some t) : c = t.code := by
  have hcode := List.find?_some h
  exact (by simpa using hcode : t.code = c).symm

def swiftRobotPacketProtocol : UInt32 := 0
def usbMuxPacketProtocolPlist : UInt32 := 1

structure MessageConnectHeader where
  clientid : Bytes
  subscribers : UInt16
  channels : List UInt16
  deriving DecidableEq, Repr

namespace MessageConnectHeader

/-- The third copy takes `subscribers` elements of the vector; every caller has at
least that many. -/
def serialize (m : MessageConnectHeader) : List Copy :=
  [⟨0, m.clientid ++ [0]⟩,
    ⟨m.clientid.length + 1, uint16.bytes m.subscribers⟩,
    ⟨m.clientid.length + 1 + 2, (uint16.flat m.channels).take (m.subscribers.toNat * 2)⟩]

def getSize (m : MessageConnectHeader) : ℕ := m.clientid.length + 1 + 2 + m.channels.length * 2

def deserialize (data : ℕ) : Reading MessageConnectHeader := do
  let clientid ← cstring data
  let subscribers ← word uint16 (data + clientid.length + 1)
  let copied ← bytes (data + clientid.length + 1 + 2) (subscribers.toNat * 2)
  return ⟨clientid, subscribers, uint16.words subscribers.toNat copied⟩

def packet (stack : ℕ → UInt8) (m : MessageConnectHeader) : Bytes :=
  store m.serialize ((List.range m.getSize).map stack)

/-- The header every sender builds: the count is the length of the list in 16 bits. -/
def announcing (clientid : Bytes) (channels : List UInt16) : MessageConnectHeader :=
  ⟨clientid, UInt16.ofNat channels.length, channels⟩

/-- What is left of a list after its length went through 16 bits. -/
def announced (channels : List UInt16) : List UInt16 := channels.take (channels.length % 2 ^ 16)

theorem announced_of_le {channels : List UInt16} (h : channels.length ≤ 65535) :
    announced channels = channels := by
  rw [announced, Nat.mod_eq_of_lt (by omega), List.take_length]

theorem announced_subset (channels : List UInt16) : announced channels ⊆ channels :=
  List.take_subset _ _

theorem announcing_subscribers (clientid : Bytes) (channels : List UInt16) :
    (announcing clientid channels).subscribers.toNat = channels.length % 2 ^ 16 := by
  simp [announcing]

theorem announcing_serialize (clientid : Bytes) (channels : List UInt16) :
    (announcing clientid channels).serialize = consecutive 0 [clientid ++ [0],
      uint16.bytes (UInt16.ofNat channels.length), uint16.flat (announced channels)] := by
  have hflat : (uint16.flat channels).take (channels.length % 2 ^ 16 * 2) =
      uint16.flat (announced channels) := uint16.flat_take _ _
  rw [serialize, announcing_subscribers]
  simp only [announcing, hflat, consecutive, List.length_append, List.length_singleton,
    uint16_bytes_length, Nat.zero_add]

def written (clientid : Bytes) (channels : List UInt16) : Bytes :=
  clientid ++ 0 :: (uint16.bytes (UInt16.ofNat channels.length) ++
    uint16.flat (announced channels))

theorem packet_announcing (stack : ℕ → UInt8) (clientid : Bytes) (channels : List UInt16) :
    (announcing clientid channels).packet stack = written clientid channels ++
      ((List.range (announcing clientid channels).getSize).map stack).drop
        (written clientid channels).length := by
  have hlen : (announced channels).length ≤ channels.length := List.length_take_le' _ _
  have hwritten : [clientid ++ [0], uint16.bytes (UInt16.ofNat channels.length),
      uint16.flat (announced channels)].flatten = written clientid channels := by
    simp only [written, List.flatten_cons, List.flatten_nil, List.append_nil, List.append_assoc,
      List.cons_append, List.nil_append]
  rw [packet, announcing_serialize, store_consecutive_append, hwritten]
  rw [hwritten]
  simp only [written, announcing, getSize, List.length_append, List.length_cons, List.length_map,
    List.length_range, uint16_bytes_length, Word.flat_length, uint16_width]
  omega

theorem deserialize_value {text : Bytes} {subscribers : UInt16} {channels : List UInt16}
    (back : Bytes) (ht : 0 ∉ text) (hs : channels.length = subscribers.toNat) :
    ((deserialize 0) (text ++ 0 :: (uint16.bytes subscribers ++
      (uint16.flat channels ++ back)))).value = some ⟨text, subscribers, channels⟩ := by
  have htext := cstring_value_middle [] text
    (uint16.bytes subscribers ++ (uint16.flat channels ++ back)) 0 rfl ht
  have hcount := word_value_middle uint16 (text ++ [0]) (uint16.flat channels ++ back)
    subscribers (0 + text.length + 1) (by simp)
  have hchannels := bytes_value_middle (text ++ 0 :: uint16.bytes subscribers)
    (uint16.flat channels) back (0 + text.length + 1 + 2) (subscribers.toNat * 2) (by simp)
    (by simp [hs])
  simp only [List.append_assoc, List.cons_append, List.nil_append] at htext hcount hchannels
  simp only [deserialize, bind_value, htext, Option.bind_some, hcount, hchannels, pure_value]
  rw [← hs, Word.words_flat]

theorem deserialize_packet (stack : ℕ → UInt8) {clientid : Bytes} (channels : List UInt16)
    (tail : Bytes) (hname : 0 ∉ clientid) :
    ((deserialize 0) ((announcing clientid channels).packet stack ++ tail)).value =
      some ⟨clientid, UInt16.ofNat channels.length, announced channels⟩ := by
  have hlen : (announced channels).length = (UInt16.ofNat channels.length).toNat := by
    have hle : channels.length % 2 ^ 16 ≤ channels.length := Nat.mod_le _ _
    simp only [announced, List.length_take, UInt16.toNat_ofNat']
    omega
  rw [packet_announcing, written]
  simp only [List.append_assoc, List.cons_append]
  exact deserialize_value (_ ++ tail) hname hlen

theorem deserialize_isSome (payload : Bytes) {back : Bytes} (h : 2 + 65535 * 2 ≤ back.length) :
    ((deserialize 0) (payload ++ 0 :: back)).value.isSome := by
  have htext := cstring_value (payload ++ 0 :: back) [] 0 (by simp)
  rw [List.append_nil, List.drop_zero, takeWhile_append_nul] at htext
  have hle : (payload.takeWhile (· ≠ 0)).length ≤ payload.length :=
    (List.takeWhile_sublist _).length_le
  have hlength : (payload ++ 0 :: back).length = payload.length + (back.length + 1) := by simp
  have hcount := word_value uint16 (0 + (payload.takeWhile (· ≠ 0)).length + 1)
    (payload ++ 0 :: back) (by rw [hlength, uint16_width]; omega)
  simp only [deserialize, bind_value, htext, hcount, Option.bind_some]
  generalize uint16.ofBytes _ = subscribers
  have hsubscribers := subscribers.toNat_lt
  rw [bytes_value _ _ _ (by rw [hlength]; omega)]
  rfl

def Holds (payload : Bytes) : Prop :=
  let k := (payload.takeWhile (· ≠ 0)).length
  0 ∈ payload ∧ k + 1 + 2 ≤ payload.length ∧
    k + 1 + 2 + (uint16.ofBytes ((payload.drop (k + 1)).take 2)).toNat * 2 ≤ payload.length

instance (payload : Bytes) : Decidable (Holds payload) := by
  unfold Holds
  infer_instance

theorem within_deserialize {payload tail : Bytes} :
    Within payload.length (deserialize 0) (payload ++ tail) ↔ Holds payload := by
  unfold deserialize Holds
  by_cases h0 : 0 ∈ payload
  · have htext := cstring_value payload tail 0 h0
    have hin : Within payload.length (cstring 0) (payload ++ tail) :=
      within_cstring.mpr h0
    rw [within_bind_of_value hin htext, List.drop_zero]
    generalize (payload.takeWhile (· ≠ 0)).length = k
    by_cases hc : k + 1 + 2 ≤ payload.length
    · have hcount := word_value_front uint16 payload tail (0 + k + 1)
        (by simp only [uint16_width]; omega)
      have hword : Within payload.length (word uint16 (0 + k + 1)) (payload ++ tail) :=
        within_word.mpr (by simp only [uint16_width]; omega)
      rw [within_bind_of_value hword hcount, within_bind, within_bytes]
      simp only [h0, hc, true_and, within_pure, implies_true, and_true, Nat.zero_add,
        uint16_width]
      omega
    · rw [within_bind, within_word, uint16_width]
      simp only [hc, false_and, and_false, iff_false, not_and]
      omega
  · rw [within_bind, within_cstring]
    simp only [List.drop_zero, h0, false_and]

end MessageConnectHeader

structure MessagePacketHeader where
  channel : UInt16
  type : UInt16
  data_size : UInt32
  deriving DecidableEq, Repr

def MessagePacketHeader.bytes (h : MessagePacketHeader) : Bytes :=
  uint16.bytes h.channel ++ (uint16.bytes h.type ++ uint32.bytes h.data_size)

@[simp] theorem MessagePacketHeader.bytes_length (h : MessagePacketHeader) :
    h.bytes.length = 8 := by
  simp [MessagePacketHeader.bytes]

structure SubscribeRequestPacketHeader where
  channel : UInt16
  deriving DecidableEq, Repr

def SubscribeRequestPacketHeader.bytes (h : SubscribeRequestPacketHeader) : Bytes :=
  uint16.bytes h.channel

end SwiftRobot.PacketHeaders
