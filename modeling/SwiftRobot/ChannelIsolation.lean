import Mathlib.Data.List.Induction
import SwiftRobot.SwiftRobotClient

/-!
# Channels of received messages

A channel has sixteen bits in a packet and in `notify`, and eight bits in `subscribe`
and as the key of the subscriber map. Looking a received channel up drops its high
byte.
-/

namespace SwiftRobot.ChannelIsolation
open ByteWords Reading Messages PacketHeaders ClientDispatcher SwiftRobotClient

def offeredTo (b b' : LocalBus) : List ℕ := (b'.offers.drop b.offers.length).map (·.subscriber)

theorem offers_offer (b : LocalBus) (channel : UInt16) (msg : Msg) (call s : ℕ) :
    (b.offer channel msg call s).offers.map (·.subscriber) = b.offers.map (·.subscriber) ++ [s] := by
  unfold LocalBus.offer
  split_ifs <;> simp [LocalBus.tryAcquire, LocalBus.dispatch]

theorem offers_loop (channel : UInt16) (msg : Msg) (call : ℕ) (l : List ℕ) (b : LocalBus) :
    (l.foldl (fun b s => b.offer channel msg call s) b).offers.map (·.subscriber) =
      b.offers.map (·.subscriber) ++ l := by
  induction l generalizing b with
  | nil => simp
  | cons s rest ih => simp [ih, offers_offer]

theorem offeredTo_notify (b : LocalBus) (channel : UInt16) (msg : Msg) :
    offeredTo b (b.notify channel msg) = b.range channel := by
  have hall : (b.notify channel msg).offers.map (·.subscriber) =
      b.offers.map (·.subscriber) ++ b.range channel := offers_loop channel msg _ _ _
  have hlen : b.offers.length = (b.offers.map (·.subscriber)).length := by simp
  rw [offeredTo, List.map_drop, hall, hlen, List.drop_left]

/-- The message is offered to the subscribers registered on its own channel, to each of
them once, and to no other. -/
def Isolated (channel : UInt16) (b b' : LocalBus) : Prop :=
  (offeredTo b b').Nodup ∧ ∀ s, s ∈ offeredTo b b' ↔
    ∃ sub, b.subscribers[s]? = some sub ∧ sub.channel.toUInt16 = channel

theorem toUInt16_eq_iff (key : UInt8) (channel : UInt16) :
    key.toUInt16 = channel ↔ channel.toNat < 256 ∧ key = channel.toUInt8 := by
  rw [← UInt16.toNat_inj, ← UInt8.toNat_inj, UInt8.toNat_toUInt16, UInt16.toNat_toUInt8]
  have hlt := key.toNat_lt
  omega

theorem isolated_notify_iff {b : LocalBus} (hb : b.Registered) (channel : UInt16) (msg : Msg) :
    Isolated channel b (b.notify channel msg) ↔
      channel.toNat < 256 ∨ ∀ sub ∈ b.subscribers, sub.channel ≠ channel.toUInt8 := by
  obtain ⟨hnodup, hlisted⟩ := hb channel.toUInt8
  rw [Isolated, offeredTo_notify]
  constructor
  · rintro ⟨-, hall⟩
    by_contra hne
    simp only [not_or, not_forall, not_not] at hne
    obtain ⟨hhigh, sub, hsub, hkey⟩ := hne
    obtain ⟨s, hs⟩ := List.mem_iff_getElem?.mp hsub
    obtain ⟨sub', -, hsub'⟩ := (hall s).mp ((hlisted s).mpr ⟨sub, hs, hkey⟩)
    exact hhigh ((toUInt16_eq_iff _ _).mp hsub').1
  · intro hcond
    refine ⟨hnodup, fun s => (hlisted s).trans ?_⟩
    simp only [toUInt16_eq_iff]
    constructor
    · rintro ⟨sub, hs, hkey⟩
      rcases hcond with hlow | hnone
      · exact ⟨sub, hs, hlow, hkey⟩
      · exact absurd hkey (hnone sub (List.mem_of_getElem? hs))
    · rintro ⟨sub, hs, -, hkey⟩
      exact ⟨sub, hs, hkey⟩

def subscribed (calls : List (UInt8 × MsgKind)) : LocalBus :=
  calls.foldl (fun b p => b.subscribe p.1 p.2) .initial

theorem subscribed_snoc (calls : List (UInt8 × MsgKind)) (p : UInt8 × MsgKind) :
    subscribed (calls ++ [p]) = (subscribed calls).subscribe p.1 p.2 := by
  simp [subscribed]

theorem registered_subscribed (calls : List (UInt8 × MsgKind)) :
    (subscribed calls).Registered := by
  induction calls using List.reverseRecOn with
  | nil => exact LocalBus.registered_initial
  | append_singleton calls p ih =>
    rw [subscribed_snoc]
    exact ih.subscribe p.1 p.2

theorem subscribers_subscribed (calls : List (UInt8 × MsgKind)) :
    (subscribed calls).subscribers.map (·.channel) = calls.map (·.1) := by
  induction calls using List.reverseRecOn with
  | nil => rfl
  | append_singleton calls p ih =>
    rw [subscribed_snoc]
    simp [LocalBus.subscribe, ih]

/-- The vector that a deserializer makes for a byte count takes that many bytes. -/
def Fits (size : UInt32) : MsgKind → Prop
  | .uint16Array | .int8Array | .int16Array => size = 0
  | .uint32Array | .int32Array | .floatArray => size.toNat % 4 = 0
  | _ => True

def sizeWord (body : Bytes) : UInt32 := uint32.ofBytes (body.take 4)

section
variable {mem : Bytes} {dat : ℕ}

theorem arrayDeserialize_overrun {α : Type} {w : Word α} {divisor : ℕ} {m : Decoded (BaseArray α)}
    (h : (arrayDeserialize w divisor dat mem).value = some m) :
    m.overrun = (sizeWord (mem.drop dat)).toNat -
      (sizeWord (mem.drop dat)).toNat / divisor * w.width := by
  simp only [arrayDeserialize, bind_value, Option.bind_eq_some_iff, pure_value] at h
  obtain ⟨size, hsize, copied, -, hm⟩ := h
  obtain ⟨-, htake, -⟩ := word_some hsize
  have hword : sizeWord (mem.drop dat) = size := by
    rw [sizeWord, ← uint32_width, htake, uint32.ofBytes_bytes]
  rw [hword, ← Option.some.inj hm]

theorem uint8Array_overrun {m : Decoded UInt8Array}
    (h : (UInt8Array.deserialize dat mem).value = some m) : m.overrun = 0 := by
  simp only [UInt8Array.deserialize, bind_value, Option.bind_eq_some_iff, pure_value] at h
  obtain ⟨size, -, data, -, hm⟩ := h
  rw [← Option.some.inj hm]

theorem overrun_eq_zero_iff {kind : MsgKind} {m : Decoded Msg} (hkind : kind ≠ .updateMsg)
    (h : ((kind.deserialize dat) mem).value = some m) :
    m.overrun = 0 ↔ Fits (sizeWord (mem.drop dat)) kind := by
  have hzero : ∀ size : UInt32, size = 0 ↔ size.toNat = 0 := fun size => UInt32.toNat_inj.symm
  cases kind <;> simp only [MsgKind.deserialize, map_value, Option.map_eq_some_iff] at h <;>
    obtain ⟨a, ha, rfl⟩ := h <;> simp only [Decoded.map, Fits, hzero]
  case updateMsg => exact absurd rfl hkind
  case uint8Array => exact iff_true_intro (uint8Array_overrun ha)
  case uint16Array | int8Array | int16Array | uint32Array | int32Array | floatArray =>
    rw [arrayDeserialize_overrun ha]
    simp only [uint16_width, int8_width, int16_width, uint32_width, int32_width, float_width]
    omega
  case image =>
    simp only [Image.deserialize, bind_value, Option.bind_eq_some_iff, pure_value] at ha
    obtain ⟨head, -, pixels, hpixels, ha⟩ := ha
    rw [← Option.some.inj ha]
    exact iff_true_intro (uint8Array_overrun hpixels)
  case imu | drive | odometry =>
    simp only [IMU.deserialize, Drive.deserialize, Odometry.deserialize, bind_value,
      Option.bind_eq_some_iff, pure_value] at ha
    obtain ⟨bs, -, ha⟩ := ha
    rw [← Option.some.inj ha]
    exact iff_true_intro rfl

end

section
variable (env : Env) (d : ClientDispatcher) (clientid : Bytes) (size : ℕ)
  (header : MessagePacketHeader) (body : Bytes) {kind : MsgKind} {m : Decoded Msg}

theorem multiplex_message (b : LocalBus) (hkind : receivedKind? header.type = some kind)
    (hbody : ((kind.deserialize 8) (header.bytes ++ body)).value = some m) :
    ((d.multiplexIncomingPacket env application clientid PacketType.message.code size b)
        (header.bytes ++ body)).value =
      if m.overrun = 0 then
        some (d.updateKeepAliveTime env clientid, b.notify header.channel m.msg)
      else none := by
  have hchannel : ((word uint16 0) (header.bytes ++ body)).value = some header.channel := by
    have h := word_value_middle uint16 [] (uint16.bytes header.type ++
      (uint32.bytes header.data_size ++ body)) header.channel 0 rfl
    simpa [MessagePacketHeader.bytes] using h
  have htype : ((word uint16 2) (header.bytes ++ body)).value = some header.type := by
    have h := word_value_middle uint16 (uint16.bytes header.channel)
      (uint32.bytes header.data_size ++ body) header.type 2 (by simp)
    simpa [MessagePacketHeader.bytes] using h
  simp only [multiplexIncomingPacket, PacketType.ofCode?_code, handleMessage, application,
    didReceiveMessage, bind_value, hchannel, Nat.zero_add, htype, Option.bind_some, hkind, hbody]
  split_ifs <;> simp

/-- A received message is offered on its channel exactly when the vector for its body takes
the whole of it, and the channel is below 256 or no subscriber has been registered under its
low byte. -/
theorem isolated_iff (calls : List (UInt8 × MsgKind))
    (hkind : receivedKind? header.type = some kind)
    (hbody : ((kind.deserialize 8) (header.bytes ++ body)).value = some m) :
    (∃ d' b', ((d.multiplexIncomingPacket env application clientid PacketType.message.code size
        (subscribed calls)) (header.bytes ++ body)).value = some (d', b') ∧
      Isolated header.channel (subscribed calls) b') ↔
    Fits (sizeWord body) kind ∧
      (header.channel.toNat < 256 ∨ ∀ p ∈ calls, p.1 ≠ header.channel.toUInt8) := by
  have hmem : (∀ sub ∈ (subscribed calls).subscribers, sub.channel ≠ header.channel.toUInt8) ↔
      ∀ p ∈ calls, p.1 ≠ header.channel.toUInt8 := by
    rw [← List.forall_mem_map (f := fun sub : Subscriber => sub.channel)
      (P := fun channel => channel ≠ header.channel.toUInt8), subscribers_subscribed,
      List.forall_mem_map]
  have hdrop : (header.bytes ++ body).drop 8 = body := by
    have hlen : header.bytes.length = 8 := by simp
    rw [← hlen, List.drop_left]
  have hfits := overrun_eq_zero_iff (receivedKind?_ne_updateMsg hkind) hbody
  rw [hdrop] at hfits
  rw [multiplex_message env d clientid size header body _ hkind hbody, ← hmem,
    ← isolated_notify_iff (registered_subscribed calls) header.channel m.msg, ← hfits]
  split_ifs with hover
  · simp [hover]
  · simp [hover]

end

section

def quiet : Env := ⟨0, 0, 0, fun _ _ => 0⟩

def idle : ClientDispatcher := .initial [66] 5000 .usb

def oneElement : Bytes := uint32.bytes 1 ++ [7]

theorem isolated_iff_channel_one :
    (∃ d' b', ((idle.multiplexIncomingPacket quiet application [65] PacketType.message.code 13
        (subscribed [(1, .uint8Array)])) ((MessagePacketHeader.mk 1 1 5).bytes ++ oneElement)).value =
      some (d', b') ∧ Isolated 1 (subscribed [(1, .uint8Array)]) b') ↔
    Fits (sizeWord oneElement) .uint8Array ∧ ((1 : UInt16).toNat < 256 ∨
      ∀ p ∈ [((1 : UInt8), MsgKind.uint8Array)], p.1 ≠ (1 : UInt16).toUInt8) := by
  have hread : ((MsgKind.uint8Array.deserialize 8)
      ((MessagePacketHeader.mk 1 1 5).bytes ++ oneElement)).value.isSome := by
    decide +kernel
  obtain ⟨m, hm⟩ := Option.isSome_iff_exists.mp hread
  exact isolated_iff quiet idle [65] 13 ⟨1, 1, 5⟩ oneElement [(1, .uint8Array)] (by decide) hm

/-- A message on channel 257 is offered to the subscriber of channel 1. -/
theorem channel_257_offered : ¬ ∀ (calls : List (UInt8 × MsgKind)) (env : Env)
    (d : ClientDispatcher) (clientid : Bytes) (size : ℕ) (header : MessagePacketHeader)
    (body : Bytes) (kind : MsgKind) (m : Decoded Msg), receivedKind? header.type = some kind →
    ((kind.deserialize 8) (header.bytes ++ body)).value = some m →
    ∃ d' b', ((d.multiplexIncomingPacket env application clientid PacketType.message.code size
        (subscribed calls)) (header.bytes ++ body)).value = some (d', b') ∧
      Isolated header.channel (subscribed calls) b' := by
  intro hall
  have hread : ((MsgKind.uint8Array.deserialize 8)
      ((MessagePacketHeader.mk 257 1 5).bytes ++ oneElement)).value.isSome := by
    decide +kernel
  obtain ⟨m, hm⟩ := Option.isSome_iff_exists.mp hread
  have hkind : receivedKind? (MessagePacketHeader.mk 257 1 5).type = some .uint8Array := by decide
  obtain ⟨d', b', hvalue, hiso⟩ := hall [(1, .uint8Array)] quiet idle [65] 13 ⟨257, 1, 5⟩
    oneElement _ m hkind hm
  rw [multiplex_message quiet idle [65] 13 ⟨257, 1, 5⟩ oneElement (subscribed [(1, .uint8Array)])
    hkind hm] at hvalue
  split_ifs at hvalue
  obtain ⟨rfl, rfl⟩ := Prod.mk.inj (Option.some.inj hvalue)
  rw [isolated_notify_iff (registered_subscribed _)] at hiso
  revert hiso
  decide

end

end SwiftRobot.ChannelIsolation
