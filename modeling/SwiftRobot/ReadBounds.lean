import SwiftRobot.PlistPlatform
import SwiftRobot.SwiftRobotClient

/-!
# Reads of received packets

The length of a packet is handed down to its handler, which never looks at it. What is
read is told by the packet itself: by its type, by the NUL behind a name, and by the
count or the size in front of a list. A property list is handed to a parser that trusts
it. The payload lies in memory with anything behind it.
-/

namespace SwiftRobot.ReadBounds
open ByteWords Reading Messages PacketHeaders ClientDispatcher SwiftRobotClient

def SizedHolds (dat : ℕ) (payload : Bytes) : Prop :=
  dat + 4 ≤ payload.length ∧
    dat + 4 + (uint32.ofBytes ((payload.drop dat).take 4)).toNat ≤ payload.length

instance (dat : ℕ) (payload : Bytes) : Decidable (SizedHolds dat payload) :=
  inferInstanceAs (Decidable (_ ∧ _))

def BodyHolds (dat : ℕ) (payload : Bytes) : MsgKind → Prop
  | .image => dat + 8 ≤ payload.length ∧ SizedHolds (dat + 8) payload
  | .imu => dat + 36 ≤ payload.length
  | .drive => dat + 13 ≤ payload.length
  | .odometry => dat + 24 ≤ payload.length
  | .updateMsg => True
  | _ => SizedHolds dat payload

instance (dat : ℕ) (payload : Bytes) (kind : MsgKind) : Decidable (BodyHolds dat payload kind) := by
  cases kind <;> unfold BodyHolds <;> infer_instance

section
variable {payload tail : Bytes}

theorem within_sized {α : Type} (dat : ℕ) (f : UInt32 → Bytes → α) :
    Within payload.length (do
      let size ← word uint32 dat
      let copied ← bytes (dat + 4) size.toNat
      return f size copied) (payload ++ tail) ↔ SizedHolds dat payload := by
  unfold SizedHolds
  by_cases h4 : dat + 4 ≤ payload.length
  · have hsize := word_value_front uint32 payload tail dat (by simpa using h4)
    have hin : Within payload.length (word uint32 dat) (payload ++ tail) :=
      within_word.mpr (by simpa using h4)
    rw [within_bind_of_value hin hsize, within_bind, within_bytes]
    simp only [h4, true_and, within_pure, implies_true, and_true, uint32_width]
    omega
  · rw [within_bind, within_word]
    simp only [uint32_width, h4, false_and]

theorem within_arrayDeserialize {α : Type} (w : Word α) (divisor dat : ℕ) :
    Within payload.length (arrayDeserialize w divisor dat) (payload ++ tail) ↔
      SizedHolds dat payload :=
  within_sized dat _

theorem within_image (dat : ℕ) :
    Within payload.length (Image.deserialize dat) (payload ++ tail) ↔
      dat + 8 ≤ payload.length ∧ SizedHolds (dat + 8) payload := by
  have hpixels : Within payload.length (UInt8Array.deserialize (dat + 8)) (payload ++ tail) ↔
      SizedHolds (dat + 8) payload := within_sized (dat + 8) _
  by_cases h8 : dat + 8 ≤ payload.length
  · have hhead := bytes_value_front payload tail dat 8 h8
    have hin : Within payload.length (bytes dat 8) (payload ++ tail) :=
      within_bytes.mpr (Or.inr h8)
    rw [Image.deserialize, within_bind_of_value hin hhead, within_bind, hpixels]
    simp [h8]
  · rw [Image.deserialize, within_bind, within_bytes]
    simp [h8]

theorem within_fixed {α : Type} (dat count : ℕ) (hc : count ≠ 0) (f : Bytes → α) :
    Within payload.length (do
      let bs ← bytes dat count
      return f bs) (payload ++ tail) ↔ dat + count ≤ payload.length := by
  rw [within_bind, within_bytes]
  simp [hc]

theorem within_body (dat : ℕ) {kind : MsgKind} (hkind : kind ≠ .updateMsg) :
    Within payload.length (kind.deserialize dat) (payload ++ tail) ↔
      BodyHolds dat payload kind := by
  cases kind with
  | updateMsg => exact absurd rfl hkind
  | uint8Array => exact within_map.trans (within_sized dat _)
  | uint16Array => exact within_map.trans (within_arrayDeserialize uint16 4 dat)
  | uint32Array => exact within_map.trans (within_arrayDeserialize uint32 4 dat)
  | int8Array => exact within_map.trans (within_arrayDeserialize int8 4 dat)
  | int16Array => exact within_map.trans (within_arrayDeserialize int16 4 dat)
  | int32Array => exact within_map.trans (within_arrayDeserialize int32 4 dat)
  | floatArray => exact within_map.trans (within_arrayDeserialize float 4 dat)
  | image => exact within_map.trans (within_image dat)
  | imu => exact within_map.trans (within_fixed dat 36 (by decide) _)
  | drive => exact within_map.trans (within_fixed dat 13 (by decide) _)
  | odometry => exact within_map.trans (within_fixed dat 24 (by decide) _)

def messageType (payload : Bytes) : UInt16 := uint16.ofBytes ((payload.drop 2).take 2)

def TypedHolds (payload : Bytes) : Prop :=
  ∀ kind, receivedKind? (messageType payload) = some kind → BodyHolds 8 payload kind

def Holds (payload : Bytes) : PacketType → Prop
  | .message => 8 ≤ payload.length ∧ TypedHolds payload
  | .subscribeRequest => 2 ≤ payload.length
  | .connect | .connectAck => MessageConnectHeader.Holds payload
  | _ => True

/-- The part of the header that is looked at is there, the rest is not, and no body
belongs to it. -/
def CutHeader (payload : Bytes) : Prop :=
  4 ≤ payload.length ∧ payload.length < 8 ∧ receivedKind? (messageType payload) = none

theorem bodyHolds_long {kind : MsgKind} (hkind : kind ≠ .updateMsg) (h : BodyHolds 8 payload kind) :
    8 ≤ payload.length := by
  cases kind <;> simp only [BodyHolds, SizedHolds] at h <;> first | omega | exact absurd rfl hkind

theorem typedHolds_iff :
    4 ≤ payload.length ∧ TypedHolds payload ↔ Holds payload .message ∨ CutHeader payload := by
  unfold Holds CutHeader
  constructor
  · rintro ⟨h4, ht⟩
    cases hkind : receivedKind? (messageType payload) with
    | none =>
      by_cases h8 : 8 ≤ payload.length
      · exact Or.inl ⟨h8, ht⟩
      · exact Or.inr ⟨h4, by omega, rfl⟩
    | some kind =>
      exact Or.inl ⟨bodyHolds_long (receivedKind?_ne_updateMsg hkind) (ht kind hkind), ht⟩
  · rintro (⟨h8, ht⟩ | ⟨h4, -, hnone⟩)
    · exact ⟨by omega, ht⟩
    · exact ⟨h4, fun kind hkind => absurd (hnone.symm.trans hkind) (by simp)⟩

variable (env : Env) (d : ClientDispatcher) (clientid : Bytes) (size : ℕ) (b : LocalBus)

theorem within_didReceiveMessage (channel : UInt16) :
    Within payload.length (didReceiveMessage channel 0 8 b) (payload ++ tail) ↔
      4 ≤ payload.length ∧ TypedHolds payload := by
  unfold didReceiveMessage TypedHolds
  by_cases h4 : 4 ≤ payload.length
  · have htype := word_value_front uint16 payload tail (0 + 2) (by simpa using h4)
    have hchannel := word_value_front uint16 payload tail 0 (by simp only [uint16_width]; omega)
    have hmessage : uint16.ofBytes ((payload.drop (0 + 2)).take uint16.width) =
        messageType payload := rfl
    rw [within_bind_of_value (within_word.mpr (by simpa using h4)) htype, hmessage]
    simp only [h4, true_and]
    cases hkind : receivedKind? (messageType payload) with
    | none => simp
    | some kind =>
      simp only [Option.some.injEq, forall_eq']
      rw [within_bind_of_value (within_word.mpr (by simp only [uint16_width]; omega)) hchannel,
        within_bind, within_body 8 (receivedKind?_ne_updateMsg hkind)]
      refine and_iff_left fun a _ => ?_
      split_ifs
      · exact within_pure _ _ _
      · exact within_fault _ _
  · rw [within_bind, within_word]
    simp only [uint16_width, h4, false_and]

theorem within_handleConnectAck :
    Within payload.length (d.handleConnectAck env application clientid b) (payload ++ tail) ↔
      MessageConnectHeader.Holds payload := by
  rw [handleConnectAck, within_bind, MessageConnectHeader.within_deserialize]
  simp

theorem within_handleMessage :
    Within payload.length (d.handleMessage env application clientid b) (payload ++ tail) ↔
      Holds payload .message ∨ CutHeader payload := by
  rw [← typedHolds_iff, handleMessage]
  by_cases h2 : 2 ≤ payload.length
  · have hchannel := word_value_front uint16 payload tail 0 (by simpa using h2)
    rw [within_bind_of_value (within_word.mpr (by simpa using h2)) hchannel, within_bind]
    simp only [within_pure, implies_true, and_true]
    exact within_didReceiveMessage b (uint16.ofBytes ((payload.drop 0).take uint16.width))
  · rw [within_bind, within_word]
    simp only [uint16_width, Nat.zero_add, h2, false_and, false_iff]
    omega

theorem within_multiplexIncomingPacket (type : UInt32) :
    Within payload.length (d.multiplexIncomingPacket env application clientid type size b)
        (payload ++ tail) ↔
      ∀ t, PacketType.ofCode? type = some t →
        Holds payload t ∨ t = .message ∧ CutHeader payload := by
  rw [multiplexIncomingPacket]
  cases PacketType.ofCode? type with
  | none => simp
  | some t =>
    simp only [Option.some.injEq, forall_eq']
    cases t with
    | message => simpa using within_handleMessage env d clientid b
    | subscribeRequest =>
      simp [Holds, handleSubscribeRequest, within_bind, within_word]
    | keepAliveRequest => simp [Holds, within_bind]
    | connect =>
      simp only [handleConnect, Holds, reduceCtorEq, false_and, or_false]
      rw [within_bind, within_handleConnectAck]
      simp [within_bind]
    | connectAck =>
      simpa [Holds] using within_handleConnectAck env d clientid b
    | _ => simp [Holds]

end

section
variable {payload tail : Bytes} (env : Env) (lib : Plist.Library)

/-- The payload of a frame on the connection `c` has the bytes that are read of it. A
connection without a callback only looks for the name in it. -/
def FrameHolds (c : Connection) (header : SocketClient.PacketHeader) (payload : Bytes) : Prop :=
  if header.protocol = usbMuxPacketProtocolPlist then Plist.Holds lib payload
  else header.protocol = swiftRobotPacketProtocol →
    if c.packetReceivedCallback then
      ∀ t, PacketType.ofCode? header.type = some t → Holds payload t
    else header.type = PacketType.connect.code ∨ header.type = PacketType.connectAck.code →
      0 ∈ payload

def FrameCut (c : Connection) (header : SocketClient.PacketHeader) (payload : Bytes) : Prop :=
  header.protocol = swiftRobotPacketProtocol ∧ c.packetReceivedCallback = true ∧
    header.type = PacketType.message.code ∧ CutHeader payload

theorem within_connection (c : Connection) (header : SocketClient.PacketHeader) :
    Within payload.length (c.messageReceived lib header payload.length) (payload ++ tail) ↔
      if header.protocol = usbMuxPacketProtocolPlist then Plist.Holds lib payload
      else header.protocol = swiftRobotPacketProtocol →
        header.type = PacketType.connect.code ∨ header.type = PacketType.connectAck.code →
        0 ∈ payload := by
  unfold Connection.messageReceived
  split_ifs with hplist hswift hconnect
  · rw [within_bind, Plist.within_readPlist]
    refine and_iff_left fun o _ => ?_
    cases o with
    | none => exact within_pure _ _ _
    | some plist_message => exact within_ofOption _ _ _
  · rw [within_bind, within_cstring]
    simp [hswift, hconnect]
  · simp [hconnect]
  · simp [hswift]

theorem within_statuses {n : ℕ} {mem : Bytes} (us : List USBHub.Upcall)
    (hall : ∀ name type size, .packetReceived name type size ∉ us)
    (r : ClientDispatcher × LocalBus) :
    Within n (us.foldlM (upcall env application) r) mem := by
  induction us generalizing r with
  | nil => exact within_pure _ _ _
  | cons u us ih =>
    rw [List.foldlM_cons, within_bind]
    refine ⟨?_, fun r _ => ih (fun name type size h => hall name type size (List.mem_cons_of_mem _ h)) r⟩
    cases u with
    | deviceStatus deviceID status => exact within_ofOption _ _ _
    | packetReceived name type size => exact absurd List.mem_cons_self (hall name type size)

variable {d : ClientDispatcher} {h : USBHub} {c : Connection} {deviceID : ℤ}
variable (header : SocketClient.PacketHeader) (b : LocalBus)

theorem within_messageReceived_iff (hh : d.usbHubPtr = some h)
    (hc : h.devices.find? deviceID = some c) {n : ℕ} {mem : Bytes} :
    Within n (d.messageReceived env application lib deviceID header n b) mem ↔
      Within n (c.messageReceived lib header n) mem ∧
        ∀ r, ((c.messageReceived lib header n) mem).value = some r →
          Within n ((h.raise env.captured r.2).foldlM (upcall env application)
            ({ d with usbHubPtr := some (h.setDevice deviceID r.1) }, b)) mem := by
  rw [ClientDispatcher.messageReceived, hubStep, hh]
  simp only
  rw [within_bind, USBHub.messageReceived, hc,
    within_bind_of_value (within_ofOption _ _ _) (ofOption_value _ _), within_bind]
  simp only [within_pure, implies_true, and_true, bind_value, ofOption_value, Option.bind_some,
    pure_value, Option.bind_eq_some_iff, Option.some.injEq]
  refine and_congr_right fun _ => ⟨fun hall r hr => hall _ ⟨r, hr, rfl⟩, ?_⟩
  rintro hall _ ⟨r, hr, rfl⟩
  exact hall r hr

theorem plist_upcall {n : ℕ} {mem : Bytes} {r : Connection × Connection.Upcall}
    (hplist : header.protocol = usbMuxPacketProtocolPlist)
    (hr : ((c.messageReceived lib header n) mem).value = some r) :
    ∀ name type size, .packetReceived name type size ∉ h.raise env.captured r.2 := by
  have hup : ∀ name type size, r.2 ≠ .packetReceived name type size := by
    cases Connection.Received.of_value hr with
    | plist _ _ hdone =>
      obtain ⟨type, -, ⟨-, number, -, rfl⟩ | ⟨-, rfl⟩⟩ := Connection.plistReceived_some hdone
      · unfold Connection.resultReceived
        split_ifs
        · cases c.connectionStatusCallback <;> simp [Connection.connectedRoutine]
        · simp
        · simp
      · simp
    | unreadable _ _ => simp
    | named hrobot _ _ => exact absurd hplist (Connection.not_plist_of_robot hrobot)
    | packet hrobot _ => exact absurd hplist (Connection.not_plist_of_robot hrobot)
    | ignored hnot _ => exact absurd hplist hnot
  intro name type size
  cases hr2 : r.2 with
  | silent => simp [USBHub.raise]
  | connectionStatus name' connected =>
    unfold USBHub.raise
    split_ifs <;> simp
  | packetReceived name' type' size' => exact absurd hr2 (hup name' type' size')

theorem holds_connect {t : PacketType} (ht : t = .connect ∨ t = .connectAck)
    (h : Holds payload t) : 0 ∈ payload := by
  rcases ht with rfl | rfl <;> exact h.1

theorem ofCode?_connect {type : UInt32}
    (h : type = PacketType.connect.code ∨ type = PacketType.connectAck.code) :
    ∃ t, PacketType.ofCode? type = some t ∧ (t = .connect ∨ t = .connectAck) := by
  rcases h with rfl | rfl
  · exact ⟨.connect, PacketType.ofCode?_code _, Or.inl rfl⟩
  · exact ⟨.connectAck, PacketType.ofCode?_code _, Or.inr rfl⟩

theorem within_packetReceived (c : Connection) (type : UInt32) (r : ClientDispatcher × LocalBus) :
    Within payload.length ((h.raise env.captured (c.packetReceived type payload.length).2).foldlM
        (upcall env application) r) (payload ++ tail) ↔
      (c.packetReceivedCallback = true → ∀ t, PacketType.ofCode? type = some t →
        Holds payload t ∨ t = .message ∧ CutHeader payload) := by
  unfold Connection.packetReceived
  split_ifs with hcallback
  · simp only [hcallback, USBHub.raise, List.foldlM_cons, List.foldlM_nil, forall_const]
    rw [within_bind]
    exact (and_iff_left fun _ _ => within_pure _ _ _).trans
      (within_multiplexIncomingPacket env r.1 c.name payload.length r.2 type)
  · simp [hcallback, USBHub.raise]

theorem frame_iff (hswift : header.protocol = swiftRobotPacketProtocol) :
    FrameHolds lib c header payload ∨ FrameCut c header payload ↔
      (header.type = PacketType.connect.code ∨ header.type = PacketType.connectAck.code →
        0 ∈ payload) ∧
      (c.packetReceivedCallback = true → ∀ t, PacketType.ofCode? header.type = some t →
        Holds payload t ∨ t = .message ∧ CutHeader payload) := by
  have hne : ¬ swiftRobotPacketProtocol = usbMuxPacketProtocolPlist := by decide
  unfold FrameHolds FrameCut
  simp only [hswift, hne, if_false, true_and, forall_const]
  cases hcallback : c.packetReceivedCallback with
  | false => simp
  | true =>
    simp only [if_true, true_and, forall_const]
    constructor
    · rintro (hall | ⟨htype, hcut⟩)
      · refine ⟨fun hconnect => ?_, fun t ht => Or.inl (hall t ht)⟩
        obtain ⟨t, ht, htc⟩ := ofCode?_connect hconnect
        exact holds_connect htc (hall t ht)
      · rw [htype]
        refine ⟨fun hconnect => absurd hconnect (by decide), fun t ht => Or.inr ⟨?_, hcut⟩⟩
        rw [PacketType.ofCode?_code, Option.some.injEq] at ht
        exact ht.symm
    · rintro ⟨-, hall⟩
      by_cases hcut : header.type = PacketType.message.code ∧ CutHeader payload
      · exact Or.inr hcut
      · refine Or.inl fun t ht => ?_
        rcases hall t ht with hholds | ⟨rfl, hc⟩
        · exact hholds
        · exact absurd ⟨PacketType.code_of_ofCode? ht, hc⟩ hcut

theorem within_frame (hh : d.usbHubPtr = some h) (hc : h.devices.find? deviceID = some c) :
    Within payload.length
        (d.messageReceived env application lib deviceID header payload.length b)
        (payload ++ tail) ↔
      FrameHolds lib c header payload ∨ FrameCut c header payload := by
  rw [within_messageReceived_iff env lib header b hh hc, within_connection]
  by_cases hplist : header.protocol = usbMuxPacketProtocolPlist
  · have hne : ¬ header.protocol = swiftRobotPacketProtocol := by
      rw [hplist]
      decide
    simp only [FrameHolds, FrameCut, hplist, if_true, hplist ▸ hne, false_and, or_false]
    refine and_iff_left fun r hr => within_statuses env _ ?_ _
    exact plist_upcall env lib header hplist hr
  · by_cases hswift : header.protocol = swiftRobotPacketProtocol
    · rw [frame_iff lib header hswift]
      simp only [hswift, forall_const, show ¬ swiftRobotPacketProtocol = usbMuxPacketProtocolPlist by
        decide, if_false]
      refine and_congr_right fun hname => ?_
      by_cases hconnect : header.type = PacketType.connect.code ∨
          header.type = PacketType.connectAck.code
      · have hvalue : ((c.messageReceived lib header payload.length) (payload ++ tail)).value =
            some ({ c with name := payload.takeWhile (· ≠ 0) }.packetReceived header.type
              payload.length) := by
          rw [Connection.messageReceived, if_neg hplist, if_pos hswift, if_pos hconnect]
          simp only [bind_value, cstring_value payload tail 0 (hname hconnect), List.drop_zero,
            Option.bind_some, pure_value]
        simp only [hvalue, Option.some.injEq, forall_eq']
        exact within_packetReceived env _ _ _
      · have hvalue : ((c.messageReceived lib header payload.length) (payload ++ tail)).value =
            some (c.packetReceived header.type payload.length) := by
          rw [Connection.messageReceived, if_neg hplist, if_pos hswift, if_neg hconnect, pure_value]
        simp only [hvalue, Option.some.injEq, forall_eq']
        exact within_packetReceived env _ _ _
    · have hvalue : ((c.messageReceived lib header payload.length) (payload ++ tail)).value =
          some (c, .silent) := by
        rw [Connection.messageReceived, if_neg hplist, if_neg hswift, pure_value]
      simp only [FrameHolds, FrameCut, hplist, if_false, hswift, false_and, or_false, hvalue,
        Option.some.injEq, forall_eq', USBHub.raise, List.foldlM_nil, within_pure, and_true,
        false_implies]

/-- Whatever follows the payload in memory, nothing past it is read; and when it lacks
bytes, the dispatcher is left as it was. -/
structure Safe (d : ClientDispatcher) (c : Connection) (deviceID : ℤ)
    (header : SocketClient.PacketHeader) (payload : Bytes) (b : LocalBus) : Prop where
  within : ∀ tail, Within payload.length
    (d.messageReceived env application lib deviceID header payload.length b) (payload ++ tail)
  rejected : ¬ FrameHolds lib c header payload → ∀ tail, ∃ b',
    ((d.messageReceived env application lib deviceID header payload.length b)
      (payload ++ tail)).value = some (d, b')

def Stamped (d : ClientDispatcher) (clientid : Bytes) : Prop :=
  ∃ e, d.clients.find? clientid = some e ∧ e.lastKeepAliveResponse = env.now

theorem updateKeepAliveTime_eq_iff (clientid : Bytes) :
    d.updateKeepAliveTime env clientid = d ↔ Stamped env d clientid := by
  unfold updateKeepAliveTime setClient Stamped
  constructor
  · intro heq
    have hclients := congrArg ClientDispatcher.clients heq
    simp only at hclients
    have hfind := d.clients.find?_insert_self clientid
      { d.client clientid with lastKeepAliveResponse := env.now }
    rw [hclients] at hfind
    exact ⟨_, hfind, rfl⟩
  · rintro ⟨e, he, hnow⟩
    have hsame : { d.client clientid with lastKeepAliveResponse := env.now } = e := by
      rw [client, he, Option.getD_some, ← hnow]
    rw [hsame, OrderedMap.insert_of_find? _ he]

theorem messageReceived_cut (hh : d.usbHubPtr = some h) (hc : h.devices.find? deviceID = some c)
    (hcut : FrameCut c header payload) :
    ((d.messageReceived env application lib deviceID header payload.length b)
        (payload ++ tail)).value = some (d.updateKeepAliveTime env c.name, b) := by
  obtain ⟨hswift, hcallback, htype, h4, -, hnone⟩ := hcut
  have hd : { d with usbHubPtr := some (h.setDevice deviceID c) } = d := by
    rw [USBHub.setDevice, OrderedMap.insert_of_find? _ hc, ← hh]
  have hchannel := word_value_front uint16 payload tail 0 (by simp only [uint16_width]; omega)
  have hword := word_value_front uint16 payload tail (0 + 2) (by simpa using h4)
  have hkind : receivedKind? (uint16.ofBytes ((payload.drop (0 + 2)).take uint16.width)) = none := hnone
  have hdeliver : ∀ channel,
      ((didReceiveMessage channel 0 8 b) (payload ++ tail)).value = some b := by
    intro channel
    simp only [didReceiveMessage, bind_value, hword, Option.bind_some, hkind, pure_value]
  have hmultiplex : ((d.multiplexIncomingPacket env application c.name PacketType.message.code
      payload.length b) (payload ++ tail)).value = some (d.updateKeepAliveTime env c.name, b) := by
    simp only [multiplexIncomingPacket, PacketType.ofCode?_code, handleMessage, bind_value, hchannel,
      Option.bind_some, application, hdeliver, pure_value]
  have hconnect : ¬ (header.type = PacketType.connect.code ∨
      header.type = PacketType.connectAck.code) := by
    rw [htype]
    decide
  have hplist : ¬ header.protocol = usbMuxPacketProtocolPlist := by
    rw [hswift]
    decide
  have hconnection : ((c.messageReceived lib header payload.length) (payload ++ tail)).value =
      some (c, .packetReceived c.name PacketType.message.code payload.length) := by
    rw [Connection.messageReceived, if_neg hplist, if_pos hswift, if_neg hconnect, pure_value,
      Connection.packetReceived, if_pos hcallback, htype]
  simp only [ClientDispatcher.messageReceived, hubStep, hh, USBHub.messageReceived, hc, bind_value,
    ofOption_value, Option.bind_some, hconnection, pure_value, USBHub.raise, List.foldlM_cons,
    List.foldlM_nil, upcall, hd, hmultiplex]

/-- A frame is safe exactly when its payload has all bytes that are read of it, and its parser
ends on it if it is a property list; or when it is a Message cut off behind its type from a
client that was heard of at this very time. -/
theorem frame_safe_iff (p : Plist.Platform) (hh : d.usbHubPtr = some h)
    (hc : h.devices.find? deviceID = some c) :
    Safe env p.library d c deviceID header payload b ↔
      FrameHolds p.library c header payload ∨ FrameCut c header payload ∧ Stamped env d c.name := by
  constructor
  · intro hsafe
    by_cases hholds : FrameHolds p.library c header payload
    · exact Or.inl hholds
    · have hcut : FrameCut c header payload :=
        ((within_frame env p.library header b hh hc).mp (hsafe.within [])).resolve_left hholds
      refine Or.inr ⟨hcut, ?_⟩
      obtain ⟨b', hvalue⟩ := hsafe.rejected hholds []
      rw [messageReceived_cut env p.library header b hh hc hcut] at hvalue
      have hd := (Prod.mk.inj (Option.some.inj hvalue)).1.symm
      exact (updateKeepAliveTime_eq_iff env c.name).mp hd.symm
  · rintro (hholds | ⟨hcut, hstamped⟩)
    · exact ⟨fun tail => (within_frame env p.library header b hh hc).mpr (Or.inl hholds),
        fun hnot => absurd hholds hnot⟩
    · refine ⟨fun tail => (within_frame env p.library header b hh hc).mpr (Or.inr hcut),
        fun _ tail => ⟨b, ?_⟩⟩
      rw [messageReceived_cut env p.library header b hh hc hcut,
        (updateKeepAliveTime_eq_iff env c.name).mpr hstamped]

end

section

def phone : Connection :=
  { Connection.ofDevice ⟨1, 1, 4776, 480000000, [], []⟩ 5000 with
    status := .connected
    name := [65]
    packetReceivedCallback := true
    connectionStatusCallback := true }

def paired : ClientDispatcher :=
  { ClientDispatcher.initial [66] 5000 .usb with
    usbHubPtr := some ((USBHub.initial 5000).setDevice 1 phone) }

def quietAt (now : ℕ) : Env := ⟨now, 0, 0, fun _ _ => 0⟩

def subscribeFrame (count : UInt32) : SocketClient.PacketHeader :=
  ⟨count, swiftRobotPacketProtocol, PacketType.subscribeRequest.code, 1⟩

theorem phone_paired : ((USBHub.initial 5000).setDevice 1 phone).devices.find? 1 = some phone :=
  OrderedMap.find?_insert_self _ _ _

theorem frame_safe_iff_subscribe :
    Safe (quietAt 0) Plist.plainPlatform.library paired phone 1 (subscribeFrame 18) [1, 0] .initial ↔
      FrameHolds Plist.plainPlatform.library phone (subscribeFrame 18) [1, 0] ∨
        FrameCut phone (subscribeFrame 18) [1, 0] ∧ Stamped (quietAt 0) paired phone.name :=
  frame_safe_iff (quietAt 0) (subscribeFrame 18) .initial Plist.plainPlatform rfl phone_paired

/-- An empty SubscribeRequest is read past its end. -/
theorem empty_subscribe_overread : ¬ ∀ (env : Env) (p : Plist.Platform) (d : ClientDispatcher)
    (h : USBHub) (c : Connection) (deviceID : ℤ) (header : SocketClient.PacketHeader)
    (payload : Bytes) (b : LocalBus), d.usbHubPtr = some h → h.devices.find? deviceID = some c →
    Safe env p.library d c deviceID header payload b := by
  intro hall
  have hsafe := hall (quietAt 0) Plist.plainPlatform paired _ phone 1 (subscribeFrame 16) [] .initial rfl
    phone_paired
  rcases (within_frame (quietAt 0) Plist.plainPlatform.library (subscribeFrame 16) .initial rfl phone_paired).mp
    (hsafe.within []) with hholds | hcut
  · have hlen : 2 ≤ ([] : Bytes).length := hholds rfl .subscribeRequest rfl
    exact absurd hlen (by decide)
  · exact absurd hcut.2.2.1 (by decide)

end

end SwiftRobot.ReadBounds
