import SwiftRobot.Outgoing
import SwiftRobot.Support.Runs
import SwiftRobot.SwiftRobotClient

/-!
# Publishing to peers

A message is passed on as a value of its base struct. What is left of it is nothing,
and its serializer is the one that writes nothing: the packet has the size of the message
and the bytes that were on the stack.
-/

namespace SwiftRobot.Publishing
open ByteWords Copying Messages PacketHeaders ClientDispatcher Outgoing

inductive Event
  | publish (channel : UInt8) (msg : Msg)
  | subscribe (channel : UInt8) (kind : MsgKind)
  -- a frame on the socket of a device, with what lies behind its payload in memory
  | frame (deviceID : ℤ) (header : SocketClient.PacketHeader) (payload tail : Bytes)
  -- a frame on the broadcast socket
  | broadcast (header : SocketClient.PacketHeader) (payload tail : Bytes)
  | task (t : Task)
  | start
  | stop

section
variable (lib : Plist.Library)

def Event.apply (env : Env) (c : SwiftRobotClient) : Event → Option SwiftRobotClient
  | .publish channel msg => c.publish env channel msg
  | .subscribe channel kind => some (c.subscribe channel kind)
  | .frame deviceID header payload tail =>
    ((c.messageReceived env lib deviceID header payload.length) (payload ++ tail)).value
  | .broadcast header payload tail =>
    ((c.broadcastReceived env lib header payload.length) (payload ++ tail)).value
  | .task t => ((c.runTask env t) []).value
  | .start => some (c.start env lib)
  | .stop => ((c.stop env) []).value

def advance (c : SwiftRobotClient) (e : Env × Event) : Option SwiftRobotClient :=
  e.2.apply lib e.1 c

def step (c : SwiftRobotClient) (e : Env × Event) (c' : SwiftRobotClient) : Prop :=
  advance lib c e = some c'

end

/-- The packet has the header of the message and the bytes that its own serializer
writes, from which it can be read back. -/
def Carries (channel : UInt16) (m : Msg) (p : USBHub.Packet) : Prop :=
  ∃ body, p.parts = [(MessagePacketHeader.mk channel m.type m.getSize).bytes, body] ∧
    body.length = m.getSize.toNat ∧ (∀ i < m.getSize.toNat, written m.serialize i = body[i]?) ∧
    ∃ d, ((m.kind.deserialize 0) body).value = some d ∧ d.msg.contents = m.contents

def handedBetween (c c' : SwiftRobotClient) : List (USBHub.Target × USBHub.Packet) :=
  c'.client_dispatcher.handed.drop c.client_dispatcher.handed.length

def PublishesRight (c : SwiftRobotClient) (channel : UInt8) (m : Msg) : Prop :=
  ∀ env c', c.publish env channel m = some c' →
    ∀ p ∈ handedBetween c c', p.2.type = .message → Carries channel.toUInt16 m p.2

def NoRecipient (c : SwiftRobotClient) (channel : UInt8) : Prop :=
  c.client_dispatcher.usbHubPtr = none ∨
    ∀ clientid e, c.client_dispatcher.clients.find? clientid = some e →
      channel.toUInt16 ∉ e.subscriptions

section
variable {c : SwiftRobotClient} {channel : UInt8} {m : Msg} {env : Env}

theorem store_slice (m : Msg) (buffer : Bytes) : store m.slice.serialize buffer = buffer := by
  apply List.ext_getElem?
  simp [store, written_message]

theorem publish_handed (env : Env) (channel : UInt8) (m : Msg)
    (hhub : c.client_dispatcher.usbHubPtr.isSome) :
    ∃ c', c.publish env channel m = some c' ∧
      handedBetween c c' = (recipients c.client_dispatcher channel.toUInt16).mapIdx
        fun i clientid => (.client clientid, messagePacket env channel.toUInt16 m.slice m.getSize
          m.type (c.client_dispatcher.handed.length + i)) := by
  obtain ⟨d', hrun, hhanded⟩ := dispatchMessage_handed env channel.toUInt16 m.slice m.getSize
    m.type hhub
  refine ⟨⟨c.bus.notify channel.toUInt16 m, d'⟩, by simp [SwiftRobotClient.publish, hrun], ?_⟩
  rw [handedBetween, hhanded, List.drop_left]

theorem deserialize_nil (kind : MsgKind) : ((kind.deserialize 0) []).value = none := by
  cases kind <;> rfl

theorem not_carries (m : Msg) (channel : UInt16) (k : ℕ) :
    ∃ stack : UInt8, ¬ Carries channel m
      (messagePacket ⟨0, 0, 0, fun _ _ => stack⟩ channel m.slice m.getSize m.type k) := by
  obtain ⟨b, hb⟩ := Option.isSome_iff_exists.mp (written_zero m)
  obtain ⟨other, hother⟩ : ∃ other : UInt8, b ≠ other := by
    by_cases h : b = 0
    · exact ⟨1, by simp [h]⟩
    · exact ⟨0, h⟩
  refine ⟨other, ?_⟩
  rintro ⟨body, hparts, hlen, hbytes, d, hd, -⟩
  have hbody : List.replicate m.getSize.toNat other = body := by
    simpa [messagePacket, store_slice] using hparts
  by_cases hsize : m.getSize.toNat = 0
  · have hnil : body = [] := List.length_eq_zero_iff.mp (hlen.trans hsize)
    rw [hnil, deserialize_nil] at hd
    simp at hd
  · have hfirst := hbytes 0 (by omega)
    rw [hb, ← hbody, List.getElem?_replicate_of_lt (by omega), Option.some.injEq] at hfirst
    exact hother hfirst

theorem publishesRight_iff : PublishesRight c channel m ↔ NoRecipient c channel := by
  constructor
  · intro hright
    by_contra hne
    simp only [NoRecipient, not_or, not_forall, not_not, ← ne_eq, Option.ne_none_iff_isSome] at hne
    obtain ⟨hhub, clientid, e, he, hmem⟩ := hne
    have hrecipient : clientid ∈ recipients c.client_dispatcher channel.toUInt16 :=
      (mem_recipients _).mpr ⟨e, he, hmem⟩
    obtain ⟨i, hi, -⟩ := List.mem_iff_getElem.mp hrecipient
    obtain ⟨stack, hnot⟩ := not_carries m channel.toUInt16 (c.client_dispatcher.handed.length + i)
    obtain ⟨c', hrun, hhanded⟩ := publish_handed ⟨0, 0, 0, fun _ _ => stack⟩ channel m hhub
    obtain ⟨p, hp, hpacket⟩ : ∃ p ∈ handedBetween c c', p.2 = messagePacket
        ⟨0, 0, 0, fun _ _ => stack⟩ channel.toUInt16 m.slice m.getSize m.type
          (c.client_dispatcher.handed.length + i) := by
      rw [hhanded]
      exact ⟨_, List.mem_mapIdx.mpr ⟨i, hi, rfl⟩, rfl⟩
    have hcarries := hright _ c' hrun p hp (by rw [hpacket]; rfl)
    rw [hpacket] at hcarries
    exact hnot hcarries
  · intro hno env c' hrun
    have hsame : c'.client_dispatcher = c.client_dispatcher := by
      obtain ⟨d', hd, rfl⟩ := Option.map_eq_some_iff.mp hrun
      rcases hno with hnone | hclients
      · exact (Option.some.inj ((dispatchMessage_no_hub env _ _ _ _ hnone).symm.trans hd)).symm
      · have hempty : recipients c.client_dispatcher channel.toUInt16 = [] := by
          refine List.eq_nil_iff_forall_not_mem.mpr fun clientid hmem => ?_
          obtain ⟨e, he, hsub⟩ := (mem_recipients _).mp hmem
          exact hclients clientid e he hsub
        rw [dispatchMessage_eq, hempty] at hd
        exact (Option.some.inj hd).symm
    intro p hp
    simp [handedBetween, hsame] at hp

end

/-- In the states of a run every publish of the message sends it as it is exactly when
none of these states has a client to send it to. -/
theorem publish_right_iff (lib : Plist.Library) (connection_type : ConnectionType) (name : Bytes)
    (port : UInt16) (es : List (Env × Event)) (channel : UInt8) (m : Msg) :
    (∀ c, Run.Visits (step lib) (.initial connection_type name port) es c →
        PublishesRight c channel m) ↔
      ∀ c, Run.Visits (step lib) (.initial connection_type name port) es c →
        NoRecipient c channel :=
  forall_congr' fun _ => imp_congr_right fun _ => publishesRight_iff

section

def attaching : Plist.Library :=
  ⟨fun _ => .ok (.dictionary (HubRouting.attached 1)), fun _ _ _ => .error .thrown, fun _ => [],
    fun _ => true⟩

def zeroStack : Env := ⟨0, 0, 0, fun _ _ => 0⟩

def subscribedTo : List (Env × Event) :=
  [(zeroStack, .broadcast ⟨24, usbMuxPacketProtocolPlist, 8, 0⟩ (List.replicate 8 0) []),
    (zeroStack, .frame 1 ⟨22, swiftRobotPacketProtocol, PacketType.connect.code, 1⟩
      ([65, 0] ++ uint16.bytes 1 ++ uint16.bytes 1) [])]

/-- A UInt8Array for this phone goes out as bytes of the stack. -/
theorem published_array_is_stack : ¬ ∀ (lib : Plist.Library) (connection_type : ConnectionType)
    (name : Bytes) (port : UInt16) (es : List (Env × Event)) (c : SwiftRobotClient),
    Run (step lib) (.initial connection_type name port) es c →
      ∀ channel m, PublishesRight c channel m := by
  intro hall
  have hend : ∃ c ∈ subscribedTo.foldlM (advance attaching) (.initial .usb [66] 5000),
      c.client_dispatcher.usbHubPtr.isSome = true ∧
        (c.client_dispatcher.clients.find? [65]).map (·.subscriptions) = some [1] := by
    decide +kernel
  obtain ⟨c, hc, hhub, hclient⟩ := hend
  have hright := hall attaching .usb [66] 5000 subscribedTo c (Run.iff_foldlM.mpr hc) 1
    (.uint8Array ⟨2, [1, 2]⟩)
  obtain ⟨e, he, hsub⟩ := Option.map_eq_some_iff.mp hclient
  rcases publishesRight_iff.mp hright with hnone | hclients
  · simp [hnone] at hhub
  · exact hclients [65] e he (by rw [hsub]; decide)

end

end SwiftRobot.Publishing
