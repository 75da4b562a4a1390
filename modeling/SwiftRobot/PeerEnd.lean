import SwiftRobot.Outgoing
import SwiftRobot.PeerLink

/-!
# One end of the link

What a dispatcher spoken on its only connection, and what it makes of what it hears.
Every packet is one of four kinds. The first is a Connect or a ConnectAck, and from it
on the packets tell of the subscriptions of their sender.
-/

namespace SwiftRobot.PeerEnd
open ByteWords Reading PacketHeaders MessageConnectHeader Connection ClientDispatcher ListReplica
open PeerLink

inductive Spoken (name : Bytes) : Call → Prop
  | announce {type : PacketType} (tag : UInt32) (channels : List UInt16) (stack : ℕ → UInt8) :
    type = .connect ∨ type = .connectAck →
    Spoken name (.send swiftRobotPacketProtocol type.code tag
      ((announcing name channels).packet stack))
  | request (tag : UInt32) (channel : UInt16) :
    Spoken name (.send swiftRobotPacketProtocol PacketType.subscribeRequest.code tag
      (uint16.bytes channel))
  | message (tag : UInt32) (data1 data2 : Bytes) :
    Spoken name (.send2 swiftRobotPacketProtocol PacketType.message.code tag data1 data2)
  | keepAlive {type : PacketType} (tag : UInt32) :
    type = .keepAliveRequest ∨ type = .keepAliveResponse →
    Spoken name (.send swiftRobotPacketProtocol type.code tag [])

section
variable {name : Bytes} (tag : UInt32)

theorem note_announce {type : PacketType} (channels : List UInt16) (stack : ℕ → UInt8)
    (hname : 0 ∉ name) (ht : type = .connect ∨ type = .connectAck) :
    note (.send swiftRobotPacketProtocol type.code tag
      ((announcing name channels).packet stack)) =
        .snapshot (announced channels) := by
  have hread := deserialize_packet stack channels [] hname
  rw [List.append_nil] at hread
  rcases ht with rfl | rfl <;>
    simp only [note, Call.type, Call.payload, PacketType.ofCode?_code, hread]

theorem note_request (channel : UInt16) :
    note (.send swiftRobotPacketProtocol PacketType.subscribeRequest.code tag
      (uint16.bytes channel)) = .increment channel := by
  have hread := word_value_middle uint16 [] [] channel 0 rfl
  simp only [List.append_nil, List.nil_append] at hread
  simp only [note, Call.type, Call.payload, PacketType.ofCode?_code, hread]

theorem note_message (data1 data2 : Bytes) :
    note (.send2 swiftRobotPacketProtocol PacketType.message.code tag data1 data2) = .silent := by
  simp only [note, Call.type, PacketType.ofCode?_code]

theorem note_keepAlive {type : PacketType}
    (ht : type = .keepAliveRequest ∨ type = .keepAliveResponse) :
    note (.send swiftRobotPacketProtocol type.code tag []) = .silent := by
  rcases ht with rfl | rfl <;> simp only [note, Call.type, PacketType.ofCode?_code]

end

theorem packets_call (c : Connection) {p : Call} (hp : p.protocol = swiftRobotPacketProtocol)
    (tag : UInt32) :
    packets { c with client := c.client.call p, tag := tag } = packets c ++ [p] := by
  simp [packets, Client.call, hp]

/-- What a connection has sent for a dispatcher of this name with this list. -/
structure Speaks (name : Bytes) (l : List UInt16) (c : Connection) : Prop where
  reportsPackets : c.packetReceivedCallback = true
  reportsStatus : c.connectionStatusCallback = true
  started : c.status = .connected ↔ packets c ≠ []
  told : packets c ≠ [] → Told announced l ((packets c).map note)
  spoken : ∀ p ∈ packets c, Spoken name p

def Retells (l : List UInt16) (p : Call) : Prop :=
  note p = .silent ∨ note p = .snapshot (announced l)

section
variable {name : Bytes} {l : List UInt16} {c : Connection}

theorem Speaks.call (h : Speaks name l c) (hc : c.status = .connected) {p : Call}
    (hprotocol : p.protocol = swiftRobotPacketProtocol) (hspoken : Spoken name p)
    (hnote : Retells l p) (tag : UInt32) :
    Speaks name l { c with client := c.client.call p, tag := tag } := by
  have hcall := packets_call c hprotocol tag
  have htold := h.told (h.started.mp hc)
  refine ⟨h.reportsPackets, h.reportsStatus, ?_, ?_, ?_⟩
  · rw [hcall]
    simp [hc]
  · intro _
    rw [hcall, List.map_append, List.map_singleton]
    rcases hnote with hn | hn
    · rw [hn]
      exact htold.silent
    · rw [hn]
      exact htold.snapshot
  · intro q hq
    rw [hcall, List.mem_append, List.mem_singleton] at hq
    rcases hq with hq | rfl
    · exact h.spoken q hq
    · exact hspoken

structure Sends (name : Bytes) (l : List UInt16) (c c' : Connection) : Prop where
  speaks : Speaks name l c'
  sameName : c'.name = c.name
  grows : packets c <+: packets c'

theorem Speaks.send (h : Speaks name l c) (type : PacketType) (data : Bytes)
    (hspoken : ∀ tag, Spoken name (.send swiftRobotPacketProtocol type.code tag data))
    (hnote : ∀ tag, Retells l (.send swiftRobotPacketProtocol type.code tag data)) :
    Sends name l c (c.send type data) := by
  refine ⟨?_, send_name c type data, ?_⟩ <;> unfold Connection.send <;> split_ifs with hc
  · exact h.call hc rfl (hspoken _) (hnote _) _
  · exact h
  · rw [packets_call c rfl]
    exact List.prefix_append _ _
  · exact List.prefix_rfl

theorem Speaks.send2 (h : Speaks name l c) (data1 data2 : Bytes) :
    Sends name l c (c.send2 .message data1 data2) := by
  refine ⟨?_, send2_name c .message data1 data2, ?_⟩ <;> unfold Connection.send2 <;>
    split_ifs with hc
  · exact h.call hc rfl (.message _ _ _) (Or.inl (note_message _ _ _)) _
  · exact h
  · rw [packets_call c rfl]
    exact List.prefix_append _ _
  · exact List.prefix_rfl

theorem Speaks.request (h : Speaks name l c) (channel : UInt16) :
    Speaks name (l ++ [channel]) (c.send .subscribeRequest (uint16.bytes channel)) := by
  unfold Connection.send
  split_ifs with hc
  · have hcall := packets_call c (p := .send swiftRobotPacketProtocol
      PacketType.subscribeRequest.code c.tag (uint16.bytes channel)) rfl (c.tag + 1)
    refine ⟨h.reportsPackets, h.reportsStatus, ?_, ?_, ?_⟩
    · rw [hcall]
      simp [hc]
    · intro _
      rw [hcall, List.map_append, List.map_singleton, note_request]
      exact (h.told (h.started.mp hc)).increment channel
    · intro q hq
      rw [hcall, List.mem_append, List.mem_singleton] at hq
      rcases hq with hq | rfl
      · exact h.spoken q hq
      · exact .request _ channel
  · have hnone : packets c = [] := by
      by_contra hne
      exact hc (h.started.mpr hne)
    exact ⟨h.reportsPackets, h.reportsStatus, h.started, fun hne => absurd hnone hne, h.spoken⟩

theorem Speaks.linkUp (h : Speaks name l c) (hname : 0 ∉ name) (stack : ℕ → UInt8) :
    Speaks name l
      (Connection.send .connect ((announcing name l).packet stack) { c with status := .connected }) := by
  have hcall := packets_call { c with status := .connected } (p := .send swiftRobotPacketProtocol
    PacketType.connect.code c.tag ((announcing name l).packet stack)) rfl (c.tag + 1)
  have hold : packets { c with status := .connected } = packets c := rfl
  simp only [Connection.send, if_true]
  refine ⟨h.reportsPackets, h.reportsStatus, ?_, ?_, ?_⟩
  · rw [hcall]
    simp
  · intro _
    rw [hcall, hold, List.map_append, List.map_singleton,
      note_announce _ l stack hname (Or.inl rfl)]
    by_cases hne : packets c = []
    · rw [hne]
      exact .begin l
    · exact (h.told hne).snapshot
  · intro q hq
    rw [hcall, hold, List.mem_append, List.mem_singleton] at hq
    rcases hq with hq | rfl
    · exact h.spoken q hq
    · exact .announce _ l stack (Or.inl rfl)

end

structure Alone (deviceID : ℤ) (h : USBHub) (c : Connection) : Prop where
  entries : h.devices.entries = [(deviceID, c)]
  reports : h.deviceStatusCallback = true

section
variable {deviceID : ℤ} {h h' : USBHub} {c : Connection}

theorem Alone.find? (ha : Alone deviceID h c) : h.devices.find? deviceID = some c := by
  simp [OrderedMap.find?, ha.entries]

theorem Alone.setDevice (ha : Alone deviceID h c) (c' : Connection) :
    Alone deviceID (h.setDevice deviceID c') c' :=
  ⟨by simp [USBHub.setDevice, OrderedMap.insert, OrderedMap.place, ha.entries], ha.reports⟩

theorem Alone.onDevice (ha : Alone deviceID h c) {f : Connection → Connection}
    (hrun : h.onDevice deviceID f = some h') : Alone deviceID h' (f c) := by
  rw [USBHub.onDevice, ha.find?, Option.map_some, Option.some.injEq] at hrun
  rw [← hrun]
  exact ha.setDevice (f c)

theorem Alone.getDeviceIDForClientID (ha : Alone deviceID h c) (clientid : Bytes) :
    h.getDeviceIDForClientID clientid = if c.name = clientid then deviceID else -1 := by
  rw [USBHub.getDeviceIDForClientID, OrderedMap.first, ha.entries]
  by_cases hn : c.name = clientid <;> simp [hn]

theorem Alone.sendPacketToDevice (ha : Alone deviceID h c) {type : PacketType} {data : Bytes}
    (hrun : h.sendPacketToDevice type deviceID data = some h') :
    Alone deviceID h' (c.send type data) := by
  have hhand : Alone deviceID (h.hand (.device deviceID) ⟨type, [data]⟩) c :=
    ⟨ha.entries, ha.reports⟩
  exact hhand.onDevice hrun

theorem Alone.onClient (ha : Alone deviceID h c) (hid : 0 ≤ deviceID) (clientid : Bytes)
    (target : USBHub.Target) (p : USBHub.Packet) (f : Connection → Connection) :
    ∃ h', HubRouting.onClient h clientid target p f = some h' ∧
      Alone deviceID h' (if c.name = clientid then f c else c) := by
  have hhand : Alone deviceID (h.hand target p) c := ⟨ha.entries, ha.reports⟩
  rw [HubRouting.onClient, ha.getDeviceIDForClientID]
  split_ifs with hn hneg
  · exact ⟨_, by rw [USBHub.onDevice, hhand.find?, Option.map_some], hhand.setDevice (f c)⟩
  · exact absurd hneg (by decide)
  · exact ⟨_, rfl, hhand⟩

theorem Alone.sendPacketToAll (ha : Alone deviceID h c) (type : PacketType) (data : Bytes) :
    Alone deviceID (h.sendPacketToAll type data) (c.send type data) :=
  ⟨by simp [USBHub.sendPacketToAll, USBHub.hand, OrderedMap.mapValues, ha.entries], ha.reports⟩

end

def Wired (deviceID : ℤ) (d : ClientDispatcher) (c : Connection) : Prop :=
  ∃ h, d.usbHubPtr = some h ∧ Alone deviceID h c

/-- A dispatcher with one device, over which it talks to `peer`, having heard the packets
`heard` from there. -/
structure End (deviceID : ℤ) (me peer : Bytes) (heard : List Call) (d : ClientDispatcher)
    (c : Connection) : Prop where
  hub : Wired deviceID d c
  serviceName : d.globalServiceName = me
  speaks : Speaks me d.clientChannelSubsciptions c
  peerName : heard ≠ [] → c.name = peer
  held : (d.client peer).subscriptions = replay [] (heard.map note)

def Keeps (deviceID : ℤ) (me peer : Bytes) (d d' : ClientDispatcher) : Prop :=
  ∀ heard c, End deviceID me peer heard d c →
    ∃ c', End deviceID me peer heard d' c' ∧ packets c <+: packets c'

section
variable {deviceID : ℤ} {me peer : Bytes} {d d' d'' : ClientDispatcher} {c : Connection}
  {heard : List Call}

theorem Keeps.refl (d : ClientDispatcher) : Keeps deviceID me peer d d :=
  fun _ c h => ⟨c, h, List.prefix_rfl⟩

theorem Keeps.trans (h₁ : Keeps deviceID me peer d d') (h₂ : Keeps deviceID me peer d' d'') :
    Keeps deviceID me peer d d'' := by
  intro heard c h
  obtain ⟨c', h', hgrows⟩ := h₁ heard c h
  obtain ⟨c'', h'', hgrows'⟩ := h₂ heard c' h'
  exact ⟨c'', h'', hgrows.trans hgrows'⟩

theorem Keeps.of_eq (hhub : d'.usbHubPtr = d.usbHubPtr)
    (hname : d'.globalServiceName = d.globalServiceName)
    (hlist : d'.clientChannelSubsciptions = d.clientChannelSubsciptions)
    (hheld : (d'.client peer).subscriptions = (d.client peer).subscriptions) :
    Keeps deviceID me peer d d' := by
  rintro heard c ⟨⟨hub, hsome, ha⟩, serviceName, speaks, peerName, held⟩
  exact ⟨c, ⟨⟨hub, hhub.trans hsome, ha⟩, by rw [hname]; exact serviceName, by rw [hlist]; exact speaks,
    peerName, by rw [hheld]; exact held⟩, List.prefix_rfl⟩

theorem setClient_keeps (id : Bytes) {e : ExternalClient}
    (he : e.subscriptions = (d.client id).subscriptions) :
    Keeps deviceID me peer d (d.setClient id e) := by
  refine .of_eq rfl rfl rfl ?_
  rw [client_setClient]
  split_ifs with hid
  · rw [he, hid]
  · rfl

theorem touch_keeps (id : Bytes) : Keeps deviceID me peer d (d.touch id) := setClient_keeps id rfl

theorem End.onHub (h : End deviceID me peer heard d c) {g : USBHub → Option USBHub}
    (hg : ∀ hub hub', Alone deviceID hub c → g hub = some hub' →
      ∃ c', Alone deviceID hub' c' ∧ Sends me d.clientChannelSubsciptions c c')
    (hrun : d.onHub g = some d') :
    ∃ c', End deviceID me peer heard d' c' ∧ packets c <+: packets c' := by
  obtain ⟨hub, hhub, ha⟩ := h.hub
  rw [ClientDispatcher.onHub, hhub] at hrun
  obtain ⟨hub', hrun', rfl⟩ := Option.map_eq_some_iff.mp hrun
  obtain ⟨c', ha', hsends⟩ := hg hub hub' ha hrun'
  exact ⟨c', ⟨⟨hub', rfl, ha'⟩, h.serviceName, hsends.speaks,
    fun hne => hsends.sameName.trans (h.peerName hne), h.held⟩, hsends.grows⟩

theorem End.onClient (h : End deviceID me peer heard d c) (hid : 0 ≤ deviceID)
    {clientid : Bytes} {target : USBHub.Target} {p : USBHub.Packet} {f : Connection → Connection}
    (hf : Sends me d.clientChannelSubsciptions c (f c))
    (hrun : d.onHub (HubRouting.onClient · clientid target p f) = some d') :
    ∃ c', End deviceID me peer heard d' c' ∧ packets c <+: packets c' := by
  refine h.onHub (fun hub hub' ha hput => ?_) hrun
  obtain ⟨hub'', hput', ha'⟩ := ha.onClient hid clientid target p f
  have hsame : hub'' = hub' := Option.some.inj (hput'.symm.trans hput)
  refine ⟨_, hsame ▸ ha', ?_⟩
  split_ifs
  · exact hf
  · exact ⟨h.speaks, rfl, List.prefix_rfl⟩

section
variable (env : Env)

theorem sendMessage_keeps (hid : 0 ≤ deviceID) {clientid : Bytes} {msg : Messages.Message} {channel : UInt16}
    {size : UInt32} {type : UInt16}
    (hrun : d.sendMessage env clientid msg channel size type = some d') :
    Keeps deviceID me peer d d' :=
  fun _ _ h => h.onClient hid (h.speaks.send2 _ _) hrun

theorem sendKeepAliveRequest_keeps (hid : 0 ≤ deviceID) {clientid : Bytes}
    (hrun : d.sendKeepAliveRequest clientid = some d') : Keeps deviceID me peer d d' :=
  fun _ _ h => h.onClient hid (h.speaks.send .keepAliveRequest []
    (fun tag => .keepAlive tag (Or.inl rfl))
    (fun tag => Or.inl (note_keepAlive tag (Or.inl rfl)))) hrun

theorem sendKeepAliveResponse_keeps (hid : 0 ≤ deviceID) {clientid : Bytes}
    (hrun : d.sendKeepAliveResponse clientid = some d') : Keeps deviceID me peer d d' :=
  fun _ _ h => h.onClient hid (h.speaks.send .keepAliveResponse []
    (fun tag => .keepAlive tag (Or.inr rfl))
    (fun tag => Or.inl (note_keepAlive tag (Or.inr rfl)))) hrun

theorem sendConnectAck_keeps (hid : 0 ≤ deviceID) (hname : 0 ∉ me) {clientid : Bytes}
    (hrun : d.sendConnectAck env clientid = some d') : Keeps deviceID me peer d d' := by
  intro heard c h
  refine h.onClient hid (h.speaks.send .connectAck (d.connectPacket env) ?_ ?_) hrun
  · intro tag
    rw [connectPacket, h.serviceName]
    exact .announce tag _ _ (Or.inr rfl)
  · intro tag
    rw [connectPacket, h.serviceName]
    exact Or.inr (note_announce tag _ _ hname (Or.inr rfl))

theorem dispatchMessage_keeps (hid : 0 ≤ deviceID) {channel : UInt16} {msg : Messages.Message}
    {size : UInt32} {type : UInt16}
    (hrun : d.dispatchMessage env channel msg size type = some d') :
    Keeps deviceID me peer d d' := by
  rw [Outgoing.dispatchMessage_eq] at hrun
  exact Run.relates_of_foldlM .refl .trans (fun _ _ _ _ hsend => sendMessage_keeps env hid hsend) hrun

theorem keepAliveCheck_keeps (hid : 0 ≤ deviceID) (hrun : d.keepAliveCheck env = some d') :
    Keeps deviceID me peer d d' := by
  unfold keepAliveCheck at hrun
  split_ifs at hrun
  · obtain ⟨d₁, hloop, hrun⟩ := Option.bind_eq_some_iff.mp hrun
    rw [← Option.some.inj hrun]
    have hchecked : Keeps deviceID me peer d d₁ := by
      refine Run.relates_of_foldlM .refl .trans (fun e _ d d' hcheck => ?_) hloop
      refine (touch_keeps e.1).trans ?_
      simp only at hcheck
      split_ifs at hcheck
      · obtain ⟨d₂, hsend, rfl⟩ := Option.map_eq_some_iff.mp hcheck
        exact (sendKeepAliveRequest_keeps hid hsend).trans (.of_eq rfl rfl rfl rfl)
      · rw [← Option.some.inj hcheck]
        exact .refl _
    exact hchecked.trans (.of_eq rfl rfl rfl rfl)
  · rw [← Option.some.inj hrun]
    exact .refl d

theorem startLookingForConnections_same {lib : Plist.Library} {h h' : USBHub}
    (hs : h.startLookingForConnections lib = some h') :
    h'.devices = h.devices ∧ h'.deviceStatusCallback = h.deviceStatusCallback := by
  unfold USBHub.startLookingForConnections at hs
  split_ifs at hs
  rw [← Option.some.inj hs]
  exact ⟨rfl, rfl⟩

theorem start_keeps (lib : Plist.Library) : Keeps deviceID me peer d (d.start env lib) := by
  unfold start
  split
  next h _ hhub =>
    split
    next h' hlooking =>
      obtain ⟨hdevices, hreports⟩ := startLookingForConnections_same hlooking
      have hlooks : Keeps deviceID me peer d { d with usbHubPtr := some h' } := by
        intro heard c hend
        obtain ⟨hub, hhub', ha⟩ := hend.hub
        obtain rfl : hub = h := Option.some.inj (hhub'.symm.trans hhub)
        have ha' : Alone deviceID h' c := ⟨hdevices ▸ ha.entries, hreports.trans ha.reports⟩
        exact ⟨c, ⟨⟨_, rfl, ha'⟩, hend.serviceName, hend.speaks, hend.peerName, hend.held⟩,
          List.prefix_rfl⟩
      exact hlooks.trans (.of_eq rfl rfl rfl rfl)
    next => exact .refl d
  next => exact .refl d

theorem subscribeRequest_keeps (channel : UInt16) :
    Keeps deviceID me peer d (d.subscribeRequest channel) := by
  intro heard c h
  obtain ⟨hub, hhub, ha⟩ := h.hub
  refine ⟨c.send .subscribeRequest (uint16.bytes channel), ⟨?_, h.serviceName,
    h.speaks.request channel, fun hne => ?_, h.held⟩, ?_⟩
  · refine ⟨hub.sendPacketToAll .subscribeRequest (uint16.bytes channel), ?_,
      ha.sendPacketToAll .subscribeRequest _⟩
    simp only [subscribeRequest, sendSubscribeRequest, hhub, Option.map_some,
      SubscribeRequestPacketHeader.bytes]
  · rw [send_name]
    exact h.peerName hne
  · unfold Connection.send
    split_ifs
    · rw [packets_call c rfl]
      exact List.prefix_append _ _
    · exact List.prefix_rfl

theorem plistReceived_resultOK (c : Connection) :
    c.plistReceived HubRouting.resultOK = some (c.resultReceived usbMuxReplyCodeOK) := rfl

theorem sendConnectForUnkownUSBDevice_sends {hub : USBHub} (hhub : d.usbHubPtr = some hub)
    (ha : Alone deviceID hub c) (hrun : d.sendConnectForUnkownUSBDevice env deviceID = some d') :
    ∃ hub', d' = { d with usbHubPtr := some hub' } ∧ Alone deviceID hub' (c.send .connect
      ((announcing d.globalServiceName d.clientChannelSubsciptions).packet (d.stackBytes env))) := by
  rw [sendConnectForUnkownUSBDevice, ClientDispatcher.onHub, hhub] at hrun
  obtain ⟨hub', hput, rfl⟩ := Option.map_eq_some_iff.mp hrun
  exact ⟨hub', rfl, ha.sendPacketToDevice hput⟩

section
variable {σ : Type} {lib : Plist.Library} {app : Application σ} {s s' : σ}

theorem tunnelOpened_keeps (hname : 0 ∉ me)
    (hrun : tunnelOpened app env deviceID d s = some (d', s')) : Keeps deviceID me peer d d' := by
  intro heard c h
  obtain ⟨hub, hhub, ha⟩ := h.hub
  have hput := ha.setDevice { c with status := .connected }
  have hopened : tunnelOpened app env deviceID d s =
      ({ d with usbHubPtr := some (hub.setDevice deviceID { c with status := .connected })
        }.sendConnectForUnkownUSBDevice { env with captured := deviceID } deviceID).map
          fun d => (d, s) := by
    simp [tunnelOpened, hubStep, hhub, ha.find?, plistReceived_resultOK, resultReceived,
      connectedRoutine, h.speaks.reportsStatus, USBHub.raise, ha.reports, upcall,
      callbackUSBDeviceStatusChanged]
  rw [hopened] at hrun
  obtain ⟨d₁, hsend, heq⟩ := Option.map_eq_some_iff.mp hrun
  obtain rfl : d₁ = d' := congrArg Prod.fst heq
  obtain ⟨hub', rfl, ha'⟩ := sendConnectForUnkownUSBDevice_sends _ rfl hput hsend
  generalize stackBytes _ _ = stack at ha'
  rw [h.serviceName] at ha'
  refine ⟨_, ⟨⟨hub', rfl, ha'⟩, h.serviceName, h.speaks.linkUp hname stack, fun hne => ?_, h.held⟩, ?_⟩
  · rw [send_name]
    exact h.peerName hne
  · simp only [Connection.send, if_true]
    rw [packets_call { c with status := .connected } rfl]
    exact List.prefix_append _ _

end

section
variable {σ : Type} (lib : Plist.Library) (app : Application σ) (s : σ)

theorem cstring_of_deserialize {dat : ℕ} {mem : Bytes} {m : MessageConnectHeader}
    (h : ((deserialize dat) mem).value = some m) : ((cstring dat) mem).value = some m.clientid := by
  simp only [deserialize, bind_value, pure_value, Option.bind_eq_some_iff] at h
  obtain ⟨clientid, hid, _, _, _, _, hm⟩ := h
  rw [hid, ← Option.some.inj hm]

theorem messageReceived_value {p : Call} (hp : Spoken peer p) (hpeer : 0 ∉ peer)
    (hnamed : c.name = peer ∨ (note p).IsSnapshot) (size : ℕ) (tail : Bytes)
    (hreports : c.packetReceivedCallback = true) :
    ((c.messageReceived lib (HubRouting.swiftRobotHeader p.type p.payload) size)
      (p.payload ++ tail)).value =
        some ({ c with name := peer }, .packetReceived peer p.type size) := by
  have hprotocol : swiftRobotPacketProtocol ≠ usbMuxPacketProtocolPlist := by decide
  -- a packet that is no announcement leaves the name as it is
  have hother (ht : p.type ≠ PacketType.connect.code ∧ p.type ≠ PacketType.connectAck.code)
      (hsilent : ¬ (note p).IsSnapshot) :
      ((c.messageReceived lib (HubRouting.swiftRobotHeader p.type p.payload) size)
        (p.payload ++ tail)).value =
          some ({ c with name := peer }, .packetReceived peer p.type size) := by
    obtain rfl : c.name = peer := hnamed.resolve_right hsilent
    have hplain : ((c.messageReceived lib (HubRouting.swiftRobotHeader p.type p.payload) size)
        (p.payload ++ tail)).value = some (c.packetReceived p.type size) := by
      simp [Connection.messageReceived, HubRouting.swiftRobotHeader, hprotocol, ht]
    rw [hplain, packetReceived, if_pos hreports]
  cases hp with
  | announce tag channels stack ht =>
    have hread := cstring_of_deserialize (deserialize_packet stack channels tail hpeer)
    rcases ht with rfl | rfl <;>
      simp [Connection.messageReceived, HubRouting.swiftRobotHeader, hprotocol, Call.type,
        Call.payload, hread, packetReceived, hreports]
  | request tag channel =>
    refine hother (show PacketType.subscribeRequest.code ≠ _ ∧
      PacketType.subscribeRequest.code ≠ _ by decide) ?_
    rw [note_request]
    exact id
  | message tag data1 data2 =>
    refine hother (show PacketType.message.code ≠ _ ∧ PacketType.message.code ≠ _ by decide) ?_
    rw [note_message]
    exact id
  | @keepAlive type tag ht =>
    refine hother (show type.code ≠ _ ∧ type.code ≠ _ by rcases ht with rfl | rfl <;> decide) ?_
    rw [note_keepAlive tag ht]
    exact id

theorem End.hear (h : End deviceID me peer heard d c) (hname : c.name = peer) {p : Call}
    {e : ExternalClient} (he : e.subscriptions = (note p).apply (d.client peer).subscriptions) :
    End deviceID me peer (heard ++ [p]) (d.setClient peer e) c := by
  refine ⟨h.hub, h.serviceName, h.speaks, fun _ => hname, ?_⟩
  rw [client_setClient, if_pos rfl, he, h.held, List.map_append, List.map_singleton, replay_snoc]

theorem End.receive_eq (h : End deviceID me peer heard d c) {p : Call} (hp : Spoken peer p)
    (hpeer : 0 ∉ peer) (hfirst : heard = [] → (note p).IsSnapshot) (tail : Bytes) :
    ∃ d₁, End deviceID me peer heard d₁ { c with name := peer } ∧
      receive lib app env deviceID p tail d s = ((d₁.multiplexIncomingPacket env app peer p.type
        p.payload.length s) (p.payload ++ tail)).value := by
  obtain ⟨hub, hhub, ha⟩ := h.hub
  have hnamed : c.name = peer ∨ (note p).IsSnapshot := by
    by_cases hne : heard = []
    · exact Or.inr (hfirst hne)
    · exact Or.inl (h.peerName hne)
  have hread := messageReceived_value lib hp hpeer hnamed p.payload.length tail
    h.speaks.reportsPackets
  have hput := ha.setDevice { c with name := peer }
  refine ⟨{ d with usbHubPtr := some (hub.setDevice deviceID { c with name := peer }) },
    ⟨⟨_, rfl, hput⟩, h.serviceName, ⟨h.speaks.reportsPackets, h.speaks.reportsStatus,
      h.speaks.started, h.speaks.told, h.speaks.spoken⟩, fun _ => rfl, h.held⟩, ?_⟩
  simp [receive, ClientDispatcher.messageReceived, hubStep, hhub, USBHub.messageReceived, ha.find?,
    hread, USBHub.raise, upcall]

theorem handleConnectAck_value (channels : List UInt16) (stack : ℕ → UInt8) (hpeer : 0 ∉ peer)
    (tail : Bytes) :
    ((d.handleConnectAck env app peer s) ((announcing peer channels).packet stack ++ tail)).value =
      some (d.setClient peer ⟨peer, env.now, announced channels⟩,
        app.didReceiveUpdateMsg peer .connected s) := by
  simp [handleConnectAck, deserialize_packet stack channels tail hpeer]

theorem End.multiplex (hid : 0 ≤ deviceID) (hme : 0 ∉ me) (hpeer : 0 ∉ peer)
    (h : End deviceID me peer heard d c) (hname : c.name = peer) {p : Call} (hp : Spoken peer p)
    {size : ℕ} {tail : Bytes} {s' : σ}
    (hrun : ((d.multiplexIncomingPacket env app peer p.type size s) (p.payload ++ tail)).value =
      some (d', s')) :
    ∃ c', End deviceID me peer (heard ++ [p]) d' c' ∧ packets c <+: packets c' := by
  cases hp with
  | announce tag channels stack ht =>
    have hack := handleConnectAck_value (d := d) env app s channels stack hpeer tail
    have hheard := h.hear hname (p := .send swiftRobotPacketProtocol _ tag _)
      (e := ⟨peer, env.now, announced channels⟩)
      (by rw [note_announce tag channels stack hpeer ht]; rfl)
    rcases ht with rfl | rfl
    · simp only [multiplexIncomingPacket, Call.type, Call.payload, PacketType.ofCode?_code,
        handleConnect, bind_value, hack, Option.bind_some, ofOption_value,
        Option.bind_eq_some_iff, pure_value, Option.some.injEq, Prod.mk.injEq] at hrun
      obtain ⟨d₂, hsend, rfl, -⟩ := hrun
      exact sendConnectAck_keeps env hid hme hsend _ c hheard
    · simp only [multiplexIncomingPacket, Call.type, Call.payload, PacketType.ofCode?_code, hack,
        Option.some.injEq, Prod.mk.injEq] at hrun
      obtain ⟨rfl, -⟩ := hrun
      exact ⟨c, hheard, List.prefix_rfl⟩
  | request tag channel =>
    have hread := word_value_middle uint16 [] tail channel 0 rfl
    rw [List.nil_append] at hread
    simp only [multiplexIncomingPacket, Call.type, Call.payload, PacketType.ofCode?_code,
      handleSubscribeRequest, bind_value, hread, Option.bind_some, pure_value, Option.some.injEq,
      Prod.mk.injEq] at hrun
    obtain ⟨rfl, -⟩ := hrun
    exact ⟨c, h.hear hname (by rw [note_request]; rfl), List.prefix_rfl⟩
  | message tag data1 data2 =>
    simp only [multiplexIncomingPacket, Call.type, Call.payload, PacketType.ofCode?_code,
      handleMessage, bind_value, Option.bind_eq_some_iff, pure_value, Option.some.injEq,
      Prod.mk.injEq] at hrun
    obtain ⟨channel, -, s₂, -, rfl, -⟩ := hrun
    exact ⟨c, h.hear hname (by rw [note_message]; rfl), List.prefix_rfl⟩
  | keepAlive tag ht =>
    have hheard := h.hear hname (p := .send swiftRobotPacketProtocol _ tag _)
      (e := { d.client peer with lastKeepAliveResponse := env.now })
      (by rw [note_keepAlive tag ht]; rfl)
    rcases ht with rfl | rfl
    · simp only [multiplexIncomingPacket, Call.type, Call.payload, PacketType.ofCode?_code,
        handleKeepAliveRequest, bind_value, ofOption_value, Option.bind_eq_some_iff, pure_value,
        Option.some.injEq, Prod.mk.injEq] at hrun
      obtain ⟨d₂, hsend, rfl, -⟩ := hrun
      exact sendKeepAliveResponse_keeps hid hsend _ c hheard
    · simp only [multiplexIncomingPacket, Call.type, Call.payload, PacketType.ofCode?_code,
        handleKeepAliveResponse, pure_value, Option.some.injEq, Prod.mk.injEq] at hrun
      obtain ⟨rfl, -⟩ := hrun
      exact ⟨c, hheard, List.prefix_rfl⟩

theorem End.receive (hid : 0 ≤ deviceID) (hme : 0 ∉ me) (hpeer : 0 ∉ peer)
    (h : End deviceID me peer heard d c) {p : Call} (hp : Spoken peer p)
    (hfirst : heard = [] → (note p).IsSnapshot) {tail : Bytes} {s' : σ}
    (hrun : receive lib app env deviceID p tail d s = some (d', s')) :
    ∃ c', End deviceID me peer (heard ++ [p]) d' c' ∧ packets c <+: packets c' := by
  obtain ⟨d₁, hend, hrecv⟩ := h.receive_eq env lib app s hp hpeer hfirst tail
  rw [hrecv] at hrun
  exact hend.multiplex env app s hid hme hpeer rfl hp hrun

end

end

end

end SwiftRobot.PeerEnd
