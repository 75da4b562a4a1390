import SwiftRobot.Support.Runs
import SwiftRobot.USBHub

/-!
# Routing by client id

A detached device keeps its entry and its name. So the first connection of a name,
in the order of the device ids, is where a packet for that name goes, whether it is
still alive or not.
-/

namespace SwiftRobot.HubRouting
open ByteWords Reading PacketHeaders Plist Connection USBHub

inductive Event
  -- a message of usbmuxd on the broadcast socket, once parsed
  | broadcast (plist_message : Dictionary)
  -- a message of usbmuxd on a connection's socket, once parsed
  | plist (deviceID : ℤ) (plist_message : Dictionary)
  -- a frame of the peer, with what lies behind its payload in memory
  | frame (deviceID : ℤ) (type : UInt32) (payload tail : Bytes)
  | disconnect (clientid : Bytes)
  | sendPacket (type : PacketType) (clientID data : Bytes)
  | send2Packet (type : PacketType) (clientID data1 data2 : Bytes)
  | sendPacketToDevice (type : PacketType) (deviceID : ℤ) (data : Bytes)
  | sendPacketToAll (type : PacketType) (data : Bytes)

def Event.attaches? : Event → Option ℤ
  | .broadcast plist_message =>
    if plist_message.string? "MessageType" = some (text "Attached") then
      (parsePropertiesPlistDict plist_message).map fun device => deviceKey device.device_id
    else none
  | _ => none

/-- Device ids are fresh: no device is attached under an id that was used before. -/
def Event.Fresh (h : USBHub) (e : Event) : Prop := ∀ i ∈ e.attaches?, h.devices.find? i = none

instance (h : USBHub) (e : Event) : Decidable (e.Fresh h) := by
  unfold Event.Fresh
  infer_instance

section
variable (lib : Library)

def swiftRobotHeader (type : UInt32) (payload : Bytes) : SocketClient.PacketHeader :=
  ⟨UInt32.ofNat (16 + payload.length), swiftRobotPacketProtocol, type, 0⟩

def Event.apply (h : USBHub) : Event → Option USBHub
  | .broadcast plist_message => (h.broadcastReceived lib 0 plist_message).map Prod.fst
  | .plist deviceID plist_message => do
    let c ← h.devices.find? deviceID
    let r ← c.plistReceived plist_message
    return h.setDevice deviceID r.1
  | .frame deviceID type payload tail =>
    (h.messageReceived lib 0 deviceID (swiftRobotHeader type payload) payload.length
      (payload ++ tail)).value.map Prod.fst
  | .disconnect clientid => (h.disconnect 0 clientid).map Prod.fst
  | .sendPacket type clientID data => h.sendPacket type clientID data
  | .send2Packet type clientID data1 data2 => h.send2Packet type clientID data1 data2
  | .sendPacketToDevice type deviceID data => h.sendPacketToDevice type deviceID data
  | .sendPacketToAll type data => some (h.sendPacketToAll type data)

def advance (h : USBHub) (e : Event) : Option USBHub := if e.Fresh h then e.apply lib h else none

def step (h : USBHub) (e : Event) (h' : USBHub) : Prop := advance lib h e = some h'

theorem apply_of_step {lib : Library} {h h' : USBHub} {e : Event} (hs : step lib h e h') :
    e.apply lib h = some h' := by
  unfold step advance at hs
  split_ifs at hs
  exact hs

end

def Named (h : USBHub) (n : Bytes) (i : ℤ) (c : Connection) : Prop :=
  h.devices.find? i = some c ∧ c.name = n

def Live (h : USBHub) (n : Bytes) : Prop := ∃ i c, Named h n i c ∧ c.status = .connected

/-- The packet went to the socket of a CONNECTED connection of that name. -/
def HandedTo (h : USBHub) (n : Bytes) (call : UInt32 → Call) (h' : USBHub) : Prop :=
  ∃ i c c', Named h n i c ∧ c.status = .connected ∧ h'.devices.find? i = some c' ∧
    c'.client.calls = c.client.calls ++ [call c.tag]

def Routes (h : USBHub) (n : Bytes) : Prop := ∀ type data1 data2,
  (∃ h', h.sendPacket type n data1 = some h' ∧
    HandedTo h n (fun tag => .send swiftRobotPacketProtocol type.code tag data1) h') ∧
  (∃ h', h.send2Packet type n data1 data2 = some h' ∧
    HandedTo h n (fun tag => .send2 swiftRobotPacketProtocol type.code tag data1 data2) h')

/-- No dead connection of that name comes before the live one in the order of the
device ids, and its id is not negative. -/
def FirstIsLive (h : USBHub) (n : Bytes) : Prop :=
  ∃ i c, Named h n i c ∧ c.status = .connected ∧ 0 ≤ i ∧ ∀ j d, Named h n j d → i ≤ j

section
variable {h : USBHub} {n : Bytes}

theorem getDeviceIDForClientID_eq {i : ℤ} {c : Connection} (hc : Named h n i c)
    (hleast : ∀ j d, Named h n j d → i ≤ j) : h.getDeviceIDForClientID n = i := by
  have hfirst : h.devices.first (fun e => e.2.name == n) = some (i, c) := by
    rw [OrderedMap.first_eq_some_iff]
    exact ⟨hc.1, by simpa using hc.2, fun j d hj hd => hleast j d ⟨hj, by simpa using hd⟩⟩
  simp [getDeviceIDForClientID, hfirst]

theorem exists_least (hlive : ∃ i c, Named h n i c) :
    ∃ i c, Named h n i c ∧ ∀ j d, Named h n j d → i ≤ j := by
  obtain ⟨i, c, hi, hn⟩ := hlive
  cases hf : h.devices.first (fun e => e.2.name == n) with
  | none =>
    rw [OrderedMap.first_eq_none_iff] at hf
    simpa [hn] using hf i c hi
  | some e =>
    obtain ⟨hfind, hname, hleast⟩ := (OrderedMap.first_eq_some_iff _ _ e.1 e.2).mp hf
    exact ⟨e.1, e.2, ⟨hfind, by simpa using hname⟩,
      fun j d hd => hleast j d hd.1 (by simpa using hd.2)⟩

def onClient (h : USBHub) (n : Bytes) (target : Target) (p : Packet)
    (f : Connection → Connection) : Option USBHub :=
  if 0 ≤ h.getDeviceIDForClientID n then
    (h.hand target p).onDevice (h.getDeviceIDForClientID n) f
  else some (h.hand target p)

theorem onClient_handedTo_iff (target : Target) (p : Packet) (f : Connection → Connection)
    (call : UInt32 → Call)
    (hsend : ∀ c, c.status = .connected → (f c).client.calls = c.client.calls ++ [call c.tag])
    (hlive : Live h n) :
    (∃ h', onClient h n target p f = some h' ∧ HandedTo h n call h') ↔ FirstIsLive h n := by
  obtain ⟨i₀, c₀, hn₀, hs₀⟩ := hlive
  obtain ⟨i, c, hc, hleast⟩ := exists_least ⟨i₀, c₀, hn₀⟩
  have hid := getDeviceIDForClientID_eq hc hleast
  have hput : (h.hand target p).onDevice i f = some ((h.hand target p).setDevice i (f c)) := by
    simp [onDevice, hand, hc.1]
  constructor
  · rintro ⟨h', hrun, j, d, d', hd, hstatus, hd', hcalls⟩
    -- a connection whose log grew is the one that was written to, and it was connected
    have hgrew : d' ≠ d := by
      rintro rfl
      simp at hcalls
    unfold onClient at hrun
    rw [hid] at hrun
    split_ifs at hrun with hpos
    · rw [hput, Option.some.injEq] at hrun
      subst hrun
      simp only [setDevice, hand, OrderedMap.find?_insert] at hd'
      split_ifs at hd' with hij
      · subst hij
        exact ⟨j, d, hd, hstatus, hpos, hleast⟩
      · exact absurd (Option.some.inj (hd.1.symm.trans hd')).symm hgrew
    · rw [Option.some.injEq] at hrun
      subst hrun
      exact absurd (Option.some.inj (hd.1.symm.trans hd')).symm hgrew
  · rintro ⟨j, d, hd, hstatus, hpos, hfirst⟩
    have hij : i = j := le_antisymm (hleast j d hd) (hfirst i c hc)
    subst hij
    have hcd : c = d := Option.some.inj (hc.1.symm.trans hd.1)
    subst hcd
    refine ⟨(h.hand target p).setDevice i (f c), ?_, i, c, f c, hc, hstatus, ?_, hsend c hstatus⟩
    · rw [onClient, hid, if_pos hpos, hput]
    · simp [setDevice]

theorem routes_iff (hlive : Live h n) : Routes h n ↔ FirstIsLive h n := by
  have hsend (type : PacketType) (data : Bytes) := onClient_handedTo_iff (.client n)
    ⟨type, [data]⟩ (·.send type data)
    (fun tag => .send swiftRobotPacketProtocol type.code tag data)
    (fun c hc => by simp [Connection.send, hc, Client.call]) hlive
  have hsend2 (type : PacketType) (data1 data2 : Bytes) := onClient_handedTo_iff (.client n)
    ⟨type, [data1, data2]⟩ (·.send2 type data1 data2)
    (fun tag => .send2 swiftRobotPacketProtocol type.code tag data1 data2)
    (fun c hc => by simp [Connection.send2, hc, Client.call]) hlive
  constructor
  · intro hr
    exact (hsend .message []).mp (hr .message [] []).1
  · intro hf type data1 data2
    exact ⟨(hsend type data1).mpr hf, (hsend2 type data1 data2).mpr hf⟩

end

/-- Along every run: packets for live names reach live connections in every state it
visits exactly when in every such state the first connection of each live name lives. -/
theorem hub_routes_iff (lib : Library) (port : UInt16) (es : List Event) :
    (∀ h, Run.Visits (step lib) (initial port) es h → ∀ n, Live h n → Routes h n) ↔
      ∀ h, Run.Visits (step lib) (initial port) es h → ∀ n, Live h n → FirstIsLive h n := by
  constructor
  · intro hroutes h hv n hlive
    exact (routes_iff hlive).mp (hroutes h hv n hlive)
  · intro hfirst h hv n hlive
    exact (routes_iff hlive).mpr (hfirst h hv n hlive)

section
open ConnectionStatus

def attached (deviceID : Int64) : Dictionary :=
  [(text "MessageType", .string (text "Attached")),
    (text "Properties", .dictionary
      [(text "DeviceID", .int64 deviceID), (text "LocationID", .int64 1),
        (text "ProductID", .int64 4776), (text "ConnectionSpeed", .int64 480000000),
        (text "ConnectionType", .string (text "USB")),
        (text "SerialNumber", .string (text "00008030"))])]

def detached (deviceID : Int64) : Dictionary :=
  [(text "MessageType", .string (text "Detached")), (text "DeviceID", .int64 deviceID)]

def resultOK : Dictionary := [(text "MessageType", .string (text "Result")), (text "Number", .int64 0)]

def reattached : List Event :=
  let up (deviceID : Int64) : List Event :=
    [.broadcast (attached deviceID), .plist deviceID.toInt resultOK,
      .frame deviceID.toInt PacketType.connectAck.code (text "A" ++ [0, 0, 0]) []]
  up 1 ++ [.broadcast (detached 1)] ++ up 2

/-- Packets for the phone that was plugged in again go to its dead first connection. -/
theorem reattached_phone_unreachable : ¬ ∀ (lib : Library) (port : UInt16) (es : List Event)
    (h : USBHub), Run (step lib) (initial port) es h → ∀ n, Live h n → Routes h n := by
  intro hall
  let lib : Library :=
    ⟨fun _ => .error .thrown, fun _ _ _ => .error .thrown, fun _ => [], fun _ => true⟩
  have hend : ∃ h ∈ reattached.foldlM (advance lib) (initial 5000),
      h.getDeviceIDForClientID (text "A") = 1 ∧
        (h.devices.find? 1).map (·.status) = some idle ∧
        (h.devices.find? 2).map (fun c => (c.name, c.status)) = some (text "A", connected) := by
    decide +kernel
  obtain ⟨h, hrun, hid, hdead, hlive⟩ := hend
  obtain ⟨c, hc, hcs⟩ := Option.map_eq_some_iff.mp hlive
  have hA : Live h (text "A") := ⟨2, c, ⟨hc, congrArg Prod.fst hcs⟩, congrArg Prod.snd hcs⟩
  have hroutes := hall lib 5000 reattached h (Run.iff_foldlM.mpr hrun) (text "A") hA
  obtain ⟨i, d, hd, hstatus, -, hleast⟩ := (routes_iff hA).mp hroutes
  have hi : i = 1 := (getDeviceIDForClientID_eq hd hleast).symm.trans hid
  subst hi
  simp [hd.1, hstatus] at hdead

end

def nameOf (h : USBHub) (i : ℤ) : Option Bytes := (h.devices.find? i).map Connection.name

theorem nameOf_insert (h : USBHub) (i j : ℤ) (c : Connection) (hj : j ≠ i) :
    nameOf (h.setDevice i c) j = nameOf h j := by
  simp only [nameOf, setDevice, OrderedMap.find?_insert_of_ne _ _ hj]

theorem nameOf_onDevice {h h' : USBHub} {i : ℤ} {f : Connection → Connection}
    (hf : ∀ c, (f c).name = c.name) (hrun : h.onDevice i f = some h') (j : ℤ) :
    nameOf h' j = nameOf h j := by
  obtain ⟨c, hc, rfl⟩ := Option.map_eq_some_iff.mp hrun
  by_cases hj : j = i
  · subst hj
    simp [nameOf, setDevice, hc, hf]
  · exact nameOf_insert h i j _ hj

theorem nameOf_onClient {h h' : USBHub} {n : Bytes} {target : Target} {p : Packet}
    {f : Connection → Connection} (hf : ∀ c, (f c).name = c.name)
    (hrun : onClient h n target p f = some h') (j : ℤ) : nameOf h' j = nameOf h j := by
  unfold onClient at hrun
  split_ifs at hrun
  · exact nameOf_onDevice (h := h.hand target p) hf hrun j
  · rw [← Option.some.inj hrun]
    rfl

theorem step_nameOf {lib : Library} {h h' : USBHub} {e : Event} (hs : step lib h e h') :
    ∃ i, ∀ j, j ≠ i → nameOf h' j = nameOf h j := by
  have hrun := apply_of_step hs
  cases e with
  | broadcast plist_message =>
    obtain ⟨r, hr, rfl⟩ := Option.map_eq_some_iff.mp hrun
    rcases broadcastReceived_devices hr with h0 | ⟨i, c, h0⟩
    · exact ⟨0, fun j _ => by rw [h0]⟩
    · exact ⟨i, fun j hj => by rw [h0, nameOf_insert h i j c hj]⟩
  | plist deviceID plist_message =>
    simp only [Event.apply, Option.bind_eq_bind, Option.bind_eq_some_iff] at hrun
    obtain ⟨c, -, r, -, hrun⟩ := hrun
    rw [← Option.some.inj hrun]
    exact ⟨deviceID, fun j hj => nameOf_insert h deviceID j _ hj⟩
  | frame deviceID type payload tail =>
    simp only [Event.apply, USBHub.messageReceived, bind_value, ofOption_value,
      pure_value, Option.map_eq_some_iff, Option.bind_eq_some_iff] at hrun
    obtain ⟨r, ⟨c, -, q, -, hr⟩, rfl⟩ := hrun
    rw [← Option.some.inj hr]
    exact ⟨deviceID, fun j hj => nameOf_insert h deviceID j _ hj⟩
  | disconnect clientid =>
    obtain ⟨r, hr, rfl⟩ := Option.map_eq_some_iff.mp hrun
    refine ⟨h.getDeviceIDForClientID clientid, fun j hj => ?_⟩
    simp only [USBHub.disconnect] at hr
    split_ifs at hr
    · obtain ⟨c, -, rfl⟩ := Option.map_eq_some_iff.mp hr
      exact nameOf_insert h _ j _ hj
    · rw [← Option.some.inj hr]
  | sendPacket type clientID data =>
    exact ⟨0, fun j _ => nameOf_onClient (f := (·.send type data)) (by simp) hrun j⟩
  | send2Packet type clientID data1 data2 =>
    exact ⟨0, fun j _ => nameOf_onClient (f := (·.send2 type data1 data2)) (by simp) hrun j⟩
  | sendPacketToDevice type deviceID data =>
    exact ⟨0, fun j _ => nameOf_onDevice (h := h.hand _ _) (f := (·.send type data))
      (by simp) hrun j⟩
  | sendPacketToAll type data =>
    refine ⟨0, fun j _ => ?_⟩
    rw [← Option.some.inj hrun]
    simp [nameOf, USBHub.sendPacketToAll, hand, Option.map_map, Function.comp_def]

structure Apart (h : USBHub) : Prop where
  names : ∀ i j n, nameOf h i = some n → nameOf h j = some n → i = j
  ids : ∀ i n, nameOf h i = some n → 0 ≤ i

/-- A connection that is given a name, on being attached or by a frame, is given one
that no other connection carries, under an id that is not negative. -/
def NamesApart (h h' : USBHub) : Prop :=
  ∀ i n, nameOf h' i = some n → nameOf h i ≠ some n → 0 ≤ i ∧ ∀ j, j ≠ i → nameOf h j ≠ some n

theorem Apart.step {lib : Library} {h h' : USBHub} {e : Event} (ha : Apart h)
    (hs : step lib h e h') (hn : NamesApart h h') : Apart h' := by
  obtain ⟨i, hsame⟩ := step_nameOf hs
  -- whoever carries a name now either had it before or got it in this step
  have hone : ∀ j k n, j ≠ i → nameOf h' j = some n → nameOf h' k = some n → j = k := by
    intro j k n hj hjn hkn
    rw [hsame j hj] at hjn
    by_cases hk : nameOf h k = some n
    · exact ha.names j k n hjn hk
    · by_contra hjk
      exact (hn k n hkn hk).2 j hjk hjn
  constructor
  · intro j k n hjn hkn
    by_cases hj : j = i
    · by_cases hk : k = i
      · rw [hj, hk]
      · exact (hone k j n hk hkn hjn).symm
    · exact hone j k n hj hjn hkn
  · intro j n hjn
    by_cases hj : nameOf h j = some n
    · exact ha.ids j n hj
    · exact (hn j n hjn hj).1

theorem Apart.firstIsLive {h : USBHub} (ha : Apart h) {n : Bytes} (hlive : Live h n) :
    FirstIsLive h n := by
  obtain ⟨i, c, hc, hs⟩ := hlive
  have hi : nameOf h i = some n := by simp [nameOf, hc.1, hc.2]
  refine ⟨i, c, hc, hs, ha.ids i n hi, fun j d hd => ?_⟩
  have hj : nameOf h j = some n := by simp [nameOf, hd.1, hd.2]
  exact (ha.names i j n hi hj).le

theorem routes_of_namesApart (lib : Library) (port : UInt16) {es : List Event} {h : USBHub}
    (run : Run (fun h e h' => step lib h e h' ∧ NamesApart h h') (initial port) es h) :
    ∀ n, Live h n → Routes h n := by
  have hinit : Apart (initial port) :=
    ⟨fun i j n hi => by simp [nameOf, initial] at hi, fun i n hi => by simp [nameOf, initial] at hi⟩
  have ha : Apart h := run.invariant (I := Apart) (fun t e u ht hs => ht.step hs.1 hs.2) hinit
  exact fun n hlive => (routes_iff hlive).mpr (ha.firstIsLive hlive)

end SwiftRobot.HubRouting
