import SwiftRobot.Connection
import SwiftRobot.Messages

/-!
# The USB hub

`usbhub.h`: connections are kept under the device id of usbmuxd and addressed by the
client name they carry. The status callback of a connection captures its device
info by reference to a stack frame that is gone when the callback runs: the device id
it reports is an argument here, `captured`, and any value.
-/

namespace SwiftRobot.USBHub
open ByteWords Reading PacketHeaders Plist Connection

structure Packet where
  type : PacketType
  parts : List Bytes
  deriving DecidableEq, Repr

inductive Target
  | client (clientID : Bytes)
  | device (deviceID : ℤ)
  | all
  deriving DecidableEq, Repr

inductive Upcall
  | deviceStatus (deviceID : ℤ) (status : Messages.Status)
  | packetReceived (clientID : Bytes) (type : UInt32) (size : ℕ)
  deriving DecidableEq, Repr

end USBHub

/-- `handed` is a record of the packets handed over so far, and no field of the source. -/
structure USBHub where
  devices : OrderedMap ℤ Connection
  broadcastClient : Connection.Client
  port : UInt16
  receivedPacketCallback : Bool
  deviceStatusCallback : Bool
  handed : List (USBHub.Target × USBHub.Packet)

namespace USBHub
open ByteWords Reading PacketHeaders Plist Connection

def initial (port : UInt16) : USBHub := ⟨.empty, Client.initial, port, true, true, []⟩

def deviceKey (device_id : UInt32) : ℤ := device_id.toInt32.toInt

def setDevice (h : USBHub) (deviceID : ℤ) (c : Connection) : USBHub :=
  { h with devices := h.devices.insert deviceID c }

def hand (h : USBHub) (target : Target) (p : Packet) : USBHub :=
  { h with handed := h.handed ++ [(target, p)] }

/-- A missing key gets a null pointer, which is dereferenced. -/
def onDevice (h : USBHub) (deviceID : ℤ) (f : Connection → Connection) : Option USBHub :=
  (h.devices.find? deviceID).map fun c => h.setDevice deviceID (f c)

def getDeviceIDForClientID (h : USBHub) (clientid : Bytes) : ℤ :=
  match h.devices.first fun e => e.2.name == clientid with
  | some (deviceID, _) => deviceID
  | none => -1

def sendPacketToDevice (type : PacketType) (deviceID : ℤ) (data : Bytes) (h : USBHub) :
    Option USBHub :=
  (h.hand (.device deviceID) ⟨type, [data]⟩).onDevice deviceID (·.send type data)

def sendPacket (type : PacketType) (clientID : Bytes) (data : Bytes) (h : USBHub) :
    Option USBHub :=
  let deviceID := h.getDeviceIDForClientID clientID
  let h := h.hand (.client clientID) ⟨type, [data]⟩
  if 0 ≤ deviceID then h.onDevice deviceID (·.send type data) else some h

def sendPacketToAll (type : PacketType) (data : Bytes) (h : USBHub) : USBHub :=
  { h.hand .all ⟨type, [data]⟩ with devices := h.devices.mapValues (·.send type data) }

def send2Packet (type : PacketType) (clientID : Bytes) (data1 data2 : Bytes) (h : USBHub) :
    Option USBHub :=
  let deviceID := h.getDeviceIDForClientID clientID
  let h := h.hand (.client clientID) ⟨type, [data1, data2]⟩
  if 0 ≤ deviceID then h.onDevice deviceID (·.send2 type data1 data2) else some h

def raise (captured : ℤ) (h : USBHub) : Connection.Upcall → List Upcall
  | .silent => []
  | .connectionStatus _ connected =>
    if h.deviceStatusCallback then
      [.deviceStatus captured (if connected then .connected else .disconnected)]
    else []
  | .packetReceived name type size => [.packetReceived name type size]

/-- The callbacks are installed after the connection was started. -/
def createDevice (lib : Library) (device : UsbDeviceInfo) (h : USBHub) : USBHub × List Upcall :=
  let new_device := ((ofDevice device h.port).startConnection lib false).1
  let deviceID := deviceKey device.device_id
  (h.setDevice deviceID
    { new_device with
      packetReceivedCallback := h.receivedPacketCallback
      connectionStatusCallback := true },
    if h.deviceStatusCallback then [.deviceStatus deviceID .attached] else [])

def disconnect (captured : ℤ) (clientid : Bytes) (h : USBHub) : Option (USBHub × List Upcall) :=
  let deviceID := h.getDeviceIDForClientID clientid
  if 0 ≤ deviceID then
    (h.devices.find? deviceID).map fun c =>
      (h.setDevice deviceID c.disconnect.1, h.raise captured c.disconnect.2)
  else some (h, [])

/-- The connection stays in the map and keeps its name. -/
def removeDevice (captured deviceID : ℤ) (h : USBHub) : Option (USBHub × List Upcall) :=
  (h.devices.find? deviceID).map fun c =>
    (h.setDevice deviceID c.disconnect.1, h.raise captured c.disconnect.2 ++
      if h.deviceStatusCallback then [.deviceStatus deviceID .detached] else [])

/-- The listening thread of an earlier call is joined: as long as it runs there is no result. -/
def startLookingForConnections (lib : Library) (h : USBHub) : Option USBHub :=
  if h.broadcastClient.listening then none
  else some { h with
    broadcastClient := h.broadcastClient.open'.startListening.call
      (.sendPlist 0 (createUSBMuxPacket lib (text "Listen") [])) }

def close (captured : ℤ) (h : USBHub) : USBHub × List Upcall :=
  ({ h with
      devices := h.devices.mapValues fun c => c.disconnect.1
      broadcastClient := h.broadcastClient.close },
    h.devices.entries.flatMap fun e => h.raise captured e.2.disconnect.2)

def parsePropertiesPlistDict (plist : Dictionary) : Option UsbDeviceInfo := do
  let dict ← plist.dictionary? "Properties"
  let device_id ← dict.integer? "DeviceID"
  let location_id ← dict.integer? "LocationID"
  let product_id ← dict.integer? "ProductID"
  let connection_speed ← dict.integer? "ConnectionSpeed"
  let connection_type ← dict.string? "ConnectionType"
  let serial_number ← dict.string? "SerialNumber"
  return ⟨device_id.toUInt64.toUInt32, location_id.toUInt64.toUInt32,
    product_id.toUInt64.toUInt32, connection_speed.toUInt64, connection_type, serial_number⟩

/-- A broadcast message, once parsed. The handler of a Result looks at its code and does
nothing with any. -/
def broadcastReceived (lib : Library) (captured : ℤ) (plist_message : Dictionary) (h : USBHub) :
    Option (USBHub × List Upcall) := do
  let type ← plist_message.string? "MessageType"
  if type = text "Result" then
    let _ ← plist_message.integer? "Number"
    return (h, [])
  else if type = text "Attached" then
    let deviceInfo ← parsePropertiesPlistDict plist_message
    return h.createDevice lib deviceInfo
  else if type = text "Detached" then
    let device_id ← plist_message.integer? "DeviceID"
    h.removeDevice captured device_id.toInt32.toInt
  else return (h, [])

def broadcastHandler (lib : Library) (captured : ℤ) (header : SocketClient.PacketHeader)
    (size : ℕ) (h : USBHub) : Reading (USBHub × List Upcall) :=
  if header.protocol = usbMuxPacketProtocolPlist then do
    match ← readPlist lib size with
    | none => return (h, [])
    | some plist_message => ofOption (h.broadcastReceived lib captured plist_message)
  else return (h, [])

def messageReceived (lib : Library) (captured deviceID : ℤ) (header : SocketClient.PacketHeader)
    (size : ℕ) (h : USBHub) : Reading (USBHub × List Upcall) := do
  let c ← ofOption (h.devices.find? deviceID)
  let r ← c.messageReceived lib header size
  return (h.setDevice deviceID r.1, h.raise captured r.2)

section
variable {lib : Library} {captured : ℤ} {plist_message : Dictionary} {h : USBHub}
  {r : USBHub × List Upcall}

inductive Broadcast (lib : Library) (captured : ℤ) (plist_message : Dictionary) (h : USBHub) :
    USBHub × List Upcall → Prop
  | result : plist_message.string? "MessageType" = some (text "Result") →
    (plist_message.integer? "Number").isSome → Broadcast lib captured plist_message h (h, [])
  | attached {device : UsbDeviceInfo} :
    plist_message.string? "MessageType" = some (text "Attached") →
    parsePropertiesPlistDict plist_message = some device →
    Broadcast lib captured plist_message h (h.createDevice lib device)
  | detached {device_id : Int64} {c : Connection} :
    plist_message.string? "MessageType" = some (text "Detached") →
    plist_message.integer? "DeviceID" = some device_id →
    h.devices.find? device_id.toInt32.toInt = some c →
    Broadcast lib captured plist_message h
      (h.setDevice device_id.toInt32.toInt c.disconnect.1, h.raise captured c.disconnect.2 ++
        if h.deviceStatusCallback then [.deviceStatus device_id.toInt32.toInt .detached] else [])
  | other {type : Bytes} : plist_message.string? "MessageType" = some type →
    type ≠ text "Result" → type ≠ text "Attached" → type ≠ text "Detached" →
    Broadcast lib captured plist_message h (h, [])

theorem Broadcast.of_received (hr : h.broadcastReceived lib captured plist_message = some r) :
    Broadcast lib captured plist_message h r := by
  obtain ⟨type, htype, hr⟩ := Option.bind_eq_some_iff.mp hr
  split_ifs at hr with hresult hattached hdetached
  · obtain ⟨number, hnumber, hr⟩ := Option.bind_eq_some_iff.mp hr
    rw [← Option.some.inj hr]
    exact .result (hresult ▸ htype) (by rw [hnumber]; rfl)
  · obtain ⟨device, hdevice, hr⟩ := Option.bind_eq_some_iff.mp hr
    rw [← Option.some.inj hr]
    exact .attached (hattached ▸ htype) hdevice
  · obtain ⟨device_id, hid, hr⟩ := Option.bind_eq_some_iff.mp hr
    obtain ⟨c, hc, rfl⟩ := Option.map_eq_some_iff.mp hr
    exact .detached (hdetached ▸ htype) hid hc
  · rw [← Option.some.inj hr]
    exact .other htype hresult hattached hdetached

theorem broadcastReceived_devices (hr : h.broadcastReceived lib captured plist_message = some r) :
    r.1 = h ∨ ∃ i c, r.1 = h.setDevice i c := by
  cases Broadcast.of_received hr with
  | result _ _ => exact Or.inl rfl
  | attached _ _ => exact Or.inr ⟨_, _, rfl⟩
  | detached _ _ _ => exact Or.inr ⟨_, _, rfl⟩
  | other _ _ _ _ => exact Or.inl rfl

end
end USBHub
end SwiftRobot
