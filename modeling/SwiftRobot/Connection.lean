import SwiftRobot.PacketHeaders
import SwiftRobot.Plist
import SwiftRobot.SocketClient
import SwiftRobot.Support.OrderedMap

/-!
# One connection to a device

`connection.h`: a connection goes from idle through usbmuxd's tunnel request to
connected, takes its name from the peer's Connect or ConnectAck, and sends only
while connected. What its two callbacks are called with is returned as an `Upcall`.
-/

namespace SwiftRobot.Connection
open ByteWords Reading PacketHeaders Plist

structure UsbDeviceInfo where
  device_id : UInt32
  location_id : UInt32
  product_id : UInt32
  connection_speed : UInt64
  connection_type : Bytes
  serial_number : Bytes
  deriving DecidableEq, Repr

inductive ConnectionStatus
  | idle
  | wantingConnection
  | connecting
  | connected
  deriving DecidableEq, Repr

inductive Call
  | send (protocol type tag : UInt32) (data : Bytes)
  | send2 (protocol type tag : UInt32) (data1 data2 : Bytes)
  | sendPlist (tag : UInt32) (plist : Bytes)
  deriving DecidableEq, Repr

def Call.buffers (stale : UInt32) : Call → List Bytes
  | .send protocol type tag data => SocketClient.send stale protocol type tag data
  | .send2 protocol type tag data1 data2 => SocketClient.send2 stale protocol type tag data1 data2
  | .sendPlist tag plist => SocketClient.sendPlist stale tag plist

def Call.protocol : Call → UInt32
  | .send protocol _ _ _ => protocol
  | .send2 protocol _ _ _ _ => protocol
  | .sendPlist _ _ => SocketClient.usbMuxPacketProtocolPlist

def Call.type : Call → UInt32
  | .send _ type _ _ => type
  | .send2 _ type _ _ _ => type
  | .sendPlist _ _ => SocketClient.usbMuxPacketTypePlistPayload

def Call.payload : Call → Bytes
  | .send _ _ _ data => data
  | .send2 _ _ _ data1 data2 => data1 ++ data2
  | .sendPlist _ plist => plist

/-- The socket client of a connection: whether its socket is open, whether its
listening thread runs, and the calls made on it so far. -/
structure Client where
  opened : Bool
  listening : Bool
  calls : List Call
  deriving DecidableEq, Repr

namespace Client

def initial : Client := ⟨false, false, []⟩
def close (c : Client) : Client := { c with opened := false, listening := false }
def open' (c : Client) : Client := { c with opened := true }
/-- It joins the thread of an earlier call, which runs no more when the client was closed. -/
def startListening (c : Client) : Client := { c with listening := true }
def call (k : Call) (c : Client) : Client := { c with calls := c.calls ++ [k] }

end Client

end Connection

structure Connection where
  usb_info : Connection.UsbDeviceInfo
  ip_address : ByteWords.Bytes
  status : Connection.ConnectionStatus
  port : UInt64
  tag : UInt32
  usbmux : Bool
  name : ByteWords.Bytes
  packetReceivedCallback : Bool
  connectionStatusCallback : Bool
  client : Connection.Client
  deriving DecidableEq, Repr

namespace Connection
open ByteWords Reading PacketHeaders Plist

inductive Upcall
  | silent
  | connectionStatus (name : Bytes) (connected : Bool)
  | packetReceived (name : Bytes) (type : UInt32) (size : ℕ)
  deriving DecidableEq, Repr

def ofDevice (usb_device_info : UsbDeviceInfo) (port : UInt16) : Connection where
  usb_info := usb_device_info
  ip_address := []
  status := .idle
  port := port.toUInt64
  tag := 1
  usbmux := true
  name := []
  packetReceivedCallback := false
  connectionStatusCallback := false
  client := Client.initial

/-- Of the device info only the id is set; `stale` is what else was on the stack. -/
def ofAddress (stale : UsbDeviceInfo) (name ip_address : Bytes) (port : UInt16) : Connection where
  usb_info := { stale with device_id := 0 }
  ip_address := ip_address
  status := .idle
  port := port.toUInt64
  tag := 1
  usbmux := false
  name := name
  packetReceivedCallback := false
  connectionStatusCallback := false
  client := Client.initial

inductive Built : Connection → Prop
  | device (usb_device_info : UsbDeviceInfo) (port : UInt16) : Built (ofDevice usb_device_info port)
  | address (stale : UsbDeviceInfo) (name ip_address : Bytes) (port : UInt16) :
    Built (ofAddress stale name ip_address port)

section
variable (lib : Library)

def createUSBMuxPacket (message_type : Bytes) (additionalPayload : Dictionary) : Bytes :=
  let packet_dict : OrderedMap Bytes Any :=
    ((OrderedMap.empty.insert (text "ProgName") (.string (text "swiftrobotc"))).insert
      (text "ClientVersionString") (.string (text "1.0"))).insert
      (text "MessageType") (.string message_type)
  lib.writePlistXML
    (additionalPayload.foldl (fun dict piece => dict.insert piece.1 piece.2) packet_dict).entries

def connectedRoutine (c : Connection) : Upcall :=
  if c.connectionStatusCallback then .connectionStatus c.name true else .silent

/-- `reachable` is whether `open(ip_address, port)` succeeds. The answer of `sendPlist`
is a `size_t`, so the test whether it is negative never is taken. -/
def connect (reachable : Bool) (c : Connection) : Connection × Upcall :=
  if c.status = .wantingConnection then
    let c := { c with client := c.client.close }
    if c.usbmux then
      let port_bigendian := (((c.port <<< 8) &&& (0xFF00 : UInt64)) ||| (c.port >>> 8)).toUInt16
      let packet := createUSBMuxPacket lib (text "Connect")
        [(text "DeviceID", .int32 c.usb_info.device_id.toInt32),
          (text "PortNumber", .int32 port_bigendian.toUInt32.toInt32)]
      let client := c.client.open'.startListening.call (.sendPlist c.tag packet)
      ({ c with client := client, tag := c.tag + 1, status := .connecting }, .silent)
    else if reachable then
      let c := { c with client := c.client.open'.startListening, status := .connected }
      (c, c.connectedRoutine)
    else ({ c with status := .wantingConnection }, .silent)
  else (c, .silent)

def startConnection (reachable : Bool) (c : Connection) : Connection × Upcall :=
  connect lib reachable { c with status := .wantingConnection }

def disconnect (c : Connection) : Connection × Upcall :=
  if c.status ≠ .idle then
    ({ c with client := c.client.close, status := .idle },
      if c.connectionStatusCallback then .connectionStatus c.name false else .silent)
  else (c, .silent)

def send (type : PacketType) (data : Bytes) (c : Connection) : Connection :=
  if c.status = .connected then
    { c with
      client := c.client.call (.send swiftRobotPacketProtocol type.code c.tag data)
      tag := c.tag + 1 }
  else c

def send2 (type : PacketType) (data1 data2 : Bytes) (c : Connection) : Connection :=
  if c.status = .connected then
    { c with
      client := c.client.call (.send2 swiftRobotPacketProtocol type.code c.tag data1 data2)
      tag := c.tag + 1 }
  else c

def usbMuxReplyCodeOK : Int32 := 0
def usbMuxReplyCodeConnectionRefused : Int32 := 3

def resultReceived (result_code : Int32) (c : Connection) : Connection × Upcall :=
  if result_code = usbMuxReplyCodeOK then
    let c := { c with status := .connected }
    (c, c.connectedRoutine)
  else if result_code = usbMuxReplyCodeConnectionRefused then
    ({ c with status := .wantingConnection }, .silent)
  else (c, .silent)

/-- A message of usbmuxd, once parsed. Without a text under `MessageType`, or without an
integer under the `Number` of a Result, the source has no defined way on. -/
def plistReceived (plist_message : Dictionary) (c : Connection) :
    Option (Connection × Upcall) := do
  let type ← plist_message.string? "MessageType"
  if type = text "Result" then
    let number ← plist_message.integer? "Number"
    return c.resultReceived number.toInt32
  else return (c, .silent)

def packetReceived (type : UInt32) (size : ℕ) (c : Connection) : Connection × Upcall :=
  (c, if c.packetReceivedCallback then .packetReceived c.name type size else .silent)

def messageReceived (header : SocketClient.PacketHeader) (size : ℕ) (c : Connection) :
    Reading (Connection × Upcall) :=
  if header.protocol = usbMuxPacketProtocolPlist then do
    match ← readPlist lib size with
    | none => return (c, .silent)
    | some plist_message => ofOption (c.plistReceived plist_message)
  else if header.protocol = swiftRobotPacketProtocol then
    if header.type = PacketType.connect.code ∨ header.type = PacketType.connectAck.code then do
      let name ← cstring 0
      return { c with name := name }.packetReceived header.type size
    else return c.packetReceived header.type size
  else return (c, .silent)

end

section
variable (c : Connection)

@[simp] theorem send_name (t : PacketType) (d : Bytes) : (c.send t d).name = c.name := by
  unfold send
  split_ifs <;> rfl

@[simp] theorem send_status (t : PacketType) (d : Bytes) : (c.send t d).status = c.status := by
  unfold send
  split_ifs <;> rfl

@[simp] theorem send2_name (t : PacketType) (d e : Bytes) : (c.send2 t d e).name = c.name := by
  unfold send2
  split_ifs <;> rfl

@[simp] theorem send2_status (t : PacketType) (d e : Bytes) :
    (c.send2 t d e).status = c.status := by
  unfold send2
  split_ifs <;> rfl

end

section
variable {c : Connection}

theorem started_usb (lib : Library) (husb : c.usbmux = true) (reachable : Bool) :
    ∃ plist, c.startConnection lib reachable = ({ c with
      client := c.client.close.open'.startListening.call (.sendPlist c.tag plist)
      tag := c.tag + 1
      status := .connecting }, .silent) := by
  simp only [startConnection, connect, husb, if_true]
  exact ⟨_, rfl⟩

theorem started_address (lib : Library) (husb : c.usbmux = false) (reachable : Bool) :
    c.startConnection lib reachable =
      if reachable then
        ({ c with client := c.client.close.open'.startListening, status := .connected },
          c.connectedRoutine)
      else ({ c with client := c.client.close, status := .wantingConnection }, .silent) := by
  simp only [startConnection, connect, husb, Bool.false_eq_true, if_false, if_true]
  rfl

end

section
variable {lib : Library} {c : Connection} {r : Connection × Upcall}

theorem plistReceived_some {plist_message : Dictionary}
    (h : c.plistReceived plist_message = some r) :
    ∃ type, plist_message.string? "MessageType" = some type ∧
      ((type = text "Result" ∧ ∃ number, plist_message.integer? "Number" = some number ∧
          r = c.resultReceived number.toInt32) ∨
        (type ≠ text "Result" ∧ r = (c, .silent))) := by
  obtain ⟨type, htype, h⟩ := Option.bind_eq_some_iff.mp h
  refine ⟨type, htype, ?_⟩
  split_ifs at h with hresult
  · obtain ⟨number, hnumber, h⟩ := Option.bind_eq_some_iff.mp h
    exact Or.inl ⟨hresult, number, hnumber, (Option.some.inj h).symm⟩
  · exact Or.inr ⟨hresult, (Option.some.inj h).symm⟩

inductive Received (lib : Library) (header : SocketClient.PacketHeader) (size : ℕ)
    (memory : Bytes) (c : Connection) : Connection × Upcall → Prop
  | plist {plist_message : Dictionary} {r : Connection × Upcall} :
    header.protocol = usbMuxPacketProtocolPlist →
    (readPlist lib size memory).value = some (some plist_message) →
    c.plistReceived plist_message = some r → Received lib header size memory c r
  | unreadable : header.protocol = usbMuxPacketProtocolPlist →
    (readPlist lib size memory).value = some none → Received lib header size memory c (c, .silent)
  | named {name : Bytes} : header.protocol = swiftRobotPacketProtocol →
    header.type = PacketType.connect.code ∨ header.type = PacketType.connectAck.code →
    (cstring 0 memory).value = some name →
    Received lib header size memory c
      (({ c with name := name } : Connection).packetReceived header.type size)
  | packet : header.protocol = swiftRobotPacketProtocol →
    ¬ (header.type = PacketType.connect.code ∨ header.type = PacketType.connectAck.code) →
    Received lib header size memory c (c.packetReceived header.type size)
  | ignored : header.protocol ≠ usbMuxPacketProtocolPlist →
    header.protocol ≠ swiftRobotPacketProtocol → Received lib header size memory c (c, .silent)

theorem not_plist_of_robot {header : SocketClient.PacketHeader}
    (h : header.protocol = swiftRobotPacketProtocol) :
    header.protocol ≠ usbMuxPacketProtocolPlist := by
  rw [h]
  decide

theorem Received.of_value {header : SocketClient.PacketHeader} {size : ℕ} {memory : Bytes}
    (h : (c.messageReceived lib header size memory).value = some r) :
    Received lib header size memory c r := by
  unfold messageReceived at h
  split_ifs at h with hplist hrobot hname
  · rw [bind_value] at h
    obtain ⟨plist_message, hread, h⟩ := Option.bind_eq_some_iff.mp h
    cases plist_message with
    | none =>
      rw [← Option.some.inj h]
      exact .unreadable hplist hread
    | some plist_message =>
      rw [ofOption_value] at h
      exact .plist hplist hread h
  · rw [bind_value] at h
    obtain ⟨name, hread, h⟩ := Option.bind_eq_some_iff.mp h
    rw [← Option.some.inj h]
    exact .named hrobot hname hread
  · rw [← Option.some.inj h]
    exact .packet hrobot hname
  · rw [← Option.some.inj h]
    exact .ignored hplist hrobot

end
end Connection
end SwiftRobot
