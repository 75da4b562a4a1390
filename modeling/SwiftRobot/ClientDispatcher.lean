import SwiftRobot.USBHub

/-!
# The client dispatcher

`client_dispatcher.h`: it keeps what each connected client has subscribed to, answers
the packets of its clients, and sends messages to those that asked for their channel.
The two callbacks to the application are an `Application`, run on a state of its own.
-/

namespace SwiftRobot.ClientDispatcher
open ByteWords Copying Reading PacketHeaders Plist

structure ExternalClient where
  clientID : Bytes
  lastKeepAliveResponse : ℕ
  subscriptions : List UInt16
  deriving DecidableEq, Repr

/-- What the subscript operator of the map creates for a missing key. -/
def ExternalClient.default : ExternalClient := ⟨[], 0, []⟩

inductive ConnectionType
  | usb
  | wifi
  | localOnly
  deriving DecidableEq, Repr

inductive Task
  | keepAliveCheck
  | keepAliveWait (clientid : Bytes)
  deriving DecidableEq, Repr

/-- What one event of a run takes from outside: the clock in nanoseconds, a random
number, the device id behind the dangling reference of a status callback, and the
stack bytes that the `k`-th packet is built in. -/
structure Env where
  now : ℕ
  random : ℕ
  captured : ℤ
  stack : ℕ → ℕ → UInt8

/-- The callbacks to the client: the channel and the positions of the header and the
data of a message, or the name and status of a client. -/
structure Application (σ : Type) where
  didReceiveMessage : UInt16 → ℕ → ℕ → σ → Reading σ
  didReceiveUpdateMsg : Bytes → Messages.Status → σ → σ

end ClientDispatcher

/-- `scheduled` is what the dispatcher has put into the dispatch queue so far. -/
structure ClientDispatcher where
  keepAliveCheckRunning : Bool
  globalServiceName : ByteWords.Bytes
  port : UInt16
  connection_type : ClientDispatcher.ConnectionType
  usbHubPtr : Option USBHub
  clients : OrderedMap ByteWords.Bytes ClientDispatcher.ExternalClient
  clientChannelSubsciptions : List UInt16
  scheduled : List (ℕ × ClientDispatcher.Task)

namespace ClientDispatcher
open ByteWords Copying Reading PacketHeaders Plist

def initial (globalServiceName : Bytes) (port : UInt16) (connection_type : ConnectionType) :
    ClientDispatcher where
  keepAliveCheckRunning := false
  globalServiceName := globalServiceName
  port := port
  connection_type := connection_type
  usbHubPtr := if connection_type = .usb then some (USBHub.initial port) else none
  clients := .empty
  clientChannelSubsciptions := []
  scheduled := []

def onHub (d : ClientDispatcher) (f : USBHub → Option USBHub) : Option ClientDispatcher :=
  match d.usbHubPtr with
  | none => some d
  | some h => (f h).map fun h => { d with usbHubPtr := some h }

def handed (d : ClientDispatcher) : List (USBHub.Target × USBHub.Packet) :=
  match d.usbHubPtr with
  | none => []
  | some h => h.handed

def client (d : ClientDispatcher) (clientid : Bytes) : ExternalClient :=
  (d.clients.find? clientid).getD .default

def setClient (d : ClientDispatcher) (clientid : Bytes) (c : ExternalClient) : ClientDispatcher :=
  { d with clients := d.clients.insert clientid c }

section
variable (env : Env)

def stackBytes (d : ClientDispatcher) : ℕ → UInt8 := env.stack d.handed.length

def sendMessage (clientid : Bytes) (msg : Messages.Message) (channel : UInt16) (size : UInt32)
    (type : UInt16) (d : ClientDispatcher) : Option ClientDispatcher :=
  let packet := store msg.serialize ((List.range size.toNat).map (d.stackBytes env))
  let header : MessagePacketHeader := ⟨channel, type, size⟩
  d.onHub (·.send2Packet .message clientid header.bytes packet)

def sendSubscribeRequest (channel : UInt16) (d : ClientDispatcher) : ClientDispatcher :=
  let subscribe_request : SubscribeRequestPacketHeader := ⟨channel⟩
  { d with
    usbHubPtr := d.usbHubPtr.map (·.sendPacketToAll .subscribeRequest subscribe_request.bytes) }

def connectPacket (d : ClientDispatcher) : Bytes :=
  (MessageConnectHeader.announcing d.globalServiceName d.clientChannelSubsciptions).packet
    (d.stackBytes env)

def sendConnect (clientid : Bytes) (d : ClientDispatcher) : Option ClientDispatcher :=
  d.onHub (·.sendPacket .connect clientid (d.connectPacket env))

def sendConnectForUnkownUSBDevice (deviceID : ℤ) (d : ClientDispatcher) :
    Option ClientDispatcher :=
  d.onHub (·.sendPacketToDevice .connect deviceID (d.connectPacket env))

def sendConnectAck (clientid : Bytes) (d : ClientDispatcher) : Option ClientDispatcher :=
  d.onHub (·.sendPacket .connectAck clientid (d.connectPacket env))

def sendKeepAliveRequest (clientid : Bytes) (d : ClientDispatcher) : Option ClientDispatcher :=
  d.onHub (·.sendPacket .keepAliveRequest clientid [])

def sendKeepAliveResponse (clientid : Bytes) (d : ClientDispatcher) : Option ClientDispatcher :=
  d.onHub (·.sendPacket .keepAliveResponse clientid [])

def dispatchMessage (channel : UInt16) (msg : Messages.Message) (size : UInt32) (type : UInt16)
    (d : ClientDispatcher) : Option ClientDispatcher :=
  d.clients.entries.foldlM (fun d e =>
    e.2.subscriptions.foldlM (fun d subscription_channel =>
      if subscription_channel = channel then d.sendMessage env e.1 msg channel size type
      else some d) d) d

def subscribeRequest (channel : UInt16) (d : ClientDispatcher) : ClientDispatcher :=
  { d with clientChannelSubsciptions := d.clientChannelSubsciptions ++ [channel]
    }.sendSubscribeRequest channel

def updateKeepAliveTime (clientid : Bytes) (d : ClientDispatcher) : ClientDispatcher :=
  d.setClient clientid { d.client clientid with lastKeepAliveResponse := env.now }

section
variable {σ : Type} (app : Application σ)

def handleMessage (clientid : Bytes) (d : ClientDispatcher) (s : σ) :
    Reading (ClientDispatcher × σ) := do
  let d := d.updateKeepAliveTime env clientid
  let channel ← word uint16 0
  let s ← app.didReceiveMessage channel 0 8 s
  return (d, s)

def handleConnectAck (clientid : Bytes) (d : ClientDispatcher) (s : σ) :
    Reading (ClientDispatcher × σ) := do
  let connect_msg ← MessageConnectHeader.deserialize 0
  let new_client : ExternalClient := ⟨clientid, env.now, connect_msg.channels⟩
  return (d.setClient clientid new_client, app.didReceiveUpdateMsg clientid .connected s)

def handleConnect (clientid : Bytes) (d : ClientDispatcher) (s : σ) :
    Reading (ClientDispatcher × σ) := do
  let r ← d.handleConnectAck env app clientid s
  let d ← ofOption (r.1.sendConnectAck env clientid)
  return (d, r.2)

def handleSubscribeRequest (clientid : Bytes) (d : ClientDispatcher) : Reading ClientDispatcher := do
  let channel ← word uint16 0
  let c := d.client clientid
  return d.setClient clientid { c with subscriptions := c.subscriptions ++ [channel] }

def handleKeepAliveRequest (clientid : Bytes) (d : ClientDispatcher) : Option ClientDispatcher :=
  (d.updateKeepAliveTime env clientid).sendKeepAliveResponse clientid

def handleKeepAliveResponse (clientid : Bytes) (d : ClientDispatcher) : ClientDispatcher :=
  d.updateKeepAliveTime env clientid

/-- The payload starts at position 0. Its length is handed down and never looked at. -/
def multiplexIncomingPacket (clientid : Bytes) (type : UInt32) (_length : ℕ)
    (d : ClientDispatcher) (s : σ) : Reading (ClientDispatcher × σ) :=
  match PacketType.ofCode? type with
  | some .message => d.handleMessage env app clientid s
  | some .subscribeRequest => do
    let d ← d.handleSubscribeRequest clientid
    return (d, s)
  | some .keepAliveRequest => do
    let d ← ofOption (d.handleKeepAliveRequest env clientid)
    return (d, s)
  | some .keepAliveResponse => return (d.handleKeepAliveResponse env clientid, s)
  | some .connect => d.handleConnect env app clientid s
  | some .connectAck => d.handleConnectAck env app clientid s
  | _ => return (d, s)

def callbackUSBDeviceStatusChanged (deviceID : ℤ) (status : Messages.Status)
    (d : ClientDispatcher) (s : σ) : Option (ClientDispatcher × σ) :=
  match status with
  | .attached | .detached => some (d, app.didReceiveUpdateMsg [] status s)
  | .connected => (d.sendConnectForUnkownUSBDevice env deviceID).map fun d => (d, s)
  | .disconnected => some (d, s)

def upcall (r : ClientDispatcher × σ) : USBHub.Upcall → Reading (ClientDispatcher × σ)
  | .deviceStatus deviceID status =>
    ofOption (r.1.callbackUSBDeviceStatusChanged env app deviceID status r.2)
  | .packetReceived clientID type size => r.1.multiplexIncomingPacket env app clientID type size r.2

def hubStep (f : USBHub → Reading (USBHub × List USBHub.Upcall)) (d : ClientDispatcher) (s : σ) :
    Reading (ClientDispatcher × σ) :=
  match d.usbHubPtr with
  | none => return (d, s)
  | some h => do
    let r ← f h
    r.2.foldlM (upcall env app) ({ d with usbHubPtr := some r.1 }, s)

def messageReceived (lib : Library) (deviceID : ℤ) (header : SocketClient.PacketHeader)
    (size : ℕ) (d : ClientDispatcher) (s : σ) : Reading (ClientDispatcher × σ) :=
  d.hubStep env app (·.messageReceived lib env.captured deviceID header size) s

def broadcastReceived (lib : Library) (header : SocketClient.PacketHeader) (size : ℕ)
    (d : ClientDispatcher) (s : σ) : Reading (ClientDispatcher × σ) :=
  d.hubStep env app (·.broadcastHandler lib env.captured header size) s

def milliseconds (n : ℕ) : ℕ := n * 1000000
def keepAliveWaitingTime : ℕ := milliseconds 1000
def keepAliveCheckTimer : ℕ := milliseconds 300
def keepAliveTimeout : ℕ := milliseconds 2000
def keepAliveTimerRandomOffsetMax : ℕ := 300

/-- Looking at a client creates it. -/
def touch (clientid : Bytes) (d : ClientDispatcher) : ClientDispatcher :=
  d.setClient clientid (d.client clientid)

def isTimedOut (clientid : Bytes) (d : ClientDispatcher) : Bool :=
  (d.client clientid).lastKeepAliveResponse + keepAliveTimeout < env.now

def dispatchAfter (delay : ℕ) (task : Task) (d : ClientDispatcher) : ClientDispatcher :=
  { d with scheduled := d.scheduled ++ [(env.now + delay, task)] }

def startKeepAliveCheckCycle (d : ClientDispatcher) : ClientDispatcher :=
  let randomOffset := milliseconds (env.random % keepAliveTimerRandomOffsetMax)
  { d with keepAliveCheckRunning := true
    }.dispatchAfter env (keepAliveCheckTimer + randomOffset) .keepAliveCheck

def keepAliveCheck (d : ClientDispatcher) : Option ClientDispatcher :=
  if d.keepAliveCheckRunning then do
    let d ← d.clients.entries.foldlM (fun d e =>
      let d := d.touch e.1
      if d.isTimedOut env e.1 then
        (d.sendKeepAliveRequest e.1).map
          (·.dispatchAfter env keepAliveWaitingTime (.keepAliveWait e.1))
      else some d) d
    return d.startKeepAliveCheckCycle env
  else some d

def keepAliveWait (clientid : Bytes) (d : ClientDispatcher) (s : σ) :
    Reading (ClientDispatcher × σ) :=
  if d.keepAliveCheckRunning then
    let d := d.touch clientid
    if d.isTimedOut env clientid then
      d.hubStep env app (fun h => ofOption (h.disconnect env.captured clientid)) s
    else return (d, s)
  else return (d, s)

def runTask (task : Task) (d : ClientDispatcher) (s : σ) : Reading (ClientDispatcher × σ) :=
  match task with
  | .keepAliveCheck => do
    let d ← ofOption (d.keepAliveCheck env)
    return (d, s)
  | .keepAliveWait clientid => d.keepAliveWait env app clientid s

def listening (d : ClientDispatcher) : Bool := d.usbHubPtr.any (·.broadcastClient.listening)

/-- A call that waits for the end of a listening thread has done nothing yet. -/
def start (lib : Library) (d : ClientDispatcher) : ClientDispatcher :=
  match d.connection_type, d.usbHubPtr with
  | .usb, some h =>
    match h.startLookingForConnections lib with
    | some h => { d with usbHubPtr := some h }.startKeepAliveCheckCycle env
    | none => d
  | _, _ => d

def stop (d : ClientDispatcher) (s : σ) : Reading (ClientDispatcher × σ) :=
  if d.connection_type = .usb then d.hubStep env app (fun h => return h.close env.captured) s
  else return (d, s)

end
end

section
variable (d : ClientDispatcher) (id id' : Bytes)

theorem client_setClient (e : ExternalClient) :
    (d.setClient id e).client id' = if id' = id then e else d.client id' := by
  simp only [client, setClient, OrderedMap.find?_insert]
  split_ifs <;> rfl

theorem client_touch : (d.touch id).client id' = d.client id' := by
  rw [touch, client_setClient]
  split_ifs with hid
  · rw [hid]
  · rfl

theorem onHub_cases {d d' : ClientDispatcher} {f : USBHub → Option USBHub}
    (h : d.onHub f = some d') :
    (d.usbHubPtr = none ∧ d' = d) ∨ ∃ hub hub', d.usbHubPtr = some hub ∧ f hub = some hub' ∧
      d' = { d with usbHubPtr := some hub' } := by
  cases hhub : d.usbHubPtr with
  | none =>
    rw [onHub, hhub] at h
    exact Or.inl ⟨rfl, (Option.some.inj h).symm⟩
  | some hub =>
    rw [onHub, hhub] at h
    obtain ⟨hub', hput, rfl⟩ := Option.map_eq_some_iff.mp h
    exact Or.inr ⟨hub, hub', rfl, hput, rfl⟩

theorem touch_of_find? {d : ClientDispatcher} {id : Bytes} {e : ExternalClient}
    (h : d.clients.find? id = some e) : d.touch id = d := by
  rw [touch, client, h, Option.getD_some, setClient, d.clients.insert_of_find? h]

end
end ClientDispatcher
end SwiftRobot
