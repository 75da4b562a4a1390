import SwiftRobot.HubRouting
import SwiftRobot.ClientDispatcher
import SwiftRobot.Support.ListReplica
import SwiftRobot.Support.Runs

/-!
# Two dispatchers joined by a link

Each of two dispatchers has the other as its only device. What the connection of one
puts on its socket reaches the other packet by packet and in order; meanwhile both
subscribe, send messages and check on their peer as they like.
-/

namespace SwiftRobot.PeerLink
open ByteWords Reading PacketHeaders Connection ClientDispatcher ListReplica

/-- What a packet tells of the subscriptions of its sender. -/
def note (p : Call) : Note UInt16 :=
  match PacketType.ofCode? p.type with
  | some .connect | some .connectAck =>
    match ((MessageConnectHeader.deserialize 0) p.payload).value with
    | some m => .snapshot m.channels
    | none => .silent
  | some .subscribeRequest =>
    match ((word uint16 0) p.payload).value with
    | some channel => .increment channel
    | none => .silent
  | _ => .silent

def packets (c : Connection) : List Call :=
  c.client.calls.filter (·.protocol == swiftRobotPacketProtocol)

def packetsTo (deviceID : ℤ) (d : ClientDispatcher) : List Call :=
  ((d.usbHubPtr.bind (·.devices.find? deviceID)).map packets).getD []

inductive Side
  | a
  | b
  deriving DecidableEq, Repr

def Side.other : Side → Side
  | .a => .b
  | .b => .a

@[simp] theorem Side.other_other (i : Side) : i.other.other = i := by cases i <;> rfl

theorem Side.other_ne (i : Side) : i.other ≠ i := by cases i <;> decide

theorem Side.eq_or_eq_other (i j : Side) : j = i ∨ j = i.other := by
  cases i <;> cases j <;> decide

/-- The fixed data of each side: the name it goes by, which is a C string, its port, and
the device that its peer is, of an id that it can be addressed by. -/
structure Peers where
  name : Side → Bytes
  port : Side → UInt16
  device : Side → UsbDeviceInfo
  noNul : ∀ i, 0 ∉ name i
  addressable : ∀ i, 0 ≤ USBHub.deviceKey (device i).device_id

def Peers.deviceID (peers : Peers) (i : Side) : ℤ := USBHub.deviceKey (peers.device i).device_id

/-- `delivered` counts the packets of a side that have reached the other. -/
structure Link (σ : Type) where
  dispatcher : Side → ClientDispatcher
  app : Side → σ
  delivered : Side → ℕ

inductive Event (σ : Type)
  -- usbmuxd reports that the tunnel of a side is open
  | linkUp (i : Side)
  | subscribe (i : Side) (channel : UInt16)
  -- the next packet of a side arrives, with what lies behind its payload in memory
  | deliver (i : Side) (tail : Bytes)
  | dispatchMessage (i : Side) (channel : UInt16) (msg : Messages.Message) (size : UInt32)
    (type : UInt16)
  | start (i : Side)
  | keepAliveCheck (i : Side)
  -- what the application of a side does by itself
  | application (i : Side) (f : σ → σ)

section
variable {σ : Type} (peers : Peers) (lib : Plist.Library) (app : Application σ)

def Link.initial (s : Side → σ) : Link σ where
  dispatcher i :=
    { ClientDispatcher.initial (peers.name i) (peers.port i) .usb with
      usbHubPtr := some ((USBHub.initial (peers.port i)).createDevice lib (peers.device i)).1 }
  app := s
  delivered _ := 0

def Link.sent (st : Link σ) (i : Side) : List Call :=
  packetsTo (peers.deviceID i) (st.dispatcher i)

def Link.handled (st : Link σ) (i : Side) : List Call := (st.sent peers i).take (st.delivered i)

def Link.inFlight (st : Link σ) (i : Side) : List Call := (st.sent peers i).drop (st.delivered i)

def Link.held (st : Link σ) (i : Side) : List UInt16 :=
  ((st.dispatcher i.other).client (peers.name i)).subscriptions

def Link.Up (st : Link σ) (i : Side) : Prop :=
  ((st.dispatcher i).usbHubPtr.bind (·.devices.find? (peers.deviceID i))).map (·.status) =
    some .connected

instance (st : Link σ) (i : Side) : Decidable (st.Up peers i) :=
  inferInstanceAs (Decidable (_ = _))

def Link.subscribed (st : Link σ) (i : Side) : List UInt16 :=
  (st.dispatcher i).clientChannelSubsciptions

def Link.on (st : Link σ) (i : Side)
    (f : ClientDispatcher → σ → Option (ClientDispatcher × σ)) : Option (Link σ) :=
  (f (st.dispatcher i) (st.app i)).map fun r =>
    { st with
      dispatcher := Function.update st.dispatcher i r.1
      app := Function.update st.app i r.2 }

def tunnelOpened (env : Env) (deviceID : ℤ) (d : ClientDispatcher) (s : σ) :
    Option (ClientDispatcher × σ) :=
  ((d.hubStep { env with captured := deviceID } app (fun h => do
    let c ← ofOption (h.devices.find? deviceID)
    let r ← ofOption (c.plistReceived HubRouting.resultOK)
    return (h.setDevice deviceID r.1, h.raise deviceID r.2)) s) []).value

def receive (env : Env) (deviceID : ℤ) (p : Call) (tail : Bytes) (d : ClientDispatcher) (s : σ) :
    Option (ClientDispatcher × σ) :=
  ((d.messageReceived env app lib deviceID (HubRouting.swiftRobotHeader p.type p.payload)
    p.payload.length s) (p.payload ++ tail)).value

def Event.apply (env : Env) (st : Link σ) : Event σ → Option (Link σ)
  | .linkUp i => st.on i (tunnelOpened app env (peers.deviceID i))
  | .subscribe i channel => st.on i fun d s => some (d.subscribeRequest channel, s)
  | .deliver i tail =>
    match st.inFlight peers i with
    | [] => none
    | p :: _ =>
      (st.on i.other (receive lib app env (peers.deviceID i.other) p tail)).map fun st =>
        { st with delivered := Function.update st.delivered i (st.delivered i + 1) }
  | .dispatchMessage i channel msg size type =>
    st.on i fun d s => (d.dispatchMessage env channel msg size type).map fun d => (d, s)
  | .start i => st.on i fun d s => some (d.start env lib, s)
  | .keepAliveCheck i => st.on i fun d s => (d.keepAliveCheck env).map fun d => (d, s)
  | .application i f => st.on i fun d s => some (d, f s)

def advance (st : Link σ) (e : Env × Event σ) : Option (Link σ) :=
  e.2.apply peers lib app e.1 st

def step (st : Link σ) (e : Env × Event σ) (st' : Link σ) : Prop :=
  advance peers lib app st e = some st'

end

end SwiftRobot.PeerLink
