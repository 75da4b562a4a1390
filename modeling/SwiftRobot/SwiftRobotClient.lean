import Mathlib.Data.List.Nodup
import SwiftRobot.ClientDispatcher
import SwiftRobot.DispatchQueue

/-!
# The client

`swiftrobotc.h`: subscribers are kept by channel, each with a semaphore that lets one
closure for it be under way at a time. A message is notified locally by its publisher,
and by the dispatcher when a peer has sent it.
-/

namespace SwiftRobot
open Messages

/-- What a dispatched closure has captured. `call` is the number of the notify call it
comes from, and nothing of the source. -/
structure Closure where
  subscriber : ℕ
  channel : UInt16
  msg : Msg
  call : ℕ
  deriving DecidableEq, Repr

inductive QueueItem
  | deliver (c : Closure)
  | timer (task : ClientDispatcher.Task)
  deriving DecidableEq, Repr

/-- A subscriber: the message type its callback takes, the channel it was registered
under, and how many notify calls had begun before. -/
structure Subscriber where
  kind : MsgKind
  channel : UInt8
  since : ℕ
  deriving DecidableEq, Repr

structure Offer where
  subscriber : ℕ
  call : ℕ
  taken : Bool
  deriving DecidableEq, Repr

/-- Subscribers are numbered in the order of the subscribe calls; the map holds their
numbers. `notified` and `offers` are records of the notify calls that have begun and of
the semaphores that were tried. -/
structure LocalBus where
  subscribers : List Subscriber
  subscriber_channel_map : OrderedMap UInt8 (List ℕ)
  available : ℕ → Bool
  queue : DispatchQueue QueueItem
  notified : List (UInt16 × Msg)
  offers : List Offer

namespace LocalBus

def initial : LocalBus := ⟨[], .empty, fun _ => true, .initial, [], []⟩

def listed (key : UInt8) (b : LocalBus) : List ℕ :=
  (b.subscriber_channel_map.find? key).getD []

/-- The subscribers that a notify call on `channel` goes through: the channel becomes
the eight-bit key of the map. -/
def range (channel : UInt16) (b : LocalBus) : List ℕ := b.listed channel.toUInt8

def subscribe (channel : UInt8) (kind : MsgKind) (b : LocalBus) : LocalBus :=
  { b with
    subscribers := b.subscribers ++ [⟨kind, channel, b.notified.length⟩]
    subscriber_channel_map :=
      b.subscriber_channel_map.insert channel (b.listed channel ++ [b.subscribers.length]) }

/-- Looking up a channel creates its entry. -/
def begin (channel : UInt16) (msg : Msg) (b : LocalBus) : LocalBus :=
  { b with
    subscriber_channel_map :=
      b.subscriber_channel_map.insert channel.toUInt8 (b.range channel)
    notified := b.notified ++ [(channel, msg)] }

def tryAcquire (call subscriber : ℕ) (b : LocalBus) : LocalBus :=
  { b with
    available := Function.update b.available subscriber false
    offers := b.offers ++ [⟨subscriber, call, b.available subscriber⟩] }

def dispatch (c : Closure) (b : LocalBus) : LocalBus :=
  { b with queue := b.queue.dispatch (.deliver c) }

def release (subscriber : ℕ) (b : LocalBus) : LocalBus :=
  { b with available := Function.update b.available subscriber true }

def offer (channel : UInt16) (msg : Msg) (call subscriber : ℕ) (b : LocalBus) : LocalBus :=
  if b.available subscriber then
    (b.tryAcquire call subscriber).dispatch ⟨subscriber, channel, msg, call⟩
  else b.tryAcquire call subscriber

def notify (channel : UInt16) (msg : Msg) (b : LocalBus) : LocalBus :=
  (b.range channel).foldl (fun b' s => b'.offer channel msg b.notified.length s)
    (b.begin channel msg)

theorem listed_subscribe (b : LocalBus) (channel key : UInt8) (kind : MsgKind) :
    (b.subscribe channel kind).listed key =
      if key = channel then b.listed channel ++ [b.subscribers.length] else b.listed key := by
  simp only [listed, subscribe, OrderedMap.find?_insert]
  split_ifs <;> rfl

theorem listed_begin (b : LocalBus) (channel : UInt16) (msg : Msg) (key : UInt8) :
    (b.begin channel msg).listed key = b.listed key := by
  simp only [listed, begin, range, OrderedMap.find?_insert]
  split_ifs with hkey
  · rw [hkey]
    rfl
  · rfl

def Registered (b : LocalBus) : Prop :=
  ∀ key, (b.listed key).Nodup ∧
    ∀ s, s ∈ b.listed key ↔ ∃ sub, b.subscribers[s]? = some sub ∧ sub.channel = key

theorem registered_initial : initial.Registered := by
  intro key
  simp [initial, listed]

theorem Registered.congr {b b' : LocalBus} (h : b.Registered)
    (hsubs : b'.subscribers = b.subscribers) (hlisted : ∀ key, b'.listed key = b.listed key) :
    b'.Registered := by
  intro key
  rw [hlisted, hsubs]
  exact h key

theorem Registered.subscribe {b : LocalBus} (h : b.Registered) (channel : UInt8)
    (kind : MsgKind) : (b.subscribe channel kind).Registered := by
  have hsub : ∀ s sub, (b.subscribe channel kind).subscribers[s]? = some sub ↔
      b.subscribers[s]? = some sub ∨
        s = b.subscribers.length ∧ sub = ⟨kind, channel, b.notified.length⟩ := by
    intro s sub
    simp only [LocalBus.subscribe, List.getElem?_append, List.getElem?_singleton]
    grind
  have hnew : ∀ key, b.subscribers.length ∉ b.listed key := by
    intro key hmem
    obtain ⟨sub, hs, -⟩ := ((h key).2 _).mp hmem
    simp at hs
  intro key
  rw [listed_subscribe]
  split_ifs with hkey
  · subst hkey
    refine ⟨(h key).1.append (List.nodup_singleton _)
      (List.disjoint_singleton.mpr (hnew key)), fun s => ?_⟩
    rw [List.mem_append, List.mem_singleton, (h key).2 s]
    simp only [hsub]
    grind
  · refine ⟨(h key).1, fun s => ?_⟩
    rw [(h key).2 s]
    simp only [hsub]
    grind

end LocalBus

structure SwiftRobotClient where
  bus : LocalBus
  client_dispatcher : ClientDispatcher

namespace SwiftRobotClient
open ByteWords Reading ClientDispatcher

def initial (connection_type : ConnectionType) (name : Bytes) (port : UInt16) :
    SwiftRobotClient :=
  ⟨.initial, .initial name port connection_type⟩

def receivedKind? (type : UInt16) : Option MsgKind :=
  [MsgKind.uint8Array, .uint16Array, .uint32Array, .int8Array, .int16Array, .int32Array,
    .floatArray, .image, .imu, .drive, .odometry].find? fun k => k.type == type

theorem receivedKind?_ne_updateMsg {type : UInt16} {kind : MsgKind}
    (h : receivedKind? type = some kind) : kind ≠ .updateMsg := by
  have hmem := List.mem_of_find?_eq_some h
  rintro rfl
  simp at hmem

def didReceiveMessage (_channel : UInt16) (header data : ℕ) (b : LocalBus) : Reading LocalBus := do
  let type ← word uint16 (header + 2)
  match receivedKind? type with
  | none => return b
  | some kind =>
    let channel ← word uint16 header
    let d ← kind.deserialize data
    -- what a body past its vector overwrites is not known, and nothing after it is
    if d.overrun = 0 then return b.notify channel d.msg else fault

def didReceiveUpdate (clientID : Bytes) (status : Status) (b : LocalBus) : LocalBus :=
  b.notify 0 (.updateMsg ⟨clientID, status⟩)

def application : Application LocalBus := ⟨didReceiveMessage, didReceiveUpdate⟩

section
variable (env : Env)

def publish (channel : UInt8) (msg : Msg) (c : SwiftRobotClient) : Option SwiftRobotClient :=
  let bus := c.bus.notify channel.toUInt16 msg
  (c.client_dispatcher.dispatchMessage env channel.toUInt16 msg.slice msg.getSize msg.type).map
    fun d => ⟨bus, d⟩

/-- Channel 0 stays local. -/
def subscribe (channel : UInt8) (kind : MsgKind) (c : SwiftRobotClient) : SwiftRobotClient where
  bus := c.bus.subscribe channel kind
  client_dispatcher :=
    if channel ≠ 0 then c.client_dispatcher.subscribeRequest channel.toUInt16
    else c.client_dispatcher

def join (r : ClientDispatcher × LocalBus) : SwiftRobotClient := ⟨r.2, r.1⟩

def messageReceived (lib : Plist.Library) (deviceID : ℤ) (header : SocketClient.PacketHeader)
    (size : ℕ) (c : SwiftRobotClient) : Reading SwiftRobotClient :=
  join <$> c.client_dispatcher.messageReceived env application lib deviceID header size c.bus

def broadcastReceived (lib : Plist.Library) (header : SocketClient.PacketHeader) (size : ℕ)
    (c : SwiftRobotClient) : Reading SwiftRobotClient :=
  join <$> c.client_dispatcher.broadcastReceived env application lib header size c.bus

def runTask (task : Task) (c : SwiftRobotClient) : Reading SwiftRobotClient :=
  join <$> c.client_dispatcher.runTask env application task c.bus

def start (lib : Plist.Library) (c : SwiftRobotClient) : SwiftRobotClient :=
  { c with client_dispatcher := c.client_dispatcher.start env lib }

def stop (c : SwiftRobotClient) : Reading SwiftRobotClient :=
  join <$> c.client_dispatcher.stop env application c.bus

end
end SwiftRobotClient
end SwiftRobot
