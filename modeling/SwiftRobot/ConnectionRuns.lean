import SwiftRobot.Connection
import SwiftRobot.Support.Runs

/-!
# What a connection says to its socket

The calls that are made on the socket client in a run of the connection. Each of them is
given the connection's counter as its tag, and counts it up.
-/

namespace SwiftRobot.ConnectionRuns
open ByteWords Reading PacketHeaders Plist Connection

inductive Op
  | startConnection (reachable : Bool)
  | disconnect
  | send (type : PacketType) (data : Bytes)
  | send2 (type : PacketType) (data1 data2 : Bytes)
  | frame (header : SocketClient.PacketHeader) (size : ℕ) (memory : Bytes)

section
variable (lib : Library)

def Op.apply (c : Connection) : Op → Option Connection
  | .startConnection reachable => some (c.startConnection lib reachable).1
  | .disconnect => some c.disconnect.1
  | .send type data => some (c.send type data)
  | .send2 type data1 data2 => some (c.send2 type data1 data2)
  | .frame header size memory => (c.messageReceived lib header size memory).value.map Prod.fst

def Step (c : Connection) (op : Op) (c' : Connection) : Prop := op.apply lib c = some c'

def request (c : Connection) : Bytes :=
  let port_bigendian := (((c.port <<< 8) &&& (0xFF00 : UInt64)) ||| (c.port >>> 8)).toUInt16
  createUSBMuxPacket lib (text "Connect")
    [(text "DeviceID", .int32 c.usb_info.device_id.toInt32),
      (text "PortNumber", .int32 port_bigendian.toUInt32.toInt32)]

def Op.calls (c : Connection) : Op → List Call
  | .startConnection _ => if c.usbmux then [.sendPlist c.tag (request lib c)] else []
  | .disconnect => []
  | .send type data =>
    if c.status = .connected then [.send swiftRobotPacketProtocol type.code c.tag data] else []
  | .send2 type data1 data2 =>
    if c.status = .connected then
      [.send2 swiftRobotPacketProtocol type.code c.tag data1 data2]
    else []
  | .frame _ _ _ => []

end

def tagOf : Call → UInt32
  | .send _ _ tag _ => tag
  | .send2 _ _ tag _ _ => tag
  | .sendPlist tag _ => tag

section
variable {lib : Library} {c c' : Connection}

structure Made (c c' : Connection) (ks : List Call) : Prop where
  calls : c'.client.calls = c.client.calls ++ ks
  tag : c'.tag = c.tag + UInt32.ofNat ks.length
  tagged : ∀ k ∈ ks, tagOf k = c.tag
  one : ks.length ≤ 1

theorem Made.nothing (hcalls : c'.client.calls = c.client.calls) (htag : c'.tag = c.tag) :
    Made c c' [] := by
  refine ⟨by rw [hcalls, List.append_nil], ?_, fun k hk => absurd hk List.not_mem_nil,
    Nat.zero_le 1⟩
  rw [htag]
  exact (UInt32.add_zero _).symm

theorem Made.single {k : Call} (hcalls : c'.client.calls = c.client.calls ++ [k])
    (htag : c'.tag = c.tag + 1) (hk : tagOf k = c.tag) : Made c c' [k] :=
  ⟨hcalls, htag, fun k' hk' => by rw [List.mem_singleton.mp hk', hk], Nat.le_refl 1⟩

theorem messageReceived_made {header : SocketClient.PacketHeader} {size : ℕ} {memory : Bytes}
    {r : Connection × Upcall} (h : (c.messageReceived lib header size memory).value = some r) :
    Made c r.1 [] := by
  cases Received.of_value h with
  | plist _ _ hplist =>
    obtain ⟨type, -, ⟨-, number, -, rfl⟩ | ⟨-, rfl⟩⟩ := plistReceived_some hplist
    · rw [resultReceived]
      split_ifs <;> exact .nothing rfl rfl
    · exact .nothing rfl rfl
  | unreadable _ _ => exact .nothing rfl rfl
  | named _ _ _ => exact .nothing rfl rfl
  | packet _ _ => exact .nothing rfl rfl
  | ignored _ _ => exact .nothing rfl rfl

theorem apply_made {op : Op} (h : op.apply lib c = some c') : Made c c' (op.calls lib c) := by
  cases op with
  | startConnection reachable =>
    rw [← Option.some.inj h]
    cases husb : c.usbmux with
    | true =>
      simp only [Op.calls, husb, if_true, startConnection, connect]
      exact .single rfl rfl rfl
    | false =>
      rw [Op.calls, husb, started_address lib husb]
      cases reachable <;> exact .nothing rfl rfl
  | disconnect =>
    rw [← Option.some.inj h, Op.calls, Connection.disconnect]
    split_ifs <;> exact .nothing rfl rfl
  | send type data =>
    rw [← Option.some.inj h, Op.calls, Connection.send]
    split_ifs
    · exact .single rfl rfl rfl
    · exact .nothing rfl rfl
  | send2 type data1 data2 =>
    rw [← Option.some.inj h, Op.calls, Connection.send2]
    split_ifs
    · exact .single rfl rfl rfl
    · exact .nothing rfl rfl
  | frame header size memory =>
    obtain ⟨r, hr, rfl⟩ := Option.map_eq_some_iff.mp h
    exact messageReceived_made hr

structure Counted (c : Connection) : Prop where
  calls : ∀ i k, c.client.calls[i]? = some k → tagOf k = UInt32.ofNat (i + 1)
  tag : c.tag = UInt32.ofNat (c.client.calls.length + 1)

theorem Counted.step {op : Op} (h : Counted c) (hs : Step lib c op c') : Counted c' := by
  obtain ⟨hcalls, htag, htagged, hone⟩ := apply_made hs
  refine ⟨fun i k hk => ?_, ?_⟩
  · rw [hcalls] at hk
    rcases Nat.lt_or_ge i c.client.calls.length with hlt | hge
    · rw [List.getElem?_append_left hlt] at hk
      exact h.calls i k hk
    · rw [List.getElem?_append_right hge] at hk
      obtain ⟨hin, hget⟩ := List.getElem?_eq_some_iff.mp hk
      have hi : i = c.client.calls.length := by omega
      rw [htagged k (hget ▸ List.getElem_mem hin), h.tag, hi]
  · rw [htag, h.tag, ← UInt32.ofNat_add, hcalls, List.length_append, Nat.add_right_comm]

theorem counted_run {c₀ : Connection} {ops : List Op} (hc : Counted c₀)
    (run : Run (Step lib) c₀ ops c) : Counted c :=
  run.invariant (fun _ _ _ h hs => h.step hs) hc

end

def emptyPlists : Library :=
  ⟨fun _ => .error .thrown, fun _ _ _ => .error .thrown, fun _ => text "<plist><dict/></plist>",
    fun _ => true⟩

end SwiftRobot.ConnectionRuns
