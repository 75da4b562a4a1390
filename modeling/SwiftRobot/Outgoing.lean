import SwiftRobot.ClientDispatcher
import SwiftRobot.HubRouting

/-!
# What the dispatcher hands to its hub

Sending to a client by name never fails: the device id that is looked up is one of the
map. A message goes out once for every entry of its channel in the lists of the clients.
-/

namespace SwiftRobot.Outgoing
open ByteWords Copying PacketHeaders ClientDispatcher

section
variable (h : USBHub) (clientid : Bytes)

theorem find?_getDeviceIDForClientID (hpos : 0 ≤ h.getDeviceIDForClientID clientid) :
    ∃ c, h.devices.find? (h.getDeviceIDForClientID clientid) = some c := by
  unfold USBHub.getDeviceIDForClientID at hpos ⊢
  cases hf : h.devices.first (fun e => e.2.name == clientid) with
  | none => simp [hf] at hpos
  | some e => exact ⟨e.2, ((OrderedMap.first_eq_some_iff _ _ e.1 e.2).mp hf).1⟩

theorem onClient_handed (target : USBHub.Target) (p : USBHub.Packet)
    (f : Connection → Connection) :
    ∃ h', HubRouting.onClient h clientid target p f = some h' ∧
      h'.handed = h.handed ++ [(target, p)] := by
  unfold HubRouting.onClient
  split_ifs with hpos
  · obtain ⟨c, hc⟩ := find?_getDeviceIDForClientID h clientid hpos
    exact ⟨_, by rw [USBHub.onDevice, USBHub.hand, hc, Option.map_some], rfl⟩
  · exact ⟨_, rfl, rfl⟩

end

section
variable (env : Env) (channel : UInt16) (msg : Messages.Message) (size : UInt32) (type : UInt16)

def messagePacket (k : ℕ) : USBHub.Packet :=
  ⟨.message, [(MessagePacketHeader.mk channel type size).bytes,
    store msg.serialize ((List.range size.toNat).map (env.stack k))]⟩

theorem onHub_handed {d : ClientDispatcher} (hhub : d.usbHubPtr.isSome) (clientid : Bytes)
    (target : USBHub.Target) (p : USBHub.Packet) (f : Connection → Connection) :
    ∃ d', d.onHub (HubRouting.onClient · clientid target p f) = some d' ∧ d'.usbHubPtr.isSome ∧
      d'.handed = d.handed ++ [(target, p)] := by
  obtain ⟨h, hh⟩ := Option.isSome_iff_exists.mp hhub
  obtain ⟨h', hrun, hhanded⟩ := onClient_handed h clientid target p f
  refine ⟨{ d with usbHubPtr := some h' }, ?_, rfl, ?_⟩
  · simp only [onHub, hh, hrun, Option.map_some]
  · simp only [handed, hh, hhanded]

theorem sendPacket_isSome (d : ClientDispatcher) (type : PacketType) (clientid data : Bytes) :
    (d.onHub (USBHub.sendPacket type clientid data)).isSome := by
  cases hhub : d.usbHubPtr with
  | none => simp only [onHub, hhub, Option.isSome_some]
  | some hub =>
    obtain ⟨d', hsend, -, -⟩ := onHub_handed (by rw [hhub]; rfl) clientid (.client clientid)
      ⟨type, [data]⟩ (·.send type data)
    exact Option.isSome_iff_exists.mpr ⟨d', hsend⟩

theorem sendMessage_handed {d : ClientDispatcher} (hhub : d.usbHubPtr.isSome) (clientid : Bytes) :
    ∃ d', d.sendMessage env clientid msg channel size type = some d' ∧ d'.usbHubPtr.isSome ∧
      d'.handed = d.handed ++
        [(.client clientid, messagePacket env channel msg size type d.handed.length)] := by
  exact onHub_handed hhub clientid (.client clientid)
    (messagePacket env channel msg size type d.handed.length)
    (·.send2 .message (MessagePacketHeader.mk channel type size).bytes
      (store msg.serialize ((List.range size.toNat).map (d.stackBytes env))))

def recipients (d : ClientDispatcher) (channel : UInt16) : List Bytes :=
  d.clients.entries.flatMap fun e => (e.2.subscriptions.filter (· = channel)).map fun _ => e.1

theorem foldlM_flatMap {α β σ : Type} (f : σ → β → Option σ) (g : α → List β) (l : List α)
    (s : σ) : l.foldlM (fun s a => (g a).foldlM f s) s = (l.flatMap g).foldlM f s := by
  induction l generalizing s with
  | nil => rfl
  | cons a l ih => simp [List.foldlM_append, ih]

theorem dispatchMessage_eq (d : ClientDispatcher) :
    d.dispatchMessage env channel msg size type = (recipients d channel).foldlM
      (fun d clientid => d.sendMessage env clientid msg channel size type) d := by
  rw [recipients, ← foldlM_flatMap, dispatchMessage]
  simp only [List.foldlM_map, List.foldlM_filter]
  simp

theorem foldlM_sendMessage (ids : List Bytes) {d : ClientDispatcher} (hhub : d.usbHubPtr.isSome) :
    ∃ d', ids.foldlM (fun d clientid => d.sendMessage env clientid msg channel size type) d =
        some d' ∧
      d'.handed = d.handed ++ ids.mapIdx fun i clientid =>
        (.client clientid, messagePacket env channel msg size type (d.handed.length + i)) := by
  induction ids generalizing d with
  | nil => exact ⟨d, rfl, by simp⟩
  | cons clientid ids ih =>
    obtain ⟨d', hsend, hhub', hhanded⟩ := sendMessage_handed env channel msg size type hhub clientid
    obtain ⟨d'', hrest, hhanded'⟩ := ih hhub'
    refine ⟨d'', by rw [List.foldlM_cons, hsend]; exact hrest, ?_⟩
    rw [hhanded', hhanded]
    simp [List.mapIdx_cons, Nat.add_assoc, Nat.add_comm 1]

theorem dispatchMessage_handed {d : ClientDispatcher} (hhub : d.usbHubPtr.isSome) :
    ∃ d', d.dispatchMessage env channel msg size type = some d' ∧
      d'.handed = d.handed ++ (recipients d channel).mapIdx fun i clientid =>
        (.client clientid, messagePacket env channel msg size type (d.handed.length + i)) := by
  rw [dispatchMessage_eq]
  exact foldlM_sendMessage env channel msg size type _ hhub

theorem dispatchMessage_no_hub {d : ClientDispatcher} (hhub : d.usbHubPtr = none) :
    d.dispatchMessage env channel msg size type = some d := by
  rw [dispatchMessage_eq]
  generalize recipients d channel = ids
  induction ids with
  | nil => rfl
  | cons clientid ids ih =>
    have hsend : d.sendMessage env clientid msg channel size type = some d := by
      simp [sendMessage, onHub, hhub]
    rw [List.foldlM_cons, hsend]
    exact ih

theorem mem_recipients {d : ClientDispatcher} {clientid : Bytes} :
    clientid ∈ recipients d channel ↔
      ∃ e, d.clients.find? clientid = some e ∧ channel ∈ e.subscriptions := by
  simp only [recipients, List.mem_flatMap, List.mem_map, List.mem_filter, decide_eq_true_eq,
    Prod.exists, OrderedMap.mem_entries_iff]
  constructor
  · rintro ⟨id, e, he, c, ⟨hc, rfl⟩, rfl⟩
    exact ⟨e, he, hc⟩
  · rintro ⟨e, he, hc⟩
    exact ⟨clientid, e, he, channel, ⟨hc, rfl⟩, rfl⟩

theorem count_recipients (d : ClientDispatcher) (clientid : Bytes) :
    (recipients d channel).count clientid = (d.client clientid).subscriptions.count channel := by
  have hown : recipients d channel = d.clients.entries.flatMap fun e =>
      List.replicate (e.2.subscriptions.count channel) e.1 := by
    simp only [recipients, List.map_const', List.count_eq_length_filter]
    simp only [Bool.beq_eq_decide_eq]
  rw [hown, d.clients.count_entries clientid fun e => e.subscriptions.count channel,
    ClientDispatcher.client]
  cases d.clients.find? clientid <;> rfl

end

section
variable {σ : Type} (app : Application σ) (s : σ) (mem : Bytes)

/-- What the handler of a packet reads is in memory, and the application returns. -/
def Readable (type : UInt32) : Prop :=
  match PacketType.ofCode? type with
  | some .message => ∃ channel, ((Reading.word uint16 0) mem).value = some channel ∧
      ((app.didReceiveMessage channel 0 8 s) mem).value.isSome
  | some .subscribeRequest => ((Reading.word uint16 0) mem).value.isSome
  | some .connect | some .connectAck => ((MessageConnectHeader.deserialize 0) mem).value.isSome
  | _ => True

variable {app s mem}

/-- All that can keep a handler from its end are its reads: the answers always go out. -/
theorem multiplex_isSome {type : UInt32} (h : Readable app s mem type) (env : Env)
    (clientid : Bytes) (length : ℕ) (d : ClientDispatcher) :
    ((d.multiplexIncomingPacket env app clientid type length s) mem).value.isSome := by
  unfold Readable at h
  unfold multiplexIncomingPacket
  cases hkind : PacketType.ofCode? type with
  | none => rfl
  | some kind =>
    rw [hkind] at h
    cases kind with
    | message =>
      obtain ⟨channel, hword, happ⟩ := h
      obtain ⟨s', hs'⟩ := Option.isSome_iff_exists.mp happ
      simp only [handleMessage, Reading.bind_value, hword, hs', Option.bind_some,
        Reading.pure_value, Option.isSome_some]
    | subscribeRequest =>
      obtain ⟨channel, hword⟩ := Option.isSome_iff_exists.mp h
      simp only [handleSubscribeRequest, Reading.bind_value, hword, Option.bind_some,
        Reading.pure_value, Option.isSome_some]
    | keepAliveRequest =>
      obtain ⟨d', hsend⟩ := Option.isSome_iff_exists.mp (sendPacket_isSome
        (d.updateKeepAliveTime env clientid) .keepAliveResponse clientid [])
      simp only [handleKeepAliveRequest, sendKeepAliveResponse, Reading.bind_value,
        Reading.ofOption_value, hsend, Option.bind_some, Reading.pure_value, Option.isSome_some]
    | connect =>
      obtain ⟨connect_msg, hread⟩ := Option.isSome_iff_exists.mp h
      obtain ⟨d', hsend⟩ := Option.isSome_iff_exists.mp (sendPacket_isSome
        (d.setClient clientid ⟨clientid, env.now, connect_msg.channels⟩) .connectAck clientid
        (connectPacket env (d.setClient clientid ⟨clientid, env.now, connect_msg.channels⟩)))
      simp only [handleConnect, handleConnectAck, sendConnectAck, Reading.bind_value,
        Reading.ofOption_value, hread, hsend, Option.bind_some, Reading.pure_value,
        Option.isSome_some]
    | connectAck =>
      obtain ⟨connect_msg, hread⟩ := Option.isSome_iff_exists.mp h
      simp only [handleConnectAck, Reading.bind_value, hread, Option.bind_some,
        Reading.pure_value, Option.isSome_some]
    | _ => rfl

end

end SwiftRobot.Outgoing
