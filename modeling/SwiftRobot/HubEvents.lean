import SwiftRobot.DispatcherRuns

/-!
# What happens to the hub of a dispatcher

A run of the dispatcher together with its hub, whose messages of usbmuxd are parsed, and
with a record of what the application is told.
-/

namespace SwiftRobot.HubEvents
open ByteWords Reading PacketHeaders Plist Connection ClientDispatcher DispatcherRuns

abbrev Update := Bytes × Messages.Status

/-- The updates that are passed to an application, beside what it does with them. -/
def recording {σ : Type} (app : Application σ) : Application (σ × List Update) where
  didReceiveMessage channel header data s := do
    let s' ← app.didReceiveMessage channel header data s.1
    return (s', s.2)
  didReceiveUpdateMsg clientid status s :=
    (app.didReceiveUpdateMsg clientid status s.1, s.2 ++ [(clientid, status)])

def lastUpdate (n : Bytes) (updates : List Update) : Option Messages.Status :=
  (updates.filter fun u => u.1 = n ∧ (u.2 = .connected ∨ u.2 = .disconnected)).getLast?.map Prod.snd

def plistReceived (captured deviceID : ℤ) (plist_message : Dictionary) (h : USBHub) :
    Option (USBHub × List USBHub.Upcall) := do
  let c ← h.devices.find? deviceID
  let r ← c.plistReceived plist_message
  return (h.setDevice deviceID r.1, h.raise captured r.2)

inductive Event
  | broadcast (plist_message : Dictionary)
  | plist (deviceID : ℤ) (plist_message : Dictionary)
  -- a frame of the peer, with what lies behind its payload in memory
  | frame (deviceID : ℤ) (type : UInt32) (payload tail : Bytes)
  | dispatchMessage (channel : UInt16) (msg : Messages.Message) (size : UInt32) (type : UInt16)
  | subscribeRequest (channel : UInt16)
  | start
  | stop
  | closure (i : ℕ)

def Event.ran : Event → List ℕ
  | .closure i => [i]
  | _ => []

section
variable {σ : Type} (lib : Library) (app : Application (σ × List Update))

def perform (env : Env) (s : State (σ × List Update)) :
    Event → Option (ClientDispatcher × (σ × List Update))
  | .broadcast plist_message => ((s.dispatcher.hubStep env app
      (fun h => ofOption (h.broadcastReceived lib env.captured plist_message)) s.app) []).value
  | .plist deviceID plist_message => ((s.dispatcher.hubStep env app
      (fun h => ofOption (plistReceived env.captured deviceID plist_message h)) s.app) []).value
  | .frame deviceID type payload tail => ((s.dispatcher.messageReceived env app lib deviceID
      (HubRouting.swiftRobotHeader type payload) payload.length s.app) (payload ++ tail)).value
  | .dispatchMessage channel msg size type =>
    s.perform lib app env (.dispatchMessage channel msg size type)
  | .subscribeRequest channel => s.perform lib app env (.subscribeRequest channel)
  | .start => s.perform lib app env .start
  | .stop => s.perform lib app env .stop
  | .closure i => s.perform lib app env (.closure i)

def advance (s : State (σ × List Update)) (e : Env × Event) : Option (State (σ × List Update)) :=
  if s.clock ≤ e.1.now then
    (perform lib app e.1 s e.2).map fun r => ⟨r.1, r.2, s.ran ++ e.2.ran, e.1.now⟩
  else none

def Step (s : State (σ × List Update)) (e : Env × Event) (t : State (σ × List Update)) : Prop :=
  advance lib app s e = some t

end

def standing (d : ClientDispatcher) (i : ℤ) : Option (Bytes × ConnectionStatus) :=
  d.usbHubPtr.bind fun h => (h.devices.find? i).map fun c => (c.name, c.status)

def concerned? (plist_message : Dictionary) : Option ℤ :=
  if plist_message.string? "MessageType" = some (text "Attached") then
    (USBHub.parsePropertiesPlistDict plist_message).map fun device => USBHub.deviceKey device.device_id
  else if plist_message.string? "MessageType" = some (text "Detached") then
    (plist_message.integer? "DeviceID").map fun device_id => device_id.toInt32.toInt
  else none

def result? (plist_message : Dictionary) : Option Int32 :=
  if plist_message.string? "MessageType" = some (text "Result") then
    (plist_message.integer? "Number").map Int64.toInt32
  else none

theorem lastUpdate_append (n : Bytes) (updates : List Update) (u : Update) :
    lastUpdate n (updates ++ [u]) =
      if u.1 = n ∧ (u.2 = .connected ∨ u.2 = .disconnected) then some u.2
      else lastUpdate n updates := by
  unfold lastUpdate
  rw [List.filter_append]
  split_ifs with hu
  · rw [List.filter_cons_of_pos (by simpa using hu), List.filter_nil, List.getLast?_concat]
    rfl
  · rw [List.filter_cons_of_neg (by simpa using hu), List.filter_nil, List.append_nil]

section
variable {σ : Type} {env : Env} {app : Application σ} {d d' : ClientDispatcher} {h h' : USBHub}

def seen (c : Connection) : (Bytes × ConnectionStatus) × Bool :=
  ((c.name, c.status), c.packetReceivedCallback)

structure Still (h h' : USBHub) : Prop where
  receives : h'.receivedPacketCallback = h.receivedPacketCallback
  devices : ∀ i, (h'.devices.find? i).map seen = (h.devices.find? i).map seen

theorem Still.refl (h : USBHub) : Still h h := ⟨rfl, fun _ => rfl⟩

theorem Still.of_hand {target : USBHub.Target} {p : USBHub.Packet} (hs : Still (h.hand target p) h') :
    Still h h' := ⟨hs.receives, hs.devices⟩

theorem onDevice_still {deviceID : ℤ} {f : Connection → Connection} (hf : ∀ c, seen (f c) = seen c)
    (hrun : h.onDevice deviceID f = some h') : Still h h' := by
  obtain ⟨c, hc, rfl⟩ := Option.map_eq_some_iff.mp hrun
  refine ⟨rfl, fun i => ?_⟩
  simp only [USBHub.setDevice, OrderedMap.find?_insert]
  split_ifs with hi
  · rw [hi, hc, Option.map_some, Option.map_some, hf]
  · rfl

theorem onClient_still {n : Bytes} {target : USBHub.Target} {p : USBHub.Packet}
    {f : Connection → Connection} (hf : ∀ c, seen (f c) = seen c)
    (hrun : HubRouting.onClient h n target p f = some h') : Still h h' := by
  unfold HubRouting.onClient at hrun
  split_ifs at hrun
  · exact (onDevice_still hf hrun).of_hand
  · rw [← Option.some.inj hrun]
    exact ⟨rfl, fun _ => rfl⟩

theorem seen_send (type : PacketType) (data : Bytes) (c : Connection) :
    seen (c.send type data) = seen c := by
  unfold Connection.send
  split_ifs <;> rfl

theorem seen_send2 (type : PacketType) (data1 data2 : Bytes) (c : Connection) :
    seen (c.send2 type data1 data2) = seen c := by
  unfold Connection.send2
  split_ifs <;> rfl

def Stays (d d' : ClientDispatcher) : Prop := Option.Rel Still d.usbHubPtr d'.usbHubPtr

theorem Stays.of_hub (hhub : d'.usbHubPtr = d.usbHubPtr) : Stays d d' := by
  rw [Stays, hhub]
  cases d.usbHubPtr with
  | none => exact .none
  | some hub => exact .some (.refl hub)

theorem Stays.refl (d : ClientDispatcher) : Stays d d := .of_hub rfl

theorem Stays.trans {d'' : ClientDispatcher} (h : Stays d d') (h' : Stays d' d'') : Stays d d'' := by
  unfold Stays at h h' ⊢
  generalize d.usbHubPtr = hub at h
  generalize d'.usbHubPtr = hub' at h h'
  generalize d''.usbHubPtr = hub'' at h'
  cases h with
  | none => exact h'
  | some hs =>
    cases h' with
    | some hs' => exact .some ⟨hs'.receives.trans hs.receives, fun i => (hs'.devices i).trans (hs.devices i)⟩

theorem Stays.standing (h : Stays d d') (i : ℤ) : standing d' i = standing d i := by
  unfold Stays at h
  unfold HubEvents.standing
  generalize d.usbHubPtr = hub at h
  generalize d'.usbHubPtr = hub' at h
  cases h with
  | none => rfl
  | some hs =>
    have hfst := congrArg (Option.map Prod.fst) (hs.devices i)
    rw [Option.map_map, Option.map_map] at hfst
    exact hfst

theorem onHub_stays {f : USBHub → Option USBHub} (hf : ∀ h h', f h = some h' → Still h h')
    (hrun : d.onHub f = some d') : Stays d d' := by
  rcases onHub_cases hrun with ⟨-, rfl⟩ | ⟨hub, hub', hhub, hput, rfl⟩
  · exact .refl d'
  · rw [Stays, hhub]
    exact .some (hf hub hub' hput)

theorem sendPacket_stays {type : PacketType} {clientid data : Bytes}
    (hrun : d.onHub (·.sendPacket type clientid data) = some d') : Stays d d' :=
  onHub_stays (fun _ _ h => onClient_still (seen_send type data) h) hrun

theorem sendMessage_stays {channel : UInt16} {msg : Messages.Message} {size : UInt32}
    {type : UInt16} {clientid : Bytes}
    (hrun : d.sendMessage env clientid msg channel size type = some d') : Stays d d' :=
  onHub_stays (fun _ _ h => onClient_still (seen_send2 _ _ _) h) hrun

theorem sendConnectForUnkownUSBDevice_stays {deviceID : ℤ}
    (hrun : d.sendConnectForUnkownUSBDevice env deviceID = some d') : Stays d d' :=
  onHub_stays (fun _ _ hs => (onDevice_still (seen_send _ _) hs).of_hand) hrun

theorem dispatchMessage_stays {channel : UInt16} {msg : Messages.Message} {size : UInt32}
    {type : UInt16} (hrun : d.dispatchMessage env channel msg size type = some d') :
    Stays d d' := by
  rw [Outgoing.dispatchMessage_eq] at hrun
  exact Run.relates_of_foldlM .refl .trans (fun _ _ _ _ hsend => sendMessage_stays hsend) hrun

theorem subscribeRequest_stays (channel : UInt16) : Stays d (d.subscribeRequest channel) := by
  unfold Stays subscribeRequest sendSubscribeRequest
  cases d.usbHubPtr with
  | none => exact .none
  | some hub =>
    refine .some ⟨rfl, fun i => ?_⟩
    change ((hub.devices.mapValues fun c =>
      c.send .subscribeRequest (SubscribeRequestPacketHeader.mk channel).bytes).find? i).map seen = _
    rw [OrderedMap.find?_mapValues, Option.map_map]
    exact congrArg (Option.map · (hub.devices.find? i)) (funext fun c => seen_send _ _ c)

theorem keepAliveCheck_stays (hrun : d.keepAliveCheck env = some d') : Stays d d' := by
  unfold keepAliveCheck at hrun
  split_ifs at hrun
  · obtain ⟨d₁, hloop, hrun⟩ := Option.bind_eq_some_iff.mp hrun
    rw [← Option.some.inj hrun]
    have hstays : Stays d d₁ := by
      refine Run.relates_of_foldlM .refl .trans (fun e _ d d' he => ?_) hloop
      simp only at he
      split_ifs at he
      · obtain ⟨d₂, hsend, rfl⟩ := Option.map_eq_some_iff.mp he
        have hsent : Stays d d₂ := sendPacket_stays (d := d.touch e.1) hsend
        exact hsent
      · rw [← Option.some.inj he]
        exact .refl d
    exact hstays
  · rw [← Option.some.inj hrun]
    exact .refl d

end

def Wired (d : ClientDispatcher) : Prop := ∀ h ∈ d.usbHubPtr, h.receivedPacketCallback = true ∧
  ∀ i c, h.devices.find? i = some c → c.packetReceivedCallback = true

theorem Stays.wired {d d' : ClientDispatcher} (h : Stays d d') (hwired : Wired d) : Wired d' := by
  unfold Stays at h
  unfold Wired at hwired ⊢
  generalize d.usbHubPtr = hub at h hwired
  generalize d'.usbHubPtr = hub' at h
  cases h with
  | none => exact hwired
  | @some h h' hs =>
    rintro _ ⟨⟩
    obtain ⟨hreceives, hdevices⟩ := hwired h rfl
    refine ⟨hs.receives.trans hreceives, fun i c hc => ?_⟩
    have hseen := hs.devices i
    rw [hc, Option.map_some, eq_comm, Option.map_eq_some_iff] at hseen
    obtain ⟨c₀, hc₀, hsame⟩ := hseen
    exact (congrArg Prod.snd hsame).symm.trans (hdevices i c₀ hc₀)

section
variable {σ : Type} {env : Env} {app : Application σ} {r r' : ClientDispatcher × (σ × List Update)}
  {mem : Bytes}

def Announces (type : UInt32) : Prop :=
  type = PacketType.connect.code ∨ type = PacketType.connectAck.code

structure Quiet (told : Option Bytes) (r r' : ClientDispatcher × (σ × List Update)) : Prop where
  stays : Stays r.1 r'.1
  updates : ∀ n, lastUpdate n r'.2.2 =
    if told = some n then some .connected else lastUpdate n r.2.2

theorem Quiet.of_same (hstays : Stays r.1 r'.1) (hupdates : r'.2.2 = r.2.2) :
    Quiet none r r' := by
  refine ⟨hstays, fun n => ?_⟩
  rw [hupdates, if_neg (by simp)]

theorem Quiet.refl (r : ClientDispatcher × (σ × List Update)) : Quiet none r r :=
  .of_same (.refl _) rfl

theorem Quiet.trans {r'' : ClientDispatcher × (σ × List Update)} (h : Quiet none r r')
    (h' : Quiet none r' r'') : Quiet none r r'' := by
  refine ⟨h.stays.trans h'.stays, fun n => ?_⟩
  rw [h'.updates, if_neg (by simp), h.updates]

theorem deviceStatus_quiet {deviceID : ℤ} {status : Messages.Status}
    (h : r.1.callbackUSBDeviceStatusChanged env (recording app) deviceID status r.2 = some r') :
    Quiet none r r' := by
  cases status with
  | attached | detached =>
    rw [← Option.some.inj h]
    refine ⟨.refl _, fun n => ?_⟩
    rw [recording, lastUpdate_append, if_neg (by simp), if_neg (by simp)]
  | connected =>
    obtain ⟨d', hsend, rfl⟩ := Option.map_eq_some_iff.mp h
    exact .of_same (sendConnectForUnkownUSBDevice_stays hsend) rfl
  | disconnected =>
    rw [← Option.some.inj h]
    exact .of_same (.refl _) rfl

theorem deviceStatuses_quiet {us : List USBHub.Upcall}
    (hus : ∀ u ∈ us, ∃ deviceID status, u = .deviceStatus deviceID status)
    (h : (us.foldlM (upcall env (recording app)) r mem).value = some r') : Quiet none r r' := by
  rw [Reading.foldlM_value] at h
  refine Run.relates_of_foldlM .refl .trans (fun u hu r r' hr => ?_) h
  obtain ⟨deviceID, status, rfl⟩ := hus u hu
  rw [upcall, Reading.ofOption_value] at hr
  exact deviceStatus_quiet hr

theorem announced_quiet (clientid : Bytes) {d' : ClientDispatcher} (hstays : Stays r.1 d') :
    Quiet (some clientid)
      r (d', (recording app).didReceiveUpdateMsg clientid .connected r.2) := by
  refine ⟨hstays, fun n => ?_⟩
  rw [recording, lastUpdate_append]
  simp

theorem packet_announces {clientid : Bytes} {type : UInt32} {length : ℕ} (htype : Announces type)
    (h : (r.1.multiplexIncomingPacket env (recording app) clientid type length r.2 mem).value =
      some r') : Quiet (some clientid) r r' := by
  have hhandled := Handled.of_value h
  rcases htype with rfl | rfl
  · rw [PacketType.ofCode?_code] at hhandled
    cases hhandled with
    | @connect channels d' hsend =>
      have hsent : Stays (r.1.setClient clientid ⟨clientid, env.now, channels⟩) d' :=
        sendPacket_stays hsend
      exact announced_quiet clientid hsent
    | ignored hnot =>
      have hlooks := hnot _ rfl
      contradiction
  · rw [PacketType.ofCode?_code] at hhandled
    cases hhandled with
    | connectAck channels => exact announced_quiet clientid (.of_hub rfl)
    | ignored hnot =>
      have hlooks := hnot _ rfl
      contradiction

theorem packet_quiet {clientid : Bytes} {type : UInt32} {length : ℕ} (htype : ¬ Announces type)
    (h : (r.1.multiplexIncomingPacket env (recording app) clientid type length r.2 mem).value =
      some r') : Quiet none r r' := by
  have hhandled := Handled.of_value h
  generalize ho : PacketType.ofCode? type = o at hhandled
  cases hhandled with
  | message hs' =>
    simp only [recording, Reading.bind_value] at hs'
    obtain ⟨a, -, hs'⟩ := Option.bind_eq_some_iff.mp hs'
    rw [← Option.some.inj hs']
    exact .of_same (.of_hub rfl) rfl
  | subscribeRequest channel => exact .of_same (.of_hub rfl) rfl
  | @keepAliveRequest d' hsend =>
    have hsent : Stays (r.1.updateKeepAliveTime env clientid) d' := sendPacket_stays hsend
    exact .of_same hsent rfl
  | keepAliveResponse => exact .of_same (.of_hub rfl) rfl
  | connect channels hsend => exact absurd (Or.inl (PacketType.code_of_ofCode? ho)) htype
  | connectAck channels => exact absurd (Or.inr (PacketType.code_of_ofCode? ho)) htype
  | ignored _ => exact .refl _

end

end SwiftRobot.HubEvents
