import SwiftRobot.HubEvents
import SwiftRobot.KeepAliveDrops

/-!
# What an event does to the connections

An event gives one connection a new name and status, or takes all of them down, or leaves
them alone.
-/

namespace SwiftRobot.ConnectionMoves
open ByteWords Reading PacketHeaders Plist Connection ClientDispatcher HubEvents
open DispatcherRuns hiding Event Step

theorem disconnect_status (c : Connection) : c.disconnect.1.status = .idle := by
  unfold Connection.disconnect
  split_ifs with hidle
  · rfl
  · rfl
  · exact not_not.mp hidle

theorem seen_disconnect (c : Connection) : c.disconnect.1.name = c.name ∧
    c.disconnect.1.packetReceivedCallback = c.packetReceivedCallback := by
  unfold Connection.disconnect
  split_ifs
  · exact ⟨rfl, rfl⟩
  · exact ⟨rfl, rfl⟩
  · exact ⟨rfl, rfl⟩

section
variable {σ : Type} {lib : Library} {env : Env} {app : Application σ} {s : State (σ × List Update)}
  {r r' : ClientDispatcher × (σ × List Update)} {told : Option Bytes} {mem : Bytes}

structure Moves (told : Option Bytes) (i : ℤ) (v : Bytes × ConnectionStatus)
    (r r' : ClientDispatcher × (σ × List Update)) : Prop where
  standing : ∀ j, standing r'.1 j = if j = i then some v else standing r.1 j
  updates : ∀ n, lastUpdate n r'.2.2 =
    if told = some n then some .connected else lastUpdate n r.2.2
  wired : Wired r.1 → Wired r'.1

theorem Moves.of_set {d d₁ : ClientDispatcher} {a : σ × List Update} {hub : USBHub} {i : ℤ}
    {c : Connection} (hhub : d.usbHubPtr = some hub) (hc : Wired d → c.packetReceivedCallback = true)
    (hq : Quiet told (d₁, a) r') (hd₁ : d₁.usbHubPtr = some (hub.setDevice i c)) :
    Moves told i (c.name, c.status) (d, a) r' := by
  refine ⟨fun j => ?_, hq.updates, fun hwired => hq.stays.wired fun h' hh' => ?_⟩
  · rw [hq.stays.standing, HubEvents.standing, HubEvents.standing, hhub, hd₁]
    simp only [Option.bind_some, USBHub.setDevice, OrderedMap.find?_insert]
    split_ifs <;> rfl
  · obtain rfl := Option.some.inj (hd₁.symm.trans hh')
    refine ⟨(hwired hub hhub).1, fun j c' hc' => ?_⟩
    simp only [USBHub.setDevice, OrderedMap.find?_insert] at hc'
    split_ifs at hc'
    · rw [← Option.some.inj hc']
      exact hc hwired
    · exact (hwired hub hhub).2 j c' hc'

theorem broadcastReceived_cases {captured : ℤ} {plist_message : Dictionary} {h : USBHub}
    {r : USBHub × List USBHub.Upcall}
    (hr : h.broadcastReceived lib captured plist_message = some r) :
    (concerned? plist_message = none ∧ r = (h, [])) ∨ ∃ i ∈ concerned? plist_message, ∃ c,
      r.1 = h.setDevice i c ∧ c.status ≠ .connected ∧
      (c.packetReceivedCallback = h.receivedPacketCallback ∨ ∃ c₀, h.devices.find? i = some c₀ ∧
        c.packetReceivedCallback = c₀.packetReceivedCallback) ∧
      ∀ u ∈ r.2, ∃ deviceID status, u = .deviceStatus deviceID status := by
  have hother : text "Result" ≠ text "Attached" ∧ text "Result" ≠ text "Detached" ∧
      text "Detached" ≠ text "Attached" := by decide
  unfold concerned?
  cases USBHub.Broadcast.of_received hr with
  | result htype _ =>
    rw [htype, if_neg fun h => hother.1 (Option.some.inj h),
      if_neg fun h => hother.2.1 (Option.some.inj h)]
    exact Or.inl ⟨rfl, rfl⟩
  | attached htype hdevice =>
    have hdown : ConnectionStatus.connecting ≠ .connected := by decide
    rw [if_pos htype, hdevice]
    refine Or.inr ⟨_, rfl, _, rfl, hdown, Or.inl rfl, fun u hu => ?_⟩
    simp only [USBHub.createDevice] at hu
    split_ifs at hu
    · exact ⟨_, _, List.mem_singleton.mp hu⟩
    · exact absurd hu List.not_mem_nil
  | @detached device_id c htype hid hc =>
    have hdown : c.disconnect.1.status ≠ .connected := by
      rw [disconnect_status]
      decide
    rw [htype, if_neg fun h => hother.2.2 (Option.some.inj h), if_pos rfl, hid]
    refine Or.inr ⟨_, rfl, _, rfl, hdown, Or.inr ⟨c, hc, (seen_disconnect c).2⟩, fun u hu => ?_⟩
    rcases List.mem_append.mp hu with hu | hu
    · obtain ⟨deviceID, rfl⟩ := reports_disconnect h captured c u hu
      exact ⟨_, _, rfl⟩
    · split_ifs at hu
      · exact ⟨_, _, List.mem_singleton.mp hu⟩
      · exact absurd hu List.not_mem_nil
  | other htype _ hattached hdetached =>
    rw [htype, if_neg fun h => hattached (Option.some.inj h),
      if_neg fun h => hdetached (Option.some.inj h)]
    exact Or.inl ⟨rfl, rfl⟩

theorem broadcast_effect {plist_message : Dictionary}
    (h : perform lib (recording app) env s (.broadcast plist_message) = some r') :
    (Quiet none (s.dispatcher, s.app) r' ∧
      ∀ i ∈ concerned? plist_message, standing s.dispatcher i = none) ∨
    ∃ i ∈ concerned? plist_message, ∃ v, v.2 ≠ .connected ∧
      Moves none i v (s.dispatcher, s.app) r' := by
  rcases hubStep_eq h with ⟨hhub, rfl⟩ | ⟨hub, r₁, hhub, h₁, h₂⟩
  · refine Or.inl ⟨.of_same (.refl _) rfl, fun i _ => ?_⟩
    rw [standing, hhub]
    rfl
  · rw [Reading.ofOption_value] at h₁
    rcases broadcastReceived_cases h₁ with ⟨hnone, rfl⟩ | ⟨i, hi, c, hset, hdown, hwired, hus⟩
    · refine Or.inl ⟨?_, fun i hi => ?_⟩
      · rw [← Option.some.inj h₂]
        exact .of_same (.of_hub hhub.symm) rfl
      · rw [hnone] at hi
        contradiction
    · refine Or.inr ⟨i, hi, (c.name, c.status), hdown,
        .of_set hhub (fun hd => ?_) (deviceStatuses_quiet hus h₂) (congrArg some hset)⟩
      obtain ⟨hreceives, hdevices⟩ := hd hub hhub
      rcases hwired with hcallback | ⟨c₀, hc₀, hcallback⟩
      · exact hcallback.trans hreceives
      · exact hcallback.trans (hdevices i c₀ hc₀)

def afterResult (code : Option Int32) (status : ConnectionStatus) : ConnectionStatus :=
  if code = some usbMuxReplyCodeOK then .connected
  else if code = some usbMuxReplyCodeConnectionRefused then .wantingConnection
  else status

theorem plistReceived_cases {plist_message : Dictionary} {c : Connection}
    {q : Connection × Connection.Upcall} (hq : c.plistReceived plist_message = some q) :
    seen q.1 = ((c.name, afterResult (result? plist_message) c.status), c.packetReceivedCallback) ∧
      (q.2 = .silent ∨ q.2 = .connectionStatus c.name true) := by
  obtain ⟨type, htype, ⟨hresult, number, hnumber, rfl⟩ | ⟨hresult, rfl⟩⟩ := plistReceived_some hq
  · rw [result?, htype, if_pos (congrArg some hresult), hnumber, Option.map_some]
    unfold resultReceived afterResult
    simp only [Option.some.injEq]
    split_ifs with hok hrefused
    · refine ⟨rfl, ?_⟩
      unfold connectedRoutine
      split_ifs
      · exact Or.inr rfl
      · exact Or.inl rfl
    · exact ⟨rfl, Or.inl rfl⟩
    · exact ⟨rfl, Or.inl rfl⟩
  · rw [result?, htype, if_neg fun hsome => hresult (Option.some.inj hsome)]
    exact ⟨rfl, Or.inl rfl⟩

theorem raise_deviceStatus {hub : USBHub} {captured : ℤ} {u : Connection.Upcall}
    (hu : u = .silent ∨ ∃ name connected, u = .connectionStatus name connected) :
    ∀ v ∈ hub.raise captured u, ∃ deviceID status, v = .deviceStatus deviceID status := by
  intro v hv
  rcases hu with rfl | ⟨name, connected, rfl⟩
  · exact absurd hv List.not_mem_nil
  · simp only [USBHub.raise] at hv
    split_ifs at hv
    · exact ⟨_, _, List.mem_singleton.mp hv⟩
    · exact ⟨_, _, List.mem_singleton.mp hv⟩
    · exact absurd hv List.not_mem_nil

theorem plist_effect {i : ℤ} {plist_message : Dictionary}
    (h : perform lib (recording app) env s (.plist i plist_message) = some r') :
    (Quiet none (s.dispatcher, s.app) r' ∧ standing s.dispatcher i = none) ∨
    ∃ name status, standing s.dispatcher i = some (name, status) ∧
      Moves none i (name, afterResult (result? plist_message) status) (s.dispatcher, s.app) r' := by
  rcases hubStep_eq h with ⟨hhub, rfl⟩ | ⟨hub, r₁, hhub, h₁, h₂⟩
  · refine Or.inl ⟨.of_same (.refl _) rfl, ?_⟩
    rw [standing, hhub]
    rfl
  · rw [Reading.ofOption_value] at h₁
    simp only [HubEvents.plistReceived, Option.bind_eq_bind, Option.bind_eq_some_iff] at h₁
    obtain ⟨c, hc, q, hq, hr₁⟩ := h₁
    obtain ⟨hseen, hup⟩ := plistReceived_cases hq
    rw [← Option.some.inj hr₁] at h₂
    have hquiet := deviceStatuses_quiet
      (raise_deviceStatus (hup.imp_right fun h => ⟨_, _, h⟩)) h₂
    refine Or.inr ⟨c.name, c.status, ?_, ?_⟩
    · rw [standing, hhub, Option.bind_some, hc]
      rfl
    · have hmoves := Moves.of_set hhub (fun hd => ?_) hquiet rfl
      · rw [show (q.1.name, q.1.status) = _ from congrArg Prod.fst hseen] at hmoves
        exact hmoves
      · exact (congrArg Prod.snd hseen).trans ((hd hub hhub).2 i c hc)

theorem frame_received {c : Connection} {q : Connection × Connection.Upcall} {type : UInt32}
    {payload : Bytes} {size : ℕ}
    (hq : ((c.messageReceived lib (HubRouting.swiftRobotHeader type payload) size) mem).value =
      some q) :
    (¬ Announces type ∧ q = c.packetReceived type size) ∨ Announces type ∧
      ∃ name ∈ ((cstring 0) mem).value, q = { c with name := name }.packetReceived type size := by
  have hprotocol : (HubRouting.swiftRobotHeader type payload).protocol =
      swiftRobotPacketProtocol := rfl
  cases Received.of_value hq with
  | plist hplist _ _ => exact absurd hplist (not_plist_of_robot hprotocol)
  | unreadable hplist _ => exact absurd hplist (not_plist_of_robot hprotocol)
  | named _ htype hname => exact Or.inr ⟨htype, _, hname, rfl⟩
  | packet _ htype => exact Or.inl ⟨htype, rfl⟩
  | ignored _ hrobot => exact absurd hprotocol hrobot

theorem frame_effect {i : ℤ} {type : UInt32} {payload tail : Bytes} (hwired : Wired s.dispatcher)
    (h : perform lib (recording app) env s (.frame i type payload tail) = some r') :
    (Quiet none (s.dispatcher, s.app) r' ∧
      (Announces type → standing s.dispatcher i = none)) ∨
    Announces type ∧ ∃ old status, standing s.dispatcher i = some (old, status) ∧
      ∃ name ∈ ((cstring 0) (payload ++ tail)).value,
        Moves (some name) i (name, status) (s.dispatcher, s.app) r' := by
  rcases hubStep_eq h with ⟨hhub, rfl⟩ | ⟨hub, r₁, hhub, h₁, h₂⟩
  · refine Or.inl ⟨.of_same (.refl _) rfl, fun _ => ?_⟩
    rw [standing, hhub]
    rfl
  · simp only [USBHub.messageReceived, bind_value, ofOption_value, pure_value,
      Option.bind_eq_some_iff] at h₁
    obtain ⟨c, hc, q, hq, hr₁⟩ := h₁
    rw [← Option.some.inj hr₁] at h₂
    have hcallback := (hwired hub hhub).2 i c hc
    have hstanding : standing s.dispatcher i = some (c.name, c.status) := by
      rw [standing, hhub, Option.bind_some, hc]
      rfl
    rcases frame_received hq with ⟨htype, rfl⟩ | ⟨htype, name, hname, rfl⟩
    · refine Or.inl ⟨?_, fun hannounces => absurd hannounces htype⟩
      have hsame : hub.setDevice i (c.packetReceived type payload.length).1 = hub := by
        have hinsert := hub.devices.insert_of_find? hc
        simp only [USBHub.setDevice, packetReceived, hinsert]
      rw [hsame] at h₂
      rw [packetReported_value, if_pos hcallback] at h₂
      have hquiet := packet_quiet htype h₂
      exact ⟨Stays.trans (.of_hub hhub.symm) hquiet.stays, hquiet.updates⟩
    · rw [packetReported_value, if_pos hcallback] at h₂
      have hquiet := packet_announces htype h₂
      exact Or.inr ⟨htype, c.name, c.status, hstanding, name, hname,
        .of_set (c := { c with name := name }) hhub (fun _ => hcallback) hquiet rfl⟩

def DropsNone (s : State (σ × List Update)) (env : Env) (k : ℕ) : Prop :=
  ∀ clientid, KeepAliveDrops.Disconnects s env k clientid →
    ∀ h ∈ s.dispatcher.usbHubPtr, ¬ 0 ≤ h.getDeviceIDForClientID clientid

theorem closure_effect {k : ℕ} (h : perform lib (recording app) env s (.closure k) = some r') :
    (Quiet none (s.dispatcher, s.app) r' ∧ DropsNone s env k) ∨
    ∃ clientid, KeepAliveDrops.Disconnects s env k clientid ∧ ∃ hub ∈ s.dispatcher.usbHubPtr,
      0 ≤ hub.getDeviceIDForClientID clientid ∧ ∃ name,
        Moves none (hub.getDeviceIDForClientID clientid) (name, .idle) (s.dispatcher, s.app) r' := by
  obtain ⟨task, hdue, h⟩ := Option.bind_eq_some_iff.mp h
  have hwait : ∀ {clientid}, KeepAliveDrops.Disconnects s env k clientid →
      task = .keepAliveWait clientid := by
    intro clientid hd
    exact Option.some.inj (hdue.symm.trans hd.due)
  cases task with
  | keepAliveCheck =>
    simp only [runTask, bind_value, ofOption_value] at h
    obtain ⟨d', hcheck, h⟩ := Option.bind_eq_some_iff.mp h
    rw [← Option.some.inj h]
    exact Or.inl ⟨.of_same (keepAliveCheck_stays hcheck) rfl,
      fun clientid hd => absurd (hwait hd) (by simp)⟩
  | keepAliveWait clientid =>
    simp only [runTask, keepAliveWait] at h
    by_cases hdrops : KeepAliveDrops.Disconnects s env k clientid
    · rw [if_pos hdrops.running, isTimedOut, client_touch, ← isTimedOut, if_pos hdrops.timedOut] at h
      rcases hubStep_eq h with ⟨hhub, rfl⟩ | ⟨hub, r₁, hhub, h₁, h₂⟩
      · refine Or.inl ⟨.of_same (.of_hub rfl) rfl, fun clientid _ hub hhub' => ?_⟩
        rw [show s.dispatcher.usbHubPtr = none from hhub] at hhub'
        contradiction
      · have hhub' : s.dispatcher.usbHubPtr = some hub := hhub
        rw [ofOption_value, USBHub.disconnect] at h₁
        split_ifs at h₁ with hid
        · obtain ⟨c, hc, rfl⟩ := Option.map_eq_some_iff.mp h₁
          have hquiet := deviceStatuses_quiet (fun u hu => ?_) h₂
          · have hmoves := Moves.of_set (d := s.dispatcher) hhub' (fun hd => ?_) hquiet rfl
            · rw [disconnect_status] at hmoves
              exact Or.inr ⟨clientid, hdrops, hub, hhub', hid, _, hmoves⟩
            · exact (seen_disconnect c).2.trans ((hd hub hhub').2 _ c hc)
          · obtain ⟨deviceID, rfl⟩ := reports_disconnect hub env.captured c u hu
            exact ⟨_, _, rfl⟩
        · rw [← Option.some.inj h₁] at h₂
          rw [← Option.some.inj h₂]
          refine Or.inl ⟨.of_same (.of_hub hhub'.symm) rfl, fun clientid' hd hub' hh' => ?_⟩
          obtain rfl := Task.keepAliveWait.inj (hwait hd)
          obtain rfl := Option.some.inj (hhub'.symm.trans hh')
          exact hid
    · have hnone : DropsNone s env k := by
        intro clientid' hd
        obtain rfl := Task.keepAliveWait.inj (hwait hd)
        exact absurd hd hdrops
      refine Or.inl ⟨?_, hnone⟩
      split_ifs at h with hrunning htimed
      · rw [isTimedOut, client_touch, ← isTimedOut] at htimed
        exact absurd ⟨hdue, hrunning, htimed⟩ hdrops
      · rw [← Option.some.inj h]
        exact .of_same (.of_hub rfl) rfl
      · rw [← Option.some.inj h]
        exact .of_same (.refl _) rfl

theorem stop_effect (h : perform lib (recording app) env s .stop = some r') :
    (s.dispatcher.connection_type ≠ .usb ∧ Quiet none (s.dispatcher, s.app) r') ∨
    s.dispatcher.connection_type = .usb ∧ (∀ j n, standing r'.1 j ≠ some (n, .connected)) ∧
      (∀ n, lastUpdate n r'.2.2 = lastUpdate n s.app.2) ∧ (Wired s.dispatcher → Wired r'.1) := by
  have hrun : (s.dispatcher.stop env (recording app) s.app []).value = some r' := h
  unfold ClientDispatcher.stop at hrun
  split_ifs at hrun with husb
  · refine Or.inr ⟨husb, ?_⟩
    rcases hubStep_eq hrun with ⟨hhub, rfl⟩ | ⟨hub, r₁, hhub, h₁, h₂⟩
    · refine ⟨fun j n => ?_, fun _ => rfl, id⟩
      rw [standing, hhub]
      exact nofun
    · obtain rfl := Option.some.inj h₁
      have hquiet := deviceStatuses_quiet (fun u hu => ?_) h₂
      · refine ⟨fun j n => ?_, fun n => ?_, fun hwired => hquiet.stays.wired ?_⟩
        · rw [hquiet.stays.standing, standing]
          simp only [USBHub.close, Option.bind_some, OrderedMap.find?_mapValues, Option.map_map]
          intro hj
          obtain ⟨c, -, hc⟩ := Option.map_eq_some_iff.mp hj
          have hidle := congrArg Prod.snd hc
          simp only [Function.comp_apply, disconnect_status] at hidle
          contradiction
        · rw [hquiet.updates, if_neg (by simp)]
        · rintro _ ⟨⟩
          refine ⟨(hwired hub hhub).1, fun j c hc => ?_⟩
          simp only [USBHub.close, OrderedMap.find?_mapValues] at hc
          obtain ⟨c₀, hc₀, rfl⟩ := Option.map_eq_some_iff.mp hc
          exact (seen_disconnect c₀).2.trans ((hwired hub hhub).2 j c₀ hc₀)
      · obtain ⟨e, -, hu⟩ := List.mem_flatMap.mp hu
        obtain ⟨deviceID, rfl⟩ := reports_disconnect hub env.captured e.2 u hu
        exact ⟨_, _, rfl⟩
  · rw [← Option.some.inj hrun]
    exact Or.inl ⟨husb, .of_same (.refl _) rfl⟩

theorem start_stays (d : ClientDispatcher) : Stays d (d.start env lib) := by
  unfold ClientDispatcher.start
  split
  next hub htype hhub =>
    rw [USBHub.startLookingForConnections]
    split_ifs
    · exact .refl d
    · rw [Stays, hhub]
      exact .some ⟨rfl, fun _ => rfl⟩
  next => exact .refl d

end

section
variable {σ : Type} {lib : Library} {env : Env} {app : Application σ} {s : State (σ × List Update)}
  {header : SocketClient.PacketHeader} {size : ℕ} {mem : Bytes} {plist_message : Dictionary}

theorem deviceStatuses_value {us : List USBHub.Upcall}
    (hus : ∀ u ∈ us, ∃ deviceID status, u = .deviceStatus deviceID status)
    (r : ClientDispatcher × (σ × List Update)) :
    (us.foldlM (upcall env (recording app)) r mem).value =
      (us.foldlM (upcall env (recording app)) r []).value := by
  induction us generalizing r with
  | nil => rfl
  | cons u us ih =>
    obtain ⟨⟨deviceID, status, rfl⟩, hrest⟩ := List.forall_mem_cons.mp hus
    rw [List.foldlM_cons, bind_value, bind_value, upcall, ofOption_value, ofOption_value]
    exact Option.bind_congr fun r _ => ih hrest r

theorem hubStep_value {f : USBHub → Reading (USBHub × List USBHub.Upcall)}
    {g : USBHub → Option (USBHub × List USBHub.Upcall)}
    (hfg : ∀ h, (f h mem).value = g h) (hg : ∀ h r, g h = some r →
      ∀ u ∈ r.2, ∃ deviceID status, u = .deviceStatus deviceID status) :
    (s.dispatcher.hubStep env (recording app) f s.app mem).value =
      (s.dispatcher.hubStep env (recording app) (fun h => ofOption (g h)) s.app []).value := by
  unfold hubStep
  cases s.dispatcher.usbHubPtr with
  | none => rfl
  | some h =>
    simp only [bind_value, ofOption_value, hfg]
    exact Option.bind_congr fun r hr => deviceStatuses_value (hg h r hr) _

theorem broadcast_frame (hprotocol : header.protocol = usbMuxPacketProtocolPlist)
    (hparse : (readPlist lib size mem).value = some (some plist_message)) :
    (s.dispatcher.broadcastReceived env (recording app) lib header size s.app mem).value =
      perform lib (recording app) env s (.broadcast plist_message) := by
  refine hubStep_value (fun h => ?_) fun h r hr => ?_
  · rw [USBHub.broadcastHandler, if_pos hprotocol, bind_value, hparse]
    exact ofOption_value _ _
  · rcases broadcastReceived_cases hr with ⟨-, rfl⟩ | ⟨i, -, c, -, -, -, hus⟩
    · exact fun u hu => absurd hu List.not_mem_nil
    · exact hus

theorem plist_frame {i : ℤ} (hprotocol : header.protocol = usbMuxPacketProtocolPlist)
    (hparse : (readPlist lib size mem).value = some (some plist_message)) :
    (s.dispatcher.messageReceived env (recording app) lib i header size s.app mem).value =
      perform lib (recording app) env s (.plist i plist_message) := by
  refine hubStep_value (fun h => ?_) fun h r hr => ?_
  · simp only [USBHub.messageReceived, Connection.messageReceived, if_pos hprotocol, bind_value,
      hparse, ofOption_value, Option.bind_some, HubEvents.plistReceived, Option.bind_eq_bind]
    rfl
  · simp only [HubEvents.plistReceived, Option.bind_eq_bind, Option.bind_eq_some_iff] at hr
    obtain ⟨c, -, q, hq, hr⟩ := hr
    rw [← Option.some.inj hr]
    exact raise_deviceStatus ((plistReceived_cases hq).2.imp_right fun h => ⟨_, _, h⟩)

end

section
variable {σ : Type} {n : Bytes} {s u : State (σ × List Update)}

def pair (s : State (σ × List Update)) : ClientDispatcher × (σ × List Update) :=
  (s.dispatcher, s.app)

def Up (n : Bytes) (s : State (σ × List Update)) : Prop :=
  ∃ i, standing s.dispatcher i = some (n, .connected)

theorem Moves.updates_of_ne {told : Option Bytes} {i : ℤ} {v : Bytes × ConnectionStatus}
    (h : Moves told i v (pair s) (pair u)) (htold : told ≠ some n) :
    lastUpdate n u.app.2 = lastUpdate n s.app.2 := by
  have hupdates := h.updates n
  rw [if_neg htold] at hupdates
  exact hupdates

theorem Moves.updates_self {i : ℤ} {v : Bytes × ConnectionStatus}
    (h : Moves (some n) i v (pair s) (pair u)) : lastUpdate n u.app.2 = some .connected := by
  have hupdates := h.updates n
  rw [if_pos rfl] at hupdates
  exact hupdates

theorem Moves.standing_iff {told : Option Bytes} {i : ℤ} {v : Bytes × ConnectionStatus}
    (h : Moves told i v (pair s) (pair u)) {j : ℤ} (hj : j ≠ i) :
    HubEvents.standing u.dispatcher j = HubEvents.standing s.dispatcher j := by
  have hstanding := h.standing j
  rw [if_neg hj] at hstanding
  exact hstanding

theorem Moves.standing_self {told : Option Bytes} {i : ℤ} {v : Bytes × ConnectionStatus}
    (h : Moves told i v (pair s) (pair u)) : HubEvents.standing u.dispatcher i = some v := by
  have hstanding := h.standing i
  rw [if_pos rfl] at hstanding
  exact hstanding

theorem Moves.up_iff {told : Option Bytes} {i : ℤ} {v : Bytes × ConnectionStatus}
    (h : Moves told i v (pair s) (pair u))
    (hi : HubEvents.standing s.dispatcher i = some (n, .connected) ↔ v = (n, .connected)) :
    Up n u ↔ Up n s := by
  refine exists_congr fun j => ?_
  by_cases hj : j = i
  · rw [hj, h.standing_self, hi, Option.some.injEq]
  · rw [h.standing_iff hj]

theorem Moves.not_up {told : Option Bytes} {i : ℤ} {v : Bytes × ConnectionStatus}
    (h : Moves told i v (pair s) (pair u))
    (hv : v ≠ (n, .connected))
    (hsingle : ∀ j, HubEvents.standing s.dispatcher j = some (n, .connected) → j = i) :
    ¬ Up n u := by
  rintro ⟨j, hj⟩
  by_cases hji : j = i
  · rw [hji, h.standing_self, Option.some.injEq] at hj
    exact hv hj
  · rw [h.standing_iff hji] at hj
    exact hji (hsingle j hj)

end
end SwiftRobot.ConnectionMoves
