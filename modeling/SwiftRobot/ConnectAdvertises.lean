import SwiftRobot.DispatcherRuns

/-!
# What Connect says of the subscriptions

The list of the subscriptions only grows, in whatever order everything else happens. Connect
counts it in 16 bits: of more than 65535 entries the peer hears a first part only, and the
rest of the packet is never written.
-/

namespace SwiftRobot.ConnectAdvertises
open ByteWords PacketHeaders MessageConnectHeader ClientDispatcher DispatcherRuns

def subscribes : Event → List UInt16
  | .subscribeRequest channel => [channel]
  | _ => []

def subscribed (es : List (Env × Event)) : List UInt16 := es.flatMap fun e => subscribes e.2

inductive Sender
  | sendConnect (clientid : Bytes)
  | sendConnectForUnkownUSBDevice (deviceID : ℤ)
  | sendConnectAck (clientid : Bytes)

def Sender.packet (env : Env) (d : ClientDispatcher) : Sender → USBHub.Target × USBHub.Packet
  | .sendConnect clientid => (.client clientid, ⟨.connect, [d.connectPacket env]⟩)
  | .sendConnectForUnkownUSBDevice deviceID =>
    (.device deviceID, ⟨.connect, [d.connectPacket env]⟩)
  | .sendConnectAck clientid => (.client clientid, ⟨.connectAck, [d.connectPacket env]⟩)

/-- Whatever follows the packet in the peer's memory, it decodes to exactly these channels. -/
def Advertises (p : USBHub.Packet) (channels : List UInt16) : Prop :=
  ∀ tail, ∃ m, ((deserialize 0) (p.parts.flatten ++ tail)).value = some m ∧
    ∀ channel, channel ∈ m.channels ↔ channel ∈ channels

section
variable {σ : Type} {env : Env} {app : Application σ} {lib : Plist.Library}
  {d d' d'' : ClientDispatcher} {s : σ}

structure Kept (d d' : ClientDispatcher) : Prop where
  name : d'.globalServiceName = d.globalServiceName
  subscriptions : d'.clientChannelSubsciptions = d.clientChannelSubsciptions

theorem Kept.refl (d : ClientDispatcher) : Kept d d := ⟨rfl, rfl⟩

theorem Kept.trans (h : Kept d d') (h' : Kept d' d'') : Kept d d'' :=
  ⟨h'.name.trans h.name, h'.subscriptions.trans h.subscriptions⟩

theorem onHub_kept {f : USBHub → Option USBHub} (h : d.onHub f = some d') : Kept d d' := by
  rcases onHub_cases h with ⟨-, rfl⟩ | ⟨hub, hub', -, -, rfl⟩
  · exact .refl d'
  · exact ⟨rfl, rfl⟩

theorem hubStep_kept {f : USBHub → Reading (USBHub × List USBHub.Upcall)} {mem : Bytes}
    (hf : ∀ hub r, (f hub mem).value = some r → Reports r.2) {r : ClientDispatcher × σ}
    (h : (d.hubStep env app f s mem).value = some r) : Kept d r.1 := by
  rcases hubStep_same hf h with ⟨-, hr⟩ | ⟨hub, r₁, -, -, hr⟩
  · rw [hr]
    exact .refl d
  · rw [hr]
    exact ⟨rfl, rfl⟩

theorem packet_kept {clientid memory : Bytes} {type : UInt32} {length : ℕ}
    {r : ClientDispatcher × σ}
    (h : (d.multiplexIncomingPacket env app clientid type length s memory).value = some r) :
    Kept d r.1 := by
  have hset : ∀ c, Kept d (d.setClient clientid c) := fun _ => ⟨rfl, rfl⟩
  have hhandled := Handled.of_value h
  generalize PacketType.ofCode? type = kind at hhandled
  cases hhandled with
  | message _ => exact hset _
  | subscribeRequest channel => exact hset _
  | keepAliveRequest hd' => exact (hset _).trans (onHub_kept hd')
  | keepAliveResponse => exact hset _
  | connect channels hd' => exact (hset _).trans (onHub_kept hd')
  | connectAck channels => exact hset _
  | ignored _ => exact .refl d

theorem deviceStatus_kept {deviceID : ℤ} {status : Messages.Status} {r : ClientDispatcher × σ}
    (h : d.callbackUSBDeviceStatusChanged env app deviceID status s = some r) : Kept d r.1 := by
  cases status with
  | connected =>
    obtain ⟨d', hsend, rfl⟩ := Option.map_eq_some_iff.mp h
    exact onHub_kept hsend
  | attached | detached | disconnected =>
    rw [← Option.some.inj h]
    exact .refl d

theorem start_kept : Kept d (d.start env lib) := by
  unfold ClientDispatcher.start
  split
  next =>
    split
    · exact ⟨rfl, rfl⟩
    · exact .refl d
  next => exact .refl d

theorem stop_kept {mem : Bytes} {r : ClientDispatcher × σ}
    (h : (d.stop env app s mem).value = some r) : Kept d r.1 := by
  unfold stop at h
  split_ifs at h
  · exact hubStep_kept (fun _ _ hr => close_reports hr) h
  · rw [← Option.some.inj h]
    exact .refl d

theorem keepAliveCheck_kept (h : d.keepAliveCheck env = some d') : Kept d d' := by
  unfold keepAliveCheck at h
  split_ifs at h
  · obtain ⟨d₁, hloop, h⟩ := Option.bind_eq_some_iff.mp h
    have hkept : Kept d d₁ := by
      refine Run.relates_of_foldlM .refl .trans (fun e _ d d' hd => ?_) hloop
      have htouch : Kept d (d.touch e.1) := ⟨rfl, rfl⟩
      dsimp only at hd
      split_ifs at hd
      · obtain ⟨d₂, hsend, rfl⟩ := Option.map_eq_some_iff.mp hd
        exact (htouch.trans (onHub_kept hsend)).trans ⟨rfl, rfl⟩
      · rw [← Option.some.inj hd]
        exact htouch
    rw [← Option.some.inj h]
    exact hkept.trans ⟨rfl, rfl⟩
  · rw [← Option.some.inj h]
    exact .refl d

theorem closure_kept {task : Task} {mem : Bytes} {r : ClientDispatcher × σ}
    (h : (d.runTask env app task s mem).value = some r) : Kept d r.1 := by
  cases task with
  | keepAliveCheck =>
    simp only [runTask, Reading.bind_value, Reading.ofOption_value] at h
    obtain ⟨d', hcheck, h⟩ := Option.bind_eq_some_iff.mp h
    rw [← Option.some.inj h]
    exact keepAliveCheck_kept hcheck
  | keepAliveWait clientid =>
    have htouch : Kept d (d.touch clientid) := ⟨rfl, rfl⟩
    simp only [runTask, keepAliveWait] at h
    split_ifs at h
    · exact htouch.trans (hubStep_kept (fun _ _ hr => disconnect_reports hr) h)
    · rw [← Option.some.inj h]
      exact htouch
    · rw [← Option.some.inj h]
      exact .refl d

theorem perform_kept {st : State σ} {e : Event} {r : ClientDispatcher × σ}
    (h : st.perform lib app env e = some r) :
    r.1.globalServiceName = st.dispatcher.globalServiceName ∧
      r.1.clientChannelSubsciptions = st.dispatcher.clientChannelSubsciptions ++ subscribes e := by
  have hkept : Kept st.dispatcher r.1 → subscribes e = [] →
      r.1.globalServiceName = st.dispatcher.globalServiceName ∧
        r.1.clientChannelSubsciptions = st.dispatcher.clientChannelSubsciptions ++ subscribes e := by
    intro hk he
    rw [he, List.append_nil]
    exact ⟨hk.name, hk.subscriptions⟩
  cases e with
  | packet clientid type length memory => exact hkept (packet_kept h) rfl
  | deviceStatus deviceID status => exact hkept (deviceStatus_kept h) rfl
  | hub hub =>
    obtain ⟨hub₀, -, rfl⟩ := Option.map_eq_some_iff.mp h
    exact hkept ⟨rfl, rfl⟩ rfl
  | dispatchMessage channel msg size type =>
    obtain ⟨d', hd', rfl⟩ := Option.map_eq_some_iff.mp h
    rw [Outgoing.dispatchMessage_eq] at hd'
    have hloop : Kept st.dispatcher d' :=
      Run.relates_of_foldlM .refl .trans (fun _ _ _ _ hsend => onHub_kept hsend) hd'
    exact hkept hloop rfl
  | subscribeRequest channel =>
    rw [← Option.some.inj h]
    exact ⟨rfl, rfl⟩
  | start =>
    have hstart := Option.some.inj h
    exact hkept (hstart ▸ start_kept) rfl
  | stop => exact hkept (stop_kept h) rfl
  | closure i =>
    obtain ⟨task, -, h⟩ := Option.bind_eq_some_iff.mp h
    exact hkept (closure_kept h) rfl

theorem run_subscriptions {name : Bytes} {port : UInt16} {connection_type : ConnectionType}
    {es : List (Env × Event)} {st : State σ}
    (run : Run (Step lib app) (.initial name port connection_type s) es st) :
    st.dispatcher.globalServiceName = name ∧
      st.dispatcher.clientChannelSubsciptions = subscribed es := by
  refine run.history_invariant (I := fun es (t : State σ) => t.dispatcher.globalServiceName = name ∧
    t.dispatcher.clientChannelSubsciptions = subscribed es) (fun es t e u ih hstep => ?_) ⟨rfl, rfl⟩
  unfold Step State.advance at hstep
  split_ifs at hstep
  obtain ⟨r, hr, rfl⟩ := Option.map_eq_some_iff.mp hstep
  obtain ⟨hname, hlist⟩ := perform_kept hr
  refine ⟨hname.trans ih.1, ?_⟩
  rw [hlist, ih.2]
  simp [subscribed]

theorem packet_decodes (env : Env) (sender : Sender) (hname : 0 ∉ d.globalServiceName)
    (tail : Bytes) :
    ((deserialize 0) ((sender.packet env d).2.parts.flatten ++ tail)).value =
      some ⟨d.globalServiceName, UInt16.ofNat d.clientChannelSubsciptions.length,
        announced d.clientChannelSubsciptions⟩ := by
  have hparts : (sender.packet env d).2.parts.flatten = d.connectPacket env := by
    cases sender <;> exact List.append_nil _
  rw [hparts]
  exact deserialize_packet _ _ tail hname

/-- What is built for a peer advertises every subscription exactly when each of the `n` is
among the first `n % 65536`. -/
theorem advertises_iff {name : Bytes} (hname : 0 ∉ name) {port : UInt16}
    {connection_type : ConnectionType} {es : List (Env × Event)} {st : State σ}
    (run : Run (Step lib app) (.initial name port connection_type s) es st) (env : Env)
    (sender : Sender) :
    Advertises (sender.packet env st.dispatcher).2 (subscribed es) ↔
      ∀ channel ∈ subscribed es, channel ∈ announced (subscribed es) := by
  obtain ⟨hservice, hlist⟩ := run_subscriptions run
  have hdecodes := packet_decodes (d := st.dispatcher) env sender (by rwa [hservice])
  rw [hlist] at hdecodes
  constructor
  · intro hall channel hchannel
    obtain ⟨m, hm, hiff⟩ := hall []
    rw [hdecodes, Option.some.injEq] at hm
    rw [← hm] at hiff
    exact (hiff channel).mpr hchannel
  · intro hall tail
    exact ⟨_, hdecodes tail, fun channel => ⟨fun h => announced_subset _ h, hall channel⟩⟩

end

theorem subscribing_runs (channels : List UInt16) :
    ∃ st, Run (Step silentLibrary silentApp) (.initial [99, 108] 0 .localOnly ())
      (channels.map fun channel => (at' 0, .subscribeRequest channel)) st ∧ st.clock = 0 := by
  induction channels using List.reverseRecOn with
  | nil => exact ⟨_, .nil, rfl⟩
  | append_singleton channels channel ih =>
    obtain ⟨st, run, hclock⟩ := ih
    have hstep : Step silentLibrary silentApp st (at' 0, .subscribeRequest channel)
        ⟨st.dispatcher.subscribeRequest channel, st.app, st.ran, 0⟩ := by
      simp [Step, State.advance, State.perform, at', milliseconds, hclock, Event.ran]
    rw [List.map_append]
    exact ⟨_, run.snoc hstep, rfl⟩

theorem subscribed_map (channels : List UInt16) :
    subscribed (channels.map fun channel => (at' 0, .subscribeRequest channel)) = channels := by
  simp [subscribed, subscribes, List.flatMap_map]

theorem advertises_twice : ∃ es st, Run (Step silentLibrary silentApp)
    (.initial [99, 108] 0 .localOnly ()) es st ∧ subscribed es = [1, 2, 1] ∧
    (Advertises ((Sender.sendConnect []).packet (at' 0) st.dispatcher).2 (subscribed es) ↔
      ∀ channel ∈ subscribed es, channel ∈ announced (subscribed es)) := by
  obtain ⟨st, run, -⟩ := subscribing_runs [1, 2, 1]
  exact ⟨_, st, run, subscribed_map _,
    advertises_iff (by decide) run (at' 0) (.sendConnect [])⟩

/-- After 65536 subscriptions the count is zero, and the peer hears of no channel. -/
theorem subscriptions_forgotten : ∃ es st, Run (Step silentLibrary silentApp)
    (.initial [99, 108] 0 .localOnly ()) es st ∧ subscribed es = List.replicate 65536 1 ∧
    ¬ Advertises ((Sender.sendConnect []).packet (at' 0) st.dispatcher).2 (subscribed es) := by
  obtain ⟨st, run, -⟩ := subscribing_runs (List.replicate 65536 1)
  refine ⟨_, st, run, subscribed_map _, fun hall => ?_⟩
  obtain ⟨hservice, hlist⟩ := run_subscriptions run
  obtain ⟨m, hm, hiff⟩ := hall []
  rw [packet_decodes _ _ (by rw [hservice]; decide), Option.some.injEq] at hm
  rw [subscribed_map] at hiff hlist
  have hone := (hiff 1).mpr (List.mem_replicate.mpr ⟨by decide, rfl⟩)
  have hnone : m.channels = [] := by
    have hzero : 65536 % 2 ^ 16 = 0 := by decide
    simp only [← hm, hlist, announced, List.length_replicate, hzero, List.take_zero]
  rw [hnone] at hone
  exact List.not_mem_nil hone

end SwiftRobot.ConnectAdvertises
