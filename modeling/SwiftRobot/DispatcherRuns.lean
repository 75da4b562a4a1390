import SwiftRobot.Outgoing
import SwiftRobot.Support.Runs

/-!
# Runs of the client dispatcher

What calls the dispatcher: the hub's two callbacks with any client id and any packet, the
application, and the dispatch queue with a closure that is due. The hub goes its own way
between these calls. The clock is monotone, and a closure never runs before its time.
-/

namespace SwiftRobot.DispatcherRuns
open ByteWords Copying PacketHeaders ClientDispatcher

inductive Event
  -- the packet callback, with what lies at the payload in memory
  | packet (clientid : Bytes) (type : UInt32) (length : ℕ) (memory : Bytes)
  | deviceStatus (deviceID : ℤ) (status : Messages.Status)
  -- the hub changes by itself
  | hub (hub : USBHub)
  | dispatchMessage (channel : UInt16) (msg : Messages.Message) (size : UInt32) (type : UInt16)
  | subscribeRequest (channel : UInt16)
  | start
  | stop
  -- the queue runs the closure that was scheduled at this position
  | closure (i : ℕ)

/-- `ran` are the closures that have run, and `clock` is what the clock read last. -/
structure State (σ : Type) where
  dispatcher : ClientDispatcher
  app : σ
  ran : List ℕ
  clock : ℕ

section
variable {σ : Type} (lib : Plist.Library) (app : Application σ)

def State.initial (name : Bytes) (port : UInt16) (connection_type : ConnectionType) (s : σ) :
    State σ := ⟨.initial name port connection_type, s, [], 0⟩

/-- The closure at a position, if it has not run and its time point is past. -/
def State.due? (now : ℕ) (i : ℕ) (s : State σ) : Option Task :=
  if i ∈ s.ran then none
  else s.dispatcher.scheduled[i]?.bind fun entry => if entry.1 < now then some entry.2 else none

def State.perform (env : Env) (s : State σ) : Event → Option (ClientDispatcher × σ)
  | .packet clientid type length memory =>
    ((s.dispatcher.multiplexIncomingPacket env app clientid type length s.app) memory).value
  | .deviceStatus deviceID status =>
    s.dispatcher.callbackUSBDeviceStatusChanged env app deviceID status s.app
  | .hub hub => s.dispatcher.usbHubPtr.map fun _ =>
      ({ s.dispatcher with usbHubPtr := some hub }, s.app)
  | .dispatchMessage channel msg size type =>
    (s.dispatcher.dispatchMessage env channel msg size type).map fun d => (d, s.app)
  | .subscribeRequest channel => some (s.dispatcher.subscribeRequest channel, s.app)
  | .start => some (s.dispatcher.start env lib, s.app)
  | .stop => ((s.dispatcher.stop env app s.app) []).value
  | .closure i => (s.due? env.now i).bind fun task =>
      ((s.dispatcher.runTask env app task s.app) []).value

def Event.ran : Event → List ℕ
  | .closure i => [i]
  | _ => []

def State.advance (s : State σ) (e : Env × Event) : Option (State σ) :=
  if s.clock ≤ e.1.now then
    (s.perform lib app e.1 e.2).map fun r => ⟨r.1, r.2, s.ran ++ e.2.ran, e.1.now⟩
  else none

def Step (s : State σ) (e : Env × Event) (t : State σ) : Prop := s.advance lib app e = some t

end

theorem State.due?_eq_some {σ : Type} {s : State σ} {now i : ℕ} {task : Task} :
    s.due? now i = some task ↔
      i ∉ s.ran ∧ ∃ due, s.dispatcher.scheduled[i]? = some (due, task) ∧ due < now := by
  unfold State.due?
  split_ifs with hran
  · simp [hran]
  · simp [hran, Option.bind_eq_some_iff]

structure Calm (d d' : ClientDispatcher) : Prop where
  clients : d'.clients = d.clients
  scheduled : d'.scheduled = d.scheduled
  running : d'.keepAliveCheckRunning = d.keepAliveCheckRunning
  connection_type : d'.connection_type = d.connection_type
  hub : d'.usbHubPtr.isSome = d.usbHubPtr.isSome

section
variable {σ : Type} {env : Env} {app : Application σ} {d d' d'' : ClientDispatcher} {s : σ}

theorem Calm.refl (d : ClientDispatcher) : Calm d d := ⟨rfl, rfl, rfl, rfl, rfl⟩

theorem Calm.trans (h : Calm d d') (h' : Calm d' d'') : Calm d d'' :=
  ⟨h'.clients.trans h.clients, h'.scheduled.trans h.scheduled, h'.running.trans h.running,
    h'.connection_type.trans h.connection_type, h'.hub.trans h.hub⟩

theorem onHub_calm {f : USBHub → Option USBHub} (h : d.onHub f = some d') : Calm d d' := by
  rcases onHub_cases h with ⟨-, rfl⟩ | ⟨hub, hub', hhub, -, rfl⟩
  · exact .refl d'
  · exact ⟨rfl, rfl, rfl, rfl, by rw [hhub]; rfl⟩

theorem dispatchMessage_calm {channel : UInt16} {msg : Messages.Message} {size : UInt32}
    {type : UInt16} (h : d.dispatchMessage env channel msg size type = some d') : Calm d d' := by
  rw [Outgoing.dispatchMessage_eq] at h
  exact Run.relates_of_foldlM .refl .trans (fun _ _ _ _ hsend => onHub_calm hsend) h

theorem subscribeRequest_calm (channel : UInt16) : Calm d (d.subscribeRequest channel) := by
  refine ⟨rfl, rfl, rfl, rfl, ?_⟩
  rw [subscribeRequest, sendSubscribeRequest, Option.isSome_map]

theorem deviceStatus_calm {deviceID : ℤ} {status : Messages.Status} {r : ClientDispatcher × σ}
    (h : d.callbackUSBDeviceStatusChanged env app deviceID status s = some r) : Calm d r.1 := by
  cases status with
  | connected =>
    obtain ⟨d', hsend, rfl⟩ := Option.map_eq_some_iff.mp h
    exact onHub_calm hsend
  | attached | detached | disconnected =>
    rw [← Option.some.inj h]
    exact .refl d

def Reports (us : List USBHub.Upcall) : Prop :=
  ∀ u ∈ us, ∃ deviceID, u = .deviceStatus deviceID .disconnected

theorem upcalls_same {us : List USBHub.Upcall} (hus : Reports us) {mem : Bytes}
    {r r' : ClientDispatcher × σ}
    (h : (us.foldlM (upcall env app) r mem).value = some r') : r' = r := by
  rw [Reading.foldlM_value] at h
  refine (Run.relates_of_foldlM Eq.refl Eq.trans (fun u hu r r' hr => ?_) h).symm
  obtain ⟨deviceID, rfl⟩ := hus u hu
  rw [upcall, Reading.ofOption_value] at hr
  exact Option.some.inj hr

theorem disconnect_upcall (c : Connection) :
    c.disconnect.2 = .silent ∨ c.disconnect.2 = .connectionStatus c.name false := by
  unfold Connection.disconnect
  split_ifs
  · exact Or.inr rfl
  · exact Or.inl rfl
  · exact Or.inl rfl

theorem reports_disconnect (hub : USBHub) (captured : ℤ) (c : Connection) :
    Reports (hub.raise captured c.disconnect.2) := by
  intro u hu
  rcases disconnect_upcall c with hc | hc
  · rw [hc] at hu
    exact absurd hu List.not_mem_nil
  · simp only [hc, USBHub.raise, Bool.false_eq_true, if_false] at hu
    split_ifs at hu
    · exact ⟨_, List.mem_singleton.mp hu⟩
    · exact absurd hu List.not_mem_nil

theorem hubStep_eq {f : USBHub → Reading (USBHub × List USBHub.Upcall)} {mem : Bytes}
    {r : ClientDispatcher × σ} (h : (d.hubStep env app f s mem).value = some r) :
    (d.usbHubPtr = none ∧ r = (d, s)) ∨ ∃ hub r₁, d.usbHubPtr = some hub ∧
      (f hub mem).value = some r₁ ∧ (r₁.2.foldlM (upcall env app)
        ({ d with usbHubPtr := some r₁.1 }, s) mem).value = some r := by
  cases hhub : d.usbHubPtr with
  | none =>
    simp only [hubStep, hhub] at h
    exact Or.inl ⟨rfl, (Option.some.inj h).symm⟩
  | some hub =>
    simp only [hubStep, hhub, Reading.bind_value] at h
    obtain ⟨r₁, h₁, h₂⟩ := Option.bind_eq_some_iff.mp h
    exact Or.inr ⟨hub, r₁, rfl, h₁, h₂⟩

theorem packetReported_value {hub : USBHub} {captured : ℤ} {c : Connection} {type : UInt32}
    {size : ℕ} {mem : Bytes} {r : ClientDispatcher × σ} :
    ((hub.raise captured (c.packetReceived type size).2).foldlM (upcall env app) r mem).value =
      if c.packetReceivedCallback then
        (r.1.multiplexIncomingPacket env app c.name type size r.2 mem).value else some r := by
  rw [Reading.foldlM_value, Connection.packetReceived]
  split_ifs
  · exact bind_pure _
  · rfl

theorem hubStep_same {f : USBHub → Reading (USBHub × List USBHub.Upcall)} {mem : Bytes}
    (hf : ∀ hub r, (f hub mem).value = some r → Reports r.2) {r : ClientDispatcher × σ}
    (h : (d.hubStep env app f s mem).value = some r) :
    (d.usbHubPtr = none ∧ r.1 = d) ∨ ∃ hub r₁, d.usbHubPtr = some hub ∧
      (f hub mem).value = some r₁ ∧ r.1 = { d with usbHubPtr := some r₁.1 } := by
  rcases hubStep_eq h with ⟨hhub, hr⟩ | ⟨hub, r₁, hhub, h₁, h₂⟩
  · exact Or.inl ⟨hhub, congrArg Prod.fst hr⟩
  · exact Or.inr ⟨hub, r₁, hhub, h₁, congrArg Prod.fst (upcalls_same (hf hub r₁ h₁) h₂)⟩

theorem hubStep_calm {f : USBHub → Reading (USBHub × List USBHub.Upcall)} {mem : Bytes}
    (hf : ∀ hub r, (f hub mem).value = some r → Reports r.2) {r : ClientDispatcher × σ}
    (h : (d.hubStep env app f s mem).value = some r) : Calm d r.1 := by
  rcases hubStep_same hf h with ⟨-, hr⟩ | ⟨hub, r₁, hhub, -, hr⟩
  · rw [hr]
    exact .refl d
  · rw [hr]
    exact ⟨rfl, rfl, rfl, rfl, by rw [hhub]; rfl⟩

theorem close_reports {hub : USBHub} {captured : ℤ} {mem : Bytes}
    {r : USBHub × List USBHub.Upcall}
    (h : ((pure (hub.close captured) : Reading _) mem).value = some r) : Reports r.2 := by
  rw [← Option.some.inj h]
  intro u hu
  obtain ⟨e, -, hu⟩ := List.mem_flatMap.mp hu
  exact reports_disconnect hub captured e.2 u hu

theorem stop_calm {mem : Bytes} {r : ClientDispatcher × σ}
    (h : (d.stop env app s mem).value = some r) : Calm d r.1 := by
  unfold stop at h
  split_ifs at h
  · exact hubStep_calm (fun _ _ hr => close_reports hr) h
  · rw [← Option.some.inj h]
    exact .refl d

theorem disconnect_reports {hub : USBHub} {clientid mem : Bytes} {captured : ℤ}
    {r : USBHub × List USBHub.Upcall}
    (h : (Reading.ofOption (hub.disconnect captured clientid) mem).value = some r) :
    Reports r.2 := by
  rw [Reading.ofOption_value, USBHub.disconnect] at h
  split_ifs at h
  · obtain ⟨c, -, rfl⟩ := Option.map_eq_some_iff.mp h
    exact reports_disconnect hub captured c
  · rw [← Option.some.inj h]
    exact fun u hu => absurd hu List.not_mem_nil

theorem disconnect_calm {clientid mem : Bytes} {r : ClientDispatcher × σ}
    (h : (d.hubStep env app (fun hub => Reading.ofOption (hub.disconnect env.captured clientid)) s
      mem).value = some r) : Calm d r.1 :=
  hubStep_calm (fun _ _ hr => disconnect_reports hr) h

end

section
variable {σ : Type} {env : Env} {app : Application σ} {d d' d'' : ClientDispatcher} {s : σ}

def looksUp : PacketType → Bool
  | .message | .subscribeRequest | .keepAliveRequest | .keepAliveResponse | .connect
  | .connectAck => true
  | _ => false

def alive : PacketType → Bool
  | .message | .keepAliveRequest | .keepAliveResponse | .connect | .connectAck => true
  | _ => false

inductive Handled (env : Env) (app : Application σ) (d : ClientDispatcher) (clientid mem : Bytes)
    (s : σ) : Option PacketType → ClientDispatcher × σ → Prop
  | message {channel : UInt16} {s' : σ} :
    (app.didReceiveMessage channel 0 8 s mem).value = some s' →
    Handled env app d clientid mem s (some .message) (d.updateKeepAliveTime env clientid, s')
  | subscribeRequest (channel : UInt16) :
    Handled env app d clientid mem s (some .subscribeRequest) (d.setClient clientid
      { d.client clientid with
        subscriptions := (d.client clientid).subscriptions ++ [channel] }, s)
  | keepAliveRequest {d' : ClientDispatcher} :
    (d.updateKeepAliveTime env clientid).sendKeepAliveResponse clientid = some d' →
    Handled env app d clientid mem s (some .keepAliveRequest) (d', s)
  | keepAliveResponse : Handled env app d clientid mem s (some .keepAliveResponse)
      (d.updateKeepAliveTime env clientid, s)
  | connect (channels : List UInt16) {d' : ClientDispatcher} :
    (d.setClient clientid ⟨clientid, env.now, channels⟩).sendConnectAck env clientid = some d' →
    Handled env app d clientid mem s (some .connect)
      (d', app.didReceiveUpdateMsg clientid .connected s)
  | connectAck (channels : List UInt16) : Handled env app d clientid mem s (some .connectAck)
      (d.setClient clientid ⟨clientid, env.now, channels⟩,
        app.didReceiveUpdateMsg clientid .connected s)
  | ignored {o : Option PacketType} : (∀ kind ∈ o, looksUp kind = false) →
    Handled env app d clientid mem s o (d, s)

theorem handleConnectAck_eq {clientid mem : Bytes} {r : ClientDispatcher × σ}
    (h : (d.handleConnectAck env app clientid s mem).value = some r) : ∃ channels,
    r = (d.setClient clientid ⟨clientid, env.now, channels⟩,
      app.didReceiveUpdateMsg clientid .connected s) := by
  rw [handleConnectAck, Reading.bind_value] at h
  obtain ⟨connect_msg, -, h⟩ := Option.bind_eq_some_iff.mp h
  exact ⟨connect_msg.channels, (Option.some.inj h).symm⟩

theorem Handled.of_value {clientid mem : Bytes} {type : UInt32} {length : ℕ}
    {r : ClientDispatcher × σ}
    (h : (d.multiplexIncomingPacket env app clientid type length s mem).value = some r) :
    Handled env app d clientid mem s (PacketType.ofCode? type) r := by
  unfold multiplexIncomingPacket at h
  cases hkind : PacketType.ofCode? type with
  | none =>
    rw [hkind] at h
    rw [← Option.some.inj h]
    exact .ignored (fun kind hnone => by contradiction)
  | some kind =>
    rw [hkind] at h
    cases kind with
    | message =>
      simp only [handleMessage, Reading.bind_value] at h
      obtain ⟨channel, -, h⟩ := Option.bind_eq_some_iff.mp h
      obtain ⟨s', hs', h⟩ := Option.bind_eq_some_iff.mp h
      rw [← Option.some.inj h]
      exact .message hs'
    | subscribeRequest =>
      simp only [handleSubscribeRequest, Reading.bind_value] at h
      obtain ⟨d', hd', h⟩ := Option.bind_eq_some_iff.mp h
      obtain ⟨channel, -, hd'⟩ := Option.bind_eq_some_iff.mp hd'
      rw [← Option.some.inj h, ← Option.some.inj hd']
      exact .subscribeRequest channel
    | keepAliveRequest =>
      simp only [Reading.bind_value, Reading.ofOption_value] at h
      obtain ⟨d', hd', h⟩ := Option.bind_eq_some_iff.mp h
      rw [← Option.some.inj h]
      exact .keepAliveRequest hd'
    | keepAliveResponse =>
      rw [← Option.some.inj h]
      exact .keepAliveResponse
    | connect =>
      simp only [handleConnect, Reading.bind_value, Reading.ofOption_value] at h
      obtain ⟨r₁, h₁, h⟩ := Option.bind_eq_some_iff.mp h
      obtain ⟨d', hd', h⟩ := Option.bind_eq_some_iff.mp h
      obtain ⟨channels, rfl⟩ := handleConnectAck_eq h₁
      rw [← Option.some.inj h]
      exact .connect channels hd'
    | connectAck =>
      obtain ⟨channels, rfl⟩ := handleConnectAck_eq h
      exact .connectAck channels
    | _ =>
      rw [← Option.some.inj h]
      exact .ignored (by simp [looksUp])

theorem packet_noted {clientid memory : Bytes} {type : UInt32} {length : ℕ} {kind : PacketType}
    {r : ClientDispatcher × σ} (hkind : PacketType.ofCode? type = some kind)
    (hnoted : looksUp kind = true)
    (h : (d.multiplexIncomingPacket env app clientid type length s memory).value = some r) :
    ∃ c : ExternalClient, Calm (d.setClient clientid c) r.1 ∧ c.lastKeepAliveResponse =
      if alive kind then env.now else (d.client clientid).lastKeepAliveResponse := by
  have hhandled := Handled.of_value h
  rw [hkind] at hhandled
  cases hhandled with
  | message _ => exact ⟨_, .refl _, rfl⟩
  | subscribeRequest channel => exact ⟨_, .refl _, rfl⟩
  | keepAliveRequest hd' => exact ⟨_, onHub_calm hd', rfl⟩
  | keepAliveResponse => exact ⟨_, .refl _, rfl⟩
  | connect channels hd' => exact ⟨_, onHub_calm hd', rfl⟩
  | connectAck channels => exact ⟨_, .refl _, rfl⟩
  | ignored hnot =>
    rw [hnot kind rfl] at hnoted
    contradiction

theorem packet_calm {clientid memory : Bytes} {type : UInt32} {length : ℕ}
    {r : ClientDispatcher × σ} (hkind : ∀ kind ∈ PacketType.ofCode? type, looksUp kind = false)
    (h : (d.multiplexIncomingPacket env app clientid type length s memory).value = some r) :
    r.1 = d := by
  have hhandled := Handled.of_value h
  generalize PacketType.ofCode? type = o at hkind hhandled
  cases hhandled with
  | ignored _ => rfl
  | _ => exact absurd (hkind _ rfl) Bool.true_eq_false.mp

def probe (clientid : Bytes) : USBHub.Target × USBHub.Packet :=
  (.client clientid, ⟨.keepAliveRequest, [[]]⟩)

def recheck (env : Env) (clientid : Bytes) : ℕ × Task :=
  (env.now + keepAliveWaitingTime, .keepAliveWait clientid)

structure Probed (env : Env) (d : ClientDispatcher) (ids : List Bytes) (d' : ClientDispatcher) :
    Prop where
  clients : d'.clients = d.clients
  running : d'.keepAliveCheckRunning = d.keepAliveCheckRunning
  connection_type : d'.connection_type = d.connection_type
  hub : d'.usbHubPtr.isSome = d.usbHubPtr.isSome
  scheduled : d'.scheduled = d.scheduled ++ ids.map (recheck env)
  timedOut : ∀ id ∈ ids, (d.clients.find? id).isSome ∧ d.isTimedOut env id = true
  sent : d.usbHubPtr.isSome → ∃ more, d'.handed = d.handed ++ more ∧ ∀ id ∈ ids, probe id ∈ more

theorem Probed.nil (env : Env) (d : ClientDispatcher) : Probed env d [] d :=
  ⟨rfl, rfl, rfl, rfl, (List.append_nil _).symm, fun _ h => absurd h List.not_mem_nil,
    fun _ => ⟨[], (List.append_nil _).symm, fun _ h => absurd h List.not_mem_nil⟩⟩

theorem isTimedOut_congr {id : Bytes} (h : d'.clients = d.clients) :
    d'.isTimedOut env id = d.isTimedOut env id := by
  rw [isTimedOut, isTimedOut, client, client, h]

theorem Probed.trans {ids more : List Bytes} (h : Probed env d ids d') (h' : Probed env d' more d'') :
    Probed env d (ids ++ more) d'' := by
  refine ⟨h'.clients.trans h.clients, h'.running.trans h.running,
    h'.connection_type.trans h.connection_type, h'.hub.trans h.hub, ?_, ?_, ?_⟩
  · rw [h'.scheduled, h.scheduled, List.map_append, List.append_assoc]
  · intro id hid
    rcases List.mem_append.mp hid with hid | hid
    · exact h.timedOut id hid
    · have hold := h'.timedOut id hid
      rw [h.clients, isTimedOut_congr h.clients] at hold
      exact hold
  · intro hhub
    obtain ⟨sent, hsent, hids⟩ := h.sent hhub
    obtain ⟨sent', hsent', hmore⟩ := h'.sent (h.hub.trans hhub)
    refine ⟨sent ++ sent', by rw [hsent', hsent, List.append_assoc], ?_⟩
    intro id hid
    rcases List.mem_append.mp hid with hid | hid
    · exact List.mem_append_left _ (hids id hid)
    · exact List.mem_append_right _ (hmore id hid)

theorem probed_one {clientid : Bytes} {c : ExternalClient}
    (hc : d.clients.find? clientid = some c) (htimed : d.isTimedOut env clientid = true)
    (h : d.sendKeepAliveRequest clientid = some d') :
    Probed env d [clientid] (d'.dispatchAfter env keepAliveWaitingTime (.keepAliveWait clientid)) := by
  have hcalm := onHub_calm h
  refine ⟨hcalm.clients, hcalm.running, hcalm.connection_type, hcalm.hub, ?_, ?_, ?_⟩
  · rw [dispatchAfter, hcalm.scheduled]
    rfl
  · intro id hid
    rw [List.mem_singleton.mp hid, hc]
    exact ⟨rfl, htimed⟩
  · intro hhub
    obtain ⟨d₁, hsend, -, hhanded⟩ := Outgoing.onHub_handed hhub clientid (.client clientid)
      ⟨.keepAliveRequest, [[]]⟩ (·.send .keepAliveRequest [])
    obtain rfl : d₁ = d' := Option.some.inj (hsend.symm.trans h)
    exact ⟨[probe clientid], hhanded, fun id hid => by rw [List.mem_singleton.mp hid]; simp⟩

theorem probed_entries (l : List (Bytes × ExternalClient))
    (hl : ∀ e ∈ l, d.clients.find? e.1 = some e.2)
    (h : l.foldlM (fun d e =>
      let d := d.touch e.1
      if d.isTimedOut env e.1 then
        (d.sendKeepAliveRequest e.1).map
          (·.dispatchAfter env keepAliveWaitingTime (.keepAliveWait e.1))
      else some d) d = some d') : ∃ ids, Probed env d ids d' := by
  induction l generalizing d with
  | nil => exact ⟨[], Option.some.inj h ▸ .nil env d⟩
  | cons e l ih =>
    obtain ⟨he, hl⟩ := List.forall_mem_cons.mp hl
    rw [List.foldlM_cons] at h
    obtain ⟨d₁, h₁, h₂⟩ := Option.bind_eq_some_iff.mp h
    simp only [touch_of_find? he] at h₁
    obtain ⟨ids, hfirst⟩ : ∃ ids, Probed env d ids d₁ := by
      split_ifs at h₁ with htimed
      · obtain ⟨d₂, hsend, rfl⟩ := Option.map_eq_some_iff.mp h₁
        exact ⟨[e.1], probed_one he htimed hsend⟩
      · exact ⟨[], Option.some.inj h₁ ▸ .nil env d⟩
    obtain ⟨more, hrest⟩ := ih (fun e he => by rw [hfirst.clients]; exact hl e he) h₂
    exact ⟨ids ++ more, hfirst.trans hrest⟩

theorem keepAliveCheck_probed (hrunning : d.keepAliveCheckRunning = true)
    (h : d.keepAliveCheck env = some d') :
    ∃ ids d₁, Probed env d ids d₁ ∧ d' = d₁.startKeepAliveCheckCycle env := by
  unfold keepAliveCheck at h
  rw [if_pos hrunning] at h
  obtain ⟨d₁, hloop, h⟩ := Option.bind_eq_some_iff.mp h
  obtain ⟨ids, hprobed⟩ := probed_entries d.clients.entries
    (fun e he => (d.clients.mem_entries_iff e.1 e.2).mp he) hloop
  exact ⟨ids, d₁, hprobed, (Option.some.inj h).symm⟩

theorem keepAliveWait_calm {clientid mem : Bytes} {r : ClientDispatcher × σ}
    (hrunning : d.keepAliveCheckRunning = true)
    (h : (d.keepAliveWait env app clientid s mem).value = some r) :
    Calm (d.touch clientid) r.1 ∧ (d.isTimedOut env clientid = false → r.1 = d.touch clientid) := by
  unfold keepAliveWait at h
  simp only [if_pos hrunning] at h
  have hsame : (d.touch clientid).isTimedOut env clientid = d.isTimedOut env clientid := by
    rw [isTimedOut, isTimedOut, client_touch]
  rw [hsame] at h
  split_ifs at h with htimed
  · refine ⟨disconnect_calm h, fun hnot => ?_⟩
    rw [htimed] at hnot
    contradiction
  · rw [← Option.some.inj h]
    exact ⟨.refl _, fun _ => rfl⟩

def nextCheck (env : Env) : ℕ × Task :=
  (env.now + (keepAliveCheckTimer + milliseconds (env.random % keepAliveTimerRandomOffsetMax)),
    .keepAliveCheck)

theorem startKeepAliveCheckCycle_eq : d.startKeepAliveCheckCycle env =
    { d with keepAliveCheckRunning := true, scheduled := d.scheduled ++ [nextCheck env] } := rfl

def Event.Plain : Event → Prop
  | .packet _ type _ _ => ∀ kind ∈ PacketType.ofCode? type, looksUp kind = false
  | .closure _ => False
  | _ => True

inductive Effect (env : Env) (st : State σ) : Event → ClientDispatcher → Prop
  | calm {e : Event} {d' : ClientDispatcher} : e.Plain →
    (e = .start → st.dispatcher.connection_type = .usb → st.dispatcher.usbHubPtr.isSome →
      st.dispatcher.listening = true) →
    Calm st.dispatcher d' → Effect env st e d'
  | noted {clientid memory : Bytes} {type : UInt32} {length : ℕ} {kind : PacketType}
      {c : ExternalClient} {d' : ClientDispatcher} : PacketType.ofCode? type = some kind →
    looksUp kind = true → Calm (st.dispatcher.setClient clientid c) d' →
    c.lastKeepAliveResponse = (if alive kind then env.now
      else (st.dispatcher.client clientid).lastKeepAliveResponse) →
    Effect env st (.packet clientid type length memory) d'
  | started {d' : ClientDispatcher} : st.dispatcher.connection_type = .usb →
    st.dispatcher.usbHubPtr.isSome → st.dispatcher.listening = false →
    Calm (st.dispatcher.startKeepAliveCheckCycle env) d' → Effect env st .start d'
  | idle {i : ℕ} {task : Task} : st.due? env.now i = some task →
    st.dispatcher.keepAliveCheckRunning = false → Effect env st (.closure i) st.dispatcher
  | checked {i : ℕ} {ids : List Bytes} {d₁ : ClientDispatcher} :
    st.due? env.now i = some .keepAliveCheck → st.dispatcher.keepAliveCheckRunning = true →
    Probed env st.dispatcher ids d₁ → Effect env st (.closure i) (d₁.startKeepAliveCheckCycle env)
  | waited {i : ℕ} {clientid : Bytes} {d' : ClientDispatcher} :
    st.due? env.now i = some (.keepAliveWait clientid) →
    st.dispatcher.keepAliveCheckRunning = true → Calm (st.dispatcher.touch clientid) d' →
    (st.dispatcher.isTimedOut env clientid = false → d' = st.dispatcher.touch clientid) →
    Effect env st (.closure i) d'

theorem Effect.of_closure {st : State σ} {i : ℕ} {task : Task} {r : ClientDispatcher × σ}
    (hdue : st.due? env.now i = some task)
    (h : (st.dispatcher.runTask env app task st.app []).value = some r) :
    Effect env st (.closure i) r.1 := by
  cases hrunning : st.dispatcher.keepAliveCheckRunning with
  | false =>
    have hsame : r.1 = st.dispatcher := by
      cases task with
      | keepAliveCheck =>
        simp only [runTask, keepAliveCheck, hrunning, Bool.false_eq_true, if_false] at h
        rw [← Option.some.inj h]
      | keepAliveWait clientid =>
        simp only [runTask, keepAliveWait, hrunning, Bool.false_eq_true, if_false] at h
        rw [← Option.some.inj h]
    rw [hsame]
    exact .idle hdue hrunning
  | true =>
    cases task with
    | keepAliveCheck =>
      simp only [runTask, Reading.bind_value, Reading.ofOption_value] at h
      obtain ⟨d', hcheck, h⟩ := Option.bind_eq_some_iff.mp h
      obtain ⟨ids, d₁, hprobed, rfl⟩ := keepAliveCheck_probed hrunning hcheck
      rw [← Option.some.inj h]
      exact .checked hdue hrunning hprobed
    | keepAliveWait clientid =>
      obtain ⟨hcalm, hnot⟩ := keepAliveWait_calm hrunning h
      exact .waited hdue hrunning hcalm hnot

theorem Effect.of_start {st : State σ} (lib : Plist.Library) :
    Effect env st .start (st.dispatcher.start env lib) := by
  have hlistening (hub : USBHub) (hhub : st.dispatcher.usbHubPtr = some hub) :
      st.dispatcher.listening = hub.broadcastClient.listening := by
    rw [ClientDispatcher.listening, hhub, Option.any_some]
  unfold ClientDispatcher.start
  split
  next hub htype hhub =>
    have hsome : st.dispatcher.usbHubPtr.isSome = true := by
      rw [hhub]
      rfl
    rw [USBHub.startLookingForConnections]
    split_ifs with hwaits
    · exact .calm trivial (fun _ _ _ => (hlistening hub hhub).trans hwaits) (.refl _)
    · have hfree := (hlistening hub hhub).trans (Bool.eq_false_iff.mpr hwaits)
      exact .started htype hsome hfree ⟨rfl, rfl, rfl, rfl, hsome.symm⟩
  next hnot =>
    refine .calm trivial (fun _ htype hsome => ?_) (.refl _)
    obtain ⟨hub, hhub⟩ := Option.isSome_iff_exists.mp hsome
    exact absurd hhub (hnot hub htype)

theorem Effect.of_perform {lib : Plist.Library} {st : State σ} {e : Event}
    {r : ClientDispatcher × σ} (h : st.perform lib app env e = some r) : Effect env st e r.1 := by
  cases e with
  | packet clientid type length memory =>
    by_cases hnoted : ∃ kind, PacketType.ofCode? type = some kind ∧ looksUp kind = true
    · obtain ⟨kind, hkind, hnoted⟩ := hnoted
      obtain ⟨c, hcalm, hlast⟩ := packet_noted hkind hnoted h
      exact .noted hkind hnoted hcalm hlast
    · have hplain : ∀ kind ∈ PacketType.ofCode? type, looksUp kind = false := by
        intro kind hkind
        exact Bool.eq_false_iff.mpr fun hn => hnoted ⟨kind, hkind, hn⟩
      exact .calm hplain (fun h => by contradiction) (packet_calm hplain h ▸ .refl _)
  | deviceStatus deviceID status =>
    exact .calm trivial (fun h => by contradiction) (deviceStatus_calm h)
  | hub hub =>
    obtain ⟨hub₀, hhub, rfl⟩ := Option.map_eq_some_iff.mp h
    exact .calm trivial (fun h => by contradiction) ⟨rfl, rfl, rfl, rfl, by rw [hhub]; rfl⟩
  | dispatchMessage channel msg size type =>
    obtain ⟨d', hd', rfl⟩ := Option.map_eq_some_iff.mp h
    exact .calm trivial (fun h => by contradiction) (dispatchMessage_calm hd')
  | subscribeRequest channel =>
    rw [← Option.some.inj h]
    exact .calm trivial (fun h => by contradiction) (subscribeRequest_calm channel)
  | start =>
    rw [← Option.some.inj h]
    exact .of_start lib
  | stop => exact .calm trivial (fun h => by contradiction) (stop_calm h)
  | closure i =>
    obtain ⟨task, hdue, h⟩ := Option.bind_eq_some_iff.mp h
    exact .of_closure hdue h

theorem Step.effect {lib : Plist.Library} {st st' : State σ} {e : Env × Event}
    (h : Step lib app st e st') : st.clock ≤ e.1.now ∧ st'.clock = e.1.now ∧
      st'.ran = st.ran ++ e.2.ran ∧ Effect e.1 st e.2 st'.dispatcher := by
  unfold Step State.advance at h
  split_ifs at h with hclock
  obtain ⟨r, hr, rfl⟩ := Option.map_eq_some_iff.mp h
  exact ⟨hclock, rfl, rfl, Effect.of_perform hr⟩

end

def silentApp : Application Unit := ⟨fun _ _ _ s => pure s, fun _ _ s => s⟩

def silentLibrary : Plist.Library :=
  ⟨fun _ => .error .thrown, fun _ _ _ => .error .thrown, fun _ => [], fun _ => true⟩

def at' (ms : ℕ) : Env := ⟨milliseconds ms, 0, 0, fun _ _ => 0⟩

end SwiftRobot.DispatcherRuns
