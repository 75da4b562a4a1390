import SwiftRobot.Support.MessageNet
import SwiftRobot.PeerEnd
import SwiftRobot.DispatcherRuns

/-!
# The exchange of packets dies out

Dispatchers in any number, joined by connections. As long as they only handle what arrives,
each packet is answered with one packet at most, and an answer with none: only Connect and
KeepAliveRequest have answers, which are ConnectAck and KeepAliveResponse.
-/

namespace SwiftRobot.PacketExchange
open ByteWords Reading PacketHeaders Connection ClientDispatcher PeerLink MessageNet

def wire (d : ClientDispatcher) (deviceID : ℤ) : Option (List Call) :=
  (d.usbHubPtr.bind (·.devices.find? deviceID)).map packets

def put (d d' : ClientDispatcher) : List (ℤ × Call) :=
  ((d'.usbHubPtr.map (·.devices.entries)).getD []).flatMap fun e =>
    ((packets e.2).drop ((wire d e.1).getD []).length).map fun p => (e.1, p)

/-- The dispatchers with the states of their applications, and the packets in flight, each
with the dispatcher it comes to and the device that it comes from there. -/
abbrev Net (σ θ : Type) := MessageNet θ (ClientDispatcher × σ) (ℤ × Call)

section
variable {σ θ : Type} (peer : θ → ℤ → θ × ℤ) (lib : Plist.Library) (app : θ → Application σ)

/-- Device `k` of dispatcher `i` leads to dispatcher `(peer i k).1`, where it arrives from the
device `(peer i k).2`. What lies behind the payload in memory comes with the delivery. -/
def handle (i : θ) (e : Env × Bytes) (m : ℤ × Call) (s : ClientDispatcher × σ) :
    Option ((ClientDispatcher × σ) × List (θ × ℤ × Call)) :=
  (receive lib (app i) e.1 m.1 m.2 e.2 s.1 s.2).map fun r =>
    (r, (put s.1 r.1).map fun p => ((peer i p.1).1, (peer i p.1).2, p.2))

structure Joined (net : Net σ θ) : Prop where
  arriving : ∀ m ∈ net.inFlight, (wire (net.node m.1).1 m.2.1).isSome
  linked : ∀ i k, (wire (net.node i).1 k).isSome →
    (wire (net.node (peer i k).1).1 (peer i k).2).isSome

end

def answered (p : Call) : Bool :=
  PacketType.ofCode? p.type = some .connect ∨ PacketType.ofCode? p.type = some .keepAliveRequest

def weight (m : ℤ × Call) : ℕ := if answered m.2 then 2 else 1

inductive Puts (d d' : ClientDispatcher) : List (ℤ × Call) → Prop
  | nothing : (∀ k, wire d' k = wire d k) → Puts d d' []
  | one {k : ℤ} {l : List Call} {p : Call} : wire d k = some l →
    (∀ j, wire d' j = if j = k then some (l ++ [p]) else wire d j) → Puts d d' [(k, p)]

section
variable {d d' d'' : ClientDispatcher} {out : List (ℤ × Call)}

theorem Puts.isSome (h : Puts d d' out) (k : ℤ) : (wire d' k).isSome = (wire d k).isSome := by
  cases h with
  | nothing hsame => rw [hsame k]
  | one hk hall =>
    rw [hall k]
    split_ifs with hj
    · rw [hj, hk]
      rfl
    · rfl

theorem Puts.device (h : Puts d d' out) {e : ℤ × Call} (he : e ∈ out) :
    (wire d' e.1).isSome := by
  cases h with
  | nothing _ => contradiction
  | one hk hall =>
    rw [List.mem_singleton.mp he, hall, if_pos rfl]
    rfl

theorem Puts.after (h : ∀ k, wire d' k = wire d k) (h' : Puts d' d'' out) : Puts d d'' out := by
  cases h' with
  | nothing hsame => exact .nothing fun k => (hsame k).trans (h k)
  | one hk hall => exact .one ((h _).symm.trans hk) fun j => by rw [hall j, h j]

theorem wire_of_mem {e : ℤ × Connection}
    (he : e ∈ (d.usbHubPtr.map (·.devices.entries)).getD []) :
    wire d e.1 = some (packets e.2) := by
  cases hhub : d.usbHubPtr with
  | none => simp [hhub] at he
  | some hub =>
    rw [hhub] at he
    have hfind := (hub.devices.mem_entries_iff e.1 e.2).mp he
    simp only [wire, hhub, Option.bind_some, hfind, Option.map_some]

theorem Puts.put_eq (h : Puts d d' out) : put d d' = out := by
  cases h with
  | nothing hsame =>
    refine List.flatMap_eq_nil_iff.mpr fun e he => ?_
    have hwire := wire_of_mem he
    rw [hsame e.1] at hwire
    rw [hwire, Option.getD_some, List.drop_length, List.map_nil]
  | @one k l p hk hall =>
    have hnew : wire d' k = some (l ++ [p]) := by rw [hall k, if_pos rfl]
    cases hhub : d'.usbHubPtr with
    | none => simp [wire, hhub] at hnew
    | some hub =>
      simp only [wire, hhub, Option.bind_some] at hnew
      obtain ⟨c, hc, hpackets⟩ := Option.map_eq_some_iff.mp hnew
      have hothers : ∀ e ∈ hub.devices.entries, e.1 ≠ k →
          (((packets e.2).drop ((wire d e.1).getD []).length).map fun p => (e.1, p)) = [] := by
        intro e he hne
        have hwire : wire d' e.1 = some (packets e.2) := wire_of_mem (by rw [hhub]; exact he)
        rw [hall e.1, if_neg hne] at hwire
        rw [hwire, Option.getD_some, List.drop_length, List.map_nil]
      simp only [put, hhub, Option.map_some, Option.getD_some]
      rw [hub.devices.flatMap_entries hc hothers]
      simp only [hk, hpackets, Option.getD_some, List.drop_left, List.map_cons, List.map_nil]

theorem wire_setDevice {hub : USBHub} {i : ℤ} {c : Connection} (j : ℤ) :
    wire { d with usbHubPtr := some (hub.setDevice i c) } j =
      if j = i then some (packets c) else (hub.devices.find? j).map packets := by
  simp only [wire, Option.bind_some, USBHub.setDevice, OrderedMap.find?_insert]
  split_ifs <;> rfl

theorem sendPacket_puts {type : PacketType} {clientid data : Bytes}
    (h : d.onHub (USBHub.sendPacket type clientid data) = some d') :
    Puts d d' [] ∨ ∃ k p, p.type = type.code ∧ Puts d d' [(k, p)] := by
  rcases onHub_cases h with ⟨-, rfl⟩ | ⟨hub, hub', hhub, hsend, rfl⟩
  · exact Or.inl (.nothing fun _ => rfl)
  · have hwire : ∀ j, wire d j = (hub.devices.find? j).map packets := fun j => by
      simp only [wire, hhub, Option.bind_some]
    change HubRouting.onClient hub clientid (.client clientid) ⟨type, [data]⟩ (·.send type data) =
      some hub' at hsend
    unfold HubRouting.onClient at hsend
    split_ifs at hsend with hid
    · obtain ⟨c, hc, rfl⟩ := Option.map_eq_some_iff.mp hsend
      have hk : wire d (hub.getDeviceIDForClientID clientid) = some (packets c) := by
        rw [hwire]
        exact congrArg (Option.map packets) hc
      by_cases hconnected : c.status = .connected
      · have hgrown : packets (c.send type data) =
            packets c ++ [.send swiftRobotPacketProtocol type.code c.tag data] := by
          rw [Connection.send, if_pos hconnected]
          exact PeerEnd.packets_call c rfl _
        refine Or.inr ⟨_, .send swiftRobotPacketProtocol type.code c.tag data, rfl,
          .one hk fun j => ?_⟩
        simp only [wire_setDevice, hgrown, hwire]
        rfl
      · have hsent : c.send type data = c := if_neg hconnected
        refine Or.inl (.nothing fun j => ?_)
        simp only [hsent, wire_setDevice]
        split_ifs with hj
        · rw [hj, hk]
        · exact (hwire j).symm
    · rw [← Option.some.inj hsend]
      refine Or.inl (.nothing fun j => ?_)
      rw [hwire]
      rfl

end

def Answers (p : Call) (out : List (ℤ × Call)) : Prop :=
  out = [] ∨ answered p = true ∧ ∃ e, out = [e] ∧ answered e.2 = false

section
variable {σ : Type} {lib : Plist.Library} {app : Application σ} {env : Env} {deviceID : ℤ}
  {p : Call} {tail : Bytes} {d d₁ d' : ClientDispatcher} {s : σ} {r : ClientDispatcher × σ}

theorem answered_of_kind {kind : PacketType} (h : PacketType.ofCode? p.type = some kind) :
    answered p = (kind = .connect ∨ kind = .keepAliveRequest : Bool) := by
  simp only [answered, h, Option.some.injEq]

theorem answer_puts {type : PacketType} {clientid data : Bytes} (hp : answered p = true)
    (htype : type = .connectAck ∨ type = .keepAliveResponse)
    (h : d₁.onHub (USBHub.sendPacket type clientid data) = some d')
    (hsame : ∀ k, wire d₁ k = wire d k) : ∃ out, Puts d d' out ∧ Answers p out := by
  rcases sendPacket_puts h with hputs | ⟨k, q, hq, hputs⟩
  · exact ⟨[], hputs.after hsame, Or.inl rfl⟩
  · refine ⟨[(k, q)], hputs.after hsame, Or.inr ⟨hp, (k, q), rfl, ?_⟩⟩
    have hkind : PacketType.ofCode? q.type = some type := by rw [hq, PacketType.ofCode?_code]
    rw [answered_of_kind hkind]
    rcases htype with rfl | rfl <;> rfl

theorem packet_puts {clientid mem : Bytes} {length : ℕ}
    (h : (d.multiplexIncomingPacket env app clientid p.type length s mem).value = some r) :
    ∃ out, Puts d r.1 out ∧ Answers p out := by
  have hhandled := DispatcherRuns.Handled.of_value h
  generalize hkind : PacketType.ofCode? p.type = kind at hhandled
  cases hhandled with
  | keepAliveRequest hsend =>
    exact answer_puts (answered_of_kind hkind) (Or.inr rfl) hsend fun _ => rfl
  | connect channels hsend =>
    exact answer_puts (answered_of_kind hkind) (Or.inl rfl) hsend fun _ => rfl
  | _ => exact ⟨[], .nothing fun _ => rfl, Or.inl rfl⟩

theorem receive_cases (h : receive lib app env deviceID p tail d s = some r) :
    ∃ d₁, (∀ k, wire d₁ k = wire d k) ∧ (r = (d₁, s) ∨ ∃ clientid,
      (d₁.multiplexIncomingPacket env app clientid p.type p.payload.length s
        (p.payload ++ tail)).value = some r) := by
  rcases DispatcherRuns.hubStep_eq h with ⟨-, rfl⟩ | ⟨hub, r₁, hhub, h₁, h₂⟩
  · exact ⟨d, fun _ => rfl, Or.inl rfl⟩
  · simp only [USBHub.messageReceived, bind_value, ofOption_value, pure_value,
      Option.bind_eq_some_iff] at h₁
    obtain ⟨c, hc, q, hq, hr₁⟩ := h₁
    rw [← Option.some.inj hr₁] at h₂
    have hwire : packets q.1 = packets c →
        ∀ k, wire { d with usbHubPtr := some (hub.setDevice deviceID q.1) } k = wire d k := by
      intro hpackets k
      rw [wire_setDevice, hpackets]
      simp only [wire, hhub, Option.bind_some]
      split_ifs with hk
      · rw [hk, hc, Option.map_some]
      · rfl
    cases Connection.Received.of_value hq with
    | plist hprotocol _ _ | unreadable hprotocol _ =>
      exact absurd hprotocol (not_plist_of_robot rfl)
    | named _ _ _ | packet _ _ =>
      refine ⟨_, hwire rfl, ?_⟩
      rw [DispatcherRuns.packetReported_value] at h₂
      split_ifs at h₂
      · exact Or.inr ⟨_, h₂⟩
      · exact Or.inl (Option.some.inj h₂).symm
    | ignored _ hprotocol => exact absurd rfl hprotocol

theorem receive_puts (h : receive lib app env deviceID p tail d s = some r) :
    ∃ out, Puts d r.1 out ∧ Answers p out := by
  obtain ⟨d₁, hsame, rfl | ⟨clientid, hpacket⟩⟩ := receive_cases h
  · exact ⟨[], .nothing hsame, Or.inl rfl⟩
  · obtain ⟨out, hputs, hanswers⟩ := packet_puts hpacket
    exact ⟨out, hputs.after hsame, hanswers⟩

def Returns (app : Application σ) : Prop :=
  ∀ channel s mem, ∃ back, ((app.didReceiveMessage channel 0 8 s) (mem ++ back)).value.isSome

theorem readable_tail (happ : Returns app) (p : Call) (s : σ) :
    ∃ tail, 0 ∈ tail ∧ Outgoing.Readable app s (p.payload ++ tail) p.type := by
  have hword : ∀ back, ((word uint16 0) (p.payload ++ ([0, 0] ++ back))).value =
      some (uint16.ofBytes ((p.payload ++ [0, 0]).take 2)) := by
    intro back
    have hfront := word_value_front uint16 (p.payload ++ [0, 0]) back 0 (by simp)
    rw [List.append_assoc] at hfront
    exact hfront
  unfold Outgoing.Readable
  cases PacketType.ofCode? p.type with
  | none => exact ⟨[0], List.mem_singleton_self 0, trivial⟩
  | some kind =>
    cases kind with
    | message =>
      obtain ⟨back, hback⟩ := happ (uint16.ofBytes ((p.payload ++ [0, 0]).take 2)) s
        (p.payload ++ [0, 0])
      rw [List.append_assoc] at hback
      exact ⟨[0, 0] ++ back, by simp, _, hword back, hback⟩
    | subscribeRequest => exact ⟨[0, 0] ++ [], by simp, by rw [hword]; rfl⟩
    | connect | connectAck =>
      exact ⟨0 :: List.replicate (2 + 65535 * 2) 0, List.mem_cons_self,
        MessageConnectHeader.deserialize_isSome p.payload (by rw [List.length_replicate])⟩
    | _ => exact ⟨[0], List.mem_singleton_self 0, trivial⟩

theorem receive_isSome (happ : Returns app) (lib : Plist.Library) (env : Env) (p : Call) (s : σ)
    (hdevice : (wire d deviceID).isSome) :
    ∃ tail, (receive lib app env deviceID p tail d s).isSome := by
  obtain ⟨tail, hnul, hread⟩ := readable_tail happ p s
  refine ⟨tail, ?_⟩
  rw [wire, Option.isSome_map] at hdevice
  obtain ⟨c, hdevice⟩ := Option.isSome_iff_exists.mp hdevice
  obtain ⟨hub, hhub, hc⟩ := Option.bind_eq_some_iff.mp hdevice
  have hname := cstring_value (p.payload ++ tail) [] 0
    (List.mem_append_right p.payload hnul)
  rw [List.append_nil] at hname
  have hreceived : ∃ c' : Connection, (c.messageReceived lib
      (HubRouting.swiftRobotHeader p.type p.payload) p.payload.length (p.payload ++ tail)).value =
        some (c'.packetReceived p.type p.payload.length) := by
    have hprotocol : swiftRobotPacketProtocol ≠ usbMuxPacketProtocolPlist := by decide
    unfold Connection.messageReceived HubRouting.swiftRobotHeader
    rw [if_neg hprotocol, if_pos rfl]
    split_ifs
    · rw [bind_value, hname]
      exact ⟨_, rfl⟩
    · exact ⟨c, rfl⟩
  obtain ⟨c', hc'⟩ := hreceived
  simp only [receive, ClientDispatcher.messageReceived, hubStep, hhub, USBHub.messageReceived,
    bind_value, ofOption_value, hc, hc', Option.bind_some, pure_value,
    DispatcherRuns.packetReported_value]
  split_ifs
  · exact Outgoing.multiplex_isSome hread env _ _ _
  · rfl

end

section
variable {σ θ : Type} {peer : θ → ℤ → θ × ℤ} {lib : Plist.Library} {app : θ → Application σ}

def across (peer : θ → ℤ → θ × ℤ) (i : θ) (p : ℤ × Call) : θ × ℤ × Call :=
  ((peer i p.1).1, (peer i p.1).2, p.2)

theorem handle_puts {i : θ} {e : Env × Bytes} {m : ℤ × Call} {s s' : ClientDispatcher × σ}
    {out : List (θ × ℤ × Call)} (h : handle peer lib app i e m s = some (s', out)) :
    ∃ ps, Puts s.1 s'.1 ps ∧ Answers m.2 ps ∧ out = ps.map (across peer i) := by
  obtain ⟨r, hr, hout⟩ := Option.map_eq_some_iff.mp h
  obtain ⟨ps, hputs, hanswers⟩ := receive_puts hr
  obtain ⟨rfl, rfl⟩ := Prod.mk.inj hout
  exact ⟨ps, hputs, hanswers, by rw [hputs.put_eq]; rfl⟩

/-- The answers to a packet weigh less than the packet. -/
theorem handle_weight {i : θ} {e : Env × Bytes} {m : ℤ × Call} {s s' : ClientDispatcher × σ}
    {out : List (θ × ℤ × Call)} (h : handle peer lib app i e m s = some (s', out)) :
    total weight out < weight m := by
  obtain ⟨ps, -, rfl | ⟨hm, q, rfl, hq⟩, rfl⟩ := handle_puts h
  · change 0 < weight m
    unfold weight
    split_ifs <;> decide
  · have hanswer : total weight ([q].map (across peer i)) = 1 := by
      simp [total, across, weight, hq]
    rw [hanswer, weight, if_pos hm]
    decide

theorem total_weight (ms : List (θ × ℤ × Call)) : total weight ms =
    2 * ms.countP (fun m => answered m.2.2) + ms.countP (fun m => !answered m.2.2) := by
  induction ms with
  | nil => rfl
  | cons m ms ih =>
    have hcons : total weight (m :: ms) = weight m.2 + total weight ms := List.sum_cons
    rw [hcons, ih, List.countP_cons, List.countP_cons, weight]
    cases answered m.2.2 <;> simp only [Bool.not_true, Bool.not_false, if_true,
      Bool.false_eq_true, if_false] <;> omega

section
variable [DecidableEq θ] {net net' : Net σ θ} {e : ℕ × Env × Bytes}

theorem Joined.step (h : Joined peer net) (hstep : Step (handle peer lib app) net e net') :
    Joined peer net' := by
  obtain ⟨i, m, s, out, hm, hhandle, rfl⟩ := hstep.delivered
  obtain ⟨ps, hputs, -, rfl⟩ := handle_puts hhandle
  have hdevices : ∀ j k, (wire (Function.update net.node i s j).1 k).isSome =
      (wire (net.node j).1 k).isSome := by
    intro j k
    by_cases hj : j = i
    · rw [hj, Function.update_self, hputs.isSome]
    · rw [Function.update_of_ne hj]
  refine ⟨fun m' hm' => ?_, fun j k hk => ?_⟩
  · simp only [hdevices]
    rcases List.mem_append.mp hm' with hold | hnew
    · exact h.arriving m' (List.mem_of_mem_eraseIdx hold)
    · obtain ⟨q, hq, rfl⟩ := List.mem_map.mp hnew
      exact h.linked i q.1 ((hputs.isSome q.1).symm.trans (hputs.device hq))
  · simp only [hdevices] at hk ⊢
    exact h.linked j k hk

omit [DecidableEq θ] in
theorem Joined.able (h : Joined peer net) (happ : ∀ i, Returns (app i)) :
    ∀ m ∈ net.inFlight, ∃ e, (handle peer lib app m.1 e m.2 (net.node m.1)).isSome := by
  intro m hm
  obtain ⟨tail, hreceive⟩ := receive_isSome (happ m.1) lib ⟨0, 0, 0, fun _ _ => 0⟩ m.2.2
    (net.node m.1).2 (h.arriving m hm)
  refine ⟨(⟨0, 0, 0, fun _ _ => 0⟩, tail), ?_⟩
  rw [handle, Option.isSome_map]
  exact hreceive

/-- Of the packets in flight, a Connect or KeepAliveRequest is good for two deliveries and any
other for one. Where no delivery can follow, nothing is in flight, if applications return. -/
theorem exchange_dies_out {es : List (ℕ × Env × Bytes)}
    (run : Run (Step (handle peer lib app)) net es net') :
    es.length ≤ 2 * net.inFlight.countP (fun m => answered m.2.2) +
        net.inFlight.countP (fun m => !answered m.2.2) ∧
      ((∀ i, Returns (app i)) → Joined peer net →
        (∀ e net'', ¬ Step (handle peer lib app) net' e net'') → net'.inFlight = []) := by
  refine ⟨?_, fun happ hjoined hstuck => ?_⟩
  · have hpaid := deliveries_le (fun _ _ _ _ _ _ h => handle_weight h) run
    rw [total_weight net.inFlight] at hpaid
    omega
  · have hjoined' : Joined peer net' := run.invariant (fun _ _ _ h hs => h.step hs) hjoined
    exact inFlight_eq_nil (hjoined'.able happ) hstuck

end
end

def member : ClientDispatcher :=
  let c : Connection := { Connection.ofDevice ⟨1, 0, 0, 0, [], []⟩ 8000 with
    status := .connected, packetReceivedCallback := true, connectionStatusCallback := true }
  { ClientDispatcher.initial [65] 8000 .usb with
    usbHubPtr := some (((USBHub.initial 8000).setDevice 1 c).setDevice 2 c) }

def ring (i : Fin 3) (k : ℤ) : Fin 3 × ℤ := if k = 1 then (i + 1, 2) else (i + 2, 1)

def opening : Net Unit (Fin 3) where
  node _ := (member, ())
  inFlight := [(0, 1, .send swiftRobotPacketProtocol PacketType.connect.code 0 [65, 0, 0, 0]),
    (2, 1, .send swiftRobotPacketProtocol PacketType.message.code 0 [1, 0, 0, 0, 0, 0, 0, 0])]

def deliveries : List (ℕ × Env × Bytes) :=
  [0, 1, 0].map fun k => (k, DispatcherRuns.at' 0, [])

theorem exchange_dies_out_ring : ∃ net', Run (Step (handle ring DispatcherRuns.silentLibrary
    fun _ => DispatcherRuns.silentApp)) opening deliveries net' ∧
      deliveries.length ≤ 2 * 1 + 1 ∧ net'.inFlight = [] := by
  obtain ⟨net', hdeliver⟩ := Option.isSome_iff_exists.mp (show (deliveries.foldlM (deliver
    (handle ring DispatcherRuns.silentLibrary fun _ => DispatcherRuns.silentApp))
    opening).isSome from rfl)
  have hempty : some [] = some net'.inFlight :=
    congrArg (Option.map MessageNet.inFlight) hdeliver
  obtain ⟨hbound, hquiet⟩ := exchange_dies_out (Run.iff_foldlM.mpr hdeliver)
  refine ⟨net', Run.iff_foldlM.mpr hdeliver, hbound,
    hquiet (fun _ _ _ _ => ⟨[], rfl⟩) ⟨by decide, fun i k _ => ?_⟩ fun e net'' hstep => ?_⟩
  · unfold ring
    split_ifs <;> rfl
  · obtain ⟨i, m, s, out, hm, -⟩ := hstep.delivered
    rw [← Option.some.inj hempty] at hm
    contradiction

end SwiftRobot.PacketExchange
