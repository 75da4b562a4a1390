import SwiftRobot.Support.KeyedRuns
import SwiftRobot.DispatcherRuns

/-!
# Clients do not disturb each other

Packets of many clients come into one dispatcher in any order. All handlers share the map of
the clients; but what a packet does to the entry of its client, what it is answered with and
what the application is told of it depend on the packets of that client alone.
-/

namespace SwiftRobot.ClientStreams
open ByteWords Reading PacketHeaders MessageConnectHeader ClientDispatcher

structure Arrival where
  clientid : Bytes
  now : ℕ
  type : UInt32
  length : ℕ
  memory : Bytes

def Arrival.env (a : Arrival) (stack : ℕ → ℕ → UInt8) : Env := ⟨a.now, 0, 0, stack⟩

inductive Report
  | message (channel : UInt16) (receivedHeader data : ℕ) (memory : Bytes)
  | update (clientid : Bytes) (status : Messages.Status)
  deriving DecidableEq, Repr

def recorder : Application (List Report) where
  didReceiveMessage channel receivedHeader data s := fun memory =>
    ⟨some (s ++ [.message channel receivedHeader data memory]), []⟩
  didReceiveUpdateMsg clientid status s := s ++ [.update clientid status]

/-- `reports` has each call of the application with the client whose packet it was for. -/
structure State where
  dispatcher : ClientDispatcher
  reports : List (Bytes × Report)

def State.receive (stack : ℕ → ℕ → UInt8) (st : State) (a : Arrival) : Option State :=
  ((st.dispatcher.multiplexIncomingPacket (a.env stack) recorder a.clientid a.type a.length [])
    a.memory).value.map fun r =>
      ⟨r.1, st.reports ++ r.2.map fun report => (a.clientid, report)⟩

def State.repliesTo (st : State) (n : Bytes) : List USBHub.Packet :=
  (st.dispatcher.handed.filter (·.1 = .client n)).map Prod.snd

def State.reportsOf (st : State) (n : Bytes) : List Report :=
  (st.reports.filter (·.1 = n)).map Prod.snd

/-- What the handler reads of the packet is in memory. -/
def Arrival.WellFormed (a : Arrival) : Prop :=
  match PacketType.ofCode? a.type with
  | some .message | some .subscribeRequest => 2 ≤ a.memory.length
  | some .connect | some .connectAck => ((deserialize 0) a.memory).value.isSome
  | _ => True

instance (a : Arrival) : Decidable a.WellFormed := by
  unfold Arrival.WellFormed
  split <;> infer_instance

/-- What there is of one client, and what the answers to it are made of. -/
structure View where
  globalServiceName : Bytes
  clientChannelSubsciptions : List UInt16
  hub : Bool
  entry : Option ExternalClient
  replies : List USBHub.Packet
  reports : List Report

namespace View

def put (v : View) (c : ExternalClient) : View := { v with entry := some c }

def alive (v : View) (now : ℕ) : View :=
  v.put { v.entry.getD .default with lastKeepAliveResponse := now }

def reply (v : View) (p : USBHub.Packet) : View :=
  if v.hub then { v with replies := v.replies ++ [p] } else v

def report (v : View) (r : Report) : View := { v with reports := v.reports ++ [r] }

def receive (v : View) (a : Arrival) (stack : ℕ → UInt8) : Option View :=
  match PacketType.ofCode? a.type with
  | some .message => do
    let channel ← (word uint16 0 a.memory).value
    return (v.alive a.now).report (.message channel 0 8 a.memory)
  | some .subscribeRequest => do
    let channel ← (word uint16 0 a.memory).value
    let c := v.entry.getD .default
    return v.put { c with subscriptions := c.subscriptions ++ [channel] }
  | some .keepAliveRequest => return (v.alive a.now).reply ⟨.keepAliveResponse, [[]]⟩
  | some .keepAliveResponse => return v.alive a.now
  | some .connect => do
    let connect_msg ← (deserialize 0 a.memory).value
    let v := v.put ⟨a.clientid, a.now, connect_msg.channels⟩
    return (v.report (.update a.clientid .connected)).reply ⟨.connectAck,
      [(announcing v.globalServiceName v.clientChannelSubsciptions).packet stack]⟩
  | some .connectAck => do
    let connect_msg ← (deserialize 0 a.memory).value
    return (v.put ⟨a.clientid, a.now, connect_msg.channels⟩).report
      (.update a.clientid .connected)
  | _ => return v

end View

def State.view (st : State) (n : Bytes) : View where
  globalServiceName := st.dispatcher.globalServiceName
  clientChannelSubsciptions := st.dispatcher.clientChannelSubsciptions
  hub := st.dispatcher.usbHubPtr.isSome
  entry := st.dispatcher.clients.find? n
  replies := st.repliesTo n
  reports := st.reportsOf n

def Changes (id : Bytes) (g : View → View) (st st' : State) : Prop :=
  ∀ n, st'.view n = if n = id then g (st.view n) else st.view n

section
variable {id : Bytes} {g g' : View → View} {st st' st'' : State}

theorem Changes.trans (h : Changes id g st st') (h' : Changes id g' st' st'') :
    Changes id (fun v => g' (g v)) st st'' := by
  intro n
  rw [h' n, h n]
  split_ifs <;> rfl

theorem Changes.refl (st : State) : Changes id (fun v => v) st st := by
  intro n
  split_ifs <;> rfl

theorem setClient_changes (st : State) (id : Bytes) (c : ExternalClient) :
    Changes id (·.put c) st ⟨st.dispatcher.setClient id c, st.reports⟩ := by
  intro n
  have hfind : (st.dispatcher.setClient id c).clients.find? n =
      if n = id then some c else st.dispatcher.clients.find? n := by
    simp only [setClient, OrderedMap.find?_insert]
    split_ifs <;> rfl
  simp only [State.view, hfind]
  split_ifs <;> rfl

theorem report_changes (st : State) (id : Bytes) (r : Report) :
    Changes id (·.report r) st ⟨st.dispatcher, st.reports ++ [(id, r)]⟩ := by
  intro n
  have hreports : State.reportsOf ⟨st.dispatcher, st.reports ++ [(id, r)]⟩ n =
      if n = id then st.reportsOf n ++ [r] else st.reportsOf n := by
    simp only [State.reportsOf, List.filter_append, List.map_append]
    split_ifs with hn
    · simp [hn]
    · simp [Ne.symm hn]
  simp only [State.view, hreports]
  split_ifs <;> rfl

theorem reply_changes (st : State) (id : Bytes) (type : PacketType) (data : Bytes) :
    ∃ d', st.dispatcher.onHub (·.sendPacket type id data) = some d' ∧
      Changes id (·.reply ⟨type, [data]⟩) st ⟨d', st.reports⟩ := by
  cases hhub : st.dispatcher.usbHubPtr with
  | none =>
    refine ⟨st.dispatcher, by rw [onHub, hhub], fun n => ?_⟩
    simp only [State.view, View.reply, hhub]
    split_ifs
    · contradiction
    · rfl
    · rfl
  | some hub =>
    have hsome : st.dispatcher.usbHubPtr.isSome = true := by rw [hhub]; rfl
    obtain ⟨d', hsend, hhub', hhanded⟩ := Outgoing.onHub_handed hsome id (.client id)
      ⟨type, [data]⟩ (·.send type data)
    refine ⟨d', hsend, fun n => ?_⟩
    rcases onHub_cases hsend with ⟨hnone, -⟩ | ⟨hub₀, hub', -, -, rfl⟩
    · rw [hnone] at hsome
      contradiction
    · have hreplies : State.repliesTo ⟨{ st.dispatcher with usbHubPtr := some hub' },
          st.reports⟩ n = if n = id then st.repliesTo n ++ [⟨type, [data]⟩] else st.repliesTo n := by
        simp only [State.repliesTo, hhanded, List.filter_append, List.map_append]
        split_ifs with hn
        · simp [hn]
        · simp [Ne.symm hn]
      simp only [State.view, View.reply, hreplies, hsome]
      split_ifs <;> rfl

theorem update_changes (st : State) (id : Bytes) (f : ExternalClient → ExternalClient) :
    Changes id (fun v => v.put (f (v.entry.getD .default))) st
      ⟨st.dispatcher.setClient id (f (st.dispatcher.client id)), st.reports⟩ := by
  intro n
  rw [setClient_changes st id _ n]
  split_ifs with hn
  · rw [hn]
    rfl
  · rfl

theorem alive_changes (stack : ℕ → ℕ → UInt8) (st : State) (a : Arrival) :
    Changes a.clientid (·.alive a.now) st
      ⟨st.dispatcher.updateKeepAliveTime (a.env stack) a.clientid, st.reports⟩ :=
  update_changes st a.clientid fun c => { c with lastKeepAliveResponse := a.now }

/-- A packet is handled as it would be for its client alone, or nothing is known of what its
handler does, whatever there is of its client. -/
theorem receive_cases (stack : ℕ → ℕ → UInt8) (st : State) (a : Arrival) :
    (∃ g st', st.receive stack a = some st' ∧
      (∀ v : View, v.receive a (stack st.dispatcher.handed.length) = some (g v)) ∧
      Changes a.clientid g st st') ∨
    (st.receive stack a = none ∧
      ∀ v : View, v.receive a (stack st.dispatcher.handed.length) = none) := by
  unfold State.receive multiplexIncomingPacket View.receive
  cases hkind : PacketType.ofCode? a.type with
  | none => exact Or.inl ⟨_, _, rfl, fun _ => rfl, by simpa using Changes.refl st⟩
  | some kind =>
    cases kind with
    | message =>
      simp only [handleMessage, bind_value]
      cases hchannel : (word uint16 0 a.memory).value with
      | none => exact Or.inr ⟨rfl, fun _ => rfl⟩
      | some channel =>
        exact Or.inl ⟨_, _, rfl, fun _ => rfl,
          (alive_changes stack st a).trans (report_changes _ _ _)⟩
    | subscribeRequest =>
      simp only [handleSubscribeRequest, bind_value]
      cases hchannel : (word uint16 0 a.memory).value with
      | none => exact Or.inr ⟨rfl, fun _ => rfl⟩
      | some channel =>
        have hchanges := update_changes st a.clientid
          fun c => { c with subscriptions := c.subscriptions ++ [channel] }
        exact Or.inl ⟨_, _, rfl, fun _ => rfl, by simpa using hchanges⟩
    | keepAliveRequest =>
      have halive := alive_changes stack st a
      obtain ⟨d', hsend, hreply⟩ := reply_changes
        ⟨st.dispatcher.updateKeepAliveTime (a.env stack) a.clientid, st.reports⟩ a.clientid
        .keepAliveResponse []
      simp only [handleKeepAliveRequest, sendKeepAliveResponse, bind_value, ofOption_value, hsend]
      exact Or.inl ⟨_, _, rfl, fun _ => rfl, by simpa using halive.trans hreply⟩
    | keepAliveResponse =>
      exact Or.inl ⟨_, _, rfl, fun _ => rfl, by
        simpa [handleKeepAliveResponse] using alive_changes stack st a⟩
    | connect =>
      simp only [handleConnect, handleConnectAck, bind_value]
      cases hread : ((deserialize 0) a.memory).value with
      | none => exact Or.inr ⟨rfl, fun _ => rfl⟩
      | some connect_msg =>
        let d := st.dispatcher.setClient a.clientid ⟨a.clientid, a.now, connect_msg.channels⟩
        let reported : List (Bytes × Report) :=
          st.reports ++ [(a.clientid, .update a.clientid .connected)]
        have hput : Changes a.clientid _ st ⟨d, st.reports⟩ := setClient_changes st a.clientid _
        have htold : Changes a.clientid _ ⟨d, st.reports⟩ ⟨d, reported⟩ := report_changes _ _ _
        obtain ⟨d', hsend, hreply⟩ := reply_changes ⟨d, reported⟩ a.clientid .connectAck
          (d.connectPacket (a.env stack))
        refine Or.inl ⟨_, ⟨d', reported⟩, ?_, fun _ => rfl, fun n => ?_⟩
        · have hack : d.sendConnectAck (a.env stack) a.clientid = some d' := hsend
          simp only [Option.bind_some, pure_value, ofOption_value]
          change ((d.sendConnectAck (a.env stack) a.clientid).bind _).map _ = _
          rw [hack]
          rfl
        · rw [((hput.trans htold).trans hreply) n]
          split_ifs
          · rfl
          · rfl
    | connectAck =>
      simp only [handleConnectAck, bind_value]
      cases hread : ((deserialize 0) a.memory).value with
      | none => exact Or.inr ⟨rfl, fun _ => rfl⟩
      | some connect_msg =>
        have hput := setClient_changes st a.clientid ⟨a.clientid, a.now, connect_msg.channels⟩
        exact Or.inl ⟨_, _, rfl, fun _ => rfl, hput.trans (report_changes _ _ _)⟩
    | _ => exact Or.inl ⟨_, _, rfl, fun _ => rfl, by simpa using Changes.refl st⟩

theorem Arrival.WellFormed.readable {a : Arrival} (h : a.WellFormed) :
    Outgoing.Readable recorder [] a.memory a.type := by
  have hword : 2 ≤ a.memory.length → ∃ channel, ((word uint16 0) a.memory).value = some channel :=
    fun hlen => ⟨_, word_value uint16 0 a.memory (by simpa using hlen)⟩
  unfold Arrival.WellFormed at h
  unfold Outgoing.Readable
  cases hkind : PacketType.ofCode? a.type with
  | none => trivial
  | some kind =>
    rw [hkind] at h
    cases kind with
    | message =>
      obtain ⟨channel, hchannel⟩ := hword h
      exact ⟨channel, hchannel, rfl⟩
    | subscribeRequest => exact Option.isSome_iff_exists.mpr (hword h)
    | connect | connectAck => exact h
    | _ => trivial

theorem Arrival.WellFormed.receive_isSome {a : Arrival} (h : a.WellFormed)
    (stack : ℕ → ℕ → UInt8) (st : State) : (st.receive stack a).isSome := by
  rw [State.receive, Option.isSome_map]
  exact Outgoing.multiplex_isSome h.readable (a.env stack) a.clientid a.length st.dispatcher

theorem receive_stack (stack : ℕ → ℕ → UInt8) (st : State) (a : Arrival) :
    st.receive stack a = st.receive (fun _ => stack st.dispatcher.handed.length) a := by
  unfold State.receive multiplexIncomingPacket
  cases PacketType.ofCode? a.type with
  | none => rfl
  | some kind =>
    cases kind with
    | connect =>
      simp only [handleConnect, handleConnectAck, bind_value]
      cases ((deserialize 0) a.memory).value with
      | none => rfl
      | some connect_msg => rfl
    | _ => rfl

end

def run (stack : ℕ → ℕ → UInt8) (st : State) (es : List Arrival) : Option State :=
  es.foldlM (State.receive stack) st

def stream (n : Bytes) (es : List Arrival) : List Arrival := es.filter (·.clientid = n)

structure SameFor (n : Bytes) (st st' : State) : Prop where
  entry : st.dispatcher.clients.find? n = st'.dispatcher.clients.find? n
  replies : st.repliesTo n = st'.repliesTo n
  reports : st.reportsOf n = st'.reportsOf n

/-- Any list of packets is some interleaving of the streams of its clients: at its end every
client stands as if its own stream had come in alone. What lies on the stack is its own in
either run. -/
def Undisturbed (d : ClientDispatcher) (es : List Arrival) : Prop :=
  ∀ stack, ∃ st, run stack ⟨d, []⟩ es = some st ∧
    ∀ n stack', ∃ alone, run stack' ⟨d, []⟩ (stream n es) = some alone ∧ SameFor n alone st

/-- Packets with what is on the stack when they are answered. -/
def clientStreams : Apart State (Arrival × (ℕ → UInt8)) Bytes View where
  step st e := st.receive (fun _ => e.2) e.1
  key e := e.1.clientid
  view := State.view
  own v e := v.receive e.1 e.2
  view_step st e := by
    rcases receive_cases (fun _ => e.2) st e.1 with ⟨g, st', hst, hg, hchanges⟩ | ⟨hst, hnone⟩
    · rw [hst, hg, Option.map_some, hchanges e.1.clientid, if_pos rfl]
    · rw [hst, hnone, Option.map_none]
  view_other := by
    intro st e st' h n hn
    rcases receive_cases (fun _ => e.2) st e.1 with ⟨g, st'', hst, -, hchanges⟩ | ⟨hst, -⟩
    · rw [h, Option.some.injEq] at hst
      rw [hst, hchanges n, if_neg hn]
    · rw [h] at hst
      contradiction

section
variable {d : ClientDispatcher} {es : List Arrival} {st : State} {stack : ℕ → ℕ → UInt8} {n : Bytes}

theorem exists_answered (stack : ℕ → ℕ → UInt8) (st : State) (es : List Arrival) :
    ∃ fs, fs.map Prod.fst = es ∧ run stack st es = clientStreams.run st fs := by
  induction es generalizing st with
  | nil => exact ⟨[], rfl, rfl⟩
  | cons a es ih =>
    have hfirst := receive_stack stack st a
    cases hst : st.receive stack a with
    | none =>
      refine ⟨(a, stack st.dispatcher.handed.length) :: es.map fun a => (a, fun _ => 0),
        by simp [Function.comp_def], ?_⟩
      rw [hst] at hfirst
      rw [run, Apart.run, List.foldlM_cons, List.foldlM_cons, hst]
      simp only [clientStreams, ← hfirst]
      rfl
    | some st' =>
      obtain ⟨fs, hfs, hrun⟩ := ih st'
      refine ⟨(a, stack st.dispatcher.handed.length) :: fs, by simp [hfs], ?_⟩
      rw [hst] at hfirst
      rw [run, Apart.run, List.foldlM_cons, List.foldlM_cons, hst]
      simp only [clientStreams, ← hfirst]
      exact hrun

theorem stream_answered {fs : List (Arrival × (ℕ → UInt8))} (hfs : fs.map Prod.fst = es) :
    (clientStreams.stream n fs).map Prod.fst = stream n es := by
  rw [← hfs, stream, List.filter_map]
  rfl

theorem written_length (clientid : Bytes) (channels : List UInt16) :
    (written clientid channels).length + (channels.length - (announced channels).length) * 2 =
      (announcing clientid channels).getSize := by
  have hle : (announced channels).length ≤ channels.length := List.length_take_le' _ _
  simp only [written, announcing, getSize, List.length_append, List.length_cons,
    uint16_bytes_length, Word.flat_length, uint16_width]
  omega

theorem packet_any_stack (clientid : Bytes) {channels : List UInt16} (h : channels.length ≤ 65535)
    (bytes bytes' : ℕ → UInt8) :
    (announcing clientid channels).packet bytes = (announcing clientid channels).packet bytes' := by
  have hlen := written_length clientid channels
  rw [announced_of_le h, Nat.sub_self, Nat.zero_mul, Nat.add_zero] at hlen
  rw [packet_announcing, packet_announcing, hlen, List.drop_of_length_le (by simp),
    List.drop_of_length_le (by simp)]

theorem packet_of_stack (clientid : Bytes) {channels : List UInt16} (h : 65535 < channels.length) :
    (announcing clientid channels).packet (fun _ => 0) ≠
      (announcing clientid channels).packet (fun _ => 1) := by
  have hlen := written_length clientid channels
  have hcut : (announced channels).length < channels.length := by
    rw [announced, List.length_take]
    omega
  intro hsame
  rw [packet_announcing, packet_announcing, List.append_cancel_left_eq, List.map_const',
    List.map_const', List.drop_replicate, List.drop_replicate, List.length_range] at hsame
  have hpos : (announcing clientid channels).getSize - (written clientid channels).length ≠ 0 := by
    omega
  exact absurd ((List.replicate_inj.mp hsame).2.resolve_left hpos) (by decide)

namespace View

def answer (v : View) (a : Arrival) (bytes : ℕ → UInt8) : Option USBHub.Packet :=
  match PacketType.ofCode? a.type with
  | some .keepAliveRequest => some ⟨.keepAliveResponse, [[]]⟩
  | some .connect => some ⟨.connectAck,
      [(announcing v.globalServiceName v.clientChannelSubsciptions).packet bytes]⟩
  | _ => none

def AnyStack (v : View) (es : List Arrival) : Prop :=
  v.clientChannelSubsciptions.length ≤ 65535 ∨ v.hub = false ∨
    ∀ a ∈ es, PacketType.ofCode? a.type ≠ some .connect

structure Answers (v w : View) (a : Arrival) (bytes : ℕ → UInt8) : Prop where
  globalServiceName : w.globalServiceName = v.globalServiceName
  clientChannelSubsciptions : w.clientChannelSubsciptions = v.clientChannelSubsciptions
  hub : w.hub = v.hub
  replies : v.hub = true → w.replies = v.replies ++ (v.answer a bytes).toList

variable {v w : View} {a : Arrival} {bytes : ℕ → UInt8}

theorem receive_answers (h : v.receive a bytes = some w) : v.Answers w a bytes := by
  have hreply (u : View) (p : USBHub.Packet) : (u.reply p).globalServiceName = u.globalServiceName ∧
      (u.reply p).clientChannelSubsciptions = u.clientChannelSubsciptions ∧
      (u.reply p).hub = u.hub ∧ (u.hub = true → (u.reply p).replies = u.replies ++ [p]) := by
    unfold reply
    split_ifs with hhub
    · exact ⟨rfl, rfl, rfl, fun _ => rfl⟩
    · exact ⟨rfl, rfl, rfl, fun h => absurd h hhub⟩
  have hquiet (hnone : v.answer a bytes = none) (hname : w.globalServiceName = v.globalServiceName)
      (hsubscriptions : w.clientChannelSubsciptions = v.clientChannelSubsciptions)
      (hhub : w.hub = v.hub) (hreplies : w.replies = v.replies) : v.Answers w a bytes :=
    ⟨hname, hsubscriptions, hhub, fun _ => by
      rw [hreplies, hnone, Option.toList_none, List.append_nil]⟩
  unfold receive at h
  cases hkind : PacketType.ofCode? a.type with
  | none =>
    rw [hkind] at h
    rw [← Option.some.inj h] at hquiet ⊢
    exact hquiet (by rw [answer, hkind]) rfl rfl rfl rfl
  | some kind =>
    rw [hkind] at h
    cases kind with
    | message | subscribeRequest | connectAck =>
      obtain ⟨read, -, h⟩ := Option.bind_eq_some_iff.mp h
      rw [← Option.some.inj h] at hquiet ⊢
      exact hquiet (by rw [answer, hkind]) rfl rfl rfl rfl
    | connect =>
      obtain ⟨connect_msg, -, h⟩ := Option.bind_eq_some_iff.mp h
      obtain ⟨hname, hsubscriptions, hhub, hreplies⟩ := hreply
        ((v.put ⟨a.clientid, a.now, connect_msg.channels⟩).report (.update a.clientid .connected))
        ⟨.connectAck, [(announcing v.globalServiceName v.clientChannelSubsciptions).packet bytes]⟩
      rw [← Option.some.inj h]
      exact ⟨hname, hsubscriptions, hhub, fun h => by rw [answer, hkind]; exact hreplies h⟩
    | keepAliveRequest =>
      obtain ⟨hname, hsubscriptions, hhub, hreplies⟩ :=
        hreply (v.alive a.now) ⟨.keepAliveResponse, [[]]⟩
      rw [← Option.some.inj h]
      exact ⟨hname, hsubscriptions, hhub, fun h => by rw [answer, hkind]; exact hreplies h⟩
    | keepAliveResponse =>
      rw [← Option.some.inj h] at hquiet ⊢
      exact hquiet (by rw [answer, hkind]) rfl rfl rfl rfl
    | _ =>
      rw [← Option.some.inj h] at hquiet ⊢
      exact hquiet (by rw [answer, hkind]) rfl rfl rfl rfl

theorem receive_any_stack (h : v.AnyStack [a]) (bytes bytes' : ℕ → UInt8) :
    v.receive a bytes = v.receive a bytes' := by
  by_cases hkind : PacketType.ofCode? a.type = some .connect
  · have hsame (u : View) (hu : u.hub = v.hub) :
        u.reply ⟨.connectAck,
          [(announcing v.globalServiceName v.clientChannelSubsciptions).packet bytes]⟩ =
        u.reply ⟨.connectAck,
          [(announcing v.globalServiceName v.clientChannelSubsciptions).packet bytes']⟩ := by
      rcases h with hfew | hnone | hno
      · rw [packet_any_stack v.globalServiceName hfew bytes bytes']
      · simp only [reply, hu, hnone, Bool.false_eq_true, if_false]
      · exact absurd hkind (hno a (List.mem_singleton_self a))
    unfold receive
    rw [hkind]
    exact Option.bind_congr fun connect_msg _ => congrArg some (hsame _ rfl)
  · unfold receive
    cases hkind' : PacketType.ofCode? a.type with
    | none => rfl
    | some kind =>
      cases kind with
      | connect => exact absurd hkind' hkind
      | _ => rfl

end View

theorem own_any_stack {v : View} {fs fs' : List (Arrival × (ℕ → UInt8))}
    (h : v.AnyStack (fs.map Prod.fst)) (hsame : fs'.map Prod.fst = fs.map Prod.fst) :
    fs'.foldlM clientStreams.own v = fs.foldlM clientStreams.own v := by
  induction fs generalizing v fs' with
  | nil => rw [List.map_eq_nil_iff.mp hsame]
  | cons e fs ih =>
    obtain ⟨e', fs'', rfl, he, hrest⟩ := List.map_eq_cons_iff.mp hsame
    have hfirst : v.AnyStack [e.1] :=
      h.imp_right (Or.imp_right fun hno a ha => hno a (by simp_all))
    have hown : clientStreams.own v e' = clientStreams.own v e := by
      change v.receive e'.1 e'.2 = v.receive e.1 e.2
      rw [he, View.receive_any_stack hfirst]
    rw [List.foldlM_cons, List.foldlM_cons, hown]
    refine Option.bind_congr fun w hw => ih ?_ hrest
    have hanswers := View.receive_answers (show v.receive e.1 e.2 = some w from hw)
    rw [View.AnyStack, hanswers.clientChannelSubsciptions, hanswers.hub]
    exact h.imp_right (Or.imp_right fun hno a ha => hno a (List.mem_cons_of_mem _ ha))

theorem run_isSome (h : ∀ a ∈ es, a.WellFormed) (stack : ℕ → ℕ → UInt8) (st : State) :
    ∃ st', run stack st es = some st' := by
  induction es generalizing st with
  | nil => exact ⟨st, rfl⟩
  | cons a es ih =>
    obtain ⟨ha, hes⟩ := List.forall_mem_cons.mp h
    obtain ⟨st', hst⟩ := Option.isSome_iff_exists.mp (ha.receive_isSome stack st)
    rw [run, List.foldlM_cons, hst]
    exact ih hes st'

theorem undisturbed_of_anyStack (hwell : ∀ a ∈ es, a.WellFormed)
    (h : d.clientChannelSubsciptions.length ≤ 65535 ∨ d.usbHubPtr = none ∨
      ∀ a ∈ es, PacketType.ofCode? a.type ≠ some .connect) : Undisturbed d es := by
  intro stack
  obtain ⟨st, hrun⟩ := run_isSome hwell stack ⟨d, []⟩
  refine ⟨st, hrun, fun n stack' => ?_⟩
  obtain ⟨fs, hfs, heq⟩ := exists_answered stack ⟨d, []⟩ es
  obtain ⟨fs', hfs', heq'⟩ := exists_answered stack' ⟨d, []⟩ (stream n es)
  rw [hrun] at heq
  have hkeys : ∀ e ∈ fs', clientStreams.key e = n := by
    intro e he
    have hmem : e.1 ∈ stream n es := hfs' ▸ List.mem_map_of_mem he
    exact of_decide_eq_true (List.mem_filter.mp hmem).2
  have hany : (clientStreams.view ⟨d, []⟩ n).AnyStack ((clientStreams.stream n fs).map Prod.fst) := by
    rw [stream_answered hfs]
    refine h.imp_right (Or.imp (fun hnone => ?_) fun hno a ha => hno a (List.mem_filter.mp ha).1)
    simp [clientStreams, State.view, hnone]
  have hviews := Apart.view_of_run (k := n) heq.symm
  rw [← own_any_stack hany (hfs'.trans (stream_answered hfs).symm)] at hviews
  obtain ⟨alone, halone, hview⟩ := Apart.run_of_own hkeys hviews
  exact ⟨alone, heq'.trans halone, congrArg View.entry hview, congrArg View.replies hview,
    congrArg View.reports hview⟩

theorem own_replies {v w : View} {fs : List (Arrival × (ℕ → UInt8))} (hhub : v.hub = true)
    (h : fs.foldlM clientStreams.own v = some w) :
    w.replies = v.replies ++ fs.filterMap fun e => v.answer e.1 e.2 := by
  induction fs generalizing v with
  | nil =>
    rw [← Option.some.inj h]
    simp
  | cons e fs ih =>
    rw [List.foldlM_cons] at h
    obtain ⟨u, hu, hrest⟩ := Option.bind_eq_some_iff.mp h
    have hanswers := View.receive_answers (show v.receive e.1 e.2 = some u from hu)
    have hsame (a : Arrival) (bytes : ℕ → UInt8) : u.answer a bytes = v.answer a bytes := by
      unfold View.answer
      rw [hanswers.globalServiceName, hanswers.clientChannelSubsciptions]
    rw [ih (hanswers.hub.trans hhub) hrest, hanswers.replies hhub]
    simp only [hsame, List.append_assoc, List.filterMap_cons]
    cases v.answer e.1 e.2 <;> rfl

theorem run_replies {bytes : ℕ → UInt8} (hhub : d.usbHubPtr.isSome = true)
    (hrun : run (fun _ => bytes) ⟨d, []⟩ es = some st) (n : Bytes) :
    st.repliesTo n = State.repliesTo ⟨d, []⟩ n ++
      (stream n es).filterMap fun a => (State.view ⟨d, []⟩ n).answer a bytes := by
  have hall (es : List Arrival) (st : State) : run (fun _ => bytes) st es =
      clientStreams.run st (es.map fun a => (a, bytes)) := by
    rw [run, Apart.run, List.foldlM_map]
    rfl
  rw [hall] at hrun
  have hview : (State.view ⟨d, []⟩ n).hub = true := hhub
  have hviews := own_replies hview (Apart.view_of_run (k := n) hrun)
  have hstream : clientStreams.stream n (es.map fun a => (a, bytes)) =
      (stream n es).map fun a => (a, bytes) := by
    rw [Apart.stream, List.filter_map, stream]
    rfl
  rw [hstream, List.filterMap_map] at hviews
  exact hviews

theorem filterMap_same {α β : Type} {f g : α → Option β} (hsome : ∀ a, (f a).isSome = (g a).isSome)
    {l : List α} (h : l.filterMap f = l.filterMap g) : ∀ a ∈ l, f a = g a := by
  induction l with
  | nil => exact nofun
  | cons a l ih =>
    have ha := hsome a
    rw [List.forall_mem_cons]
    cases hf : f a with
    | none =>
      have hg : g a = none := by rwa [hf, Option.isSome_none, eq_comm, Option.isSome_eq_false_iff,
        Option.isNone_iff_eq_none] at ha
      rw [List.filterMap_cons_none hf, List.filterMap_cons_none hg] at h
      exact ⟨hg.symm, ih h⟩
    | some b =>
      rw [hf] at ha
      obtain ⟨c, hg⟩ := Option.isSome_iff_exists.mp ha.symm
      rw [List.filterMap_cons_some hf, List.filterMap_cons_some hg, List.cons.injEq] at h
      exact ⟨by rw [hg, h.1], ih h.2⟩

theorem disturbed_of_connect (hmany : 65535 < d.clientChannelSubsciptions.length)
    (hhub : d.usbHubPtr.isSome = true) {a : Arrival} (ha : a ∈ es)
    (hconnect : PacketType.ofCode? a.type = some .connect) : ¬ Undisturbed d es := by
  intro h
  obtain ⟨st, hrun, hsame⟩ := h fun _ _ => 0
  obtain ⟨alone, halone, hclient⟩ := hsame a.clientid fun _ _ => 1
  have hreplies := hclient.replies
  have hagain : stream a.clientid (stream a.clientid es) = stream a.clientid es := by
    simp [stream, List.filter_filter]
  rw [run_replies hhub hrun, run_replies hhub halone, hagain, List.append_cancel_left_eq] at hreplies
  have hmem : a ∈ stream a.clientid es := List.mem_filter.mpr ⟨ha, by simp⟩
  have hanswer := filterMap_same (fun a => by unfold View.answer; split <;> rfl) hreplies a hmem
  simp only [View.answer, hconnect, State.view, Option.some.injEq, USBHub.Packet.mk.injEq,
    List.cons.injEq, and_true, true_and] at hanswer
  exact packet_of_stack d.globalServiceName hmany hanswer.symm

end

/-- Clients do not disturb each other exactly when no ConnectAck is sent, or all channels that
are subscribed fit into its count. -/
theorem clients_apart_iff (d : ClientDispatcher) (es : List Arrival)
    (h : ∀ a ∈ es, a.WellFormed) : Undisturbed d es ↔
      d.clientChannelSubsciptions.length ≤ 65535 ∨ d.usbHubPtr = none ∨
        ∀ a ∈ es, PacketType.ofCode? a.type ≠ some .connect := by
  refine ⟨fun hundisturbed => ?_, undisturbed_of_anyStack h⟩
  rcases Nat.lt_or_ge 65535 d.clientChannelSubsciptions.length with hmany | hfew
  · cases hhub : d.usbHubPtr with
    | none => exact Or.inr (Or.inl rfl)
    | some hub =>
      refine Or.inr (Or.inr fun a ha hconnect => ?_)
      have hsome : d.usbHubPtr.isSome = true := by rw [hhub]; rfl
      exact disturbed_of_connect hmany hsome ha hconnect hundisturbed
  · exact Or.inl hfew

def crossing : List Arrival :=
  [⟨[65], 10, PacketType.connect.code, 4, [65, 0, 0, 0]⟩,
    ⟨[66], 20, PacketType.keepAliveRequest.code, 0, []⟩,
    ⟨[65], 30, PacketType.subscribeRequest.code, 2, [7, 0]⟩,
    ⟨[66], 40, PacketType.message.code, 8, [7, 0, 1, 0, 0, 0, 0, 0]⟩]

theorem clients_apart_crossing :
    (∀ a ∈ crossing, a.WellFormed) ∧ Undisturbed (.initial [] 0 .usb) crossing := by
  have hwell : ∀ a ∈ crossing, a.WellFormed := by decide
  exact ⟨hwell, (clients_apart_iff _ crossing hwell).mpr (Or.inl (by decide))⟩

/-- One channel is subscribed 65536 times, and one client connects. -/
theorem stale_answer_differs : ¬ ∀ (d : ClientDispatcher) (es : List Arrival),
    (∀ a ∈ es, a.WellFormed) → Undisturbed d es := by
  intro hall
  let d : ClientDispatcher :=
    { ClientDispatcher.initial [] 0 .usb with
      clientChannelSubsciptions := List.replicate 65536 1 }
  have hmany : 65535 < d.clientChannelSubsciptions.length := by
    rw [List.length_replicate]
    decide
  have hfirst : (⟨[65], 10, PacketType.connect.code, 4, [65, 0, 0, 0]⟩ : Arrival) ∈ crossing :=
    List.mem_cons_self
  exact disturbed_of_connect hmany rfl hfirst rfl (hall d crossing (by decide))

end SwiftRobot.ClientStreams
