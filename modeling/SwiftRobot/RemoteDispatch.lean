import SwiftRobot.SubscriptionAgreement
import SwiftRobot.SwiftRobotClient

/-!
# Messages for a peer that has subscribed

A peer is sent a message once for every entry of its channel in what was noted down for
it. Each subscribe call adds an entry and nothing takes one away, so that a second
subscriber on a channel makes for a second packet of every message.
-/

namespace SwiftRobot.RemoteDispatch
open ByteWords PacketHeaders MessageConnectHeader Connection ClientDispatcher ListReplica
open Messages PeerLink PeerEnd SubscriptionAgreement

def OnChannel (channel : UInt16) (p : Call) : Prop :=
  ∃ tag type size body, p = .send2 swiftRobotPacketProtocol PacketType.message.code tag
    (MessagePacketHeader.mk channel type size).bytes body

def Adds (channel : UInt16) (n : ℕ) (ps qs : List Call) : Prop :=
  ∃ new, qs = ps ++ new ∧ new.length = n ∧ ∀ p ∈ new, OnChannel channel p

section
variable {channel : UInt16} {n m : ℕ} {ps qs rs : List Call}

theorem Adds.refl (channel : UInt16) (ps : List Call) : Adds channel 0 ps ps :=
  ⟨[], (List.append_nil ps).symm, rfl, fun _ hp => absurd hp List.not_mem_nil⟩

theorem Adds.trans (h : Adds channel n ps qs) (h' : Adds channel m qs rs) :
    Adds channel (n + m) ps rs := by
  obtain ⟨new, rfl, rfl, hnew⟩ := h
  obtain ⟨new', rfl, rfl, hnew'⟩ := h'
  refine ⟨new ++ new', List.append_assoc _ _ _, List.length_append, fun p hp => ?_⟩
  rcases List.mem_append.mp hp with hp | hp
  · exact hnew p hp
  · exact hnew' p hp

theorem Adds.unique (h : Adds channel n ps qs) (h' : Adds channel m ps qs) : n = m := by
  obtain ⟨new, rfl, rfl, -⟩ := h
  obtain ⟨new', hsame, rfl, -⟩ := h'
  rw [List.append_cancel_left hsame]

end

section
variable (env : Env) (channel : UInt16) (msg : Message) (size : UInt32) (type : UInt16)
  {deviceID : ℤ} {d : ClientDispatcher} {c : Connection}

theorem sendMessage_adds (hid : 0 ≤ deviceID) (hw : Wired deviceID d c)
    (hc : c.status = .connected) (clientid : Bytes) :
    ∃ d' c', d.sendMessage env clientid msg channel size type = some d' ∧ Wired deviceID d' c' ∧
      c'.status = .connected ∧ c'.name = c.name ∧
      Adds channel (if clientid = c.name then 1 else 0) (packets c) (packets c') := by
  obtain ⟨hub, hhub, ha⟩ := hw
  let header : MessagePacketHeader := ⟨channel, type, size⟩
  let body := Copying.store msg.serialize ((List.range size.toNat).map (d.stackBytes env))
  obtain ⟨hub', hput, ha'⟩ := ha.onClient hid clientid (.client clientid)
    ⟨.message, [header.bytes, body]⟩ (·.send2 .message header.bytes body)
  refine ⟨{ d with usbHubPtr := some hub' }, _, ?_, ⟨hub', rfl, ha'⟩, ?_, ?_, ?_⟩
  · simp only [sendMessage, onHub, hhub]
    exact congrArg (Option.map _) hput
  · split_ifs <;> simp [hc]
  · split_ifs <;> simp
  · by_cases hn : c.name = clientid
    · rw [if_pos hn, if_pos hn.symm, Connection.send2, if_pos hc, packets_call c rfl]
      refine ⟨_, rfl, rfl, fun p hp => ⟨c.tag, type, size, body, ?_⟩⟩
      simpa using hp
    · rw [if_neg hn, if_neg (Ne.symm hn)]
      exact .refl channel _

theorem foldlM_sendMessage_adds (hid : 0 ≤ deviceID) (ids : List Bytes)
    (hw : Wired deviceID d c) (hc : c.status = .connected) :
    ∃ d' c', ids.foldlM
        (fun d clientid => d.sendMessage env clientid msg channel size type) d = some d' ∧
      Wired deviceID d' c' ∧ Adds channel (ids.count c.name) (packets c) (packets c') := by
  induction ids generalizing d c with
  | nil => exact ⟨d, c, rfl, hw, .refl channel _⟩
  | cons clientid ids ih =>
    obtain ⟨d₁, c₁, hsend, hw₁, hc₁, hname, hadds⟩ :=
      sendMessage_adds env channel msg size type hid hw hc clientid
    obtain ⟨d', c', hrest, hw', hadds'⟩ := ih hw₁ hc₁
    refine ⟨d', c', by rw [List.foldlM_cons, hsend]; exact hrest, hw', ?_⟩
    rw [hname] at hadds'
    have hcount : (clientid :: ids).count c.name =
        (if clientid = c.name then 1 else 0) + ids.count c.name := by
      rw [List.count_cons, Nat.add_comm]
      simp
    rw [hcount]
    exact hadds.trans hadds'

theorem dispatchMessage_adds (hid : 0 ≤ deviceID) (hw : Wired deviceID d c)
    (hc : c.status = .connected) :
    ∃ d', d.dispatchMessage env channel msg size type = some d' ∧
      Adds channel ((d.client c.name).subscriptions.count channel) (packetsTo deviceID d)
        (packetsTo deviceID d') := by
  obtain ⟨d', c', hrun, hw', hadds⟩ := foldlM_sendMessage_adds env channel msg size type hid
    (Outgoing.recipients d channel) hw hc
  refine ⟨d', by rw [Outgoing.dispatchMessage_eq]; exact hrun, ?_⟩
  rw [Outgoing.count_recipients] at hadds
  rw [packetsTo_eq hw, packetsTo_eq hw']
  exact hadds

end

def client (st : Link LocalBus) (i : Side) : SwiftRobotClient := ⟨st.app i, st.dispatcher i⟩

/-- Whatever is on the stack, publishing at the peer of a side puts one Message packet
for it on the link if it has subscribed to the channel, and none otherwise. -/
def ReachedOnce (peers : Peers) (st : Link LocalBus) (i : Side) (channel : UInt8) (m : Msg) :
    Prop :=
  ∀ env, ∃ c', (client st i.other).publish env channel m = some c' ∧
    Adds channel.toUInt16 (if channel.toUInt16 ∈ st.subscribed i then 1 else 0)
      (st.sent peers i.other) (packetsTo (peers.deviceID i.other) c'.client_dispatcher)

/-- The entries of a side's list that its last Connect or ConnectAck was made of, as far
as their number in 16 bits reaches, and those that came later. -/
def announcedEntries (peers : Peers) (st : Link LocalBus) (i : Side) : List UInt16 :=
  surviving announced (st.subscribed i) ((st.sent peers i).map note)

def AnnouncedOnce (peers : Peers) (st : Link LocalBus) (i : Side) (channel : UInt16) : Prop :=
  (announcedEntries peers st i).count channel ≤ 1 ∧
    (channel ∈ st.subscribed i → channel ∈ announcedEntries peers st i)

section
variable {peers : Peers} {st : Link LocalBus} {i : Side}

theorem held_eq_of_delivered (h : Joined peers st) (hknown : Known peers st i)
    (hnone : st.inFlight peers i = []) :
    st.held peers i = announcedEntries peers st i := by
  have hall : st.handled peers i = st.sent peers i := by
    have hsplit := List.take_append_drop (st.delivered i) (st.sent peers i)
    rwa [show (st.sent peers i).drop (st.delivered i) = [] from hnone, List.append_nil] at hsplit
  rw [h.held_eq, hall, (h.told hknown.sent_ne_nil).replay_eq]
  rfl

theorem publish_adds (h : Joined peers st) (hup : st.Up peers i.other) (hknown : Known peers st i)
    (env : Env) (channel : UInt8) (m : Msg) :
    ∃ c', (client st i.other).publish env channel m = some c' ∧
      Adds channel.toUInt16 ((st.held peers i).count channel.toUInt16) (st.sent peers i.other)
        (packetsTo (peers.deviceID i.other) c'.client_dispatcher) := by
  obtain ⟨c, hc⟩ := (h i.other).2
  rw [Side.other_other] at hc
  have hstatus : c.status = .connected := by
    obtain ⟨hub, hhub, ha⟩ := hc.hub
    simpa [Link.Up, hhub, ha.find?] using hup
  have hname : c.name = peers.name i := by
    obtain ⟨p, hp, -⟩ := hknown
    exact hc.peerName (List.ne_nil_of_mem hp)
  obtain ⟨d', hrun, hadds⟩ := dispatchMessage_adds env channel.toUInt16 m.slice m.getSize m.type
    (peers.addressable i.other) hc.hub hstatus
  rw [hname] at hadds
  refine ⟨⟨(st.app i.other).notify channel.toUInt16 m, d'⟩, ?_, hadds⟩
  simp only [client, SwiftRobotClient.publish, hrun, Option.map_some]

theorem reachedOnce_iff (h : Joined peers st) (hup : st.Up peers i.other)
    (hknown : Known peers st i) (hnone : st.inFlight peers i = []) (channel : UInt8) (m : Msg) :
    ReachedOnce peers st i channel m ↔ AnnouncedOnce peers st i channel.toUInt16 := by
  have hheld := held_eq_of_delivered h hknown hnone
  have hsubset : channel.toUInt16 ∈ announcedEntries peers st i →
      channel.toUInt16 ∈ st.subscribed i :=
    (h.told hknown.sent_ne_nil).mem_of_surviving announced_subset
  have hcount : ReachedOnce peers st i channel m ↔
      (announcedEntries peers st i).count channel.toUInt16 =
        if channel.toUInt16 ∈ st.subscribed i then 1 else 0 := by
    rw [← hheld]
    constructor
    · intro hreached
      obtain ⟨c', hrun, hadds⟩ := publish_adds h hup hknown ⟨0, 0, 0, fun _ _ => 0⟩ channel m
      obtain ⟨c'', hrun', hadds'⟩ := hreached ⟨0, 0, 0, fun _ _ => 0⟩
      obtain rfl : c' = c'' := Option.some.inj (hrun.symm.trans hrun')
      exact hadds.unique hadds'
    · intro heq env
      rw [← heq]
      exact publish_adds h hup hknown env channel m
  rw [hcount, AnnouncedOnce]
  by_cases hmem : channel.toUInt16 ∈ st.subscribed i
  · have hpos := List.count_pos_iff (a := channel.toUInt16) (l := announcedEntries peers st i)
    simp only [hmem, if_true, forall_const, ← hpos]
    omega
  · have hnever : channel.toUInt16 ∉ announcedEntries peers st i := fun hin => hmem (hsubset hin)
    simp [hmem, List.count_eq_zero.mpr hnever]

theorem announcedOnce_iff (h : Joined peers st) (hknown : Known peers st i)
    (hlength : (st.subscribed i).length ≤ 65535) (channel : UInt16) :
    AnnouncedOnce peers st i channel ↔ (st.subscribed i).count channel ≤ 1 := by
  have hentries : announcedEntries peers st i = st.subscribed i := by
    refine (h.told hknown.sent_ne_nil).surviving_eq fun k => announced_of_le ?_
    rw [List.length_take]
    omega
  rw [AnnouncedOnce, hentries]
  exact and_iff_left id

end

/-- In every reachable state with all packets of a side delivered to a peer whose own
tunnel is open. -/
theorem reached_once_iff (peers : Peers) (lib : Plist.Library) (s : Side → LocalBus)
    (es : List (Env × Event LocalBus)) (st : Link LocalBus)
    (run : Run (step peers lib SwiftRobotClient.application) (.initial peers lib s) es st)
    (i : Side) (hup : st.Up peers i.other) (hknown : Known peers st i)
    (hnone : st.inFlight peers i = []) (channel : UInt8) (m : Msg) :
    ReachedOnce peers st i channel m ↔ AnnouncedOnce peers st i channel.toUInt16 :=
  reachedOnce_iff (joined_of_run run) hup hknown hnone channel m

section

def subscribing (i : Side) (channel : UInt8) (kind : MsgKind) : List (Env × Event LocalBus) :=
  [(zeroStack, .application i (·.subscribe channel kind)),
    (zeroStack, .subscribe i channel.toUInt16)]

def connecting : List (Env × Event LocalBus) :=
  [.linkUp .a, .linkUp .b, .deliver .a [], .deliver .b [], .deliver .b [], .deliver .a []].map
    fun e => (zeroStack, e)

theorem reached_once_iff_single :
    ∃ st ∈ (subscribing .a 1 .uint8Array ++ connecting).foldlM
        (advance named noPlist SwiftRobotClient.application) (.initial named noPlist fun _ => .initial),
      ReachedOnce named st .a 1 (.uint8Array ⟨1, [7]⟩) := by
  have hend : ∃ st ∈ (subscribing .a 1 .uint8Array ++ connecting).foldlM
      (advance named noPlist SwiftRobotClient.application) (.initial named noPlist fun _ => .initial),
      st.Up named .b ∧ Known named st .a ∧ st.inFlight named .a = [] ∧ st.subscribed .a = [1] ∧
        announcedEntries named st .a = [1] := by
    decide +kernel
  obtain ⟨st, hrun, hup, hknown, hnone, hlist, hentries⟩ := hend
  refine ⟨st, hrun, ?_⟩
  rw [reached_once_iff named noPlist (fun _ => .initial) _ st (Run.iff_foldlM.mpr hrun) .a hup
    hknown hnone, AnnouncedOnce, hlist, hentries]
  decide

/-- With two subscribers of the peer on a channel, it is sent every message twice. -/
theorem two_subscribers_reached_twice : ¬ ∀ (peers : Peers) (lib : Plist.Library)
    (s : Side → LocalBus) (es : List (Env × Event LocalBus)) (st : Link LocalBus),
    Run (step peers lib SwiftRobotClient.application) (.initial peers lib s) es st →
    ∀ i, st.Up peers i.other → Known peers st i → st.inFlight peers i = [] →
      ∀ channel m, ReachedOnce peers st i channel m := by
  intro hall
  have hend : ∃ st ∈ (subscribing .a 1 .uint8Array ++ subscribing .a 1 .uint8Array ++
      connecting).foldlM (advance named noPlist SwiftRobotClient.application)
        (.initial named noPlist fun _ => .initial),
      st.Up named .b ∧ Known named st .a ∧ st.inFlight named .a = [] ∧
        announcedEntries named st .a = [1, 1] := by
    decide +kernel
  obtain ⟨st, hrun, hup, hknown, hnone, hentries⟩ := hend
  have hreached := hall named noPlist (fun _ => .initial) _ st (Run.iff_foldlM.mpr hrun) .a hup
    hknown hnone 1 (.uint8Array ⟨1, [7]⟩)
  rw [reachedOnce_iff (i := .a) (joined_of_run (Run.iff_foldlM.mpr hrun)) hup hknown hnone,
    AnnouncedOnce, hentries] at hreached
  exact absurd hreached.1 (by decide)

end

end SwiftRobot.RemoteDispatch
