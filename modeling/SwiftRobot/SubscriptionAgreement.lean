import SwiftRobot.PeerEnd

/-!
# What two peers know of each other

Over any interleaving of both sides, what a side has noted down for its peer, together
with what the peer's packets on the way to it carry, is what the peer has subscribed to.
-/

namespace SwiftRobot.SubscriptionAgreement
open ByteWords PacketHeaders MessageConnectHeader Connection ClientDispatcher ListReplica
open PeerLink PeerEnd

section
variable {σ : Type} {peers : Peers} {lib : Plist.Library} {app : Application σ} {st st' : Link σ}

/-- Each side is an end of the link that has heard what its peer has sent so far and
was delivered. -/
def Joined (peers : Peers) (st : Link σ) : Prop :=
  ∀ i, st.delivered i ≤ (st.sent peers i).length ∧ ∃ c, End (peers.deviceID i) (peers.name i)
    (peers.name i.other) (st.handled peers i.other) (st.dispatcher i) c

theorem packetsTo_eq {deviceID : ℤ} {d : ClientDispatcher} {c : Connection}
    (h : Wired deviceID d c) : packetsTo deviceID d = packets c := by
  obtain ⟨hub, hhub, ha⟩ := h
  simp [packetsTo, hhub, ha.find?]

theorem joined_initial (peers : Peers) (lib : Plist.Library) (s : Side → σ) :
    Joined peers (.initial peers lib s) := by
  intro i
  refine ⟨Nat.zero_le _, _, ⟨_, rfl, rfl, rfl⟩, rfl, ⟨rfl, rfl, ?_, ?_, ?_⟩, ?_, rfl⟩
  -- a connection that waits for its tunnel has sent nothing but the request for it
  · exact iff_of_false ConnectionStatus.noConfusion (not_not.mpr rfl)
  · exact fun hne => absurd rfl hne
  · exact fun p hp => absurd hp List.not_mem_nil
  · exact fun hne => absurd rfl hne

theorem Joined.move (h : Joined peers st) {i : Side} {d' : ClientDispatcher} {c c' : Connection}
    {n : ℕ} (s : Side → σ)
    (hc : End (peers.deviceID i) (peers.name i) (peers.name i.other) (st.handled peers i.other)
      (st.dispatcher i) c)
    (hn : n ≤ (st.sent peers i.other).length)
    (hend : End (peers.deviceID i) (peers.name i) (peers.name i.other)
      ((st.sent peers i.other).take n) d' c')
    (hgrows : packets c <+: packets c') :
    Joined peers ⟨Function.update st.dispatcher i d', s,
      Function.update st.delivered i.other n⟩ := by
  have hsent : st.sent peers i = packets c := packetsTo_eq hc.hub
  have hne : i.other ≠ i := i.other_ne
  intro j
  rcases Side.eq_or_eq_other i j with rfl | rfl
  · simp only [Link.handled, Link.sent, Function.update_self, Function.update_of_ne hne,
      Function.update_of_ne hne.symm, packetsTo_eq hend.hub]
    refine ⟨((h j).1.trans (by rw [hsent])).trans hgrows.length_le, c', hend⟩
  · obtain ⟨e, he⟩ := (h i.other).2
    -- what was delivered from the side that moved is a first part of what it had sent
    have htake : (packets c').take (st.delivered i) = st.handled peers i := by
      obtain ⟨more, hmore⟩ := hgrows
      have hle := (h i).1
      rw [Link.handled, hsent, ← hmore, List.take_append_of_le_length (by rwa [hsent] at hle)]
    simp only [Link.handled, Link.sent, Function.update_self, Function.update_of_ne hne,
      Side.other_other, Function.update_of_ne hne.symm, packetsTo_eq hend.hub, htake]
    refine ⟨hn, e, ?_⟩
    rw [Side.other_other] at he
    exact he

theorem Joined.on (h : Joined peers st) {i : Side}
    {f : ClientDispatcher → σ → Option (ClientDispatcher × σ)} (hrun : st.on i f = some st')
    (hf : ∀ r, f (st.dispatcher i) (st.app i) = some r →
      Keeps (peers.deviceID i) (peers.name i) (peers.name i.other) (st.dispatcher i) r.1) :
    Joined peers st' := by
  obtain ⟨r, hr, rfl⟩ := Option.map_eq_some_iff.mp hrun
  obtain ⟨c, hc⟩ := (h i).2
  obtain ⟨c', hend, hgrows⟩ := hf r hr _ c hc
  have hmove := h.move (Function.update st.app i r.2) hc (h i.other).1 hend hgrows
  rwa [Function.update_eq_self] at hmove

theorem Joined.deliver (h : Joined peers st) {i : Side} {p : Call} {rest : List Call}
    (hflight : st.inFlight peers i = p :: rest) {env : Env} {tail : Bytes}
    (hrun : st.on i.other (receive lib app env (peers.deviceID i.other) p tail) = some st') :
    Joined peers { st' with delivered := Function.update st'.delivered i (st'.delivered i + 1) } := by
  obtain ⟨⟨d', s'⟩, hr, rfl⟩ := Option.map_eq_some_iff.mp hrun
  obtain ⟨c, hc⟩ := (h i.other).2
  obtain ⟨e, he⟩ := (h i).2
  rw [Side.other_other] at hc
  have hsent : st.sent peers i = packets e := packetsTo_eq he.hub
  have hsplit : packets e = st.handled peers i ++ p :: rest := by
    rw [← hsent, ← hflight]
    exact (List.take_append_drop _ _).symm
  have hspoken : Spoken (peers.name i) p := he.speaks.spoken p (by simp [hsplit])
  have hfirst : st.handled peers i = [] → (note p).IsSnapshot := by
    intro hnil
    obtain ⟨n, ns, hmap, hn⟩ := (he.speaks.told (by simp [hsplit])).head
    rw [hsplit, hnil, List.nil_append, List.map_cons, List.cons.injEq] at hmap
    rw [hmap.1]
    exact hn
  obtain ⟨c', hend, hgrows⟩ := hc.receive env lib app _ (peers.addressable i.other)
    (peers.noNul i.other) (peers.noNul i) hspoken hfirst hr
  have hlt : st.delivered i < (st.sent peers i).length := by
    have hpos : 0 < (st.inFlight peers i).length := by simp [hflight]
    rw [Link.inFlight, List.length_drop] at hpos
    omega
  have htake : (st.sent peers i).take (st.delivered i + 1) = st.handled peers i ++ [p] := by
    have hlen : (st.handled peers i).length = st.delivered i := by
      rw [Link.handled, List.length_take]
      omega
    rw [hsent, hsplit, ← hlen, List.take_length_add_append]
    rfl
  have hmove := h.move (i := i.other) (n := st.delivered i + 1)
    (Function.update st.app i.other s') (by rwa [Side.other_other])
    (by rwa [Side.other_other]) (by rwa [Side.other_other, htake]) hgrows
  rwa [Side.other_other] at hmove

theorem Joined.step {e : Env × Event σ} (h : Joined peers st)
    (hs : step peers lib app st e st') : Joined peers st' := by
  obtain ⟨env, e⟩ := e
  simp only [PeerLink.step, advance] at hs
  cases e with
  | linkUp i => exact h.on hs fun r hr => tunnelOpened_keeps env (peers.noNul i) hr
  | subscribe i channel =>
    simp only [Event.apply] at hs
    refine h.on hs fun r hr => ?_
    rw [← Option.some.inj hr]
    exact subscribeRequest_keeps channel
  | deliver i tail =>
    simp only [Event.apply] at hs
    cases hflight : st.inFlight peers i with
    | nil => simp [hflight] at hs
    | cons p rest =>
      rw [hflight] at hs
      obtain ⟨st₁, hon, rfl⟩ := Option.map_eq_some_iff.mp hs
      exact h.deliver hflight hon
  | dispatchMessage i channel msg size type =>
    simp only [Event.apply] at hs
    refine h.on hs fun r hr => ?_
    obtain ⟨d, hd, rfl⟩ := Option.map_eq_some_iff.mp hr
    exact dispatchMessage_keeps env (peers.addressable i) hd
  | start i =>
    simp only [Event.apply] at hs
    refine h.on hs fun r hr => ?_
    rw [← Option.some.inj hr]
    exact start_keeps env lib
  | keepAliveCheck i =>
    simp only [Event.apply] at hs
    refine h.on hs fun r hr => ?_
    obtain ⟨d, hd, rfl⟩ := Option.map_eq_some_iff.mp hr
    exact keepAliveCheck_keeps env (peers.addressable i) hd
  | application i f =>
    simp only [Event.apply] at hs
    refine h.on hs fun r hr => ?_
    rw [← Option.some.inj hr]
    exact .refl _

theorem joined_of_run {s : Side → σ} {es : List (Env × Event σ)}
    (run : Run (step peers lib app) (.initial peers lib s) es st) : Joined peers st :=
  run.invariant (fun _ _ _ h hs => h.step hs) (joined_initial peers lib s)

theorem Joined.held_eq (h : Joined peers st) (i : Side) :
    st.held peers i = replay [] ((st.handled peers i).map note) := by
  obtain ⟨c, hc⟩ := (h i.other).2
  have hheld := hc.held
  rwa [Side.other_other] at hheld

theorem Joined.told (h : Joined peers st) {i : Side} (hsent : st.sent peers i ≠ []) :
    Told announced (st.subscribed i) ((st.sent peers i).map note) := by
  obtain ⟨c, hc⟩ := (h i).2
  have hpackets : st.sent peers i = packets c := packetsTo_eq hc.hub
  rw [hpackets] at hsent ⊢
  exact hc.speaks.told hsent

def Known (peers : Peers) (st : Link σ) (i : Side) : Prop :=
  ∃ p ∈ st.handled peers i,
    p.type = PacketType.connect.code ∨ p.type = PacketType.connectAck.code

instance (peers : Peers) (st : Link σ) (i : Side) : Decidable (Known peers st i) := by
  unfold Known
  infer_instance

theorem Known.sent_ne_nil {i : Side} (h : Known peers st i) : st.sent peers i ≠ [] := by
  obtain ⟨p, hp, -⟩ := h
  exact List.ne_nil_of_mem (List.mem_of_mem_take hp)

end

/-- In every reachable state of the link. -/
theorem subscriptions_agree {σ : Type} (peers : Peers) (lib : Plist.Library) (app : Application σ)
    (s : Side → σ) (es : List (Env × Event σ)) (st : Link σ)
    (run : Run (step peers lib app) (.initial peers lib s) es st) (i : Side)
    (hlength : (st.subscribed i).length ≤ 65535) (hknown : Known peers st i) :
    (∀ channel, channel ∈ st.held peers i ∨
        channel ∈ carried ((st.inFlight peers i).map note) ↔ channel ∈ st.subscribed i) ∧
      (st.inFlight peers i = [] →
        ∀ channel, channel ∈ st.held peers i ↔ channel ∈ st.subscribed i) := by
  have hjoined := joined_of_run run
  have htold := hjoined.told hknown.sent_ne_nil
  have hsplit : (st.sent peers i).map note =
      (st.handled peers i).map note ++ (st.inFlight peers i).map note := by
    rw [← List.map_append, Link.handled, Link.inFlight, List.take_append_drop]
  rw [hsplit] at htold
  have hwhole : ∀ k, announced ((st.subscribed i).take k) = (st.subscribed i).take k := by
    intro k
    refine announced_of_le ?_
    rw [List.length_take]
    omega
  have hagree : ∀ channel, channel ∈ st.held peers i ∨
      channel ∈ carried ((st.inFlight peers i).map note) ↔ channel ∈ st.subscribed i := by
    intro channel
    rw [hjoined.held_eq]
    exact htold.agreement announced_subset hwhole channel
  refine ⟨hagree, fun hnone channel => ?_⟩
  rw [← hagree, hnone]
  simp [carried]

section

def named : Peers where
  name
    | .a => [65]
    | .b => [66]
  port _ := 5000
  device _ := ⟨1, 0, 0, 0, [], []⟩
  noNul i := by cases i <;> decide
  addressable _ := by decide

def noPlist : Plist.Library :=
  ⟨fun _ => .error .thrown, fun _ _ _ => .error .thrown, fun _ => [], fun _ => true⟩

def counting : Application ℕ := ⟨fun _ _ _ s => return s + 1, fun _ _ s => s⟩

def zeroStack : Env := ⟨0, 0, 0, fun _ _ => 0⟩

def crossing : List (Env × Event ℕ) :=
  [.subscribe .a 1, .linkUp .a, .linkUp .b, .subscribe .a 2, .deliver .a [], .deliver .a [],
    .deliver .b [], .deliver .a [], .subscribe .a 3].map fun e => (zeroStack, e)

theorem subscriptions_agree_crossing :
    ∃ st ∈ crossing.foldlM (advance named noPlist counting) (.initial named noPlist fun _ => 0),
      (st.inFlight named .a).length = 1 ∧ ∀ channel, channel ∈ st.held named .a ∨
        channel ∈ carried ((st.inFlight named .a).map note) ↔ channel ∈ st.subscribed .a := by
  have hend : ∃ st ∈ crossing.foldlM (advance named noPlist counting)
      (.initial named noPlist fun _ => 0),
      (st.inFlight named .a).length = 1 ∧ (st.subscribed .a).length ≤ 65535 ∧
        Known named st .a := by
    decide +kernel
  obtain ⟨st, hrun, hflight, hlength, hknown⟩ := hend
  exact ⟨st, hrun, hflight, (subscriptions_agree named noPlist counting (fun _ => 0) crossing st
    (Run.iff_foldlM.mpr hrun) .a hlength hknown).1⟩

end

end SwiftRobot.SubscriptionAgreement
