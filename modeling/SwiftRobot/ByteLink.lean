import SwiftRobot.StreamReader
import SwiftRobot.SubscriptionAgreement

/-!
# The link byte by byte

The frames of each side are a stream of bytes, which the other side's loop takes in
whatever pieces its `recv` answers, between anything else that both sides do. The link of
packets is what this one amounts to, as long as no piece of a length is stored behind its
four bytes.
-/

namespace SwiftRobot.ByteLink
open ByteWords Reading PacketHeaders Connection ClientDispatcher FramingRoundTrip
open ReceiveLoop BodyReassembly StreamReader PeerLink PeerEnd SubscriptionAgreement ListReplica
open SocketClient (Cells Buffers Delivery)

def sending (stale : UInt32) : Call → Sending
  | .send protocol type tag data => ⟨protocol, type, tag, stale, .one data⟩
  | .send2 protocol type tag data1 data2 => ⟨protocol, type, tag, stale, .two data1 data2⟩
  | .sendPlist tag plist =>
    ⟨usbMuxPacketProtocolPlist, SocketClient.usbMuxPacketTypePlistPayload, tag, stale, .one plist⟩

section
variable (stale : UInt32) (p : Call)

@[simp] theorem sending_protocol : (sending stale p).protocol = p.protocol := by cases p <;> rfl

@[simp] theorem sending_type : (sending stale p).type = p.type := by cases p <;> rfl

@[simp] theorem sending_payload : (sending stale p).payload = p.payload := by cases p <;> rfl

end

/-- `reader i` is the loop that takes the bytes of side `i`, and `position i` the number of
bytes it has taken. -/
structure Streams (σ : Type) where
  dispatcher : Side → ClientDispatcher
  app : Side → σ
  reader : Side → ReceiveLoop.State
  position : Side → ℕ

inductive Move (σ : Type)
  -- a side acts by itself
  | own (e : PeerLink.Event σ)
  -- `recv` answers with `n` bytes of a side; `fresh` is what a new block holds
  | recv (i : Side) (n : ℕ) (fresh : Cells)

section
variable {σ : Type} (peers : Peers) (lib : Plist.Library) (app : Application σ)
  (stale : Side → ℕ → UInt32)

def Streams.link (st : Streams σ) : Link σ :=
  ⟨st.dispatcher, st.app, fun i => (st.reader i).calls.length⟩

def Streams.initial (s : Side → σ) (buffers : Side → Buffers) : Streams σ where
  dispatcher := (Link.initial peers lib s).dispatcher
  app := s
  reader i := ⟨.length 0 4, buffers i, 0, []⟩
  position _ := 0

def Streams.frames (st : Streams σ) (i : Side) : List Sending :=
  (st.link.sent peers i).mapIdx fun k p => sending (stale i k) p

def Streams.stream (st : Streams σ) (i : Side) : Bytes := wire (st.frames peers stale i)

def Streams.handed (env : Env) (st : Streams σ) (i : Side) (d : Delivery) : Option (Streams σ) :=
  ((st.dispatcher i.other).messageReceived env app lib (peers.deviceID i.other) d.header d.size
    (st.app i.other) (memory (st.reader i).buffers d)).value.map fun r =>
      { st with
        dispatcher := Function.update st.dispatcher i.other r.1
        app := Function.update st.app i.other r.2 }

def Streams.recv (env : Env) (st : Streams σ) (i : Side) (n : ℕ) (fresh : Cells) :
    Option (Streams σ) :=
  let reader := (st.reader i).take fresh
    (.data (((st.stream peers stale i).drop (st.position i)).take n))
  let st' := { st with
    reader := Function.update st.reader i reader
    position := Function.update st.position i (st.position i + n) }
  match reader.calls.drop (st.reader i).calls.length with
  | [] => some st'
  | callback :: _ => st'.handed peers lib app env i callback.delivery

/-- A `recv` answers with bytes that are there, at most as many as it was asked for; with
none where the socket was closed. Nothing follows an answer that is stored outside of its
buffer. -/
def Move.apply (env : Env) (st : Streams σ) : Move σ → Option (Streams σ)
  | .own (.deliver _ _) => none
  | .own e => (e.apply peers lib app env st.link).map fun link =>
    { st with dispatcher := link.dispatcher, app := link.app }
  | .recv i n fresh =>
    if n ≤ (st.reader i).phase.want ∧ st.position i + n ≤ (st.stream peers stale i).length ∧
        (st.reader i).Inside (.data (((st.stream peers stale i).drop (st.position i)).take n)) then
      st.recv peers lib app stale env i n fresh
    else none

def Streams.Fitting (st : Streams σ) : Prop :=
  ∀ i, ∀ p ∈ st.link.sent peers i, 16 + p.payload.length < 2 ^ 32

instance (st : Streams σ) : Decidable (st.Fitting peers) :=
  decidable_of_iff ((∀ p ∈ st.link.sent peers .a, 16 + p.payload.length < 2 ^ 32) ∧
    ∀ p ∈ st.link.sent peers .b, 16 + p.payload.length < 2 ^ 32)
    ⟨fun h i => by cases i with
      | a => exact h.1
      | b => exact h.2, fun h => ⟨h .a, h .b⟩⟩

def advance (st : Streams σ) (e : Env × Move σ) : Option (Streams σ) :=
  if st.Fitting peers then e.2.apply peers lib app stale e.1 st else none

def step (st : Streams σ) (e : Env × Move σ) (st' : Streams σ) : Prop :=
  advance peers lib app stale st e = some st'

end

section
variable {σ : Type} {peers : Peers} {lib : Plist.Library} {app : Application σ} {st st' : Link σ}

theorem sent_move {i : Side} {d' : ClientDispatcher} {c c' : Connection}
    (hc : Wired (peers.deviceID i) (st.dispatcher i) c) (hc' : Wired (peers.deviceID i) d' c')
    (hgrows : PeerLink.packets c <+: PeerLink.packets c') (s : Side → σ) (delivered : Side → ℕ)
    (j : Side) : st.sent peers j <+:
      Link.sent peers ⟨Function.update st.dispatcher i d', s, delivered⟩ j := by
  by_cases hj : j = i
  · subst hj
    simp only [Link.sent, Function.update_self, packetsTo_eq hc, packetsTo_eq hc']
    exact hgrows
  · simp only [Link.sent, Function.update_of_ne hj]
    exact List.prefix_rfl

theorem sent_on (h : Joined peers st) {i : Side}
    {f : ClientDispatcher → σ → Option (ClientDispatcher × σ)} (hrun : st.on i f = some st')
    (hf : ∀ r, f (st.dispatcher i) (st.app i) = some r →
      Keeps (peers.deviceID i) (peers.name i) (peers.name i.other) (st.dispatcher i) r.1)
    (j : Side) : st.sent peers j <+: st'.sent peers j := by
  obtain ⟨r, hr, rfl⟩ := Option.map_eq_some_iff.mp hrun
  obtain ⟨c, hc⟩ := (h i).2
  obtain ⟨c', hend, hgrows⟩ := hf r hr _ c hc
  exact sent_move hc.hub hend.hub hgrows _ _ j

theorem next_spoken (h : Joined peers st) {i : Side} {p : Call} {rest : List Call}
    (hflight : st.inFlight peers i = p :: rest) :
    Spoken (peers.name i) p ∧ (st.handled peers i = [] → (note p).IsSnapshot) := by
  obtain ⟨e, he⟩ := (h i).2
  have hsplit : PeerLink.packets e = st.handled peers i ++ p :: rest := by
    rw [← packetsTo_eq he.hub, ← hflight]
    exact (List.take_append_drop _ _).symm
  refine ⟨he.speaks.spoken p (by simp [hsplit]), fun hnil => ?_⟩
  obtain ⟨n, ns, hmap, hn⟩ := (he.speaks.told (by simp [hsplit])).head
  rw [hsplit, hnil, List.nil_append, List.map_cons, List.cons.injEq] at hmap
  rw [hmap.1]
  exact hn

theorem sent_deliver (h : Joined peers st) {i : Side} {p : Call} {rest : List Call}
    (hflight : st.inFlight peers i = p :: rest) {env : Env} {tail : Bytes}
    (hrun : st.on i.other (receive lib app env (peers.deviceID i.other) p tail) = some st')
    (j : Side) : st.sent peers j <+: st'.sent peers j := by
  obtain ⟨⟨d', s'⟩, hr, rfl⟩ := Option.map_eq_some_iff.mp hrun
  obtain ⟨c, hc⟩ := (h i.other).2
  obtain ⟨hspoken, hfirst⟩ := next_spoken h hflight
  have hend := hc
  rw [Side.other_other] at hend
  obtain ⟨c', hend', hgrows⟩ := hend.receive env lib app _ (peers.addressable i.other)
    (peers.noNul i.other) (peers.noNul i) hspoken hfirst hr
  exact sent_move hc.hub hend'.hub hgrows _ _ j

theorem sent_grows (h : Joined peers st) {e : Env × PeerLink.Event σ}
    (hs : PeerLink.step peers lib app st e st') (j : Side) :
    st.sent peers j <+: st'.sent peers j := by
  obtain ⟨env, e⟩ := e
  simp only [PeerLink.step, PeerLink.advance] at hs
  cases e with
  | linkUp i => exact sent_on h hs (fun r hr => tunnelOpened_keeps env (peers.noNul i) hr) j
  | subscribe i channel =>
    simp only [Event.apply] at hs
    refine sent_on h hs (fun r hr => ?_) j
    rw [← Option.some.inj hr]
    exact subscribeRequest_keeps channel
  | deliver i tail =>
    simp only [Event.apply] at hs
    cases hflight : st.inFlight peers i with
    | nil => simp [hflight] at hs
    | cons p rest =>
      rw [hflight] at hs
      obtain ⟨st₁, hon, rfl⟩ := Option.map_eq_some_iff.mp hs
      exact sent_deliver h hflight hon j
  | dispatchMessage i channel msg size type =>
    simp only [Event.apply] at hs
    refine sent_on h hs (fun r hr => ?_) j
    obtain ⟨d, hd, rfl⟩ := Option.map_eq_some_iff.mp hr
    exact dispatchMessage_keeps env (peers.addressable i) hd
  | start i =>
    simp only [Event.apply] at hs
    refine sent_on h hs (fun r hr => ?_) j
    rw [← Option.some.inj hr]
    exact start_keeps env lib
  | keepAliveCheck i =>
    simp only [Event.apply] at hs
    refine sent_on h hs (fun r hr => ?_) j
    obtain ⟨d, hd, rfl⟩ := Option.map_eq_some_iff.mp hr
    exact keepAliveCheck_keeps env (peers.addressable i) hd
  | application i f =>
    simp only [Event.apply] at hs
    refine sent_on h hs (fun r hr => ?_) j
    rw [← Option.some.inj hr]
    exact .refl _

theorem on_delivered {i : Side} {f : ClientDispatcher → σ → Option (ClientDispatcher × σ)}
    (hrun : st.on i f = some st') : st'.delivered = st.delivered := by
  obtain ⟨r, -, rfl⟩ := Option.map_eq_some_iff.mp hrun
  rfl

theorem own_delivered {env : Env} {e : PeerLink.Event σ} (he : ∀ i tail, e ≠ .deliver i tail)
    (hs : e.apply peers lib app env st = some st') : st'.delivered = st.delivered := by
  cases e with
  | deliver i tail => exact absurd rfl (he i tail)
  | linkUp i => exact on_delivered hs
  | subscribe i channel | dispatchMessage i channel msg size type | start i | keepAliveCheck i
  | application i f =>
    simp only [Event.apply] at hs
    exact on_delivered hs

theorem messageReceived_header (env : Env) (deviceID : ℤ)
    {header header' : SocketClient.PacketHeader} (hprotocol : header.protocol = header'.protocol)
    (htype : header.type = header'.type) (size : ℕ) (d : ClientDispatcher) (s : σ) :
    d.messageReceived env app lib deviceID header size s =
      d.messageReceived env app lib deviceID header' size s := by
  simp only [ClientDispatcher.messageReceived, USBHub.messageReceived, Connection.messageReceived,
    hprotocol, htype]

end

section
variable {σ : Type} {peers : Peers} {lib : Plist.Library} {app : Application σ}
  {stale : Side → ℕ → UInt32} {st st' : Streams σ}

/-- The packets that have arrived are those before the place of the loop in the stream. -/
structure Follows (peers : Peers) (stale : Side → ℕ → UInt32) (st : Streams σ) : Prop where
  joined : Joined peers st.link
  reads : ∀ i, Reads (st.frames peers stale i) (st.reader i) (st.position i)
  buffered : ∀ i, Buffered (st.reader i)

theorem frames_grow {i : Side} (h : st.link.sent peers i <+: st'.link.sent peers i) :
    st.frames peers stale i <+: st'.frames peers stale i := by
  obtain ⟨more, hmore⟩ := h
  rw [Streams.frames, Streams.frames, ← hmore, List.mapIdx_append]
  exact List.prefix_append _ _

theorem mem_frames {i : Side} {k : ℕ} {f : Sending} (hk : (st.frames peers stale i)[k]? = some f) :
    ∃ p, (st.link.sent peers i)[k]? = some p ∧ f = sending (stale i k) p := by
  rw [Streams.frames, List.getElem?_mapIdx, Option.map_eq_some_iff] at hk
  obtain ⟨p, hp, rfl⟩ := hk
  exact ⟨p, hp, rfl⟩

theorem frames_fit (hfit : st.Fitting peers) (i : Side) :
    ∀ f ∈ st.frames peers stale i, 16 + f.payload.length < 2 ^ 32 := by
  intro f hf
  obtain ⟨k, hk⟩ := List.getElem?_of_mem hf
  obtain ⟨p, hp, rfl⟩ := mem_frames hk
  rw [sending_payload]
  exact hfit i p (List.mem_of_getElem? hp)

theorem follows_initial {buffers : Side → Buffers} (hbuffers : ∀ i, Sound (buffers i))
    (s : Side → σ) : Follows peers stale (.initial peers lib s buffers) := by
  have hjoined : Joined peers (Streams.initial peers lib s buffers).link :=
    joined_initial peers lib s
  have hboundary (i : Side) := @Reads.boundary
    ((Streams.initial peers lib s buffers).frames peers stale i)
    ((Streams.initial peers lib s buffers).reader i) rfl (hbuffers i) (Nat.zero_le _)
  exact ⟨hjoined, fun i => hboundary i, fun i => ⟨(hbuffers i).fits, trivial⟩⟩

theorem Follows.own (h : Follows peers stale st) {env : Env} {e : PeerLink.Event σ}
    (hs : (Move.own e).apply peers lib app stale env st = some st') :
    PeerLink.step peers lib app st.link (env, e) st'.link ∧ Follows peers stale st' := by
  have hown : (∀ i tail, e ≠ .deliver i tail) ∧
      (e.apply peers lib app env st.link).map (fun link =>
        { st with dispatcher := link.dispatcher, app := link.app }) = some st' := by
    cases e with
    | deliver i tail => exact absurd hs (by simp [Move.apply])
    | linkUp | subscribe | dispatchMessage | start | keepAliveCheck | application =>
      exact ⟨fun _ _ => by simp, hs⟩
  obtain ⟨hne, hrun⟩ := hown
  obtain ⟨link, hlink, rfl⟩ := Option.map_eq_some_iff.mp hrun
  have hdelivered := own_delivered hne hlink
  have hsame : Streams.link { st with dispatcher := link.dispatcher, app := link.app } = link := by
    rw [Streams.link]
    exact congrArg _ hdelivered.symm
  have hstep : PeerLink.step peers lib app st.link (env, e) link := hlink
  rw [hsame]
  refine ⟨hstep, hsame.symm ▸ h.joined.step hstep, fun i => (h.reads i).grow (frames_grow ?_),
    h.buffered⟩
  rw [hsame]
  exact sent_grows h.joined hstep i

theorem Follows.next (h : Follows peers stale st) {i : Side} {dispatcher : Side → ClientDispatcher}
    {s : Side → σ} {reader : ReceiveLoop.State} {position : ℕ}
    (hread : Reads (st.frames peers stale i) reader position) (hbuffered : Buffered reader)
    (hst' : st' = ⟨dispatcher, s, Function.update st.reader i reader,
      Function.update st.position i position⟩)
    (hjoined : Joined peers st'.link)
    (hgrows : ∀ j, st.link.sent peers j <+: st'.link.sent peers j) : Follows peers stale st' := by
  refine ⟨hjoined, fun j => ?_, fun j => ?_⟩
  · have hframes := @frames_grow σ peers stale st st' j (hgrows j)
    subst hst'
    by_cases hj : j = i
    · subst hj
      simp only [Function.update_self]
      exact hread.grow hframes
    · simp only [Function.update_of_ne hj]
      exact (h.reads j).grow hframes
  · subst hst'
    by_cases hj : j = i
    · subst hj
      simpa only [Function.update_self] using hbuffered
    · simpa only [Function.update_of_ne hj] using h.buffered j

theorem Follows.protocol (h : Follows peers stale st) {i : Side} {p : Call}
    (hp : p ∈ st.link.sent peers i) : p.protocol = swiftRobotPacketProtocol := by
  obtain ⟨c, hc⟩ := (h.joined i).2
  rw [Link.sent, packetsTo_eq hc.hub, PeerLink.packets, List.mem_filter, beq_iff_eq] at hp
  exact hp.2

/-- A callback is the arrival of the next packet of the side that is read. -/
theorem Follows.hands (h : Follows peers stale st) {env : Env} {i : Side} {f : Sending}
    {reader : ReceiveLoop.State} {d : Delivery} (position : ℕ)
    (hk : (st.frames peers stale i)[(st.reader i).calls.length]? = some f)
    (hhands : Hands f (st.reader i) reader d)
    (hs : Streams.handed peers lib app env { st with
      reader := Function.update st.reader i reader
      position := Function.update st.position i position } i d = some st') :
    ∃ tail, PeerLink.step peers lib app st.link (env, .deliver i tail) st'.link ∧
      ∃ dispatcher s, st' = ⟨dispatcher, s, Function.update st.reader i reader,
        Function.update st.position i position⟩ := by
  obtain ⟨p, hp, rfl⟩ := mem_frames hk
  obtain ⟨tail, htail⟩ := hhands.memory
  obtain ⟨got, hcalls⟩ := hhands.calls
  have hflight : st.link.inFlight peers i =
      p :: (st.link.sent peers i).drop ((st.reader i).calls.length + 1) := by
    obtain ⟨hlt, rfl⟩ := List.getElem?_eq_some_iff.mp hp
    exact List.drop_eq_getElem_cons hlt
  have hprotocol : d.header.protocol = (HubRouting.swiftRobotHeader p.type p.payload).protocol := by
    rw [hhands.protocol, sending_protocol, h.protocol (List.mem_of_getElem? hp)]
    rfl
  have htype : d.header.type = (HubRouting.swiftRobotHeader p.type p.payload).type := by
    rw [hhands.type, sending_type]
    rfl
  rw [Streams.handed] at hs
  simp only [Function.update_self] at hs
  rw [messageReceived_header env _ hprotocol htype, hhands.size, htail, sending_payload] at hs
  obtain ⟨r, hr, rfl⟩ := Option.map_eq_some_iff.mp hs
  refine ⟨tail, ?_, _, _, rfl⟩
  have hreceive : receive lib app env (peers.deviceID i.other) p tail (st.link.dispatcher i.other)
      (st.link.app i.other) = some r := hr
  simp only [PeerLink.step, PeerLink.advance, Event.apply, hflight, Link.on, hreceive,
    Option.map_some, Option.some.injEq]
  simp only [Streams.link, Link.mk.injEq, true_and]
  funext j
  by_cases hj : j = i
  · subst hj
    rw [Function.update_self, Function.update_self, hcalls, List.length_append]
    rfl
  · rw [Function.update_of_ne hj, Function.update_of_ne hj]

theorem Follows.recv (h : Follows peers stale st) (hfit : st.Fitting peers) {env : Env} {i : Side}
    {n : ℕ} {fresh : Cells}
    (hs : (Move.recv i n fresh).apply peers lib app stale env st = some st') :
    ∃ es, Run (PeerLink.step peers lib app) st.link es st'.link ∧ Follows peers stale st' := by
  simp only [Move.apply] at hs
  split_ifs at hs with hready
  obtain ⟨hread, hcalls⟩ :=
    (h.reads i).take fresh (frames_fit hfit i) (h.buffered i) hready.1 hready.2.1
  have hbuffered := @take_buffered fresh _ (h.buffered i)
    (.data (((st.stream peers stale i).drop (st.position i)).take n))
  rw [Streams.recv] at hs
  rw [← Streams.stream] at hread hcalls
  generalize (st.reader i).take fresh (.data (((st.stream peers stale i).drop
    (st.position i)).take n)) = reader at hs hread hcalls hbuffered
  rcases hcalls with hcalls | ⟨f, d, hk, hhands⟩
  · simp only [hcalls, List.drop_length, Option.some.injEq] at hs
    have hlink : st'.link = st.link := by
      rw [← hs]
      simp only [Streams.link, Link.mk.injEq, true_and]
      funext j
      by_cases hj : j = i
      · subst hj
        rw [Function.update_self, hcalls]
      · rw [Function.update_of_ne hj]
    exact ⟨[], hlink ▸ .nil, h.next hread hbuffered hs.symm (hlink ▸ h.joined)
      fun j => hlink.symm ▸ List.prefix_rfl⟩
  · obtain ⟨got, hcalls⟩ := hhands.calls
    simp only [hcalls, List.drop_left] at hs
    obtain ⟨tail, hstep, dispatcher, s, hst'⟩ := h.hands _ hk hhands hs
    exact ⟨_, .single hstep, h.next hread hbuffered hst' (h.joined.step hstep)
      fun j => sent_grows h.joined hstep j⟩

theorem Follows.simulates {buffers : Side → Buffers} (hbuffers : ∀ i, Sound (buffers i))
    {s : Side → σ} {es : List (Env × Move σ)}
    (run : Run (step peers lib app stale) (.initial peers lib s buffers) es st) :
    ∃ es', Run (PeerLink.step peers lib app) (.initial peers lib s) es' st.link ∧
      Follows peers stale st := by
  have hmatch : ∀ st e st' link, (link = st.link ∧ Follows peers stale st) →
      step peers lib app stale st e st' →
        ∃ fs link', Run (PeerLink.step peers lib app) link fs link' ∧
          (link' = st'.link ∧ Follows peers stale st') := by
    rintro st ⟨env, e⟩ st' _ ⟨rfl, h⟩ hs
    rw [step, advance] at hs
    split_ifs at hs with hfit
    cases e with
    | own e =>
      obtain ⟨hstep, h'⟩ := h.own hs
      exact ⟨_, _, .single hstep, rfl, h'⟩
    | recv i n fresh =>
      obtain ⟨es', run', h'⟩ := h.recv hfit hs
      exact ⟨es', _, run', rfl, h'⟩
  have hinitial : Link.initial peers lib s = (Streams.initial peers lib s buffers).link := rfl
  obtain ⟨es', link, run', rfl, h⟩ :=
    run.simulates hmatch ⟨hinitial, follows_initial hbuffers s⟩
  exact ⟨es', run', h⟩

end

/-- Whatever pieces the bytes come in, both sides do what they do where whole packets come. -/
theorem packet_run {σ : Type} {peers : Peers} {lib : Plist.Library} {app : Application σ}
    {stale : Side → ℕ → UInt32} {buffers : Side → Buffers} (hbuffers : ∀ i, Sound (buffers i))
    {s : Side → σ} {es : List (Env × Move σ)} {st : Streams σ}
    (run : Run (step peers lib app stale) (.initial peers lib s buffers) es st) :
    ∃ es', Run (PeerLink.step peers lib app) (.initial peers lib s) es' st.link := by
  obtain ⟨es', run', -⟩ := Follows.simulates hbuffers run
  exact ⟨es', run'⟩

def inPieces : List (Env × Move ℕ) :=
  [.own (.subscribe .a 1), .own (.linkUp .a), .own (.linkUp .b), .recv .a 4 fun _ => 0,
    .recv .a 5 fun _ => 0, .recv .a 13 fun _ => 0].map fun e => (zeroStack, e)

def emptyBuffers : Side → Buffers := fun _ => Buffers.opened fun _ => 0

theorem packet_run_inPieces :
    ∃ st ∈ (inPieces.take 5).foldlM (advance named noPlist counting fun _ _ => 7)
        (.initial named noPlist (fun _ => 0) emptyBuffers),
      st.position .a = 9 ∧ ∃ es', Run (PeerLink.step named noPlist counting)
        (.initial named noPlist fun _ => 0) es' st.link := by
  have hend : ∃ st ∈ (inPieces.take 5).foldlM (advance named noPlist counting fun _ _ => 7)
      (.initial named noPlist (fun _ => 0) emptyBuffers), st.position .a = 9 := by
    decide +kernel
  obtain ⟨st, hrun, hposition⟩ := hend
  exact ⟨st, hrun, hposition, packet_run (fun _ => opened_sound _) (Run.iff_foldlM.mpr hrun)⟩

/-- Once the bytes of a side are read, with no length cut in two, its peer has its list. -/
theorem read_out_agrees {σ : Type} {peers : Peers} {lib : Plist.Library} {app : Application σ}
    {stale : Side → ℕ → UInt32} {buffers : Side → Buffers} (hbuffers : ∀ i, Sound (buffers i))
    {s : Side → σ} {es : List (Env × Move σ)} {st : Streams σ}
    (run : Run (step peers lib app stale) (.initial peers lib s buffers) es st) {i : Side}
    (hread : st.position i = (st.stream peers stale i).length)
    (hwaits : (st.reader i).phase = .length 0 4) (hsent : st.link.sent peers i ≠ [])
    (hlength : (st.link.subscribed i).length ≤ 65535) (channel : UInt16) :
    channel ∈ st.link.held peers i ↔ channel ∈ st.link.subscribed i := by
  obtain ⟨-, -, h⟩ := Follows.simulates hbuffers run
  have hreads := h.reads i
  rw [hread] at hreads
  have hall : (st.reader i).calls.length = (st.link.sent peers i).length := by
    rw [hreads.whole hwaits, Streams.frames, List.length_mapIdx]
  have hhandled : st.link.handled peers i = st.link.sent peers i := by
    have hdelivered : st.link.delivered i = (st.link.sent peers i).length := hall
    rw [Link.handled, hdelivered, List.take_length]
  have htold := h.joined.told hsent
  rw [← List.append_nil (List.map note _)] at htold
  have hwhole : ∀ k, MessageConnectHeader.announced ((st.link.subscribed i).take k) =
      (st.link.subscribed i).take k := by
    intro k
    refine MessageConnectHeader.announced_of_le ?_
    rw [List.length_take]
    omega
  rw [h.joined.held_eq, hhandled,
    ← htold.agreement MessageConnectHeader.announced_subset hwhole channel]
  simp [carried]

theorem read_out_agrees_inPieces :
    ∃ st ∈ inPieces.foldlM (advance named noPlist counting fun _ _ => 7)
        (.initial named noPlist (fun _ => 0) emptyBuffers),
      st.position .a = 22 ∧
        ∀ channel, channel ∈ st.link.held named .a ↔ channel ∈ st.link.subscribed .a := by
  have hend : ∃ st ∈ inPieces.foldlM (advance named noPlist counting fun _ _ => 7)
      (.initial named noPlist (fun _ => 0) emptyBuffers),
      st.position .a = 22 ∧ st.position .a = (st.stream named (fun _ _ => 7) .a).length ∧
        (st.reader .a).phase = .length 0 4 ∧ st.link.sent named .a ≠ [] ∧
          (st.link.subscribed .a).length ≤ 65535 := by
    decide +kernel
  obtain ⟨st, hrun, hposition, hread, hwaits, hsent, hlength⟩ := hend
  exact ⟨st, hrun, hposition, read_out_agrees (fun _ => opened_sound _) (Run.iff_foldlM.mpr hrun)
    hread hwaits hsent hlength⟩

end SwiftRobot.ByteLink
