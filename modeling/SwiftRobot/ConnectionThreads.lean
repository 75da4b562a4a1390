import SwiftRobot.Connection
import SwiftRobot.Support.Runs
import Mathlib.Data.Fintype.Basic

/-!
# The threads of a connection

Any number of threads call `startConnection`, `connect`, `disconnect`, `send` and `send2` on
one connection to a device, statement by statement, and its listening thread handles what
usbmuxd and the peer send. Sockets are numbered in the order in which they are opened.
-/

namespace SwiftRobot.ConnectionThreads
open ByteWords PacketHeaders Connection

inductive Packet
  | send (type : PacketType) (data : Bytes)
  | send2 (type : PacketType) (data1 data2 : Bytes)
  deriving DecidableEq

def Packet.call (tag : UInt32) : Packet → Call
  | .send type data => .send swiftRobotPacketProtocol type.code tag data
  | .send2 type data1 data2 => .send2 swiftRobotPacketProtocol type.code tag data1 data2

inductive Sending
  | idle
  -- `if (status == CONNECTED)`
  | gate (p : Packet)
  | pass (p : Packet)
  -- `tag++`
  | count
  deriving DecidableEq

inductive Caller
  | connect
  | disconnect
  deriving DecidableEq

inductive Phase
  | send (s : Sending)
  -- `status = WANTING_CONNECTION`
  | want
  -- `if (status == WANTING_CONNECTION)`
  | test
  | shutdown (c : Caller)
  | join (c : Caller)
  | release (c : Caller)
  | opens
  | listens
  | requests
  | counts
  -- `status = CONNECTING`
  | connecting
  -- `if (status != IDLE)`
  | asks
  -- `status = CONNECTED`
  | aborts
  | reports
  -- `status = IDLE`, with or without a socket that was closed before
  | idles (closed : Bool)
  deriving DecidableEq

def Caller.next : Caller → Phase
  | .connect => .opens
  | .disconnect => .reports

/-- What a system call comes to. An `open` that fails early leaves `socket_fd` alone. -/
inductive Outcome
  | success
  | untouched
  | failure
  deriving DecidableEq

/-- What the listening thread does next: a Result writes the status, and then callbacks
run, which can send. -/
inductive Handler
  | receiving
  | ok
  | refused
  | callback (s : Sending)
  | ended
  deriving DecidableEq

/-- `on` is the socket that it called `recv` with. -/
structure Listener where
  on : Option ℕ
  handler : Handler
  deriving DecidableEq

inductive Frame
  | resultOK
  | connectionRefused
  | other
  deriving DecidableEq

def Frame.handler : Frame → Handler
  | .resultOK => .ok
  | .connectionRefused => .refused
  | .other => .callback .idle

/-- `accepted` are the sockets on which a Result OK was received, and `calls` the calls on
the socket client. Both are records. -/
structure State (θ : Type) where
  status : ConnectionStatus
  tag : UInt32
  socket : Option ℕ
  opened : ℕ
  listener : Option Listener
  threads : θ → Phase
  accepted : List ℕ
  calls : List Call

inductive Op
  | startConnection
  | connect
  | disconnect
  | send (p : Packet)

def Op.phase : Op → Phase
  | .startConnection => .want
  | .connect => .test
  | .disconnect => .asks
  | .send p => .send (.gate p)

inductive Event (θ : Type)
  | call (t : θ) (op : Op)
  | step (t : θ) (outcome : Outcome)
  -- the listening thread gets a frame
  | receive (frame : Frame)
  -- it takes its next statement
  | handle
  -- the callback it is in sends
  | answer (p : Packet)
  -- its `recv` fails
  | hangUp

section
variable {θ : Type}

def State.initial : State θ := ⟨.idle, 1, none, 0, none, fun _ => .send .idle, [], []⟩

def State.sends (s : State θ) : Sending → Option (State θ × Sending)
  | .idle => none
  | .gate p => some (s, if s.status = .connected then .pass p else .idle)
  | .pass p => some ({ s with calls := s.calls ++ [p.call s.tag] }, .count)
  | .count => some ({ s with tag := s.tag + 1 }, .idle)

def State.Joinable (s : State θ) : Prop := ∀ l ∈ s.listener, l.handler = .ended

instance (s : State θ) : Decidable s.Joinable := by
  unfold State.Joinable
  infer_instance

def State.statement (request : Bytes) (outcome : Outcome) (s : State θ) :
    Phase → Option (State θ × Phase)
  | .send sending => (s.sends sending).map fun r => (r.1, .send r.2)
  | .want => some ({ s with status := .wantingConnection }, .test)
  | .test =>
    some (s, if s.status = .wantingConnection then .shutdown .connect else .send .idle)
  | .shutdown c => some (s, if outcome = .success then .join c else c.next)
  | .join c => if s.Joinable then some ({ s with listener := none }, .release c) else none
  | .release c => some ({ s with socket := none }, c.next)
  | .opens =>
    match outcome with
    | .success => some ({ s with socket := some s.opened, opened := s.opened + 1 }, .listens)
    | .untouched => some (s, .listens)
    | .failure => some ({ s with socket := none }, .listens)
  | .listens =>
    if s.Joinable then some ({ s with listener := some ⟨s.socket, .receiving⟩ }, .requests)
    else none
  | .requests => some ({ s with calls := s.calls ++ [.sendPlist s.tag request] }, .counts)
  | .counts => some ({ s with tag := s.tag + 1 }, .connecting)
  | .connecting => some ({ s with status := .connecting }, .send .idle)
  | .asks => some (s, if s.status ≠ .idle then .aborts else .idles false)
  | .aborts => some ({ s with status := .connected }, .shutdown .disconnect)
  | .reports => some (s, .idles true)
  | .idles _ => some ({ s with status := .idle }, .send .idle)

def State.handles (s : State θ) : Handler → Option (State θ × Handler)
  | .receiving => none
  | .ok => some ({ s with status := .connected }, .callback .idle)
  | .refused => some ({ s with status := .wantingConnection }, .receiving)
  | .callback .idle => some (s, .receiving)
  | .callback sending => (s.sends sending).map fun r => (r.1, .callback r.2)
  | .ended => none

def State.listening (handler : Handler) (l : Listener) (s : State θ) : State θ :=
  { s with listener := some ⟨if handler = .receiving then s.socket else l.on, handler⟩ }

def State.advance [DecidableEq θ] (request : Bytes) (s : State θ) : Event θ → Option (State θ)
  | .call t op =>
    if s.threads t = .send .idle then
      some { s with threads := Function.update s.threads t op.phase }
    else none
  | .step t outcome => (s.statement request outcome (s.threads t)).map fun r =>
      { r.1 with threads := Function.update s.threads t r.2 }
  | .receive frame =>
    match s.listener with
    | some ⟨some g, .receiving⟩ => some { s with
        listener := some ⟨some g, frame.handler⟩
        accepted := if frame = .resultOK then g :: s.accepted else s.accepted }
    | _ => none
  | .handle => s.listener.bind fun l =>
      (s.handles l.handler).map fun r => r.1.listening r.2 l
  | .answer p =>
    match s.listener with
    | some ⟨on, .callback .idle⟩ => some { s with listener := some ⟨on, .callback (.gate p)⟩ }
    | _ => none
  | .hangUp =>
    match s.listener with
    | some ⟨on, .receiving⟩ => some { s with listener := some ⟨on, .ended⟩ }
    | _ => none

def Step [DecidableEq θ] (request : Bytes) (s : State θ) (e : Event θ) (u : State θ) : Prop :=
  s.advance request e = some u

def Phase.replaces : Phase → Bool
  | .shutdown _ | .join _ | .release _ | .opens | .listens | .requests | .counts | .connecting
  | .reports | .idles true => true
  | _ => false

def Phase.Replaces (q : Phase) : Prop := q.replaces = true

instance : DecidablePred Phase.Replaces := fun q => inferInstanceAs (Decidable (q.replaces = true))

def State.Replacing (s : State θ) : Prop := ∃ t, (s.threads t).Replaces

def Sending.gates : Sending → Bool
  | .gate _ => true
  | _ => false

def Sending.passes : Sending → Bool
  | .pass _ => true
  | _ => false

def Phase.sending : Phase → Sending
  | .send sending => sending
  | _ => .idle

def Handler.sending : Handler → Sending
  | .callback sending => sending
  | _ => .idle

def State.Passing (s : State θ) : Prop :=
  (∃ t, (s.threads t).sending.passes = true) ∨ ∃ l ∈ s.listener, l.handler.sending.passes = true

def State.Accepted (s : State θ) : Prop := ∃ g ∈ s.accepted, s.socket = some g

def State.Kept (s : State θ) : Prop :=
  ∀ t c, s.threads t ≠ .shutdown c ∧ s.threads t ≠ .join c ∧ s.threads t ≠ .release c

def State.Linked (s : State θ) : Prop := ∀ l ∈ s.listener, l.on = s.socket

/-- What the listening thread is to a call that replaces the socket: when it is joined
there is none, and a new socket finds the old one. -/
def State.Fits (s : State θ) : Phase → Prop
  | .release _ => s.listener = none
  | .listens => True
  | _ => s.Linked

section
variable {s u : State θ} {t v : θ} {q q' : Phase}

theorem kept_of_not_replacing (h : ¬ s.Replacing) : s.Kept := by
  intro t c
  refine ⟨?_, ?_, ?_⟩
  all_goals
    intro ht
    exact h ⟨t, congrArg Phase.replaces ht⟩

structure Same (s u : State θ) : Prop where
  socket : u.socket = s.socket
  listener : u.listener = s.listener
  accepted : u.accepted = s.accepted

theorem Same.accepted_iff (h : Same s u) : u.Accepted ↔ s.Accepted := by
  rw [State.Accepted, State.Accepted, h.socket, h.accepted]

theorem Same.linked_iff (h : Same s u) : u.Linked ↔ s.Linked := by
  rw [State.Linked, State.Linked, h.socket, h.listener]

theorem Same.fits (h : Same s u) {q : Phase} (hfits : s.Fits q) : u.Fits q := by
  cases q with
  | release c => exact h.listener.trans hfits
  | listens => trivial
  | _ => exact h.linked_iff.mpr hfits

theorem Phase.Replaces.sending {q : Phase} (h : q.Replaces) : q.sending.passes = false := by
  cases q with
  | send sending => contradiction
  | _ => rfl

theorem passing_of_update [DecidableEq θ] {q : Phase} (hlistener : u.listener = s.listener)
    (hthreads : u.threads = Function.update s.threads t q) (h : u.Passing) :
    q.sending.passes = true ∨ s.Passing := by
  rcases h with ⟨v, hv⟩ | hpass
  · rw [hthreads, Function.update_apply] at hv
    split_ifs at hv
    · exact Or.inl hv
    · exact Or.inr (Or.inl ⟨v, hv⟩)
  · rw [hlistener] at hpass
    exact Or.inr (Or.inr hpass)

theorem sends_same {sending sending' : Sending} (h : s.sends sending = some (u, sending')) :
    Same s u ∧ u.status = s.status ∧ u.threads = s.threads ∧
      (sending'.passes = true → sending.gates = true ∧ s.status = .connected) := by
  cases sending with
  | idle => contradiction
  | gate p =>
    obtain ⟨rfl, rfl⟩ := Prod.mk.inj (Option.some.inj h)
    refine ⟨⟨rfl, rfl, rfl⟩, rfl, rfl, fun hpass => ⟨rfl, ?_⟩⟩
    split_ifs at hpass with hgate
    · exact hgate
    · contradiction
  | pass p | count =>
    obtain ⟨rfl, rfl⟩ := Prod.mk.inj (Option.some.inj h)
    exact ⟨⟨rfl, rfl, rfl⟩, rfl, rfl, fun hpass => by contradiction⟩

inductive Moves (s : State θ) (q : Phase) (u : State θ) (q' : Phase) : Prop
  | outside : Same s u → ¬ q.Replaces → ¬ q'.Replaces →
    (u.status = .connected → s.status = .connected) →
    (q'.sending.passes = true → q.sending.gates = true ∧ s.status = .connected) → Moves s q u q'
  | enter : Same s u → q'.Replaces →
    q = .aborts ∨ q = .test ∧ s.status = .wantingConnection → (s.Linked → s.Fits q') →
    Moves s q u q'
  | inside : q.Replaces → q'.Replaces →
    (∀ l ∈ u.listener, l.handler = .receiving ∨ s.listener = some l) →
    u.accepted = s.accepted → (s.Fits q → u.Fits q') → Moves s q u q'
  | leave : Same s u → q.Replaces → q' = .send .idle → u.status ≠ .connected →
    (s.Fits q → s.Linked) → Moves s q u q'

theorem Moves.of_statement {request : Bytes} {outcome : Outcome}
    (h : s.statement request outcome q = some (u, q')) : Moves s q u q' := by
  have hsame : Same s s := ⟨rfl, rfl, rfl⟩
  cases q with
  | send sending =>
    obtain ⟨⟨s₁, sending'⟩, hsend, hr⟩ := Option.map_eq_some_iff.mp h
    obtain ⟨rfl, rfl⟩ := Prod.mk.inj hr
    obtain ⟨hsame, hstatus, -, hpass⟩ := sends_same hsend
    exact .outside hsame Bool.false_ne_true Bool.false_ne_true (fun hc => hstatus.symm.trans hc) hpass
  | want =>
    obtain ⟨rfl, rfl⟩ := Prod.mk.inj (Option.some.inj h)
    exact .outside ⟨rfl, rfl, rfl⟩ Bool.false_ne_true Bool.false_ne_true
      (fun hc => by contradiction) fun hp => by contradiction
  | test =>
    obtain ⟨rfl, rfl⟩ := Prod.mk.inj (Option.some.inj h)
    split_ifs with hwanting
    · exact .enter hsame rfl (Or.inr ⟨rfl, hwanting⟩) id
    · exact .outside hsame Bool.false_ne_true Bool.false_ne_true id fun hp => by contradiction
  | shutdown c =>
    obtain ⟨rfl, rfl⟩ := Prod.mk.inj (Option.some.inj h)
    split_ifs
    · exact .inside rfl rfl (fun l => Or.inr) rfl id
    · cases c <;> exact .inside rfl rfl (fun l => Or.inr) rfl id
  | join c =>
    obtain ⟨-, hr⟩ := Option.ite_none_right_eq_some.mp h
    obtain ⟨rfl, rfl⟩ := Prod.mk.inj (Option.some.inj hr)
    exact .inside rfl rfl (fun l hl => by contradiction) rfl fun _ => rfl
  | release c =>
    obtain ⟨rfl, rfl⟩ := Prod.mk.inj (Option.some.inj h)
    have hlinked (hnone : s.listener = none) : ({ s with socket := none } : State θ).Linked := by
      intro l hl
      rw [show s.listener = some l from hl] at hnone
      contradiction
    cases c <;> exact .inside rfl rfl (fun l => Or.inr) rfl hlinked
  | opens =>
    cases outcome with
    | success | untouched | failure =>
      obtain ⟨rfl, rfl⟩ := Prod.mk.inj (Option.some.inj h)
      exact .inside rfl rfl (fun l => Or.inr) rfl fun _ => trivial
  | listens =>
    obtain ⟨-, hr⟩ := Option.ite_none_right_eq_some.mp h
    obtain ⟨rfl, rfl⟩ := Prod.mk.inj (Option.some.inj hr)
    refine .inside rfl rfl (fun l hl => Or.inl ?_) rfl fun _ l hl => ?_
    · rw [← Option.some.inj hl]
    · rw [← Option.some.inj hl]
  | requests | counts | reports =>
    obtain ⟨rfl, rfl⟩ := Prod.mk.inj (Option.some.inj h)
    exact .inside rfl rfl (fun l => Or.inr) rfl id
  | connecting =>
    obtain ⟨rfl, rfl⟩ := Prod.mk.inj (Option.some.inj h)
    exact .leave ⟨rfl, rfl, rfl⟩ rfl rfl (fun hc => by contradiction) id
  | asks =>
    obtain ⟨rfl, rfl⟩ := Prod.mk.inj (Option.some.inj h)
    split_ifs
    · exact .outside hsame Bool.false_ne_true Bool.false_ne_true id fun hp => by contradiction
    · exact .outside hsame Bool.false_ne_true Bool.false_ne_true id fun hp => by contradiction
  | aborts =>
    obtain ⟨rfl, rfl⟩ := Prod.mk.inj (Option.some.inj h)
    exact .enter ⟨rfl, rfl, rfl⟩ rfl (Or.inl rfl) id
  | idles closed =>
    obtain ⟨rfl, rfl⟩ := Prod.mk.inj (Option.some.inj h)
    cases closed with
    | false =>
      exact .outside ⟨rfl, rfl, rfl⟩ Bool.false_ne_true Bool.false_ne_true
        (fun hc => by contradiction) fun hp => by contradiction
    | true => exact .leave ⟨rfl, rfl, rfl⟩ rfl rfl (fun hc => by contradiction) id

variable {request : Bytes} {e : Event θ} {call : Call}

theorem sends_calls {sending sending' : Sending} (h : s.sends sending = some (u, sending'))
    (hcall : u.calls = s.calls ++ [call]) : sending.passes = true := by
  cases sending with
  | idle => contradiction
  | pass p => rfl
  | gate p | count =>
    obtain ⟨rfl, rfl⟩ := Prod.mk.inj (Option.some.inj h)
    simp at hcall

theorem statement_calls {outcome : Outcome} {q q' : Phase}
    (h : s.statement request outcome q = some (u, q')) (hcall : u.calls = s.calls ++ [call])
    (hprotocol : call.protocol = swiftRobotPacketProtocol) : q.sending.passes = true := by
  cases q with
  | send sending =>
    obtain ⟨⟨s', sending'⟩, hsend, hr⟩ := Option.map_eq_some_iff.mp h
    obtain ⟨rfl, rfl⟩ := Prod.mk.inj hr
    exact sends_calls hsend hcall
  | requests =>
    obtain ⟨rfl, rfl⟩ := Prod.mk.inj (Option.some.inj h)
    have hplist : call = .sendPlist s.tag request := by simpa using hcall.symm
    rw [hplist] at hprotocol
    have hne : SocketClient.usbMuxPacketProtocolPlist ≠ swiftRobotPacketProtocol := by decide
    exact absurd hprotocol hne
  | join c | listens =>
    obtain ⟨-, hr⟩ := Option.ite_none_right_eq_some.mp h
    obtain ⟨rfl, rfl⟩ := Prod.mk.inj (Option.some.inj hr)
    simp at hcall
  | opens =>
    cases outcome with
    | success | untouched | failure =>
      obtain ⟨rfl, rfl⟩ := Prod.mk.inj (Option.some.inj h)
      simp at hcall
  | _ =>
    obtain ⟨rfl, rfl⟩ := Prod.mk.inj (Option.some.inj h)
    simp at hcall

theorem handles_calls {handler handler' : Handler} (h : s.handles handler = some (u, handler'))
    (hcall : u.calls = s.calls ++ [call]) : handler.sending.passes = true := by
  cases handler with
  | receiving | ended => contradiction
  | ok | refused =>
    obtain ⟨rfl, rfl⟩ := Prod.mk.inj (Option.some.inj h)
    simp at hcall
  | callback sending =>
    cases sending with
    | idle =>
      obtain ⟨rfl, rfl⟩ := Prod.mk.inj (Option.some.inj h)
      simp at hcall
    | gate p | pass p | count =>
      simp only [State.handles] at h
      obtain ⟨⟨s₁, sending'⟩, hsend, hr⟩ := Option.map_eq_some_iff.mp h
      obtain ⟨rfl, rfl⟩ := Prod.mk.inj hr
      exact sends_calls hsend hcall

theorem passing_of_calls [DecidableEq θ] (hs : Step request s e u) (hcall : u.calls = s.calls ++ [call])
    (hprotocol : call.protocol = swiftRobotPacketProtocol) : s.Passing := by
  unfold Step at hs
  cases e with
  | call t op =>
    obtain ⟨-, hr⟩ := Option.ite_none_right_eq_some.mp hs
    rw [← Option.some.inj hr] at hcall
    simp at hcall
  | step t outcome =>
    obtain ⟨⟨s', q'⟩, hstatement, rfl⟩ := Option.map_eq_some_iff.mp hs
    exact Or.inl ⟨t, statement_calls hstatement hcall hprotocol⟩
  | handle =>
    obtain ⟨l, hl, hr⟩ := Option.bind_eq_some_iff.mp hs
    obtain ⟨⟨s', handler⟩, hhandles, rfl⟩ := Option.map_eq_some_iff.mp hr
    exact Or.inr ⟨l, hl, handles_calls hhandles hcall⟩
  | receive frame | answer p | hangUp =>
    simp only [State.advance] at hs
    split at hs
    next =>
      rw [← Option.some.inj hs] at hcall
      simp at hcall
    next => contradiction

end
end

section
variable {θ : Type} [Fintype θ]

instance (s : State θ) : Decidable s.Replacing :=
  inferInstanceAs (Decidable (∃ t, (s.threads t).Replaces))

instance (s : State θ) : Decidable s.Passing :=
  inferInstanceAs (Decidable ((∃ t, (s.threads t).sending.passes = true) ∨
    ∃ l ∈ s.listener, l.handler.sending.passes = true))

end
end SwiftRobot.ConnectionThreads
