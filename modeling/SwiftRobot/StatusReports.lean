import SwiftRobot.HubEvents
import Mathlib.Data.List.Chain

/-!
# What a connection reports of its status

A Result OK is reported in every status, and `disconnect` reports in every status but idle,
also when the tunnel never came up.
-/

namespace SwiftRobot.StatusReports
open ByteWords Reading PacketHeaders Plist Connection
open HubEvents (result?)

inductive Event
  -- whether the address can be reached, of which a connection over USB takes no notice
  | startConnection (reachable : Bool)
  | disconnect
  | frame (header : SocketClient.PacketHeader) (size : ℕ) (memory : Bytes)

structure State where
  connection : Connection
  reports : List Bool

def State.initial (c : Connection) : State :=
  ⟨{ c with packetReceivedCallback := true, connectionStatusCallback := true }, []⟩

def reported : Upcall → List Bool
  | .connectionStatus _ connected => [connected]
  | .packetReceived _ _ _ => []
  | .silent => []

section
variable (lib : Library)

def Event.apply (c : Connection) : Event → Option (Connection × Upcall)
  | .startConnection reachable => some (c.startConnection lib reachable)
  | .disconnect => some c.disconnect
  | .frame header size memory => (c.messageReceived lib header size memory).value

def Step (s : State) (e : Event) (t : State) : Prop :=
  ∃ r, e.apply lib s.connection = some r ∧ t = ⟨r.1, s.reports ++ reported r.2⟩

inductive Kind
  | connects
  | begins
  | ends
  | other
  deriving DecidableEq, Repr

def Kind.ofResult (result_code : Option Int32) : Kind :=
  if result_code = some usbMuxReplyCodeOK then .connects
  else if result_code = some usbMuxReplyCodeConnectionRefused then .begins
  else .other

def Event.kind (usbmux : Bool) : Event → Kind
  | .startConnection reachable => if usbmux = false ∧ reachable then .connects else .begins
  | .disconnect => .ends
  | .frame header size memory =>
    if header.protocol = usbMuxPacketProtocolPlist then
      .ofResult ((readPlist lib size memory).value.join.bind result?)
    else .other

end

def up : List Kind → Bool :=
  List.foldl (fun u k => match k with
    | .connects => true
    | .begins => u
    | .ends => false
    | .other => u) false

def begun : List Kind → Bool :=
  List.foldl (fun b k => match k with
    | .connects => true
    | .begins => true
    | .ends => false
    | .other => b) false

/-- A connection is made only when none is up, and what was begun is not ended before. -/
def Proper (ks : List Kind) : Kind → Prop
  | .connects => up ks = false
  | .begins => True
  | .ends => begun ks = true → up ks = true
  | .other => True

instance (ks : List Kind) (k : Kind) : Decidable (Proper ks k) := by
  cases k <;> unfold Proper <;> infer_instance

def Alternates (reports : List Bool) : Prop := List.IsChain (· ≠ ·) (false :: reports)

instance (reports : List Bool) : Decidable (Alternates reports) := by
  unfold Alternates
  infer_instance

def reportsOf (c : Connection) : Kind → List Bool
  | .connects => [true]
  | .begins => []
  | .ends => if c.status = .idle then [] else [false]
  | .other => []

def idleAfter (c : Connection) : Kind → Prop
  | .connects => False
  | .begins => False
  | .ends => True
  | .other => c.status = .idle

structure Effect (c : Connection) (k : Kind) (r : Connection × Upcall) : Prop where
  usbmux : r.1.usbmux = c.usbmux
  installed : r.1.connectionStatusCallback = true
  reports : reported r.2 = reportsOf c k
  idle : r.1.status = .idle ↔ idleAfter c k

section
variable {lib : Library} {c : Connection} {e : Event} {r : Connection × Upcall}

theorem startConnection_effect (hc : c.connectionStatusCallback = true) (reachable : Bool) :
    Effect c (Event.kind lib c.usbmux (.startConnection reachable))
      (c.startConnection lib reachable) := by
  cases husb : c.usbmux with
  | true =>
    obtain ⟨plist, hstart⟩ := started_usb lib husb reachable
    rw [hstart]
    constructor <;> simp [husb, hc, Event.kind, reportsOf, idleAfter, reported]
  | false =>
    rw [started_address lib husb]
    cases reachable with
    | true =>
      constructor <;> simp [husb, hc, Event.kind, reportsOf, idleAfter, connectedRoutine, reported]
    | false => constructor <;> simp [husb, hc, Event.kind, reportsOf, idleAfter, reported]

theorem disconnect_effect (hc : c.connectionStatusCallback = true) :
    Effect c .ends c.disconnect := by
  by_cases hidle : c.status = .idle
  · constructor <;> simp [Connection.disconnect, hidle, hc, reportsOf, idleAfter, reported]
  · constructor <;> simp [Connection.disconnect, hidle, hc, reportsOf, idleAfter, reported]

theorem silent_effect (hc : c.connectionStatusCallback = true) : Effect c .other (c, .silent) :=
  ⟨rfl, hc, rfl, Iff.rfl⟩

theorem resultReceived_effect (hc : c.connectionStatusCallback = true) (result_code : Int32) :
    Effect c (.ofResult (some result_code)) (c.resultReceived result_code) := by
  simp only [resultReceived, Kind.ofResult, Option.some.injEq]
  split_ifs
  · constructor <;> simp [connectedRoutine, hc, reportsOf, idleAfter, reported]
  · constructor <;> simp [hc, reportsOf, idleAfter, reported]
  · exact silent_effect hc

theorem plistReceived_effect (hc : c.connectionStatusCallback = true) {plist_message : Dictionary}
    (h : c.plistReceived plist_message = some r) :
    Effect c (.ofResult (result? plist_message)) r := by
  obtain ⟨type, htype, ⟨hresult, number, hnumber, rfl⟩ | ⟨hresult, rfl⟩⟩ := plistReceived_some h
  · rw [result?, htype, if_pos (congrArg some hresult), hnumber]
    exact resultReceived_effect hc _
  · rw [result?, htype, if_neg fun hsome => hresult (Option.some.inj hsome)]
    exact silent_effect hc

theorem packetReceived_effect (hc : c.connectionStatusCallback = true) (name : Bytes)
    (type : UInt32) (size : ℕ) :
    Effect c .other (({ c with name := name } : Connection).packetReceived type size) := by
  refine ⟨rfl, hc, ?_, Iff.rfl⟩
  unfold packetReceived
  dsimp only
  split_ifs <;> rfl

theorem frame_effect (hc : c.connectionStatusCallback = true) {header : SocketClient.PacketHeader}
    {size : ℕ} {memory : Bytes} (h : (c.messageReceived lib header size memory).value = some r) :
    Effect c (Event.kind lib c.usbmux (.frame header size memory)) r := by
  rw [Event.kind]
  cases Received.of_value h with
  | plist hplist hread hdone =>
    rw [if_pos hplist, hread]
    exact plistReceived_effect hc hdone
  | unreadable hplist hread =>
    rw [if_pos hplist, hread]
    exact silent_effect hc
  | named hrobot _ _ =>
    rw [if_neg (not_plist_of_robot hrobot)]
    exact packetReceived_effect hc _ _ _
  | packet hrobot _ =>
    rw [if_neg (not_plist_of_robot hrobot)]
    exact packetReceived_effect hc c.name _ _
  | ignored hplist _ =>
    rw [if_neg hplist]
    exact silent_effect hc

theorem apply_effect (hc : c.connectionStatusCallback = true) (h : e.apply lib c = some r) :
    Effect c (e.kind lib c.usbmux) r := by
  cases e with
  | startConnection reachable =>
    rw [← Option.some.inj h]
    exact startConnection_effect hc reachable
  | disconnect =>
    rw [← Option.some.inj h]
    exact disconnect_effect hc
  | frame header size memory => exact frame_effect hc h

end

theorem up_append (ks : List Kind) (k : Kind) : up (ks ++ [k]) =
    match k with
    | .connects => true
    | .begins => up ks
    | .ends => false
    | .other => up ks := by
  rw [up, List.foldl_append]
  cases k <;> rfl

theorem begun_append (ks : List Kind) (k : Kind) : begun (ks ++ [k]) =
    match k with
    | .connects => true
    | .begins => true
    | .ends => false
    | .other => begun ks := by
  rw [begun, List.foldl_append]
  cases k <;> rfl

theorem begun_of_up {ks : List Kind} (h : up ks = true) : begun ks = true := by
  induction ks using List.reverseRecOn with
  | nil => contradiction
  | append_singleton ks k ih =>
    rw [up_append] at h
    rw [begun_append]
    cases k with
    | connects => rfl
    | begins => rfl
    | ends => contradiction
    | other => exact ih h

def last (reports : List Bool) : Bool := (false :: reports).getLast (List.cons_ne_nil _ _)

theorem alternates_append (reports : List Bool) (b : Bool) :
    Alternates (reports ++ [b]) ↔ Alternates reports ∧ last reports ≠ b := by
  rw [Alternates, ← List.cons_append, List.isChain_append,
    List.getLast?_eq_some_getLast (List.cons_ne_nil _ _)]
  simp [Alternates, last]

section
variable {lib : Library} {c : Connection} {es : List Event} {s t : State} {e : Event}

def kinds (lib : Library) (c : Connection) (es : List Event) : List Kind :=
  es.map (Event.kind lib c.usbmux)

def AllProper (lib : Library) (c : Connection) (es : List Event) : Prop :=
  ∀ fs e, fs ++ [e] <+: es → Proper (kinds lib c fs) (e.kind lib c.usbmux)

theorem allProper_append : AllProper lib c (es ++ [e]) ↔
    AllProper lib c es ∧ Proper (kinds lib c es) (e.kind lib c.usbmux) := by
  constructor
  · intro h
    refine ⟨fun fs f hf => ?_, h es e (List.prefix_refl _)⟩
    exact h fs f (hf.trans (List.prefix_append _ _))
  · rintro ⟨hes, he⟩ fs f hf
    rcases List.prefix_concat_iff.mp hf with heq | hf
    · obtain ⟨rfl, rfl⟩ := List.append_singleton_inj.mp heq
      exact he
    · exact hes fs f hf

structure Tells (lib : Library) (c : Connection) (es : List Event) (s : State) : Prop where
  usbmux : s.connection.usbmux = c.usbmux
  installed : s.connection.connectionStatusCallback = true
  idle : s.connection.status = .idle ↔ begun (kinds lib c es) = false
  last : last s.reports = up (kinds lib c es)
  alternates : Alternates s.reports ↔ AllProper lib c es

theorem last_append (reports : List Bool) (b : Bool) : last (reports ++ [b]) = b := by
  simp [StatusReports.last]

theorem Tells.step (h : Tells lib c es s) (hs : Step lib s e t) : Tells lib c (es ++ [e]) t := by
  obtain ⟨r, hr, rfl⟩ := hs
  obtain ⟨husbmux, hinstalled, hreports, hidle⟩ := apply_effect h.installed hr
  rw [h.usbmux] at hreports hidle husbmux
  have hkinds : kinds lib c (es ++ [e]) = kinds lib c es ++ [e.kind lib c.usbmux] :=
    List.map_append
  have hended : s.connection.status = .idle → up (kinds lib c es) = false := by
    intro hs
    by_contra hup
    have hbegun := begun_of_up (Bool.eq_true_of_not_eq_false hup)
    rw [h.idle.mp hs] at hbegun
    contradiction
  refine ⟨husbmux, hinstalled, ?_, ?_, ?_⟩
  · rw [hidle, hkinds, begun_append]
    cases e.kind lib c.usbmux <;> simp [idleAfter, h.idle]
  · rw [hkinds, up_append, hreports]
    cases e.kind lib c.usbmux with
    | connects => exact last_append _ _
    | begins => rw [reportsOf, List.append_nil, h.last]
    | ends =>
      rw [reportsOf]
      split_ifs with hs
      · rw [List.append_nil, h.last, hended hs]
      · exact last_append _ _
    | other => rw [reportsOf, List.append_nil, h.last]
  · rw [allProper_append, ← h.alternates, hreports]
    cases e.kind lib c.usbmux with
    | connects =>
      rw [reportsOf, alternates_append, h.last, Proper, ne_eq, Bool.not_eq_true]
    | begins => rw [reportsOf, List.append_nil, Proper, and_true]
    | ends =>
      rw [reportsOf, Proper]
      split_ifs with hs
      · rw [List.append_nil, h.idle.mp hs]
        simp
      · have hbegun : begun (kinds lib c es) = true := by
          rw [h.idle, Bool.not_eq_false] at hs
          exact hs
        rw [alternates_append, h.last, hbegun, ne_eq, Bool.not_eq_false]
        simp only [true_implies]
    | other => rw [reportsOf, List.append_nil, Proper, and_true]

/-- The reports alternate exactly when a connection is made only while none is up, and
nothing that was begun is ended before it was made. -/
theorem reports_alternate_iff (hc : Built c) (run : Run (Step lib) (State.initial c) es s) :
    Alternates s.reports ↔
      ∀ fs e, fs ++ [e] <+: es → Proper (kinds lib c fs) (e.kind lib c.usbmux) := by
  have hidle : c.status = .idle := by cases hc <;> rfl
  have htells : Tells lib c es s := by
    refine run.history_invariant (I := Tells lib c) (fun _ _ _ _ h hs => h.step hs) ?_
    refine ⟨rfl, rfl, iff_of_true hidle rfl, rfl, iff_of_true (List.isChain_singleton _) ?_⟩
    intro fs e hf
    simp at hf
  exact htells.alternates

end

def device : Connection := ofDevice ⟨1, 0, 0, 0, [], []⟩ 10221

theorem reports_alternate_device :
    ∃ s, Run (Step DispatcherRuns.silentLibrary) (State.initial device) [.startConnection true] s ∧
      (Alternates s.reports ↔ ∀ fs e, fs ++ [e] <+: [Event.startConnection true] →
        Proper (kinds DispatcherRuns.silentLibrary device fs)
          (e.kind DispatcherRuns.silentLibrary device.usbmux)) := by
  have run : Run (Step DispatcherRuns.silentLibrary) (State.initial device)
      [.startConnection true] _ := .single ⟨_, rfl, rfl⟩
  exact ⟨_, run, reports_alternate_iff (.device _ _) run⟩

/-- A device that is gone before its tunnel is up is reported disconnected all the same. -/
theorem disconnected_first :
    ∃ s, Run (Step DispatcherRuns.silentLibrary) (State.initial device)
      [.startConnection true, .disconnect] s ∧ ¬ Alternates s.reports := by
  have hstart : Run (Step DispatcherRuns.silentLibrary) (State.initial device)
      [.startConnection true] _ := .single ⟨_, rfl, rfl⟩
  refine ⟨_, hstart.snoc ⟨_, rfl, rfl⟩, ?_⟩
  decide

end SwiftRobot.StatusReports
