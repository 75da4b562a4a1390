import SwiftRobot.ConcurrentSenders
import SwiftRobot.ConnectionRuns

/-!
# Writes that fail

`::send` answers with an error, or with how many of the bytes it placed. The answers are
added up in a `size_t`, which is never below zero, and every part of a frame is given to
the socket whatever became of the one before.
-/

namespace SwiftRobot.WriteFailures
open ByteWords SocketClient Connection ConnectionRuns Plist

/-- The answers of `::send`, by the number of calls before and the bytes it is given. -/
structure Answers where
  answer : ℕ → ℕ → Option ℕ
  le : ∀ k n m, answer k n = some m → m ≤ n

inductive Party
  | connection
  | broadcast
  deriving DecidableEq

structure Sent where
  socket : Party × ℕ
  buffer : Bytes
  answer : Option ℕ

def Sent.size (s : Sent) : ℕ :=
  match s.answer with
  | none => 2 ^ 64 - 1
  | some n => n

def Sent.placed (s : Sent) : Bytes := s.buffer.take (s.answer.getD 0)

def Sent.Short (s : Sent) : Prop := s.answer ≠ some s.buffer.length

structure State where
  connection : Connection
  opened : Party → ℕ
  log : List Sent

def State.initial (c : Connection) : State := ⟨c, fun _ => 0, []⟩

def State.reopen (p : Party) (s : State) : State :=
  { s with opened := Function.update s.opened p (s.opened p + 1) }

inductive Op
  | connection (op : ConnectionRuns.Op)
  -- from where no listening thread of an earlier call is left to be joined
  | startLookingForConnections

section
variable (lib : Library) (answers : Answers)

def State.write (p : Party) : List Bytes → State → State × ℕ
  | [], s => (s, 0)
  | buffer :: buffers, s =>
    let sent : Sent := ⟨(p, s.opened p), buffer, answers.answer s.log.length buffer.length⟩
    let rest := State.write p buffers { s with log := s.log ++ [sent] }
    (rest.1, (sent.size + rest.2) % 2 ^ 64)

def State.writeCalls (stale : UInt32) (p : Party) (calls : List Call) (s : State) : State :=
  calls.foldl (fun s call => (s.write answers p (call.buffers stale)).1) s

/-- `connect`, with the test of what `sendPlist` returns as the source makes it. -/
def State.connect (reachable : Bool) (stale : UInt32) (s : State) : State :=
  let c := s.connection
  if c.status = .wantingConnection then
    let c := { c with client := c.client.close }
    let s := s.reopen .connection
    if c.usbmux then
      let call := Call.sendPlist c.tag (request lib c)
      let c := { c with client := c.client.open'.startListening.call call }
      let r := s.write answers .connection (call.buffers stale)
      if r.2 < 0 then { r.1 with connection := c }
      else { r.1 with connection := { c with tag := c.tag + 1, status := .connecting } }
    else if reachable then
      { s with
        connection :=
          { c with client := c.client.open'.startListening, status := .connected } }
    else { s with connection := { c with status := .wantingConnection } }
  else s

def State.startConnection (reachable : Bool) (stale : UInt32) (s : State) : State :=
  { s with connection := { s.connection with status := .wantingConnection }
    }.connect lib answers reachable stale

def State.advance (s : State) (e : Op × UInt32) : Option State :=
  match e.1 with
  | .connection (.startConnection reachable) =>
    some (s.startConnection lib answers reachable e.2)
  | .connection op => (op.apply lib s.connection).map fun c =>
    { s.writeCalls answers e.2 .connection (op.calls lib s.connection) with connection := c }
  | .startLookingForConnections =>
    some ((s.reopen .broadcast).write answers .broadcast
      (sendPlist e.2 0 (createUSBMuxPacket lib (text "Listen") []))).1

def Step (s : State) (e : Op × UInt32) (t : State) : Prop := s.advance lib answers e = some t

end

def on (socket : Party × ℕ) (log : List Sent) : List Sent := log.filter (·.socket = socket)

/-- What was placed on a socket is a first part of the frames given to it, and nothing
follows a part that was not placed whole. -/
structure Unbroken (l : List Sent) : Prop where
  first : l.flatMap Sent.placed <+: l.flatMap Sent.buffer
  stops : ∀ front s back, l = front ++ s :: back → s.Short → back.flatMap Sent.placed = []

def Stopped (l : List Sent) : Prop :=
  l.Pairwise fun s t => s.Short → t.answer = none ∨ t.answer = some 0

def Requests (s : State) (e : Op × UInt32) : Prop :=
  (∃ reachable, e.1 = .connection (.startConnection reachable)) ∧ s.connection.usbmux = true

def added (s t : State) : List Sent := t.log.drop s.log.length

section
variable (lib : Library) (answers : Answers)

/-- Failures are noticed: on every socket, and by every request for a tunnel, which leaves
the connection waiting for one when it was not written whole. -/
structure Noticed (s₀ : State) (es : List (Op × UInt32)) (st : State) : Prop where
  sockets : ∀ socket, Unbroken (on socket st.log)
  requests : ∀ fs e s t, fs ++ [e] <+: es → Run (Step lib answers) s₀ fs s →
    Step lib answers s e t → Requests s e → (∃ x ∈ added s t, x.Short) →
    t.connection.status = .wantingConnection ∧ t.connection.tag = s.connection.tag

structure Harmless (s₀ : State) (es : List (Op × UInt32)) (st : State) : Prop where
  sockets : ∀ socket, Stopped (on socket st.log)
  requests : ∀ fs e s t, fs ++ [e] <+: es → Run (Step lib answers) s₀ fs s →
    Step lib answers s e t → Requests s e → ∀ x ∈ added s t, ¬ x.Short

end

theorem placed_of_whole {s : Sent} (h : ¬ s.Short) : s.placed = s.buffer := by
  rw [Sent.Short, not_not] at h
  rw [Sent.placed, h, Option.getD_some, List.take_length]

theorem placed_eq_nil_iff {s : Sent} (h : s.buffer ≠ []) :
    s.placed = [] ↔ s.answer = none ∨ s.answer = some 0 := by
  rw [Sent.placed, List.take_eq_nil_iff]
  cases hs : s.answer with
  | none => simp
  | some n => simp [h]

theorem Stopped.first {l : List Sent} (hbuffer : ∀ s ∈ l, s.buffer ≠ []) (h : Stopped l) :
    l.flatMap Sent.placed <+: l.flatMap Sent.buffer := by
  induction l with
  | nil => exact List.prefix_refl _
  | cons s l ih =>
    obtain ⟨hs, hl⟩ := List.pairwise_cons.mp h
    have hrest := ih (fun t ht => hbuffer t (List.mem_cons_of_mem _ ht)) hl
    rw [List.flatMap_cons, List.flatMap_cons]
    by_cases hshort : s.Short
    · have hnothing : l.flatMap Sent.placed = [] := by
        rw [List.flatMap_eq_nil_iff]
        exact fun t ht =>
          (placed_eq_nil_iff (hbuffer t (List.mem_cons_of_mem _ ht))).mpr (hs t ht hshort)
      rw [hnothing, List.append_nil]
      exact (List.take_prefix _ _).trans (List.prefix_append _ _)
    · rw [placed_of_whole hshort]
      exact (List.prefix_append_right_inj _).mpr hrest

theorem stopped_of_stops {l : List Sent} (hbuffer : ∀ s ∈ l, s.buffer ≠ [])
    (h : ∀ front s back, l = front ++ s :: back → s.Short → back.flatMap Sent.placed = []) :
    Stopped l := by
  induction l with
  | nil => exact .nil
  | cons s l ih =>
    refine List.pairwise_cons.mpr ⟨fun t ht hshort => ?_, ih
      (fun t ht => hbuffer t (List.mem_cons_of_mem _ ht)) fun front x back hl hshort => ?_⟩
    · have hnothing := List.flatMap_eq_nil_iff.mp (h [] s l rfl hshort) t ht
      exact (placed_eq_nil_iff (hbuffer t (List.mem_cons_of_mem _ ht))).mp hnothing
    · exact h (s :: front) x back (by rw [hl, List.cons_append]) hshort

theorem unbroken_iff {l : List Sent} (hbuffer : ∀ s ∈ l, s.buffer ≠ []) :
    Unbroken l ↔ Stopped l := by
  constructor
  · exact fun h => stopped_of_stops hbuffer h.stops
  · intro h
    refine ⟨h.first hbuffer, ?_⟩
    rintro front s back rfl hshort
    rw [List.flatMap_eq_nil_iff]
    intro t ht
    obtain ⟨-, hback, -⟩ := List.pairwise_append.mp h
    have hsilent := (List.pairwise_cons.mp hback).1 t ht hshort
    exact (placed_eq_nil_iff (hbuffer t (by simp [ht]))).mpr hsilent

section
variable {lib : Library} {answers : Answers} {s t : State} {e : Op × UInt32}

theorem write_log (answers : Answers) (p : Party) (buffers : List Bytes) (s : State) :
    ∃ sents, (s.write answers p buffers).1 = { s with log := s.log ++ sents } ∧
      sents.map Sent.buffer = buffers := by
  induction buffers generalizing s with
  | nil => exact ⟨[], by rw [List.append_nil]; rfl, rfl⟩
  | cons buffer buffers ih =>
    let sent : Sent := ⟨(p, s.opened p), buffer, answers.answer s.log.length buffer.length⟩
    obtain ⟨sents, hlog, hbuffers⟩ := ih { s with log := s.log ++ [sent] }
    refine ⟨sent :: sents, ?_, by rw [List.map_cons, hbuffers]⟩
    rw [State.write, hlog, List.append_assoc, List.singleton_append]

theorem call_buffers (stale : UInt32) (call : Call) : ∀ b ∈ call.buffers stale, b ≠ [] := by
  have hheader : ∀ h : PacketHeader, h.bytes ≠ [] := by
    intro h hnil
    have hlength := h.bytes_length
    rw [hnil] at hlength
    contradiction
  have hpart : ∀ data : Bytes, ∀ b ∈ (if 0 < data.length then [data] else []), b ≠ [] := by
    intro data b hb
    split_ifs at hb with hpos
    · rw [List.mem_singleton.mp hb]
      exact List.ne_nil_of_length_pos hpos
    · exact absurd hb List.not_mem_nil
  have hsend : ∀ protocol type tag data, ∀ b ∈ send stale protocol type tag data, b ≠ [] := by
    intro protocol type tag data b hb
    rcases List.mem_cons.mp hb with rfl | hb
    · exact hheader _
    · exact hpart data b hb
  intro b hb
  cases call with
  | send protocol type tag data => exact hsend protocol type tag data b hb
  | send2 protocol type tag data1 data2 =>
    rcases List.mem_cons.mp hb with rfl | hb
    · exact hheader _
    · rcases List.mem_append.mp hb with hb | hb
      · exact hpart data1 b hb
      · exact hpart data2 b hb
  | sendPlist tag plist => exact hsend _ _ tag plist b hb

def Wrote (s t : State) : Prop :=
  ∃ sents, t = { s with log := s.log ++ sents } ∧ ∀ x ∈ sents, x.buffer ≠ []

theorem Wrote.refl (s : State) : Wrote s s :=
  ⟨[], by rw [List.append_nil], fun x hx => absurd hx List.not_mem_nil⟩

theorem Wrote.trans {u : State} (h : Wrote s t) (h' : Wrote t u) : Wrote s u := by
  obtain ⟨xs, rfl, hxs⟩ := h
  obtain ⟨ys, rfl, hys⟩ := h'
  refine ⟨xs ++ ys, by rw [List.append_assoc], fun x hx => ?_⟩
  rcases List.mem_append.mp hx with hx | hx
  · exact hxs x hx
  · exact hys x hx

theorem wrote_call (answers : Answers) (p : Party) (stale : UInt32) (call : Call) (s : State) :
    Wrote s (s.write answers p (call.buffers stale)).1 := by
  obtain ⟨sents, hlog, hbuffers⟩ := write_log answers p (call.buffers stale) s
  refine ⟨sents, hlog, fun x hx => call_buffers stale call _ ?_⟩
  rw [← hbuffers]
  exact List.mem_map_of_mem hx

theorem wrote_calls (p : Party) (stale : UInt32) (calls : List Call) (s : State) :
    Wrote s (s.writeCalls answers stale p calls) := by
  induction calls generalizing s with
  | nil => exact .refl s
  | cons call calls ih => exact (wrote_call answers p stale call s).trans (ih _)

structure Advanced (lib : Library) (s t : State) (op : Op) : Prop where
  log : ∃ sents, t.log = s.log ++ sents ∧ ∀ x ∈ sents, x.buffer ≠ []
  connection : ∀ c, op = .connection c → c.apply lib s.connection = some t.connection

theorem Wrote.log (h : Wrote s t) :
    ∃ sents, t.log = s.log ++ sents ∧ ∀ x ∈ sents, x.buffer ≠ [] := by
  obtain ⟨sents, rfl, hsents⟩ := h
  exact ⟨sents, rfl, hsents⟩

theorem startConnection_usb (lib : Library) (answers : Answers)
    (husb : s.connection.usbmux = true) (reachable : Bool) (stale : UInt32) :
    ∃ (waiting : State) (call : Call), waiting.log = s.log ∧
      s.startConnection lib answers reachable stale =
        { (waiting.write answers .connection (call.buffers stale)).1 with
          connection := (s.connection.startConnection lib reachable).1 } := by
  let wanting : Connection := { s.connection with status := .wantingConnection }
  let waiting : State := { s with connection := wanting }
  let closed : Connection := { wanting with client := wanting.client.close }
  let call := Call.sendPlist wanting.tag (request lib closed)
  refine ⟨waiting.reopen .connection, call, rfl, ?_⟩
  simp only [State.startConnection, State.connect, startConnection, Connection.connect, if_true,
    if_pos husb, Nat.not_lt_zero, if_false]
  rfl

theorem startConnection_address (husb : s.connection.usbmux = false) (reachable : Bool)
    (stale : UInt32) : s.startConnection lib answers reachable stale =
      { s.reopen .connection with
        connection := (s.connection.startConnection lib reachable).1 } := by
  simp only [State.startConnection, State.connect, startConnection, Connection.connect, if_true,
    husb, Bool.false_eq_true, if_false]
  cases reachable with
  | true => rfl
  | false => rfl

theorem startConnection_advanced (reachable : Bool) (stale : UInt32) (s : State) :
    Advanced lib s (s.startConnection lib answers reachable stale)
      (.connection (.startConnection reachable)) := by
  cases husb : s.connection.usbmux with
  | true =>
    obtain ⟨waiting, call, hlog, hsame⟩ :=
      startConnection_usb lib answers husb reachable stale
    rw [hsame]
    refine ⟨?_, ?_⟩
    · rw [← hlog]
      exact (wrote_call answers .connection stale call waiting).log
    · intro c hc
      cases hc
      rfl
  | false =>
    rw [startConnection_address husb]
    refine ⟨(Wrote.refl s).log, ?_⟩
    intro c hc
    cases hc
    rfl

theorem Step.advanced (h : Step lib answers s e t) : Advanced lib s t e.1 := by
  obtain ⟨op, stale⟩ := e
  have hother : ∀ c : ConnectionRuns.Op, (c.apply lib s.connection).map (fun c' =>
      { s.writeCalls answers stale .connection (c.calls lib s.connection) with connection := c' }) =
        some t → Advanced lib s t (.connection c) := by
    intro c hc
    obtain ⟨c', hc', rfl⟩ := Option.map_eq_some_iff.mp hc
    refine ⟨(wrote_calls .connection stale (c.calls lib s.connection) s).log, ?_⟩
    intro d hd
    cases hd
    exact hc'
  cases op with
  | connection c =>
    cases c with
    | startConnection reachable =>
      have ht : s.startConnection lib answers reachable stale = t := Option.some.inj h
      rw [← ht]
      exact startConnection_advanced reachable stale s
    | disconnect => exact hother _ h
    | send type data => exact hother _ h
    | send2 type data1 data2 => exact hother _ h
    | frame header size memory => exact hother _ h
  | startLookingForConnections =>
    rw [← Option.some.inj h]
    let packet := createUSBMuxPacket lib (text "Listen") []
    have hwrote := wrote_call answers .broadcast stale (.sendPlist 0 packet)
      (s.reopen .broadcast)
    refine ⟨hwrote.log, ?_⟩
    intro c hc
    cases hc

theorem buffers_run {c : Connection} {es : List (Op × UInt32)}
    (run : Run (Step lib answers) (State.initial c) es t) : ∀ x ∈ t.log, x.buffer ≠ [] := by
  refine run.invariant (I := fun s => ∀ x ∈ s.log, x.buffer ≠ []) ?_ ?_
  · intro s e u hs hstep x hx
    obtain ⟨sents, hlog, hsents⟩ := (Step.advanced hstep).log
    rw [hlog] at hx
    rcases List.mem_append.mp hx with hx | hx
    · exact hs x hx
    · exact hsents x hx
  · exact fun x hx => absurd hx List.not_mem_nil

theorem requests_counted (h : Step lib answers s e t) (hr : Requests s e) :
    t.connection.status = .connecting := by
  obtain ⟨⟨reachable, hop⟩, husb⟩ := hr
  have hconnection := (Step.advanced h).connection _ hop
  obtain ⟨plist, hstart⟩ := started_usb lib husb reachable
  rw [← Option.some.inj hconnection, hstart]

theorem writes_noticed_iff {c : Connection} {es : List (Op × UInt32)}
    (run : Run (Step lib answers) (State.initial c) es t) :
    Noticed lib answers (State.initial c) es t ↔ Harmless lib answers (State.initial c) es t := by
  have hbuffers := buffers_run run
  have hsocket : ∀ socket, Unbroken (on socket t.log) ↔ Stopped (on socket t.log) := by
    intro socket
    apply unbroken_iff
    intro x hx
    exact hbuffers x (List.mem_of_mem_filter hx)
  constructor
  · intro h
    refine ⟨fun socket => (hsocket socket).mp (h.sockets socket), ?_⟩
    intro fs e s u hfs hrun hstep hr x hx hshort
    obtain ⟨hstatus, -⟩ := h.requests fs e s u hfs hrun hstep hr ⟨x, hx, hshort⟩
    rw [requests_counted hstep hr] at hstatus
    contradiction
  · intro h
    refine ⟨fun socket => (hsocket socket).mpr (h.sockets socket), ?_⟩
    intro fs e s u hfs hrun hstep hr hshort
    obtain ⟨x, hx, hx'⟩ := hshort
    exact absurd hx' (h.requests fs e s u hfs hrun hstep hr x hx)

end

def device : Connection := ofDevice ⟨1, 0, 0, 0, [], []⟩ 10221

def whole : Answers := ⟨fun _ n => some n, fun _ _ _ h => (Option.some.inj h).ge⟩

theorem writes_noticed_device :
    ∃ t, Run (Step emptyPlists whole) (State.initial device)
        [(.connection (.startConnection true), 0)] t ∧
      (Noticed emptyPlists whole (State.initial device)
          [(.connection (.startConnection true), 0)] t ↔
        Harmless emptyPlists whole (State.initial device)
          [(.connection (.startConnection true), 0)] t) := by
  have run : Run (Step emptyPlists whole) (State.initial device)
      [(.connection (.startConnection true), 0)] _ := .single rfl
  exact ⟨_, run, writes_noticed_iff run⟩

def clipped : Answers where
  answer k n := some (if k = 0 then min 10 n else n)
  le := by
    intro k n m h
    rw [← Option.some.inj h]
    split_ifs
    · exact Nat.min_le_right _ _
    · exact Nat.le_refl n

/-- The request follows the ten bytes, and the connection counts it as sent. -/
theorem clipped_request :
    ∃ t, Run (Step emptyPlists clipped) (State.initial device)
        [(.connection (.startConnection true), 0)] t ∧
      ¬ Noticed emptyPlists clipped (State.initial device)
        [(.connection (.startConnection true), 0)] t := by
  obtain ⟨t, ht, hbytes⟩ : ∃ t ∈ (State.initial device).advance emptyPlists clipped
        (.connection (.startConnection true), 0),
      ¬ (on (.connection, 1) t.log).flatMap Sent.placed <+:
        (on (.connection, 1) t.log).flatMap Sent.buffer := by
    decide +kernel
  exact ⟨t, .single ht, fun h => hbytes (h.sockets (.connection, 1)).first⟩

end SwiftRobot.WriteFailures
