import SwiftRobot.Connection
import SwiftRobot.Support.Mutex
import SwiftRobot.Support.Runs

/-!
# Threads that send on one socket

Any number of threads call `send`, `send2` and `sendPlist` on one socket client. A thread
fills its header, takes `send_mutex`, gives its buffers to `::send` one after the other,
which puts them on the socket whole, and unlocks.
-/

namespace SwiftRobot.ConcurrentSenders
open ByteWords SocketClient Connection Mutex

structure Frame where
  stale : UInt32
  call : Call
  deriving DecidableEq

namespace Frame

def buffers (f : Frame) : List Bytes := f.call.buffers f.stale

def header (f : Frame) : PacketHeader :=
  ⟨UInt32.ofNat (16 + f.call.payload.length), f.call.protocol, f.call.type, f.stale⟩

def bytes (f : Frame) : Bytes := f.header.bytes ++ f.call.payload

theorem buffers_flatten (f : Frame) : f.buffers.flatten = f.bytes := by
  have hpart : ∀ data : Bytes, (if 0 < data.length then [data] else []).flatten = data := by
    intro data
    cases data <;> simp
  obtain ⟨stale, call⟩ := f
  cases call with
  | send protocol type tag data =>
    simp only [buffers, Call.buffers, SocketClient.send, List.flatten_cons, hpart]
    rfl
  | send2 protocol type tag data1 data2 =>
    simp only [buffers, Call.buffers, SocketClient.send2, List.flatten_cons, List.flatten_append,
      hpart, bytes, header, Call.payload, List.length_append, Nat.add_assoc]
    rfl
  | sendPlist tag plist =>
    simp only [buffers, Call.buffers, sendPlist, SocketClient.send, List.flatten_cons, hpart]
    rfl

theorem bytes_length (f : Frame) : f.bytes.length = 16 + f.call.payload.length := by
  rw [bytes, List.length_append, PacketHeader.bytes_length]

theorem header_length (f : Frame) (h : f.bytes.length < 2 ^ 32) :
    f.header.length.toNat = f.bytes.length := by
  rw [bytes_length] at h ⊢
  exact UInt32.toNat_ofNat_of_lt' h

end Frame

/-- Where a thread is: outside, in front of the lock, or behind it with the buffers it has
yet to write. -/
inductive Phase
  | idle
  | filled (f : Frame)
  | writing (rest : List Bytes)
  deriving DecidableEq

def Phase.Inside : Phase → Prop
  | .writing _ => True
  | _ => False

def Phase.rest : Phase → Bytes
  | .writing rest => rest.flatten
  | _ => []

structure State (θ : Type) where
  send_mutex : Option θ
  threads : θ → Phase
  socket : Bytes
  acquired : List Frame

inductive Event (θ : Type)
  | call (t : θ) (f : Frame)
  | lock (t : θ)
  | write (t : θ)
  | unlock (t : θ)

section
variable {θ : Type} [DecidableEq θ]

def State.initial : State θ := ⟨none, fun _ => .idle, [], []⟩

def State.moves (t : θ) (phase : Phase) (s : State θ) : State θ :=
  { s with threads := Function.update s.threads t phase }

def State.advance (s : State θ) : Event θ → Option (State θ)
  | .call t f => if s.threads t = .idle then some (s.moves t (.filled f)) else none
  | .lock t =>
    match s.threads t, s.send_mutex with
    | .filled f, none =>
      some ({ s with send_mutex := some t, acquired := s.acquired ++ [f] }.moves t
        (.writing f.buffers))
    | _, _ => none
  | .write t =>
    match s.threads t with
    | .writing (b :: rest) => some ({ s with socket := s.socket ++ b }.moves t (.writing rest))
    | _ => none
  | .unlock t =>
    match s.threads t with
    | .writing [] => some ({ s with send_mutex := none }.moves t .idle)
    | _ => none

def Step (s : State θ) (e : Event θ) (u : State θ) : Prop := s.advance e = some u

variable {s u : State θ} {e : Event θ} {es : List (Event θ)} {t : θ}

inductive Stepped (s : State θ) : State θ → Prop
  | call {t : θ} {f : Frame} : s.threads t = .idle → Stepped s (s.moves t (.filled f))
  | lock {t : θ} {f : Frame} : s.threads t = .filled f → s.send_mutex = none →
    Stepped s ({ s with send_mutex := some t, acquired := s.acquired ++ [f] }.moves t
      (.writing f.buffers))
  | write {t : θ} {b : Bytes} {rest : List Bytes} : s.threads t = .writing (b :: rest) →
    Stepped s ({ s with socket := s.socket ++ b }.moves t (.writing rest))
  | unlock {t : θ} : s.threads t = .writing [] →
    Stepped s ({ s with send_mutex := none }.moves t .idle)

theorem Stepped.of_step (h : Step s e u) : Stepped s u := by
  unfold Step at h
  cases e with
  | call t f =>
    simp only [State.advance, Option.ite_none_right_eq_some, Option.some.injEq] at h
    obtain ⟨ht, rfl⟩ := h
    exact .call ht
  | lock t =>
    simp only [State.advance] at h
    split at h
    next f ht hlock =>
      rw [← Option.some.inj h]
      exact .lock ht hlock
    next => contradiction
  | write t =>
    simp only [State.advance] at h
    split at h
    next b rest ht =>
      rw [← Option.some.inj h]
      exact .write ht
    next => contradiction
  | unlock t =>
    simp only [State.advance] at h
    split at h
    next ht =>
      rw [← Option.some.inj h]
      exact .unlock ht
    next => contradiction

def State.unwritten (s : State θ) : Bytes :=
  match s.send_mutex with
  | none => []
  | some t => (s.threads t).rest

structure Whole (s : State θ) : Prop where
  guarded : Guarded Phase.Inside s.threads s.send_mutex
  wire : s.socket ++ s.unwritten = (s.acquired.map Frame.bytes).flatten

omit [DecidableEq θ] in
theorem Whole.holder (h : Whole s) {rest : List Bytes} (ht : s.threads t = .writing rest) :
    s.send_mutex = some t := by
  apply (h.guarded t).mp
  rw [ht]
  trivial

omit [DecidableEq θ] in
theorem Whole.unwritten (h : Whole s) {rest : List Bytes} (ht : s.threads t = .writing rest) :
    s.unwritten = rest.flatten := by
  rw [State.unwritten, h.holder ht]
  exact congrArg Phase.rest ht

theorem Whole.step (h : Whole s) (hs : Step s e u) : Whole u := by
  have hwire := h.wire
  cases Stepped.of_step hs with
  | @call t f ht =>
    refine ⟨h.guarded.moves ht Iff.rfl, ?_⟩
    have hsame : (s.moves t (.filled f)).unwritten = s.unwritten := by
      simp only [State.unwritten, State.moves]
      cases hlock : s.send_mutex with
      | none => rfl
      | some v =>
        have hinside := (h.guarded v).mpr hlock
        have hne : v ≠ t := by
          rintro rfl
          rw [ht] at hinside
          exact hinside
        simp only [Function.update_of_ne hne]
    rw [hsame]
    exact hwire
  | @lock t f ht hlock =>
    have hg := h.guarded
    rw [hlock] at hg
    refine ⟨hg.acquire trivial, ?_⟩
    rw [State.unwritten, hlock, List.append_nil] at hwire
    simp only [State.unwritten, State.moves, Function.update_self, Phase.rest, List.map_append,
      List.flatten_append, hwire, f.buffers_flatten, List.map_singleton, List.flatten_singleton]
  | @write t b rest ht =>
    refine ⟨h.guarded.moves ht Iff.rfl, ?_⟩
    rw [h.unwritten ht, List.flatten_cons, ← List.append_assoc] at hwire
    simp only [State.unwritten, State.moves, h.holder ht, Function.update_self, Phase.rest]
    exact hwire
  | unlock ht =>
    refine ⟨h.guarded.release ht trivial id, ?_⟩
    rw [h.unwritten ht] at hwire
    exact hwire

/-- The socket holds whole frames, one for each call that has had the lock and in the order
in which they got it, up to what the call that has it now has yet to write. -/
theorem frames_never_mix (run : Run Step (State.initial : State θ) es s) :
    s.socket <+: (s.acquired.map Frame.bytes).flatten ∧
    (s.send_mutex = none → s.socket = (s.acquired.map Frame.bytes).flatten) ∧
    ∀ f ∈ s.acquired, f.bytes = f.header.bytes ++ f.call.payload ∧ f.header.bytes.length = 16 ∧
      (f.bytes.length < 2 ^ 32 → f.header.length.toNat = f.bytes.length) := by
  have hstart : Whole (State.initial : State θ) :=
    ⟨fun _ => ⟨False.elim, fun h => by contradiction⟩, rfl⟩
  have hwhole : Whole s := run.invariant (fun _ _ _ => Whole.step) hstart
  refine ⟨⟨s.unwritten, hwhole.wire⟩, ?_, ?_⟩
  · intro hlock
    rw [← hwhole.wire, State.unwritten, hlock, List.append_nil]
  · intro f _
    exact ⟨rfl, f.header.bytes_length, f.header_length⟩

end

def overlapping : List (Event (Fin 2)) :=
  let first : Fin 2 := ⟨0, Nat.zero_lt_two⟩
  let second : Fin 2 := ⟨1, Nat.one_lt_two⟩
  [.call first ⟨0, .send2 2 9 1 [1, 2] [3]⟩, .lock first, .write first,
    .call second ⟨0, .send 2 10 1 [7]⟩, .write first, .write first, .unlock first, .lock second,
    .write second]

theorem frames_never_mix_overlapping : ∃ s : State (Fin 2),
    Run Step State.initial overlapping s ∧ s.socket.length = 35 ∧
      s.socket <+: (s.acquired.map Frame.bytes).flatten ∧
      (s.send_mutex = none → s.socket = (s.acquired.map Frame.bytes).flatten) ∧
      ∀ f ∈ s.acquired, f.bytes = f.header.bytes ++ f.call.payload ∧ f.header.bytes.length = 16 ∧
        (f.bytes.length < 2 ^ 32 → f.header.length.toNat = f.bytes.length) := by
  have hend : ∃ s ∈ overlapping.foldlM State.advance State.initial, s.socket.length = 35 := by
    decide +kernel
  obtain ⟨s, hs, hlength⟩ := hend
  have run : Run Step State.initial overlapping s := Run.iff_foldlM.mpr hs
  exact ⟨s, run, hlength, frames_never_mix run⟩

end SwiftRobot.ConcurrentSenders
