import SwiftRobot.FramingRoundTrip

/-!
# The receive loop, one answer of `recv` after another

The recursions and the loop around them as a machine that takes the answers of `recv` one
by one. It also counts the bytes that came since the loop last began to read a length, so
that a callback can be compared with what was received for it.
-/

namespace SwiftRobot.ReceiveLoop
open ByteWords SocketClient FramingRoundTrip

inductive Phase
  | length (data : ℤ) (sizeToRecieve : ℕ)
  | body (data_size : ℕ) (block : Block) (data : ℤ) (size sum : ℕ)
  | exited
  | crashed
  | corrupted

def Phase.want : Phase → ℕ
  | .length _ sizeToRecieve => sizeToRecieve
  | .body _ _ _ size _ => size
  | .exited => 0
  | .crashed => 0
  | .corrupted => 0

def Phase.loopEnd : Phase → LoopEnd
  | .length _ _ => .running
  | .body _ _ _ _ _ => .running
  | .exited => .exited
  | .crashed => .crashed
  | .corrupted => .corrupted

structure Callback where
  delivery : Delivery
  got : ℕ

structure State where
  phase : Phase
  buffers : Buffers
  got : ℕ
  calls : List Callback

def State.initial (buffer : Cells) : State := ⟨.length 0 4, Buffers.opened buffer, 0, []⟩

section
variable (fresh : Cells)

def State.sized (s : State) (data_size : ℕ) : State :=
  if s.buffers.buffer.intact = false then { s with phase := .corrupted }
  else if data_size < 4 then { s with phase := .exited }
  else
    let buffers := s.buffers.reserve fresh (data_size - 4)
    { s with
      buffers := buffers
      phase := .body data_size (buffers.block fresh) 0 (data_size - 4) 0 }

def State.received (s : State) (data_size : ℕ) (block : Block) (received : ℕ) : State :=
  if block.intact = false then { s with phase := .corrupted }
  else if received ≠ data_size - 4 then { s with phase := .exited }
  else if s.buffers.data_buffer.isNone then { s with phase := .crashed }
  else
    let d : Delivery := ⟨loadHeader data_size block.cells, sizeSub received 12, block.cells⟩
    { phase := .length 0 4,
      buffers := { s.buffers with data_buffer := some block },
      got := 0,
      calls := s.calls ++ [⟨d, s.got⟩] }

def State.take (s : State) (r : RecvResult) : State :=
  let got := s.got + r.bytes.length
  match s.phase with
  | .length data _ =>
    let buffer := s.buffers.buffer.store data r.bytes
    let s := { s with buffers := { s.buffers with buffer := buffer }, got := got }
    if r.size = 0 then s.sized fresh r.size
    else if r.size ≠ 4 then
      { s with phase := .length (advance data r.size) (sizeSub 4 r.size) }
    else s.sized fresh (byteArrayToUInt32 buffer.cells 0).toNat
  | .body data_size block data size sum =>
    let block := block.store data r.bytes
    let s := { s with got := got }
    let sum := (sum + r.size) % 2 ^ 64
    if r.size = 0 then s.received data_size block sum
    else if r.size = size then s.received data_size block sum
    else
      { s with
        phase := .body data_size block (advance data r.size) (sizeSub size r.size) sum }
  | .exited => s
  | .crashed => s
  | .corrupted => s

def Phase.Inside (buffer : Block) (bs : Bytes) : Phase → Prop
  | .length data _ => buffer.Inside data bs
  | .body _ block data _ _ => block.Inside data bs
  | .exited | .crashed | .corrupted => True

instance (buffer : Block) (bs : Bytes) : (phase : Phase) → Decidable (phase.Inside buffer bs)
  | .length data _ => inferInstanceAs (Decidable (buffer.Inside data bs))
  | .body _ block data _ _ => inferInstanceAs (Decidable (block.Inside data bs))
  | .exited | .crashed | .corrupted => .isTrue trivial

def State.Inside (s : State) (r : RecvResult) : Prop := s.phase.Inside s.buffers.buffer r.bytes

instance (s : State) (r : RecvResult) : Decidable (s.Inside r) :=
  inferInstanceAs (Decidable (s.phase.Inside _ _))

/-- The answers of `recv`, by the number of calls before and the bytes asked for. -/
structure Answers where
  answer : ℕ → ℕ → RecvResult
  le : ∀ k want, (answer k want).bytes.length ≤ want

def Answers.socket (answers : Answers) : Socket ℕ where
  recv k want := (answers.answer k want, k + 1)

def trace (answers : Answers) (buffer : Cells) : ℕ → State
  | 0 => State.initial buffer
  | k + 1 =>
    let s := trace answers buffer k
    s.take fresh (answers.answer k s.phase.want)

end

section
variable {fresh : Cells} {answers : Answers} {buffer : Cells}

theorem size_lt {k want : ℕ} (h : want < 2 ^ 64) : (answers.answer k want).size < 2 ^ 64 := by
  have hle := answers.le k want
  cases hr : answers.answer k want with
  | error => exact Nat.sub_lt (by decide) (by decide)
  | data bs =>
    rw [hr] at hle
    exact Nat.lt_of_le_of_lt hle h

theorem sizeSub_lt (a b : ℕ) : sizeSub a b < 2 ^ 64 := Nat.mod_lt _ (by decide)

theorem trace_succ (k : ℕ) : trace fresh answers buffer (k + 1) =
    (trace fresh answers buffer k).take fresh
      (answers.answer k (trace fresh answers buffer k).phase.want) := rfl

theorem recieveMessageSize_trace (fuel : ℕ) {k want : ℕ} {data : ℤ} {s : State}
    (hs : trace fresh answers buffer k = { s with phase := .length data want }) :
    (recieveMessageSize answers.socket fuel k s.buffers.buffer data want = none ∧
      (trace fresh answers buffer (k + fuel)).phase.loopEnd = .running ∧
      (trace fresh answers buffer (k + fuel)).calls = s.calls) ∨
    ∃ size stored q got, k < q ∧ size < 2 ^ 32 ∧
      recieveMessageSize answers.socket fuel k s.buffers.buffer data want = some (size, stored, q) ∧
      trace fresh answers buffer q =
        State.sized fresh { s with buffers := { s.buffers with buffer := stored }, got := got }
          size := by
  induction fuel generalizing k want data s with
  | zero => exact Or.inl ⟨rfl, by rw [Nat.add_zero, hs]; rfl, by rw [Nat.add_zero, hs]⟩
  | succ fuel ih =>
    obtain ⟨r, hr⟩ : ∃ r, answers.answer k want = r := ⟨_, rfl⟩
    have hnext : trace fresh answers buffer (k + 1) =
        State.take fresh { s with phase := .length data want } r := by
      rw [trace_succ, hs]
      exact congrArg _ hr
    simp only [recieveMessageSize, Answers.socket, hr]
    simp only [State.take] at hnext
    by_cases hzero : r.size = 0
    · rw [if_pos hzero] at hnext ⊢
      exact Or.inr ⟨_, _, _, _, Nat.lt_succ_self k, by omega, rfl, hnext⟩
    · rw [if_neg hzero] at hnext ⊢
      by_cases hfour : r.size = 4
      · rw [if_neg (not_not.mpr hfour)] at hnext ⊢
        exact Or.inr ⟨_, _, _, _, Nat.lt_succ_self k, UInt32.toNat_lt _, rfl, hnext⟩
      · rw [if_pos hfour] at hnext ⊢
        let s' : State :=
          { s with
            buffers := { s.buffers with buffer := s.buffers.buffer.store data r.bytes },
            got := s.got + r.bytes.length }
        rcases ih (s := s') hnext with
          ⟨hnone, hend, hcalls⟩ | ⟨size, stored, q, got, hq, hsize, hsome, heq⟩
        · rw [Nat.add_right_comm, Nat.add_assoc] at hend hcalls
          exact Or.inl ⟨hnone, hend, hcalls⟩
        · exact Or.inr ⟨size, stored, q, got, Nat.lt_of_succ_lt hq, hsize, hsome, heq⟩

theorem listen_trace (fuel : ℕ) {k data_size size sum : ℕ} {block : Block} {data : ℤ} {s : State}
    (hsize : size < 2 ^ 64)
    (hs : trace fresh answers buffer k = { s with phase := .body data_size block data size sum }) :
    (listen answers.socket fuel k block data size = none ∧
      (trace fresh answers buffer (k + fuel)).phase.loopEnd = .running ∧
      (trace fresh answers buffer (k + fuel)).calls = s.calls) ∨
    ∃ value stored q got, k < q ∧ value < 2 ^ 64 ∧
      listen answers.socket fuel k block data size = some (value, stored, q) ∧
      trace fresh answers buffer q =
        State.received { s with got := got } data_size stored ((sum + value) % 2 ^ 64) := by
  induction fuel generalizing k block data size sum s with
  | zero => exact Or.inl ⟨rfl, by rw [Nat.add_zero, hs]; rfl, by rw [Nat.add_zero, hs]⟩
  | succ fuel ih =>
    obtain ⟨r, hr⟩ : ∃ r, answers.answer k size = r := ⟨_, rfl⟩
    have hlt : r.size < 2 ^ 64 := hr ▸ size_lt hsize
    have hnext : trace fresh answers buffer (k + 1) =
        State.take fresh { s with phase := .body data_size block data size sum } r := by
      rw [trace_succ, hs]
      exact congrArg _ hr
    simp only [SocketClient.listen, Answers.socket, hr]
    simp only [State.take] at hnext
    by_cases hzero : r.size = 0
    · rw [if_pos hzero] at hnext ⊢
      exact Or.inr ⟨_, _, _, _, Nat.lt_succ_self k, hlt, rfl, hnext⟩
    · rw [if_neg hzero] at hnext ⊢
      by_cases hall : r.size = size
      · rw [if_pos hall] at hnext ⊢
        exact Or.inr ⟨_, _, _, _, Nat.lt_succ_self k, hlt, rfl, hnext⟩
      · rw [if_neg hall] at hnext ⊢
        rcases ih (s := { s with got := s.got + r.bytes.length }) (sizeSub_lt _ _) hnext with
          ⟨hnone, hend, hcalls⟩ | ⟨value, stored, q, got, hq, hvalue, hsome, heq⟩
        · rw [Nat.add_right_comm, Nat.add_assoc] at hend hcalls
          refine Or.inl ⟨?_, hend, hcalls⟩
          simp only [Answers.socket] at hnone
          rw [hnone]
        · refine Or.inr ⟨(r.size + value) % 2 ^ 64, stored, q, got, Nat.lt_of_succ_lt hq,
            Nat.mod_lt _ (by decide), ?_, ?_⟩
          · simp only [Answers.socket] at hsome
            rw [hsome]
          · have hsum : ((sum + r.size) % 2 ^ 64 + value) % 2 ^ 64 =
                (sum + (r.size + value) % 2 ^ 64) % 2 ^ 64 := by omega
            rw [heq, hsum]

theorem ended {k n : ℕ} {s s' : State} {loopEnd : LoopEnd}
    (hs : trace fresh answers buffer n = s') (hcalls : s'.calls = s.calls)
    (hend : s'.phase.loopEnd = loopEnd) (hrunning : loopEnd = .running → k ≤ n + 1) :
    ∃ n, (trace fresh answers buffer n).calls.map Callback.delivery =
        s.calls.map Callback.delivery ++ [] ∧
      (trace fresh answers buffer n).phase.loopEnd = loopEnd ∧ (loopEnd = .running → k ≤ n + 1) :=
  ⟨n, by rw [hs, hcalls, List.append_nil], by rw [hs, hend], hrunning⟩

/-- From a round's beginning on, the loop makes the machine's callbacks and ends as it does;
only a machine that is still calling makes it run out of fuel. -/
theorem listenLoop_trace (fuel : ℕ) {k : ℕ} {s : State}
    (hs : trace fresh answers buffer k = { s with phase := .length 0 4 }) :
    ∃ n, (trace fresh answers buffer n).calls.map Callback.delivery =
        s.calls.map Callback.delivery ++ (listenLoop answers.socket fresh fuel k s.buffers).1 ∧
      (trace fresh answers buffer n).phase.loopEnd =
        (listenLoop answers.socket fresh fuel k s.buffers).2 ∧
      ((listenLoop answers.socket fresh fuel k s.buffers).2 = .running → k + fuel ≤ n + 1) := by
  induction fuel generalizing k s with
  | zero =>
    refine ⟨k, ?_, ?_, fun _ => Nat.le_succ k⟩
    · rw [hs, listenLoop, List.append_nil]
    · rw [hs]
      rfl
  | succ fuel ih =>
    rw [listenLoop]
    rcases recieveMessageSize_trace fuel hs with
      ⟨hnone, hend, hcalls⟩ | ⟨size, stored, q, got, hq, hsize, hsome, hround⟩
    · rw [hnone]
      refine ⟨k + fuel, ?_, hend, fun _ => Nat.le_refl _⟩
      rw [hcalls, List.append_nil]
    · rw [hsome]
      rw [State.sized] at hround
      by_cases hprefix : stored.intact = false
      · simp only [if_pos hprefix] at hround ⊢
        exact ended hround (by simp) rfl (fun h => by contradiction)
      by_cases hfour : size < 4
      · simp only [if_neg hprefix, if_pos hfour] at hround ⊢
        exact ended hround (by simp) rfl (fun h => by contradiction)
      · simp only [if_neg hprefix, if_neg hfour] at hround ⊢
        let grown := Buffers.reserve fresh { s.buffers with buffer := stored } (size - 4)
        let s' : State := { s with buffers := grown, got := got }
        rcases listen_trace fuel (s := s') (by omega) hround with
          ⟨hnone, hend, hcalls⟩ | ⟨value, block, q', got', hq', hvalue, hsome, hend⟩
        · rw [hnone]
          refine ⟨q + fuel, ?_, hend, fun _ => by omega⟩
          rw [hcalls, List.append_nil]
        · rw [hsome]
          rw [Nat.zero_add, Nat.mod_eq_of_lt hvalue, State.received] at hend
          by_cases hbody : block.intact = false
          · simp only [if_pos hbody] at hend ⊢
            exact ended hend (by simp [s']) rfl (fun h => by contradiction)
          by_cases hall : value ≠ size - 4
          · simp only [if_neg hbody, if_pos hall] at hend ⊢
            exact ended hend (by simp [s']) rfl (fun h => by contradiction)
          by_cases hnull : grown.data_buffer.isNone = true
          · have hnull' : s'.buffers.data_buffer.isNone = true := hnull
            simp only [if_neg hbody, if_neg hall, if_pos hnull'] at hend
            simp only [if_neg hbody, if_neg hall]
            rw [if_pos hnull]
            exact ended hend (by simp [s']) rfl (fun h => by contradiction)
          · have hnull' : ¬ s'.buffers.data_buffer.isNone = true := hnull
            simp only [if_neg hbody, if_neg hall, if_neg hnull'] at hend
            simp only [if_neg hbody, if_neg hall]
            rw [if_neg hnull]
            let d : Delivery := ⟨loadHeader size block.cells, sizeSub value 12, block.cells⟩
            let next : State :=
              { phase := .length 0 4,
                buffers := { grown with data_buffer := some block },
                got := 0,
                calls := s.calls ++ [⟨d, got'⟩] }
            obtain ⟨n, hcalls, hloop, hfuel⟩ := ih (s := next) hend
            refine ⟨n, ?_, hloop, fun h => ?_⟩
            · rw [hcalls, List.map_append, List.append_assoc]
              rfl
            · have hle := hfuel h
              omega

theorem trace_stays {k n : ℕ} (hn : k ≤ n)
    (hk : (trace fresh answers buffer k).phase.loopEnd ≠ .running) :
    trace fresh answers buffer n = trace fresh answers buffer k := by
  induction hn with
  | refl => rfl
  | @step n hn ih =>
    rw [trace_succ, ih]
    cases hphase : (trace fresh answers buffer k).phase with
    | length data sizeToRecieve =>
      rw [hphase] at hk
      exact absurd rfl hk
    | body data_size block data size sum =>
      rw [hphase] at hk
      exact absurd rfl hk
    | exited => rw [State.take, hphase]
    | crashed => rw [State.take, hphase]
    | corrupted => rw [State.take, hphase]

theorem loopEnd_eq_exited {phase : Phase} : phase.loopEnd = .exited ↔ phase = .exited := by
  cases phase <;> simp [Phase.loopEnd]

/-- The loop exits, whatever the fuel above some bound, exactly when the machine does. -/
theorem exits_iff :
    (∃ bound, ∀ fuel ≥ bound, (listenLoop answers.socket fresh fuel 0
      (Buffers.opened buffer)).2 = .exited) ↔
    ∃ n, (trace fresh answers buffer n).phase = .exited := by
  have hloop := fun fuel =>
    @listenLoop_trace fresh answers buffer fuel 0 (State.initial buffer) rfl
  constructor
  · rintro ⟨bound, hbound⟩
    obtain ⟨n, -, hend, -⟩ := hloop bound
    rw [State.initial, hbound bound le_rfl] at hend
    exact ⟨n, loopEnd_eq_exited.mp hend⟩
  · rintro ⟨m, hm⟩
    refine ⟨m + 1, fun fuel hfuel => ?_⟩
    obtain ⟨n, -, hend, hrunning⟩ := hloop fuel
    have hm' := loopEnd_eq_exited.mpr hm
    change (listenLoop answers.socket fresh fuel 0 (State.initial buffer).buffers).2 = _
    rcases Nat.le_total m n with hle | hle
    · rw [← hend, trace_stays hle (by rw [hm']; exact fun h => by contradiction)]
      exact hm'
    · by_contra hne
      have hn : (trace fresh answers buffer n).phase.loopEnd ≠ .running := by
        intro h
        have hge := hrunning (hend ▸ h)
        have heq : n = m := by omega
        rw [heq, hm'] at h
        contradiction
      rw [← hend, ← trace_stays hle hn] at hne
      exact hne hm'

end
end SwiftRobot.ReceiveLoop
