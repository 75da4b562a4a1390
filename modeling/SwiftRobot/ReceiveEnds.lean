import SwiftRobot.ReceiveLoop

/-!
# The end of the receive loop

At the end of the stream the loop exits. A failing `recv` it takes for `2 ^ 64 - 1` bytes:
the recursions go on asking, one byte more than before and one byte further in front, and a
loop that is still reading when a socket fails for good never ends.
-/

namespace SwiftRobot.ReceiveEnds
open ByteWords SocketClient FramingRoundTrip ReceiveLoop

def Failing (answers : Answers) (k : ℕ) : Prop := ∀ n ≥ k, ∀ want, answers.answer n want = .error

def AtEnd (answers : Answers) (k : ℕ) : Prop := ∀ n ≥ k, ∀ want, answers.answer n want = .data []

/-- The loop exits, and the callback was called only for frames that had come as a whole. -/
structure Ends (fresh : Cells) (answers : Answers) (buffer : Cells) : Prop where
  exits : ∃ bound, ∀ fuel ≥ bound,
    (listenLoop answers.socket fresh fuel 0 (Buffers.opened buffer)).2 = .exited
  received : ∀ n, ∀ c ∈ (trace fresh answers buffer n).calls,
    c.delivery.header.length.toNat ≤ c.got

/-- A call of `recv` that goes well: its bytes are stored in the buffer, it does not begin an
endless row of failures, a frame of four bytes has a block when its body is complete, and a
failure that is taken for all the bytes asked for comes when the frame has come. -/
def Steady (answers : Answers) (k : ℕ) (s : State) : Prop :=
  s.Inside (answers.answer k s.phase.want) ∧
  match s.phase with
  | .length _ _ => ¬ Failing answers k
  | .body data_size _ _ size _ =>
    ¬ Failing answers k ∧
    (s.buffers.data_buffer = none → (answers.answer k size).size ≠ size) ∧
    (size = 2 ^ 64 - 1 → answers.answer k size = .error → data_size ≤ s.got)
  | .exited | .crashed | .corrupted => True

/-- What is left of a body is still asked for, and the sizes add up in a `size_t`. -/
def Accounted (s : State) : Prop :=
  match s.phase with
  | .body data_size _ _ size sum =>
    4 ≤ data_size ∧ data_size < 2 ^ 32 ∧ size < 2 ^ 64 ∧
      (sum + size) % 2 ^ 64 = data_size - 4 ∧ data_size ≤ s.got + size
  | .length _ _ | .exited | .crashed | .corrupted => True

def Whole (s : State) : Prop := ∀ c ∈ s.calls, c.delivery.header.length.toNat ≤ c.got

def Undamaged (s : State) : Prop :=
  s.buffers.buffer.intact = true ∧ (∀ block ∈ s.buffers.data_buffer, block.intact = true) ∧
  match s.phase with
  | .body _ block _ _ _ => block.intact = true
  | .corrupted => False
  | .length _ _ | .exited | .crashed => True

def Spoiled (s : State) : Prop :=
  match s.phase with
  | .length _ _ => s.buffers.buffer.intact = false
  | .body _ block _ _ _ => block.intact = false
  | .corrupted => True
  | .exited | .crashed => False

section
variable {fresh : Cells} {s : State} {r : RecvResult} {data_size size sum : ℕ} {block : Block}
  {data : ℤ}

theorem store_intact_iff {bs : Bytes} :
    (block.store data bs).intact = true ↔ block.intact = true ∧ block.Inside data bs := by
  simp [Block.store]

theorem store_spoiled {bs : Bytes} (h : block.intact = false ∨ ¬ block.Inside data bs) :
    (block.store data bs).intact = false := by
  rw [← Bool.not_eq_true, store_intact_iff]
  rintro ⟨hintact, hin⟩
  rcases h with hspoiled | hout
  · rw [hspoiled] at hintact
    contradiction
  · exact hout hin

theorem eq_nil_of_size (hr : r.size = 0) : r = .data [] := by
  cases r with
  | error => contradiction
  | data bs => rw [List.eq_nil_of_length_eq_zero hr]

theorem take_length_four (hs : s.phase = .length data size) (hr : r.size = 4) :
    s.take fresh r = State.sized fresh
      { s with
        buffers := { s.buffers with buffer := s.buffers.buffer.store data r.bytes },
        got := s.got + r.bytes.length }
      (byteArrayToUInt32 (s.buffers.buffer.store data r.bytes).cells 0).toNat := by
  simp [State.take, hs, hr]

theorem take_length_zero (fresh : Cells) (hs : s.phase = .length data size) (hr : r.size = 0) :
    s.take fresh r =
      { s with phase := if s.buffers.buffer.intact = false then .corrupted else .exited } := by
  rw [eq_nil_of_size hr]
  simp only [State.take, hs, RecvResult.size, RecvResult.bytes, List.length_nil, if_true,
    Block.store_nil, Nat.add_zero, State.sized, Nat.zero_lt_succ]
  split_ifs <;> rfl

theorem take_length_more (fresh : Cells) (hs : s.phase = .length data size)
    (hzero : r.size ≠ 0) (hfour : r.size ≠ 4) :
    s.take fresh r =
      { s with
        phase := .length (advance data r.size) (sizeSub 4 r.size),
        buffers := { s.buffers with buffer := s.buffers.buffer.store data r.bytes },
        got := s.got + r.bytes.length } := by
  simp [State.take, hs, hzero, hfour]

theorem take_body_all (hs : s.phase = .body data_size block data size sum) (ha : Accounted s)
    (hr : r.size = size) :
    s.take fresh r = State.received { s with got := s.got + r.bytes.length } data_size
      (block.store data r.bytes) (data_size - 4) := by
  simp only [Accounted, hs] at ha
  simp only [State.take, hs, hr, ha.2.2.2.1]
  split_ifs <;> rfl

theorem take_body_zero (fresh : Cells) (hs : s.phase = .body data_size block data size sum)
    (ha : Accounted s) (hall : r.size ≠ size) (hr : r.size = 0) :
    s.take fresh r = { s with phase := if block.intact = false then .corrupted else .exited } := by
  simp only [Accounted, hs] at ha
  have hsum : (sum + 0) % 2 ^ 64 ≠ data_size - 4 := by omega
  rw [eq_nil_of_size hr]
  simp only [State.take, hs, RecvResult.size, RecvResult.bytes, List.length_nil, if_true,
    Block.store_nil, Nat.add_zero (s.got), State.received, if_pos hsum]
  split_ifs <;> rfl

theorem take_body_more (hs : s.phase = .body data_size block data size sum)
    (hall : r.size ≠ size) (hzero : r.size ≠ 0) :
    s.take fresh r =
      { s with
        phase := .body data_size (block.store data r.bytes) (advance data r.size)
          (sizeSub size r.size) ((sum + r.size) % 2 ^ 64),
        got := s.got + r.bytes.length } := by
  simp only [State.take, hs, if_neg hzero, if_neg hall]

theorem sized_accounted (h : 4 ≤ s.got) {n : ℕ} (hn : n < 2 ^ 32) :
    Accounted (State.sized fresh s n) := by
  rw [State.sized]
  split_ifs with hspoiled hfour
  · trivial
  · trivial
  · simp only [Accounted, Nat.zero_add]
    exact ⟨by omega, hn, by omega, Nat.mod_eq_of_lt (by omega), by omega⟩

theorem received_accounted (n value : ℕ) : Accounted (State.received s n block value) := by
  rw [State.received]
  split_ifs <;> trivial

theorem take_accounted (ha : Accounted s) (hr : r.bytes.length ≤ s.phase.want) :
    Accounted (s.take fresh r) := by
  cases hs : s.phase with
  | length data sizeToRecieve =>
    by_cases hzero : r.size = 0
    · rw [take_length_zero fresh hs hzero]
      split_ifs <;> trivial
    · by_cases hfour : r.size = 4
      · rw [take_length_four hs hfour]
        refine sized_accounted ?_ (UInt32.toNat_lt _)
        cases r with
        | error => contradiction
        | data bs => exact Nat.le_trans (Nat.le_of_eq hfour.symm) (Nat.le_add_left _ _)
      · rw [take_length_more fresh hs hzero hfour]
        trivial
  | body data_size block data size sum =>
    by_cases hall : r.size = size
    · rw [take_body_all hs ha hall]
      exact received_accounted _ _
    · by_cases hzero : r.size = 0
      · rw [take_body_zero fresh hs ha hall hzero]
        split_ifs <;> trivial
      · rw [take_body_more hs hall hzero]
        simp only [Accounted, hs] at ha ⊢
        obtain ⟨hfour, hlt, hsize, hsum, hgot⟩ := ha
        cases r with
        | error =>
          -- the failure counts as `2 ^ 64 - 1` bytes, so one more is asked for
          simp only [RecvResult.size, RecvResult.bytes, List.length_nil] at hall ⊢
          have hmore : sizeSub size (2 ^ 64 - 1) = size + 1 := by
            rw [sizeSub]
            omega
          rw [hmore]
          exact ⟨hfour, hlt, by omega, by omega, by omega⟩
        | data bs =>
          simp only [hs, Phase.want, RecvResult.size, RecvResult.bytes] at hr hall ⊢
          rw [sizeSub_of_le hr hsize]
          exact ⟨hfour, hlt, by omega, by omega, by omega⟩
  | exited | crashed | corrupted => simpa only [State.take, hs] using ha

theorem received_whole (hs : Whole s) {n value : ℕ} (hn : n < 2 ^ 32) (hgot : n ≤ s.got) :
    Whole (State.received s n block value) := by
  rw [State.received]
  split_ifs
  · exact hs
  · exact hs
  · exact hs
  · intro c hc
    rcases List.mem_append.mp hc with hold | hnew
    · exact hs c hold
    · rw [List.mem_singleton.mp hnew]
      have hlength : (UInt32.ofNat n).toNat = n := UInt32.toNat_ofNat_of_lt' hn
      exact hlength.symm ▸ hgot

theorem take_spoiled (h : Spoiled s ∨ ¬ s.Inside r) : Spoiled (s.take fresh r) := by
  cases hphase : s.phase with
  | length data want =>
    simp only [Spoiled, State.Inside, Phase.Inside, hphase] at h
    have hstored := store_spoiled h
    simp only [State.take, hphase]
    split_ifs
    · simp [State.sized, hstored, Spoiled]
    · exact hstored
    · simp [State.sized, hstored, Spoiled]
  | body data_size block data size sum =>
    simp only [Spoiled, State.Inside, Phase.Inside, hphase] at h
    have hstored := store_spoiled h
    simp only [State.take, hphase]
    split_ifs
    · simp [State.received, hstored, Spoiled]
    · simp [State.received, hstored, Spoiled]
    · exact hstored
  | exited | crashed => simp [Spoiled, State.Inside, Phase.Inside, hphase] at h
  | corrupted => simp [State.take, Spoiled, hphase]

theorem sized_undamaged (fresh : Cells) (hbuffer : s.buffers.buffer.intact = true)
    (hblock : ∀ block ∈ s.buffers.data_buffer, block.intact = true) (n : ℕ) :
    Undamaged (State.sized fresh s n) ∧ (State.sized fresh s n).phase ≠ .crashed ∧
      (State.sized fresh s n).calls = s.calls := by
  have hnot : ¬ s.buffers.buffer.intact = false := by simp [hbuffer]
  rw [State.sized, if_neg hnot]
  split_ifs with hfour
  · exact ⟨⟨hbuffer, hblock, trivial⟩, fun h => by contradiction, rfl⟩
  · have hgrown := reserve_intact fresh hblock (n - 4)
    refine ⟨⟨?_, hgrown, block_intact fresh hgrown⟩, fun h => by contradiction, rfl⟩
    rw [reserve_buffer]
    exact hbuffer

theorem length_steady (fresh : Cells) (hs : s.phase = .length data size) (hu : Undamaged s)
    (hin : s.Inside r) :
    Undamaged (s.take fresh r) ∧ (s.take fresh r).phase ≠ .crashed ∧
      (s.take fresh r).calls = s.calls := by
  obtain ⟨hbuffer, hblock, -⟩ := hu
  have hstored : (s.buffers.buffer.store data r.bytes).intact = true := by
    simp only [State.Inside, Phase.Inside, hs] at hin
    exact store_intact_iff.mpr ⟨hbuffer, hin⟩
  by_cases hzero : r.size = 0
  · rw [take_length_zero fresh hs hzero, if_neg (by simp [hbuffer])]
    exact ⟨⟨hbuffer, hblock, trivial⟩, nofun, rfl⟩
  · by_cases hfour : r.size = 4
    · let s' : State :=
        { s with
          buffers := { s.buffers with buffer := s.buffers.buffer.store data r.bytes },
          got := s.got + r.bytes.length }
      have hsized := sized_undamaged fresh (s := s') hstored hblock
      rw [take_length_four hs hfour]
      exact hsized _
    · rw [take_length_more fresh hs hzero hfour]
      exact ⟨⟨hstored, hblock, trivial⟩, nofun, rfl⟩

theorem body_received (hs : s.phase = .body data_size block data size sum) (ha : Accounted s)
    (hr : r.size = size) (herror : r = .error → data_size ≤ s.got) :
    data_size ≤ s.got + r.bytes.length := by
  simp only [Accounted, hs] at ha
  cases r with
  | error => exact Nat.le_trans (herror rfl) (Nat.le_add_right _ _)
  | data bs =>
    simp only [RecvResult.size, RecvResult.bytes] at hr ⊢
    omega

theorem take_steady {answers : Answers} {k : ℕ} (ha : Accounted s) (hsteady : Steady answers k s)
    (hs : Whole s) (hu : Undamaged s) (hrun : s.phase ≠ .crashed) :
    Whole (s.take fresh (answers.answer k s.phase.want)) ∧
      Undamaged (s.take fresh (answers.answer k s.phase.want)) ∧
      (s.take fresh (answers.answer k s.phase.want)).phase ≠ .crashed := by
  obtain ⟨hin, hsteady⟩ := hsteady
  obtain ⟨r, hr⟩ : ∃ r, answers.answer k s.phase.want = r := ⟨_, rfl⟩
  rw [hr] at hin ⊢
  cases hphase : s.phase with
  | length data sizeToRecieve =>
    obtain ⟨hu', hphase', hcalls⟩ := length_steady fresh hphase hu hin
    exact ⟨by rw [Whole, hcalls]; exact hs, hu', hphase'⟩
  | body data_size block data size sum =>
    simp only [hphase, Phase.want] at hr
    simp only [hphase, hr] at hsteady
    obtain ⟨-, hnull, herror⟩ := hsteady
    obtain ⟨hbuffer, hblocks, hblock⟩ := hu
    simp only [hphase] at hblock
    have hstored : (block.store data r.bytes).intact = true := by
      simp only [State.Inside, Phase.Inside, hphase] at hin
      exact store_intact_iff.mpr ⟨hblock, hin⟩
    by_cases hall : r.size = size
    · have hgot : r = .error → data_size ≤ s.got := by
        intro h
        rw [h] at hall
        exact herror hall.symm h
      have hlt : data_size < 2 ^ 32 := by
        have ha' := ha
        simp only [Accounted, hphase] at ha'
        exact ha'.2.1
      have hcome := body_received hphase ha hall hgot
      have hheld : ¬ s.buffers.data_buffer.isNone = true := by
        intro h
        exact hnull (Option.isNone_iff_eq_none.mp h) hall
      rw [take_body_all hphase ha hall]
      refine ⟨received_whole (s := { s with got := s.got + r.bytes.length }) hs hlt hcome, ?_⟩
      rw [State.received, if_neg (by simp [hstored]), if_neg (not_not.mpr rfl), if_neg hheld]
      refine ⟨⟨hbuffer, fun block' h => ?_, trivial⟩, fun h => by contradiction⟩
      rw [← Option.some.inj h]
      exact hstored
    · by_cases hzero : r.size = 0
      · rw [take_body_zero fresh hphase ha hall hzero, if_neg (by simp [hblock])]
        exact ⟨hs, ⟨hbuffer, hblocks, trivial⟩, fun h => by contradiction⟩
      · rw [take_body_more hphase hall hzero]
        exact ⟨hs, ⟨hbuffer, hblocks, hstored⟩, fun h => by contradiction⟩
  | exited | corrupted => simpa [State.take, hphase] using ⟨hs, hu⟩
  | crashed => exact absurd hphase hrun

theorem take_error (ha : Accounted s) (hs : s.phase ≠ .exited) :
    (s.take fresh .error).phase ≠ .exited := by
  cases hphase : s.phase with
  | length data sizeToRecieve =>
    rw [take_length_more fresh hphase (r := .error) (by decide) (by decide)]
    exact fun h => by contradiction
  | body data_size block data size sum =>
    by_cases hall : RecvResult.error.size = size
    · rw [take_body_all hphase ha hall, State.received]
      split_ifs with _ hne
      · exact fun h => by contradiction
      · exact absurd rfl hne
      · exact fun h => by contradiction
      · exact fun h => by contradiction
    · rw [take_body_more hphase hall (by decide)]
      exact fun h => by contradiction
  | exited => exact absurd hphase hs
  | crashed | corrupted =>
    simp only [State.take, hphase]
    exact fun h => by contradiction

theorem take_end (hs : s.phase = .body data_size block data size sum) (ha : Accounted s)
    (hu : Undamaged (s.take fresh (.data []))) (hrun : (s.take fresh (.data [])).phase ≠ .crashed) :
    (s.take fresh (.data [])).phase = .exited ∨ (s.take fresh (.data [])).phase = .length 0 4 := by
  by_cases hall : RecvResult.size (.data []) = size
  · rw [take_body_all hs ha hall, State.received] at hu hrun ⊢
    split_ifs at hu hrun ⊢ with hspoiled hne
    · exact hu.2.2.elim
    · exact absurd rfl hne
    · exact absurd rfl hrun
    · exact Or.inr rfl
  · rw [take_body_zero fresh hs ha hall rfl] at hu ⊢
    split_ifs at hu ⊢
    · exact hu.2.2.elim
    · exact Or.inl rfl

end

section
variable {fresh buffer : Cells} {answers : Answers}

theorem trace_accounted (n : ℕ) : Accounted (trace fresh answers buffer n) := by
  induction n with
  | zero => trivial
  | succ n ih => exact take_accounted ih (answers.le _ _)

theorem trace_steady (h : ∀ n, Steady answers n (trace fresh answers buffer n)) (n : ℕ) :
    Whole (trace fresh answers buffer n) ∧ Undamaged (trace fresh answers buffer n) ∧
      (trace fresh answers buffer n).phase ≠ .crashed := by
  induction n with
  | zero => exact ⟨nofun, ⟨rfl, nofun, trivial⟩, nofun⟩
  | succ n ih => exact take_steady (trace_accounted n) (h n) ih.1 ih.2.1 ih.2.2

theorem failing_runs {k : ℕ} (hfail : Failing answers k)
    (hk : (trace fresh answers buffer k).phase.loopEnd = .running) (n : ℕ) :
    (trace fresh answers buffer n).phase ≠ .exited := by
  intro hexit
  have hend := loopEnd_eq_exited.mpr hexit
  have hnot : (trace fresh answers buffer n).phase.loopEnd ≠ .running := by rw [hend]; decide
  rcases Nat.le_total n k with hle | hle
  · rw [trace_stays hle hnot, hend] at hk
    contradiction
  · have hrun : ∀ m ≥ k, (trace fresh answers buffer m).phase ≠ .exited := by
      intro m hm
      induction hm with
      | refl =>
        intro h
        rw [h] at hk
        contradiction
      | @step m hm ih =>
        rw [trace_succ, hfail m hm]
        exact take_error (trace_accounted m) ih
    exact hrun n hle hexit

theorem exited_not_crashed {m : ℕ} (hm : (trace fresh answers buffer m).phase = .exited) (n : ℕ) :
    (trace fresh answers buffer n).phase ≠ .crashed := by
  intro hn
  rcases Nat.le_total m n with hle | hle
  · rw [trace_stays hle (by rw [hm]; decide), hm] at hn
    contradiction
  · rw [trace_stays hle (by rw [hn]; decide), hn] at hm
    contradiction

theorem spoiled_not_exited {n m : ℕ} (hnm : n ≤ m) (hn : Spoiled (trace fresh answers buffer n)) :
    (trace fresh answers buffer m).phase ≠ .exited := by
  have hspoiled : Spoiled (trace fresh answers buffer m) := by
    induction hnm with
    | refl => exact hn
    | @step m _ ih =>
      rw [trace_succ]
      exact take_spoiled (Or.inl ih)
  intro hexit
  simp [Spoiled, hexit] at hspoiled

theorem atEnd_exits {k : ℕ} (hend : AtEnd answers k)
    (hrun : ∀ n, Undamaged (trace fresh answers buffer n) ∧
      (trace fresh answers buffer n).phase ≠ .crashed) :
    ∃ n, (trace fresh answers buffer n).phase = .exited := by
  have hlength : ∀ n ≥ k, ∀ data size, (trace fresh answers buffer n).phase = .length data size →
      (trace fresh answers buffer (n + 1)).phase = .exited := by
    intro n hn data size hphase
    have hbuffer := (hrun n).1.1
    rw [trace_succ, hend n hn, take_length_zero fresh hphase rfl, if_neg (by simp [hbuffer])]
  cases hphase : (trace fresh answers buffer k).phase with
  | length data sizeToRecieve => exact ⟨k + 1, hlength k le_rfl _ _ hphase⟩
  | body data_size block data size sum =>
    obtain ⟨hu, hnext⟩ := hrun (k + 1)
    rw [trace_succ, hend k le_rfl] at hu hnext
    rcases take_end hphase (trace_accounted k) hu hnext with hexit | hback
    · exact ⟨k + 1, by rw [trace_succ, hend k le_rfl]; exact hexit⟩
    · refine ⟨k + 2, hlength (k + 1) (Nat.le_succ k) 0 4 ?_⟩
      rw [trace_succ, hend k le_rfl]
      exact hback
  | exited => exact ⟨k, hphase⟩
  | crashed => exact absurd hphase (hrun k).2
  | corrupted =>
    have hu := (hrun k).1
    simp [Undamaged, hphase] at hu

theorem trace_complete {n data_size size sum : ℕ} {block : Block} {data : ℤ}
    (hphase : (trace fresh answers buffer n).phase = .body data_size block data size sum)
    (hall : (answers.answer n size).size = size) :
    trace fresh answers buffer (n + 1) = State.received
      { trace fresh answers buffer n with
        got := (trace fresh answers buffer n).got + (answers.answer n size).bytes.length }
      data_size (block.store data (answers.answer n size).bytes) (data_size - 4) := by
  rw [trace_succ, hphase]
  exact take_body_all hphase (trace_accounted n) hall

theorem come_of_error {n data_size sum : ℕ} {block : Block} {data : ℤ}
    (hphase : (trace fresh answers buffer n).phase =
      .body data_size block data (2 ^ 64 - 1) sum)
    (hwhole : Whole (trace fresh answers buffer (n + 1)))
    (hspoiled : ¬ Spoiled (trace fresh answers buffer (n + 1)))
    (hcrash : (trace fresh answers buffer (n + 1)).phase ≠ .crashed)
    (herror : answers.answer n (2 ^ 64 - 1) = .error) :
    data_size ≤ (trace fresh answers buffer n).got := by
  have ha : Accounted (trace fresh answers buffer n) := trace_accounted n
  simp only [Accounted, hphase] at ha
  rw [trace_complete hphase (by rw [herror]; rfl), State.received] at hwhole hspoiled hcrash
  split_ifs at hwhole hspoiled hcrash with hintact hne hnull
  · exact absurd trivial hspoiled
  · exact absurd rfl hne
  · exact absurd rfl hcrash
  · simp only [herror, RecvResult.bytes, List.length_nil, Nat.add_zero] at hwhole
    have hlast := hwhole _ (List.mem_append_right _ (List.mem_singleton_self _))
    have hlength : (UInt32.ofNat data_size).toNat = data_size := UInt32.toNat_ofNat_of_lt' ha.2.1
    exact hlength ▸ hlast

theorem steady_of_ends (hends : Ends fresh answers buffer) (n : ℕ) :
    Steady answers n (trace fresh answers buffer n) := by
  obtain ⟨m, hm⟩ := exits_iff.mp hends.exits
  have hlater : (trace fresh answers buffer n).phase.loopEnd = .running → ¬ Failing answers n :=
    fun hrun hfail => failing_runs hfail hrun m hm
  have hcrash : (trace fresh answers buffer (n + 1)).phase ≠ .crashed := exited_not_crashed hm _
  have hgood : (trace fresh answers buffer n).phase.loopEnd = .running →
      ¬ Spoiled (trace fresh answers buffer (n + 1)) := by
    intro hrun hspoiled
    have hnm : n + 1 ≤ m := by
      by_contra hmn
      have hstays := trace_stays (show m ≤ n by omega) (by rw [hm]; decide)
      rw [hstays, hm] at hrun
      contradiction
    exact spoiled_not_exited hnm hspoiled hm
  have hin : (trace fresh answers buffer n).phase.loopEnd = .running →
      (trace fresh answers buffer n).Inside
        (answers.answer n (trace fresh answers buffer n).phase.want) := by
    intro hrun
    by_contra hout
    exact hgood hrun (take_spoiled (Or.inr hout))
  cases hphase : (trace fresh answers buffer n).phase with
  | length data sizeToRecieve =>
    have hrun : (trace fresh answers buffer n).phase.loopEnd = .running := by rw [hphase]; rfl
    refine ⟨hin hrun, ?_⟩
    simp only [hphase]
    exact hlater hrun
  | body data_size block data size sum =>
    have hrun : (trace fresh answers buffer n).phase.loopEnd = .running := by rw [hphase]; rfl
    refine ⟨hin hrun, ?_⟩
    simp only [hphase]
    refine ⟨hlater hrun, fun hnone hall => ?_, fun hsize herror => ?_⟩
    · -- the header is read through a null pointer
      have hspoiled := hgood hrun
      rw [trace_complete hphase hall, State.received] at hcrash hspoiled
      split_ifs at hcrash hspoiled with hintact hne hnull
      · exact hspoiled trivial
      · exact hne rfl
      · exact hcrash rfl
      · exact hnull (by simp [hnone])
    · subst hsize
      exact come_of_error hphase (hends.received (n + 1)) (hgood hrun) hcrash herror
  | exited | crashed | corrupted => simp [Steady, State.Inside, Phase.Inside, hphase]

theorem failing_exited (h : ∀ n, Steady answers n (trace fresh answers buffer n)) {k : ℕ}
    (hfail : Failing answers k) : (trace fresh answers buffer k).phase = .exited := by
  have hk := (h k).2
  obtain ⟨-, hu, hcrash⟩ := trace_steady h k
  cases hphase : (trace fresh answers buffer k).phase with
  | length data sizeToRecieve =>
    simp only [hphase] at hk
    exact absurd hfail hk
  | body data_size block data size sum =>
    simp only [hphase] at hk
    exact absurd hfail hk.1
  | exited => rfl
  | crashed => exact absurd hphase hcrash
  | corrupted => simp [Undamaged, hphase] at hu

/-- When the answers end in nothing but ends of the stream or nothing but failures, the loop
ends as it should exactly when every call of `recv` goes well. -/
theorem ends_iff (fresh : Cells) (answers : Answers) (buffer : Cells)
    (h : ∃ k, AtEnd answers k ∨ Failing answers k) :
    Ends fresh answers buffer ↔ ∀ n, Steady answers n (trace fresh answers buffer n) := by
  constructor
  · exact steady_of_ends
  · intro hsteady
    have hrun := trace_steady hsteady
    refine ⟨exits_iff.mpr ?_, fun n => (hrun n).1⟩
    obtain ⟨k, hend | hfail⟩ := h
    · exact atEnd_exits hend fun n => (hrun n).2
    · exact ⟨k, failing_exited hsteady hfail⟩

def hungUp : Answers where
  answer k want := .data ((([[16, 0, 0, 0], List.replicate 12 0] : List Bytes).getD k []).take want)
  le _ _ := List.length_take_le _ _

theorem hungUp_ends : Ends (fun _ => 0) hungUp (fun _ => 0) := by
  have hend : AtEnd hungUp 2 := by
    intro n hn want
    obtain ⟨m, rfl⟩ : ∃ m, n = m + 2 := ⟨n - 2, by omega⟩
    exact congrArg RecvResult.data List.take_nil
  have hlater : ∀ k, ¬ Failing hungUp k := fun k hk => RecvResult.noConfusion (hk k le_rfl 0)
  refine (ends_iff _ hungUp _ ⟨2, Or.inl hend⟩).mpr fun n => ?_
  match n with
  | 0 => exact ⟨by decide, hlater 0⟩
  | 1 => exact ⟨by decide, hlater 1, fun h => by contradiction, fun h => by contradiction⟩
  | 2 => exact ⟨by decide, hlater 2⟩
  | n + 3 =>
    have hexit : (trace (fun _ => 0) hungUp (fun _ => 0) 3).phase = .exited := rfl
    rw [trace_stays (Nat.le_add_left 3 n) (by rw [hexit]; decide)]
    simp [Steady, State.Inside, Phase.Inside, hexit]

def refused : Answers where
  answer _ _ := .error
  le _ _ := Nat.zero_le _

/-- Listening on it never ends, though every call of `recv` fails. -/
theorem refused_runs : Failing refused 0 ∧ ¬ Ends (fun _ => 0) refused (fun _ => 0) := by
  have hfail : Failing refused 0 := fun _ _ _ => rfl
  refine ⟨hfail, fun h => ?_⟩
  obtain ⟨n, hn⟩ := exits_iff.mp h.exits
  exact failing_runs hfail rfl n hn

end
end SwiftRobot.ReceiveEnds
