import SwiftRobot.BodyReassembly

/-!
# A loop that reads a stream of frames

Whatever pieces `recv` cuts the stream into, the loop stands before a frame, or inside the
body of one, or it has lost its place inside a length; what it hands on are the frames
before that, each once and in order.
-/

namespace SwiftRobot.StreamReader
open ByteWords SocketClient FramingRoundTrip ReceiveLoop BodyReassembly

def memory (buffers : Buffers) (d : Delivery) : Bytes :=
  match buffers.data_buffer with
  | none => []
  | some block => (List.range (block.size - 12)).map fun i : ℕ => d.cells (12 + (i : ℤ))

/-- A loop that has taken the first bytes of the stream of these frames. -/
inductive Reads (fs : List Sending) (s : State) : ℕ → Prop
  | boundary : s.phase = .length 0 4 → Sound s.buffers → s.calls.length ≤ fs.length →
    Reads fs s (start fs s.calls.length)
  | body {f : Sending} {block : Block} {sum : ℕ} : fs[s.calls.length]? = some f →
    sum < 12 + f.payload.length → Sound s.buffers → block.intact = true →
    s.phase = .body (16 + f.payload.length) (block.store 0 (f.body.take sum)) sum
      (12 + f.payload.length - sum) sum →
    Reads fs s (start fs s.calls.length + 4 + sum)
  -- the answers of `recv` inside a length are never again of four bytes
  | lost {position want : ℕ} {data : ℤ} : s.phase = .length data want → want < 4 →
    Reads fs s position
  | ended {position : ℕ} : s.phase = .exited ∨ s.phase = .corrupted → Reads fs s position

instance : (phase : Phase) → Decidable (phase = .length 0 4)
  | .length data want => decidable_of_iff (data = 0 ∧ want = 4) (by simp)
  | .body _ _ _ _ _ => .isFalse Phase.noConfusion
  | .exited => .isFalse Phase.noConfusion
  | .crashed => .isFalse Phase.noConfusion
  | .corrupted => .isFalse Phase.noConfusion

section
variable {fs : List Sending} {k : ℕ} {f : Sending}

theorem wire_split_at (hk : fs[k]? = some f) :
    wire fs = wire (fs.take k) ++ (f.wire ++ wire (fs.drop (k + 1))) := by
  have hsplit : fs = fs.take k ++ f :: fs.drop (k + 1) := by
    obtain ⟨hlt, rfl⟩ := List.getElem?_eq_some_iff.mp hk
    rw [← List.drop_eq_getElem_cons hlt, List.take_append_drop]
  conv_lhs => rw [hsplit, wire, List.flatMap_append]
  rfl

theorem take_length (hk : fs[k]? = some f) :
    ((wire fs).drop (start fs k)).take 4 =
      uint32.bytes (UInt32.ofNat (16 + f.payload.length)) := by
  rw [wire_split_at hk]
  exact take_lengthBytes _ _ f

theorem take_piece (hk : fs[k]? = some f) {sum n : ℕ} (hn : sum + n ≤ 12 + f.payload.length) :
    ((wire fs).drop (start fs k + 4 + sum)).take n = (f.body.drop sum).take n := by
  have hbody : ((wire fs).drop (start fs k + 4)).take (12 + f.payload.length) = f.body := by
    rw [wire_split_at hk]
    exact take_body _ _ f
  rw [← hbody, List.drop_take, List.take_take, List.drop_drop, Nat.min_eq_left (by omega)]

theorem start_succ (hk : fs[k]? = some f) :
    start fs (k + 1) = start fs k + 4 + (12 + f.payload.length) := by
  rw [start, start, List.take_add_one, hk, wire, wire, List.flatMap_append, List.length_append]
  simp [f.wire_length]
  omega

theorem start_length : start fs fs.length = (wire fs).length := by
  rw [start, List.take_length]

theorem exists_frame (hk : k ≤ fs.length) (hin : start fs k + 4 ≤ (wire fs).length) :
    ∃ f, fs[k]? = some f := by
  have hlt : k < fs.length := by
    by_contra hge
    obtain rfl : k = fs.length := by omega
    rw [start_length] at hin
    omega
  exact ⟨fs[k], List.getElem?_eq_getElem hlt⟩

theorem start_of_prefix {fs' : List Sending} (h : fs <+: fs') (hk : k ≤ fs.length) :
    start fs' k = start fs k := by
  obtain ⟨more, rfl⟩ := h
  rw [start, start, List.take_append_of_le_length hk]

end

structure Hands (f : Sending) (s s' : State) (d : Delivery) : Prop where
  calls : ∃ got, s'.calls = s.calls ++ [⟨d, got⟩]
  protocol : d.header.protocol = f.protocol
  type : d.header.type = f.type
  size : d.size = f.payload.length
  memory : ∃ tail, memory s'.buffers d = f.payload ++ tail

section
variable {fs : List Sending} {s : State} {position n : ℕ} (fresh : Cells)

theorem memory_payload {buffers : Buffers} {block : Block}
    (hblock : buffers.data_buffer = some block) {d : Delivery} (hsize : d.size ≤ block.size - 12) :
    ∃ tail, memory buffers d = d.payload ++ tail := by
  refine ⟨(memory buffers d).drop d.size, ?_⟩
  have htake : (memory buffers d).take d.size = d.payload := by
    simp only [memory, hblock, ← List.map_take, List.take_range, Nat.min_eq_left hsize]
    rfl
  rw [← htake, List.take_append_drop]

theorem received_all {f : Sending} (hfit : 16 + f.payload.length < 2 ^ 32) {block : Block}
    (hsound : Sound s.buffers) (hintact : block.intact = true)
    (hsize : block.size = s.buffers.data_buffer_capacity.toNat)
    (hcapacity : 12 + f.payload.length ≤ s.buffers.data_buffer_capacity.toNat) :
    let s' := s.received (16 + f.payload.length) (block.store 0 f.body) (12 + f.payload.length)
    (∃ d, Hands f s s' d) ∧ s'.phase = .length 0 4 ∧ Sound s'.buffers := by
  have hall : ¬ 12 + f.payload.length ≠ 16 + f.payload.length - 4 := by omega
  have hlen : f.body.length ≤ block.size := by
    rw [f.body_length, hsize]
    exact hcapacity
  have hstored := Block.store_intact hintact hlen
  obtain ⟨held, hheld, -⟩ := hsound.fits.has_block (by omega) hcapacity
  have hsub : sizeSub (12 + f.payload.length) 12 = f.payload.length := by
    rw [sizeSub_of_le (by omega) (by omega)]
    omega
  obtain ⟨-, hprotocol, htype, hpayload⟩ := delivered_reports f hfit block.cells
  simp only [State.received, hstored, Bool.true_eq_false, if_false, if_neg hall, hheld,
    Option.isNone_some, Bool.false_eq_true]
  let d : Delivery := ⟨loadHeader (16 + f.payload.length) (block.cells.store 0 f.body),
    sizeSub (12 + f.payload.length) 12, block.cells.store 0 f.body⟩
  let buffers : Buffers := { s.buffers with data_buffer := some (block.store 0 f.body) }
  have hblock' : buffers.data_buffer = some (block.store 0 f.body) := rfl
  have hsize' : d.size ≤ (block.store 0 f.body).size - 12 := by
    simp only [d, hsub, Block.store]
    omega
  obtain ⟨tail, htail⟩ := memory_payload hblock' hsize'
  rw [hpayload] at htail
  have hheldSize : block.size = held.size := hsize.trans (hsound.fits.size_eq hheld).symm
  refine ⟨⟨d, ⟨_, rfl⟩, hprotocol, htype, hsub, tail, htail⟩, trivial,
    hsound.fits.of_size hheld hheldSize, hsound.four, hsound.prefixIntact, fun block' hblock => ?_⟩
  rw [← Option.some.inj hblock]
  exact hstored

theorem sized_body {f : Sending} (hk : fs[s.calls.length]? = some f)
    (hfit : 16 + f.payload.length < 2 ^ 32) (hsound : Sound s.buffers) :
    Reads fs (s.sized fresh (16 + f.payload.length)) (start fs s.calls.length + 4) := by
  have hfour : ¬ 16 + f.payload.length < 4 := by omega
  have hsub : 16 + f.payload.length - 4 = 12 + f.payload.length := by omega
  have hgrown := hsound.reserve fresh (show 12 + f.payload.length < 2 ^ 32 by omega)
  simp only [State.sized, hsound.prefixIntact, Bool.true_eq_false, if_false, if_neg hfour, hsub]
  generalize s.buffers.reserve fresh (12 + f.payload.length) = grown at hgrown ⊢
  have hstart : grown.block fresh = (grown.block fresh).store 0 (f.body.take 0) :=
    (Block.store_nil _ 0).symm
  have hintact := block_intact fresh hgrown.bodyIntact
  have hbody : Reads fs { s with
      phase := .body (16 + f.payload.length) (grown.block fresh) 0 (12 + f.payload.length) 0
      buffers := grown } (start fs s.calls.length + 4 + 0) := by
    refine @Reads.body fs _ f (grown.block fresh) 0 hk (by omega) hgrown hintact ?_
    rw [← hstart]
    rfl
  exact hbody

theorem take_body_piece {f : Sending} {block : Block} {sum : ℕ}
    (hk : fs[s.calls.length]? = some f) (hfit : 16 + f.payload.length < 2 ^ 32)
    (hbuffered : Buffered s) (hsum : sum < 12 + f.payload.length) (hsound : Sound s.buffers)
    (hintact : block.intact = true)
    (hphase : s.phase = .body (16 + f.payload.length) (block.store 0 (f.body.take sum)) sum
      (12 + f.payload.length - sum) sum) (hn : n ≤ 12 + f.payload.length - sum) :
    let s' := s.take fresh (.data ((f.body.drop sum).take n))
    Reads fs s' (start fs s.calls.length + 4 + (sum + n)) ∧
      (s'.calls = s.calls ∨ ∃ d, Hands f s s' d) := by
  have hlen : ((f.body.drop sum).take n).length = n := by
    rw [List.length_take, List.length_drop, f.body_length]
    omega
  have hmod : (sum + n) % 2 ^ 64 = sum + n := Nat.mod_eq_of_lt (by omega)
  have hstore : (block.store 0 (f.body.take sum)).store sum ((f.body.drop sum).take n) =
      block.store 0 (f.body.take (sum + n)) := by
    have hplace : (sum : ℤ) = 0 + (f.body.take sum).length := by
      rw [List.length_take, f.body_length]
      omega
    rw [hplace, Block.store_store, List.take_add]
  obtain ⟨hcapacity, hsize⟩ : 16 + f.payload.length - 4 ≤ s.buffers.data_buffer_capacity.toNat ∧
      block.size = s.buffers.data_buffer_capacity.toNat := by
    have hbounded := hbuffered.bounded
    rw [hphase] at hbounded
    exact hbounded
  simp only [State.take, hphase, RecvResult.size, RecvResult.bytes, hlen, hmod, hstore]
  split_ifs with hzero hall
  · have hshort : sum + n ≠ 16 + f.payload.length - 4 := by omega
    have hend (t : State) (b : Block) : Reads fs (t.received (16 + f.payload.length) b (sum + n))
        (start fs s.calls.length + 4 + (sum + n)) ∧
          (t.received (16 + f.payload.length) b (sum + n)).calls = t.calls := by
      rw [State.received, if_pos hshort]
      split_ifs
      · exact ⟨.ended (Or.inr rfl), rfl⟩
      · exact ⟨.ended (Or.inl rfl), rfl⟩
    exact (hend _ _).imp_right Or.inl
  · have hwhole : sum + n = 12 + f.payload.length := by omega
    have htake : f.body.take (12 + f.payload.length) = f.body :=
      List.take_of_length_le f.body_length.le
    rw [hwhole, htake]
    have hroom : 12 + f.payload.length ≤ s.buffers.data_buffer_capacity.toNat := by omega
    obtain ⟨⟨d, hhands⟩, hnext, hsound'⟩ := received_all (s := { s with got := s.got + n })
      hfit hsound hintact hsize hroom
    refine ⟨?_, Or.inr ⟨d, hhands.calls, hhands.protocol, hhands.type, hhands.size, hhands.memory⟩⟩
    obtain ⟨got, hcalls⟩ := hhands.calls
    have hread := @Reads.boundary fs _ hnext hsound' (by
      rw [hcalls, List.length_append]
      exact (List.getElem?_eq_some_iff.mp hk).1)
    rw [hcalls, List.length_append, List.length_singleton, start_succ hk] at hread
    exact hread
  · have hdata : advance (sum : ℤ) n = (sum + n : ℕ) := by
      rw [advance_of_lt (by omega), Nat.cast_add]
    have hleft : sizeSub (12 + f.payload.length - sum) n = 12 + f.payload.length - (sum + n) := by
      rw [sizeSub_of_le hn (by omega), Nat.sub_add_eq]
    rw [hdata, hleft]
    exact ⟨@Reads.body fs _ f block (sum + n) hk (by omega) hsound hintact rfl, Or.inl rfl⟩

theorem sized_ended {data_size position : ℕ} (h : data_size < 4) :
    Reads fs (s.sized fresh data_size) position ∧ (s.sized fresh data_size).calls = s.calls := by
  rw [State.sized, if_pos h]
  split_ifs
  · exact ⟨.ended (Or.inr rfl), rfl⟩
  · exact ⟨.ended (Or.inl rfl), rfl⟩

theorem take_boundary (hfit : ∀ f ∈ fs, 16 + f.payload.length < 2 ^ 32)
    (hphase : s.phase = .length 0 4) (hsound : Sound s.buffers) (hle : s.calls.length ≤ fs.length)
    (hn : n ≤ 4) (hin : start fs s.calls.length + n ≤ (wire fs).length) :
    let s' := s.take fresh (.data (((wire fs).drop (start fs s.calls.length)).take n))
    Reads fs s' (start fs s.calls.length + n) ∧ s'.calls = s.calls := by
  have hlen : (((wire fs).drop (start fs s.calls.length)).take n).length = n := by
    rw [List.length_take, List.length_drop]
    omega
  simp only [State.take, hphase, RecvResult.size, RecvResult.bytes, hlen]
  split_ifs with hzero hfour
  · exact sized_ended fresh (by omega)
  · have hwant : sizeSub 4 n < 4 := by
      rw [sizeSub_of_le hn (by omega)]
      omega
    exact ⟨.lost rfl hwant, rfl⟩
  · obtain rfl : n = 4 := not_not.mp hfour
    obtain ⟨f, hk⟩ := exists_frame hle hin
    have hbytes := take_length hk
    have hword : byteArrayToUInt32 (s.buffers.buffer.store 0
        (((wire fs).drop (start fs s.calls.length)).take 4)).cells 0 =
          UInt32.ofNat (16 + f.payload.length) := by
      have h := byteArrayToUInt32_store s.buffers.buffer.cells
        (((wire fs).drop (start fs s.calls.length)).take 4) (k := 0) (by omega)
      rw [List.drop_zero, List.take_take, Nat.min_self] at h
      exact h.trans (by rw [hbytes, Word.ofBytes_bytes])
    have hf := hfit f (List.mem_of_getElem? hk)
    have hsize : (UInt32.ofNat (16 + f.payload.length)).toNat = 16 + f.payload.length :=
      UInt32.toNat_ofNat_of_lt' hf
    have hread := hsound.sized hlen.le
    rw [hword, hsize]
    refine ⟨sized_body fresh (s := { s with buffers := _, got := _ }) hk hf hread, ?_⟩
    rw [State.sized]
    split_ifs <;> rfl

theorem take_lost {want : ℕ} {data : ℤ} (hphase : s.phase = .length data want) (hwant : want < 4)
    {bs : Bytes} (hlen : bs.length ≤ want) (position : ℕ) :
    Reads fs (s.take fresh (.data bs)) position ∧ (s.take fresh (.data bs)).calls = s.calls := by
  simp only [State.take, hphase, RecvResult.size, RecvResult.bytes]
  split_ifs with hzero hfour
  · exact sized_ended fresh (by omega)
  · have hless : sizeSub 4 bs.length < 4 := by
      rw [sizeSub_of_le (by omega) (by omega)]
      omega
    exact ⟨.lost rfl hless, rfl⟩
  · omega

/-- One answer of `recv`, of any size that was asked for and is there. -/
theorem Reads.take (h : Reads fs s position) (hfit : ∀ f ∈ fs, 16 + f.payload.length < 2 ^ 32)
    (hbuffered : Buffered s) (hn : n ≤ s.phase.want) (hin : position + n ≤ (wire fs).length) :
    let s' := s.take fresh (.data (((wire fs).drop position).take n))
    Reads fs s' (position + n) ∧
      (s'.calls = s.calls ∨ ∃ f d, fs[s.calls.length]? = some f ∧ Hands f s s' d) := by
  cases h with
  | boundary hphase hsound hle =>
    rw [hphase] at hn
    obtain ⟨hread, hcalls⟩ := take_boundary fresh hfit hphase hsound hle hn hin
    exact ⟨hread, Or.inl hcalls⟩
  | @body f block sum hk hsum hsound hintact hphase =>
    rw [hphase, Phase.want] at hn
    obtain ⟨hread, hcalls⟩ := take_body_piece fresh hk (hfit f (List.mem_of_getElem? hk))
      hbuffered hsum hsound hintact hphase hn
    rw [← take_piece hk (by omega)] at hread hcalls
    rw [Nat.add_assoc (start fs s.calls.length + 4)]
    exact ⟨hread, hcalls.imp_right fun ⟨d, hd⟩ => ⟨f, d, hk, hd⟩⟩
  | lost hphase hwant =>
    rw [hphase, Phase.want] at hn
    obtain ⟨hread, hcalls⟩ := take_lost fresh hphase hwant
      ((List.length_take_le n ((wire fs).drop position)).trans hn) (position + n)
    exact ⟨hread, Or.inl hcalls⟩
  | ended hphase =>
    have hstays : ∀ r, s.take fresh r = s := by
      intro r
      rcases hphase with hphase | hphase <;> rw [State.take, hphase]
    rw [hstays]
    exact ⟨.ended hphase, Or.inl rfl⟩

end

theorem Reads.grow {fs fs' : List Sending} {s : State} {position : ℕ} (h : Reads fs s position)
    (hgrows : fs <+: fs') : Reads fs' s position := by
  cases h with
  | boundary hphase hsound hle =>
    rw [← start_of_prefix hgrows hle]
    exact .boundary hphase hsound (hle.trans hgrows.length_le)
  | @body f block sum hk hsum hsound hintact hphase =>
    have hlt := (List.getElem?_eq_some_iff.mp hk).1
    rw [← start_of_prefix hgrows hlt.le]
    refine .body ?_ hsum hsound hintact hphase
    obtain ⟨more, rfl⟩ := hgrows
    rw [List.getElem?_append_left hlt, hk]
  | lost hphase hwant => exact .lost hphase hwant
  | ended hphase => exact .ended hphase

theorem Reads.whole {fs : List Sending} {s : State} (h : Reads fs s (wire fs).length)
    (hphase : s.phase = .length 0 4) : s.calls.length = fs.length := by
  generalize hposition : (wire fs).length = position at h
  cases h with
  | boundary _ _ hle =>
    by_contra hne
    have hk : fs[s.calls.length]? = some fs[s.calls.length] :=
      List.getElem?_eq_getElem (by omega)
    have hlen := congrArg List.length (wire_split_at hk)
    simp only [List.length_append, Sending.wire_length] at hlen
    rw [start] at hposition
    omega
  | body _ _ _ _ hbody => simp [hphase] at hbody
  | lost hlost hwant =>
    simp only [hphase, Phase.length.injEq] at hlost
    omega
  | ended hended => simp [hphase] at hended

end SwiftRobot.StreamReader
