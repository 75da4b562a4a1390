import SwiftRobot.ReceiveLoop

/-!
# The receive buffer and the bodies that are put together in it

The buffer that `listenLoop` keeps grows and is used again for smaller frames: the pointer,
the size of the block behind it and the capacity that is recorded stay in step, whatever
`recv` answers. Into that block `listen` puts the bytes of a body, and none behind it.
-/

namespace SwiftRobot.BodyReassembly
open ByteWords SocketClient FramingRoundTrip ReceiveLoop

def Phase.Bounded (capacity : ℕ) : Phase → Prop
  | .body data_size block _ _ _ => data_size - 4 ≤ capacity ∧ block.size = capacity
  | .length _ _ | .exited | .crashed | .corrupted => True

structure Buffered (s : State) : Prop where
  fits : Fits s.buffers
  bounded : Phase.Bounded s.buffers.data_buffer_capacity.toNat s.phase

theorem fits_of_prefix {b : Buffers} (h : Fits b) (buffer : Block) :
    Fits { b with buffer := buffer } := h

section
variable {fresh : Cells}

theorem buffered_length {s : State} (h : Fits s.buffers) (data : ℤ) (sizeToRecieve : ℕ) :
    Buffered { s with phase := .length data sizeToRecieve } := ⟨h, trivial⟩

theorem block_size {b : Buffers} (h : Fits b) :
    (b.block fresh).size = b.data_buffer_capacity.toNat := by
  rw [Buffers.block]
  cases hblock : b.data_buffer with
  | none => exact (h.capacity_eq_zero hblock).symm
  | some block => exact h.size_eq hblock

theorem sized_buffered {s : State} (h : Fits s.buffers) {data_size : ℕ}
    (hsize : data_size < 2 ^ 32) : Buffered (s.sized fresh data_size) := by
  unfold State.sized
  split_ifs with hprefix hfour
  · exact ⟨h, trivial⟩
  · exact ⟨h, trivial⟩
  · have hbody : data_size - 4 < 2 ^ 32 := by omega
    obtain ⟨hfits, hle⟩ := reserve_fits _ h hbody
    exact ⟨hfits, hle, block_size hfits⟩

theorem received_buffered {s : State} (h : Fits s.buffers) (data_size : ℕ) (block : Block)
    (hblock : block.size = s.buffers.data_buffer_capacity.toNat) (received : ℕ) :
    Buffered (s.received data_size block received) := by
  unfold State.received
  split_ifs
  · exact ⟨h, trivial⟩
  · exact ⟨h, trivial⟩
  · exact ⟨h, trivial⟩
  · exact ⟨hblock, trivial⟩

theorem take_buffered {s : State} (h : Buffered s) (r : RecvResult) :
    Buffered (s.take fresh r) := by
  obtain ⟨hfits, hbounded⟩ := h
  cases hphase : s.phase with
  | length data sizeToRecieve =>
    let s' : State :=
      { s with
        buffers := { s.buffers with buffer := s.buffers.buffer.store data r.bytes },
        got := s.got + r.bytes.length }
    have hread : Fits s'.buffers := fits_of_prefix hfits _
    simp only [State.take, hphase]
    split_ifs with hzero hfour
    · exact sized_buffered (s := s') hread (by omega)
    · exact buffered_length (s := s') hread _ _
    · exact sized_buffered (s := s') hread (UInt32.toNat_lt _)
  | body data_size block data size sum =>
    rw [hphase] at hbounded
    let s' : State := { s with got := s.got + r.bytes.length }
    have hread : Fits s'.buffers := hfits
    simp only [State.take, hphase]
    split_ifs with hzero hall
    · exact received_buffered hread _ (block.store data r.bytes) hbounded.2 _
    · exact received_buffered hread _ (block.store data r.bytes) hbounded.2 _
    · exact ⟨hfits, hbounded⟩
  | exited | crashed | corrupted =>
    simp only [State.take, hphase]
    exact ⟨hfits, hphase ▸ trivial⟩

theorem trace_buffered (answers : Answers) (buffer : Cells) (k : ℕ) :
    Buffered (trace fresh answers buffer k) := by
  induction k with
  | zero => exact ⟨opened_fits buffer, trivial⟩
  | succ k ih =>
    rw [trace_succ]
    exact take_buffered ih _

end

/-- `listen(data, n)` at position `p` of the stream returns the number of bytes that are
there, at most `n`, with these bytes at `data` and nothing changed elsewhere; it stays inside
of a block that has room for `n` bytes there. -/
def Reassembles (cut : Cutting) (stream : Bytes) (p n : ℕ) : Prop :=
  ∀ (block : Block) (data : ℤ), ∃ received block',
    (∀ fuel > n, listen (cut.socket stream) fuel p block data n =
      some (received, block', p + received)) ∧
    received = min n (stream.length - p) ∧ (received = n ↔ n ≤ stream.length - p) ∧
    (∀ k < received, some (block'.cells (data + k)) = stream[p + k]?) ∧
    (∀ i, i < data ∨ data + received ≤ i → block'.cells i = block.cells i) ∧
    (0 ≤ data → data + n ≤ block.size → block'.intact = block.intact)

theorem store_outside (cells : Cells) (data : ℤ) (bs : Bytes) {i : ℤ}
    (h : i < data ∨ data + bs.length ≤ i) : cells.store data bs i = cells i :=
  if_neg (by omega)

theorem store_placed (cells : Cells) (data : ℤ) (bs : Bytes) {k : ℕ} (hk : k < bs.length) :
    some (cells.store data bs (data + k)) = bs[k]? := by
  have hin : data ≤ data + k ∧ data + k < data + bs.length := by omega
  have hsub : (data + k - data).toNat = k := by omega
  rw [Cells.store, if_pos hin, hsub, List.getD_eq_getElem _ _ hk, List.getElem?_eq_getElem hk]

section
variable {cut : Cutting} {stream : Bytes} {p n : ℕ}

theorem listen_empty (fuel : ℕ) (hfuel : 0 < fuel) (block : Block) (data : ℤ) :
    listen (cut.socket stream) fuel p block data 0 = some (0, block.store data [], p) := by
  obtain ⟨g, rfl⟩ : ∃ g, fuel = g + 1 := ⟨fuel - 1, by omega⟩
  have hsize : cut.size p 0 = 0 := Nat.le_zero.mp (cut.le _ _)
  simp [SocketClient.listen, recv_eq, hsize, RecvResult.size, RecvResult.bytes]

/-- `n` is a `size_t`, and the answers of `recv` are not negative as a `ssize_t`. -/
theorem listen_reassembles (hn : n < 2 ^ 64)
    (hpiece : ∀ q want, want ≤ n → cut.size q want < 2 ^ 63) : Reassembles cut stream p n := by
  intro block data
  have hlen : ((stream.drop p).take n).length = min n (stream.length - p) := by
    rw [List.length_take, List.length_drop]
  refine ⟨min n (stream.length - p), block.store data ((stream.drop p).take n),
    fun fuel hfuel => ?_, rfl, by omega, fun k hk => ?_, fun i hi => ?_, fun h0 hroom => ?_⟩
  · rcases Nat.eq_zero_or_pos n with rfl | hpos
    · rw [listen_empty fuel hfuel, Nat.zero_min, List.take_zero, Nat.add_zero]
    · exact listen_available cut stream fuel n hfuel.le hpos hn hpiece p block data
  · exact (store_placed _ _ _ (by omega)).trans
      (by rw [List.getElem?_take_of_lt (by omega), List.getElem?_drop])
  · exact store_outside _ _ _ (by rwa [hlen])
  · have hin : block.Inside data ((stream.drop p).take n) := Or.inr ⟨h0, by omega⟩
    simp [Block.store, hin]

end

/-- In every state of the receive loop the buffer fits and holds the body that was asked for;
and `listen` reassembles a body of any size, however the stream is cut. -/
theorem body_reassembly :
    (∀ (fresh : Cells) (answers : Answers) (buffer : Cells) (k : ℕ),
      Buffered (trace fresh answers buffer k)) ∧
    ∀ (cut : Cutting) (stream : Bytes) (p n : ℕ), n < 2 ^ 64 →
      (∀ q want, want ≤ n → cut.size q want < 2 ^ 63) → Reassembles cut stream p n :=
  ⟨fun _ answers buffer k => trace_buffered answers buffer k,
    fun _ _ _ _ hn hpiece => listen_reassembles hn hpiece⟩

def pairs : Cutting where
  size _ n := min n 2
  pos p n hn := by omega
  le p n := by omega

theorem body_reassembly_pairs : ∃ received block',
    (∀ fuel > 5, listen (pairs.socket [9, 1, 2, 3, 4, 5, 6]) fuel 1 ⟨5, fun _ => 0, true⟩ 0 5 =
      some (received, block', 1 + received)) ∧
    received = 5 ∧ some (block'.cells 4) = some 5 ∧ block'.intact = true := by
  obtain ⟨received, block', hlisten, hreceived, -, hplaced, -, hintact⟩ :=
    body_reassembly.2 pairs [9, 1, 2, 3, 4, 5, 6] 1 5 (by decide)
      (fun _ want _ => (Nat.min_le_right want 2).trans_lt (by decide)) ⟨5, fun _ => 0, true⟩ 0
  have hfive : received = 5 := hreceived
  exact ⟨received, block', hlisten, hfive, hplaced 4 (by omega), hintact (by decide) (by decide)⟩

end SwiftRobot.BodyReassembly
