import SwiftRobot.SocketClient
import Mathlib.Data.List.Forall2
import Mathlib.Data.List.GetD

/-!
# Frames through a stream that is cut anywhere

The sender's buffers arrive as one byte stream, and `recv` may return any non-empty
piece of what it was asked for. Bodies are put together whatever the cuts. The
length prefix is not: once it comes in two pieces the recursion never again asks
for four bytes, and puts what it then receives behind the four it has room for.
-/

namespace SwiftRobot.FramingRoundTrip
open ByteWords SocketClient

/-- How a stream is cut: the number of bytes returned at a position when `n` are
asked for and the stream holds them. -/
structure Cutting where
  size : ℕ → ℕ → ℕ
  pos : ∀ p n, 0 < n → 0 < size p n
  le : ∀ p n, size p n ≤ n

def Cutting.socket (cut : Cutting) (stream : Bytes) : Socket ℕ where
  recv p want :=
    let bs := (stream.drop p).take (cut.size p want)
    (.data bs, p + bs.length)

inductive Parts
  | one (data : Bytes)
  | two (data1 data2 : Bytes)

/-- A frame as it is sent, with the stale word of its header. -/
structure Sending where
  protocol : UInt32
  type : UInt32
  tag : UInt32
  stale : UInt32
  parts : Parts

def Sending.payload (f : Sending) : Bytes :=
  match f.parts with
  | .one data => data
  | .two data1 data2 => data1 ++ data2

def Sending.calls (f : Sending) : List Bytes :=
  match f.parts with
  | .one data => send f.stale f.protocol f.type f.tag data
  | .two data1 data2 => send2 f.stale f.protocol f.type f.tag data1 data2

def Sending.wire (f : Sending) : Bytes := f.calls.flatten

def wire (fs : List Sending) : Bytes := fs.flatMap Sending.wire

def start (fs : List Sending) (k : ℕ) : ℕ := (wire (fs.take k)).length

def Reports (f : Sending) (d : Delivery) : Prop :=
  d.header.length.toNat = 16 + f.payload.length ∧ d.header.protocol = f.protocol ∧
    d.header.type = f.type ∧ d.payload = f.payload

/-- With enough fuel the loop makes one callback for each frame, in order, and exits. -/
def RoundTrip (fs : List Sending) (cut : Cutting) (fresh buffer : Cells) : Prop :=
  ∃ bound, ∀ fuel ≥ bound, ∃ ds,
    listenLoop (cut.socket (wire fs)) fresh fuel 0 (Buffers.opened buffer) = (ds, .exited) ∧
      List.Forall₂ Reports fs ds

theorem store_inside (cells : Cells) (bs : Bytes) {k : ℕ} (hk : k < bs.length) :
    cells.store 0 bs k = bs.getD k 0 := by
  have hin : (0 : ℤ) ≤ k ∧ (k : ℤ) < 0 + bs.length := by omega
  simp only [Cells.store, if_pos hin, Int.sub_zero, Int.toNat_natCast]

theorem store_store (cells : Cells) (data : ℤ) (xs ys : Bytes) :
    (cells.store data xs).store (data + xs.length) ys = cells.store data (xs ++ ys) := by
  funext i
  simp only [Cells.store, List.length_append, Nat.cast_add]
  by_cases hx : data ≤ i ∧ i < data + xs.length
  · have hlt : (i - data).toNat < xs.length := by omega
    rw [if_neg (by omega), if_pos hx, if_pos (by omega), List.getD_append _ _ _ _ hlt]
  · by_cases hy : data + xs.length ≤ i ∧ i < data + xs.length + ys.length
    · have hge : xs.length ≤ (i - data).toNat := by omega
      have hsub : (i - (data + xs.length)).toNat = (i - data).toNat - xs.length := by omega
      rw [if_pos hy, if_pos (by omega), List.getD_append_right _ _ _ _ hge, hsub]
    · rw [if_neg hy, if_neg hx, if_neg (by omega)]

theorem Block.store_store (block : Block) (data : ℤ) (xs ys : Bytes) :
    (block.store data xs).store (data + xs.length) ys = block.store data (xs ++ ys) := by
  have hboth : (block.intact && decide (block.Inside data xs) &&
      decide (Block.Inside (block.store data xs) (data + xs.length) ys)) =
        (block.intact && decide (block.Inside data (xs ++ ys))) := by
    rw [Bool.and_assoc, ← Bool.decide_and]
    congr 2
    simp only [Block.Inside, Block.store, List.append_eq_nil_iff, List.length_append, Nat.cast_add,
      eq_iff_iff]
    cases xs with
    | nil => simp
    | cons x xs =>
      cases ys with
      | nil => simp
      | cons y ys =>
        simp
        omega
  simp only [Block.store, FramingRoundTrip.store_store, Block.mk.injEq, true_and]
  exact hboth

theorem Block.store_nil (block : Block) (data : ℤ) : block.store data [] = block := by
  have hcells : block.cells.store data [] = block.cells := by
    funext i
    rw [Cells.store, if_neg (by simp)]
  simp [Block.store, hcells, Block.Inside]

theorem take_four {bs : Bytes} (h : 4 ≤ bs.length) :
    bs.take 4 = [bs.getD 0 0, bs.getD 1 0, bs.getD 2 0, bs.getD 3 0] := by
  rcases bs with _ | ⟨a, _ | ⟨b, _ | ⟨c, _ | ⟨d, bs⟩⟩⟩⟩ <;> simp at h ⊢

theorem byteArrayToUInt32_store (cells : Cells) (bs : Bytes) {k : ℕ} (hk : k + 4 ≤ bs.length) :
    byteArrayToUInt32 (cells.store 0 bs) k = uint32.ofBytes ((bs.drop k).take 4) := by
  have h1 : cells.store 0 bs ((k : ℤ) + 1) = bs.getD (k + 1) 0 := by
    exact_mod_cast store_inside cells bs (k := k + 1) (by omega)
  have h2 : cells.store 0 bs ((k : ℤ) + 2) = bs.getD (k + 2) 0 := by
    exact_mod_cast store_inside cells bs (k := k + 2) (by omega)
  have h3 : cells.store 0 bs ((k : ℤ) + 3) = bs.getD (k + 3) 0 := by
    exact_mod_cast store_inside cells bs (k := k + 3) (by omega)
  rw [byteArrayToUInt32, store_inside cells bs (by omega), h1, h2, h3,
    take_four (by rw [List.length_drop]; omega)]
  simp [List.getD_eq_getElem?_getD]

theorem sizeSub_of_le {a b : ℕ} (hb : b ≤ a) (ha : a < 2 ^ 64) : sizeSub a b = a - b := by
  unfold sizeSub
  omega

theorem advance_of_lt {data : ℤ} {n : ℕ} (hn : n < 2 ^ 63) : advance data n = data + n :=
  if_pos hn

section
variable (cut : Cutting) (stream : Bytes)

theorem recv_eq (p want : ℕ) :
    (cut.socket stream).recv p want =
      (.data ((stream.drop p).take (cut.size p want)),
        p + ((stream.drop p).take (cut.size p want)).length) := rfl

theorem piece_length {p want : ℕ} (h : p + want ≤ stream.length) :
    ((stream.drop p).take (cut.size p want)).length = cut.size p want := by
  have hle := cut.le p want
  rw [List.length_take, List.length_drop]
  omega

theorem listen_available (fuel n : ℕ) (hfuel : n ≤ fuel) (hn : 0 < n) (hbig : n < 2 ^ 64)
    (hpiece : ∀ p want, want ≤ n → cut.size p want < 2 ^ 63) (p : ℕ) (block : Block) (data : ℤ) :
    listen (cut.socket stream) fuel p block data n =
      some (min n (stream.length - p), block.store data ((stream.drop p).take n),
        p + min n (stream.length - p)) := by
  induction fuel generalizing n p block data with
  | zero => omega
  | succ fuel ih =>
    have hpos := cut.pos p n hn
    have hle := cut.le p n
    have hans := hpiece p n le_rfl
    obtain ⟨bs, hbs⟩ : ∃ bs, (stream.drop p).take (cut.size p n) = bs := ⟨_, rfl⟩
    have hlen : bs.length = min (cut.size p n) (stream.length - p) := by
      rw [← hbs, List.length_take, List.length_drop]
    simp only [SocketClient.listen, recv_eq, RecvResult.size, RecvResult.bytes, hbs]
    by_cases hend : bs.length = 0
    · -- at the end of the stream there is nothing to place
      have hdrop : stream.drop p = [] := List.drop_eq_nil_of_le (by omega)
      have hnil : bs = [] := List.eq_nil_of_length_eq_zero hend
      have hmin : min n (stream.length - p) = 0 := by omega
      rw [if_pos hend, hend, hdrop, hnil, hmin, List.take_nil]
    · rw [if_neg hend]
      by_cases hall : bs.length = n
      · have hsize : cut.size p n = n := by omega
        have hmin : min n (stream.length - p) = n := by omega
        rw [if_pos hall, hall, ← hbs, hsize, hmin]
      · have hjoin : bs ++ (stream.drop (p + bs.length)).take (n - bs.length) =
            (stream.drop p).take n := by
          have hpiece : (stream.drop p).take bs.length = bs := by
            rw [← hbs, List.take_eq_take_iff, hbs, hlen, List.length_drop]
            omega
          have hsplit : n = bs.length + (n - bs.length) := by omega
          conv_rhs => rw [hsplit, List.take_add, hpiece, List.drop_drop]
        have hshort : bs.length < n := by omega
        have hin : bs.length ≤ stream.length - p := hlen.trans_le (Nat.min_le_right _ _)
        have hrest : bs.length + min (n - bs.length) (stream.length - (p + bs.length)) =
            min n (stream.length - p) := by
          rw [← Nat.add_min_add_left, Nat.add_sub_cancel' hshort.le, Nat.sub_add_eq,
            Nat.add_sub_cancel' hin]
        have hmod : min n (stream.length - p) % 2 ^ 64 = min n (stream.length - p) :=
          Nat.mod_eq_of_lt ((Nat.min_le_left _ _).trans_lt hbig)
        rw [if_neg hall, sizeSub_of_le hshort.le hbig, advance_of_lt (by omega),
          ih _ (by omega) (Nat.sub_pos_of_lt hshort) ((Nat.sub_le _ _).trans_lt hbig)
            fun p want h => hpiece p want (h.trans (Nat.sub_le _ _))]
        simp only [Block.store_store, hjoin, Nat.add_assoc, hrest, hmod]

theorem listen_stream (fuel n : ℕ) (hfuel : n ≤ fuel) (hn : 0 < n) (hbig : n < 2 ^ 32)
    (p : ℕ) (hp : p + n ≤ stream.length) (block : Block) (data : ℤ) :
    listen (cut.socket stream) fuel p block data n =
      some (n, block.store data ((stream.drop p).take n), p + n) := by
  have hmin : min n (stream.length - p) = n := by omega
  have hpiece : ∀ p want, want ≤ n → cut.size p want < 2 ^ 63 := fun p want h =>
    (cut.le p want).trans_lt (by omega)
  rw [listen_available cut stream fuel n hfuel hn (by omega) hpiece, hmin]

theorem recieveMessageSize_whole (fuel : ℕ) {p : ℕ} (hp : p + 4 ≤ stream.length)
    (hcut : cut.size p 4 = 4) (buffer : Block) :
    recieveMessageSize (cut.socket stream) (fuel + 1) p buffer 0 4 =
      some ((uint32.ofBytes ((stream.drop p).take 4)).toNat,
        buffer.store 0 ((stream.drop p).take 4), p + 4) := by
  have hlen : ((stream.drop p).take 4).length = 4 := by
    rw [List.length_take, List.length_drop]
    omega
  have hword := byteArrayToUInt32_store buffer.cells ((stream.drop p).take 4) (k := 0) (by omega)
  simp only [Nat.cast_zero, List.drop_zero, List.take_take] at hword
  simp only [recieveMessageSize, recv_eq, hcut, RecvResult.size, RecvResult.bytes, hlen]
  rw [if_neg (by omega), if_neg (by simp)]
  simp only [Block.store, hword, Nat.min_self]

/-- Past its first piece the recursion asks for at most three bytes, so no answer
stops it before the end of the stream. -/
theorem recieveMessageSize_swallows (fuel p want : ℕ) (hfuel : stream.length < p + fuel)
    (h1 : 1 ≤ want) (h3 : want ≤ 3) (buffer : Block) (data : ℤ) :
    ∃ buffer' q, recieveMessageSize (cut.socket stream) fuel p buffer data want =
      some (0, buffer', q) ∨ fuel = 0 := by
  induction fuel generalizing p want buffer data with
  | zero => exact ⟨buffer, p, Or.inr rfl⟩
  | succ fuel ih =>
    have hle := cut.le p want
    have hpos := cut.pos p want h1
    obtain ⟨k, hk⟩ : ∃ k, ((stream.drop p).take (cut.size p want)).length = k := ⟨_, rfl⟩
    simp only [recieveMessageSize, recv_eq, RecvResult.size, RecvResult.bytes, hk]
    have hk' : k ≤ cut.size p want := hk ▸ List.length_take_le _ _
    by_cases hend : k = 0
    · exact ⟨_, _, Or.inl (by rw [if_pos hend, hend])⟩
    · have hfour : ¬ k = 4 := by omega
      simp only [if_neg hend, ne_eq, hfour, not_false_eq_true, if_true,
        sizeSub_of_le (show k ≤ 4 by omega) (by omega)]
      obtain ⟨buffer', q, h | h⟩ := ih (p + k) (4 - k) (by omega) (by omega)
        (by omega) (buffer.store data ((stream.drop p).take (cut.size p want))) (advance data k)
      · exact ⟨buffer', q, Or.inl h⟩
      · -- fuel cannot end while the stream still delivers
        have hrest : k ≤ stream.length - p := by
          rw [← hk, List.length_take, List.length_drop]
          exact Nat.min_le_right _ _
        omega

theorem recieveMessageSize_cut (fuel p : ℕ) (hfuel : stream.length < p + fuel)
    (hp : p + 4 ≤ stream.length) (hcut : cut.size p 4 ≠ 4) (buffer : Block) :
    ∃ buffer' q, recieveMessageSize (cut.socket stream) (fuel + 1) p buffer 0 4 =
      some (0, buffer', q) := by
  have hle := cut.le p 4
  have hpos := cut.pos p 4 (by decide)
  have hlen := piece_length cut stream hp
  simp only [recieveMessageSize, recv_eq, RecvResult.size, RecvResult.bytes, hlen]
  rw [if_neg (by omega), if_pos hcut, sizeSub_of_le hle (by omega)]
  obtain ⟨buffer', q, h | h⟩ := recieveMessageSize_swallows cut stream
    fuel (p + cut.size p 4) (4 - cut.size p 4) (by omega) (by omega) (by omega)
    (buffer.store 0 ((stream.drop p).take (cut.size p 4))) (advance 0 (cut.size p 4))
  · exact ⟨buffer', q, h⟩
  · omega

theorem recieveMessageSize_end (fuel want : ℕ) {p : ℕ} (hp : stream.length ≤ p) (buffer : Block)
    (data : ℤ) :
    recieveMessageSize (cut.socket stream) (fuel + 1) p buffer data want =
      some (0, buffer, p) := by
  simp [recieveMessageSize, recv_eq, List.drop_eq_nil_of_le hp, RecvResult.size, RecvResult.bytes,
    Block.store_nil]

end

section
variable (h : PacketHeader) (payload : Bytes)

def behindLength : Bytes :=
  uint32.bytes h.protocol ++ (uint32.bytes h.type ++ (uint32.bytes h.tag ++ payload))

theorem bytes_behindLength :
    h.bytes ++ payload = uint32.bytes h.length ++ behindLength h payload := by
  simp only [PacketHeader.bytes, behindLength, List.append_assoc]

theorem behindLength_length : (behindLength h payload).length = 12 + payload.length := by
  simp only [behindLength, List.length_append, uint32_bytes_length]
  omega

theorem loadHeader_behindLength (n : ℕ) (cells : Cells) :
    loadHeader n (cells.store 0 (behindLength h payload)) =
      { h with length := UInt32.ofNat n } := by
  have hsize := behindLength_length h payload
  have hprotocol := byteArrayToUInt32_store cells (behindLength h payload) (k := 0) (by omega)
  have htype := byteArrayToUInt32_store cells (behindLength h payload) (k := 4) (by omega)
  have htag := byteArrayToUInt32_store cells (behindLength h payload) (k := 8) (by omega)
  simp only [Nat.cast_zero, Nat.cast_ofNat, List.drop_zero] at hprotocol htype htag
  have hfour : (behindLength h payload).drop 4 =
      uint32.bytes h.type ++ (uint32.bytes h.tag ++ payload) :=
    List.drop_left' (uint32_bytes_length _)
  have height : (behindLength h payload).drop 8 = uint32.bytes h.tag ++ payload := by
    have hsplit := List.drop_drop (i := 4) (j := 4) (l := behindLength h payload)
    rw [← hsplit, hfour]
    exact List.drop_left' (uint32_bytes_length _)
  rw [loadHeader, hprotocol, htype, htag, hfour, height, behindLength,
    List.take_left' (uint32_bytes_length _), List.take_left' (uint32_bytes_length _),
    List.take_left' (uint32_bytes_length _), uint32.ofBytes_bytes, uint32.ofBytes_bytes,
    uint32.ofBytes_bytes]

end

def Sending.header (f : Sending) : PacketHeader :=
  ⟨UInt32.ofNat (16 + f.payload.length), f.protocol, f.type, f.stale⟩

theorem Sending.wire_eq (f : Sending) : f.wire = f.header.bytes ++ f.payload := by
  obtain ⟨protocol, type, tag, stale, parts⟩ := f
  have hpart : ∀ data : Bytes, (if 0 < data.length then [data] else []).flatten = data := by
    intro data
    cases data <;> simp
  cases parts with
  | one data => simp [Sending.wire, Sending.calls, Sending.header, Sending.payload, send, hpart]
  | two data1 data2 =>
    simp [Sending.wire, Sending.calls, Sending.header, Sending.payload, send2, hpart, Nat.add_assoc]

def Sending.body (f : Sending) : Bytes :=
  (uint32.bytes f.protocol ++ (uint32.bytes f.type ++ uint32.bytes f.stale)) ++ f.payload

theorem Sending.wire_split (f : Sending) :
    f.wire = uint32.bytes (UInt32.ofNat (16 + f.payload.length)) ++ f.body := by
  simp [Sending.wire_eq, PacketHeader.bytes, Sending.body, Sending.header]

theorem Sending.body_length (f : Sending) : f.body.length = 12 + f.payload.length := by
  simp only [Sending.body, List.length_append, uint32_bytes_length]

theorem Sending.wire_length (f : Sending) : f.wire.length = 16 + f.payload.length := by
  rw [Sending.wire_split, List.length_append, Word.bytes_length, Sending.body_length,
    uint32_width]
  omega

def Fits (b : Buffers) : Prop :=
  match b.data_buffer with
  | none => b.data_buffer_capacity = 0
  | some block => block.size = b.data_buffer_capacity.toNat

theorem opened_fits (buffer : Cells) : Fits (Buffers.opened buffer) := rfl

theorem reserve_fits (fresh : Cells) {b : Buffers} (h : Fits b) {size : ℕ} (hsize : size < 2 ^ 32) :
    Fits (b.reserve fresh size) ∧ size ≤ (b.reserve fresh size).data_buffer_capacity.toNat := by
  have hcapacity : (UInt32.ofNat size).toNat = size := UInt32.toNat_ofNat_of_lt' hsize
  unfold Buffers.reserve
  split_ifs with hgrow
  · exact ⟨hcapacity.symm, hcapacity.ge⟩
  · exact ⟨h, Nat.le_of_not_lt hgrow⟩

theorem Fits.size_eq {b : Buffers} (hb : Fits b) {block : Block}
    (hblock : b.data_buffer = some block) : block.size = b.data_buffer_capacity.toNat := by
  rw [Fits] at hb
  simpa only [hblock] using hb

theorem Fits.capacity_eq_zero {b : Buffers} (hb : Fits b) (hnone : b.data_buffer = none) :
    b.data_buffer_capacity.toNat = 0 := by
  rw [Fits] at hb
  simp only [hnone] at hb
  rw [hb]
  rfl

theorem Fits.room {b : Buffers} (hb : Fits b) {block : Block} (hblock : b.data_buffer = some block)
    {size : ℕ} (hcapacity : size ≤ b.data_buffer_capacity.toNat) : size ≤ block.size :=
  hcapacity.trans_eq (hb.size_eq hblock).symm

theorem Fits.empty_of_none {b : Buffers} (hb : Fits b) (hnone : b.data_buffer = none) {size : ℕ}
    (hcapacity : size ≤ b.data_buffer_capacity.toNat) : size = 0 :=
  Nat.le_zero.mp (hcapacity.trans_eq (hb.capacity_eq_zero hnone))

theorem Fits.has_block {b : Buffers} (hb : Fits b) {size : ℕ} (h : 0 < size)
    (hcapacity : size ≤ b.data_buffer_capacity.toNat) :
    ∃ block, b.data_buffer = some block ∧ size ≤ block.size := by
  cases hblock : b.data_buffer with
  | none => exact absurd (hb.empty_of_none hblock hcapacity) h.ne'
  | some block => exact ⟨block, rfl, hb.room hblock hcapacity⟩

theorem Fits.of_size {b : Buffers} (hb : Fits b) {block block' : Block}
    (hblock : b.data_buffer = some block) (hsize : block'.size = block.size) :
    Fits { b with data_buffer := some block' } := by
  simp only [Fits, hblock] at hb ⊢
  rw [hsize, hb]

structure Sound (b : Buffers) : Prop where
  fits : Fits b
  four : b.buffer.size = 4
  prefixIntact : b.buffer.intact = true
  bodyIntact : ∀ block ∈ b.data_buffer, block.intact = true

theorem opened_sound (buffer : Cells) : Sound (Buffers.opened buffer) := ⟨rfl, rfl, rfl, nofun⟩

theorem Block.store_intact {block : Block} (hintact : block.intact = true) {bs : Bytes}
    (h : bs.length ≤ block.size) : (block.store 0 bs).intact = true := by
  have hin : block.Inside 0 bs := Or.inr ⟨le_refl 0, by omega⟩
  simp [Block.store, hintact, hin]

theorem Sound.sized {b : Buffers} (h : Sound b) {bs : Bytes} (hlen : bs.length ≤ 4) :
    Sound { b with buffer := b.buffer.store 0 bs } :=
  ⟨h.fits, h.four, Block.store_intact h.prefixIntact (hlen.trans_eq h.four.symm), h.bodyIntact⟩

theorem Sound.stored {b : Buffers} (h : Sound b) {block : Block} (hblock : b.data_buffer = some block)
    {bs : Bytes} (hlen : bs.length ≤ block.size) :
    Sound { b with data_buffer := some (block.store 0 bs) } := by
  refine ⟨h.fits.of_size hblock rfl, h.four, h.prefixIntact, fun block' hblock' => ?_⟩
  rw [← Option.some.inj hblock']
  exact Block.store_intact (h.bodyIntact block hblock) hlen

@[simp] theorem reserve_buffer (fresh : Cells) (b : Buffers) (size : ℕ) :
    (b.reserve fresh size).buffer = b.buffer := by
  rw [Buffers.reserve]
  split_ifs <;> rfl

theorem reserve_intact (fresh : Cells) {b : Buffers}
    (h : ∀ block ∈ b.data_buffer, block.intact = true) (size : ℕ) :
    ∀ block ∈ (b.reserve fresh size).data_buffer, block.intact = true := by
  rw [Buffers.reserve]
  split_ifs
  · intro block hblock
    rw [← Option.some.inj hblock]
  · exact h

theorem block_intact (fresh : Cells) {b : Buffers}
    (h : ∀ block ∈ b.data_buffer, block.intact = true) : (b.block fresh).intact = true := by
  rw [Buffers.block]
  cases hblock : b.data_buffer with
  | none => rfl
  | some block => exact h block hblock

theorem Sound.reserve (fresh : Cells) {b : Buffers} (hb : Sound b) {size : ℕ}
    (hsize : size < 2 ^ 32) : Sound (b.reserve fresh size) := by
  refine ⟨(reserve_fits fresh hb.fits hsize).1, ?_, ?_, reserve_intact fresh hb.bodyIntact size⟩
  · rw [reserve_buffer]
    exact hb.four
  · rw [reserve_buffer]
    exact hb.prefixIntact

/-- A round whose length and body come as asked for hands the body on, unless no buffer was
ever made for a body without bytes. -/
theorem listenLoop_frame {σ : Type} {socket : Socket σ} (fresh : Cells) {b : Buffers} (hb : Sound b)
    {fuel : ℕ} {s s' s'' : σ} {lengthBytes bs : Bytes} (hfour : lengthBytes.length ≤ 4)
    (hlt : bs.length < 2 ^ 32) {grown : Buffers}
    (hgrown : Buffers.reserve fresh { b with buffer := b.buffer.store 0 lengthBytes } bs.length =
      grown)
    (hlength : recieveMessageSize socket fuel s b.buffer 0 4 =
      some (bs.length + 4, b.buffer.store 0 lengthBytes, s'))
    (hbody : listen socket fuel s' (grown.block fresh) 0 bs.length =
      some (bs.length, (grown.block fresh).store 0 bs, s'')) :
    (bs = [] ∧ listenLoop socket fresh (fuel + 1) s b = ([], .crashed)) ∨
    ∃ (cells : Cells) (b' : Buffers), Sound b' ∧ listenLoop socket fresh (fuel + 1) s b =
      (⟨loadHeader (bs.length + 4) (cells.store 0 bs), sizeSub bs.length 12, cells.store 0 bs⟩ ::
          (listenLoop socket fresh fuel s'' b').1,
        (listenLoop socket fresh fuel s'' b').2) := by
  have hread := hb.sized hfour
  have hwhole : (b.buffer.store 0 lengthBytes).intact = true := hread.prefixIntact
  have hsound := hread.reserve fresh hlt
  have hcapacity := (reserve_fits fresh hread.fits hlt).2
  rw [hgrown] at hsound hcapacity
  rw [listenLoop]
  simp only [hlength, hwhole, Nat.add_sub_cancel, hgrown, hbody]
  rw [if_neg (by decide), if_neg (by omega)]
  cases hblock : grown.data_buffer with
  | none =>
    have hnil := List.eq_nil_of_length_eq_zero (hsound.fits.empty_of_none hblock hcapacity)
    refine Or.inl ⟨hnil, ?_⟩
    simp [Buffers.block, hblock, hnil, Block.store_nil]
  | some block =>
    have hroom := hsound.fits.room hblock hcapacity
    have hintact := Block.store_intact (hsound.bodyIntact block hblock) hroom
    refine Or.inr ⟨block.cells, _, hsound.stored hblock hroom, ?_⟩
    simp only [Buffers.block, hblock, Option.getD_some, hintact]
    rw [if_neg (by decide), if_neg (not_not.mpr rfl), if_neg (by simp)]
    rfl

theorem delivered_reports (f : Sending) (hf : 16 + f.payload.length < 2 ^ 32) (cells : Cells) :
    Reports f ⟨loadHeader (16 + f.payload.length) (cells.store 0 f.body),
      sizeSub (12 + f.payload.length) 12, cells.store 0 f.body⟩ := by
  have hlen := f.body_length
  have hbody : f.body = behindLength f.header f.payload := by
    simp only [Sending.body, behindLength, Sending.header, List.append_assoc]
  have hheader := loadHeader_behindLength f.header f.payload (16 + f.payload.length) cells
  rw [← hbody] at hheader
  refine ⟨?_, ?_, ?_, ?_⟩
  · simp only [hheader, UInt32.toNat_ofNat']
    omega
  · rw [hheader]
    rfl
  · rw [hheader]
    rfl
  · have hsize : sizeSub (12 + f.payload.length) 12 = f.payload.length := by
      rw [sizeSub_of_le (by omega) (by omega)]
      omega
    simp only [Delivery.payload, hsize]
    apply List.ext_getElem (by simp)
    intro i hi hi'
    rw [List.getElem_map, List.getElem_range]
    have hcell := store_inside cells f.body (k := 12 + i) (by omega)
    have hdrop : f.body.drop 12 = f.payload := List.drop_left' (by simp)
    push_cast at hcell
    rw [hcell, List.getD_eq_getElem?_getD, ← List.getElem?_drop, hdrop,
      List.getElem?_eq_getElem hi', Option.getD_some]

section
variable (cut : Cutting) (front back : Bytes) (f : Sending)

theorem drop_front : (front ++ (f.wire ++ back)).drop front.length = f.wire ++ back :=
  List.drop_left

theorem take_lengthBytes : ((front ++ (f.wire ++ back)).drop front.length).take 4 =
    uint32.bytes (UInt32.ofNat (16 + f.payload.length)) := by
  rw [drop_front, Sending.wire_split, List.append_assoc]
  exact List.take_left' (uint32_bytes_length _)

theorem take_body : ((front ++ (f.wire ++ back)).drop (front.length + 4)).take
    (12 + f.payload.length) = f.body := by
  rw [← List.drop_drop, drop_front, Sending.wire_split, List.append_assoc,
    List.drop_left' (uint32_bytes_length _), List.take_left' f.body_length]

theorem listenLoop_whole (hf : 16 + f.payload.length < 2 ^ 32) (fresh : Cells) {b : Buffers}
    (hb : Sound b) (hcut : cut.size front.length 4 = 4) (fuel : ℕ)
    (hfuel : 16 + f.payload.length ≤ fuel) :
    ∃ d b', Sound b' ∧ Reports f d ∧
      listenLoop (cut.socket (front ++ (f.wire ++ back))) fresh (fuel + 1) front.length b =
        (d :: (listenLoop (cut.socket (front ++ (f.wire ++ back))) fresh fuel
            (front ++ f.wire).length b').1,
          (listenLoop (cut.socket (front ++ (f.wire ++ back))) fresh fuel
            (front ++ f.wire).length b').2) := by
  obtain ⟨g, rfl⟩ : ∃ g, fuel = g + 1 := ⟨fuel - 1, by omega⟩
  have hlen : (front ++ (f.wire ++ back)).length =
      front.length + (16 + f.payload.length + back.length) := by
    simp [f.wire_length]
  have hsize : (UInt32.ofNat (16 + f.payload.length)).toNat = f.body.length + 4 := by
    rw [UInt32.toNat_ofNat', f.body_length]
    omega
  have hlength := recieveMessageSize_whole cut (front ++ (f.wire ++ back)) g
    (p := front.length) (by omega) hcut b.buffer
  rw [take_lengthBytes, Word.ofBytes_bytes, hsize] at hlength
  have hlt : f.body.length < 2 ^ 32 := by
    rw [f.body_length]
    omega
  have hbody := listen_stream cut (front ++ (f.wire ++ back)) (g + 1)
    (12 + f.payload.length) (by omega) (by omega) (by omega) (front.length + 4) (by omega)
  have hnext : front.length + 4 + (12 + f.payload.length) = (front ++ f.wire).length := by
    simp only [List.length_append, f.wire_length]
    omega
  rw [take_body, hnext, ← f.body_length] at hbody
  rcases listenLoop_frame fresh hb (uint32_bytes_length _).le hlt rfl hlength (hbody _ 0) with
    ⟨hnil, -⟩ | ⟨cells, b', hb', heq⟩
  · have hpos := f.body_length
    rw [hnil, List.length_nil] at hpos
    omega
  · have hreports := delivered_reports f hf cells
    have hwhole : 16 + f.payload.length = f.body.length + 4 := by
      rw [f.body_length]
      omega
    rw [← f.body_length, hwhole] at hreports
    exact ⟨_, b', hb', hreports, heq⟩

theorem listenLoop_cut (fresh : Cells) (b : Buffers) (hcut : cut.size front.length 4 ≠ 4)
    (fuel : ℕ) (hfuel : (front ++ (f.wire ++ back)).length + 1 < fuel) :
    (listenLoop (cut.socket (front ++ (f.wire ++ back))) fresh (fuel + 1) front.length b).1 = [] := by
  obtain ⟨g, rfl⟩ : ∃ g, fuel = g + 1 := ⟨fuel - 1, by omega⟩
  have hlen : front.length + 4 ≤ (front ++ (f.wire ++ back)).length := by
    simp only [List.length_append, f.wire_length]
    omega
  obtain ⟨buffer', q, h⟩ := recieveMessageSize_cut cut (front ++ (f.wire ++ back)) g
    front.length (by omega) hlen hcut b.buffer
  rw [listenLoop, h]
  simp only
  split_ifs <;> simp_all

end

@[simp] theorem wire_cons (f : Sending) (fs : List Sending) : wire (f :: fs) = f.wire ++ wire fs :=
  rfl

def PrefixesWhole (cut : Cutting) : ℕ → List Sending → Prop
  | _, [] => True
  | p, f :: fs => cut.size p 4 = 4 ∧ PrefixesWhole cut (p + f.wire.length) fs

theorem prefixesWhole_iff (cut : Cutting) (p : ℕ) (fs : List Sending) :
    PrefixesWhole cut p fs ↔ ∀ k < fs.length, cut.size (p + start fs k) 4 = 4 := by
  induction fs generalizing p with
  | nil => simp [PrefixesWhole]
  | cons f fs ih =>
    simp only [PrefixesWhole, ih]
    constructor
    · rintro ⟨h0, hrest⟩ k hk
      cases k with
      | zero => simpa [start, wire] using h0
      | succ k =>
        have h := hrest k (by simpa using hk)
        simpa [start, Nat.add_assoc] using h
    · intro h
      refine ⟨by simpa [start, wire] using h 0 (by simp), fun k hk => ?_⟩
      have h' := h (k + 1) (by simpa using hk)
      simpa [start, Nat.add_assoc] using h'

/-- The loop from the start of some frame: it reports the frames up to the first
prefix that comes in pieces, and exits if there is none. -/
theorem listenLoop_frames (cut : Cutting) (fresh : Cells) (fs : List Sending)
    (hfit : ∀ f ∈ fs, 16 + f.payload.length < 2 ^ 32) (front : Bytes) {b : Buffers} (hb : Sound b)
    (fuel : ℕ) (hfuel : (front ++ wire fs).length + 2 + fs.length ≤ fuel) :
    ∃ ds e, listenLoop (cut.socket (front ++ wire fs)) fresh fuel front.length b = (ds, e) ∧
      (PrefixesWhole cut front.length fs → e = .exited ∧ List.Forall₂ Reports fs ds) ∧
      (¬ PrefixesWhole cut front.length fs → ds.length < fs.length) := by
  induction fs generalizing front b fuel with
  | nil =>
    obtain ⟨g, rfl⟩ : ∃ g, fuel = g + 2 := ⟨fuel - 2, by omega⟩
    have hend := recieveMessageSize_end cut (front ++ wire []) g 4 (p := front.length)
      (by simp [wire]) b.buffer 0
    refine ⟨[], .exited, ?_, fun _ => ⟨rfl, .nil⟩, fun h => absurd trivial h⟩
    rw [listenLoop, hend]
    simp [hb.prefixIntact]
  | cons f fs ih =>
    obtain ⟨g, rfl⟩ : ∃ g, fuel = g + 1 := ⟨fuel - 1, by omega⟩
    have hf := hfit f List.mem_cons_self
    have hflen := f.wire_length
    simp only [wire_cons, List.length_append, List.length_cons] at hfuel
    rw [wire_cons]
    by_cases hcut : cut.size front.length 4 = 4
    · obtain ⟨d, b', hb', hd, hloop⟩ := listenLoop_whole cut front (wire fs) f hf fresh hb hcut
        g (by omega)
      obtain ⟨ds, e, hds, hall, hnot⟩ := ih (fun f' hf' => hfit f' (List.mem_cons_of_mem _ hf'))
        (front ++ f.wire) hb' g (by simp only [List.length_append]; omega)
      rw [List.append_assoc] at hds
      refine ⟨d :: ds, e, ?_, ?_, ?_⟩
      · rw [hloop, hds]
      · rintro ⟨-, hrest⟩
        obtain ⟨he, hreports⟩ := hall (by rwa [List.length_append])
        exact ⟨he, .cons hd hreports⟩
      · intro hn
        have hrest : ¬ PrefixesWhole cut (front ++ f.wire).length fs := by
          rw [List.length_append]
          exact fun h => hn ⟨hcut, h⟩
        simpa using hnot hrest
    · have hlen : (front ++ (f.wire ++ wire fs)).length + 1 < g := by
        simp only [List.length_append]
        omega
      refine ⟨[], _, Prod.ext (listenLoop_cut cut front (wire fs) f fresh b hcut g hlen) rfl, ?_, ?_⟩
      · exact fun h => absurd h.1 hcut
      · exact fun _ => by simp

/-- The frames arrive, each once and in order, exactly when `recv` returns every
length prefix in one piece; cuts inside the bodies never matter. -/
theorem framing_roundTrip_iff (fs : List Sending)
    (hfit : ∀ f ∈ fs, 16 + f.payload.length < 2 ^ 32) (cut : Cutting) (fresh buffer : Cells) :
    RoundTrip fs cut fresh buffer ↔ ∀ k < fs.length, cut.size (start fs k) 4 = 4 := by
  have hb := opened_sound buffer
  have hiff := prefixesWhole_iff cut 0 fs
  simp only [Nat.zero_add] at hiff
  rw [← hiff]
  constructor
  · rintro ⟨bound, hbound⟩
    by_contra hn
    obtain ⟨ds, e, hds, -, hshort⟩ := listenLoop_frames cut fresh fs hfit [] hb
      (bound + (([] : Bytes) ++ wire fs).length + 2 + fs.length) (by omega)
    obtain ⟨ds', hds', hreports⟩ := hbound
      (bound + (([] : Bytes) ++ wire fs).length + 2 + fs.length) (by omega)
    simp only [List.nil_append, List.length_nil] at hds hds'
    rw [hds, Prod.mk.injEq] at hds'
    have hlen := hreports.length_eq
    rw [← hds'.1] at hlen
    exact absurd (hshort hn) (by omega)
  · intro hall
    refine ⟨(([] : Bytes) ++ wire fs).length + 2 + fs.length, fun fuel hfuel => ?_⟩
    obtain ⟨ds, e, hds, hreports, -⟩ := listenLoop_frames cut fresh fs hfit [] hb fuel hfuel
    obtain ⟨rfl, hall⟩ := hreports hall
    exact ⟨ds, hds, hall⟩

def bytewise : Cutting where
  size _ n := if n = 4 then 4 else min n 1
  pos p n hn := by split_ifs <;> omega
  le p n := by split_ifs <;> omega

theorem framing_roundTrip_bytewise :
    (∀ f ∈ [(⟨0, 9, 1, 0, .two [1, 2] [3]⟩ : Sending)], 16 + f.payload.length < 2 ^ 32) ∧
      (RoundTrip [⟨0, 9, 1, 0, .two [1, 2] [3]⟩] bytewise (fun _ => 0) (fun _ => 0) ↔
        ∀ k < 1, bytewise.size (start [⟨0, 9, 1, 0, .two [1, 2] [3]⟩] k) 4 = 4) :=
  ⟨by decide, framing_roundTrip_iff [⟨0, 9, 1, 0, .two [1, 2] [3]⟩] (by decide) bytewise
    (fun _ => 0) (fun _ => 0)⟩

def splitFirst : Cutting where
  size p n := if p = 0 then min n 2 else n
  pos p n hn := by split_ifs <;> omega
  le p n := by split_ifs <;> omega

theorem split_prefix_loses_frame :
    ¬ RoundTrip [⟨0, 11, 1, 0, .one []⟩] splitFirst (fun _ => 0) (fun _ => 0) := by
  rintro ⟨bound, hbound⟩
  obtain ⟨ds, hds, hreports⟩ := hbound (bound + 19) (by omega)
  have hcut := listenLoop_cut splitFirst [] [] ⟨0, 11, 1, 0, .one []⟩ (fun _ => 0)
    (Buffers.opened fun _ => 0) (by decide) (bound + 18)
    (by rw [List.append_nil, List.nil_append, Sending.wire_length]; simp [Sending.payload])
  simp only [List.append_nil, List.nil_append, List.length_nil] at hcut
  rw [show wire [⟨0, 11, 1, 0, .one []⟩] = Sending.wire ⟨0, 11, 1, 0, .one []⟩ from
    List.append_nil _] at hds
  rw [hds] at hcut
  rw [show ds = [] from hcut] at hreports
  cases hreports

end SwiftRobot.FramingRoundTrip
