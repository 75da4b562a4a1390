import SwiftRobot.FramingRoundTrip
import SwiftRobot.Support.Reading

/-!
# Frames that are too short for their header

Of the length of a frame `listenLoop` only asks that it counts its own four bytes. A frame
of less than sixteen bytes comes to the callback when its body has arrived: its header is
read behind the body, and its payload size is below zero in a `size_t`.
-/

namespace SwiftRobot.ShortFrames
open ByteWords Reading SocketClient FramingRoundTrip

section
variable (cut : Cutting) (stream : Bytes)

def lengthAt (p : ℕ) : ℕ := (uint32.ofBytes ((stream.drop p).take 4)).toNat

def bodyAt (p : ℕ) : Bytes := (stream.drop (p + 4)).take (lengthAt stream p - 4)

/-- A frame from `p` on arrives: its length in one piece, and all that the length counts. -/
structure Arrives (p : ℕ) : Prop where
  whole : cut.size p 4 = 4
  four : 4 ≤ lengthAt stream p
  complete : p + lengthAt stream p ≤ stream.length

inductive FrameAt : ℕ → Prop
  | first : FrameAt 0
  | next {p : ℕ} : FrameAt p → Arrives cut stream p → FrameAt (p + lengthAt stream p)

def readHeader : Reading (UInt32 × UInt32 × UInt32) := do
  let protocol ← word uint32 0
  let type ← word uint32 4
  let tag ← word uint32 8
  return (protocol, type, tag)

/-- A call of the callback for a frame that has arrived, and has a whole header. -/
structure Proper (d : Delivery) : Prop where
  length : 16 ≤ d.header.length.toNat
  size : d.size = d.header.length.toNat - 16
  received : ∃ p, FrameAt cut stream p ∧ Arrives cut stream p ∧
    lengthAt stream p = d.header.length.toNat ∧
    Within (d.header.length.toNat - 4) readHeader (bodyAt stream p) ∧
    (readHeader (bodyAt stream p)).value = some (d.header.protocol, d.header.type, d.header.tag)

def Rejects (r : List Delivery × LoopEnd) : Prop :=
  r.2 ≠ .crashed ∧ ∀ d ∈ r.1, Proper cut stream d

end

section
variable {cut : Cutting} {stream : Bytes} {p : ℕ}

theorem lengthAt_lt : lengthAt stream p < 2 ^ 32 := UInt32.toNat_lt _

theorem Arrives.bodyAt_length (h : Arrives cut stream p) :
    (bodyAt stream p).length = lengthAt stream p - 4 := by
  have hfour := h.four
  have hcomplete := h.complete
  rw [bodyAt, List.length_take, List.length_drop]
  omega

theorem readHeader_value {body : Bytes} (h : 12 ≤ body.length) :
    (readHeader body).value = some (uint32.ofBytes (body.take 4),
      uint32.ofBytes ((body.drop 4).take 4), uint32.ofBytes ((body.drop 8).take 4)) := by
  simp only [readHeader, bind_value, pure_value]
  rw [word_value _ _ _ (by rw [uint32_width]; omega), Option.bind_some,
    word_value _ _ _ (by rw [uint32_width]; omega), Option.bind_some,
    word_value _ _ _ (by rw [uint32_width]; omega), Option.bind_some, List.drop_zero, uint32_width]

theorem within_readHeader {n : ℕ} {mem : Bytes} (h : 12 ≤ n) : Within n readHeader mem := by
  simp only [readHeader, within_bind, within_word, uint32_width, within_pure, implies_true,
    and_true]
  exact ⟨by omega, fun _ _ => ⟨by omega, fun _ _ => by omega⟩⟩

theorem loadHeader_store (n : ℕ) (cells : Cells) {body : Bytes} (h : 12 ≤ body.length) :
    (readHeader body).value = some ((loadHeader n (cells.store 0 body)).protocol,
      (loadHeader n (cells.store 0 body)).type, (loadHeader n (cells.store 0 body)).tag) := by
  have hprotocol := byteArrayToUInt32_store cells body (k := 0) (by omega)
  have htype := byteArrayToUInt32_store cells body (k := 4) (by omega)
  have htag := byteArrayToUInt32_store cells body (k := 8) (by omega)
  simp only [Nat.cast_zero, Nat.cast_ofNat, List.drop_zero] at hprotocol htype htag
  rw [readHeader_value h, loadHeader, hprotocol, htype, htag]

theorem recieveMessageSize_small {fuel want size q : ℕ} {buffer buffer' : Block} {data : ℤ}
    (hwant : want ≤ 3)
    (h : recieveMessageSize (cut.socket stream) fuel p buffer data want = some (size, buffer', q)) :
    size = 0 := by
  induction fuel generalizing p want buffer data with
  | zero => contradiction
  | succ fuel ih =>
    have hle := cut.le p want
    obtain ⟨k, hk⟩ : ∃ k, ((stream.drop p).take (cut.size p want)).length = k := ⟨_, rfl⟩
    have hk' : k ≤ cut.size p want := hk ▸ List.length_take_le _ _
    simp only [recieveMessageSize, recv_eq, RecvResult.size, RecvResult.bytes, hk] at h
    by_cases hend : k = 0
    · rw [if_pos hend, Option.some.injEq, Prod.mk.injEq] at h
      rw [← h.1, hend]
    · have hfour : k ≠ 4 := by omega
      rw [if_neg hend, if_pos hfour, sizeSub_of_le (by omega) (by omega)] at h
      exact ih (by omega) h

theorem recieveMessageSize_some {fuel size q : ℕ} {buffer buffer' : Block} (hsize : 4 ≤ size)
    (h : recieveMessageSize (cut.socket stream) fuel p buffer 0 4 = some (size, buffer', q)) :
    cut.size p 4 = 4 ∧ p + 4 ≤ stream.length ∧ size = lengthAt stream p ∧
      buffer' = buffer.store 0 ((stream.drop p).take 4) ∧ q = p + 4 := by
  cases fuel with
  | zero => contradiction
  | succ fuel =>
    have hle := cut.le p 4
    by_cases hwhole : cut.size p 4 = 4 ∧ p + 4 ≤ stream.length
    · rw [recieveMessageSize_whole cut stream fuel hwhole.2 hwhole.1] at h
      simp only [Option.some.injEq, Prod.mk.injEq] at h
      exact ⟨hwhole.1, hwhole.2, h.1.symm, h.2.1.symm, h.2.2.symm⟩
    · obtain ⟨k, hk⟩ : ∃ k, ((stream.drop p).take (cut.size p 4)).length = k := ⟨_, rfl⟩
      have hk' : k < 4 := by
        rw [← hk, List.length_take, List.length_drop]
        omega
      simp only [recieveMessageSize, recv_eq, RecvResult.size, RecvResult.bytes, hk] at h
      split_ifs at h with hend hfour
      · rw [Option.some.injEq, Prod.mk.injEq] at h
        omega
      · rw [sizeSub_of_le (by omega) (by omega)] at h
        have hzero := recieveMessageSize_small (by omega) h
        omega
      · omega

theorem listen_some {fuel n m q : ℕ} {block block' : Block} {data : ℤ} (hn : n < 2 ^ 32)
    (hp : p ≤ stream.length)
    (h : listen (cut.socket stream) fuel p block data n = some (m, block', q)) :
    m ≤ n ∧ (m = n → p + n ≤ stream.length ∧
      block' = block.store data ((stream.drop p).take n) ∧ q = p + n) := by
  induction fuel generalizing p n m q block block' data with
  | zero => contradiction
  | succ fuel ih =>
    have hle := cut.le p n
    obtain ⟨bs, hbs⟩ : ∃ bs, (stream.drop p).take (cut.size p n) = bs := ⟨_, rfl⟩
    have hlen : bs.length = min (cut.size p n) (stream.length - p) := by
      rw [← hbs, List.length_take, List.length_drop]
    have hpiece : (stream.drop p).take bs.length = bs := by
      rw [← hbs, List.take_eq_take_iff, hbs, hlen, List.length_drop]
      omega
    simp only [SocketClient.listen, recv_eq, RecvResult.size, RecvResult.bytes, hbs] at h
    split_ifs at h with hend hall
    · -- at the end of the stream
      simp only [Option.some.injEq, Prod.mk.injEq] at h
      obtain ⟨rfl, rfl, rfl⟩ := h
      refine ⟨by omega, fun hm => ⟨by omega, ?_, by omega⟩⟩
      rw [← hm, hpiece]
    · simp only [Option.some.injEq, Prod.mk.injEq] at h
      obtain ⟨rfl, rfl, rfl⟩ := h
      refine ⟨hall.le, fun _ => ⟨by omega, ?_, by omega⟩⟩
      rw [← hall, hpiece]
    · rw [sizeSub_of_le (by omega) (by omega), advance_of_lt (by omega)] at h
      split at h
      next => contradiction
      next more block₁ q₁ hrest =>
        obtain ⟨hmore, hcomplete⟩ := ih (by omega) (by omega) hrest
        simp only [Option.some.injEq, Prod.mk.injEq] at h
        obtain ⟨hm, rfl, rfl⟩ := h
        refine ⟨by omega, fun hmn => ?_⟩
        obtain ⟨hin, rfl, rfl⟩ := hcomplete (by omega)
        refine ⟨by omega, ?_, by omega⟩
        have hsplit : n = bs.length + (n - bs.length) := by omega
        have hjoin : (stream.drop p).take (bs.length + (n - bs.length)) =
            bs ++ (stream.drop (p + bs.length)).take (n - bs.length) := by
          rw [List.take_add, hpiece, List.drop_drop]
        rw [Block.store_store, ← hjoin, ← hsplit]

def delivery (stream : Bytes) (cells : Cells) (p : ℕ) : Delivery :=
  ⟨loadHeader (lengthAt stream p) (cells.store 0 (bodyAt stream p)),
    sizeSub (lengthAt stream p - 4) 12, cells.store 0 (bodyAt stream p)⟩

theorem delivery_length (cells : Cells) :
    (delivery stream cells p).header.length.toNat = lengthAt stream p :=
  UInt32.toNat_ofNat_of_lt' lengthAt_lt

theorem proper_iff (hp : FrameAt cut stream p) (ha : Arrives cut stream p) (cells : Cells) :
    Proper cut stream (delivery stream cells p) ↔ 16 ≤ lengthAt stream p := by
  constructor
  · intro h
    have hlength := h.length
    rwa [delivery_length] at hlength
  · intro h
    have hlt : lengthAt stream p < 2 ^ 32 := lengthAt_lt
    have hbody : 12 ≤ (bodyAt stream p).length := by
      rw [ha.bodyAt_length]
      omega
    refine ⟨?_, ?_, p, hp, ha, (delivery_length cells).symm, ?_, ?_⟩
    · rwa [delivery_length]
    · rw [delivery_length]
      change sizeSub (lengthAt stream p - 4) 12 = _
      rw [sizeSub_of_le (by omega) (by omega)]
      omega
    · rw [delivery_length]
      exact within_readHeader (by omega)
    · exact loadHeader_store _ cells hbody

theorem listen_arrived (ha : Arrives cut stream p) {fuel : ℕ} (hfuel : lengthAt stream p ≤ fuel)
    (block : Block) : listen (cut.socket stream) fuel (p + 4) block 0 (lengthAt stream p - 4) =
      some (lengthAt stream p - 4, block.store 0 (bodyAt stream p), p + lengthAt stream p) := by
  have hfour := ha.four
  have hcomplete := ha.complete
  have hnext : p + 4 + (lengthAt stream p - 4) = p + lengthAt stream p := by omega
  rcases Nat.eq_zero_or_pos (lengthAt stream p - 4) with hzero | hpos
  · obtain ⟨g, rfl⟩ : ∃ g, fuel = g + 1 := ⟨fuel - 1, by omega⟩
    have hsize : cut.size (p + 4) 0 = 0 := Nat.le_zero.mp (cut.le _ _)
    rw [hzero] at hnext
    simp [SocketClient.listen, recv_eq, hzero, hsize, RecvResult.size, RecvResult.bytes, bodyAt,
      ← hnext]
  · have hlt : lengthAt stream p < 2 ^ 32 := lengthAt_lt
    rw [listen_stream cut stream fuel _ (by omega) hpos (by omega) (p + 4) (by omega), hnext]
    rfl

theorem recieveMessageSize_arrived (ha : Arrives cut stream p) {fuel : ℕ}
    (hfuel : lengthAt stream p ≤ fuel) (buffer : Block) :
    recieveMessageSize (cut.socket stream) fuel p buffer 0 4 =
      some (lengthAt stream p, buffer.store 0 ((stream.drop p).take 4), p + 4) := by
  have hfour := ha.four
  have hcomplete := ha.complete
  obtain ⟨g, rfl⟩ : ∃ g, fuel = g + 1 := ⟨fuel - 1, by omega⟩
  exact recieveMessageSize_whole cut stream g (by omega) ha.whole buffer

theorem arrived_round (fresh : Cells) {b : Buffers} (hb : Sound b) {fuel : ℕ}
    (ha : Arrives cut stream p)
    (hsize : recieveMessageSize (cut.socket stream) fuel p b.buffer 0 4 =
      some (lengthAt stream p, b.buffer.store 0 ((stream.drop p).take 4), p + 4))
    {grown : Buffers} (hgrown : Buffers.reserve fresh
      { b with buffer := b.buffer.store 0 ((stream.drop p).take 4) } (lengthAt stream p - 4) = grown)
    (hbody : listen (cut.socket stream) fuel (p + 4) (grown.block fresh) 0
      (lengthAt stream p - 4) = some (lengthAt stream p - 4,
        (grown.block fresh).store 0 (bodyAt stream p), p + 4 + (lengthAt stream p - 4))) :
    (Arrives cut stream p ∧ lengthAt stream p = 4 ∧
      listenLoop (cut.socket stream) fresh (fuel + 1) p b = ([], .crashed)) ∨
    (Arrives cut stream p ∧ ∃ cells b', Sound b' ∧
      listenLoop (cut.socket stream) fresh (fuel + 1) p b =
        (delivery stream cells p ::
            (listenLoop (cut.socket stream) fresh fuel (p + lengthAt stream p) b').1,
          (listenLoop (cut.socket stream) fresh fuel (p + lengthAt stream p) b').2)) := by
  have hfour := ha.four
  have hnext : p + 4 + (lengthAt stream p - 4) = p + lengthAt stream p := by omega
  have hlength : lengthAt stream p - 4 = (bodyAt stream p).length := ha.bodyAt_length.symm
  have hwhole : lengthAt stream p = (bodyAt stream p).length + 4 := by omega
  have hlt : lengthAt stream p < 2 ^ 32 := lengthAt_lt
  rw [hnext, hlength] at hbody
  rw [hlength] at hgrown
  rw [hwhole] at hsize
  rcases listenLoop_frame fresh hb (List.length_take_le _ _) (by omega) hgrown hsize hbody with
    ⟨hnil, heq⟩ | ⟨cells, b', hb', heq⟩
  · rw [hnil, List.length_nil] at hwhole
    exact Or.inl ⟨ha, hwhole, heq⟩
  · refine Or.inr ⟨ha, cells, b', hb', ?_⟩
    rw [heq, delivery, hlength, hwhole]

/-- A round makes no callback, or it crashes on a body of no bytes without a buffer, or it
calls back for a frame that has arrived. -/
theorem listenLoop_round (cut : Cutting) (fresh : Cells) {b : Buffers} (hb : Sound b) (fuel : ℕ) :
    ((listenLoop (cut.socket stream) fresh (fuel + 1) p b).1 = [] ∧
      (listenLoop (cut.socket stream) fresh (fuel + 1) p b).2 ≠ .crashed ∧
      (Arrives cut stream p → fuel < lengthAt stream p)) ∨
    (Arrives cut stream p ∧ lengthAt stream p = 4 ∧
      listenLoop (cut.socket stream) fresh (fuel + 1) p b = ([], .crashed)) ∨
    (Arrives cut stream p ∧ ∃ cells b', Sound b' ∧
      listenLoop (cut.socket stream) fresh (fuel + 1) p b =
        (delivery stream cells p ::
            (listenLoop (cut.socket stream) fresh fuel (p + lengthAt stream p) b').1,
          (listenLoop (cut.socket stream) fresh fuel (p + lengthAt stream p) b').2)) := by
  have hread := hb.sized (List.length_take_le 4 (stream.drop p))
  cases hsize : recieveMessageSize (cut.socket stream) fuel p b.buffer 0 4 with
  | none =>
    simp only [listenLoop, hsize]
    refine Or.inl ⟨trivial, fun h => by contradiction, fun ha => ?_⟩
    by_contra hfuel
    rw [recieveMessageSize_arrived ha (Nat.le_of_not_lt hfuel)] at hsize
    contradiction
  | some r =>
    obtain ⟨size, buffer, q⟩ := r
    have harrived : Arrives cut stream p → ¬ fuel < lengthAt stream p →
        size = lengthAt stream p ∧ buffer.intact = true := by
      intro ha hfuel
      rw [recieveMessageSize_arrived ha (Nat.le_of_not_lt hfuel), Option.some.injEq,
        Prod.mk.injEq, Prod.mk.injEq] at hsize
      exact ⟨hsize.1.symm, hsize.2.1 ▸ hread.prefixIntact⟩
    by_cases hcut : buffer.intact = false
    · simp only [listenLoop, hsize, if_pos hcut]
      refine Or.inl ⟨trivial, fun h => by contradiction, fun ha => ?_⟩
      by_contra hfuel
      have hintact := (harrived ha hfuel).2
      rw [hcut] at hintact
      contradiction
    by_cases hfour : size < 4
    · simp only [listenLoop, hsize, if_neg hcut, if_pos hfour]
      refine Or.inl ⟨trivial, fun h => by contradiction, fun ha => ?_⟩
      by_contra hfuel
      have hlength := (harrived ha hfuel).1
      have hge := ha.four
      omega
    · obtain ⟨hwhole, hin, rfl, rfl, rfl⟩ := recieveMessageSize_some (by omega) hsize
      have hlt : lengthAt stream p < 2 ^ 32 := lengthAt_lt
      generalize hgrown : Buffers.reserve fresh
        { b with buffer := b.buffer.store 0 ((stream.drop p).take 4) }
          (lengthAt stream p - 4) = grown
      cases hbody : listen (cut.socket stream) fuel (p + 4) (grown.block fresh) 0
          (lengthAt stream p - 4) with
      | none =>
        simp only [listenLoop, hsize, if_neg hcut, if_neg hfour, hgrown, hbody]
        refine Or.inl ⟨trivial, fun h => by contradiction, fun ha => ?_⟩
        by_contra hfuel
        rw [listen_arrived ha (by omega)] at hbody
        contradiction
      | some r =>
        obtain ⟨received, block, q⟩ := r
        obtain ⟨-, hall⟩ := listen_some (by omega) (by omega) hbody
        by_cases hreceived : received = lengthAt stream p - 4
        · obtain ⟨hcomplete, rfl, rfl⟩ := hall hreceived
          have ha : Arrives cut stream p := ⟨hwhole, by omega, by omega⟩
          subst hreceived
          exact Or.inr (arrived_round fresh hb ha hsize hgrown hbody)
        · have hnot : Arrives cut stream p → fuel < lengthAt stream p := by
            intro ha
            by_contra hfuel
            rw [listen_arrived ha (by omega), Option.some.injEq, Prod.mk.injEq] at hbody
            exact hreceived hbody.1.symm
          simp only [listenLoop, hsize, if_neg hcut, if_neg hfour, hgrown, hbody, ne_eq, hreceived,
            not_false_eq_true, if_true]
          refine Or.inl ⟨?_, ?_, hnot⟩
          · split_ifs <;> rfl
          · split_ifs <;> exact fun h => by contradiction

theorem rejects_of_frames (fresh : Cells)
    (hlong : ∀ p, FrameAt cut stream p → Arrives cut stream p → 16 ≤ lengthAt stream p)
    (fuel : ℕ) {b : Buffers} (hb : Sound b) (hp : FrameAt cut stream p) :
    Rejects cut stream (listenLoop (cut.socket stream) fresh fuel p b) := by
  induction fuel generalizing p b with
  | zero => exact ⟨nofun, nofun⟩
  | succ fuel ih =>
    rcases listenLoop_round cut fresh hb fuel with
      ⟨hnone, hend, -⟩ | ⟨ha, hlength, -⟩ | ⟨ha, cells, b', hb', heq⟩
    · refine ⟨hend, ?_⟩
      rw [hnone]
      nofun
    · have h16 := hlong p hp ha
      omega
    · have hrest := ih hb' (hp.next ha)
      rw [heq]
      refine ⟨hrest.1, ?_⟩
      rw [List.forall_mem_cons]
      exact ⟨(proper_iff hp ha cells).mpr (hlong p hp ha), hrest.2⟩

theorem FrameAt.reached (fresh buffer : Cells) (h : FrameAt cut stream p)
    (hall : ∀ fuel, Rejects cut stream
      (listenLoop (cut.socket stream) fresh fuel 0 (Buffers.opened buffer))) (n : ℕ) :
    ∃ left ≥ n, ∃ fuel ds b, Sound b ∧
      listenLoop (cut.socket stream) fresh fuel 0 (Buffers.opened buffer) =
        (ds ++ (listenLoop (cut.socket stream) fresh left p b).1,
          (listenLoop (cut.socket stream) fresh left p b).2) := by
  induction h generalizing n with
  | first => exact ⟨n, le_rfl, n, [], Buffers.opened buffer, opened_sound buffer, rfl⟩
  | @next p hp ha ih =>
    obtain ⟨left, hleft, fuel, ds, b, hb, heq⟩ := ih (max n (lengthAt stream p) + 1)
    obtain ⟨g, rfl⟩ : ∃ g, left = g + 1 := ⟨left - 1, by omega⟩
    rcases listenLoop_round cut fresh hb g with
      ⟨-, -, hshort⟩ | ⟨-, -, hcrash⟩ | ⟨-, cells, b', hb', hround⟩
    · have hlt := hshort ha
      omega
    · rw [hcrash] at heq
      exact absurd (by rw [heq]) (hall fuel).1
    · rw [hround] at heq
      refine ⟨g, by omega, fuel, ds ++ [delivery stream cells p], b', hb', ?_⟩
      rw [heq, List.append_assoc]
      rfl

theorem long_of_rejects (fresh buffer : Cells)
    (hall : ∀ fuel, Rejects cut stream
      (listenLoop (cut.socket stream) fresh fuel 0 (Buffers.opened buffer)))
    (hp : FrameAt cut stream p) (ha : Arrives cut stream p) : 16 ≤ lengthAt stream p := by
  obtain ⟨left, hleft, fuel, ds, b, hb, heq⟩ :=
    hp.reached fresh buffer hall (lengthAt stream p + 1)
  obtain ⟨g, rfl⟩ : ∃ g, left = g + 1 := ⟨left - 1, by omega⟩
  rcases listenLoop_round cut fresh hb g with
    ⟨-, -, hshort⟩ | ⟨-, -, hcrash⟩ | ⟨-, cells, b', hb', hround⟩
  · have hlt := hshort ha
    omega
  · rw [hcrash] at heq
    exact absurd (by rw [heq]) (hall fuel).1
  · have hproper : Proper cut stream (delivery stream cells p) := by
      apply (hall fuel).2
      rw [heq, hround]
      simp
    exact (proper_iff hp ha cells).mp hproper

/-- Every callback is for a whole frame with a whole header exactly when no frame of four
to fifteen bytes arrives. -/
theorem rejects_iff (cut : Cutting) (stream : Bytes) (fresh buffer : Cells) :
    (∀ fuel, Rejects cut stream
      (listenLoop (cut.socket stream) fresh fuel 0 (Buffers.opened buffer))) ↔
    ∀ p, FrameAt cut stream p → Arrives cut stream p → 16 ≤ lengthAt stream p := by
  constructor
  · exact fun hall p hp ha => long_of_rejects fresh buffer hall hp ha
  · exact fun hlong fuel => rejects_of_frames fresh hlong fuel (opened_sound buffer) .first

def whole : Cutting where
  size _ n := n
  pos _ _ h := h
  le _ _ := Nat.le_refl _

theorem eight_bytes_reported :
    let stream : Bytes := [8, 0, 0, 0, 1, 0, 0, 0]
    let cells : Cells := fun _ => 0
    ¬ ∀ fuel, Rejects whole stream
      (listenLoop (whole.socket stream) cells fuel 0 (Buffers.opened cells)) := by
  intro stream cells hall
  have hlength : lengthAt stream 0 = 8 := by decide
  have harrives : Arrives whole stream 0 := ⟨rfl, by omega, by decide⟩
  have hlong := long_of_rejects cells cells hall .first harrives
  omega

end
end SwiftRobot.ShortFrames
