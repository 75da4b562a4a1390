import SwiftRobot.PacketHeaders

/-!
# The header of Connect and ConnectAck, written and read

A name that ends with its NUL, a count, and as many channels as it says. What is written
is read back, whatever lies behind it, and what is read is written again.
-/

namespace SwiftRobot.ConnectHeaders
open ByteWords Copying Reading PacketHeaders MessageConnectHeader

def layout (m : MessageConnectHeader) : Bytes :=
  m.clientid ++ 0 :: (uint16.bytes m.subscribers ++ uint16.flat m.channels)

/-- `serialize` writes exactly `getSize()` bytes, and they are read back as the header. -/
structure ReadBack (m : MessageConnectHeader) : Prop where
  covers : Covers m.serialize m.getSize
  value : ∀ buffer tail : Bytes, buffer.length = m.getSize →
    ((deserialize 0) (store m.serialize buffer ++ tail)).value = some m

/-- The header writes exactly the bytes of the payload that were read for it. -/
structure Reproduces (payload : Bytes) (m : MessageConnectHeader) : Prop where
  covers : Covers m.serialize m.getSize
  inside : m.getSize ≤ payload.length
  touched : ∀ i : ℕ, i < m.getSize ↔
    ∃ s ∈ ((deserialize 0) payload).spans, s.start ≤ i ∧ i < s.start + s.count
  bytes : ∀ buffer : Bytes, buffer.length = m.getSize →
    store m.serialize buffer = payload.take m.getSize

section
variable {m : MessageConnectHeader}

theorem layout_length : (layout m).length = m.getSize := by
  simp only [layout, getSize, List.length_append, List.length_cons, uint16_bytes_length,
    Word.flat_length, uint16_width]
  omega

theorem serialize_eq (hm : m.subscribers.toNat = m.channels.length) : m.serialize = consecutive 0
    [m.clientid ++ [0], uint16.bytes m.subscribers, uint16.flat m.channels] := by
  have hflat : (uint16.flat m.channels).take (m.subscribers.toNat * 2) =
      uint16.flat m.channels := by
    rw [hm]
    exact List.take_of_length_le (by simp)
  simp only [serialize, hflat, consecutive, List.length_append, List.length_singleton,
    uint16_bytes_length, Nat.zero_add]

theorem flatten_eq : [m.clientid ++ [0], uint16.bytes m.subscribers,
    uint16.flat m.channels].flatten = layout m := by
  simp [layout]

theorem covers_getSize (hm : m.subscribers.toNat = m.channels.length) :
    Covers m.serialize m.getSize := by
  rw [serialize_eq hm, ← layout_length, ← flatten_eq]
  exact consecutive_covers _

theorem store_eq (hm : m.subscribers.toNat = m.channels.length) {buffer : Bytes}
    (hbuffer : buffer.length = m.getSize) :
    store m.serialize buffer = layout m := by
  rw [serialize_eq hm, store_consecutive _ _ (by rw [hbuffer, ← layout_length, flatten_eq]),
    flatten_eq]

theorem readBack_of_length (hm : m.subscribers.toNat = m.channels.length)
    (hname : 0 ∉ m.clientid) : ReadBack m := by
  refine ⟨covers_getSize hm, fun buffer tail hbuffer => ?_⟩
  rw [store_eq hm hbuffer, layout, List.append_assoc, List.cons_append, List.append_assoc]
  exact deserialize_value tail hname hm.symm

theorem deserialize_some {payload : Bytes} (h : ((deserialize 0) payload).value = some m) :
    m.subscribers.toNat = m.channels.length ∧ m.getSize ≤ payload.length ∧
      payload.take m.getSize = layout m ∧
      ((deserialize 0) payload).spans = [⟨0, m.clientid.length + 1⟩,
        ⟨(m.clientid.length + 1 : ℕ), 2⟩,
        ⟨(m.clientid.length + 1 + 2 : ℕ), m.channels.length * 2⟩] := by
  have hvalue := h
  simp only [deserialize, bind_value, Option.bind_eq_some_iff, pure_value] at hvalue
  obtain ⟨text, htext, count, hcount, copied, hcopied, hm⟩ := hvalue
  obtain ⟨hend, htake, htextSpans⟩ := cstring_some htext
  obtain ⟨hin, hbits, hcountSpans⟩ := word_some hcount
  obtain ⟨hall, hchannels⟩ := bytes_some hcopied
  have hlen : copied.length = count.toNat * 2 := bytes_length hcopied
  rw [Option.some.injEq] at hm
  subst hm
  have hflat : uint16.flat (uint16.words count.toNat copied) = copied :=
    uint16.flat_words _ _ (by rw [hlen, uint16_width])
  have hgetSize : getSize ⟨text, count, uint16.words count.toNat copied⟩ =
      text.length + 1 + (2 + count.toNat * 2) := by
    rw [getSize, Word.words_length, Nat.add_assoc]
  rw [uint16_width, Nat.zero_add] at hin hbits
  rw [Nat.zero_add] at hchannels hall hend
  refine ⟨(uint16.words_length _ _).symm, ?_, ?_, ?_⟩
  · rw [hgetSize]
    omega
  · have hrest : (payload.drop (text.length + 1)).take (2 + count.toNat * 2) =
        uint16.bytes count ++ copied := by
      rw [List.take_add, List.drop_drop, hbits, hchannels]
    rw [List.drop_zero] at htake
    rw [hgetSize, List.take_add (i := text.length + 1), hrest, htake, layout, hflat,
      List.append_assoc, List.singleton_append]
  · rw [deserialize, bind_spans htext, bind_spans hcount, bind_spans hcopied, htextSpans,
      hcountSpans, Word.words_length, Nat.zero_add]
    rfl

theorem reproduces {payload : Bytes} (h : ((deserialize 0) payload).value = some m) :
    Reproduces payload m := by
  obtain ⟨hm, hinside, hlayout, hspans⟩ := deserialize_some h
  refine ⟨covers_getSize hm, hinside, fun i => ?_, fun buffer hbuffer => ?_⟩
  · rw [hspans, getSize]
    simp only [List.mem_cons, List.not_mem_nil, or_false, exists_eq_or_imp, exists_eq_left]
    omega
  · rw [store_eq hm hbuffer, hlayout]

/-- Both directions: a header whose count is the length of its list is read back, whatever
follows it, and every payload that can be read is written again. -/
theorem connectHeader_roundTrip :
    (∀ m : MessageConnectHeader, 0 ∉ m.clientid → m.channels.length ≤ 65535 →
      m.subscribers.toNat = m.channels.length → ReadBack m) ∧
    ∀ (payload : Bytes) (m : MessageConnectHeader),
      ((deserialize 0) payload).value = some m → Reproduces payload m :=
  ⟨fun _ hname _ hm => readBack_of_length hm hname, fun _ _ h => reproduces h⟩

theorem connectHeader_roundTrip_cl :
    ReadBack ⟨[99, 108], 2, [0x00be, 0xffef]⟩ ∧
    Reproduces [99, 108, 0, 2, 0, 0xbe, 0x00, 0xef, 0xff] ⟨[99, 108], 2, [0x00be, 0xffef]⟩ :=
  ⟨connectHeader_roundTrip.1 _ (by decide) (by decide) (by decide),
    connectHeader_roundTrip.2 _ _ rfl⟩

end
end SwiftRobot.ConnectHeaders
