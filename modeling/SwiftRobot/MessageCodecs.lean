import SwiftRobot.Messages

/-!
# The codecs of the structured messages

Where `deserialize` of an `UpdateMsg` takes the status from behind the text, `serialize`
puts it at position one. Both are the same place only for the empty text.
-/

namespace SwiftRobot.MessageCodecs
open ByteWords Copying Reading Messages

def RoundTrip (m : UpdateMsg) : Prop :=
  Covers m.serialize m.getSize.toNat ∧
  ∀ buffer : Bytes, buffer.length = m.getSize.toNat →
    ∃ d, (UpdateMsg.deserialize 0 (store m.serialize buffer)).value = some d ∧ d.msg = m

theorem updateMsg_written (m : UpdateMsg) (i : ℕ) :
    (written m.serialize i).isSome ↔ i < m.clientID.length + 1 ∨ i = 1 := by
  have htext : ((⟨0, m.clientID ++ [0]⟩ : Copy).at? i).isSome ↔ i < m.clientID.length + 1 := by
    simp [Copy.at?]
  have hstatus : ((⟨1, [m.status.code]⟩ : Copy).at? i).isSome ↔ i = 1 := by
    by_cases hi : 1 ≤ i
    · simp only [Copy.at?, if_pos hi, isSome_getElem?, List.length_singleton]
      omega
    · simp only [Copy.at?, if_neg hi, Option.isSome_none, Bool.false_eq_true, false_iff]
      omega
  simp only [UpdateMsg.serialize, written, Option.isSome_or, Bool.or_eq_true, Option.isSome_none,
    Bool.false_eq_true, false_or, htext, hstatus]
  exact or_comm

theorem not_covers_of_text (m : UpdateMsg) (h : m.clientID ≠ []) :
    ¬ Covers m.serialize m.getSize.toNat := by
  intro hcovers
  have hpos : 0 < m.clientID.length := List.length_pos_iff.mpr h
  have hsize : m.getSize.toNat = (m.clientID.length + 1 + 1) % 2 ^ 32 := UInt32.toNat_ofNat'
  have hin := (hcovers m.clientID.length).mp
    ((updateMsg_written m _).mpr (Or.inl (Nat.lt_succ_self _)))
  have hout : ¬ m.clientID.length + 1 < m.getSize.toNat := by
    intro hlt
    have hwritten := (updateMsg_written m _).mp ((hcovers _).mpr hlt)
    omega
  omega

theorem updateMsg_roundTrip_iff (m : UpdateMsg) : RoundTrip m ↔ m.clientID = [] := by
  constructor
  · intro hround
    by_contra htext
    exact not_covers_of_text m htext hround.1
  · intro htext
    obtain ⟨clientID, status⟩ := m
    subst htext
    have hserialize : UpdateMsg.serialize ⟨[], status⟩ = consecutive 0 [[0], [status.code]] := rfl
    refine ⟨?_, fun buffer hbuffer => ?_⟩
    · rw [hserialize]
      exact consecutive_covers _
    · rw [hserialize, store_consecutive _ _ hbuffer]
      exact ⟨⟨⟨[], status⟩, 0⟩, by cases status <;> rfl, rfl⟩

theorem updateMsg_loses_status : ¬ RoundTrip ⟨[65], .attached⟩ :=
  fun h => not_covers_of_text _ (by decide) h.1

end SwiftRobot.MessageCodecs
