import SwiftRobot.ConcurrentSenders
import SwiftRobot.ConnectionRuns
import SwiftRobot.ShortFrames
import SwiftRobot.Support.CallLog

/-!
# The tags of the frames

A connection counts its calls, and gives each its number as the tag of the frame. The socket
client does not store it: the tag field of the header keeps the word that was on the stack.
-/

namespace SwiftRobot.FrameTags
open ByteWords SocketClient PacketHeaders Plist Connection ConnectionRuns FramingRoundTrip
open ShortFrames
open ConcurrentSenders (Frame)

def frames (stale : ℕ → UInt32) (calls : List Call) : List Frame :=
  calls.mapIdx fun k call => ⟨stale k, call⟩

def stream (fs : List Frame) : Bytes := fs.flatMap fun f => f.buffers.flatten

def tagIn (frame : Bytes) : UInt32 := uint32.ofBytes ((frame.drop 12).take 4)

/-- The tags count the frames from 1, modulo `2 ^ 32`: in what is written, and in what the
loop at the other end of a socket reports. A socket carries frames that follow each other,
and its other end gets them in pieces of any size. -/
structure Tagged (stale : ℕ → UInt32) (calls : List Call) : Prop where
  written : ∀ k f, (frames stale calls)[k]? = some f →
    tagIn f.buffers.flatten = UInt32.ofNat (k + 1)
  reported : ∀ before now after, frames stale calls = before ++ (now ++ after) →
    ∀ (cut : Cutting) (fresh buffer : Cells) (fuel i : ℕ) (d : Delivery),
      (listenLoop (cut.socket (stream now)) fresh fuel 0 (Buffers.opened buffer)).1[i]? = some d →
      d.header.tag = UInt32.ofNat (before.length + i + 1)

/-- The stack happens to hold the tag that the call is given. -/
def Remembered (stale : ℕ → UInt32) (calls : List Call) : Prop :=
  ∀ k call, calls[k]? = some call → stale k = tagOf call

section
variable {h : PacketHeader} {front back payload : Bytes}

theorem tagIn_bytes (h : PacketHeader) (payload : Bytes) : tagIn (h.bytes ++ payload) = h.tag := by
  have hsplit : h.bytes ++ payload = (uint32.bytes h.length ++ (uint32.bytes h.protocol ++
      uint32.bytes h.type)) ++ (uint32.bytes h.tag ++ payload) := by
    simp only [PacketHeader.bytes, List.append_assoc]
  rw [tagIn, hsplit, List.drop_left' (by simp), List.take_left' (uint32_bytes_length _),
    uint32.ofBytes_bytes]

theorem lengthAt_frame :
    lengthAt (front ++ (h.bytes ++ payload ++ back)) front.length = h.length.toNat := by
  rw [lengthAt, List.drop_left, PacketHeader.bytes, List.append_assoc, List.append_assoc,
    List.take_left' (uint32_bytes_length _), uint32.ofBytes_bytes]

theorem bodyAt_frame (hlength : h.length.toNat = 16 + payload.length) :
    bodyAt (front ++ (h.bytes ++ payload ++ back)) front.length = behindLength h payload := by
  rw [bodyAt, lengthAt_frame, hlength, ← List.drop_drop, List.drop_left, bytes_behindLength,
    List.append_assoc, List.drop_left' (uint32_bytes_length _), List.take_left']
  rw [behindLength_length]
  omega

theorem delivery_header (hlength : h.length.toNat = 16 + payload.length) (cells : Cells) :
    (delivery (front ++ (h.bytes ++ payload ++ back)) cells front.length).header = h := by
  rw [delivery, bodyAt_frame hlength, lengthAt_frame, loadHeader_behindLength, UInt32.ofNat_toNat]

end

theorem stream_cons (f : Frame) (fs : List Frame) : stream (f :: fs) = f.bytes ++ stream fs := by
  rw [stream, List.flatMap_cons, f.buffers_flatten]
  rfl

theorem listenLoop_headers (cut : Cutting) (fresh : Cells) (fs : List Frame)
    (hfit : ∀ f ∈ fs, f.bytes.length < 2 ^ 32) (fuel : ℕ) (front : Bytes) {b : Buffers}
    (hb : Sound b) :
    (listenLoop (cut.socket (front ++ stream fs)) fresh fuel front.length b).1.map
      Delivery.header <+: fs.map Frame.header := by
  induction fuel generalizing fs front b with
  | zero => exact List.nil_prefix
  | succ fuel ih =>
    rcases listenLoop_round cut fresh hb fuel with
      ⟨hnone, -⟩ | ⟨-, -, hcrash⟩ | ⟨ha, cells, b', hb', hround⟩
    · rw [hnone]
      exact List.nil_prefix
    · rw [hcrash]
      exact List.nil_prefix
    · cases fs with
      | nil =>
        -- no frame begins at the end of the stream
        have hfour := ha.four
        have hcomplete := ha.complete
        have hend : (front ++ stream []).length = front.length := by
          rw [stream, List.flatMap_nil, List.append_nil]
        omega
      | cons f fs =>
        have hlength : f.header.length.toNat = 16 + f.call.payload.length := by
          rw [f.header_length (hfit f List.mem_cons_self), f.bytes_length]
        have hnext : front.length + f.header.length.toNat = (front ++ f.bytes).length := by
          rw [List.length_append, f.bytes_length, hlength]
        have hstream : front ++ stream (f :: fs) = front ++ f.bytes ++ stream fs := by
          rw [stream_cons, List.append_assoc]
        have hframe : front ++ stream (f :: fs) =
            front ++ (f.header.bytes ++ f.call.payload ++ stream fs) := by
          rw [stream_cons, Frame.bytes]
        have hhere : lengthAt (front ++ stream (f :: fs)) front.length =
            f.header.length.toNat := by
          rw [hframe, lengthAt_frame]
        have hheader : (delivery (front ++ stream (f :: fs)) cells front.length).header =
            f.header := by
          rw [hframe, delivery_header hlength]
        rw [hround, List.map_cons, List.map_cons, hheader, hhere, hnext, List.cons_prefix_cons,
          hstream]
        exact ⟨rfl, ih fs (fun f' hf' => hfit f' (List.mem_cons_of_mem _ hf')) _ hb'⟩

section
variable {lib : Library} {c₀ c : Connection} {ops : List Op} {stale : ℕ → UInt32}

theorem Built.counted (h : Built c₀) : Counted c₀ := by
  cases h <;> exact ⟨fun i k hk => by contradiction, rfl⟩

theorem frames_getElem? (stale : ℕ → UInt32) (calls : List Call) (k : ℕ) :
    (frames stale calls)[k]? = calls[k]?.map fun call => ⟨stale k, call⟩ := by
  rw [frames, List.getElem?_mapIdx]

theorem frame_tag {calls : List Call} {k : ℕ} {f : Frame} (hf : (frames stale calls)[k]? = some f) :
    f.header.tag = stale k := by
  rw [frames_getElem?] at hf
  obtain ⟨call, -, rfl⟩ := Option.map_eq_some_iff.mp hf
  rfl

theorem reported_tag {calls : List Call} (hfit : ∀ call ∈ calls, 16 + call.payload.length < 2 ^ 32)
    {before now after : List Frame} (hframes : frames stale calls = before ++ (now ++ after))
    (cut : Cutting) (fresh buffer : Cells) {fuel i : ℕ} {d : Delivery}
    (hd : (listenLoop (cut.socket (stream now)) fresh fuel 0 (Buffers.opened buffer)).1[i]? =
      some d) :
    ∃ call, calls[before.length + i]? = some call ∧ d.header.tag = stale (before.length + i) := by
  have hnow : ∀ f ∈ now, f.bytes.length < 2 ^ 32 := by
    intro f hf
    have hmem : f ∈ frames stale calls := by
      rw [hframes]
      simp [hf]
    obtain ⟨k, hk⟩ := List.mem_iff_getElem?.mp hmem
    rw [frames_getElem?] at hk
    obtain ⟨call, hcall, rfl⟩ := Option.map_eq_some_iff.mp hk
    rw [Frame.bytes_length]
    exact hfit call (List.mem_of_getElem? hcall)
  have hheaders := listenLoop_headers cut fresh now hnow fuel [] (opened_sound buffer)
  have hheader : (now.map Frame.header)[i]? = some d.header := by
    apply CallLog.getElem?_of_prefix hheaders
    rw [List.getElem?_map]
    exact congrArg (Option.map Delivery.header) hd
  rw [List.getElem?_map] at hheader
  obtain ⟨f, hf, hfd⟩ := Option.map_eq_some_iff.mp hheader
  have hplace : (frames stale calls)[before.length + i]? = some f := by
    rw [hframes, List.getElem?_append_right (Nat.le_add_right _ _), Nat.add_sub_cancel_left]
    exact CallLog.getElem?_of_prefix (List.prefix_append now after) hf
  rw [← hfd, frame_tag hplace]
  rw [frames_getElem?] at hplace
  obtain ⟨call, hcall, -⟩ := Option.map_eq_some_iff.mp hplace
  exact ⟨call, hcall, rfl⟩

theorem remembered_of_tagged (hcounted : Counted c) (h : Tagged stale c.client.calls) :
    Remembered stale c.client.calls := by
  intro k call hcall
  have hf : (frames stale c.client.calls)[k]? = some ⟨stale k, call⟩ := by
    rw [frames_getElem?, hcall]
    rfl
  have hwritten := h.written k _ hf
  rw [Frame.buffers_flatten, Frame.bytes, tagIn_bytes] at hwritten
  rw [hcounted.calls k call hcall]
  exact hwritten

theorem tagged_of_remembered (hcounted : Counted c) (h : Remembered stale c.client.calls)
    (hfit : ∀ call ∈ c.client.calls, 16 + call.payload.length < 2 ^ 32) :
    Tagged stale c.client.calls := by
  constructor
  · intro k f hf
    rw [Frame.buffers_flatten, Frame.bytes, tagIn_bytes, frame_tag hf]
    rw [frames_getElem?] at hf
    obtain ⟨call, hcall, -⟩ := Option.map_eq_some_iff.mp hf
    rw [h k call hcall, hcounted.calls k call hcall]
  · intro before now after hframes cut fresh buffer fuel i d hd
    obtain ⟨call, hcall, htag⟩ := reported_tag hfit hframes cut fresh buffer hd
    rw [htag, h _ call hcall, hcounted.calls _ call hcall]

/-- The frames are tagged only when the stack holds the tags already, and then they are
unless a frame is so long that the length in its header does not count all of it. -/
theorem frames_tagged (h : Built c₀) (run : Run (Step lib) c₀ ops c) :
    ((∀ stale, Tagged stale c.client.calls) ↔ c.client.calls = []) ∧
    ∀ stale, (Tagged stale c.client.calls → Remembered stale c.client.calls) ∧
      (Remembered stale c.client.calls →
        (∀ call ∈ c.client.calls, 16 + call.payload.length < 2 ^ 32) →
        Tagged stale c.client.calls) := by
  have hcounted := counted_run (Built.counted h) run
  refine ⟨⟨?_, ?_⟩, fun stale =>
    ⟨remembered_of_tagged hcounted, tagged_of_remembered hcounted⟩⟩
  · intro hall
    cases hcalls : c.client.calls with
    | nil => rfl
    | cons call calls =>
      have hfirst : c.client.calls[0]? = some call := by rw [hcalls]; rfl
      have hzero := remembered_of_tagged hcounted (hall fun _ => 0) 0 call hfirst
      rw [hcounted.calls 0 call hfirst] at hzero
      contradiction
  · intro hcalls stale
    apply tagged_of_remembered hcounted
    · intro k call hcall
      rw [hcalls] at hcall
      contradiction
    · intro call hcall
      rw [hcalls] at hcall
      exact absurd hcall List.not_mem_nil

end

def address : Connection := ofAddress ⟨0, 0, 0, 0, [], []⟩ (text "car") (text "10.0.0.1") 10221

def twoMessages : List Op :=
  [.startConnection true, .send .connect [99, 0], .send2 .message [1, 0] [7]]

theorem frames_tagged_address :
    ∃ c, Run (Step emptyPlists) address twoMessages c ∧ c.client.calls.length = 2 ∧
      ((∀ stale, Tagged stale c.client.calls) ↔ c.client.calls = []) ∧
      ∀ stale, (Tagged stale c.client.calls → Remembered stale c.client.calls) ∧
        (Remembered stale c.client.calls →
          (∀ call ∈ c.client.calls, 16 + call.payload.length < 2 ^ 32) →
          Tagged stale c.client.calls) := by
  have run : Run (Step emptyPlists) address twoMessages _ :=
    ((Run.single rfl).snoc rfl).snoc rfl
  exact ⟨_, run, rfl, frames_tagged (.address _ _ _ _) run⟩

/-- On a stack of zeros the first frame has no tag of its own. -/
theorem zero_tagged :
    ∃ c, Run (Step emptyPlists) address twoMessages c ∧
      ¬ Tagged (fun _ => 0) c.client.calls := by
  have run : Run (Step emptyPlists) address twoMessages _ :=
    ((Run.single rfl).snoc rfl).snoc rfl
  refine ⟨_, run, fun h => ?_⟩
  have hwritten := h.written 0 _ rfl
  revert hwritten
  decide +kernel

end SwiftRobot.FrameTags
