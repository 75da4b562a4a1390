import SwiftRobot.Support.ByteWords

/-!
# The socket client: writing and reading frames

Sending yields the buffers given to `::send`, one per system call. Receiving runs
on any socket: `recv` answers with an error, or with the bytes it places, none at
the end of the stream. Its signed answer is stored in a `size_t` by the source, so
sizes are natural numbers below `2^64` and pointers move modulo `2^64`. What is stored
outside of a buffer overwrites the client, or the heap: the loop has no meaning from
there on. The loops take fuel, one unit for each call of `recv` and each frame.
-/

namespace SwiftRobot.SocketClient
open ByteWords

structure PacketHeader where
  length : UInt32
  protocol : UInt32
  type : UInt32
  tag : UInt32
  deriving DecidableEq, Repr

def PacketHeader.bytes (h : PacketHeader) : Bytes :=
  uint32.bytes h.length ++ (uint32.bytes h.protocol ++ (uint32.bytes h.type ++ uint32.bytes h.tag))

@[simp] theorem PacketHeader.bytes_length (h : PacketHeader) : h.bytes.length = 16 := by
  simp [PacketHeader.bytes]

/-- The tag argument is not stored: the header field keeps the `stale` word that
was on the stack. -/
def send (stale protocol type _tag : UInt32) (data : Bytes) : List Bytes :=
  let header : PacketHeader := ⟨UInt32.ofNat (16 + data.length), protocol, type, stale⟩
  header.bytes :: if 0 < data.length then [data] else []

def send2 (stale protocol type _tag : UInt32) (data1 data2 : Bytes) : List Bytes :=
  let header : PacketHeader :=
    ⟨UInt32.ofNat (16 + data1.length + data2.length), protocol, type, stale⟩
  header.bytes :: ((if 0 < data1.length then [data1] else []) ++
    if 0 < data2.length then [data2] else [])

def usbMuxPacketProtocolPlist : UInt32 := 1
def usbMuxPacketTypePlistPayload : UInt32 := 8

def sendPlist (stale tag : UInt32) (plist : Bytes) : List Bytes :=
  send stale usbMuxPacketProtocolPlist usbMuxPacketTypePlistPayload tag plist

inductive RecvResult
  | error
  | data (bs : Bytes)

/-- The answer of `recv` as the `size_t` it is stored in. -/
def RecvResult.size : RecvResult → ℕ
  | .error => 2 ^ 64 - 1
  | .data bs => bs.length

def RecvResult.bytes : RecvResult → Bytes
  | .error => []
  | .data bs => bs

structure Socket (σ : Type) where
  recv : σ → ℕ → RecvResult × σ

abbrev Cells := ℤ → UInt8

def Cells.store (cells : Cells) (start : ℤ) (bs : Bytes) : Cells := fun i =>
  if start ≤ i ∧ i < start + bs.length then bs.getD (i - start).toNat 0 else cells i

/-- A buffer; it stays `intact` until something is stored outside of it. -/
structure Block where
  size : ℕ
  cells : Cells
  intact : Bool

def Block.Inside (block : Block) (start : ℤ) (bs : Bytes) : Prop :=
  bs = [] ∨ 0 ≤ start ∧ start + bs.length ≤ block.size

instance (block : Block) (start : ℤ) (bs : Bytes) : Decidable (block.Inside start bs) :=
  inferInstanceAs (Decidable (_ ∨ _))

def Block.store (block : Block) (start : ℤ) (bs : Bytes) : Block where
  size := block.size
  cells := block.cells.store start bs
  intact := block.intact && decide (block.Inside start bs)

def advance (data : ℤ) (n : ℕ) : ℤ := if n < 2 ^ 63 then data + n else data + n - 2 ^ 64

def sizeSub (a b : ℕ) : ℕ := (a + (2 ^ 64 - b)) % 2 ^ 64

def byteArrayToUInt32 (cells : Cells) (data : ℤ) : UInt32 :=
  uint32.ofBytes [cells data, cells (data + 1), cells (data + 2), cells (data + 3)]

section
variable {σ : Type} (socket : Socket σ)

/-- The recursion asks for `4 - receivedSize` bytes, whatever it had asked for, and
returns only on an answer of four bytes or none. -/
def recieveMessageSize : ℕ → σ → Block → ℤ → ℕ → Option (ℕ × Block × σ)
  | 0, _, _, _, _ => none
  | fuel + 1, s, buffer, data, sizeToRecieve =>
    let r := socket.recv s sizeToRecieve
    let receivedSize := r.1.size
    let buffer := buffer.store data r.1.bytes
    if receivedSize = 0 then some (receivedSize, buffer, r.2)
    else if receivedSize ≠ 4 then
      recieveMessageSize fuel r.2 buffer (advance data receivedSize) (sizeSub 4 receivedSize)
    else some ((byteArrayToUInt32 buffer.cells 0).toNat, buffer, r.2)

def listen : ℕ → σ → Block → ℤ → ℕ → Option (ℕ × Block × σ)
  | 0, _, _, _, _ => none
  | fuel + 1, s, block, data, size =>
    let r := socket.recv s size
    let receivedSize := r.1.size
    let block := block.store data r.1.bytes
    if receivedSize = 0 then some (receivedSize, block, r.2)
    else if receivedSize = size then some (receivedSize, block, r.2)
    else
      match listen fuel r.2 block (advance data receivedSize) (sizeSub size receivedSize) with
      | none => none
      | some (more, block, s) => some ((receivedSize + more) % 2 ^ 64, block, s)

/-- The receive buffers of a client; no block stands for the null pointer. -/
structure Buffers where
  buffer : Block
  data_buffer : Option Block
  data_buffer_capacity : UInt32

def Buffers.opened (buffer : Cells) : Buffers := ⟨⟨4, buffer, true⟩, none, 0⟩

/-- A larger frame replaces the block by a fresh one; `fresh` is its content. -/
def Buffers.reserve (fresh : Cells) (b : Buffers) (size : ℕ) : Buffers :=
  if b.data_buffer_capacity.toNat < size then
    { b with
      data_buffer := some ⟨size, fresh, true⟩
      data_buffer_capacity := UInt32.ofNat size }
  else b

def Buffers.block (fresh : Cells) (b : Buffers) : Block := b.data_buffer.getD ⟨0, fresh, true⟩

/-- One call of the callback: the header, the payload size it is given, and the
memory the payload pointer leads into, twelve bytes after the block's start. -/
structure Delivery where
  header : PacketHeader
  size : ℕ
  cells : Cells

def Delivery.payload (d : Delivery) : Bytes :=
  (List.range d.size).map fun i : ℕ => d.cells (12 + (i : ℤ))

inductive LoopEnd
  | running
  | exited
  | crashed
  | corrupted
  deriving DecidableEq, Repr

def loadHeader (data_size : ℕ) (cells : Cells) : PacketHeader :=
  ⟨UInt32.ofNat data_size, byteArrayToUInt32 cells 0, byteArrayToUInt32 cells 4,
    byteArrayToUInt32 cells 8⟩

def listenLoop (fresh : Cells) : ℕ → σ → Buffers → List Delivery × LoopEnd
  | 0, _, _ => ([], .running)
  | fuel + 1, s, b =>
    match recieveMessageSize socket fuel s b.buffer 0 4 with
    | none => ([], .running)
    | some (data_size, buffer, s) =>
      if buffer.intact = false then ([], .corrupted)
      else if data_size < 4 then ([], .exited)
      else
        let b := ({ b with buffer := buffer }).reserve fresh (data_size - 4)
        match listen socket fuel s (b.block fresh) 0 (data_size - 4) with
        | none => ([], .running)
        | some (received, block, s) =>
          if block.intact = false then ([], .corrupted)
          else if received ≠ data_size - 4 then ([], .exited)
          -- only an empty body leaves the pointer null, and its header is read all the same
          else if b.data_buffer.isNone then ([], .crashed)
          else
            let d : Delivery := ⟨loadHeader data_size block.cells, sizeSub received 12, block.cells⟩
            let rest := listenLoop fresh fuel s { b with data_buffer := some block }
            (d :: rest.1, rest.2)

end
end SwiftRobot.SocketClient
