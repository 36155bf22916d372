import CellReplay.Record.ClientMessages

set_option autoImplicit false

namespace CellReplay

open BigEndian

/-- A `DatagramPacket` that was received: its buffer, and how much of it is filled. -/
structure DatagramPacket where
  buffer : Bytes
  length : Nat
  deriving DecidableEq, Repr

namespace DatagramPacket

/-- The buffers of the clients are of 1400 bytes. -/
def maxSize : Nat := 1400

/-- `socket.receive`, which cuts off what the buffer does not hold. -/
def receive (datagram : Bytes) : DatagramPacket :=
  ⟨RandomBytes.copyOfRange datagram maxSize, min datagram.length maxSize⟩

end DatagramPacket

/-- `LongBuffer.get`. -/
def getLong (stream : Bytes) (i : Nat) : Int64 :=
  (UInt64.ofNat (fromBytes (slice stream (8 * i) (8 * (i + 1))))).toInt64

/-- What `recvPacket` of a client makes of a datagram: the throughput that the server measured, with
the bits of the double, a payload, or another packet. -/
inductive ClientReceived (P : Type) where
  | info (senderId logTime : Int64) (throughput : Nat)
  | payload (p : P)
  | other (length : Nat)
  deriving DecidableEq, Repr

namespace ThroughputInfoPacket

def length : Nat := 8 * 2 + 8

def ofStream {P : Type} (stream : Bytes) : ClientReceived P :=
  .info (getLong (RandomBytes.copyOfRange stream (length - 8)) 0)
    (getLong (RandomBytes.copyOfRange stream (length - 8)) 1)
    (fromBytes (slice stream (length - 8) length))

end ThroughputInfoPacket

/-- `recvPacket` of a client that takes packets of one length for payloads. -/
def recvPacket {P : Type} (payloadLength : Int) (ofStream : Bytes → Nat → P) (datagram : Bytes) :
    ClientReceived P :=
  let p := DatagramPacket.receive datagram
  if p.length = ThroughputInfoPacket.length then ThroughputInfoPacket.ofStream p.buffer
  else if p.length = payloadLength then .payload (ofStream p.buffer p.length)
  else .other p.length

section
variable {longs : List Int64} {rest : Bytes}

/-- A `long` is read back where it was written. -/
theorem getLong_record {i : Nat} (inside : i < longs.length) :
    getLong (record 8 (longs.map word) ++ rest) i = longs[i] := by
  have inside' : i < (longs.map word).length := by
    rw [List.length_map]
    exact inside
  have same : (longs.map word)[i] = word longs[i] := List.getElem_map _
  have fits : (longs.map word)[i] < 256 ^ 8 := by
    rw [same]
    exact word_lt _
  unfold getLong
  rw [fromBytes_slice_record inside' rest fits, same]
  unfold word
  simp

/-- A copy of the front of an array holds all of a record that fits. -/
theorem copyOfRange_record (rest : Bytes) {size : Nat} (fits : 8 * longs.length ≤ size) :
    ∃ rest', RandomBytes.copyOfRange (record 8 (longs.map word) ++ rest) size =
      record 8 (longs.map word) ++ rest' := by
  have front : (record 8 (longs.map word)).length = 8 * longs.length := by
    rw [record_length, List.length_map]
  unfold RandomBytes.copyOfRange
  rw [List.take_append, List.take_of_length_le (by omega), List.append_assoc]
  exact ⟨_, rfl⟩

theorem getLong_copyOfRange {size i : Nat} (inside : i < longs.length)
    (fits : 8 * longs.length ≤ size) :
    getLong (RandomBytes.copyOfRange (record 8 (longs.map word) ++ rest) size) i = longs[i] := by
  obtain ⟨rest', copied⟩ := copyOfRange_record rest fits
  rw [copied]
  exact getLong_record inside

/-- A datagram of the length of a payload is taken for one, unless it is as long as an info
packet, and its record is whole. -/
theorem recvPacket_payload {P : Type} {ofStream : Bytes → Nat → P} {datagram : Bytes}
    (shape : datagram = record 8 (longs.map word) ++ rest)
    (fits : datagram.length ≤ DatagramPacket.maxSize)
    (other : datagram.length ≠ ThroughputInfoPacket.length) :
    ∃ rest', recvPacket datagram.length ofStream datagram =
      .payload (ofStream (record 8 (longs.map word) ++ rest') datagram.length) := by
  have length : (DatagramPacket.receive datagram).length = datagram.length := Nat.min_eq_left fits
  have front : 8 * longs.length ≤ DatagramPacket.maxSize := by
    have parts := congrArg List.length shape
    rw [List.length_append, record_length, List.length_map] at parts
    omega
  obtain ⟨rest', copied⟩ := copyOfRange_record rest front
  have buffer : (DatagramPacket.receive datagram).buffer = record 8 (longs.map word) ++ rest' := by
    rw [← copied, ← shape]
    rfl
  refine ⟨rest', ?_⟩
  unfold recvPacket
  dsimp only
  rw [length, if_neg other, if_pos rfl, buffer]

end

end CellReplay
