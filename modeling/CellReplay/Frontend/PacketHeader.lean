import CellReplay.Frontend.LinkQueue
import CellReplay.Lib.BigEndian

set_option autoImplicit false

namespace CellReplay

open FueledLoop BigEndian

/-- The bytes of a packet at an offset. The source reads them through a pointer, so that reading
past the end is undefined behaviour. -/
def readBytes (contents : Bytes) (offset count : Nat) : Except Fault Bytes :=
  if offset + count ≤ contents.length then .ok (slice contents offset (offset + count))
  else .error .outOfRange

/-- `pkt + 4`: the IPv4 header is behind the four bytes of the tun device. -/
def iphdrOffset : Nat := 4

/-- `sizeof(struct iphdr)`. -/
def sizeofIphdr : Nat := 20

/-- `inet_ntop`: four bytes in dotted decimal notation. -/
def inetNtop (address : Bytes) : Text :=
  ['.'].intercalate (address.map (fun byte => Nat.toDigits 10 byte.toNat))

/-- `h->ihl`: the lower half of the first byte. -/
def ihl (contents : Bytes) : Except Fault Nat := do
  return fromBytes (← readBytes contents iphdrOffset 1) % 16

/-- The addresses and the ports behind them, those of the TCP or UDP header. -/
def withPorts (contents : Bytes) (protocol srcIp dstIp : Text) : Except Fault Text := do
  let transport := iphdrOffset + (← ihl contents) * 4
  let sPort := fromBytes (← readBytes contents transport 2)
  let dPort := fromBytes (← readBytes contents (transport + 2) 2)
  return protocol ++ '\t' :: srcIp ++ ':' :: Nat.toDigits 10 sPort ++
    '\t' :: dstIp ++ ':' :: Nat.toDigits 10 dPort

/-- `get_pkt_header_info`. The protocols are `IPPROTO_ICMP`, `IPPROTO_TCP` and `IPPROTO_UDP`. -/
def getPktHeaderInfo (contents : Bytes) : Except Fault Text := do
  let srcIp := inetNtop (← readBytes contents (iphdrOffset + 12) 4)
  let dstIp := inetNtop (← readBytes contents (iphdrOffset + 16) 4)
  let protocol := fromBytes (← readBytes contents (iphdrOffset + 9) 1)
  if protocol = 1 then return "ICMP".toList ++ '\t' :: srcIp ++ '\t' :: dstIp
  else if protocol = 6 then withPorts contents "TCP".toList srcIp dstIp
  else if protocol = 17 then withPorts contents "UDP".toList srcIp dstIp
  else return "OTHER".toList ++ '\t' :: srcIp ++ '\t' :: dstIp

/-- The start of `read_packet`: two size checks, and the text for the packet log. -/
def readHeader (contents : Bytes) : Except Fault Text :=
  if contents.length < sizeofIphdr then .error (.runtimeError "Packet is too small!")
  else if packetSize < contents.length then
    .error (.runtimeError ("Packet size (" ++ toString contents.length ++
      ")  exceeds the maximum allowed (" ++ toString packetSize ++ ")"))
  else getPktHeaderInfo contents

/-- The value of one byte of a packet. -/
def byteAt (contents : Bytes) (offset : Nat) : Nat := fromBytes (slice contents offset (offset + 1))

/-- The packet holds what is read of it: both addresses and, for TCP and UDP, both ports. -/
structure HoldsHeader (contents : Bytes) : Prop where
  addresses : iphdrOffset + 20 ≤ contents.length
  ports : byteAt contents (iphdrOffset + 9) = 6 ∨ byteAt contents (iphdrOffset + 9) = 17 →
    iphdrOffset + byteAt contents iphdrOffset % 16 * 4 + 4 ≤ contents.length

theorem readBytes_inside {contents : Bytes} {offset count : Nat}
    (inside : offset + count ≤ contents.length) :
    readBytes contents offset count = .ok (slice contents offset (offset + count)) :=
  if_pos inside

theorem readBytes_outside {contents : Bytes} {offset count : Nat}
    (outside : contents.length < offset + count) :
    readBytes contents offset count = .error .outOfRange :=
  if_neg (by omega)

/-- The ports are read inside the packet exactly when the packet holds them. -/
theorem withPorts_inside_iff {contents : Bytes} (large : iphdrOffset + 20 ≤ contents.length)
    (protocol srcIp dstIp : Text) :
    withPorts contents protocol srcIp dstIp ≠ .error .outOfRange ↔
      iphdrOffset + byteAt contents iphdrOffset % 16 * 4 + 4 ≤ contents.length := by
  have first : ihl contents = .ok (byteAt contents iphdrOffset % 16) := by
    unfold ihl
    rw [readBytes_inside (by omega)]
    rfl
  unfold withPorts
  rw [first]
  simp only [bind, Except.bind]
  by_cases source : iphdrOffset + byteAt contents iphdrOffset % 16 * 4 + 2 ≤ contents.length
  · rw [readBytes_inside source]
    by_cases destination : iphdrOffset + byteAt contents iphdrOffset % 16 * 4 + 2 + 2 ≤
        contents.length
    · rw [readBytes_inside destination]
      simp [pure, Except.pure, destination]
    · rw [readBytes_outside (Nat.not_le.mp destination)]
      simp only [ne_eq, not_true_eq_false, false_iff]
      exact destination
  · rw [readBytes_outside (Nat.not_le.mp source)]
    simp only [ne_eq, not_true_eq_false, false_iff]
    omega

/-- What the decoding comes to once the packet holds the fixed part of the header. -/
theorem getPktHeaderInfo_eq {contents : Bytes} (large : iphdrOffset + 20 ≤ contents.length) :
    ∃ srcIp dstIp, getPktHeaderInfo contents =
      if byteAt contents (iphdrOffset + 9) = 1 then
        .ok ("ICMP".toList ++ '\t' :: srcIp ++ '\t' :: dstIp)
      else if byteAt contents (iphdrOffset + 9) = 6 then withPorts contents "TCP".toList srcIp dstIp
      else if byteAt contents (iphdrOffset + 9) = 17 then
        withPorts contents "UDP".toList srcIp dstIp
      else .ok ("OTHER".toList ++ '\t' :: srcIp ++ '\t' :: dstIp) := by
  have source := @readBytes_inside contents (iphdrOffset + 12) 4
    (show iphdrOffset + 12 + 4 ≤ contents.length by omega)
  have destination := @readBytes_inside contents (iphdrOffset + 16) 4
    (show iphdrOffset + 16 + 4 ≤ contents.length by omega)
  have protocol := @readBytes_inside contents (iphdrOffset + 9) 1
    (show iphdrOffset + 9 + 1 ≤ contents.length by omega)
  unfold getPktHeaderInfo
  rw [source, destination, protocol]
  exact ⟨_, _, rfl⟩

/-- Every byte that the decoding of a header reads is a byte of the packet exactly when the packet
holds both addresses and, for TCP and UDP, both ports. The size check allows for a header of 20
bytes at offset 0; it is at offset 4, and may be longer. -/
theorem readHeader_inside_iff {contents : Bytes} (large : sizeofIphdr ≤ contents.length)
    (small : contents.length ≤ packetSize) :
    readHeader contents ≠ .error .outOfRange ↔ HoldsHeader contents := by
  unfold readHeader
  rw [if_neg (by omega), if_neg (by omega)]
  by_cases addresses : iphdrOffset + 20 ≤ contents.length
  · obtain ⟨srcIp, dstIp, decoded⟩ := getPktHeaderInfo_eq addresses
    have ports := withPorts_inside_iff addresses
    rw [decoded]
    have holds : HoldsHeader contents ↔
        (byteAt contents (iphdrOffset + 9) = 6 ∨ byteAt contents (iphdrOffset + 9) = 17 →
          iphdrOffset + byteAt contents iphdrOffset % 16 * 4 + 4 ≤ contents.length) :=
      ⟨HoldsHeader.ports, HoldsHeader.mk addresses⟩
    rw [holds]
    by_cases icmp : byteAt contents (iphdrOffset + 9) = 1
    · simp [icmp]
    · by_cases tcp : byteAt contents (iphdrOffset + 9) = 6
      · rw [if_neg icmp, if_pos tcp, ports]
        simp [tcp]
      · by_cases udp : byteAt contents (iphdrOffset + 9) = 17
        · rw [if_neg icmp, if_neg tcp, if_pos udp, ports]
          simp [udp]
        · rw [if_neg icmp, if_neg tcp, if_neg udp]
          simp [tcp, udp]
  · have source : readBytes contents (iphdrOffset + 12) 4 =
        .ok (slice contents (iphdrOffset + 12) (iphdrOffset + 12 + 4)) := readBytes_inside large
    have destination : readBytes contents (iphdrOffset + 16) 4 = .error .outOfRange :=
      readBytes_outside (Nat.not_le.mp addresses)
    have failed : getPktHeaderInfo contents = .error .outOfRange := by
      unfold getPktHeaderInfo
      rw [source, destination]
      rfl
    rw [failed]
    simp only [ne_eq, not_true_eq_false, false_iff]
    exact fun holds => addresses holds.addresses

/-- 20 bytes pass the size checks, but the destination address is behind them. -/
theorem not_readHeader_inside :
    ((List.replicate 20 0 : Bytes).length = sizeofIphdr ∧ sizeofIphdr ≤ packetSize) ∧
      readHeader (List.replicate 20 0) = .error .outOfRange := by decide +kernel

/-- A TCP packet of 28 bytes whose header says that it is 20 bytes long. -/
theorem readHeader_inside_iff_shortTcp :
    readHeader ([0, 0, 0, 0, 69, 0, 0, 0, 0, 0, 0, 0, 0, 6] ++ List.replicate 14 1) ≠
      .error .outOfRange :=
  (readHeader_inside_iff (by decide) (by decide)).mpr ⟨by decide, by decide +kernel⟩

end CellReplay
