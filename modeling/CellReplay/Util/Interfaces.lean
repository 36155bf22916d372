import CellReplay.Frontend.PacketHeader
import CellReplay.Frontend.TraceLines
import CellReplay.Lib.HexText

set_option autoImplicit false

namespace CellReplay

open BigEndian FueledLoop MachineWord

/-- The prefix that `strtol` skips in front of digits in base 16. -/
def skipHexPrefix : Text → Text
  | '0' :: x :: c :: rest =>
      if (x == 'x' || x == 'X') && HexText.isHexDigit c then c :: rest else '0' :: x :: c :: rest
  | text => text

/-- `strtol` in base 16: the value, which is `none` out of the range of `long`, and the characters
left. Without a digit nothing is consumed. -/
def strtolHex (str : Text) : Option Int × Text :=
  let (negative, rest) := splitSign (str.dropWhile isSpace)
  let text := skipHexPrefix rest
  let digits := text.takeWhile HexText.isHexDigit
  if digits.isEmpty then (some 0, str)
  else
    let magnitude : Int := HexText.read digits
    (toLong (if negative then -magnitude else magnitude), text.dropWhile HexText.isHexDigit)

/-- `myatoi` in base 16. -/
def myatoiHex (str : Text) : Except Fault Int :=
  if str.isEmpty then .error (.runtimeError "Invalid integer string: empty")
  else
    match strtolHex str with
    | (none, _) => .error (.runtimeError "strtol")
    | (some value, left) =>
        if left.isEmpty then .ok value
        else .error (.runtimeError ("Invalid integer: " ++ String.ofList str))

/-- An IPv4 address with its port: the word `s_addr` of a little-endian host, whose lowest byte is
the first one of the address. -/
@[ext] structure SockaddrIn where
  sAddr : Nat
  port : Nat
  word : sAddr < 2 ^ 32

namespace SockaddrIn

instance : DecidableEq SockaddrIn :=
  fun _ _ => decidable_of_iff _ SockaddrIn.ext_iff.symm

/-- `Address::ip`. -/
def ip (addr : SockaddrIn) : Text := inetNtop (toBytes 4 addr.sAddr).reverse

/-- `Address::cgnat`, whose argument is a byte: 100.64.0.x. -/
def cgnat (lastOctet : Nat) : SockaddrIn where
  sAddr := 100 + 2 ^ 8 * 64 + 2 ^ 24 * (lastOctet % 2 ^ 8)
  port := 0
  word := by omega

end SockaddrIn

open SockaddrIn

/-- The addresses that are taken. -/
structure Interfaces where
  addressesInUse : List SockaddrIn

namespace Interfaces

/-- The destination in a line of `/proc/net/route`: what stands between its first two tabs. -/
def destination (line : Text) : Except Fault SockaddrIn :=
  match line.dropWhile (· != '\t') with
  | [] => .error (.runtimeError "/proc/net/route line: unknown format")
  | _ :: rest =>
      if '\t' ∉ rest then .error (.runtimeError "/proc/net/route line: unknown format")
      else
        let destAddress := rest.takeWhile (· != '\t')
        if destAddress.length ≠ 8 then
          .error (.runtimeError "/proc/net/route destination address: unknown format")
        else do return ⟨u32 (← myatoiHex destAddress), 0, toUnsigned_lt 32 _⟩

/-- The destinations of `/proc/net/route`. Without a route there is no header either. -/
def routes (allRoutes : Text) : Except Fault (List SockaddrIn) :=
  if allRoutes.isEmpty then .ok []
  else
    match getLines allRoutes with
    | [] => .error (.runtimeError "/proc/net/route: unknown format")
    | header :: lines =>
        if "Iface".toList.isPrefixOf header then lines.mapM destination
        else .error (.runtimeError "/proc/net/route: unknown format")

/-- The constructor, for the addresses that `getifaddrs` finds and the text of the routes. -/
def construct (found : List SockaddrIn) (allRoutes : Text) : Except Fault Interfaces := do
  return ⟨found ++ (← routes allRoutes)⟩

def addAddress (addr : SockaddrIn) (i : Interfaces) : Interfaces := ⟨i.addressesInUse ++ [addr]⟩

def addressInUse (i : Interfaces) (addr : SockaddrIn) : Bool :=
  i.addressesInUse.any (fun x => addr.ip == x.ip)

/-- The loop of `first_unassigned_address`, with the octets left to try. -/
def search (i : Interfaces) : Nat → Nat → Except Fault (SockaddrIn × Nat)
  | 0, _ => .error (.runtimeError "Interfaces: could not find free interface address")
  | left + 1, lastOctet =>
      if i.addressInUse (cgnat lastOctet) then i.search left (lastOctet + 1)
      else do
        check "candidate.port() == 0" ((cgnat lastOctet).port = 0)
        return (cgnat lastOctet, lastOctet)

def firstUnassignedAddress (i : Interfaces) (lastOctet : Nat) : Except Fault (SockaddrIn × Nat) :=
  i.search (256 - lastOctet) lastOctet

end Interfaces

open Interfaces

def twoUnassignedAddresses (found : List SockaddrIn) (allRoutes : Text) (avoid : SockaddrIn) :
    Except Fault (SockaddrIn × SockaddrIn) := do
  let interfaces := (← construct found allRoutes).addAddress avoid
  let one ← interfaces.firstUnassignedAddress 1
  let two ← interfaces.firstUnassignedAddress (one.2 + 1)
  return (one.1, two.1)

/-- The texts of two addresses are the same only if the bytes are. -/
theorem inetNtop_injective {a b : Bytes} (filled : a ≠ []) (filled' : b ≠ [])
    (same : inetNtop a = inetNtop b) : a = b := by
  have dots : ∀ bytes : Bytes, ∀ text ∈ bytes.map (fun byte => Nat.toDigits 10 byte.toNat),
      '.' ∉ text := by
    intro bytes text member inside
    obtain ⟨byte, _, rfl⟩ := List.mem_map.mp member
    have digit := Nat.isDigit_of_mem_toDigits (by decide) (by decide) inside
    revert digit
    decide
  have parts : a.map (fun byte => Nat.toDigits 10 byte.toNat) =
      b.map (fun byte => Nat.toDigits 10 byte.toNat) := by
    have left := List.splitOn_intercalate '.' (dots a) (by simpa using filled)
    have right := List.splitOn_intercalate '.' (dots b) (by simpa using filled')
    unfold inetNtop at same
    rw [← left, same, right]
  apply List.map_injective_iff.mpr ?_ parts
  intro x y digits
  have value := congrArg (fun text => Nat.ofDigitChars 10 text 0) digits
  simp only [Nat.ofDigitChars_ten_toDigits] at value
  exact UInt8.toNat_inj.mp value

theorem ip_eq_iff (a b : SockaddrIn) : a.ip = b.ip ↔ a.sAddr = b.sAddr := by
  constructor
  · intro same
    have filled : ∀ n, (toBytes 4 n).reverse ≠ [] := by
      intro n none
      have length := congrArg List.length none
      simp at length
    have bytes := inetNtop_injective (filled _) (filled _) same
    have value := congrArg fromBytes (List.reverse_injective bytes)
    rw [fromBytes_toBytes, fromBytes_toBytes] at value
    have left := a.word
    have right := b.word
    omega
  · intro same
    unfold ip
    rw [same]

/-- An address is in use if and only if one of those taken is the same but for the port. -/
theorem addressInUse_iff (i : Interfaces) (addr : SockaddrIn) :
    i.addressInUse addr = true ↔ ∃ x ∈ i.addressesInUse, addr.sAddr = x.sAddr := by
  simp [addressInUse, ip_eq_iff]

/-- The octet found is the first one, from where the search began, that is not in use. -/
theorem search_eq_ok {i : Interfaces} {left first : Nat} {addr : SockaddrIn} {octet : Nat} :
    i.search left first = .ok (addr, octet) ↔
      addr = cgnat octet ∧ first ≤ octet ∧ octet < first + left ∧
        i.addressInUse (cgnat octet) = false ∧
        ∀ k, first ≤ k → k < octet → i.addressInUse (cgnat k) = true := by
  induction left generalizing first with
  | zero =>
      simp only [search, reduceCtorEq, false_iff]
      omega
  | succ left ih =>
      unfold search
      by_cases taken : i.addressInUse (cgnat first) = true
      · rw [if_pos taken, ih]
        constructor
        · rintro ⟨same, after, before, free, skipped⟩
          refine ⟨same, by omega, by omega, free, ?_⟩
          intro k above below
          rcases Nat.eq_or_lt_of_le above with rfl | above
          · exact taken
          · exact skipped k above below
        · rintro ⟨same, after, before, free, skipped⟩
          have other : first ≠ octet := by
            rintro rfl
            rw [taken] at free
            cases free
          exact ⟨same, by omega, by omega, free, fun k above => skipped k (by omega)⟩
      · rw [if_neg taken]
        constructor
        · intro returned
          cases returned
          exact ⟨rfl, Nat.le_refl _, by omega, by simpa using taken, by omega⟩
        · rintro ⟨rfl, after, _, _, skipped⟩
          have here : octet = first := by
            by_contra other
            exact taken (skipped first (Nat.le_refl _) (by omega))
          rw [here]
          rfl

theorem search_returns {i : Interfaces} {left first octet : Nat} (after : first ≤ octet)
    (before : octet < first + left) (free : i.addressInUse (cgnat octet) = false) :
    ∃ addr found, i.search left first = .ok (addr, found) := by
  induction left generalizing first with
  | zero => omega
  | succ left ih =>
      unfold search
      by_cases taken : i.addressInUse (cgnat first) = true
      · have other : first ≠ octet := by
          rintro rfl
          rw [taken] at free
          cases free
        rw [if_pos taken]
        exact ih (by omega) (by omega)
      · rw [if_neg taken]
        exact ⟨_, _, rfl⟩

/-- The digits of a field are neither skipped nor signs, nor part of a prefix. -/
theorem plain_digit : ∀ d < 16, isSpace (HexText.digit d) = false ∧ HexText.digit d ≠ '-' ∧
    HexText.digit d ≠ '+' ∧ HexText.digit d ≠ 'x' ∧ HexText.digit d ≠ 'X' ∧
    HexText.digit d ≠ '\t' ∧ HexText.digit d ≠ '\n' ∧
    HexText.isHexDigit (HexText.digit d) = true := by decide

theorem skipHexPrefix_eq {text : Text} (plain : ∀ c ∈ text, c ≠ 'x' ∧ c ≠ 'X') :
    skipHexPrefix text = text := by
  unfold skipHexPrefix
  split
  · rename_i x c rest
    have second := plain x (by simp)
    simp [second]
  · rfl

/-- A field of eight hexadecimal digits is read to its end. -/
theorem myatoiHex_digits {n : Nat} (word : n < 2 ^ 32) :
    myatoiHex (HexText.digits 8 n) = .ok (n : Int) := by
  have all : ∀ c ∈ HexText.digits 8 n, isSpace c = false ∧ c ≠ '-' ∧ c ≠ '+' ∧ c ≠ 'x' ∧
      c ≠ 'X' ∧ HexText.isHexDigit c = true := by
    intro c member
    obtain ⟨d, small, rfl⟩ := HexText.mem_digits member
    have ⟨space, minus, plus, low, high, _, _, hex⟩ := plain_digit d small
    exact ⟨space, minus, plus, low, high, hex⟩
  obtain ⟨c, rest, shape⟩ : ∃ c rest, HexText.digits 8 n = c :: rest :=
    List.exists_cons_of_ne_nil (by simp [← List.length_eq_zero_iff])
  have first := all c (by simp [shape])
  have front : (HexText.digits 8 n).dropWhile isSpace = HexText.digits 8 n := by
    rw [shape, List.dropWhile_cons_of_neg (by simp [first.1])]
  have unsigned : splitSign (HexText.digits 8 n) = (false, HexText.digits 8 n) := by
    rw [shape]
    unfold splitSign
    split
    · rename_i same
      exact absurd (List.cons.inj same).1 first.2.1
    · rename_i same
      exact absurd (List.cons.inj same).1 first.2.2.1
    · rfl
  have whole := skipHexPrefix_eq fun c member =>
    ⟨(all c member).2.2.2.1, (all c member).2.2.2.2.1⟩
  have taken : (HexText.digits 8 n).takeWhile HexText.isHexDigit = HexText.digits 8 n :=
    List.takeWhile_eq_self_iff.mpr fun c member => (all c member).2.2.2.2.2
  have dropped : (HexText.digits 8 n).dropWhile HexText.isHexDigit = [] :=
    List.dropWhile_eq_nil_iff.mpr fun c member => (all c member).2.2.2.2.2
  have filled : (HexText.digits 8 n).isEmpty = false := by simp [shape]
  have value : HexText.read (HexText.digits 8 n) = n := by
    rw [HexText.read_digits]
    exact Nat.mod_eq_of_lt word
  have long : toLong (n : Int) = some (n : Int) := if_pos ⟨by omega, by omega⟩
  simp [myatoiHex, strtolHex, front, unsigned, whole, taken, dropped, filled, value, long]

/-- A line of `/proc/net/route`, as Linux writes it: the interface, the destination in eight
hexadecimal digits, and the other columns. -/
structure Route where
  iface : Text
  dest : SockaddrIn
  rest : Text
  noPort : dest.port = 0
  noTab : '\t' ∉ iface
  oneLine : '\n' ∉ iface ∧ '\n' ∉ rest

namespace Route

def line (r : Route) : Text :=
  r.iface ++ '\t' :: (HexText.digits 8 r.dest.sAddr ++ '\t' :: r.rest)

/-- What `/proc/net/route` holds: some routes below a header, or nothing at all. -/
def Table (allRoutes : Text) (rs : List Route) : Prop :=
  allRoutes = [] ∧ rs = [] ∨
    ∃ header, "Iface".toList <+: header ∧ '\n' ∉ header ∧
      allRoutes = ofLines (header :: rs.map line)

theorem line_destination (r : Route) : destination r.line = .ok r.dest := by
  have field : ∀ c ∈ HexText.digits 8 r.dest.sAddr, (c != '\t') = true := by
    intro c member
    obtain ⟨d, small, rfl⟩ := HexText.mem_digits member
    simp [(plain_digit d small).2.2.2.2.2.1]
  have start : ∀ c ∈ r.iface, (c != '\t') = true := by
    intro c member
    have other : c ≠ '\t' := fun same => r.noTab (same ▸ member)
    simp [other]
  have behind : r.line.dropWhile (· != '\t') =
      '\t' :: (HexText.digits 8 r.dest.sAddr ++ '\t' :: r.rest) := by
    unfold line
    rw [List.dropWhile_append_of_pos start]
    rfl
  have taken : (HexText.digits 8 r.dest.sAddr ++ '\t' :: r.rest).takeWhile (· != '\t') =
      HexText.digits 8 r.dest.sAddr := by
    rw [List.takeWhile_append_of_pos field]
    simp
  have word : u32 (r.dest.sAddr : Int) = r.dest.sAddr := toUnsigned_natCast 32 _ r.dest.word
  have same : (⟨u32 (r.dest.sAddr : Int), 0, toUnsigned_lt 32 _⟩ : SockaddrIn) = r.dest := by
    have port := r.noPort
    revert port word
    cases r.dest
    simp_all
  unfold destination
  rw [behind]
  simp only [List.mem_append, List.mem_cons, true_or, or_true, not_true_eq_false, ↓reduceIte, taken,
    HexText.digits_length, ne_eq, myatoiHex_digits r.dest.word]
  exact congrArg Except.ok same

theorem line_oneLine (r : Route) : '\n' ∉ r.line := by
  have digits : '\n' ∉ HexText.digits 8 r.dest.sAddr := by
    intro member
    obtain ⟨d, small, same⟩ := HexText.mem_digits member
    exact (plain_digit d small).2.2.2.2.2.2.1 same.symm
  simp [line, r.oneLine, digits]

theorem lines_destinations (rs : List Route) :
    (rs.map line).mapM destination = .ok (rs.map Route.dest) := by
  induction rs with
  | nil => rfl
  | cons r rs ih =>
      rw [List.map_cons, List.mapM_cons, r.line_destination, ih]
      rfl

/-- The destinations of a table are read back. -/
theorem routes_table {allRoutes : Text} {rs : List Route} (table : Table allRoutes rs) :
    routes allRoutes = .ok (rs.map Route.dest) := by
  rcases table with ⟨rfl, rfl⟩ | ⟨header, starts, oneLine, rfl⟩
  · rfl
  · have clean : ∀ text ∈ header :: rs.map line, '\n' ∉ text := by
      intro text member
      rcases List.mem_cons.mp member with rfl | member
      · exact oneLine
      · obtain ⟨r, _, rfl⟩ := List.mem_map.mp member
        exact r.line_oneLine
    have filled : (ofLines (header :: rs.map line)).isEmpty = false := by simp [ofLines]
    unfold routes
    rw [filled, getLines_ofLines clean]
    simp only [Bool.false_eq_true, ↓reduceIte, List.isPrefixOf_iff_prefix.mpr starts]
    exact lines_destinations rs

end Route

/-- An octet whose address is not taken. -/
structure Unassigned (taken : List SockaddrIn) (octet : Nat) : Prop where
  range : 1 ≤ octet ∧ octet ≤ 255
  free : ∀ x ∈ taken, (cgnat octet).sAddr ≠ x.sAddr

theorem unassigned_iff (i : Interfaces) (octet : Nat) :
    Unassigned i.addressesInUse octet ↔
      1 ≤ octet ∧ octet < 256 ∧ i.addressInUse (cgnat octet) = false := by
  rw [Bool.eq_false_iff, ne_eq, addressInUse_iff]
  constructor
  · rintro ⟨⟨low, high⟩, free⟩
    exact ⟨low, by omega, fun ⟨x, member, same⟩ => free x member same⟩
  · rintro ⟨low, high, free⟩
    exact ⟨⟨low, by omega⟩, fun x member same => free ⟨x, member, same⟩⟩

theorem firstUnassignedAddress_eq_ok {i : Interfaces} {first : Nat} {addr : SockaddrIn}
    {octet : Nat} (positive : 1 ≤ first) :
    i.firstUnassignedAddress first = .ok (addr, octet) ↔
      addr = cgnat octet ∧ first ≤ octet ∧ Unassigned i.addressesInUse octet ∧
        ∀ m, first ≤ m → Unassigned i.addressesInUse m → octet ≤ m := by
  unfold firstUnassignedAddress
  rw [search_eq_ok, unassigned_iff]
  constructor
  · rintro ⟨same, after, before, free, skipped⟩
    refine ⟨same, after, ⟨by omega, by omega, free⟩, ?_⟩
    intro m above unassigned
    by_contra below
    have inside := ((unassigned_iff i m).mp unassigned).2.2
    rw [skipped m above (by omega)] at inside
    cases inside
  · rintro ⟨same, after, ⟨_, high, free⟩, lowest⟩
    refine ⟨same, after, by omega, free, ?_⟩
    intro k above below
    by_contra taken
    have unassigned := (unassigned_iff i k).mpr ⟨by omega, by omega, by simpa using taken⟩
    have := lowest k above unassigned
    omega

theorem firstUnassignedAddress_returns {i : Interfaces} {first octet : Nat} (after : first ≤ octet)
    (unassigned : Unassigned i.addressesInUse octet) :
    ∃ addr found, i.firstUnassignedAddress first = .ok (addr, found) := by
  have ⟨_, high, free⟩ := (unassigned_iff i octet).mp unassigned
  exact search_returns after (by omega) free

theorem twoUnassignedAddresses_eq_ok {found : List SockaddrIn} {allRoutes : Text} {rs : List Route}
    {avoid one two : SockaddrIn} (table : Route.Table allRoutes rs) :
    twoUnassignedAddresses found allRoutes avoid = .ok (one, two) ↔
      ∃ j k, firstUnassignedAddress ⟨found ++ rs.map Route.dest ++ [avoid]⟩ 1 = .ok (one, j) ∧
        firstUnassignedAddress ⟨found ++ rs.map Route.dest ++ [avoid]⟩ (j + 1) = .ok (two, k) := by
  have built : construct found allRoutes = .ok ⟨found ++ rs.map Route.dest⟩ := by
    unfold construct
    rw [Route.routes_table table]
    rfl
  unfold twoUnassignedAddresses
  constructor
  · intro returned
    obtain ⟨i, made, returned⟩ := bind_eq_ok.mp returned
    cases built.symm.trans made
    obtain ⟨⟨_, j⟩, firstOk, returned⟩ := bind_eq_ok.mp returned
    obtain ⟨⟨_, k⟩, secondOk, returned⟩ := bind_eq_ok.mp returned
    cases returned
    exact ⟨j, k, firstOk, secondOk⟩
  · rintro ⟨j, k, firstOk, secondOk⟩
    exact bind_eq_ok.mpr ⟨_, built,
      bind_eq_ok.mpr ⟨_, firstOk, bind_eq_ok.mpr ⟨_, secondOk, rfl⟩⟩⟩

/-- A shell gives its tunnel the two lowest addresses of the carrier-grade NAT block that no
interface has, that are the destination of no route and that it was not told to avoid, and it fails
only if there are no two of them. -/
theorem twoUnassignedAddresses_lowest {found : List SockaddrIn} {allRoutes : Text} {rs : List Route}
    {avoid : SockaddrIn} (table : Route.Table allRoutes rs) :
    ((∃ addrs, twoUnassignedAddresses found allRoutes avoid = .ok addrs) ↔
        ∃ j k, j < k ∧ Unassigned (found ++ rs.map Route.dest ++ [avoid]) j ∧
          Unassigned (found ++ rs.map Route.dest ++ [avoid]) k) ∧
      ∀ one two, twoUnassignedAddresses found allRoutes avoid = .ok (one, two) →
        ∃ j k, one = cgnat j ∧ two = cgnat k ∧ j < k ∧
          Unassigned (found ++ rs.map Route.dest ++ [avoid]) j ∧
          Unassigned (found ++ rs.map Route.dest ++ [avoid]) k ∧
          ∀ m, Unassigned (found ++ rs.map Route.dest ++ [avoid]) m → m = j ∨ k ≤ m := by
  have lowest : ∀ one two, twoUnassignedAddresses found allRoutes avoid = .ok (one, two) →
      ∃ j k, one = cgnat j ∧ two = cgnat k ∧ j < k ∧
        Unassigned (found ++ rs.map Route.dest ++ [avoid]) j ∧
        Unassigned (found ++ rs.map Route.dest ++ [avoid]) k ∧
        ∀ m, Unassigned (found ++ rs.map Route.dest ++ [avoid]) m → m = j ∨ k ≤ m := by
    intro one two returned
    obtain ⟨j, k, firstOk, secondOk⟩ := (twoUnassignedAddresses_eq_ok table).mp returned
    obtain ⟨same, low, free, least⟩ := (firstUnassignedAddress_eq_ok (Nat.le_refl 1)).mp firstOk
    obtain ⟨same', after, free', least'⟩ :=
      (firstUnassignedAddress_eq_ok (Nat.le_add_left 1 j)).mp secondOk
    refine ⟨j, k, same, same', after, free, free', ?_⟩
    intro m unassigned
    have above := least m unassigned.range.1 unassigned
    by_cases later : j + 1 ≤ m
    · exact .inr (least' m later unassigned)
    · exact .inl (by omega)
  refine ⟨⟨?_, ?_⟩, lowest⟩
  · rintro ⟨⟨one, two⟩, returned⟩
    obtain ⟨j, k, _, _, below, free, free', _⟩ := lowest one two returned
    exact ⟨j, k, below, free, free'⟩
  · rintro ⟨j, k, below, free, free'⟩
    obtain ⟨one, j', firstOk⟩ := firstUnassignedAddress_returns free.range.1 free
    have least := ((firstUnassignedAddress_eq_ok (Nat.le_refl 1)).mp firstOk).2.2.2
    have reached : j' + 1 ≤ k := by
      have := least j free.range.1 free
      omega
    obtain ⟨two, k', secondOk⟩ := firstUnassignedAddress_returns reached free'
    exact ⟨(one, two), (twoUnassignedAddresses_eq_ok table).mpr ⟨j', k', firstOk, secondOk⟩⟩

/-- A table with a route to 100.64.0.1. -/
def oneRoute : Text := "Iface\tDestination\tGateway\neth0\t01004064\t00\n".toList

/-- An interface has 100.64.0.2, and 100.64.0.4 is to be avoided. -/
theorem twoUnassignedAddresses_lowest_oneRoute :
    ∃ j k, cgnat 3 = cgnat j ∧ cgnat 5 = cgnat k ∧ j < k ∧
      Unassigned [cgnat 2, cgnat 1, cgnat 4] j ∧ Unassigned [cgnat 2, cgnat 1, cgnat 4] k ∧
      ∀ m, Unassigned [cgnat 2, cgnat 1, cgnat 4] m → m = j ∨ k ≤ m := by
  have table : Route.Table oneRoute
      [⟨"eth0".toList, cgnat 1, "00".toList, rfl, by decide, by decide⟩] :=
    .inr ⟨"Iface\tDestination\tGateway".toList, by decide, by decide, by decide⟩
  have found : twoUnassignedAddresses [cgnat 2] oneRoute (cgnat 4) = .ok (cgnat 3, cgnat 5) := by
    decide
  exact (twoUnassignedAddresses_lowest table).2 (cgnat 3) (cgnat 5) found

end CellReplay
