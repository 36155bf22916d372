import CellReplay.Record.SaturatorServer

set_option autoImplicit false

namespace CellReplay

open Binary64

/-- What a sender computes before its loop: in a round it sends `sendLower` batches of
`packetPerBatchLower` packets and `sendUpper` batches of `packetPerBatchUpper`. -/
structure Batching where
  amountOfBatchesPerSecond : Int
  packetPerBatchLower : Int
  packetPerBatchUpper : Int
  sendUpper : Int
  sendLower : Int
  deriving DecidableEq, Repr

namespace Batching

/-- The sizes of the batches of a round. -/
def batches (b : Batching) : List Nat :=
  List.replicate b.sendLower.toNat b.packetPerBatchLower.toNat ++
    List.replicate b.sendUpper.toNat b.packetPerBatchUpper.toNat

/-- A round is one second at a rate in Mbps. -/
structure SendsRate (b : Batching) (rate packetSize : Int) : Prop where
  nonneg : 0 ≤ b.sendUpper
  below : b.sendUpper < b.amountOfBatchesPerSecond
  amount : b.sendLower + b.sendUpper = b.amountOfBatchesPerSecond
  packets : b.sendLower * b.packetPerBatchLower + b.sendUpper * b.packetPerBatchUpper =
    rate * 10 ^ 6 / (8 * packetSize)
  round : (b.batches.sum : Int) = rate * 10 ^ 6 / (8 * packetSize)

/-- The batches for some packets, at a guess of how many each batch takes at least. -/
def split (amountOfBatchesPerSecond packets packetPerBatchLower : Int) : Batching where
  amountOfBatchesPerSecond := amountOfBatchesPerSecond
  packetPerBatchLower := packetPerBatchLower
  packetPerBatchUpper := packetPerBatchLower + 1
  sendUpper := packets - amountOfBatchesPerSecond * packetPerBatchLower
  sendLower := amountOfBatchesPerSecond - (packets - amountOfBatchesPerSecond * packetPerBatchLower)

/-- However the packets are split, all are sent. -/
theorem split_packets (amount packets lower : Int) :
    (split amount packets lower).sendLower * (split amount packets lower).packetPerBatchLower +
      (split amount packets lower).sendUpper * (split amount packets lower).packetPerBatchUpper =
      packets := by
  simp only [split]
  ring

theorem split_batches {amount packets lower : Int} (nonneg : 0 ≤ lower)
    (upper : 0 ≤ packets - amount * lower) (fits : packets - amount * lower ≤ amount) :
    ((split amount packets lower).batches.sum : Int) = packets := by
  have all := split_packets amount packets lower
  unfold batches
  simp only [split] at all ⊢
  rw [List.sum_append, List.sum_replicate_nat, List.sum_replicate_nat]
  push_cast
  rw [Int.toNat_of_nonneg nonneg, Int.toNat_of_nonneg upper, Int.toNat_of_nonneg (by omega),
    Int.toNat_of_nonneg (by omega)]
  exact all

/-- The split is right if it is made with the quotients rounded down, and only then. -/
theorem sendsRate_split {amount packets lower rate packetSize : Int} (positive : 0 < amount)
    (rateNonneg : 0 ≤ rate) (sizePositive : 0 < packetSize) :
    (split amount packets lower).SendsRate rate packetSize ↔
      packets = rate * 10 ^ 6 / (8 * packetSize) ∧ lower = packets / amount := by
  constructor
  · intro sends
    have nonneg := sends.nonneg
    have below := sends.below
    have packets' := sends.packets
    rw [split_packets] at packets'
    simp only [split] at nonneg below
    refine ⟨packets', ?_⟩
    rw [eq_comm, Int.ediv_eq_iff_of_pos positive]
    constructor <;> linarith
  · rintro ⟨exact, lowered⟩
    have packetsNonneg : 0 ≤ packets := by
      rw [exact]
      positivity
    have rest := Int.mul_ediv_add_emod packets amount
    have restNonneg := Int.emod_nonneg packets (ne_of_gt positive)
    have restBelow := Int.emod_lt_of_pos packets positive
    rw [← lowered] at rest
    have lowerNonneg : 0 ≤ lower := by
      rw [lowered]
      positivity
    refine ⟨?_, ?_, ?_, ?_, ?_⟩
    · simp only [split]
      omega
    · simp only [split]
      omega
    · simp only [split]
      omega
    · rw [split_packets, exact]
    · rw [split_batches lowerNonneg (by omega) (by omega), exact]

end Batching

/- The sender thread of the Java client, whose numbers are `int`s. -/
namespace SendDataRunnable

def minSleepTimeMs : Int32 := 5

section
variable (uploadRate packetSize : Int32)

def pps : Int32 := uploadRate * 1000000 / 8 / packetSize
def amountOfBatchesPerSecond : Int32 := 1000 / minSleepTimeMs
def packetPerBatchLower : Int32 := pps uploadRate packetSize / amountOfBatchesPerSecond
def packetPerBatchUpper : Int32 := packetPerBatchLower uploadRate packetSize + 1
def sendUpper : Int32 :=
  pps uploadRate packetSize - amountOfBatchesPerSecond * packetPerBatchLower uploadRate packetSize
def sendLower : Int32 := amountOfBatchesPerSecond - sendUpper uploadRate packetSize

def batching : Batching where
  amountOfBatchesPerSecond := amountOfBatchesPerSecond.toInt
  packetPerBatchLower := (packetPerBatchLower uploadRate packetSize).toInt
  packetPerBatchUpper := (packetPerBatchUpper uploadRate packetSize).toInt
  sendUpper := (sendUpper uploadRate packetSize).toInt
  sendLower := (sendLower uploadRate packetSize).toInt

end

theorem toInt_amountOfBatchesPerSecond : amountOfBatchesPerSecond.toInt = 200 := by decide

/-- Only the product by 10^6 may overflow. -/
theorem toInt_pps {uploadRate packetSize : Int32} (positive : 0 < packetSize.toInt) :
    (pps uploadRate packetSize).toInt =
      (((uploadRate.toInt * 10 ^ 6).bmod (2 ^ 32)).tdiv 8).tdiv packetSize.toInt := by
  have size : packetSize ≠ -1 := by
    intro same
    rw [same] at positive
    exact absurd positive (by decide)
  unfold pps
  rw [Int32.toInt_div_of_ne_right _ _ size, Int32.toInt_div_of_ne_right _ _ (by decide),
    Int32.toInt_mul]
  rfl

theorem bmod_of_range {n : Int} (low : -2 ^ 31 ≤ n) (high : n < 2 ^ 31) : n.bmod (2 ^ 32) = n :=
  Int.bmod_eq_of_le (by norm_num; exact low) (by norm_num; exact high)

theorem tdiv_of_nonpos {n : Int} (k : Int) (nonpos : n ≤ 0) : n.tdiv k = -(-n / k) := by
  rw [← Int.tdiv_eq_ediv_of_nonneg (by omega), Int.neg_tdiv, neg_neg]

theorem tdiv_range {n : Int} (low : -2 ^ 31 ≤ n) (high : n < 2 ^ 31) :
    -2 ^ 31 ≤ 200 * n.tdiv 200 ∧ 200 * n.tdiv 200 < 2 ^ 31 ∧
      -200 < n - 200 * n.tdiv 200 ∧ n - 200 * n.tdiv 200 < 200 := by
  rcases le_total 0 n with nonneg | negative
  · rw [Int.tdiv_eq_ediv_of_nonneg nonneg]
    omega
  · rw [tdiv_of_nonpos 200 negative]
    omega

/-- What follows the quotient does not overflow. -/
theorem batching_eq (uploadRate packetSize : Int32) :
    batching uploadRate packetSize = Batching.split 200 (pps uploadRate packetSize).toInt
      ((pps uploadRate packetSize).toInt.tdiv 200) := by
  have low := (pps uploadRate packetSize).le_toInt
  have high := (pps uploadRate packetSize).toInt_lt
  obtain ⟨lower, lower', upper, upper'⟩ := tdiv_range low high
  have toLower : (packetPerBatchLower uploadRate packetSize).toInt =
      (pps uploadRate packetSize).toInt.tdiv 200 := by
    unfold packetPerBatchLower
    rw [Int32.toInt_div_of_ne_right _ _ (by decide), toInt_amountOfBatchesPerSecond]
  have toUpper : (sendUpper uploadRate packetSize).toInt = (pps uploadRate packetSize).toInt -
      200 * (pps uploadRate packetSize).toInt.tdiv 200 := by
    unfold sendUpper
    rw [Int32.toInt_sub, Int32.toInt_mul, toInt_amountOfBatchesPerSecond, toLower]
    have product : (200 * (pps uploadRate packetSize).toInt.tdiv 200).bmod (2 ^ 32) =
        200 * (pps uploadRate packetSize).toInt.tdiv 200 :=
      bmod_of_range (by omega) (by omega)
    rw [product]
    exact bmod_of_range (by omega) (by omega)
  unfold batching Batching.split
  rw [toLower, toUpper, toInt_amountOfBatchesPerSecond]
  congr 1
  · unfold packetPerBatchUpper
    rw [Int32.toInt_add, toLower, show (1 : Int32).toInt = 1 by decide]
    exact bmod_of_range (by omega) (by omega)
  · unfold sendLower
    rw [Int32.toInt_sub, toUpper, toInt_amountOfBatchesPerSecond]
    exact bmod_of_range (by omega) (by omega)

/-- Wrapping takes off a multiple of 2^32. -/
theorem bmod_word (n : Int) :
    ∃ k, n.bmod (2 ^ 32) = n - 2 ^ 32 * k ∧ -2 ^ 31 ≤ n.bmod (2 ^ 32) ∧
      n.bmod (2 ^ 32) < 2 ^ 31 := by
  have low := Int.le_bmod (x := n) (m := 2 ^ 32) (by decide)
  have high := Int.bmod_lt (x := n) (m := 2 ^ 32) (by decide)
  exact ⟨n.bdiv (2 ^ 32), Int.bmod_eq_self_sub_mul_bdiv n (2 ^ 32), le_trans (by decide) low,
    lt_of_lt_of_le high (by decide)⟩

/-- No packet size hides that the product was wrapped, unless the quotient is zero. -/
theorem wrapped_quotient_iff {bits size : Int} (nonneg : 0 ≤ bits) (positive : 0 < size) :
    ((bits.bmod (2 ^ 32)).tdiv 8).tdiv size = bits / (8 * size) ↔
      bits < 2 ^ 31 ∨ bits < 8 * size := by
  by_cases small : bits < 2 ^ 31
  · rw [bmod_of_range (by omega) small, Int.tdiv_eq_ediv_of_nonneg nonneg,
      Int.tdiv_eq_ediv_of_nonneg (by omega), Int.ediv_ediv_of_nonneg (by decide)]
    exact iff_of_true rfl (.inl small)
  · obtain ⟨k, wrapped, low, high⟩ := bmod_word bits
    generalize bits.bmod (2 ^ 32) = word at wrapped low high ⊢
    have several : 8 * size ≤ bits → 1 ≤ bits / (8 * size) := by
      intro large
      rw [Int.le_ediv_iff_mul_le (by omega)]
      omega
    simp only [small, false_or]
    rcases lt_or_ge word 0 with negative | positive'
    · rw [tdiv_of_nonpos 8 negative.le, Int.neg_tdiv, Int.tdiv_eq_ediv_of_nonneg (by omega),
        Int.ediv_ediv_of_nonneg (by decide)]
      constructor
      · intro same
        by_contra large
        have above := several (by omega)
        have below : 0 ≤ -word / (8 * size) := Int.ediv_nonneg (by omega) (by omega)
        omega
      · intro large
        rw [Int.ediv_eq_zero_of_lt (by omega) (by omega), Int.ediv_eq_zero_of_lt nonneg large]
        rfl
    · rw [Int.tdiv_eq_ediv_of_nonneg positive', Int.tdiv_eq_ediv_of_nonneg (by omega),
        Int.ediv_ediv_of_nonneg (by decide)]
      constructor
      · intro same
        by_contra large
        have above := several (by omega)
        have fits : 8 * size ≤ word := by
          rw [← same, Int.le_ediv_iff_mul_le (by omega)] at above
          omega
        have wider : word / (8 * size) + 1 ≤ bits / (8 * size) := by
          rw [← Int.add_mul_ediv_right _ _ (by omega : 8 * size ≠ 0)]
          exact Int.ediv_le_ediv (by omega) (by omega)
        omega
      · intro large
        rw [Int.ediv_eq_zero_of_lt positive' (by omega), Int.ediv_eq_zero_of_lt nonneg large]

theorem sendsRate_iff {uploadRate packetSize : Int32} (rate : 0 ≤ uploadRate.toInt)
    (size : 0 < packetSize.toInt) :
    (batching uploadRate packetSize).SendsRate uploadRate.toInt packetSize.toInt ↔
      uploadRate.toInt * 10 ^ 6 < 2 ^ 31 ∨ uploadRate.toInt * 10 ^ 6 < 8 * packetSize.toInt := by
  rw [batching_eq, Batching.sendsRate_split (by decide) rate size, toInt_pps size,
    wrapped_quotient_iff (by omega) size]
  apply and_iff_left_of_imp
  intro exact
  have nonneg : 0 ≤ uploadRate.toInt * 10 ^ 6 := by omega
  have same := (wrapped_quotient_iff nonneg size).mpr exact
  rw [same]
  exact Int.tdiv_eq_ediv_of_nonneg (Int.ediv_nonneg (by omega) (by omega))

end SendDataRunnable

namespace SaturatorThread

/-- The values of the sender thread of the server. -/
def batching (t : SaturatorThread) : Batching where
  amountOfBatchesPerSecond := amountOfBatchesPerSecond
  packetPerBatchLower := t.packetPerBatchLower
  packetPerBatchUpper := t.packetPerBatchUpper
  sendUpper := t.sendUpper
  sendLower := t.sendLower

/-- The quotient of the bytes per second by the packet size is far enough below the next integer
for its rounding, and so is the share of the packets that a batch takes. -/
def KeepsIntegerPart (downloadRate packetSize : Int) : Prop :=
  RoundsInto (double (downloadRate * 1000000 / 8) / double packetSize)
      (downloadRate * 10 ^ 6 / (8 * packetSize)) ∧
    RoundsInto ((downloadRate * 10 ^ 6 / (8 * packetSize) : Int) / 1000)
      (downloadRate * 10 ^ 6 / (8 * packetSize) / 1000)

theorem amountOfBatchesPerSecond_eq : amountOfBatchesPerSecond = 1000 := by
  have exact : double (1000 / (minSleepTimeMs : ℚ)) = 1000 := by
    have isDouble := double_eq (isDouble_natCast (n := 1000) (by decide))
    simpa [minSleepTimeMs] using isDouble
  unfold amountOfBatchesPerSecond
  rw [exact, trunc_of_nonneg (by norm_num)]
  norm_num

theorem batching_eq (t : SaturatorThread) :
    t.batching = Batching.split 1000 t.packetPerSecond t.packetPerBatchLower := by
  unfold batching Batching.split sendLower sendUpper packetPerBatchUpper
  rw [amountOfBatchesPerSecond_eq]

theorem quotient_nonneg {rate size : Int} (rateNonneg : 0 ≤ rate) (sizePositive : 0 < size) :
    0 ≤ double ((rate : ℚ) * 1000000 / 8) / double size := by
  have rateQ : (0 : ℚ) ≤ rate := by exact_mod_cast rateNonneg
  have sizeQ : (0 : ℚ) ≤ size := by exact_mod_cast le_of_lt sizePositive
  exact div_nonneg (double_nonneg (by positivity)) (double_nonneg sizeQ)

/-- The share of a batch. -/
theorem share_nonneg {rate size : Int} (rateNonneg : 0 ≤ rate) (sizePositive : 0 < size) :
    0 ≤ ((rate * 10 ^ 6 / (8 * size) : Int) : ℚ) / 1000 := by
  have nonneg : 0 ≤ rate * 10 ^ 6 / (8 * size) := Int.ediv_nonneg (by omega) (by omega)
  have nonnegQ : (0 : ℚ) ≤ (rate * 10 ^ 6 / (8 * size) : Int) := by exact_mod_cast nonneg
  exact div_nonneg nonnegQ (by norm_num)

theorem sendsRate_iff {t : SaturatorThread} (rate : 0 ≤ t.downloadRate)
    (size : 0 < t.packetSize) :
    t.batching.SendsRate t.downloadRate t.packetSize ↔
      KeepsIntegerPart t.downloadRate t.packetSize := by
  have packets := trunc_double_eq_iff (quotient_nonneg rate size)
    (t.downloadRate * 10 ^ 6 / (8 * t.packetSize))
  have batch := trunc_double_eq_iff (share_nonneg rate size)
    (t.downloadRate * 10 ^ 6 / (8 * t.packetSize) / 1000)
  rw [batching_eq, Batching.sendsRate_split (by decide) rate size]
  unfold KeepsIntegerPart
  rw [← packets, ← batch]
  apply and_congr_right
  intro exact
  unfold packetPerBatchLower
  rw [amountOfBatchesPerSecond_eq, exact]
  norm_num

/-- Whatever the size of a packet, an integer part is kept while the bytes per second have 53
bits. -/
theorem floor_packets {bytes : ℕ} (small : bytes < 2 ^ 53) (size : ℕ) :
    ⌊double (double (bytes : ℚ) / double size)⌋ = (bytes / size : ℕ) := by
  rw [double_eq (isDouble_natCast (le_of_lt small))]
  by_cases fits : size ≤ 2 ^ 53
  · rw [double_eq (isDouble_natCast fits)]
    exact floor_double_div small size
  · -- The quotient is at most the double before 1.
    have large : (2 ^ 53 : ℚ) ≤ double size :=
      le_double (by exact_mod_cast isDouble_natCast (n := 2 ^ 53) (le_refl _))
        (by exact_mod_cast le_of_not_ge fits)
    have previous : IsDouble ((2 ^ 53 - 1) * 2 ^ (-53 : ℤ)) :=
      ⟨2 ^ 53 - 1, -53, by decide, by norm_num⟩
    have bytesQ : (bytes : ℚ) + 1 ≤ 2 ^ 53 := by exact_mod_cast small
    have below : (bytes : ℚ) / double size ≤ (2 ^ 53 - 1) * 2 ^ (-53 : ℤ) := by
      rw [zpow_neg, ← div_eq_mul_inv]
      exact div_le_div₀ (by norm_num) (by linarith) (by norm_num) (by exact_mod_cast large)
    have rounded := double_le previous below
    have nonneg : 0 ≤ double ((bytes : ℚ) / double size) :=
      double_nonneg (div_nonneg (by positivity) (by linarith))
    rw [Nat.div_eq_of_lt (by omega), Int.floor_eq_iff]
    norm_num at rounded ⊢
    exact ⟨nonneg, by linarith⟩

/-- Up to 72057594037 Mbps no rounding matters. -/
theorem keepsIntegerPart {rate size : Int} (rateNonneg : 0 ≤ rate) (sizePositive : 0 < size)
    (small : 125000 * rate < 2 ^ 53) : KeepsIntegerPart rate size := by
  lift rate to ℕ using rateNonneg
  lift size to ℕ using le_of_lt sizePositive
  have bytes : (rate : ℚ) * 1000000 / 8 = (125000 * rate : ℕ) := by
    push_cast
    ring
  have quotient : (rate : Int) * 10 ^ 6 / (8 * size) = (125000 * rate / size : ℕ) := by
    push_cast
    rw [← Int.mul_ediv_mul_of_pos (125000 * (rate : Int)) size (by decide : (0 : Int) < 8)]
    congr 1
    ring
  have sized : (0 : Int) < size := sizePositive
  unfold KeepsIntegerPart
  rw [← floor_double_eq_iff (quotient_nonneg (by omega) sized),
    ← floor_double_eq_iff (share_nonneg (by omega) sized), quotient]
  constructor
  · push_cast
    rw [bytes]
    exact floor_packets (by omega) size
  · have share := floor_double_div
      (lt_of_le_of_lt (Nat.div_le_self (125000 * rate) size) (by omega)) 1000
    push_cast at share ⊢
    exact share

end SaturatorThread

/-- A round of the client is one second at the configured rate if and only if the product by 10^6
fits an `int` or the rate is below one packet per second. A round of the server is if and only if
its two quotients keep half a last bit of distance to the next integer, and both do while the bytes
per second have 53 bits. -/
theorem rounds_send_rate_iff {uploadRate clientPacketSize : Int32} {t : SaturatorThread}
    (uploads : 0 ≤ uploadRate.toInt) (clientSized : 0 < clientPacketSize.toInt)
    (downloads : 0 ≤ t.downloadRate) (serverSized : 0 < t.packetSize) :
    ((SendDataRunnable.batching uploadRate clientPacketSize).SendsRate uploadRate.toInt
        clientPacketSize.toInt ↔
      uploadRate.toInt * 10 ^ 6 < 2 ^ 31 ∨
        uploadRate.toInt * 10 ^ 6 < 8 * clientPacketSize.toInt) ∧
    (t.batching.SendsRate t.downloadRate t.packetSize ↔
      SaturatorThread.KeepsIntegerPart t.downloadRate t.packetSize) ∧
    (125000 * t.downloadRate < 2 ^ 53 →
      SaturatorThread.KeepsIntegerPart t.downloadRate t.packetSize) := by
  refine ⟨SendDataRunnable.sendsRate_iff uploads clientSized, ?_, ?_⟩
  · exact SaturatorThread.sendsRate_iff downloads serverSized
  · exact SaturatorThread.keepsIntegerPart downloads serverSized

/-- A sender thread at the given rate. -/
def SaturatorThread.atRate (downloadRate packetSize : Int) : SaturatorThread where
  senderId := 1
  address := ⟨[], 0⟩
  downloadRate := downloadRate
  packetSize := packetSize
  point := .head
  session := 1
  round := 1

/-- At 2147 Mbps both senders send what is configured. -/
theorem rounds_send_rate_iff_largest :
    (SendDataRunnable.batching 2147 1400).SendsRate 2147 1400 ∧
      (SaturatorThread.atRate 2147 1400).batching.SendsRate 2147 1400 := by
  have rates := @rounds_send_rate_iff 2147 1400 (SaturatorThread.atRate 2147 1400) (by decide)
    (by decide) (by decide) (by decide)
  exact ⟨rates.1.mpr (by decide), rates.2.1.mpr (rates.2.2 (by decide))⟩

/-- At 2148 Mbps the product of the client is negative. At the rate of the server a quotient is
rounded up to an integer. -/
theorem not_rounds_send_rate :
    ¬ (SendDataRunnable.batching 2148 1400).SendsRate 2148 1400 ∧
      ¬ (SaturatorThread.atRate 111491001031 159).batching.SendsRate 111491001031 159 := by
  constructor
  · intro sends
    exact absurd sends.nonneg (by decide)
  · intro sends
    exact absurd sends.packets (by decide +kernel)

end CellReplay
