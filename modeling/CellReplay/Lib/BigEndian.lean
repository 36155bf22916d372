import Mathlib.Tactic.Ring

set_option autoImplicit false

/- Natural numbers as bytes, the most significant one first, and records of numbers of one
width laid out one behind the other. -/
namespace BigEndian

/-- The last `count` bytes of a number. -/
def toBytes : Nat → Nat → List UInt8
  | 0, _ => []
  | count + 1, n => UInt8.ofNat (n / 256 ^ count) :: toBytes count n

def fromBytes (bytes : List UInt8) : Nat := bytes.foldl (fun n byte => n * 256 + byte.toNat) 0

@[simp] theorem toBytes_length (count n : Nat) : (toBytes count n).length = count := by
  induction count with
  | zero => rfl
  | succ count ih => rw [toBytes, List.length_cons, ih]

/-- Reading goes on from the number read so far. -/
theorem foldl_toBytes (count n : Nat) : ∀ start : Nat,
    (toBytes count n).foldl (fun n byte => n * 256 + byte.toNat) start =
      start * 256 ^ count + n % 256 ^ count := by
  induction count with
  | zero =>
      intro start
      rw [toBytes, List.foldl_nil, pow_zero, Nat.mod_one]
      omega
  | succ count ih =>
      intro start
      have digit : (UInt8.ofNat (n / 256 ^ count)).toNat = n / 256 ^ count % 256 :=
        UInt8.toNat_ofNat
      rw [toBytes, List.foldl_cons, ih, digit, Nat.mod_pow_succ]
      ring

theorem fromBytes_toBytes (count n : Nat) : fromBytes (toBytes count n) = n % 256 ^ count := by
  unfold fromBytes
  rw [foldl_toBytes, Nat.zero_mul, Nat.zero_add]

/-- The bytes from one place up to another. -/
def slice (bytes : List UInt8) (first last : Nat) : List UInt8 :=
    (bytes.drop first).take (last - first)

/-- Numbers of `count` bytes each, one behind the other. -/
def record (count : Nat) (fields : List Nat) : List UInt8 := fields.flatMap (toBytes count)

@[simp] theorem record_length (count : Nat) (fields : List Nat) :
    (record count fields).length = count * fields.length := by
  induction fields with
  | nil => rfl
  | cons field fields ih =>
      rw [record, List.flatMap_cons, List.length_append, toBytes_length, List.length_cons]
      rw [record] at ih
      rw [ih, Nat.mul_succ]
      omega

theorem record_append (count : Nat) (front back : List Nat) :
    record count (front ++ back) = record count front ++ record count back := List.flatMap_append

/-- A field is read back where it was written, whatever follows the record. -/
theorem slice_record {count i : Nat} {fields : List Nat} (inside : i < fields.length)
    (rest : List UInt8) : slice (record count fields ++ rest) (count * i) (count * (i + 1)) =
      toBytes count fields[i] := by
  have parts : fields = fields.take i ++ (fields[i] :: fields.drop (i + 1)) := by
    rw [List.getElem_cons_drop, List.take_append_drop]
  have before : (record count (fields.take i)).length = count * i := by
    rw [record_length, List.length_take, Nat.min_eq_left (Nat.le_of_lt inside)]
  have bytes : record count fields ++ rest = record count (fields.take i) ++
      (toBytes count fields[i] ++ (record count (fields.drop (i + 1)) ++ rest)) := by
    conv_lhs => rw [parts, record_append]
    rw [List.append_assoc, record, record, record, List.flatMap_cons, List.append_assoc]
  have width : count * (i + 1) - count * i = (toBytes count fields[i]).length := by
    rw [toBytes_length, Nat.mul_succ]
    omega
  unfold slice
  rw [bytes, ← before, List.drop_left, before, width, List.take_left]

theorem fromBytes_slice_record {count i : Nat} {fields : List Nat} (inside : i < fields.length)
    (rest : List UInt8) (fits : fields[i] < 256 ^ count) :
    fromBytes (slice (record count fields ++ rest) (count * i) (count * (i + 1))) = fields[i] := by
  rw [slice_record inside, fromBytes_toBytes, Nat.mod_eq_of_lt fits]

section
variable {count i : Nat} {fields : List Nat}

/-- The front of a record is the record of its first fields. -/
theorem take_record (inside : i ≤ fields.length) (rest : List UInt8) :
    (record count fields ++ rest).take (count * i) = record count (fields.take i) := by
  have front : (record count (fields.take i)).length = count * i := by
    rw [record_length, List.length_take, Nat.min_eq_left inside]
  conv_lhs => rw [← List.take_append_drop i fields, record_append, List.append_assoc, ← front]
  exact List.take_left

theorem drop_record (inside : i ≤ fields.length) (rest : List UInt8) :
    (record count fields ++ rest).drop (count * i) = record count (fields.drop i) ++ rest := by
  have front : (record count (fields.take i)).length = count * i := by
    rw [record_length, List.length_take, Nat.min_eq_left inside]
  conv_lhs => rw [← List.take_append_drop i fields, record_append, List.append_assoc, ← front]
  exact List.drop_left

/-- Bytes put in the place of a field change that field alone. -/
theorem record_set (inside : i < fields.length) (n : Nat) (rest : List UInt8) :
    (record count fields ++ rest).take (count * i) ++ toBytes count n ++
        (record count fields ++ rest).drop (count * (i + 1)) =
      record count (fields.set i n) ++ rest := by
  rw [take_record (Nat.le_of_lt inside), drop_record inside, List.set_eq_take_append_cons_drop,
    if_pos inside, record_append, ← List.singleton_append, record_append]
  simp [record]

end

/-- Zeros are a record of zeros. -/
theorem record_zeros (count size : Nat) :
    record count (List.replicate size 0) = List.replicate (count * size) 0 := by
  have zero : toBytes count 0 = List.replicate count 0 := by
    induction count with
    | zero => rfl
    | succ count ih =>
        rw [toBytes, ih, Nat.zero_div, List.replicate_succ]
        rfl
  induction size with
  | zero => rfl
  | succ size ih =>
      rw [List.replicate_succ, record, List.flatMap_cons, ← record, ih, zero,
        List.replicate_append_replicate, Nat.mul_succ, Nat.add_comm]

end BigEndian
