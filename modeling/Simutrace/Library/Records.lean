import Simutrace.Library.Storage

/-! # Records of equal size

A storage is read as a sequence of records of one size, which stand one behind
the other. A record that is written behind the last one is added to the sequence.
-/

namespace Storage

def records (s : Storage) (size count : ℕ) : List (List UInt8) :=
  (List.range count).map fun i => s.read (i * size) size

def recordsOf (bytes : List UInt8) (size count : ℕ) : List (List UInt8) :=
  (List.range count).map fun i => (bytes.drop (i * size)).take size

variable {size count : ℕ} {record : List UInt8}

@[simp] theorem records_zero (s : Storage) (size : ℕ) : s.records size 0 = [] := rfl

@[simp] theorem length_recordsOf (bytes : List UInt8) (size count : ℕ) :
    (recordsOf bytes size count).length = count := by
  simp [recordsOf]

theorem take_drop_read (s : Storage) (pos : ℕ) {n k m : ℕ} (h : k + m ≤ n) :
    ((s.read pos n).drop k).take m = s.read (pos + k) m := by
  obtain ⟨r, rfl⟩ := Nat.exists_eq_add_of_le h
  rw [read_add, read_add, List.append_assoc, List.drop_left' (length_read _ _ _),
    List.take_left' (length_read _ _ _)]

theorem recordsOf_read (s : Storage) (size count : ℕ) :
    recordsOf (s.read 0 (count * size)) size count = s.records size count := by
  apply List.map_congr_left
  intro i hi
  have hle : i * size + size ≤ count * size := by
    rw [← Nat.succ_mul]
    exact Nat.mul_le_mul_right _ (List.mem_range.mp hi)
  rw [take_drop_read s 0 hle, Nat.zero_add]

theorem records_write (s : Storage) (hsize : record.length = size) :
    (s.write (count * size) record).records size (count + 1) =
      s.records size count ++ [record] := by
  unfold records
  rw [List.range_succ, List.map_append]
  congr 1
  · apply List.map_congr_left
    intro i hi
    apply read_write_disjoint
    right
    rw [← Nat.succ_mul]
    exact Nat.mul_le_mul_right _ (List.mem_range.mp hi)
  · simp [← hsize, read_write_same]

end Storage
