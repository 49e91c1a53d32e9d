import Mathlib.Data.List.Basic
import Mathlib.Order.Basic

/-! # Zero-initialised storage

A storage is a file that grows by reserving space at its end. Space that was
reserved but not written yet reads as zero bytes.
-/

/-- The bytes of a file and its size; the bytes beyond the size are those a reservation yields. -/
structure Storage where
  content : ℕ → UInt8
  size : ℕ

namespace Storage

def empty : Storage := ⟨fun _ => 0, 0⟩

/-- Grow by `n` bytes and return their position, unless the file would exceed the limit. -/
def reserve (limit : ℕ) (s : Storage) (n : ℕ) : Option (ℕ × Storage) :=
  if s.size + n ≤ limit then some (s.size, { s with size := s.size + n }) else none

def write (s : Storage) (pos : ℕ) (bs : List UInt8) : Storage :=
  { s with content := fun i => if pos ≤ i then (bs[i - pos]?).getD (s.content i) else s.content i }

def read (s : Storage) (pos n : ℕ) : List UInt8 := (List.range n).map fun i => s.content (pos + i)

/-- Nothing has been written beyond the end. -/
def Fresh (s : Storage) : Prop := ∀ i, s.size ≤ i → s.content i = 0

def AgreeBelow (pos : ℕ) (s s' : Storage) : Prop := ∀ i < pos, s'.content i = s.content i

variable {s s' s'' : Storage} {pos pos' n m limit : ℕ} {bs : List UInt8}

@[simp] theorem size_write (s : Storage) (pos : ℕ) (bs : List UInt8) :
    (s.write pos bs).size = s.size := rfl

@[simp] theorem length_read (s : Storage) (pos n : ℕ) : (s.read pos n).length = n := by
  simp [read]

theorem content_write_of_lt {i : ℕ} (h : i < pos) : (s.write pos bs).content i = s.content i :=
  if_neg (by omega)

theorem content_write_of_ge {i : ℕ} (h : pos + bs.length ≤ i) :
    (s.write pos bs).content i = s.content i := by
  have hn : bs[i - pos]? = none := List.getElem?_eq_none (by omega)
  simp [write, hn]

theorem content_write_of_mem {i : ℕ} (h : i < bs.length) :
    (s.write pos bs).content (pos + i) = bs[i] := by
  simp [write, List.getElem?_eq_getElem h]

theorem write_nil (s : Storage) (pos : ℕ) : s.write pos [] = s := by
  simp [write]

theorem write_append (s : Storage) (pos : ℕ) (bs bs' : List UInt8) :
    s.write pos (bs ++ bs') = (s.write pos bs).write (pos + bs.length) bs' := by
  simp only [write, mk.injEq, and_true]
  funext i
  by_cases h : pos ≤ i
  · by_cases h' : pos + bs.length ≤ i
    · rw [if_pos h, if_pos h', if_pos h, List.getElem?_append_right (by omega),
        List.getElem?_eq_none (by omega : bs.length ≤ i - pos), Nat.sub_add_eq, Option.getD_none]
    · rw [if_pos h, if_neg h', if_pos h, List.getElem?_append_left (by omega)]
  · rw [if_neg h, if_neg (by omega), if_neg h]

theorem reserve_eq_some_iff : s.reserve limit n = some (pos, s') ↔
    s.size + n ≤ limit ∧ pos = s.size ∧ s' = { s with size := s.size + n } := by
  unfold reserve
  split
  · simp_all [eq_comm]
  · exact iff_of_false (by simp) fun h => by omega

theorem Fresh.reserve (hf : s.Fresh) (h : s.reserve limit n = some (pos, s')) : s'.Fresh := by
  obtain ⟨_, _, rfl⟩ := reserve_eq_some_iff.mp h
  exact fun i hi => hf i (by simp only at hi; omega)

theorem Fresh.write (hf : s.Fresh) (h : pos + bs.length ≤ s.size) : (s.write pos bs).Fresh := by
  intro i hi
  rw [content_write_of_ge (by simp only [size_write] at hi; omega)]
  exact hf i hi

theorem read_congr (h : ∀ i < n, s'.content (pos + i) = s.content (pos + i)) :
    s'.read pos n = s.read pos n :=
  List.map_congr_left fun i hi => h i (List.mem_range.mp hi)

theorem read_write_same (s : Storage) (pos : ℕ) (bs : List UInt8) :
    (s.write pos bs).read pos bs.length = bs := by
  apply List.ext_getElem (length_read _ _ _)
  intro i _ h
  simp only [read, List.getElem_map, List.getElem_range, content_write_of_mem h]

theorem read_write_disjoint (h : pos + bs.length ≤ pos' ∨ pos' + n ≤ pos) :
    (s.write pos bs).read pos' n = s.read pos' n := by
  refine read_congr fun i hi => ?_
  rcases h with h | h
  · exact content_write_of_ge (by omega)
  · exact content_write_of_lt (by omega)

theorem read_eq_zero (h : ∀ i < n, s.content (pos + i) = 0) :
    s.read pos n = List.replicate n 0 := by
  rw [List.eq_replicate_iff]
  refine ⟨length_read _ _ _, fun b hb => ?_⟩
  obtain ⟨i, hi, rfl⟩ := List.mem_map.mp hb
  exact h i (List.mem_range.mp hi)

theorem read_add (s : Storage) (pos n m : ℕ) :
    s.read pos (n + m) = s.read pos n ++ s.read (pos + n) m := by
  simp [read, List.range_add, Nat.add_assoc]

theorem AgreeBelow.refl (pos : ℕ) (s : Storage) : AgreeBelow pos s s := fun _ _ => rfl

theorem AgreeBelow.trans (h : AgreeBelow pos s s') (h' : AgreeBelow pos s' s'') :
    AgreeBelow pos s s'' :=
  fun i hi => (h' i hi).trans (h i hi)

theorem AgreeBelow.mono (h : AgreeBelow pos s s') (hp : pos' ≤ pos) : AgreeBelow pos' s s' :=
  fun i hi => h i (by omega)

theorem agreeBelow_write (s : Storage) (h : pos' ≤ pos) (bs : List UInt8) :
    AgreeBelow pos' s (s.write pos bs) :=
  fun _ hi => content_write_of_lt (by omega)

theorem agreeBelow_reserve (h : s.reserve limit n = some (pos, s')) (pos' : ℕ) :
    AgreeBelow pos' s s' := by
  obtain ⟨_, _, rfl⟩ := reserve_eq_some_iff.mp h
  exact .refl _ _

theorem AgreeBelow.read (h : AgreeBelow pos s s') (hp : pos' + n ≤ pos) :
    s'.read pos' n = s.read pos' n :=
  read_congr fun i hi => h _ (by omega)

end Storage
