import Mathlib.Data.List.Basic
import Simutrace.Library.LittleEndian

/-! # Cursors over byte buffers

A cursor is a buffer with the position of the next access. What a writer left
before its position is read back by a reader that starts at the same position
over any buffer that agrees with the written part.
-/

/-- A byte buffer and the position of the next access. -/
structure Cursor where
  bytes : List UInt8
  pos : ℕ
  deriving DecidableEq, Repr

namespace Cursor

/-- Overwrite the next bytes and move behind them, if they fit into the buffer. -/
def put (c : Cursor) (bs : List UInt8) : Option Cursor :=
  if c.pos + bs.length ≤ c.bytes.length then
    some ⟨c.bytes.take c.pos ++ bs ++ c.bytes.drop (c.pos + bs.length), c.pos + bs.length⟩
  else none

/-- Read the next `n` bytes and move behind them, if the buffer has as many left. -/
def get (c : Cursor) (n : ℕ) : Option (List UInt8 × Cursor) :=
  if c.pos + n ≤ c.bytes.length then
    some ((c.bytes.drop c.pos).take n, { c with pos := c.pos + n })
  else none

def putWord {w : ℕ} (c : Cursor) (x : BitVec w) : Option Cursor :=
  c.put (LittleEndian.ofWord x)

def getWord (w : ℕ) (c : Cursor) : Option (BitVec w × Cursor) := do
  let (bs, c) ← c.get (w / 8)
  return (LittleEndian.toWord w bs, c)

/-- The part of the buffer before the position. -/
def written (c : Cursor) : List UInt8 := c.bytes.take c.pos

def fillRest (c : Cursor) (b : UInt8) : Cursor :=
  { c with bytes := c.bytes.take c.pos ++ List.replicate (c.bytes.length - c.pos) b }

/-- The number of bytes between the position and the end of the buffer. -/
def room (c : Cursor) : ℕ := c.bytes.length - c.pos

variable {c c' : Cursor} {bs : List UInt8}

theorem put_eq_some_iff : c.put bs = some c' ↔ c.pos + bs.length ≤ c.bytes.length ∧
    c' = ⟨c.bytes.take c.pos ++ bs ++ c.bytes.drop (c.pos + bs.length),
      c.pos + bs.length⟩ := by
  unfold put
  split <;> simp_all [eq_comm]

theorem put_of_fits (h : c.pos + bs.length ≤ c.bytes.length) : ∃ c', c.put bs = some c' :=
  ⟨_, put_eq_some_iff.mpr ⟨h, rfl⟩⟩

theorem pos_put (h : c.put bs = some c') : c'.pos = c.pos + bs.length := by
  obtain ⟨_, rfl⟩ := put_eq_some_iff.mp h
  rfl

theorem length_put (h : c.put bs = some c') : c'.bytes.length = c.bytes.length := by
  obtain ⟨hf, rfl⟩ := put_eq_some_iff.mp h
  simp only [List.length_append, List.length_take, List.length_drop]
  omega

theorem written_put (h : c.put bs = some c') : c'.written = c.written ++ bs := by
  obtain ⟨hf, rfl⟩ := put_eq_some_iff.mp h
  have hl : (c.bytes.take c.pos ++ bs).length = c.pos + bs.length := by
    rw [List.length_append, List.length_take]; omega
  unfold written
  exact List.take_left' hl

theorem written_fillRest (b : UInt8) : (c.fillRest b).written = c.written := by
  change (c.bytes.take c.pos ++ _).take c.pos = c.bytes.take c.pos
  rcases Nat.le_total c.pos c.bytes.length with h | h
  · exact List.take_left' (by rw [List.length_take]; omega)
  · have hz : c.bytes.length - c.pos = 0 := by omega
    simp [hz, List.take_of_length_le h]

theorem length_written (h : c.pos ≤ c.bytes.length) : c.written.length = c.pos := by
  rw [written, List.length_take]; omega

@[simp] theorem pos_fillRest (b : UInt8) : (c.fillRest b).pos = c.pos := rfl

@[simp] theorem length_fillRest (b : UInt8) :
    (c.fillRest b).bytes.length = c.bytes.length := by
  rw [fillRest, List.length_append, List.length_take, List.length_replicate]
  omega

theorem written_prefix (c : Cursor) : c.written <+: c.bytes := List.take_prefix _ _

theorem get_of_put {buf : List UInt8} (h : c.put bs = some c') (hp : c'.written <+: buf) :
    (⟨buf, c.pos⟩ : Cursor).get bs.length = some (bs, ⟨buf, c'.pos⟩) := by
  have hf := (put_eq_some_iff.mp h).1
  obtain ⟨rest, rfl⟩ := hp
  have hl : c.written.length = c.pos := length_written (by omega)
  rw [written_put h, pos_put h, get]
  rw [if_pos (by simp only [List.length_append]; omega)]
  simp only [List.append_assoc, List.drop_left' hl, List.take_left']

theorem putWord_of_fits {w : ℕ} (x : BitVec w) (h : c.pos + w / 8 ≤ c.bytes.length) :
    ∃ c', c.putWord x = some c' ∧ c'.pos = c.pos + w / 8 ∧ c'.bytes.length = c.bytes.length := by
  rw [← LittleEndian.length_ofWord x] at h
  obtain ⟨c', hc⟩ := put_of_fits h
  have hp := pos_put hc
  rw [LittleEndian.length_ofWord] at hp
  exact ⟨c', hc, hp, length_put hc⟩

theorem get_of_fits {n : ℕ} (h : c.pos + n ≤ c.bytes.length) :
    ∃ bs, c.get n = some (bs, { c with pos := c.pos + n }) := by
  unfold get
  exact ⟨_, if_pos h⟩

theorem getWord_of_fits {w : ℕ} (h : c.pos + w / 8 ≤ c.bytes.length) :
    ∃ x, c.getWord w = some (x, { c with pos := c.pos + w / 8 }) := by
  obtain ⟨bs, hg⟩ := get_of_fits h
  exact ⟨LittleEndian.toWord w bs, by simp [getWord, hg]⟩

theorem getWord_of_putWord {w : ℕ} (hw : 8 ∣ w) {x : BitVec w} {buf : List UInt8}
    (h : c.putWord x = some c') (hp : c'.written <+: buf) :
    getWord w ⟨buf, c.pos⟩ = some (x, ⟨buf, c'.pos⟩) := by
  have hg := get_of_put h hp
  rw [LittleEndian.length_ofWord] at hg
  simp [getWord, hg, LittleEndian.toWord_ofWord hw]

end Cursor
