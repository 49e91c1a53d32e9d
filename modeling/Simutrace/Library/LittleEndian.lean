import Mathlib.Data.List.Forall2
import Mathlib.Tactic.Ring

/-! # Little-endian words

Fixed-width words are laid out in memory with their least significant byte
first. Reading the bytes of a word gives the word back.
-/

namespace LittleEndian

/-- The `n` low bytes of a number, least significant byte first. -/
def bytes : ℕ → ℕ → List UInt8
  | 0, _ => []
  | n + 1, x => UInt8.ofNat x :: bytes n (x / 256)

/-- The number a sequence of bytes stands for. -/
def value : List UInt8 → ℕ
  | [] => 0
  | b :: bs => b.toNat + 256 * value bs

@[simp] theorem length_bytes (n x : ℕ) : (bytes n x).length = n := by
  induction n generalizing x with
  | zero => rfl
  | succ n ih => simp [bytes, ih]

@[simp] theorem value_bytes (n x : ℕ) : value (bytes n x) = x % 256 ^ n := by
  induction n generalizing x with
  | zero => simp [bytes, value, Nat.mod_one]
  | succ n ih =>
    have hb : (UInt8.ofNat x).toNat = x % 256 := by simp
    rw [bytes, value, ih, hb, pow_succ, mul_comm (256 ^ n), Nat.mod_mul]

/-- The memory image of a word. -/
def ofWord {w : ℕ} (x : BitVec w) : List UInt8 := bytes (w / 8) x.toNat

/-- The word of width `w` found at the start of a memory region. -/
def toWord (w : ℕ) (bs : List UInt8) : BitVec w := BitVec.ofNat w (value bs)

@[simp] theorem length_ofWord {w : ℕ} (x : BitVec w) : (ofWord x).length = w / 8 := by
  simp [ofWord]

theorem toWord_ofWord {w : ℕ} (hw : 8 ∣ w) (x : BitVec w) : toWord w (ofWord x) = x := by
  obtain ⟨n, rfl⟩ := hw
  have hn : 8 * n / 8 = n := by omega
  have hp : 256 ^ n = 2 ^ (8 * n) := by rw [pow_mul]; norm_num
  apply BitVec.eq_of_toNat_eq
  simp [toWord, ofWord, hn, hp]

/-- A packed record of numbers, each in the given number of bytes. -/
def pack : List ℕ → List ℕ → List UInt8
  | n :: ns, x :: xs => bytes n x ++ pack ns xs
  | _, _ => []

/-- The numbers of a packed record. -/
def unpack : List ℕ → List UInt8 → List ℕ
  | [], _ => []
  | n :: ns, bs => value (bs.take n) :: unpack ns (bs.drop n)

theorem length_pack {ns xs : List ℕ} (h : ns.length = xs.length) :
    (pack ns xs).length = ns.sum := by
  induction ns generalizing xs with
  | nil => cases xs <;> rfl
  | cons n ns ih =>
    cases xs with
    | nil => simp at h
    | cons x xs => simp [pack, ih (Nat.succ.inj h)]

theorem pack_append {ns xs : List ℕ} (h : ns.length = xs.length) (ms ys : List ℕ) :
    pack (ns ++ ms) (xs ++ ys) = pack ns xs ++ pack ms ys := by
  induction ns generalizing xs with
  | nil =>
    obtain rfl := List.length_eq_zero_iff.mp h.symm
    rfl
  | cons n ns ih =>
    cases xs with
    | nil => simp at h
    | cons x xs => simp [pack, ih (Nat.succ.inj h)]

theorem unpack_pack {ns xs : List ℕ} (h : List.Forall₂ (fun n x => x < 256 ^ n) ns xs)
    (rest : List UInt8) : unpack ns (pack ns xs ++ rest) = xs := by
  induction h with
  | nil => rfl
  | @cons n x ns xs hx _ ih =>
    rw [pack, unpack, List.append_assoc, List.take_left' (length_bytes n x),
      List.drop_left' (length_bytes n x), value_bytes, Nat.mod_eq_of_lt hx, ih]

end LittleEndian
