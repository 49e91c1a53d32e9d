import Mathlib.Data.List.Basic

/-! # The hash MurmurHash3

The 32-bit version for x86. The bytes are mixed in blocks of four; what is left
of them forms a last block without a rotation of the state.
-/

namespace MurmurHash3

def mixBlock (k : BitVec 32) : BitVec 32 := (k * 0xcc9e2d51).rotateLeft 15 * 0x1b873593

def fmix32 (h : BitVec 32) : BitVec 32 :=
  let h := (h ^^^ h >>> 16) * 0x85ebca6b
  let h := (h ^^^ h >>> 13) * 0xc2b2ae35
  h ^^^ h >>> 16

def word (bytes : List UInt8) : BitVec 32 :=
  bytes.foldr (fun byte k => k <<< 8 ||| byte.toBitVec.setWidth 32) 0

def body (h : BitVec 32) : List UInt8 → BitVec 32
  | a :: b :: c :: d :: rest => body ((h ^^^ mixBlock (word [a, b, c, d])).rotateLeft 13 * 5
      + 0xe6546b64) rest
  | [] => h
  | tail => h ^^^ mixBlock (word tail)

def hash32 (seed : BitVec 32) (bytes : List UInt8) : BitVec 32 :=
  fmix32 (body seed bytes ^^^ BitVec.ofNat 32 bytes.length)

example : hash32 0 [104, 101, 108, 108, 111] = 0x248bfa47 := by decide

end MurmurHash3
