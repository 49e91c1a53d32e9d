import Simutrace.Library.Shortening
import Simutrace.Store.Directory

/-! # The generic encoder

Segments of streams without an encoder of their own are compressed into a scratch
segment, which has the size of a segment. In front of the compressed data stand
the size of the data and the properties of the compressor. A segment whose
compressed data do not fit is discarded.
-/

namespace Simutrace.GenericEncoder

open Simtrace3 Shortening

/-- The compressor of the LZMA library. It writes the compressed data and five bytes of properties,
and gets the data back from both. -/
structure Lzma where
  compress : List UInt8 → List UInt8 × List UInt8
  uncompress : List UInt8 → List UInt8 → ℕ → Option (List UInt8)
  length_properties : ∀ source, (compress source).2.length = 5
  lossless : ∀ source,
    uncompress (compress source).1 (compress source).2 source.length = some source

def zeroRun : Lzma where
  compress source :=
    (if source = List.replicate source.length 0 then [0] else 1 :: source, List.replicate 5 0)
  uncompress data _ n := if data = [0] then some (List.replicate n 0) else some data.tail
  length_properties _ := List.length_replicate
  lossless source := by
    dsimp only
    split_ifs with hzero hone hone
    · rw [← hzero]
    · exact (hone rfl).elim
    · exact absurd (List.cons.inj hone).1 (by decide)
    · rfl

theorem compress_zeroRun_ne_nil (source : List UInt8) : (zeroRun.compress source).1 ≠ [] := by
  simp only [zeroRun]
  split_ifs <;> exact List.cons_ne_nil _ _

inductive CompressionError
  | argument (name : String)
  | exception (message : String)
  deriving DecidableEq

def totalHeaderSize : ℕ := 5 + 8

def satData : BitVec 8 := 0x00

variable (z : Lzma)

/-- The compressor fails if the compressed data do not fit behind the header. -/
def lzmaCompress (source : List UInt8) (destinationLength : ℕ) :
    Except CompressionError (List UInt8) :=
  if source.length = 0 then .error (.argument "sourceLength")
  else if destinationLength ≤ totalHeaderSize then .error (.argument "destinationLength")
  else
    let compressed := z.compress source
    if destinationLength - totalHeaderSize < compressed.1.length then
      .error (.exception "LZMA compression failed. The error code is: 7.")
    else .ok (LittleEndian.bytes 8 source.length ++ compressed.2 ++ compressed.1)

def lzmaDecompress (source : List UInt8) (destinationLength : ℕ) :
    Except CompressionError (List UInt8) :=
  if source.length ≤ totalHeaderSize then .error (.argument "sourceLength")
  else if destinationLength = 0 then .error (.argument "destinationLength")
  else
    let uncompressedSize := LittleEndian.value (source.take 8)
    if destinationLength < uncompressedSize then
      .error (.exception "The destination buffer is too small to decompress the source.")
    else
      match
        z.uncompress (source.drop totalHeaderSize) ((source.drop 8).take 5) uncompressedSize with
      | none => .error (.exception "LZMA decompression failed.")
      | some data => .ok data

variable {z} {source target : List UInt8} {n : ℕ}

theorem lzmaCompress_eq (h : lzmaCompress z source n = .ok target) :
    target = LittleEndian.bytes 8 source.length ++ (z.compress source).2 ++ (z.compress source).1 ∧
      target.length ≤ n := by
  unfold lzmaCompress at h
  dsimp only at h
  split_ifs at h with hempty hsmall hshort
  have htarget := (Except.ok.inj h).symm
  refine ⟨htarget, ?_⟩
  rw [htarget]
  simp only [List.length_append, LittleEndian.length_bytes, z.length_properties]
  unfold totalHeaderSize at hsmall hshort
  omega

theorem lzmaCompress_isOk : (lzmaCompress z source n).isOk = true ↔
    source ≠ [] ∧ totalHeaderSize < n ∧
      totalHeaderSize + (z.compress source).1.length ≤ n := by
  unfold lzmaCompress
  dsimp only
  split_ifs with hempty hsmall hshort
  · exact iff_of_false Bool.false_ne_true fun h => h.1 (List.eq_nil_of_length_eq_zero hempty)
  · exact iff_of_false Bool.false_ne_true fun h => by omega
  · exact iff_of_false Bool.false_ne_true fun h => by omega
  · refine iff_of_true rfl ⟨fun hnil => hempty (by rw [hnil]; rfl), by omega, by omega⟩

theorem lzmaCompress_ne_nil (h : lzmaCompress z source n = .ok target) : target ≠ [] := by
  rw [(lzmaCompress_eq h).1]
  exact List.ne_nil_of_length_pos (by
    simp only [List.length_append, LittleEndian.length_bytes]
    omega)

theorem lzmaDecompress_lzmaCompress {m : ℕ} (h : lzmaCompress z source n = .ok target)
    (data : (z.compress source).1 ≠ []) (word : source.length < 256 ^ 8)
    (fits : source.length ≤ m) :
    lzmaDecompress z target m = .ok source := by
  have hsource := (lzmaCompress_isOk.mp (by rw [h]; rfl)).1
  obtain ⟨rfl, -⟩ := lzmaCompress_eq h
  have hdata : 0 < (z.compress source).1.length := List.length_pos_of_ne_nil data
  have hm : 0 < m := (List.length_pos_of_ne_nil hsource).trans_le fits
  have hhead : (LittleEndian.bytes 8 source.length).length = 8 := LittleEndian.length_bytes ..
  have hprop := z.length_properties source
  have htake : (LittleEndian.bytes 8 source.length ++ (z.compress source).2 ++
      (z.compress source).1).take 8 = LittleEndian.bytes 8 source.length := by
    rw [List.append_assoc, List.take_left' hhead]
  have hdrop : (LittleEndian.bytes 8 source.length ++ (z.compress source).2 ++
      (z.compress source).1).drop 8 = (z.compress source).2 ++ (z.compress source).1 := by
    rw [List.append_assoc, List.drop_left' hhead]
  have hrest : (LittleEndian.bytes 8 source.length ++ (z.compress source).2 ++
      (z.compress source).1).drop totalHeaderSize = (z.compress source).1 :=
    List.drop_left' (by rw [List.length_append, hhead, hprop]; rfl)
  unfold lzmaDecompress
  rw [if_neg (by simp only [List.length_append, hhead, hprop, totalHeaderSize]; omega),
    if_neg (by omega), htake, hdrop, hrest, List.take_left' hprop, LittleEndian.value_bytes,
    Nat.mod_eq_of_lt word]
  dsimp only
  rw [if_neg (by omega), z.lossless]

variable (z)

def content (segment : List UInt8) (entrySize rawEntryCount : BitVec 32) : List UInt8 :=
  segment.take (entrySize * rawEntryCount).toNat

def encode (segmentSize : ℕ) (segment : List UInt8) (entrySize rawEntryCount : BitVec 32) :
    Except CompressionError Attribute :=
  let source := content segment entrySize rawEntryCount
  match h : lzmaCompress z source segmentSize with
  | .error e => .error e
  | .ok target => .ok ⟨satData, .ofNat 64 source.length, target, lzmaCompress_ne_nil h⟩

/-- The attribute that is written to the store. If the encoding throws an exception, the data are
discarded. -/
def writerMain (segmentSize : ℕ) (segment : List UInt8) (entrySize rawEntryCount : BitVec 32) :
    Option Attribute :=
  (encode z segmentSize segment entrySize rawEntryCount).toOption

/-- A segment with entries is not discarded. -/
def Keeps (segmentSize : ℕ) (segment : List UInt8) (entrySize rawEntryCount : BitVec 32) : Prop :=
  content segment entrySize rawEntryCount ≠ [] →
    (writerMain z segmentSize segment entrySize rawEntryCount).isSome

variable {z} {segmentSize : ℕ} {segment : List UInt8} {entrySize rawEntryCount : BitVec 32}

theorem writerMain_isSome : (writerMain z segmentSize segment entrySize rawEntryCount).isSome ↔
    (lzmaCompress z (content segment entrySize rawEntryCount) segmentSize).isOk = true := by
  unfold writerMain encode
  dsimp only
  split
  · rename_i h
    exact iff_of_false Bool.false_ne_true (by simp [h, Except.isOk, Except.toBool])
  · rename_i h
    exact iff_of_true rfl (by simp [h, Except.isOk, Except.toBool])

/-- A segment is kept if and only if its compressed data fit into a segment behind the header. -/
theorem keeps_iff : Keeps z segmentSize segment entrySize rawEntryCount ↔
    content segment entrySize rawEntryCount = [] ∨ totalHeaderSize < segmentSize ∧
      totalHeaderSize + (z.compress (content segment entrySize rawEntryCount)).1.length ≤
        segmentSize := by
  unfold Keeps
  rw [writerMain_isSome, lzmaCompress_isOk]
  tauto

theorem finite_byte : Finite UInt8 :=
  Finite.of_injective UInt8.toFin fun _ _ h => UInt8.toFin_inj.mp h

/-- Whatever the compressor is, for each size there are data that it cannot fit into a segment. -/
theorem exists_not_fitting (z : Lzma) (n : ℕ) :
    ∃ source, source.length = n ∧ n < totalHeaderSize + (z.compress source).1.length := by
  have := finite_byte
  have : Nontrivial UInt8 := ⟨0, 1, by decide⟩
  have hinjective (s t : List UInt8) (hs : s.length = n) (ht : t.length = n)
      (heq : (z.compress s).2 ++ (z.compress s).1 = (z.compress t).2 ++ (z.compress t).1) :
      s = t := by
    obtain ⟨hproperties, hdata⟩ := List.append_inj heq
      ((z.length_properties s).trans (z.length_properties t).symm)
    have hlossless := z.lossless s
    rw [hdata, hproperties, hs, ← ht, z.lossless t] at hlossless
    exact (Option.some.inj hlossless).symm
  obtain ⟨source, hlength, hle⟩ := exists_le_length
    (fun source => (z.compress source).2 ++ (z.compress source).1) hinjective
  refine ⟨source, hlength, ?_⟩
  rw [List.length_append, z.length_properties] at hle
  unfold totalHeaderSize
  omega

/-- No compressor lets the encoder keep all full segments of 64 MiB. -/
theorem not_keeps_full : ¬ ∃ z : Lzma, ∀ segment : List UInt8, segment.length = 64 * 2 ^ 20 →
    Keeps z (64 * 2 ^ 20) segment 1 (.ofNat 32 (64 * 2 ^ 20)) := by
  rintro ⟨z, hall⟩
  obtain ⟨segment, hlength, hlong⟩ := exists_not_fitting z (64 * 2 ^ 20)
  have hcontent : content segment 1 (.ofNat 32 (64 * 2 ^ 20)) = segment := by
    rw [content, List.take_of_length_le]
    rw [hlength]
    decide
  have hkeeps := hall segment hlength
  unfold Keeps at hkeeps
  rw [hcontent, writerMain_isSome, lzmaCompress_isOk, hcontent] at hkeeps
  have hne : segment ≠ [] := List.ne_nil_of_length_pos (by omega)
  exact absurd (hkeeps hne).2.2 (not_le.mpr hlong)

end Simutrace.GenericEncoder
