import TrashClear.Java.Text
import Mathlib.Data.List.Infix

/-!
# Gzip streams

`GZIPOutputStream` and `GZIPInputStream` share a format: what is written in pieces is read
in pieces, and a stream that was cut off is read up to some point and then throws.
`GzipFormat` states this and no more.

`storedGzip` is the format with stored blocks of one byte each, which the input stream
accepts as any other: a header of ten bytes, the blocks, an empty last block, and the
checksum and the length of the data.
-/

namespace Java

/-- A gzip format. -/
structure GzipFormat where
  /-- The stream of these writes, when it has been closed. -/
  compress : List (List UInt8) → List UInt8
  /-- A `GZIPInputStream` can be made: the header is accepted. -/
  opens : List UInt8 → Bool
  /-- What its reads return in turn, and whether the end of the stream is reached. -/
  reads : List UInt8 → List (List UInt8) × Bool
  opens_compress : ∀ ps, opens (compress ps) = true
  flatten_reads : ∀ ps, (reads (compress ps)).1.flatten = ps.flatten
  reads_ends : ∀ ps, (reads (compress ps)).2 = true
  flatten_reads_cut : ∀ ps stream, stream <+: compress ps →
    (reads stream).1.flatten <+: ps.flatten
  reads_cut : ∀ ps stream, stream <+: compress ps → (reads stream).2 = true →
    stream = compress ps

namespace GzipFormat

variable (gzip : GzipFormat)

/-- The data of a stream that is accepted and read to its end. -/
def unpack (stream : List UInt8) : Option (List UInt8) :=
  if gzip.opens stream && (gzip.reads stream).2 then some (gzip.reads stream).1.flatten else none

/-- A stream that was cut off cannot be unpacked. -/
theorem unpack_cut {ps : List (List UInt8)} {stream data : List UInt8}
    (h : stream <+: gzip.compress ps) (hdata : gzip.unpack stream = some data) :
    stream = gzip.compress ps ∧ data = ps.flatten := by
  unfold unpack at hdata
  by_cases hread : gzip.opens stream && (gzip.reads stream).2
  · rw [if_pos hread, Option.some.injEq] at hdata
    obtain rfl := gzip.reads_cut ps stream h (Bool.and_eq_true_iff.mp hread).2
    exact ⟨rfl, hdata ▸ gzip.flatten_reads ps⟩
  · rw [if_neg hread] at hdata
    cases hdata

end GzipFormat

/-! ## Stored blocks -/

/-- Eight steps of the checksum. -/
def crcByte (crc : UInt32) (b : UInt8) : UInt32 :=
  (List.range 8).foldl
    (fun crc _ => if crc &&& 1 = 1 then (crc >>> 1) ^^^ 0xEDB88320 else crc >>> 1)
    (crc ^^^ b.toUInt32)

def crc32 (data : List UInt8) : UInt32 := data.foldl crcByte 0xFFFFFFFF ^^^ 0xFFFFFFFF

/-- Four bytes, the lowest first. -/
def littleEndian (u : UInt32) : List UInt8 :=
  [u.toUInt8, (u >>> 8).toUInt8, (u >>> 16).toUInt8, (u >>> 24).toUInt8]

/-- The header that `GZIPOutputStream` writes. -/
def gzipHeader : List UInt8 := [0x1F, 0x8B, 8, 0, 0, 0, 0, 0, 0, 0]

/-- The checksum and the length. -/
def gzipTrailer (data : List UInt8) : List UInt8 :=
  littleEndian (crc32 data) ++ littleEndian (UInt32.ofNat data.length)

/-- Stored blocks of one byte, and what comes behind the data. -/
def storedBlocks (data : List UInt8) : List UInt8 → List UInt8
  | [] => 0x01 :: 0x00 :: 0x00 :: 0xFF :: 0xFF :: gzipTrailer data
  | b :: rest => 0x00 :: 0x01 :: 0x00 :: 0xFE :: 0xFF :: b :: storedBlocks data rest

/-- Read stored blocks, when `data` has been read. -/
def readBlocks (data : List UInt8) : List UInt8 → List (List UInt8) × Bool
  | 0x00 :: 0x01 :: 0x00 :: 0xFE :: 0xFF :: b :: rest =>
      let (pieces, ended) := readBlocks (data ++ [b]) rest
      ([b] :: pieces, ended)
  | stream => ([], stream == 0x01 :: 0x00 :: 0x00 :: 0xFF :: 0xFF :: gzipTrailer data)

theorem readBlocks_block (data : List UInt8) (b : UInt8) (rest : List UInt8) :
    readBlocks data (0x00 :: 0x01 :: 0x00 :: 0xFE :: 0xFF :: b :: rest) =
      ([b] :: (readBlocks (data ++ [b]) rest).1, (readBlocks (data ++ [b]) rest).2) := rfl

theorem readBlocks_storedBlocks (data rest : List UInt8) :
    readBlocks data (storedBlocks (data ++ rest) rest) = (rest.map fun b => [b], true) := by
  induction rest generalizing data with
  | nil =>
      rw [List.append_nil]
      simp [storedBlocks, readBlocks]
  | cons b rest ih =>
      have h := ih (data ++ [b])
      rw [List.append_assoc, List.singleton_append] at h
      rw [storedBlocks, readBlocks_block, h]
      rfl

/-- Only a block is read as one. -/
theorem readBlocks_cases (data stream : List UInt8) :
    (∃ b rest, stream = 0x00 :: 0x01 :: 0x00 :: 0xFE :: 0xFF :: b :: rest) ∨
      readBlocks data stream =
        ([], stream == 0x01 :: 0x00 :: 0x00 :: 0xFF :: 0xFF :: gzipTrailer data) := by
  unfold readBlocks
  split
  · exact Or.inl ⟨_, _, rfl⟩
  · exact Or.inr rfl

/-- What is read of blocks that were cut off. -/
theorem readBlocks_cut {data rest stream : List UInt8}
    (h : stream <+: storedBlocks (data ++ rest) rest) :
    (readBlocks data stream).1.flatten <+: rest ∧
      ((readBlocks data stream).2 = true → stream = storedBlocks (data ++ rest) rest) := by
  induction rest generalizing data stream with
  | nil =>
      rw [List.append_nil, storedBlocks] at h ⊢
      rcases readBlocks_cases data stream with ⟨b, rest, rfl⟩ | hlast
      · simp at h
      · rw [hlast]
        exact ⟨List.prefix_rfl, fun hends => beq_iff_eq.mp hends⟩
  | cons b rest ih =>
      rw [storedBlocks] at h ⊢
      rcases readBlocks_cases data stream with ⟨b', rest', rfl⟩ | hlast
      · simp only [List.cons_prefix_cons, true_and] at h
        obtain ⟨rfl, htail⟩ := h
        have hsplit : data ++ b' :: rest = data ++ [b'] ++ rest := by simp
        rw [hsplit] at htail ⊢
        obtain ⟨hdata, hends⟩ := ih htail
        rw [readBlocks_block]
        refine ⟨?_, fun hends' => by rw [hends hends']⟩
        rw [List.flatten_cons, List.singleton_append]
        exact List.cons_prefix_cons.mpr ⟨rfl, hdata⟩
      · rw [hlast]
        refine ⟨List.nil_prefix, fun hends => ?_⟩
        rw [beq_iff_eq.mp hends] at h
        simp at h

theorem take_header (blocks : List UInt8) : (gzipHeader ++ blocks).take 10 = gzipHeader := rfl

theorem drop_header (blocks : List UInt8) : (gzipHeader ++ blocks).drop 10 = blocks := rfl

/-- A stream that was cut off behind its header is cut off in its blocks. -/
theorem drop_cut {stream blocks : List UInt8} (h : stream <+: gzipHeader ++ blocks) :
    stream.drop 10 <+: blocks := by
  have hdrop := List.IsPrefix.drop h 10
  rwa [drop_header] at hdrop

/-- All blocks are only in the whole stream. -/
theorem eq_of_drop_eq {stream blocks : List UInt8} (h : stream <+: gzipHeader ++ blocks)
    (hblocks : blocks ≠ []) (hdrop : stream.drop 10 = blocks) : stream = gzipHeader ++ blocks := by
  have hlong : 10 ≤ stream.length := by
    have hpos := List.length_pos_of_ne_nil (hdrop.symm ▸ hblocks)
    rw [List.length_drop] at hpos
    omega
  have htake := List.prefix_iff_eq_take.mp ((List.take_prefix 10 stream).trans h)
  rw [List.length_take, Nat.min_eq_left hlong, take_header] at htake
  rw [← List.take_append_drop 10 stream, htake, hdrop]

theorem storedBlocks_ne_nil (data rest : List UInt8) : storedBlocks data rest ≠ [] := by
  cases rest <;> simp [storedBlocks]

/-- The streams with stored blocks. -/
def storedGzip : GzipFormat where
  compress ps := gzipHeader ++ storedBlocks ps.flatten ps.flatten
  opens stream := stream.take 10 == gzipHeader
  reads stream := readBlocks [] (stream.drop 10)
  opens_compress ps := by rw [take_header, beq_self_eq_true]
  flatten_reads ps := by
    have hread := readBlocks_storedBlocks [] ps.flatten
    rw [List.nil_append] at hread
    rw [drop_header, hread, ← List.flatMap_def, List.flatMap_singleton']
  reads_ends ps := by
    have hread := readBlocks_storedBlocks [] ps.flatten
    rw [List.nil_append] at hread
    rw [drop_header, hread]
  flatten_reads_cut ps stream h := (readBlocks_cut (drop_cut h)).1
  reads_cut ps stream h hends :=
    eq_of_drop_eq h (storedBlocks_ne_nil _ _) ((readBlocks_cut (drop_cut h)).2 hends)

end Java
