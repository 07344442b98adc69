import Mathlib.Logic.Function.Iterate

/-
  This file models the block checksums: `crc32_ieee` of the
  pack reader (crate `tt-storage`: `pack.rs`), and the
  `zlib.crc32` with a carried value that the pack writer
  (`storage/pack.py`) uses piece by piece.

  Main declarations:
    * `zlibCrc32_append`
    * `zlibCrc32_zero`
-/

namespace TensorTorrent.Checksum

----
-- The Reader's Checksum
----

/- One turn of the inner loop; the mask is 0 or all ones. -/
def bitStep (crc : UInt32) : UInt32 :=
  (crc >>> 1) ^^^ (0xEDB88320 &&& (~~~(crc &&& 1) + 1))

def byteStep (crc : UInt32) (byte : UInt8) : UInt32 :=
  bitStep^[8] (crc ^^^ byte.toUInt32)

def crc32Ieee (data : List UInt8) : UInt32 :=
  ~~~ data.foldl byteStep 0xffffffff

----
-- The Writer's Checksum
----

/- `zlib.crc32(data, value)`: goes on from `value`. -/
def zlibCrc32 (data : List UInt8) (value : UInt32) : UInt32 :=
  ~~~ data.foldl byteStep (~~~ value)

/- Pieces in a row give the checksum of the whole. -/
theorem zlibCrc32_append (first second : List UInt8) (value : UInt32) :
    zlibCrc32 second (zlibCrc32 first value) = zlibCrc32 (first ++ second) value := by
  rw [zlibCrc32, zlibCrc32, zlibCrc32, UInt32.not_not, List.foldl_append]

theorem zlibCrc32_zero (data : List UInt8) : zlibCrc32 data 0 = crc32Ieee data :=
  rfl

end TensorTorrent.Checksum
