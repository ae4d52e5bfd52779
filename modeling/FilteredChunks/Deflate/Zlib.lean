import FilteredChunks.Deflate.Compress

/-!
# The framing of a compressed stream

A compressed stream stands between a header of two bytes, of which the second makes the pair a
multiple of 31, and the Adler-32 checksum of its contents, most significant byte first.  What comes
after the checksum is ignored.
-/

namespace FilteredChunks.Deflate

/-- The two sums of the Adler-32 checksum, modulo 65521. -/
def adlerSums (bytes : Bytes) : Nat × Nat :=
  bytes.foldl (fun (a, b) byte =>
    let a := (a + byte.toNat) % 65521
    (a, (b + a) % 65521)) (1, 0)

/-- The Adler-32 checksum. -/
def adler32 (bytes : Bytes) : Nat :=
  let (a, b) := adlerSums bytes
  b * 65536 + a

/-- The header for a level. -/
def zlibHeader (level : Nat) : Bytes :=
  [0x78, if level ≤ 1 then 0x01 else if level ≤ 5 then 0x5e else if level = 6 then 0x9c else 0xda]

/-- A header names the deflate method, a window of at most 32 KiB and no preset dictionary. -/
def isZlibHeader (method flags : UInt8) : Bool :=
  (method.toNat * 256 + flags.toNat) % 31 == 0 && method.toNat % 16 == 8 &&
    decide (method.toNat / 16 ≤ 7) && !flags.toNat.testBit 5

/-- Compresses and frames bytes. -/
def zlibCompress (level : Nat) (bytes : Bytes) : Bytes :=
  zlibHeader level ++ deflate level bytes ++ (Bytes.littleEndian 4 (adler32 bytes)).reverse

/-- The contents of a framed stream, if it is complete and keeps all rules. -/
def zlibExpand (bytes : Bytes) : Option Bytes :=
  match bytes with
  | method :: flags :: rest =>
    if isZlibHeader method flags then
      (inflateBlocks (.ofBytes rest) #[]).bind fun (out, c) =>
        (c.align.takeBytes 4).bind fun (sum, _) =>
          let contents := out.toList
          if Bytes.fromLittleEndian sum.reverse = adler32 contents then some contents else none
    else none
  | _ => none

end FilteredChunks.Deflate
