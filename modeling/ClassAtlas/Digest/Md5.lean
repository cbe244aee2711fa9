/-!
# The MD5 digest

Message digests of 128 bits, written in hexadecimal. A message is padded to
whole blocks of 64 bytes, and each block takes the four state words through 64
steps.
-/

namespace ClassAtlas.Digest

/-- The four state words. -/
structure Words where
  a : UInt32
  b : UInt32
  c : UInt32
  d : UInt32
  deriving DecidableEq, Repr

/-- The state before the first block. -/
def initialWords : Words :=
  ⟨0x67452301, 0xefcdab89, 0x98badcfe, 0x10325476⟩

/-- The constants added in the 64 steps. -/
def stepConstants : Array UInt32 := #[
  0xd76aa478, 0xe8c7b756, 0x242070db, 0xc1bdceee, 0xf57c0faf, 0x4787c62a, 0xa8304613, 0xfd469501,
  0x698098d8, 0x8b44f7af, 0xffff5bb1, 0x895cd7be, 0x6b901122, 0xfd987193, 0xa679438e, 0x49b40821,
  0xf61e2562, 0xc040b340, 0x265e5a51, 0xe9b6c7aa, 0xd62f105d, 0x02441453, 0xd8a1e681, 0xe7d3fbc8,
  0x21e1cde6, 0xc33707d6, 0xf4d50d87, 0x455a14ed, 0xa9e3e905, 0xfcefa3f8, 0x676f02d9, 0x8d2a4c8a,
  0xfffa3942, 0x8771f681, 0x6d9d6122, 0xfde5380c, 0xa4beea44, 0x4bdecfa9, 0xf6bb4b60, 0xbebfbc70,
  0x289b7ec6, 0xeaa127fa, 0xd4ef3085, 0x04881d05, 0xd9d4d039, 0xe6db99e5, 0x1fa27cf8, 0xc4ac5665,
  0xf4292244, 0x432aff97, 0xab9423a7, 0xfc93a039, 0x655b59c3, 0x8f0ccc92, 0xffeff47d, 0x85845dd1,
  0x6fa87e4f, 0xfe2ce6e0, 0xa3014314, 0x4e0811a1, 0xf7537e82, 0xbd3af235, 0x2ad7d2bb, 0xeb86d391]

/-- The four rotations that each round of 16 steps uses in turn. -/
def rotations : Array UInt32 := #[
  7, 12, 17, 22,
  5, 9, 14, 20,
  4, 11, 16, 23,
  6, 10, 15, 21]

/-- A word rotated to the left by `n` bits, where `0 < n < 32`. -/
def rotateLeft (x n : UInt32) : UInt32 :=
  (x <<< n) ||| (x >>> (32 - n))

/-- The state after step `i` on the 16 words of a block. -/
def step (block : Array UInt32) (state : Words) (i : Nat) : Words :=
  let ⟨a, b, c, d⟩ := state
  let (mixed, index) :=
    match i / 16 with
    | 0 => ((b &&& c) ||| (~~~b &&& d), i)
    | 1 => ((d &&& b) ||| (~~~d &&& c), (5 * i + 1) % 16)
    | 2 => (b ^^^ c ^^^ d, (3 * i + 5) % 16)
    | _ => (c ^^^ (b ||| ~~~d), (7 * i) % 16)
  let sum := a + mixed + stepConstants.getD i 0 + block.getD index 0
  ⟨d, b + rotateLeft sum (rotations.getD (i / 16 * 4 + i % 4) 0), b, c⟩

/-- The state after a block of 16 words. -/
def absorb (state : Words) (block : Array UInt32) : Words :=
  let last := (List.range 64).foldl (step block) state
  ⟨state.a + last.a, state.b + last.b, state.c + last.c, state.d + last.d⟩

/-- The `n` bytes of a number, the lowest first. -/
def littleEndian : Nat → Nat → List UInt8
  | 0, _ => []
  | n + 1, x => UInt8.ofNat x :: littleEndian n (x / 256)

/-- A message padded to whole blocks: one bit, zeros, and the length in bits. -/
def pad (message : List UInt8) : List UInt8 :=
  let zeros := (119 - message.length % 64) % 64
  message ++ 0x80 :: List.replicate zeros 0 ++ littleEndian 8 (message.length * 8)

/-- The words of a message, four bytes each, the lowest first. -/
def toWords : List UInt8 → List UInt32
  | b₀ :: b₁ :: b₂ :: b₃ :: rest =>
    (b₀.toUInt32 ||| (b₁.toUInt32 <<< 8) ||| (b₂.toUInt32 <<< 16) |||
      (b₃.toUInt32 <<< 24)) :: toWords rest
  | _ => []

/-- The words of a message in blocks of 16, of which there are `n`. -/
def toBlocks : Nat → List UInt32 → List (Array UInt32)
  | 0, _ => []
  | n + 1, ws => (ws.take 16).toArray :: toBlocks n (ws.drop 16)

/-- The final state for a message. -/
def finalWords (message : List UInt8) : Words :=
  let ws := toWords (pad message)
  (toBlocks (ws.length / 16) ws).foldl absorb initialWords

/-- A byte as two hexadecimal digits. -/
def hexByte (b : UInt8) : List Char :=
  [Nat.digitChar (b.toNat / 16), Nat.digitChar (b.toNat % 16)]

/-- The digest of a text in UTF-8, in lower-case hexadecimal. -/
def md5 (text : String) : String :=
  let ⟨a, b, c, d⟩ := finalWords text.toUTF8.data.toList
  String.ofList ([a, b, c, d].flatMap fun w => (littleEndian 4 w.toNat).flatMap hexByte)

end ClassAtlas.Digest
