import Stencil.Text.Quoted

/-!
# SHA-1

The digest that names a text by its content: 160 bits, written as forty digits of base sixteen. The
message is padded to whole blocks of sixteen big-endian words, each block is stretched to eighty
words, and eighty rounds mix them into five chaining words.
-/

namespace Stencil.Digest

/-- The five chaining words. -/
structure Chain where
  a : UInt32
  b : UInt32
  c : UInt32
  d : UInt32
  e : UInt32
deriving DecidableEq, Repr

/-- The chaining words before the first block. -/
def Chain.start : Chain := ⟨0x67452301, 0xEFCDAB89, 0x98BADCFE, 0x10325476, 0xC3D2E1F0⟩

/-- The word turned left by `n` bits. -/
def turn (x : UInt32) (n : UInt32) : UInt32 := (x <<< n) ||| (x >>> (32 - n))

/-- The last `n` bytes of a number, most significant first. -/
def bytesOf : Nat → Nat → List UInt8
  | 0, _ => []
  | n + 1, x => bytesOf n (x / 256) ++ [UInt8.ofNat (x % 256)]

/-- The message, a one bit, zeros up to eight bytes short of a whole block, and the length of the
message in bits. -/
def padded (message : List UInt8) : List UInt8 :=
  let size := message.length
  message ++ [0x80] ++ List.replicate ((119 - size % 64) % 64) 0 ++ bytesOf 8 (8 * size)

/-- Four bytes at a time, as big-endian words. -/
def wordsOf : List UInt8 → List UInt32
  | a :: b :: c :: d :: rest =>
    ((a.toUInt32 <<< 24) ||| (b.toUInt32 <<< 16) ||| (c.toUInt32 <<< 8) ||| d.toUInt32) ::
      wordsOf rest
  | _ => []

/-- The next word of a block's schedule: the exclusive or of four earlier ones, turned by one. -/
def stretch (schedule : Array UInt32) : Array UInt32 :=
  let n := schedule.size
  schedule.push <| turn
    (schedule.getD (n - 3) 0 ^^^ schedule.getD (n - 8) 0 ^^^ schedule.getD (n - 14) 0 ^^^
      schedule.getD (n - 16) 0) 1

/-- The mixing function and constant of a round. -/
def mix (round : Nat) (b c d : UInt32) : UInt32 × UInt32 :=
  if round < 20 then ((b &&& c) ||| ((b ^^^ 0xFFFFFFFF) &&& d), 0x5A827999)
  else if round < 40 then (b ^^^ c ^^^ d, 0x6ED9EBA1)
  else if round < 60 then ((b &&& c) ||| (b &&& d) ||| (c &&& d), 0x8F1BBCDC)
  else (b ^^^ c ^^^ d, 0xCA62C1D6)

/-- One round. -/
def Chain.round (h : Chain) (round : Nat) (word : UInt32) : Chain :=
  let (f, k) := mix round h.b h.c h.d
  ⟨turn h.a 5 + f + h.e + k + word, h.a, turn h.b 30, h.c, h.d⟩

/-- One block of sixteen words. -/
def Chain.block (h : Chain) (block : List UInt32) : Chain :=
  let schedule := (List.range 64).foldl (fun s _ => stretch s) block.toArray
  let r := (List.range 80).foldl (fun r i => r.round i (schedule.getD i 0)) h
  ⟨h.a + r.a, h.b + r.b, h.c + r.c, h.d + r.d, h.e + r.e⟩

/-- All blocks of a message in words; `fuel` bounds their number. -/
def Chain.blocks : Nat → Chain → List UInt32 → Chain
  | 0, h, _ => h
  | fuel + 1, h, words =>
    if words.isEmpty then h else Chain.blocks fuel (h.block (words.take 16)) (words.drop 16)

/-- The digest of a text in UTF-8, in base sixteen. -/
def sha1 (text : String) : String :=
  let words := wordsOf (padded text.toUTF8.toList)
  let h := Chain.blocks words.length .start words
  String.ofList ([h.a, h.b, h.c, h.d, h.e].flatMap fun w => Text.hex 8 w.toNat)

end Stencil.Digest
