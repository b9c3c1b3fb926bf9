/-!
# Reading bytes as text

`decodeLossy` reads bytes as UTF-8. Each longest ill-formed part, a lead byte with the
continuations that could still have completed it, gives one replacement character.
-/

namespace FeedFiler.Text

/-- What a lead byte promises: how many continuation bytes follow it, the bounds of the first of
them, and the bits that it carries itself. -/
structure Lead where
  count : Nat
  low : UInt8
  high : UInt8
  bits : Nat

/-- The promise of a lead byte of two, three or four bytes. The bounds keep out overlong forms,
surrogates, and numbers above U+10FFFF. -/
def Lead.ofByte? (b : UInt8) : Option Lead :=
  if 0xC2 ≤ b && b ≤ 0xDF then some ⟨1, 0x80, 0xBF, b.toNat - 0xC0⟩
  else if b == 0xE0 then some ⟨2, 0xA0, 0xBF, 0⟩
  else if b == 0xED then some ⟨2, 0x80, 0x9F, 0xD⟩
  else if 0xE1 ≤ b && b ≤ 0xEF then some ⟨2, 0x80, 0xBF, b.toNat - 0xE0⟩
  else if b == 0xF0 then some ⟨3, 0x90, 0xBF, 0⟩
  else if 0xF1 ≤ b && b ≤ 0xF3 then some ⟨3, 0x80, 0xBF, b.toNat - 0xF0⟩
  else if b == 0xF4 then some ⟨3, 0x80, 0x8F, 4⟩
  else none

/-- The continuations that follow a lead byte, at most as many as it promises. -/
def Lead.continuations (lead : Lead) : List UInt8 → List UInt8
  | [] => []
  | b :: rest =>
    if lead.low ≤ b && b ≤ lead.high then
      b :: (rest.take (lead.count - 1)).takeWhile fun c => 0x80 ≤ c && c ≤ 0xBF
    else []

/-- The character of a lead byte and its continuations. -/
def Lead.char (lead : Lead) (tail : List UInt8) : Char :=
  Char.ofNat (tail.foldl (fun n b => n * 64 + (b.toNat - 0x80)) lead.bits)

/-- The text of some bytes, with U+FFFD for each longest ill-formed part. -/
def decodeLossy : List UInt8 → List Char
  | [] => []
  | b :: rest =>
    if b < 0x80 then Char.ofNat b.toNat :: decodeLossy rest
    else match Lead.ofByte? b with
      | none => '\uFFFD' :: decodeLossy rest
      | some lead =>
        let tail := lead.continuations rest
        let c := if tail.length = lead.count then lead.char tail else '\uFFFD'
        c :: decodeLossy (rest.drop tail.length)
termination_by bytes => bytes.length
decreasing_by all_goals (simp_wf; try omega)

/-- The text of some bytes, if they are well-formed UTF-8. -/
def decode? (bytes : ByteArray) : Option String := String.fromUTF8? bytes

example : decodeLossy [0x61, 0xE2, 0x98, 0x83] = ['a', '☃'] := by decide +kernel
example : decodeLossy [0xE2, 0x98, 0x41, 0xC0, 0x80] =
    ['\uFFFD', 'A', '\uFFFD', '\uFFFD'] := by decide +kernel

end FeedFiler.Text
