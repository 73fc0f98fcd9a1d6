set_option autoImplicit false

/-!
Decoding of bytes as UTF-8 with replacement: every longest piece that could begin a character but
does not complete one becomes a single replacement character.
-/

namespace AutoloadIndex.Text

def replacement : Char := '\uFFFD'

def isTail (b : UInt8) : Bool := 0x80 ≤ b && b ≤ 0xBF

def opensThree (lead second : UInt8) : Bool :=
  if lead == 0xE0 then 0xA0 ≤ second && second ≤ 0xBF
  else if lead == 0xED then 0x80 ≤ second && second ≤ 0x9F
  else 0xE1 ≤ lead && lead ≤ 0xEF && isTail second

def opensFour (lead second : UInt8) : Bool :=
  if lead == 0xF0 then 0x90 ≤ second && second ≤ 0xBF
  else if lead == 0xF4 then 0x80 ≤ second && second ≤ 0x8F
  else 0xF1 ≤ lead && lead ≤ 0xF3 && isTail second

def tailBits (b : UInt8) : Nat := b.toNat % 64

def twoBytes (a b : UInt8) : Char := Char.ofNat (a.toNat % 32 * 64 + tailBits b)

def threeBytes (a b c : UInt8) : Char :=
  Char.ofNat (a.toNat % 16 * 4096 + tailBits b * 64 + tailBits c)

def fourBytes (a b c d : UInt8) : Char :=
  Char.ofNat (a.toNat % 8 * 262144 + tailBits b * 4096 + tailBits c * 64 + tailBits d)

/-- Text of a file whose bytes need not be valid UTF-8. -/
def decode : List UInt8 → List Char
  | [] => []
  | [a] => [if a < 0x80 then Char.ofNat a.toNat else replacement]
  | a :: b :: rest =>
    if a < 0x80 then Char.ofNat a.toNat :: decode (b :: rest)
    else if 0xC2 ≤ a && a ≤ 0xDF && isTail b then twoBytes a b :: decode rest
    else if opensThree a b then
      match rest with
      | [] => [replacement]
      | c :: more =>
        if isTail c then threeBytes a b c :: decode more else replacement :: decode (c :: more)
    else if opensFour a b then
      match rest with
      | [] => [replacement]
      | [c] => if isTail c then [replacement] else replacement :: decode [c]
      | c :: d :: more =>
        if !isTail c then replacement :: decode (c :: d :: more)
        else if isTail d then fourBytes a b c d :: decode more
        else replacement :: decode (d :: more)
    else replacement :: decode (b :: rest)

end AutoloadIndex.Text
