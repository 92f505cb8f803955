/-
UTF-8: what a byte string says as text.

`leading` reads one step off the front of a byte string: a character, or the
longest run of bytes that could still have begun one. The lossy reading
(`lossy`) puts the replacement character for each such run; the strict one
(`strict?`) refuses the string.
-/
import CombLexer.Bytes

namespace CombLexer.Utf8

def isTail (b : UInt8) : Bool := 0x80 ≤ b && b ≤ 0xBF

/-- The range of the second byte of a three-byte character that starts with `lead`. -/
def isSecondOfThree (lead b : UInt8) : Bool :=
  if lead = 0xE0 then 0xA0 ≤ b && b ≤ 0xBF
  else if lead = 0xED then 0x80 ≤ b && b ≤ 0x9F
  else isTail b

/-- The range of the second byte of a four-byte character that starts with `lead`. -/
def isSecondOfFour (lead b : UInt8) : Bool :=
  if lead = 0xF0 then 0x90 ≤ b && b ≤ 0xBF
  else if lead = 0xF4 then 0x80 ≤ b && b ≤ 0x8F
  else isTail b

/-- The six low bits of a byte that continues a character. -/
def payload (b : UInt8) : Nat := b.toNat % 64

/-- One step off the front of `lead :: rest`: the character there, or `none` for the longest
run of bytes that begins no complete character; and what is left behind it. -/
def leading (lead : UInt8) (rest : Bytes) : Option Char × Bytes :=
  if lead < 0x80 then (some (Char.ofNat lead.toNat), rest)
  else if 0xC2 ≤ lead && lead ≤ 0xDF then
    match rest with
    | b :: rest' =>
      if isTail b then (some (Char.ofNat ((lead.toNat - 0xC0) * 64 + payload b)), rest')
      else (none, rest)
    | [] => (none, rest)
  else if 0xE0 ≤ lead && lead ≤ 0xEF then
    match rest with
    | b :: rest' =>
      if isSecondOfThree lead b then
        match rest' with
        | c :: rest'' =>
          if isTail c then
            (some (Char.ofNat ((lead.toNat - 0xE0) * 4096 + payload b * 64 + payload c)), rest'')
          else (none, rest')
        | [] => (none, rest')
      else (none, rest)
    | [] => (none, rest)
  else if 0xF0 ≤ lead && lead ≤ 0xF4 then
    match rest with
    | b :: rest' =>
      if isSecondOfFour lead b then
        match rest' with
        | c :: rest'' =>
          if isTail c then
            match rest'' with
            | d :: rest''' =>
              if isTail d then
                (some (Char.ofNat ((lead.toNat - 0xF0) * 262144 + payload b * 4096
                  + payload c * 64 + payload d)), rest''')
              else (none, rest'')
            | [] => (none, rest'')
          else (none, rest')
        | [] => (none, rest')
      else (none, rest)
    | [] => (none, rest)
  else (none, rest)

theorem length_leading_le (lead : UInt8) (rest : Bytes) :
    (leading lead rest).2.length ≤ rest.length := by
  unfold leading
  repeat' split
  all_goals simp only [List.length_cons]; omega

/-- The text of a byte string, with the replacement character for what is no character. -/
def lossy : Bytes → List Char
  | [] => []
  | lead :: rest =>
    have := length_leading_le lead rest
    ((leading lead rest).1.getD '\uFFFD') :: lossy (leading lead rest).2
  termination_by bytes => bytes.length
  decreasing_by simp; omega

/-- The text of a byte string that is well-formed throughout. -/
def strict? : Bytes → Option (List Char)
  | [] => some []
  | lead :: rest =>
    have := length_leading_le lead rest
    match (leading lead rest).1 with
    | some c => (strict? (leading lead rest).2).map (c :: ·)
    | none => none
  termination_by bytes => bytes.length
  decreasing_by simp; omega

def encode (text : List Char) : Bytes := text.flatMap String.utf8EncodeChar

end CombLexer.Utf8
