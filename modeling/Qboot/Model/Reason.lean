import Mathlib.Data.UInt
/-!
# Reason numbers

`qbt_reason_parse_u32` of `qboot_update.c`.  A string is the list of its bytes before
the terminating zero, and no pointer is null.
-/

namespace Qboot

/-- The value of the character `c`, by the range that it lies in. -/
def reasonDigit (base : UInt8) (c : UInt8) : Option UInt32 :=
  if '0'.toUInt8 ≤ c ∧ c ≤ '9'.toUInt8 then
    some (c - '0'.toUInt8).toUInt32
  else if base = 16 ∧ 'a'.toUInt8 ≤ c ∧ c ≤ 'f'.toUInt8 then
    some ((c - 'a'.toUInt8).toUInt32 + 10)
  else if base = 16 ∧ 'A'.toUInt8 ≤ c ∧ c ≤ 'F'.toUInt8 then
    some ((c - 'A'.toUInt8).toUInt32 + 10)
  else none

/-- One round of the loop, which leaves the function on a bad character and
before the result would overflow. -/
def reasonParseStep (base : UInt8) (result : UInt32) (c : UInt8) : Option UInt32 :=
  match reasonDigit base c with
  | none => none
  | some digit =>
      if base.toUInt32 ≤ digit then none
      else if base = 16 then
        if result > 0x0FFFFFFF then none
        else some ((result <<< 4) ||| digit)
      else if result > 429496729 ∨ (result = 429496729 ∧ digit > 5) then none
      else some (result * 10 + digit)

/-- The base, and the characters that the loop looks at. -/
def reasonBase : List UInt8 → UInt8 × List UInt8
  | c :: x :: p =>
      if c = '0'.toUInt8 ∧ (x = 'x'.toUInt8 ∨ x = 'X'.toUInt8) then (16, p)
      else (10, c :: x :: p)
  | p => (10, p)

/-- `qbt_reason_parse_u32`; the second result is what `*value` holds. -/
def reasonParseU32 (text : List UInt8) (value : UInt32) : Bool × UInt32 :=
  if text = [] then (false, value)
  else
    let (base, p) := reasonBase text
    if base = 16 ∧ p = [] then (false, value)
    else
      match p.foldlM (reasonParseStep base) 0 with
      | none => (false, value)
      | some result => (true, result)

end Qboot
