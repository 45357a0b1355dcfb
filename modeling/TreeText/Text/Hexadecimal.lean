/-!
# Hexadecimal digits

Reading takes digits of either case, writing gives them in lower case.
-/

namespace TreeText

/-- The value of a hexadecimal digit, of either case. -/
def hexDigit? (c : Char) : Option Nat :=
  if '0' ≤ c ∧ c ≤ '9' then some (c.toNat - '0'.toNat)
  else if 'a' ≤ c ∧ c ≤ 'f' then some (c.toNat - 'a'.toNat + 10)
  else if 'A' ≤ c ∧ c ≤ 'F' then some (c.toNat - 'A'.toNat + 10)
  else none

/-- The number that a list of hexadecimal digits spells. -/
def hexNumber? : List Char → Option Nat :=
  go 0
where
  go (value : Nat) : List Char → Option Nat
    | [] => some value
    | c :: rest => match hexDigit? c with
      | none => none
      | some digit => go (value * 16 + digit) rest

/-- The hexadecimal digit of a number below sixteen, in lower case. -/
def hexChar (digit : Nat) : Char :=
  if digit < 10 then Char.ofNat ('0'.toNat + digit) else Char.ofNat ('a'.toNat + (digit - 10))

end TreeText
