import AccMachine.Literal
import AccMachine.Numeral.DecimalDigit
import AccMachine.Numeral.Nearest

namespace AccMachine.Numeral

def plainChar (c : Char) : Char :=
  if c.toNat < 127 then c
  else if isBlank c then ' '
  else match decimalDigit? c with
    | some d => d.digitChar
    | none => '?'

def isPad (c : Char) : Bool := c ∈ ['\t', '\n', '\x0b', '\x0c', '\r', ' ']

def plain (s : Text) : Text :=
  (((s.map plainChar).dropWhile isPad).reverse.dropWhile isPad).reverse

/-- Takes out underscores; each has to stand between two digits. -/
def ungroupAfter (digit : Bool) : Text → Option Text
  | [] => some []
  | '_' :: c :: r =>
    if digit && c.isDigit then (ungroupAfter true r).map (c :: ·) else none
  | ['_'] => none
  | c :: r => (ungroupAfter c.isDigit r).map (c :: ·)

def typedChars (s : Text) : Except Fault Text :=
  match ungroupAfter false (plain s) with
  | some t => .ok t
  | none => .error .badValue

def readWhole (s : Text) : Except Fault Int := do
  let (negative, digits) := Literal.splitSign (← typedChars s)
  if !Literal.isDigits 10 digits || maxDecimalDigits < digits.length then
    throw .badValue
  let n := ofDigits 10 digits
  return if negative then -(n : Int) else n

def readExponent : Text → Except Fault Int
  | [] => .ok 0
  | c :: r =>
    let (negative, digits) := Literal.splitSign r
    if (c = 'e' ∨ c = 'E') ∧ Literal.isDigits 10 digits then
      let n := ofDigits 10 digits
      .ok (if negative then -(n : Int) else n)
    else .error .badValue

/--
The whole part of `n * 10 ^ exponent` after it was rounded to a double. The number of its digits
tells the very large and the very small before a power is computed.
-/
def wholePart (n : Nat) (exponent : Int) : Except Fault Nat :=
  let places := (Nat.toDigits 10 n).length + exponent
  if n = 0 ∨ places < 0 then .ok 0
  else if 400 < places then .error .notFinite
  else
    let w := wholePartRounded (n * Nat.pow 10 exponent.toNat) (Nat.pow 10 (-exponent).toNat)
    if tooLarge ≤ w then .error .notFinite else .ok w

def readTruncated (s : Text) : Except Fault Int := do
  let (negative, t) := Literal.splitSign (← typedChars s)
  if t.map Char.toLower ∈ ["inf".toList, "infinity".toList] then throw .notFinite
  let whole := t.takeWhile Char.isDigit
  let (fraction, rest) := match t.dropWhile Char.isDigit with
    | '.' :: r => (r.takeWhile Char.isDigit, r.dropWhile Char.isDigit)
    | r => ([], r)
  let digits := whole ++ fraction
  if digits.isEmpty then throw .badValue
  let exponent ← readExponent rest
  let n ← wholePart (ofDigits 10 digits) (exponent - fraction.length)
  return if negative then -(n : Int) else n

end AccMachine.Numeral
