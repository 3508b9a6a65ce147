import AccMachine.Fault
import AccMachine.Numeral
import AccMachine.Text

namespace AccMachine.Literal

def splitSign : Text → Bool × Text
  | '+' :: r => (false, r)
  | '-' :: r => (true, r)
  | r => (false, r)

def splitBase : Text → Nat × Text
  | '0' :: 'x' :: r => (16, r)
  | '0' :: 'X' :: r => (16, r)
  | '0' :: 'b' :: r => (2, r)
  | '0' :: 'B' :: r => (2, r)
  | r => (10, r)

def isDigits (base : Nat) (s : Text) : Bool :=
  !s.isEmpty && s.all fun c => Numeral.digitValue c < base

/-- The integer that a text spells between blanks, none when it is no literal. -/
def read (s : Text) : Except Fault (Option Int) :=
  let (negative, unsigned) := splitSign s.strip
  let (base, digits) := splitBase unsigned
  if !isDigits base digits then .ok none
  else if base = 10 ∧ Numeral.maxDecimalDigits < digits.length then .error .badValue
  else
    let n := Numeral.ofDigits base digits
    .ok (some (if negative then -(n : Int) else n))

end AccMachine.Literal
