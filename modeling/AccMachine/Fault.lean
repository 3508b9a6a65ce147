namespace AccMachine

/-- Causes that leave an operation without a result. -/
inductive Fault
  | outOfRange
  | divisionByZero
  | badValue
  | notFinite
  | notText
  | noValue
deriving DecidableEq

/--
The place in a table of `size` entries that an index names: from the front when it is not
negative, else from the end.
-/
def position? (size : Nat) (i : Int) : Option Nat :=
  if 0 ≤ i then (if i < size then some i.toNat else none)
  else if -(size : Int) ≤ i then some (i + size).toNat
  else none

end AccMachine
