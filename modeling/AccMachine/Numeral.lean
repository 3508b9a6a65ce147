namespace AccMachine.Numeral

/-- A number with more decimal digits than this is neither read nor written. -/
def maxDecimalDigits : Nat := 4300

def writeLimit : Nat := Nat.pow 10 maxDecimalDigits

/-- Whether a number can be written in decimal digits; its sign does not count. -/
def Writable (n : Int) : Prop := n.natAbs < writeLimit

instance (n : Int) : Decidable (Writable n) := inferInstanceAs (Decidable (n.natAbs < writeLimit))

theorem Writable.of_le {n k : Int} (h : Writable n) (h0 : 0 ≤ k) (hk : k ≤ n) :
    Writable k := by
  unfold Writable at h ⊢
  omega

theorem writable_of_natAbs_lt {n : Int} (h : n.natAbs < 65536) : Writable n := by
  have hdigits : 5 ≤ maxDecimalDigits := by decide
  unfold Writable writeLimit
  -- With the number of digits left open, no one computes the power.
  generalize maxDecimalDigits = digits at hdigits ⊢
  have hpow : 100000 ≤ Nat.pow 10 digits :=
    Nat.pow_le_pow_right (show 10 > 0 by decide) hdigits
  omega

theorem writable_of_lt {n : Int} (h0 : 0 ≤ n) (h : n < 65536) : Writable n :=
  writable_of_natAbs_lt (by omega)

/-- The value of a hexadecimal digit of either letter case, sixteen for any other character. -/
def digitValue (c : Char) : Nat :=
  if '0' ≤ c ∧ c ≤ '9' then c.toNat - 48
  else if 'a' ≤ c ∧ c ≤ 'f' then c.toNat - 87
  else if 'A' ≤ c ∧ c ≤ 'F' then c.toNat - 55
  else 16

def ofDigits (base : Nat) (ds : List Char) : Nat :=
  ds.foldl (fun n c => n * base + digitValue c) 0

def digits (base width n : Nat) : List Char :=
  ((Nat.toDigits base n).map Char.toUpper).leftpad width '0'

def padded (base width n : Nat) : String :=
  String.ofList (digits base width n)

@[simp] theorem toList_padded (base width n : Nat) :
    (padded base width n).toList = digits base width n :=
  String.toList_ofList

end AccMachine.Numeral
