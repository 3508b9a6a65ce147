namespace AccMachine.Numeral

/-- The whole number nearest to `p / q`; a half goes to the even neighbour. -/
def roundDiv (p q : Nat) : Nat :=
  let n := p / q
  let r := p % q
  if q < 2 * r ∨ (q = 2 * r ∧ n % 2 = 1) then n + 1 else n

def scaled (p q : Nat) (s : Int) : Nat × Nat := (p <<< s.toNat, q <<< (-s).toNat)

def scaleFor (p q : Nat) : Int :=
  let s := 53 - ((p.log2 : Int) - q.log2)
  let (a, b) := scaled p q s
  if a / b < Nat.pow 2 53 then s else s - 1

/-- The whole part of `p / q` after it was rounded to 53 significant bits. -/
def wholePartRounded (p q : Nat) : Nat :=
  let s := scaleFor p q
  let (a, b) := scaled p q s
  (roundDiv a b <<< (-s).toNat) >>> s.toNat

def tooLarge : Nat := Nat.pow 2 1024

theorem roundDiv_near (p q : Nat) (h : 0 < q) :
    2 * p ≤ 2 * (q * roundDiv p q) + q ∧ 2 * (q * roundDiv p q) ≤ 2 * p + q := by
  have hd := Nat.div_add_mod p q
  have hr := Nat.mod_lt p h
  unfold roundDiv
  simp only
  split
  next hc =>
    have : q ≤ 2 * (p % q) := by omega
    rw [Nat.mul_add]
    omega
  next hc =>
    have : 2 * (p % q) ≤ q := by omega
    omega

end AccMachine.Numeral
