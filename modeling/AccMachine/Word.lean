import AccMachine.Numeral

namespace AccMachine

/-- A machine word: sixteen bits, also read as a number in two's complement. -/
abbrev Word := BitVec 16

namespace Word

def ofInt (n : Int) : Word := BitVec.ofInt 16 n

@[simp] theorem toNat_ofInt (v : Int) : ((ofInt v).toNat : Int) = v % 65536 := by
  have h := Int.emod_nonneg v (show (65536 : Int) ≠ 0 by decide)
  unfold ofInt
  rw [BitVec.toNat_ofInt]
  omega

@[simp] theorem ofInt_toNat (w : Word) : ofInt w.toNat = w := by
  unfold ofInt
  rw [BitVec.ofInt_natCast, BitVec.ofNat_toNat, BitVec.setWidth_eq]

def hexDigits (w : Word) : String := Numeral.padded 16 4 w.toNat

def hex (w : Word) : String := "0x" ++ hexDigits w

def bin (w : Word) : String := Numeral.padded 2 16 w.toNat

def dec (w : Word) : String := toString w.toNat

def signed (w : Word) : String := toString w.toInt

end Word

end AccMachine
