import AccMachine.Text
import AccMachine.Word

namespace AccMachine

inductive Register
  | pc | ac | sp | ir | tir | mar | mbr | a | b | c | d | e | f
deriving DecidableEq

namespace Register

def all : List Register := [pc, ac, sp, ir, tir, mar, mbr, a, b, c, d, e, f]

theorem mem_all (r : Register) : r ∈ all := by
  cases r <;> decide

def name : Register → String
  | pc => "PC" | ac => "AC" | sp => "SP" | ir => "IR" | tir => "TIR" | mar => "MAR" | mbr => "MBR"
  | a => "A" | b => "B" | c => "C" | d => "D" | e => "E" | f => "F"

def ofName? (s : Text) : Option Register := all.find? fun r => r.name.toList == s

def ofAnyCase? (s : Text) : Option Register := ofName? s.upper

end Register

structure Registers where
  pc : Word
  ac : Word
  sp : Word
  ir : Word
  tir : Word
  mar : Word
  mbr : Word
  a : Word
  b : Word
  c : Word
  d : Word
  e : Word
  f : Word
deriving DecidableEq

namespace Registers

/-- The stack grows down from the top of the default memory; every other register starts at zero. -/
def initial : Registers where
  pc := 0
  ac := 0
  sp := 4095
  ir := 0
  tir := 0
  mar := 0
  mbr := 0
  a := 0
  b := 0
  c := 0
  d := 0
  e := 0
  f := 0

def get (s : Registers) : Register → Word
  | .pc => s.pc | .ac => s.ac | .sp => s.sp | .ir => s.ir | .tir => s.tir
  | .mar => s.mar | .mbr => s.mbr
  | .a => s.a | .b => s.b | .c => s.c | .d => s.d | .e => s.e | .f => s.f

def set (s : Registers) (r : Register) (v : Word) : Registers :=
  match r with
  | .pc => { s with pc := v } | .ac => { s with ac := v } | .sp => { s with sp := v }
  | .ir => { s with ir := v } | .tir => { s with tir := v }
  | .mar => { s with mar := v } | .mbr => { s with mbr := v }
  | .a => { s with a := v } | .b => { s with b := v } | .c => { s with c := v }
  | .d => { s with d := v } | .e => { s with e := v } | .f => { s with f := v }

def toList (s : Registers) : List Word := Register.all.map s.get

@[simp] theorem get_set (s : Registers) (r q : Register) (v : Word) :
    (s.set r v).get q = if q = r then v else s.get q := by
  cases r <;> cases q <;> rfl

end Registers

def showNamed (name : String) (w : Word) : String := s!"[{name}: {w.hexDigits}]"

end AccMachine
