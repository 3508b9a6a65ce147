import AccMachine.Word
import AccMachine.Text

namespace AccMachine

inductive Operation
  | lodd | stod | addd | subd | jpos | jzer | jump | loco
  | lodl | stol | addl | subl | jneg | jnze | call
  | pshi | popi | push | pop | retn | swap | insp | desp | halt
deriving DecidableEq

namespace Operation

def all : List Operation :=
  [lodd, stod, addd, subd, jpos, jzer, jump, loco, lodl, stol, addl, subl, jneg, jnze, call,
    pshi, popi, push, pop, retn, swap, insp, desp, halt]

theorem mem_all (o : Operation) : o ∈ all := by
  cases o <;> decide

def mnemonic : Operation → String
  | lodd => "LODD" | stod => "STOD" | addd => "ADDD" | subd => "SUBD"
  | jpos => "JPOS" | jzer => "JZER" | jump => "JUMP" | loco => "LOCO"
  | lodl => "LODL" | stol => "STOL" | addl => "ADDL" | subl => "SUBL"
  | jneg => "JNEG" | jnze => "JNZE" | call => "CALL"
  | pshi => "PSHI" | popi => "POPI" | push => "PUSH" | pop => "POP"
  | retn => "RETN" | swap => "SWAP" | insp => "INSP" | desp => "DESP" | halt => "HALT"

def base : Operation → Word
  | lodd => 0x0000 | stod => 0x1000 | addd => 0x2000 | subd => 0x3000
  | jpos => 0x4000 | jzer => 0x5000 | jump => 0x6000 | loco => 0x7000
  | lodl => 0x8000 | stol => 0x9000 | addl => 0xA000 | subl => 0xB000
  | jneg => 0xC000 | jnze => 0xD000 | call => 0xE000
  | pshi => 0xF000 | popi => 0xF200 | push => 0xF400 | pop => 0xF600
  | retn => 0xF800 | swap => 0xFA00 | insp => 0xFC00 | desp => 0xFE00 | halt => 0xFFFF

def operandMask : Operation → Word
  | insp | desp => 0x00FF
  | pshi | popi | push | pop | retn | swap | halt => 0
  | _ => 0x0FFF

def takesOperand (o : Operation) : Bool := o.operandMask != 0

def encode (o : Operation) (operand : Int) : Word :=
  o.base ||| (Word.ofInt operand &&& o.operandMask)

def ofWord? (w : Word) : Option Operation :=
  all.find? fun o => w &&& ~~~o.operandMask == o.base

def ofMnemonic? (s : Text) : Option Operation :=
  all.find? fun o => o.mnemonic.toList == s

end Operation

end AccMachine
