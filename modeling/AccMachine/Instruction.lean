import AccMachine.Operation

namespace AccMachine

structure Instruction where
  word : Word
  operation : Option Operation
deriving DecidableEq

def decode (w : Word) : Instruction := ⟨w, Operation.ofWord? w⟩

namespace Instruction

def group (i : Instruction) : Nat := i.word.toNat / 4096

def extendedGroup : Nat := 15

/--
The low field of the word: the low eight bits for an offset of the stack pointer, else the low
twelve, also where the operation leaves them unused.
-/
def operand (i : Instruction) : Word :=
  match i.operation with
  | some .insp | some .desp => i.word &&& 0x00FF
  | _ => i.word &&& 0x0FFF

def known (i : Instruction) : Bool := i.operation.isSome

def listing (i : Instruction) : String :=
  match i.operation with
  | none => s!"??? {i.word.hex}"
  | some o => if o.takesOperand then s!"{o.mnemonic} {i.operand.toNat}" else o.mnemonic

end Instruction

def disassemble (w : Word) : String := (decode w).listing

end AccMachine
