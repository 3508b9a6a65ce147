import AccMachine.Cache
import AccMachine.Instruction
import AccMachine.Registers
import AccMachine.Trace

namespace AccMachine

/--
The state of the machine. Both caches stand before the same memory; `trace` tells what the last step
did.
-/
structure Machine where
  memory : Memory
  registers : Registers
  codeCache : Cache
  dataCache : Cache
  halted : Bool
  cycle : Nat
  trace : List TraceLine

namespace Machine

def fresh (size : Int) : Machine where
  memory := Memory.zeros size
  registers := Registers.initial
  codeCache := Cache.cold "I-Cache" Geometry.standard
  dataCache := Cache.cold "D-Cache" Geometry.standard
  halted := false
  cycle := 0
  trace := []

def reset (m : Machine) : Machine :=
  { m with
    memory := m.memory.clear
    codeCache := Cache.cold "I-Cache" Geometry.standard
    dataCache := Cache.cold "D-Cache" Geometry.standard
    registers := Registers.initial
    halted := false
    cycle := 0
    trace := [] }

theorem reset_eq_fresh (m : Machine) : m.reset = fresh m.memory.size := rfl

def load (m : Machine) (image : Array Int) : Machine :=
  { m.reset with memory := m.reset.memory.load image }

theorem load_eq_of_size {m : Machine} {size : Int} (h : m.memory.size = size)
    (image : Array Int) : m.load image = (fresh size).load image := by
  unfold load
  rw [reset_eq_fresh, h]
  rfl

def reg (m : Machine) (r : Register) : Word := m.registers.get r

def put (m : Machine) (r : Register) (v : Word) : Machine :=
  { m with registers := m.registers.set r v }

def note (m : Machine) (t : TraceLine) : Machine := { m with trace := m.trace ++ [t] }

def address (w : Word) : Int := w.toNat

/-- Reads data; outside of the memory it is zero and leaves no mark. -/
def loadWord (m : Machine) (a : Word) : Except Fault (Word × Machine) :=
  if m.memory.InRange (address a) then
    let m := m.put .mar a
    match m.dataCache.read m.memory (address a) with
    | (.error f, _) => .error f
    | (.ok v, c) => .ok (v, { m with dataCache := c }.put .mbr v)
  else .ok (0, m)

def storeWord (m : Machine) (a v : Word) : Except Fault Machine :=
  if m.memory.InRange (address a) then
    let m := (m.put .mar a).put .mbr v
    match m.dataCache.write m.memory (address a) v with
    | (.error f, _, _) => .error f
    | (.ok _, c, memory) => .ok { m with dataCache := c, memory := memory }
  else .ok m

def push (m : Machine) (v : Word) : Except Fault Machine :=
  let sp := m.reg .sp - 1
  (m.put .sp sp).storeWord sp v

def pop (m : Machine) : Except Fault (Word × Machine) := do
  let sp := m.reg .sp
  let (v, m) ← m.loadWord sp
  return (v, m.put .sp (sp + 1))

/--
Reads the word that the program counter names, through the cache also where it lies outside of the
memory, and moves the counter on.
-/
def fetch (m : Machine) : Except Fault (Word × Machine) :=
  let pc := m.reg .pc
  let m := (m.put .mar pc).note (.fetch s!"MAR <- PC ({pc.toNat}); RD (I-Cache)")
  match m.codeCache.read m.memory (address pc) with
  | (.error f, _) => .error f
  | (.ok w, c) =>
    let m := ((({ m with codeCache := c }.put .mbr w).put .ir w).put .pc (pc + 1))
    .ok (w, m.note (.fetch s!"IR <- MBR ({w.hex}); PC <- PC + 1"))

end Machine

end AccMachine
