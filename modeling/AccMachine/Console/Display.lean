import AccMachine.Execution

namespace AccMachine

inductive Phase
  | stopped | ready | running | paused | idle | halted
deriving DecidableEq

def Phase.text : Phase → String
  | stopped => "PARADO" | ready => "PRONTO" | running => "RODANDO" | paused => "PAUSA"
  | idle => "IDLE" | halted => "HALT"

inductive Background
  | pc | sp | plain
deriving DecidableEq

def Background.colour : Background → String
  | pc => "#bbdefb" | sp => "#ffcdd2" | plain => "white"

structure MemoryRow where
  text : String
  background : Option Background
deriving DecidableEq

structure RegisterRow where
  name : String
  hex : String
  dec : String
  signed : String
  bin : String
deriving DecidableEq

structure CacheRow where
  line : Nat
  valid : Bool
  tag : Int
  dirty : Bool
  block : String
deriving DecidableEq

inductive CacheChoice
  | instructions | data
deriving DecidableEq

def CacheChoice.ofText (s : Text) : CacheChoice := if s = ['D'] then .data else .instructions

structure Dialog where
  title : String
  message : String
deriving DecidableEq

/-- Everything the window shows. `log` and `dialogs` have the newest entry first. -/
structure Display where
  phase : Phase
  cycles : String
  next : String
  cacheStatus : String
  hexButton : String
  registers : List RegisterRow
  cache : List CacheRow
  memory : Array MemoryRow
  seen : Option Nat
  log : List String
  dialogs : List Dialog

namespace Display

def word (hex : Bool) (w : Word) : String := if hex then w.hex else w.signed

def hexButtonText (hex : Bool) : String := if hex then "Ver: HEX" else "Ver: DEC"

def cyclesText (m : Machine) : String := s!"Ciclos: {m.cycle}"

def nextText (m : Machine) : String :=
  let pc := m.reg .pc
  let addr := Machine.address pc
  if m.memory.InRange addr then
    s!"PC [{Numeral.padded 16 3 pc.toNat}]: {disassemble (m.memory.get addr)}"
  else s!"PC [{Numeral.padded 16 4 pc.toNat}]: fora da memoria"

def registerRow (m : Machine) (r : Register) : RegisterRow :=
  let w := m.reg r
  ⟨r.name, w.hex, w.dec, w.signed, w.bin⟩

def registerRows (m : Machine) : List RegisterRow := Register.all.map (registerRow m)

def chosenCache (m : Machine) : CacheChoice → Cache
  | .data => m.dataCache
  | .instructions => m.codeCache

def cacheRow (hex : Bool) (l : CacheLine Word) (i : Nat) : CacheRow :=
  ⟨i, l.valid, l.tag, l.dirty, " ".intercalate (l.block.toList.map (word hex))⟩

def cacheRows (hex : Bool) (c : Cache) : List CacheRow :=
  c.lines.toList.zipIdx.map fun (l, i) => cacheRow hex l i

def cacheCounts (c : Cache) : String := s!"{c.status.text} H={c.hits} M={c.misses}"

def cacheStatusText (m : Machine) : String :=
  s!"I: {cacheCounts m.codeCache} | D: {cacheCounts m.dataCache}"

def memoryText (hex : Bool) (m : Memory) (i : Nat) : String :=
  s!"[{Numeral.padded 16 3 i}]: {word hex (m.get i)}"

def unmarkedRows (hex : Bool) (m : Memory) : Array MemoryRow :=
  (Array.range m.size.toNat).map fun i => ⟨memoryText hex m i, none⟩

def backgroundAt (m : Machine) (a : Word) : Background :=
  if a = m.reg .pc then .pc else if a = m.reg .sp then .sp else .plain

def redrawRow (hex : Bool) (m : Machine) (rows : Array MemoryRow) (a : Word) : Array MemoryRow :=
  if m.memory.InRange (Machine.address a) then
    rows.setIfInBounds a.toNat ⟨memoryText hex m.memory a.toNat, some (backgroundAt m a)⟩
  else rows

end Display

end AccMachine
