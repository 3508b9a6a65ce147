import AccMachine.Memory

namespace AccMachine

structure Geometry where
  lines : Int
  block : Int
deriving DecidableEq

namespace Geometry

def standard : Geometry := ⟨8, 4⟩

def lineOf (g : Geometry) (a : Int) : Int := (a.fdiv g.block).fmod g.lines

def tagOf (g : Geometry) (a : Int) : Int := a.fdiv (g.block * g.lines)

def offset (g : Geometry) (a : Int) : Int := a.fmod g.block

def blockBase (g : Geometry) (a : Int) : Int := a.fdiv g.block * g.block

/-- Whether addresses can be taken apart at all: no line, or no word in a line, divides by zero. -/
def Divides (g : Geometry) : Prop := g.lines ≠ 0 ∧ g.block ≠ 0

instance (g : Geometry) : Decidable g.Divides :=
  inferInstanceAs (Decidable (g.lines ≠ 0 ∧ g.block ≠ 0))

end Geometry

/-- A line of a cache; `dirty` is never set by a cache that writes through. -/
structure CacheLine (α : Type) where
  valid : Bool
  tag : Int
  dirty : Bool
  block : Array α

namespace CacheLine

def make {α : Type} [Zero α] (size : Int) (valid : Bool) (tag : Int) (dirty : Bool)
    (block : Array α) : CacheLine α :=
  ⟨valid, tag, dirty, if block.isEmpty then Array.replicate size.toNat 0 else block⟩

def cold (size : Int) : CacheLine Word := @make Word ⟨0⟩ size false 0 false #[]

def holds {α : Type} (l : CacheLine α) (tag : Int) : Bool := l.valid && l.tag == tag

end CacheLine

inductive CacheStatus
  | cold | hit | miss | writeHit | writeMiss | flush
deriving DecidableEq

def CacheStatus.text : CacheStatus → String
  | cold => "COLD" | hit => "HIT" | miss => "MISS" | writeHit => "WR-HIT" | writeMiss => "WR-MISS"
  | flush => "FLUSH"

inductive CacheEvent
  | hit (addr line : Int)
  | miss (addr line start : Int)
  | writeHit (addr line : Int)
  | writeMiss (addr line : Int)
  | writeThrough (addr : Int) (value : Word)
  | flush
deriving DecidableEq

def CacheEvent.numbers : CacheEvent → List Int
  | hit addr line => [addr, line]
  | miss addr line start => [addr, line, start]
  | writeHit addr line => [addr, line]
  | writeMiss addr line => [addr, line]
  | writeThrough addr _ => [addr]
  | flush => []

def CacheEvent.Writable (e : CacheEvent) : Prop := ∀ n ∈ e.numbers, Numeral.Writable n

instance CacheEvent.decidableWritable (e : CacheEvent) : Decidable e.Writable :=
  inferInstanceAs (Decidable (∀ n ∈ e.numbers, Numeral.Writable n))

def CacheEvent.text : CacheEvent → String
  | hit addr line => s!"HIT em {addr} (L{line})"
  | miss addr line start => s!"MISS em {addr} (L{line}). Buscando bloco {start} na RAM..."
  | writeHit addr line => s!"WRITE HIT em {addr} (L{line})"
  | writeMiss addr line => s!"WRITE MISS em {addr} (L{line}). Alocando..."
  | writeThrough addr value => s!"Write-Through: RAM[{addr}] <- {value.toNat}"
  | flush => "FLUSH: cache ja sincronizada (write-through)"

/--
A direct-mapped cache that writes through, without the memory behind it. `history` has the newest
event first.
-/
structure Cache where
  name : String
  geometry : Geometry
  lines : Array (CacheLine Word)
  hits : Nat
  misses : Nat
  status : CacheStatus
  history : List CacheEvent

namespace Cache

/-- A cache that holds nothing; a number of lines that is not positive gives it none. -/
def cold (name : String) (g : Geometry) : Cache where
  name := name
  geometry := g
  lines := Array.replicate g.lines.toNat (CacheLine.cold g.block)
  hits := 0
  misses := 0
  status := .cold
  history := []

def events (c : Cache) : List CacheEvent := c.history.reverse

def record (c : Cache) (e : CacheEvent) : Cache := { c with history := e :: c.history }

def line (c : Cache) (i : Int) : Except Fault (CacheLine Word) :=
  match position? c.lines.size i with
  | none => .error .outOfRange
  | some p =>
    match c.lines[p]? with
    | none => .error .outOfRange
    | some l => .ok l

/-- The parts of an address: line, tag, place in the block, start of the block. -/
def split (c : Cache) (a : Int) : Except Fault (Int × Int × Int × Int) :=
  let g := c.geometry
  if g.Divides then .ok (g.lineOf a, g.tagOf a, g.offset a, g.blockBase a)
  else .error .divisionByZero

def locate (c : Cache) (a : Int) : Except Fault Nat :=
  if c.geometry.Divides then
    match position? c.lines.size (c.geometry.lineOf a) with
    | some p => .ok p
    | none => .error .outOfRange
  else .error .divisionByZero

def holdsAt (c : Cache) (p : Nat) (a : Int) : Bool :=
  c.lines[p]?.any (·.holds (c.geometry.tagOf a))

def wouldHit (c : Cache) (a : Int) : Except Fault Bool := do
  return c.holdsAt (← c.locate a) a

def fill (c : Cache) (m : Memory) (p : Nat) (a : Int) : Cache :=
  let g := c.geometry
  { c with
    lines := c.lines.modify p fun l =>
      { l with valid := true, tag := g.tagOf a, block := m.block (g.blockBase a) g.block } }

def wordAt (c : Cache) (p : Nat) (a : Int) : Except Fault Word :=
  match c.lines[p]? with
  | none => .error .outOfRange
  | some l =>
    match position? l.block.size (c.geometry.offset a) with
    | none => .error .outOfRange
    | some o => .ok (l.block.getD o 0)

def storeAt (c : Cache) (p : Nat) (a : Int) (v : Word) : Except Fault Cache :=
  match c.lines[p]? with
  | none => .error .outOfRange
  | some l =>
    match position? l.block.size (c.geometry.offset a) with
    | none => .error .outOfRange
    | some o =>
      .ok { c with
        lines := c.lines.modify p fun l => { l with block := l.block.setIfInBounds o v } }

def countRead (c : Cache) (p : Nat) (a : Int) : Cache :=
  if c.holdsAt p a then { c with hits := c.hits + 1, status := .hit }
  else { c with misses := c.misses + 1, status := .miss }

def countWrite (c : Cache) (p : Nat) (a : Int) : Cache :=
  if c.holdsAt p a then { c with hits := c.hits + 1, status := .writeHit }
  else { c with misses := c.misses + 1, status := .writeMiss }

def readEvent (c : Cache) (p : Nat) (a : Int) : CacheEvent :=
  let g := c.geometry
  if c.holdsAt p a then .hit a (g.lineOf a) else .miss a (g.lineOf a) (g.blockBase a)

def writeEvent (c : Cache) (p : Nat) (a : Int) : CacheEvent :=
  let g := c.geometry
  if c.holdsAt p a then .writeHit a (g.lineOf a) else .writeMiss a (g.lineOf a)

def bringIn (c : Cache) (m : Memory) (p : Nat) (a : Int) : Cache :=
  if c.holdsAt p a then c else c.fill m p a

def touchRead (c : Cache) (m : Memory) (p : Nat) (a : Int) : Cache :=
  ((c.countRead p a).record (c.readEvent p a)).bringIn m p a

def touchWrite (c : Cache) (m : Memory) (p : Nat) (a : Int) : Cache :=
  ((c.countWrite p a).record (c.writeEvent p a)).bringIn m p a

/--
The word at an address, through the cache. The cache is as far as the read came: it counts the read
also where it cannot record it.
-/
def read (c : Cache) (m : Memory) (a : Int) : Except Fault Word × Cache :=
  match c.locate a with
  | .error f => (.error f, c)
  | .ok p =>
    if (c.readEvent p a).Writable then
      let c := c.touchRead m p a
      (c.wordAt p a, c)
    else (.error .badValue, c.countRead p a)

/-- Writes a word at an address, in the cache and in memory, as far as the write comes. -/
def write (c : Cache) (m : Memory) (a : Int) (v : Word) : Except Fault Unit × Cache × Memory :=
  match c.locate a with
  | .error f => (.error f, c, m)
  | .ok p =>
    if (c.writeEvent p a).Writable then
      let c := c.touchWrite m p a
      match c.storeAt p a v with
      | .error f => (.error f, c, m)
      | .ok c => (.ok (), c.record (.writeThrough a v), m.set a v)
    else (.error .badValue, c.countWrite p a, m)

/-- Memory is always up to date, so nothing is left to write. -/
def flush (c : Cache) : Cache := { c with status := .flush }.record .flush

def hitShare (c : Cache) : Float :=
  let total := c.hits + c.misses
  if total = 0 then 0 else c.hits.toFloat / total.toFloat

end Cache

end AccMachine
