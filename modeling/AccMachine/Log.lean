import AccMachine.Assembly
import AccMachine.Execution

namespace AccMachine

inductive LogLevel
  | debug | info | warning | error
deriving DecidableEq

namespace LogLevel

def all : List LogLevel := [debug, info, warning, error]

def name : LogLevel → String
  | debug => "DEBUG" | info => "INFO" | warning => "WARNING" | error => "ERROR"

def rank : LogLevel → Nat
  | debug => 10 | info => 20 | warning => 30 | error => 40

def ofName? (s : Text) : Option LogLevel := all.find? fun l => l.name.toList == s

end LogLevel

inductive LogSource
  | command | assembler | machine | storage
deriving DecidableEq

def LogSource.name : LogSource → String
  | command => "mic1"
  | assembler => "mic1.assembler.core"
  | machine => "mic1.hardware.cpu"
  | storage => "mic1.hardware.components"

structure LogRecord where
  level : LogLevel
  source : LogSource
  message : String
deriving DecidableEq

namespace LogRecord

/-- The line of a record, without the time of day that stands before it in the program's own log. -/
def line (r : LogRecord) : String := s!"[{r.level.name}] {r.source.name}: {r.message}\n"

def atLeast (l : LogLevel) (rs : List LogRecord) : List LogRecord :=
  rs.filter fun r => l.rank ≤ r.level.rank

def text (rs : List LogRecord) : String := String.join (rs.map line)

end LogRecord

def Assembly.records (a : Assembly) (finished : Bool) : List LogRecord :=
  a.warnings.map (⟨.warning, .assembler, ·⟩) ++
  a.errorMessages.map (⟨.debug, .assembler, ·⟩) ++
  if finished then
    [⟨.info, .assembler,
      s!"Montagem: {a.image.size} palavras, {a.errors.size} erros, {a.labels.length} labels"⟩]
  else []

namespace Machine

def loadRecords (m : Machine) (image : Array Int) : List LogRecord :=
  (if m.memory.overflowedBy image then
    [⟨.warning, .storage,
      s!"Programa maior que a memoria, truncado em {m.memory.size} palavras"⟩]
  else []) ++ [⟨.info, .machine, "Programa carregado na RAM"⟩]

def newEvents (before after : Cache) : List CacheEvent :=
  (after.history.take (after.history.length - before.history.length)).reverse

def eventRecord (c : Cache) (e : CacheEvent) : LogRecord :=
  ⟨.debug, .storage, s!"{c.name}: {e.text}"⟩

/--
What the caches tell of a step: the fetch, then the data accesses, then a flush of the cache of
instructions, which comes last.
-/
def accessRecords (before after : Machine) : List LogRecord :=
  let fetched := (newEvents before.codeCache after.codeCache).map (eventRecord after.codeCache)
  let data := (newEvents before.dataCache after.dataCache).map (eventRecord after.dataCache)
  fetched.take 1 ++ data ++ fetched.drop 1

def noticeRecords (after : Machine) : List LogRecord :=
  match (decode (after.reg .ir)).operation with
  | none =>
    [⟨.warning, .machine, s!"Instrucao estendida desconhecida {(after.reg .ir).hex}"⟩]
  | some .halt => [⟨.info, .machine, s!"HALT no ciclo {after.cycle}"⟩]
  | some _ => []

def traceRecord (after : Machine) : LogRecord :=
  let told := "; ".intercalate (after.trace.map (·.text))
  ⟨.debug, .machine, s!"ciclo {after.cycle}: {told}"⟩

def stepRecords (l : LogLevel) (before after : Machine) : List LogRecord :=
  if before.halted then []
  else if before.memory.InRange (address (before.reg .pc)) then
    if l = .debug then accessRecords before after ++ noticeRecords after ++ [traceRecord after]
    else noticeRecords after
  else [⟨.info, .machine, s!"PC fora da memoria ({(before.reg .pc).toNat}), CPU parada"⟩]

/-- What the steps of a run tell, after the records `told` before, and where the run ends. -/
def tellFrom (l : LogLevel) (m : Machine) (told : Array LogRecord) :
    Nat → Array LogRecord × Machine
  | 0 => (told, m)
  | budget + 1 =>
    if m.halted then (told, m)
    else
      match m.step with
      | .error _ => (told, m)
      | .ok (_, n) => tellFrom l n (told ++ stepRecords l m n) budget

def runRecords (l : LogLevel) (m : Machine) (budget : Int) : List LogRecord :=
  let (told, n) := m.tellFrom l #[] budget.toNat
  told.toList ++
    if n.halted then []
    else [⟨.warning, .machine, s!"Limite de {budget} passos atingido sem HALT"⟩]

end Machine

end AccMachine
