import AccMachine.Assembly
import AccMachine.Execution

namespace AccMachine

/-- A share as a whole number of percent; a half goes to the even neighbour. -/
def percent (share : Float) : Nat :=
  let x := share * 100
  let whole := x.floor
  let n := whole.toUInt64.toNat
  let rest := x - whole
  if rest > 0.5 || (rest == 0.5 && n % 2 == 1) then n + 1 else n

def textOfLines (lines : List String) : String := String.join (lines.map (· ++ "\n"))

def noticeLine (warning : String) : String := s!"[AVISO] {warning}"

def Assembly.notices (a : Assembly) : String := textOfLines (a.warnings.map noticeLine)

structure FinishedRun where
  warnings : List String
  steps : Nat
  machine : Machine

namespace FinishedRun

def padRight (width : Nat) (s : String) : String := String.ofList (s.toList.rightpad width ' ')

def padLeft (width : Nat) (s : String) : String := String.ofList (s.toList.leftpad width ' ')

def stepsLine (r : FinishedRun) : String :=
  let halted := if r.machine.halted then "True" else "False"
  s!"Passos: {r.steps} | HALT: {halted}"

def registerLine (m : Machine) (r : Register) : String :=
  s!"  {padRight 3 r.name} {(m.reg r).hex} {padLeft 6 (m.reg r).signed}"

def cacheLine (c : Cache) : String :=
  s!"  {c.name}: {c.hits} hits, {c.misses} misses ({percent c.hitShare}%)"

def lines (r : FinishedRun) : List String :=
  r.warnings.map noticeLine ++ [r.stepsLine] ++
    Register.all.map (registerLine r.machine) ++
    [cacheLine r.machine.codeCache, cacheLine r.machine.dataCache]

def report (r : FinishedRun) : String := textOfLines r.lines

end FinishedRun

def Assembly.runToEnd (a : Assembly) (budget : Int) : Except Fault FinishedRun := do
  let (steps, m) ← ((Machine.fresh Memory.defaultSize).load a.image).run budget
  return ⟨a.warnings, steps, m⟩

/-- Assembles a source text and runs it; a program with errors is not run. -/
def runToEnd (src : Text) (budget : Int) : Except Fault (Except AssemblyError FinishedRun) := do
  let a ← assemble src
  match a.failure? with
  | some e => return .error e
  | none => return .ok (← a.runToEnd budget)

end AccMachine
