import AccMachine.Assembly
import AccMachine.Console.Display
import AccMachine.Console.Sample
import AccMachine.Editor
import AccMachine.Numeral.Typed

namespace AccMachine

structure Timer where
  id : Nat
  delay : Int
deriving DecidableEq

/--
The state of the window. `timers` are the calls that wait, and `job` names the one that the run
loop counts on. `markedPc` and `markedSp` are where the marked rows of the memory list are.
-/
structure Console where
  machine : Machine
  editor : Editor
  running : Bool
  job : Option Nat
  timers : List Timer
  timersMade : Nat
  hex : Bool
  speed : Int
  cacheChoice : CacheChoice
  followPc : Bool
  markedPc : Option Word
  markedSp : Option Word
  display : Display

/-- What the user can do, and what can happen behind the user's back. -/
inductive Action
  | edit (src : Text)
  | assemble
  | step
  | run
  | stop
  | reset
  | changeBase
  | setSpeed (value : Text)
  | chooseCache (choice : CacheChoice)
  | follow (on : Bool)
  | fire
  | setRegister (r : Register) (v : Word)
  | setMemory (a : Int) (v : Word)
  | refresh (full : Bool)

namespace Console

/-- The run loop waits at least this many milliseconds between two steps. -/
def shortestDelay : Int := 10

def defaultSpeed : Int := 500

def log (c : Console) (lines : List String) : Console :=
  { c with display := { c.display with log := lines.reverse ++ c.display.log } }

def showPhase (c : Console) (p : Phase) : Console :=
  { c with display := { c.display with phase := p } }

def drawCache (c : Console) : Console :=
  { c with display := { c.display with
      cache := Display.cacheRows c.hex (Display.chosenCache c.machine c.cacheChoice)
      cacheStatus := Display.cacheStatusText c.machine } }

/--
Draws the memory list: all of it, or only the rows that may have changed since the last drawing,
which are those of the program counter and the stack pointer, where these were, and the row of the
last data access.
-/
def drawMemory (c : Console) (full : Bool) : Console :=
  let m := c.machine
  let rows := if full then Display.unmarkedRows c.hex m.memory else c.display.memory
  let addrs := [m.reg .pc, m.reg .sp] ++
    (if full then [] else c.markedPc.toList ++ c.markedSp.toList ++ [m.reg .mar])
  let pc := m.reg .pc
  let seen := if c.followPc ∧ m.memory.InRange (Machine.address pc) then some pc.toNat
    else c.display.seen
  { c with
    display := { c.display with
      memory := addrs.foldl (Display.redrawRow c.hex m) rows
      seen := seen }
    markedPc := some pc
    markedSp := some (m.reg .sp) }

def refresh (c : Console) (full : Bool) : Console :=
  let c := { c with display := { c.display with
    registers := Display.registerRows c.machine
    next := Display.nextText c.machine } }
  let c := (c.drawMemory full).drawCache
  let c := { c with display := { c.display with cycles := Display.cyclesText c.machine } }
  if c.machine.halted then c.showPhase .halted else c

def schedule (c : Console) : Console :=
  let id := c.timersMade
  { c with
    timers := c.timers ++ [⟨id, max c.speed shortestDelay⟩]
    timersMade := id + 1
    job := some id }

def stepOnce (c : Console) : Option Fault × Console :=
  match c.machine.step with
  | .error f => (some f, c)
  | .ok (trace, m) =>
    (none, (({ c with machine := m }.log (trace.map TraceLine.text)).refresh false))

def nextRound (c : Console) : Option Fault × Console :=
  let c := { c with job := none }
  if !c.running then (none, c)
  else
    match c.stepOnce with
    | (some f, c) => (some f, c)
    | (none, c) =>
      if c.machine.halted then
        (none, { c with running := false }.log ["=== FIM DA EXECUCAO (HALT) ==="])
      else (none, c.schedule)

/-- Cancels the call that waits, and pauses a run. -/
def stop (c : Console) : Console :=
  let c := match c.job with
    | none => c
    | some id => { c with timers := c.timers.filter (·.id ≠ id), job := none }
  if c.running then
    ({ c with running := false }.showPhase .paused).log ["Execucao pausada."]
  else c

def assembleText (c : Console) : Option Fault × Console :=
  let c := c.stop
  match AccMachine.assemble c.editor.text with
  | .error f => (some f, c)
  | .ok a =>
    match a.failure? with
    | some e =>
      let dialog := ⟨"Erro no Assembler", "\n".intercalate e.errors⟩
      (none, { c with display := { c.display with dialogs := dialog :: c.display.dialogs } })
    | none =>
      let c := { c with machine := c.machine.load a.image }.refresh true
      let lines := s!"Programa carregado. ({a.image.size} palavras)" :: a.warnings
      (none, (c.log lines).showPhase .ready)

def stepByHand (c : Console) : Option Fault × Console :=
  let c := if c.running then c.stop else c
  if c.machine.halted then (none, c.log ["CPU parada (HALT). Reinicie para continuar."])
  else c.stepOnce

def startRun (c : Console) : Option Fault × Console :=
  if c.running then (none, c)
  else if c.machine.halted then
    (none, c.log ["A CPU esta em HALT. Resete para rodar novamente."])
  else ({ c with running := true }.showPhase .running).nextRound

def resetMachine (c : Console) : Console :=
  let c := c.stop
  let c := { c with machine := c.machine.reset, markedPc := none, markedSp := none }
  ((c.showPhase .idle).log ["--- Sistema Reiniciado ---"]).refresh true

def changeBase (c : Console) : Console :=
  let hex := !c.hex
  let c := { c with
    hex := hex
    display := { c.display with hexButton := Display.hexButtonText hex } }
  c.refresh true

def fireTimer (c : Console) : Option Fault × Console :=
  match c.timers with
  | [] => (none, c)
  | _ :: rest => { c with timers := rest }.nextRound

/-- Does an action. A fault leaves the window as far as the action came. -/
def act (c : Console) : Action → Option Fault × Console
  | .edit src =>
    let (f, editor) := c.editor.setText src
    (f, { c with editor := editor })
  | .assemble => c.assembleText
  | .step => c.stepByHand
  | .run => c.startRun
  | .stop => (none, c.stop)
  | .reset => (none, c.resetMachine)
  | .changeBase => (none, c.changeBase)
  | .setSpeed value =>
    match Numeral.readTruncated value with
    | .error f => (some f, c)
    | .ok n => (none, { c with speed := n })
  | .chooseCache choice => (none, { c with cacheChoice := choice }.drawCache)
  | .follow on => (none, { c with followPc := on })
  | .fire => c.fireTimer
  | .setRegister r v => (none, { c with machine := c.machine.put r v })
  | .setMemory a v =>
    (none, { c with machine := { c.machine with memory := c.machine.memory.set a v } })
  | .refresh full => (none, c.refresh full)

def blank (m : Machine) (speed : Int) : Console where
  machine := m
  editor := (Editor.empty.setText sampleProgram).2
  running := false
  job := none
  timers := []
  timersMade := 0
  hex := true
  speed := speed
  cacheChoice := .data
  followPc := true
  markedPc := none
  markedSp := none
  display :=
    { phase := .stopped
      cycles := "Ciclos: 0"
      next := "PC: 0000"
      cacheStatus := "Status: --"
      hexButton := Display.hexButtonText true
      registers := []
      cache := []
      memory := #[]
      seen := none
      log := []
      dialogs := [] }

/-- The window as it opens over a fresh machine. A memory has to have a size to be listed. -/
def opened (size speed : Int) : Except Fault Console :=
  if size < 0 then .error .badValue
  else .ok ((blank (Machine.fresh size) speed).refresh true)

end Console

end AccMachine
