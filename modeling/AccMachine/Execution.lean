import AccMachine.Machine

namespace AccMachine.Machine

def branch (m : Machine) (o : Operation) (taken : Bool) (target : Word) (reason : String) :
    Machine :=
  if taken then (m.put .pc target).note (.ran o s!"{reason}. PC <- {target.toNat}")
  else m.note (.ran o "Salto ignorado.")

def stackSlot (m : Machine) (offset : Word) : Word := m.reg .sp + offset

def signedAc (m : Machine) : Int := (m.reg .ac).toInt

def perform (m : Machine) (o : Operation) (x : Word) : Except Fault Machine :=
  match o with
  | .lodd => do
    let (v, m) ← (m.note (.ran .lodd s!"MAR <- {x.toNat}; RD (D-Cache)")).loadWord x
    return (m.put .ac v).note (.ran .lodd s!"AC <- MBR ({v.toNat})")
  | .stod => do
    let ac := m.reg .ac
    let m ← m.storeWord x ac
    return m.note (.ran .stod s!"MAR <- {x.toNat}; MBR <- AC ({ac.toNat}); WR (D-Cache)")
  | .addd => do
    let (v, m) ← m.loadWord x
    let sum := m.reg .ac + v
    return (m.put .ac sum).note (.ran .addd s!"AC <- AC + MBR ({sum.toNat})")
  | .subd => do
    let (v, m) ← m.loadWord x
    let difference := m.reg .ac - v
    return (m.put .ac difference).note (.ran .subd s!"AC <- AC - MBR ({difference.toNat})")
  | .jpos => return m.branch .jpos (0 ≤ m.signedAc) x "AC >= 0"
  | .jzer => return m.branch .jzer (m.reg .ac == 0) x "AC == 0"
  | .jump => return (m.put .pc x).note (.ran .jump s!"PC <- {x.toNat}")
  | .loco => return (m.put .ac x).note (.ran .loco s!"AC <- {x.toNat}")
  | .lodl => do
    let (v, m) ← m.loadWord (m.stackSlot x)
    return (m.put .ac v).note (.ran .lodl s!"MAR <- SP + {x.toNat}; RD; AC <- MBR")
  | .stol => do
    let m ← m.storeWord (m.stackSlot x) (m.reg .ac)
    return m.note (.ran .stol s!"MAR <- SP + {x.toNat}; MBR <- AC; WR")
  | .addl => do
    let (v, m) ← m.loadWord (m.stackSlot x)
    return (m.put .ac (m.reg .ac + v)).note (.ran .addl s!"AC <- AC + Mem[SP+{x.toNat}]")
  | .subl => do
    let (v, m) ← m.loadWord (m.stackSlot x)
    return (m.put .ac (m.reg .ac - v)).note (.ran .subl s!"AC <- AC - Mem[SP+{x.toNat}]")
  | .jneg => return m.branch .jneg (m.signedAc < 0) x "AC < 0"
  | .jnze => return m.branch .jnze (m.reg .ac != 0) x "AC != 0"
  | .call => do
    let m ← m.push (m.reg .pc)
    return (m.put .pc x).note (.ran .call s!"SP <- SP - 1; Mem[SP] <- PC; PC <- {x.toNat}")
  | .pshi => do
    let addr := m.reg .ac
    let (v, m) ← m.loadWord addr
    let m ← m.push v
    return m.note (.ran .pshi s!"SP <- SP - 1; Mem[SP] <- Mem[AC:{addr.toNat}] ({v.toNat})")
  | .popi => do
    let sp := m.reg .sp
    let (v, m) ← m.loadWord sp
    let addr := m.reg .ac
    let m ← m.storeWord addr v
    return (m.put .sp (sp + 1)).note
      (.ran .popi s!"Mem[AC:{addr.toNat}] <- Mem[SP] ({v.toNat}); SP <- SP + 1")
  | .push => do
    let m ← m.push (m.reg .ac)
    return m.note (.ran .push "SP <- SP - 1; Mem[SP] <- AC")
  | .pop => do
    let (v, m) ← m.pop
    return (m.put .ac v).note (.ran .pop "AC <- Mem[SP]; SP <- SP + 1")
  | .retn => do
    let (v, m) ← m.pop
    return (m.put .pc v).note (.ran .retn s!"PC <- Mem[SP] ({v.toNat}); SP <- SP + 1")
  | .swap =>
    return ((m.put .ac (m.reg .sp)).put .sp (m.reg .ac)).note (.ran .swap "AC <-> SP")
  | .insp => return (m.put .sp (m.reg .sp + x)).note (.ran .insp s!"SP <- SP + {x.toNat}")
  | .desp => return (m.put .sp (m.reg .sp - x)).note (.ran .desp s!"SP <- SP - {x.toNat}")
  | .halt =>
    let m := { m with
      halted := true
      dataCache := m.dataCache.flush
      codeCache := m.codeCache.flush }
    return m.note (.ran .halt "Execucao finalizada. Caches sincronizadas.")

def execute (m : Machine) (i : Instruction) : Except Fault Machine :=
  match i.operation with
  | none => .ok (m.note (.unknown i.word))
  | some o => m.perform o i.operand

/--
Fetches and executes one word, and gives the trace of doing so. A halted machine does nothing, and
one whose program counter has left the memory halts instead.
-/
def step (m : Machine) : Except Fault (List TraceLine × Machine) :=
  if m.halted then .ok ([], m)
  else if m.memory.InRange (address (m.reg .pc)) then do
    let (w, m) ← { m with trace := [] }.fetch
    let m ← m.execute (decode w)
    return (m.trace, { m with cycle := m.cycle + 1 })
  else .ok ([], { m with halted := true, trace := [] })

def runFrom (m : Machine) (done : Nat) : Nat → Except Fault (Nat × Machine)
  | 0 => .ok (done, m)
  | budget + 1 =>
    if m.halted then .ok (done, m)
    else do
      let (_, m) ← m.step
      m.runFrom (done + 1) budget

def defaultBudget : Int := 10000

/-- Runs within a budget and gives the number of steps made; a negative budget allows none. -/
def run (m : Machine) (budget : Int) : Except Fault (Nat × Machine) := m.runFrom 0 budget.toNat

end AccMachine.Machine
