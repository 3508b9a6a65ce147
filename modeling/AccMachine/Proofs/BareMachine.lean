import AccMachine.Execution

namespace AccMachine

/-- The machine without its caches: an address outside of the memory reads as zero. -/
structure BareMachine where
  memory : Memory
  registers : Registers
  halted : Bool
  cycle : Nat
  trace : List TraceLine

namespace BareMachine

open Machine (address)

def start (size : Int) (image : Array Int) : BareMachine where
  memory := (Memory.zeros size).load image
  registers := Registers.initial
  halted := false
  cycle := 0
  trace := []

def reg (m : BareMachine) (r : Register) : Word := m.registers.get r

def put (m : BareMachine) (r : Register) (v : Word) : BareMachine :=
  { m with registers := m.registers.set r v }

def note (m : BareMachine) (t : TraceLine) : BareMachine := { m with trace := m.trace ++ [t] }

def word (m : BareMachine) (a : Word) : Word := m.memory.get (address a)

/-- An access to data inside of the memory leaves its address in MAR and its word in MBR. -/
def mark (m : BareMachine) (a v : Word) : BareMachine :=
  if m.memory.InRange (address a) then (m.put .mar a).put .mbr v else m

def read (m : BareMachine) (a : Word) : BareMachine := m.mark a (m.word a)

def write (m : BareMachine) (a v : Word) : BareMachine :=
  { m.mark a v with memory := m.memory.set (address a) v }

def push (m : BareMachine) (v : Word) : BareMachine :=
  (m.put .sp (m.reg .sp - 1)).write (m.reg .sp - 1) v

def pop (m : BareMachine) : BareMachine := (m.read (m.reg .sp)).put .sp (m.reg .sp + 1)

def branch (m : BareMachine) (o : Operation) (taken : Bool) (target : Word) (reason : String) :
    BareMachine :=
  if taken then (m.put .pc target).note (.ran o s!"{reason}. PC <- {target.toNat}")
  else m.note (.ran o "Salto ignorado.")

def perform (m : BareMachine) (o : Operation) (x : Word) : BareMachine :=
  match o with
  | .lodd =>
    (((m.note (.ran .lodd s!"MAR <- {x.toNat}; RD (D-Cache)")).read x).put .ac (m.word x)).note
      (.ran .lodd s!"AC <- MBR ({(m.word x).toNat})")
  | .stod =>
    (m.write x (m.reg .ac)).note
      (.ran .stod s!"MAR <- {x.toNat}; MBR <- AC ({(m.reg .ac).toNat}); WR (D-Cache)")
  | .addd =>
    let sum := m.reg .ac + m.word x
    ((m.read x).put .ac sum).note (.ran .addd s!"AC <- AC + MBR ({sum.toNat})")
  | .subd =>
    let difference := m.reg .ac - m.word x
    ((m.read x).put .ac difference).note (.ran .subd s!"AC <- AC - MBR ({difference.toNat})")
  | .jpos => m.branch .jpos (0 ≤ (m.reg .ac).toInt) x "AC >= 0"
  | .jzer => m.branch .jzer (m.reg .ac == 0) x "AC == 0"
  | .jump => (m.put .pc x).note (.ran .jump s!"PC <- {x.toNat}")
  | .loco => (m.put .ac x).note (.ran .loco s!"AC <- {x.toNat}")
  | .lodl =>
    let a := m.reg .sp + x
    ((m.read a).put .ac (m.word a)).note (.ran .lodl s!"MAR <- SP + {x.toNat}; RD; AC <- MBR")
  | .stol =>
    (m.write (m.reg .sp + x) (m.reg .ac)).note
      (.ran .stol s!"MAR <- SP + {x.toNat}; MBR <- AC; WR")
  | .addl =>
    let a := m.reg .sp + x
    ((m.read a).put .ac (m.reg .ac + m.word a)).note
      (.ran .addl s!"AC <- AC + Mem[SP+{x.toNat}]")
  | .subl =>
    let a := m.reg .sp + x
    ((m.read a).put .ac (m.reg .ac - m.word a)).note
      (.ran .subl s!"AC <- AC - Mem[SP+{x.toNat}]")
  | .jneg => m.branch .jneg ((m.reg .ac).toInt < 0) x "AC < 0"
  | .jnze => m.branch .jnze (m.reg .ac != 0) x "AC != 0"
  | .call =>
    ((m.push (m.reg .pc)).put .pc x).note
      (.ran .call s!"SP <- SP - 1; Mem[SP] <- PC; PC <- {x.toNat}")
  | .pshi =>
    let a := m.reg .ac
    ((m.read a).push (m.word a)).note
      (.ran .pshi s!"SP <- SP - 1; Mem[SP] <- Mem[AC:{a.toNat}] ({(m.word a).toNat})")
  | .popi =>
    let a := m.reg .ac
    let v := m.word (m.reg .sp)
    (((m.read (m.reg .sp)).write a v).put .sp (m.reg .sp + 1)).note
      (.ran .popi s!"Mem[AC:{a.toNat}] <- Mem[SP] ({v.toNat}); SP <- SP + 1")
  | .push => (m.push (m.reg .ac)).note (.ran .push "SP <- SP - 1; Mem[SP] <- AC")
  | .pop => (m.pop.put .ac (m.word (m.reg .sp))).note (.ran .pop "AC <- Mem[SP]; SP <- SP + 1")
  | .retn =>
    let v := m.word (m.reg .sp)
    (m.pop.put .pc v).note (.ran .retn s!"PC <- Mem[SP] ({v.toNat}); SP <- SP + 1")
  | .swap => ((m.put .ac (m.reg .sp)).put .sp (m.reg .ac)).note (.ran .swap "AC <-> SP")
  | .insp => (m.put .sp (m.reg .sp + x)).note (.ran .insp s!"SP <- SP + {x.toNat}")
  | .desp => (m.put .sp (m.reg .sp - x)).note (.ran .desp s!"SP <- SP - {x.toNat}")
  | .halt =>
    { m with halted := true }.note (.ran .halt "Execucao finalizada. Caches sincronizadas.")

def execute (m : BareMachine) (w : Word) : BareMachine :=
  match (decode w).operation with
  | none => m.note (.unknown w)
  | some o => m.perform o (decode w).operand

def fetch (m : BareMachine) (w : Word) : BareMachine :=
  let pc := m.reg .pc
  let m := (m.put .mar pc).note (.fetch s!"MAR <- PC ({pc.toNat}); RD (I-Cache)")
  (((m.put .mbr w).put .ir w).put .pc (pc + 1)).note
    (.fetch s!"IR <- MBR ({w.hex}); PC <- PC + 1")

def stepOn (m : BareMachine) (w : Word) : List TraceLine × BareMachine :=
  if m.halted then ([], m)
  else if m.memory.InRange (address (m.reg .pc)) then
    let m := ({ m with trace := [] }.fetch w).execute w
    (m.trace, { m with cycle := m.cycle + 1 })
  else ([], { m with halted := true, trace := [] })

def step (m : BareMachine) : List TraceLine × BareMachine := m.stepOn (m.word (m.reg .pc))

def steps (m : BareMachine) : Nat → List (List TraceLine) × BareMachine
  | 0 => ([], m)
  | k + 1 =>
    let (traces, m) := m.steps k
    let (trace, m) := m.step
    (traces ++ [trace], m)

def written : List Register := [.pc, .ac, .sp, .mar, .mbr]

variable {m m' m'' : BareMachine}

/-- Memory keeps its size, and a word that changes is the one that MAR and MBR tell. -/
structure Frame (m m' : BareMachine) : Prop where
  size : m'.memory.size = m.memory.size
  word : ∀ a, m'.memory.get a = m.memory.get a ∨
    a = address (m'.reg .mar) ∧ m'.memory.get a = m'.reg .mbr

@[simp] theorem reg_put (m : BareMachine) (r q : Register) (v : Word) :
    (m.put r v).reg q = if q = r then v else m.reg q :=
  Registers.get_set m.registers r q v

@[simp] theorem memory_put (m : BareMachine) (r : Register) (v : Word) :
    (m.put r v).memory = m.memory := rfl

@[simp] theorem reg_note (m : BareMachine) (t : TraceLine) (r : Register) :
    (m.note t).reg r = m.reg r := rfl

@[simp] theorem memory_note (m : BareMachine) (t : TraceLine) : (m.note t).memory = m.memory := rfl

@[simp] theorem memory_mark (m : BareMachine) (a v : Word) : (m.mark a v).memory = m.memory := by
  unfold mark
  split <;> rfl

@[simp] theorem reg_mark (m : BareMachine) (a v : Word) {r : Register} (hr : r ≠ .mar)
    (hb : r ≠ .mbr) : (m.mark a v).reg r = m.reg r := by
  unfold mark
  split <;> simp [hr, hb]

@[simp] theorem memory_read (m : BareMachine) (a : Word) : (m.read a).memory = m.memory :=
  memory_mark m a _

@[simp] theorem reg_read (m : BareMachine) (a : Word) {r : Register} (hr : r ≠ .mar)
    (hb : r ≠ .mbr) : (m.read a).reg r = m.reg r :=
  reg_mark m a _ hr hb

@[simp] theorem memory_write (m : BareMachine) (a v : Word) :
    (m.write a v).memory = m.memory.set (address a) v := rfl

theorem reg_write (m : BareMachine) (a v : Word) (r : Register) :
    (m.write a v).reg r = (m.mark a v).reg r := rfl

@[simp] theorem memory_push (m : BareMachine) (v : Word) :
    (m.push v).memory = m.memory.set (address (m.reg .sp - 1)) v := rfl

@[simp] theorem memory_pop (m : BareMachine) : m.pop.memory = m.memory := by
  simp [pop]

@[simp] theorem memory_branch (m : BareMachine) (o : Operation) (taken : Bool) (target : Word)
    (reason : String) : (m.branch o taken target reason).memory = m.memory := by
  unfold branch
  split <;> rfl

@[simp] theorem pc_fetch (m : BareMachine) (w : Word) :
    (m.fetch w).reg .pc = m.reg .pc + 1 := by
  simp [fetch]

theorem Frame.of_memory (h : m'.memory = m.memory) : Frame m m' :=
  ⟨by rw [h], fun a => .inl (by rw [h])⟩

theorem Frame.after (h : m'.memory = m.memory) (f : Frame m' m'') : Frame m m'' := by
  obtain ⟨size, word⟩ := f
  rw [h] at size word
  exact ⟨size, word⟩

theorem Frame.put (f : Frame m m') {r : Register} (v : Word) (hr : r ≠ .mar) (hb : r ≠ .mbr) :
    Frame m (m'.put r v) := by
  refine ⟨f.size, fun a => ?_⟩
  simpa [hr.symm, hb.symm] using f.word a

theorem Frame.note (f : Frame m m') (t : TraceLine) : Frame m (m'.note t) := ⟨f.size, f.word⟩

theorem frame_write (m : BareMachine) (a v : Word) : Frame m (m.write a v) := by
  refine ⟨by simp, fun b => ?_⟩
  by_cases hb : b = address a ∧ m.memory.InRange (address a)
  · have hmark : m.mark a v = (m.put .mar a).put .mbr v := if_pos hb.2
    exact .inr (by simp [reg_write, hmark, hb])
  · exact .inl (by simp [hb])

def store? (m : BareMachine) (x : Word) : Operation → Option (Word × Word)
  | .stod => some (x, m.reg .ac)
  | .stol => some (m.reg .sp + x, m.reg .ac)
  | .call => some (m.reg .sp - 1, m.reg .pc)
  | .pshi => some (m.reg .sp - 1, m.word (m.reg .ac))
  | .popi => some (m.reg .ac, m.word (m.reg .sp))
  | .push => some (m.reg .sp - 1, m.reg .ac)
  | _ => none

/-- Memory after an operation is memory before it with its store made. -/
theorem memory_perform (m : BareMachine) (o : Operation) (x : Word) :
    (m.perform o x).memory =
      match m.store? x o with
      | some (a, v) => m.memory.set (address a) v
      | none => m.memory := by
  cases o <;> simp [perform, store?]

end BareMachine

end AccMachine
