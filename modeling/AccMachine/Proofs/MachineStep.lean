import AccMachine.Proofs.MachineAccess

namespace AccMachine

theorem Memory.set_of_not_inRange {m : Memory} {a : Int} (h : ¬m.InRange a) (v : Word) :
    m.set a v = m := by
  have hs := m.words_size
  unfold Memory.set
  split
  next h0 =>
    have hn : m.words.size ≤ a.toNat := by
      have : ¬(0 ≤ a ∧ a < m.size) := h
      omega
    have hw : m.words.setIfInBounds a.toNat v = m.words := Array.setIfInBounds_eq_of_size_le hn
    cases m
    simp_all
  next => rfl

namespace Machine

variable {m : Machine}

def bare (m : Machine) : BareMachine where
  memory := m.memory
  registers := m.registers
  halted := m.halted
  cycle := m.cycle
  trace := m.trace

@[simp] theorem bare_memory (m : Machine) : m.bare.memory = m.memory := rfl

@[simp] theorem bare_reg (m : Machine) (r : Register) : m.bare.reg r = m.reg r := rfl

@[simp] theorem bare_put (m : Machine) (r : Register) (v : Word) :
    (m.put r v).bare = m.bare.put r v := rfl

@[simp] theorem bare_note (m : Machine) (t : TraceLine) : (m.note t).bare = m.bare.note t := rfl

@[simp] theorem bare_loaded (m : Machine) (a : Word) : (m.loaded a).bare = m.bare.read a := by
  unfold loaded BareMachine.read BareMachine.mark
  by_cases hin : m.memory.InRange (address a)
  · rw [if_pos hin, if_pos (show m.bare.memory.InRange (address a) from hin)]
    rfl
  · rw [if_neg hin, if_neg (show ¬m.bare.memory.InRange (address a) from hin)]

@[simp] theorem bare_stored (m : Machine) (a v : Word) :
    (m.stored a v).bare = m.bare.write a v := by
  unfold stored BareMachine.write BareMachine.mark
  by_cases hin : m.memory.InRange (address a)
  · rw [if_pos hin, if_pos (show m.bare.memory.InRange (address a) from hin)]
    rfl
  · rw [if_neg hin, if_neg (show ¬m.bare.memory.InRange (address a) from hin)]
    have hset : m.bare.memory.set (address a) v = m.bare.memory := Memory.set_of_not_inRange hin v
    rw [hset]

@[simp] theorem reg_loaded (m : Machine) (a : Word) {r : Register} (hr : r ≠ .mar)
    (hb : r ≠ .mbr) : (m.loaded a).reg r = m.reg r := by
  rw [← bare_reg, bare_loaded, BareMachine.reg_read m.bare a hr hb, bare_reg]

theorem Sound.put (h : m.Sound) (r : Register) (v : Word) : (m.put r v).Sound :=
  ((Follows.refl m).put r v).sound h

theorem Sound.note (h : m.Sound) (t : TraceLine) : (m.note t).Sound :=
  ((Follows.refl m).note t).sound h

theorem Sound.loadWord_bind {α : Type} (h : m.Sound) (a : Word)
    (k : Word × Machine → Except Fault α) :
    (m.loadWord a >>= k) = k (m.memory.get (address a), m.loaded a) := by
  rw [h.loadWord_eq]
  rfl

theorem Sound.storeWord_bind {α : Type} (h : m.Sound) (a v : Word)
    (k : Machine → Except Fault α) : (m.storeWord a v >>= k) = k (m.stored a v) := by
  rw [h.storeWord_eq]
  rfl

def pushed (m : Machine) (v : Word) : Machine :=
  (m.put .sp (m.reg .sp - 1)).stored (m.reg .sp - 1) v

def popped (m : Machine) : Machine := (m.loaded (m.reg .sp)).put .sp (m.reg .sp + 1)

theorem Sound.push_bind {α : Type} (h : m.Sound) (v : Word) (k : Machine → Except Fault α) :
    (m.push v >>= k) = k (m.pushed v) :=
  (h.put .sp _).storeWord_bind _ v k

theorem Sound.pop_bind {α : Type} (h : m.Sound) (k : Word × Machine → Except Fault α) :
    (m.pop >>= k) = k (m.memory.get (address (m.reg .sp)), m.popped) := by
  have hpop : m.pop = .ok (m.memory.get (address (m.reg .sp)), m.popped) :=
    h.loadWord_bind _ _
  rw [hpop]
  rfl

@[simp] theorem bare_pushed (m : Machine) (v : Word) : (m.pushed v).bare = m.bare.push v :=
  bare_stored (m.put .sp (m.reg .sp - 1)) (m.reg .sp - 1) v

@[simp] theorem bare_popped (m : Machine) : m.popped.bare = m.bare.pop := by
  simp [popped, BareMachine.pop]

@[simp] theorem bare_branch (m : Machine) (o : Operation) (taken : Bool) (target : Word)
    (reason : String) :
    (m.branch o taken target reason).bare = m.bare.branch o taken target reason := by
  unfold Machine.branch BareMachine.branch
  split <;> rfl

theorem Follows.branch (m : Machine) (o : Operation) (taken : Bool) (target : Word)
    (reason : String) : m.Follows (m.branch o taken target reason) := by
  unfold Machine.branch
  split
  · exact ((Follows.refl m).put _ _).note _
  · exact (Follows.refl m).note _

theorem Follows.flushed (m : Machine) :
    m.Follows { m with
      halted := true
      dataCache := m.dataCache.flush
      codeCache := m.codeCache.flush } := by
  refine ⟨fun h => ⟨h.code.congr rfl rfl, h.codeGeometry, h.data.congr rfl rfl, h.dataGeometry,
    h.coherent.congr fun a => ?_⟩, rfl, rfl, [.flush], rfl, rfl⟩
  exact Cache.held?_congr_all rfl rfl a

/-- An operation does what it does without caches, and follows what it started from. -/
theorem Sound.perform_eq (h : m.Sound) (o : Operation) (x : Word) :
    ∃ m', m.perform o x = .ok m' ∧ m'.bare = m.bare.perform o x ∧ m.Follows m' := by
  have here := Follows.refl m
  cases o with
  | lodd =>
    refine ⟨_, (h.note _).loadWord_bind x _, ?_, (((here.note _).loaded x).put _ _).note _⟩
    simp [BareMachine.perform, BareMachine.word]
  | lodl =>
    refine ⟨_, h.loadWord_bind _ _, ?_, ((here.loaded _).put _ _).note _⟩
    simp [BareMachine.perform, BareMachine.word, stackSlot]
  | addd | subd | addl | subl =>
    refine ⟨_, h.loadWord_bind _ _, ?_, ((here.loaded _).put _ _).note _⟩
    simp [BareMachine.perform, BareMachine.word, stackSlot]
  | stod | stol =>
    refine ⟨_, h.storeWord_bind _ _ _, ?_, (here.stored _ _).note _⟩
    simp [BareMachine.perform, stackSlot]
  | jpos | jzer | jneg | jnze => exact ⟨_, rfl, bare_branch m _ _ x _, .branch m _ _ x _⟩
  | jump | loco | insp | desp => exact ⟨_, rfl, rfl, (here.put _ _).note _⟩
  | call =>
    refine ⟨_, h.push_bind _ _, ?_, (((here.put _ _).stored _ _).put _ _).note _⟩
    simp [BareMachine.perform]
  | pshi =>
    have hload := sound_loaded h (m.reg .ac)
    refine ⟨_, (h.loadWord_bind _ _).trans (hload.push_bind _ _), ?_,
      (((here.loaded _).put _ _).stored _ _).note _⟩
    simp [BareMachine.perform, BareMachine.word]
  | popi =>
    have hload := sound_loaded h (m.reg .sp)
    refine ⟨_, (h.loadWord_bind _ _).trans (hload.storeWord_bind _ _ _), ?_,
      (((here.loaded _).stored _ _).put _ _).note _⟩
    simp [BareMachine.perform, BareMachine.word]
  | push =>
    refine ⟨_, h.push_bind _ _, ?_, ((here.put _ _).stored _ _).note _⟩
    simp [BareMachine.perform]
  | pop | retn =>
    refine ⟨_, h.pop_bind _, ?_, (((here.loaded _).put _ _).put _ _).note _⟩
    simp [BareMachine.perform, BareMachine.word]
  | swap => exact ⟨_, rfl, rfl, ((here.put _ _).put _ _).note _⟩
  | halt => exact ⟨_, rfl, rfl, (Follows.flushed m).note _⟩

theorem Sound.execute_eq (h : m.Sound) (w : Word) :
    ∃ m', m.execute (decode w) = .ok m' ∧ m'.bare = m.bare.execute w ∧ m.Follows m' := by
  unfold Machine.execute BareMachine.execute
  cases (decode w).operation with
  | none => exact ⟨_, rfl, rfl, (Follows.refl m).note _⟩
  | some o => exact h.perform_eq o _

def fetchedWord (m : Machine) : Word :=
  (m.codeCache.held? (address (m.reg .pc))).getD (m.memory.get (address (m.reg .pc)))

def fetched (m : Machine) : Machine :=
  { m with
    registers := (m.bare.fetch m.fetchedWord).registers
    trace := (m.bare.fetch m.fetchedWord).trace
    codeCache := m.codeCache.afterRead m.memory (address (m.reg .pc)) }

theorem fetch_eq (code : m.codeCache.Shaped) : m.fetch = .ok (m.fetchedWord, m.fetched) := by
  have hread := code.read_eq m.memory
    (Cache.readEvent_writable code.positive (address_nonneg (m.reg .pc))
      (writable_address (m.reg .pc)) _)
  have hnote (l : TraceLine) : ((m.put .mar (m.reg .pc)).note l).codeCache.read
      ((m.put .mar (m.reg .pc)).note l).memory (address (m.reg .pc)) =
      m.codeCache.read m.memory (address (m.reg .pc)) := rfl
  unfold fetch
  dsimp only
  rw [hnote, hread]
  rfl

theorem Sound.fetched (h : m.Sound) : m.fetched.Sound :=
  ⟨h.code.afterRead m.memory _, (Cache.geometry_afterRead ..).trans h.codeGeometry, h.data,
    h.dataGeometry, h.coherent⟩

/-- The machine as a step leaves it before it executes: a fetch, where there is one. -/
def readied (m : Machine) : Machine :=
  if m.halted = false ∧ m.memory.InRange (address (m.reg .pc)) then
    { m with trace := [] }.fetched
  else m

theorem Sound.readied (h : m.Sound) : m.readied.Sound := by
  have hclear : { m with trace := [] }.Sound := h.congr rfl rfl rfl
  unfold Machine.readied
  split
  · exact hclear.fetched
  · exact h

@[simp] theorem memory_readied (m : Machine) : m.readied.memory = m.memory := by
  unfold readied
  split <;> rfl

@[simp] theorem dataCache_readied (m : Machine) : m.readied.dataCache = m.dataCache := by
  unfold readied
  split <;> rfl

/-- A step is a step without caches on the word that the code cache gives. -/
theorem Sound.step_eq (h : m.Sound) :
    ∃ trace m', m.step = .ok (trace, m') ∧ (trace, m'.bare) = m.bare.stepOn m.fetchedWord ∧
      m.readied.Follows m' := by
  -- The three ways of a step: already halted, fetched and executed, or off the end of memory.
  unfold Machine.step BareMachine.stepOn Machine.readied
  by_cases hhalt : m.halted
  · rw [if_pos hhalt, if_pos (show m.bare.halted from hhalt), if_neg (by simp [hhalt])]
    exact ⟨_, _, rfl, rfl, .refl m⟩
  · rw [if_neg hhalt, if_neg (show ¬m.bare.halted from hhalt)]
    by_cases hin : m.memory.InRange (address (m.reg .pc))
    · have hclear : { m with trace := [] }.Sound := h.congr rfl rfl rfl
      obtain ⟨m', hexec, hbare, hfollows⟩ := hclear.fetched.execute_eq m.fetchedWord
      rw [if_pos hin, if_pos (show m.bare.memory.InRange (address (m.bare.reg .pc)) from hin),
        if_pos ⟨by simpa using hhalt, hin⟩]
      refine ⟨m'.trace, { m' with cycle := m'.cycle + 1 }, ?_, ?_, ?_⟩
      · rw [fetch_eq hclear.code]
        change (do let m ← Machine.execute _ (decode m.fetchedWord); _) = _
        rw [hexec]
        rfl
      · have hb : m'.bare =
            ({ m.bare with trace := [] }.fetch m.fetchedWord).execute m.fetchedWord := hbare
        rw [← hb]
        rfl
      · exact hfollows.trans (.congr rfl rfl rfl)
    · rw [if_neg hin, if_neg (show ¬m.bare.memory.InRange (address (m.bare.reg .pc)) from hin),
        if_neg fun hc => hin hc.2]
      exact ⟨_, _, rfl, rfl, .congr rfl rfl rfl⟩

end Machine

end AccMachine
