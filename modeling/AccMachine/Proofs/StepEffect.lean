import AccMachine.Proofs.LoadForgets

namespace AccMachine.Machine

/-- What a step changes of a machine, and by which way. -/
structure StepEffect (m m' : Machine) : Prop where
  size : m'.memory.size = m.memory.size
  /-- A word of memory that changes is the one that MAR and MBR tell. -/
  memory : ∀ a, m'.memory.get a ≠ m.memory.get a →
    a = address (m'.reg .mar) ∧ m'.memory.get a = m'.reg .mbr
  registers : ∀ r ∈ [.tir, .a, .b, .c, .d, .e, .f], m'.reg r = m.reg r
  /-- The code cache serves the fetch and is flushed by a halt; data goes through the data cache. -/
  fetches : m.halted = false → m.memory.InRange (address (m.reg .pc)) →
    ∃ w fetched, m.fetch = .ok (w, fetched) ∧
      m.codeCache.read m.memory (address (m.reg .pc)) = (.ok w, fetched.codeCache) ∧
      m'.reg .ir = w ∧
      m'.codeCache = (if w = 0xFFFF then fetched.codeCache.flush else fetched.codeCache) ∧
      m.dataCache.useAll m.memory (fetched.dataUses w) = .ok (m'.dataCache, m'.memory)
  /-- A step without a fetch leaves memory, the registers and both caches. -/
  rests : m.halted ∨ ¬m.memory.InRange (address (m.reg .pc)) →
    m'.memory = m.memory ∧ m'.registers = m.registers ∧ m'.codeCache = m.codeCache ∧
      m'.dataCache = m.dataCache

variable {m m' : Machine}

theorem StepEffect.of_eq (idle : m.halted ∨ ¬m.memory.InRange (address (m.reg .pc)))
    (memory : m'.memory = m.memory) (registers : m'.registers = m.registers)
    (code : m'.codeCache = m.codeCache) (data : m'.dataCache = m.dataCache) :
    m.StepEffect m' := by
  refine ⟨by rw [memory], fun a ha => absurd (by rw [memory]) ha, fun r _ => ?_, ?_,
    fun _ => ⟨memory, registers, code, data⟩⟩
  · unfold reg
    rw [registers]
  · intro live inside
    rcases idle with halted | outside
    · rw [live] at halted
      cases halted
    · exact absurd inside outside

theorem Shaped.fetches (h : m.Shaped) : m.fetch = .ok (m.fetchedWord, m.fetched) ∧
    m.codeCache.read m.memory (address (m.reg .pc)) = (.ok m.fetchedWord, m.fetched.codeCache) :=
  ⟨fetch_eq h.code, h.code.read_eq m.memory (Cache.readEvent_writable h.code.positive
    (address_nonneg (m.reg .pc)) (writable_address (m.reg .pc)) _)⟩

theorem reg_fetched (m : Machine) {r : Register} (hr : r ∉ BareMachine.written) (hir : r ≠ .ir) :
    m.fetched.reg r = m.reg r := by
  cases r <;> first | rfl | exact absurd rfl hir | exact absurd (by decide) hr

theorem Executes.stepEffect (h : m.Shaped) (live : m.halted = false)
    (inside : m.memory.InRange (address (m.reg .pc)))
    (executes : { m with trace := [] }.fetched.Executes m.fetchedWord m') :
    m.StepEffect { m' with cycle := m'.cycle + 1 } := by
  have frame := executes.frame_of_fetch
  obtain ⟨hfetch, hread⟩ := h.fetches
  refine ⟨frame.size, fun a ha => (frame.word a).resolve_left ha, fun r hr => ?_, ?_, ?_⟩
  · have hunwritten : ∀ r ∈ [.tir, .a, .b, .c, .d, .e, .f],
        r ∉ BareMachine.written ∧ r ≠ .ir := by decide
    obtain ⟨hnot, hir⟩ := hunwritten r hr
    exact (executes.kept r hnot).trans (reg_fetched { m with trace := [] } hnot hir)
  · exact fun _ _ => ⟨_, _, hfetch, hread, executes.kept .ir (by decide), executes.code,
      executes.data⟩
  · rintro (halted | outside)
    · rw [live] at halted
      cases halted
    · exact absurd inside outside

theorem Shaped.step_effect (h : m.Shaped) :
    ∃ trace m', m.step = .ok (trace, m') ∧ m.StepEffect m' := by
  rcases h.step_cases with ⟨halted, hstep⟩ | ⟨-, outside, hstep⟩ |
    ⟨live, inside, m', hstep, executes⟩
  · exact ⟨_, _, hstep, .of_eq (.inl halted) rfl rfl rfl rfl⟩
  · exact ⟨_, _, hstep, .of_eq (.inr outside) rfl rfl rfl rfl⟩
  · exact ⟨_, _, hstep, executes.stepEffect h live inside⟩

/--
Whatever a machine underwent, a step changes at most one word of memory, to what it leaves in MBR at
the address that it leaves in MAR. It never touches the registers that no instruction uses, takes
the word that the code cache gives into IR, and changes memory through the data cache alone.
-/
theorem step_changes_one_word (size : Int) (history : List Intervention) :
    ∃ m trace m', (fresh size).undergoAll history = .ok m ∧ m.step = .ok (trace, m') ∧
      m.StepEffect m' := by
  obtain ⟨m, hall, hshaped, -⟩ := (shaped_fresh size).undergoAll_ok history
  obtain ⟨trace, m', hstep, effect⟩ := hshaped.step_effect
  exact ⟨m, trace, m', hall, hstep, effect⟩

end AccMachine.Machine
