import AccMachine.Proofs.CacheUses
import AccMachine.Proofs.Decoding
import AccMachine.Proofs.MachineRequests

namespace AccMachine

theorem Operation.ofWord?_eq_halt_iff {w : Word} : ofWord? w = some .halt ↔ w = base .halt := by
  rw [ofWord?_eq_some_iff, ← BitVec.toNat_inj]
  simp [operandBits]

namespace Machine

variable {m m' m'' : Machine}

theorem Shaped.congr (h : m.Shaped) (hcode : m'.codeCache = m.codeCache)
    (hdata : m'.dataCache = m.dataCache) : m'.Shaped :=
  ⟨hcode ▸ h.code, hdata ▸ h.data⟩

structure Steady (m m' : Machine) : Prop where
  shaped : m.Shaped → m'.Shaped
  size : m'.memory.size = m.memory.size
  halted : m'.halted = m.halted
  cycle : m'.cycle = m.cycle

theorem Steady.refl (m : Machine) : m.Steady m := ⟨id, rfl, rfl, rfl⟩

theorem Steady.trans (first : m.Steady m') (second : m'.Steady m'') : m.Steady m'' :=
  ⟨second.shaped ∘ first.shaped, second.size.trans first.size,
    second.halted.trans first.halted, second.cycle.trans first.cycle⟩

theorem Steady.put (s : m.Steady m') (r : Register) (v : Word) : m.Steady (m'.put r v) :=
  s.trans ⟨fun h => h.congr rfl rfl, rfl, rfl, rfl⟩

theorem Steady.note (s : m.Steady m') (t : TraceLine) : m.Steady (m'.note t) :=
  s.trans ⟨fun h => h.congr rfl rfl, rfl, rfl, rfl⟩

def asked (m : Machine) (x : Word) : Operation → List CacheUse
  | .lodd | .addd | .subd => [.read (address x)]
  | .stod => [.write (address x) (m.reg .ac)]
  | .lodl | .addl | .subl => [.read (address (m.stackSlot x))]
  | .stol => [.write (address (m.stackSlot x)) (m.reg .ac)]
  | .call => [.write (address (m.reg .sp - 1)) (m.reg .pc)]
  | .pshi =>
    [.read (address (m.reg .ac)), .write (address (m.reg .sp - 1)) (m.dataAt (m.reg .ac))]
  | .popi => [.read (address (m.reg .sp)), .write (address (m.reg .ac)) (m.dataAt (m.reg .sp))]
  | .push => [.write (address (m.reg .sp - 1)) (m.reg .ac)]
  | .pop | .retn => [.read (address (m.reg .sp))]
  | .halt => [.flush]
  | _ => []

def dataUses (m : Machine) (w : Word) : List CacheUse :=
  match (decode w).operation with
  | none => []
  | some o => (m.asked (decode w).operand o).filter (·.Within m.memory)

/--
What an instruction other than a halt does on its way: its uses of data go through the data cache,
and a word of memory that changes is the one that MAR and MBR tell.
-/
structure Does (m : Machine) (asked : List CacheUse) (m' : Machine) : Prop where
  steady : m.Steady m'
  code : m'.codeCache = m.codeCache
  data : m.dataCache.useAll m.memory (asked.filter (·.Within m.memory)) =
    .ok (m'.dataCache, m'.memory)
  frame : BareMachine.Frame m.bare m'.bare
  kept : ∀ r ∉ BareMachine.written, m'.reg r = m.reg r

variable {uses : List CacheUse}

theorem Does.refl (m : Machine) : m.Does [] m :=
  ⟨.refl m, rfl, rfl, .of_memory rfl, fun _ _ => rfl⟩

theorem Does.put (d : m.Does uses m') (r : Register) (hr : r ∈ [.pc, .ac, .sp]) (v : Word) :
    m.Does uses (m'.put r v) := by
  have hmar : r ≠ .mar := by
    rintro rfl
    exact absurd hr (by decide)
  have hmbr : r ≠ .mbr := by
    rintro rfl
    exact absurd hr (by decide)
  have hwritten : r ∈ BareMachine.written := List.mem_append_left [Register.mar, .mbr] hr
  refine ⟨d.steady.put r v, d.code, d.data, d.frame.put v hmar hmbr, fun q hq => ?_⟩
  have hne : q ≠ r := (ne_of_mem_of_not_mem hwritten hq).symm
  simpa [hne] using d.kept q hq

theorem Does.note (d : m.Does uses m') (t : TraceLine) : m.Does uses (m'.note t) :=
  ⟨d.steady.note t, d.code, d.data, d.frame.note t, d.kept⟩

@[simp] theorem memory_afterLoad (m : Machine) (a : Word) : (m.afterLoad a).memory = m.memory := by
  unfold afterLoad
  split <;> rfl

@[simp] theorem reg_afterLoad (m : Machine) (a : Word) {r : Register} (hr : r ≠ .mar)
    (hb : r ≠ .mbr) : (m.afterLoad a).reg r = m.reg r := by
  have hmar : (m.put .mar a).reg r = m.reg r := by simp [hr]
  unfold afterLoad
  split
  · rw [reg_put, if_neg hb]
    exact hmar
  · rfl

@[simp] theorem reg_stored (m : Machine) (a v : Word) {r : Register} (hr : r ≠ .mar)
    (hb : r ≠ .mbr) : (m.stored a v).reg r = m.reg r := by
  rw [← bare_reg, bare_stored, BareMachine.reg_write, BareMachine.reg_mark m.bare a v hr hb,
    bare_reg]

theorem ne_of_notMem_written {r : Register} (hr : r ∉ BareMachine.written) :
    r ≠ .mar ∧ r ≠ .mbr := by
  constructor
  · rintro rfl
    exact hr (by decide)
  · rintro rfl
    exact hr (by decide)

theorem steady_afterLoad (m : Machine) (a : Word) : m.Steady (m.afterLoad a) := by
  unfold afterLoad
  split
  · exact ⟨fun h => ⟨h.code, h.data.afterRead m.memory (address a)⟩, rfl, rfl, rfl⟩
  · exact .refl m

theorem steady_stored (m : Machine) (a v : Word) : m.Steady (m.stored a v) := by
  unfold stored
  split
  · exact ⟨fun h => ⟨h.code, h.data.afterWrite m.memory (address a) v⟩, by simp, rfl, rfl⟩
  · exact .refl m

theorem Shaped.useAll_read (h : m.Shaped) (a : Word) :
    m.dataCache.useAll m.memory ([.read (address a)].filter (·.Within m.memory)) =
      .ok ((m.afterLoad a).dataCache, (m.afterLoad a).memory) := by
  have hread := h.data.read_eq m.memory
    (Cache.readEvent_writable h.data.positive (address_nonneg a) (writable_address a) _)
  unfold afterLoad
  refine Cache.useAll_within (fun hin => ?_) fun hout => ?_
  · rw [if_pos (show m.memory.InRange (address a) from hin)]
    unfold Cache.use
    dsimp only
    rw [hread]
    rfl
  · rw [if_neg (show ¬m.memory.InRange (address a) from hout)]
    exact ⟨rfl, rfl⟩

theorem Shaped.useAll_write (h : m.Shaped) (a v : Word) :
    m.dataCache.useAll m.memory ([.write (address a) v].filter (·.Within m.memory)) =
      .ok ((m.stored a v).dataCache, (m.stored a v).memory) := by
  have hwrite := h.data.write_eq m.memory v
    (Cache.writeEvent_writable h.data.positive (address_nonneg a) (writable_address a) _)
  unfold stored
  refine Cache.useAll_within (fun hin => ?_) fun hout => ?_
  · rw [if_pos (show m.memory.InRange (address a) from hin)]
    unfold Cache.use
    dsimp only
    rw [hwrite]
  · rw [if_neg (show ¬m.memory.InRange (address a) from hout)]
    exact ⟨rfl, rfl⟩

/-- Reads come before the store of an instruction, so they meet the memory that it started with. -/
theorem Does.load (d : m.Does uses m') (h : m.Shaped) (same : m'.memory = m.memory) (a : Word) :
    m.Does (uses ++ [.read (address a)]) (m'.afterLoad a) := by
  have hmem : (m'.afterLoad a).memory = m.memory := by simp [same]
  have hread := (d.steady.shaped h).useAll_read a
  refine ⟨d.steady.trans (steady_afterLoad m' a), ?_, ?_, .of_memory hmem, fun r hr => ?_⟩
  · rw [← d.code]
    unfold afterLoad
    split <;> rfl
  · rw [List.filter_append]
    refine Cache.useAll_append d.data ?_
    rwa [same] at hread ⊢
  · obtain ⟨hmar, hmbr⟩ := ne_of_notMem_written hr
    simpa [hmar, hmbr] using d.kept r hr

theorem Does.store (d : m.Does uses m') (h : m.Shaped) (same : m'.memory = m.memory) (a v : Word) :
    m.Does (uses ++ [.write (address a) v]) (m'.stored a v) := by
  have hwrite := (d.steady.shaped h).useAll_write a v
  refine ⟨d.steady.trans (steady_stored m' a v), ?_, ?_, ?_, fun r hr => ?_⟩
  · rw [← d.code]
    unfold stored
    split <;> rfl
  · rw [List.filter_append]
    refine Cache.useAll_append d.data ?_
    rwa [same] at hwrite ⊢
  · simpa using (BareMachine.frame_write m'.bare a v).after same
  · obtain ⟨hmar, hmbr⟩ := ne_of_notMem_written hr
    simpa [hmar, hmbr] using d.kept r hr

theorem Shaped.loadWord_bind {α : Type} (h : m.Shaped) (a : Word)
    (k : Word × Machine → Except Fault α) :
    (m.loadWord a >>= k) = k (m.dataAt a, m.afterLoad a) := by
  rw [h.loadWord_eq]
  rfl

theorem Shaped.storeWord_bind {α : Type} (h : m.Shaped) (a v : Word)
    (k : Machine → Except Fault α) : (m.storeWord a v >>= k) = k (m.stored a v) := by
  rw [h.storeWord_eq]
  rfl

theorem Does.push (d : m.Does uses m') (h : m.Shaped) (same : m'.memory = m.memory) (v : Word) :
    m.Does (uses ++ [.write (address (m'.reg .sp - 1)) v]) (m'.pushed v) :=
  (d.put .sp (by decide) (m'.reg .sp - 1)).store h same (m'.reg .sp - 1) v

theorem Shaped.push_bind {α : Type} (h : m.Shaped) (v : Word) (k : Machine → Except Fault α) :
    (m.push v >>= k) = k (m.pushed v) := by
  have hput : (m.put .sp (m.reg .sp - 1)).Shaped := h.congr rfl rfl
  exact hput.storeWord_bind (m.reg .sp - 1) v k

theorem Shaped.pop_bind {α : Type} (h : m.Shaped) (k : Word × Machine → Except Fault α) :
    (m.pop >>= k) =
      k (m.dataAt (m.reg .sp), (m.afterLoad (m.reg .sp)).put .sp (m.reg .sp + 1)) := by
  unfold pop
  dsimp only
  rw [h.loadWord_bind]
  rfl

theorem does_branch (m : Machine) (o : Operation) (taken : Bool) (target : Word)
    (reason : String) : m.Does [] (m.branch o taken target reason) := by
  unfold branch
  split
  · exact ((Does.refl m).put .pc (by decide) _).note _
  · exact (Does.refl m).note _

theorem Shaped.perform_does (h : m.Shaped) {o : Operation} (ho : o ≠ .halt) (x : Word) :
    ∃ m', m.perform o x = .ok m' ∧ m.Does (m.asked x o) m' := by
  have here := Does.refl m
  have hshaped : ∀ a, (m.afterLoad a).Shaped := fun a => (steady_afterLoad m a).shaped h
  cases o with
  | lodd =>
    have hnote : (m.note (.ran .lodd s!"MAR <- {x.toNat}; RD (D-Cache)")).Shaped := h.congr rfl rfl
    exact ⟨_, hnote.loadWord_bind x _,
      (((here.note _).load h rfl x).put .ac (by decide) _).note _⟩
  | addd | subd | lodl | addl | subl =>
    exact ⟨_, h.loadWord_bind _ _, ((here.load h rfl _).put .ac (by decide) _).note _⟩
  | stod | stol => exact ⟨_, h.storeWord_bind _ _ _, (here.store h rfl _ _).note _⟩
  | jpos | jzer | jneg | jnze => exact ⟨_, rfl, does_branch m _ _ x _⟩
  | jump => exact ⟨_, rfl, (here.put .pc (by decide) _).note _⟩
  | loco => exact ⟨_, rfl, (here.put .ac (by decide) _).note _⟩
  | call =>
    exact ⟨_, h.push_bind _ _, ((here.push h rfl _).put .pc (by decide) _).note _⟩
  | pshi =>
    have pushes := (here.load h rfl (m.reg .ac)).push h (by simp) (m.dataAt (m.reg .ac))
    rw [reg_afterLoad m _ (by decide) (by decide)] at pushes
    exact ⟨_, (h.loadWord_bind _ _).trans ((hshaped _).push_bind _ _), pushes.note _⟩
  | popi =>
    have stores := (here.load h rfl (m.reg .sp)).store h (by simp) (m.reg .ac)
      (m.dataAt (m.reg .sp))
    refine ⟨_, (h.loadWord_bind _ _).trans ((hshaped _).storeWord_bind _ _ _), ?_⟩
    rw [reg_afterLoad m _ (by decide) (by decide)]
    exact (stores.put .sp (by decide) _).note _
  | push => exact ⟨_, h.push_bind _ _, (here.push h rfl _).note _⟩
  | pop =>
    exact ⟨_, h.pop_bind _,
      (((here.load h rfl _).put .sp (by decide) _).put .ac (by decide) _).note _⟩
  | retn =>
    exact ⟨_, h.pop_bind _,
      (((here.load h rfl _).put .sp (by decide) _).put .pc (by decide) _).note _⟩
  | swap => exact ⟨_, rfl, ((here.put .ac (by decide) _).put .sp (by decide) _).note _⟩
  | insp | desp => exact ⟨_, rfl, (here.put .sp (by decide) _).note _⟩
  | halt => exact absurd rfl ho

structure Executes (m : Machine) (w : Word) (m' : Machine) : Prop where
  shaped : m'.Shaped
  size : m'.memory.size = m.memory.size
  cycle : m'.cycle = m.cycle
  halted : m'.halted ↔ m.halted ∨ w = Operation.halt.base
  code : m'.codeCache = if w = Operation.halt.base then m.codeCache.flush else m.codeCache
  data : m.dataCache.useAll m.memory (m.dataUses w) = .ok (m'.dataCache, m'.memory)
  frame : BareMachine.Frame m.bare m'.bare
  kept : ∀ r ∉ BareMachine.written, m'.reg r = m.reg r

theorem Does.executes {w : Word} (d : m.Does uses m') (h : m.Shaped)
    (hw : w ≠ Operation.halt.base)
    (huses : m.dataUses w = uses.filter (·.Within m.memory)) : m.Executes w m' := by
  refine ⟨d.steady.shaped h, d.steady.size, d.steady.cycle, ?_, ?_, huses ▸ d.data, d.frame,
    d.kept⟩
  · rw [d.steady.halted]
    exact ⟨.inl, fun hh => hh.resolve_right hw⟩
  · rw [if_neg hw]
    exact d.code

/-- A word executes without a fault, and halts the machine if it is the word of a halt. -/
theorem Shaped.execute_ok (h : m.Shaped) (w : Word) :
    ∃ m', m.execute (decode w) = .ok m' ∧ m.Executes w m' := by
  by_cases hw : w = Operation.halt.base
  · subst hw
    exact ⟨_, rfl, ⟨h.code.congr rfl rfl, h.data.congr rfl rfl⟩, rfl, rfl,
      ⟨fun _ => .inr rfl, fun _ => rfl⟩, rfl, rfl, .of_memory rfl, fun _ _ => rfl⟩
  · cases hop : (decode w).operation with
    | none =>
      have huses : m.dataUses w = ([] : List CacheUse).filter (·.Within m.memory) := by
        unfold dataUses
        rw [hop]
        rfl
      refine ⟨m.note (.unknown w), ?_, ((Does.refl m).note _).executes h hw huses⟩
      unfold execute
      rw [hop]
      rfl
    | some o =>
      have ho : o ≠ .halt := by
        rintro rfl
        exact hw (Operation.ofWord?_eq_halt_iff.mp hop)
      have huses : m.dataUses w =
          (m.asked (decode w).operand o).filter (·.Within m.memory) := by
        unfold dataUses
        rw [hop]
      obtain ⟨m', hperform, does⟩ := h.perform_does ho (decode w).operand
      refine ⟨m', ?_, does.executes h hw huses⟩
      unfold execute
      rw [hop]
      exact hperform

theorem step_of_halted (h : m.halted) : m.step = .ok ([], m) := if_pos h

theorem step_outside (live : m.halted = false)
    (outside : ¬m.memory.InRange (address (m.reg .pc))) :
    m.step = .ok ([], { m with halted := true, trace := [] }) := by
  unfold step
  rw [if_neg (by simp [live]), if_neg outside]

theorem Shaped.step_executes (h : m.Shaped) (live : m.halted = false)
    (inside : m.memory.InRange (address (m.reg .pc))) :
    ∃ m', m.step = .ok (m'.trace, { m' with cycle := m'.cycle + 1 }) ∧
      { m with trace := [] }.fetched.Executes m.fetchedWord m' := by
  have hclear : { m with trace := [] }.Shaped := h.congr rfl rfl
  have hfetched : { m with trace := [] }.fetched.Shaped :=
    ⟨hclear.code.afterRead m.memory _, hclear.data⟩
  obtain ⟨m', hexec, executes⟩ := hfetched.execute_ok m.fetchedWord
  refine ⟨m', ?_, executes⟩
  unfold step
  rw [if_neg (by simp [live]), if_pos inside, fetch_eq hclear.code]
  change (do let m ← Machine.execute _ (decode m.fetchedWord); _) = _
  rw [hexec]
  rfl

theorem Shaped.step_inside (h : m.Shaped) (live : m.halted = false)
    (inside : m.memory.InRange (address (m.reg .pc))) :
    ∃ trace m', m.step = .ok (trace, m') ∧ m'.Shaped ∧ m'.memory.size = m.memory.size ∧
      m'.cycle = m.cycle + 1 ∧ (m'.halted ↔ m.fetchedWord = Operation.halt.base) := by
  obtain ⟨m', hstep, executes⟩ := h.step_executes live inside
  refine ⟨_, _, hstep, executes.shaped.congr rfl rfl, executes.size,
    congrArg (· + 1) executes.cycle, ?_⟩
  have hlive : ¬{ m with trace := [] }.fetched.halted := by
    change ¬m.halted
    simp [live]
  exact executes.halted.trans ⟨fun hh => hh.resolve_left hlive, .inr⟩

/-- A step finds the machine halted, or the program counter outside of the memory, or fetches. -/
theorem Shaped.step_cases (h : m.Shaped) :
    (m.halted ∧ m.step = .ok ([], m)) ∨
      (m.halted = false ∧ ¬m.memory.InRange (address (m.reg .pc)) ∧
        m.step = .ok ([], { m with halted := true, trace := [] })) ∨
      m.halted = false ∧ m.memory.InRange (address (m.reg .pc)) ∧
        ∃ m', m.step = .ok (m'.trace, { m' with cycle := m'.cycle + 1 }) ∧
          { m with trace := [] }.fetched.Executes m.fetchedWord m' := by
  by_cases halted : m.halted
  · exact .inl ⟨halted, step_of_halted halted⟩
  · have live : m.halted = false := by simpa using halted
    by_cases inside : m.memory.InRange (address (m.reg .pc))
    · exact .inr (.inr ⟨live, inside, h.step_executes live inside⟩)
    · exact .inr (.inl ⟨live, inside, step_outside live inside⟩)

theorem Shaped.step_ok (h : m.Shaped) :
    ∃ trace m', m.step = .ok (trace, m') ∧ m'.Shaped ∧ m'.memory.size = m.memory.size := by
  rcases h.step_cases with ⟨-, hstep⟩ | ⟨-, -, hstep⟩ | ⟨-, -, m', hstep, executes⟩
  · exact ⟨_, _, hstep, h, rfl⟩
  · exact ⟨_, _, hstep, h.congr rfl rfl, rfl⟩
  · exact ⟨_, _, hstep, executes.shaped.congr rfl rfl, executes.size⟩

theorem Executes.frame_of_fetch {w : Word}
    (executes : { m with trace := [] }.fetched.Executes w m') :
    BareMachine.Frame m.bare m'.bare := by
  have hmem : { m with trace := [] }.fetched.bare.memory = m.bare.memory := rfl
  exact executes.frame.after hmem

/-- A step changes memory at most where it leaves MAR, and to what it leaves in MBR. -/
theorem Shaped.step_frame (h : m.Shaped) :
    ∃ trace m', m.step = .ok (trace, m') ∧ BareMachine.Frame m.bare m'.bare := by
  rcases h.step_cases with ⟨-, hstep⟩ | ⟨-, -, hstep⟩ | ⟨-, -, m', hstep, executes⟩
  · exact ⟨_, _, hstep, .of_memory rfl⟩
  · exact ⟨_, _, hstep, .of_memory rfl⟩
  · obtain ⟨size, word⟩ := executes.frame_of_fetch
    exact ⟨_, _, hstep, size, word⟩

end Machine

end AccMachine
