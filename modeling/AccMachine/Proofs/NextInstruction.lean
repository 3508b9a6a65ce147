import AccMachine.Proofs.Listing
import AccMachine.Proofs.WindowRuns

namespace AccMachine

namespace Machine

variable {m : Machine}

/-- Where the code cache has nothing to say about the next word, or what memory says. -/
theorem fetchedWord_eq_iff : m.fetchedWord = m.memory.get (address (m.reg .pc)) ↔
    ∀ w, m.codeCache.held? (address (m.reg .pc)) = some w →
      w = m.memory.get (address (m.reg .pc)) := by
  unfold fetchedWord
  cases m.codeCache.held? (address (m.reg .pc)) <;> simp

theorem Sound.step_fetches (h : m.Sound) (live : m.halted = false)
    (inside : m.memory.InRange (address (m.reg .pc))) :
    ∃ trace next, m.step = .ok (trace, next) ∧ next.reg .ir = m.fetchedWord ∧
      (trace, next.bare) = m.bare.stepOn (next.reg .ir) := by
  obtain ⟨trace, next, hstep, hbare, -⟩ := h.step_eq
  obtain ⟨m', hstep', executes⟩ := h.shaped.step_executes live inside
  obtain ⟨-, rfl⟩ := Prod.mk.inj (Except.ok.inj (hstep'.symm.trans hstep))
  have hir : m'.reg .ir = m.fetchedWord := executes.kept .ir (by decide)
  exact ⟨_, _, hstep, hir, hir ▸ hbare⟩

end Machine

namespace Console

/-- The window names a word as the next instruction. -/
def Tells (c : Console) (w : Word) : Prop :=
  c.display.next = s!"PC [{Numeral.padded 16 3 (c.machine.reg .pc).toNat}]: {disassemble w}"

variable {c : Console}

theorem Tells.iff_eq {w w' : Word} (h : c.Tells w) : c.Tells w' ↔ w' = w := by
  constructor
  · intro h'
    have htexts := h'.symm.trans h
    rw [String.append_right_inj] at htexts
    exact disassemble_injective htexts
  · rintro rfl
    exact h

theorem Current.tells (h : c.Current)
    (inside : c.machine.memory.InRange (Machine.address (c.machine.reg .pc))) :
    c.Tells (c.machine.memory.get (Machine.address (c.machine.reg .pc))) := by
  have hnext : c.display.next = Display.nextText c.machine := congrArg Panel.next h.shows
  unfold Display.nextText at hnext
  rwa [if_pos inside] at hnext

theorem current_assembled {a : Assembly}
    (hassemble : AccMachine.assemble c.editor.text = .ok a) (hok : a.ok) :
    (c.act .assemble).2.Current := by
  have hfailure : a.failure? = none := if_pos hok
  change c.assembleText.2.Current
  unfold Console.assembleText
  dsimp only
  rw [editor_stop, hassemble]
  dsimp only
  rw [hfailure]
  have hload := Machine.sound_load c.stop.machine a.image
  exact ((current_refresh_full _ hload).log _).showPhase _

theorem throughWindow_of_keepsProgram {a : Action} (h : a.keepsProgram) : a.throughWindow := by
  cases a <;> first | rfl | cases h

def entered (c : Console) (src : Text) : Console := ((c.actAll [.edit src]).act .assemble).2

theorem entered_program {size speed : Int} (hopened : opened size speed = .ok c) {src : Text}
    {a : Assembly} (hassemble : AccMachine.assemble src = .ok a) (hok : a.ok) :
    (c.entered src).Stands size ((Machine.fresh size).load a.image) false ∧
      (c.entered src).Current := by
  have leaves : ∀ x ∈ [Action.edit src], x.leavesMemory := by
    intro x hx
    rw [List.mem_singleton.mp hx]
    rfl
  have htext : (c.actAll [.edit src]).editor.text = src := c.editor.text_setText src
  rw [← htext] at hassemble
  have hpaced := (paced_opened hopened).actAll _ leaves
  exact ⟨hpaced.stands_assembled hassemble hok, current_assembled hassemble hok⟩

theorem Paced.runs_loaded {size : Int} (hp : c.Paced size) {a : Assembly} {later : List Action}
    (hassemble : AccMachine.assemble c.editor.text = .ok a) (hok : a.ok)
    (keeps : ∀ x ∈ later, x.keepsProgram) :
    ∃ traces, traces.length = (c.act .assemble).2.stepsAskedAll later ∧
      ((Machine.fresh size).load a.image).Ran traces ((c.act .assemble).2.actAll later).machine ∧
      ((c.act .assemble).2.actAll later).Current := by
  obtain ⟨-, -, hmachine⟩ := hp.assembled hassemble hok
  have hstart : (c.act .assemble).2.HasRun (c.act .assemble).2.machine
      (c.act .assemble).2.display.log 0 := ⟨[], [], rfl, .refl, .nil, rfl⟩
  obtain ⟨traces, -, hlen, hran, -, -⟩ := hstart.actAll (hp.act .assemble rfl) later keeps
  rw [hmachine] at hran
  have hcurrent := (current_assembled hassemble hok).actAll later fun x hx =>
    throughWindow_of_keepsProgram (keeps x hx)
  exact ⟨traces, by rw [hlen, Nat.zero_add], hran, hcurrent⟩

/--
Wherever a program is when it was assembled and loaded into the window and then stepped or run, the
window names the word that memory has where the program counter points. The step that follows takes
the word that the code cache has there, and else that of memory, into IR and does what it says. So
what the window says comes true if and only if the code cache has no other word there, which it has
not while no store has changed a word that the code cache held then.
-/
theorem next_instruction_told {size speed : Int} {start before loaded after : Console}
    {a : Assembly} {earlier later : List Action} (hopened : opened size speed = .ok start)
    (leaves : ∀ x ∈ earlier, x.leavesMemory) (hbefore : before = start.actAll earlier)
    (hassemble : AccMachine.assemble before.editor.text = .ok a) (hok : a.ok)
    (hloaded : loaded = (before.act .assemble).2)
    (keeps : ∀ x ∈ later, x.keepsProgram) (hafter : after = loaded.actAll later)
    (live : after.machine.halted = false)
    (inside : after.machine.memory.InRange (Machine.address (after.machine.reg .pc))) :
    let pc := Machine.address (after.machine.reg .pc)
    let k := loaded.stepsAskedAll later
    ∃ traces trace next,
      ((Machine.fresh size).load a.image).steps k = .ok (traces, after.machine) ∧
      after.machine.step = .ok (trace, next) ∧
      (trace, next.bare) = after.machine.bare.stepOn (next.reg .ir) ∧
      next.reg .ir = (after.machine.codeCache.held? pc).getD (after.machine.memory.get pc) ∧
      after.Tells (after.machine.memory.get pc) ∧
      (after.Tells (next.reg .ir) ↔
        ∀ w, after.machine.codeCache.held? pc = some w → w = after.machine.memory.get pc) ∧
      (((Machine.fresh size).load a.image).StoresHarmless k → after.Tells (next.reg .ir)) := by
  have hpaced := (paced_opened hopened).actAll earlier leaves
  rw [← hbefore] at hpaced
  obtain ⟨traces, hlen, hran, hcurrent⟩ := hpaced.runs_loaded hassemble hok keeps
  rw [← hloaded, ← hafter] at hran hcurrent
  have hsteps := hran.steps_eq
  rw [hlen, ← hloaded] at hsteps
  obtain ⟨trace, next, hstep, hir, hbare⟩ := hcurrent.sound.step_fetches live inside
  have htells := hcurrent.tells inside
  refine ⟨traces, trace, next, hsteps, hstep, hbare, hir, htells, ?_, ?_⟩
  · rw [htells.iff_eq, hir]
    exact Machine.fetchedWord_eq_iff
  · intro harmless
    have hload := Machine.sound_load (Machine.fresh size) a.image
    obtain ⟨m', hsteps', -, -, hcode⟩ := hload.steps_eq_bare
      (Machine.load_mirrors (Machine.fresh size) a.image) _ harmless
    have hsame : after.machine = m' :=
      congrArg Prod.snd (Except.ok.inj (hsteps.symm.trans hsteps'))
    rw [← hsame] at hcode
    rw [htells.iff_eq, hir]
    exact Machine.fetchedWord_eq hcode

def loadAndHalt : Text := "LOCO 5\nHALT".toList

theorem next_instruction_told_loadAndHalt :
    ∃ start after a, opened 8 defaultSpeed = .ok start ∧
      AccMachine.assemble (start.actAll [.edit loadAndHalt]).editor.text = .ok a ∧ a.ok ∧
      after = (start.entered loadAndHalt).actAll [.step] ∧ after.machine.halted = false ∧
      after.machine.memory.InRange (Machine.address (after.machine.reg .pc)) ∧
      ∃ trace next, after.machine.step = .ok (trace, next) ∧ after.Tells (next.reg .ir) := by
  obtain ⟨start, hopened⟩ : ∃ c, opened 8 defaultSpeed = .ok c := ⟨_, if_neg (by decide)⟩
  have leaves : ∀ x ∈ [Action.edit loadAndHalt], x.leavesMemory := by decide
  have keeps : ∀ x ∈ [Action.step], x.keepsProgram := by decide
  have hassemble : AccMachine.assemble loadAndHalt = .ok ⟨#[0x7005, 0xFFFF], #[], #[], []⟩ := rfl
  have htext : (start.actAll [.edit loadAndHalt]).editor.text = loadAndHalt :=
    start.editor.text_setText loadAndHalt
  obtain ⟨hstands, -⟩ := entered_program hopened hassemble rfl
  have hafter : ((start.entered loadAndHalt).actAll [.step]).machine =
      ((Machine.fresh 8).load #[0x7005, 0xFFFF]).stepped := hstands.act_step.machine
  have live : ((start.entered loadAndHalt).actAll [.step]).machine.halted = false := by
    rw [hafter]
    decide +kernel
  have inside : ((start.entered loadAndHalt).actAll [.step]).machine.memory.InRange
      (Machine.address (((start.entered loadAndHalt).actAll [.step]).machine.reg .pc)) := by
    rw [hafter]
    decide +kernel
  have hasked : (start.entered loadAndHalt).stepsAskedAll [.step] = 1 := by
    unfold stepsAskedAll stepsAsked
    dsimp only
    rw [hstands.machine]
    rfl
  rw [← htext] at hassemble
  obtain ⟨traces, trace, next, -, hstep, -, -, -, -, htold⟩ :=
    next_instruction_told hopened leaves rfl hassemble rfl rfl keeps rfl live inside
  have harmless : ((Machine.fresh 8).load #[0x7005, 0xFFFF]).StoresHarmless 1 := by decide +kernel
  rw [← hasked] at harmless
  exact ⟨start, _, _, hopened, hassemble, rfl, rfl, live, inside, trace, next, hstep,
    htold harmless⟩

def storeAhead : Text := "LOCO 5\nSTOD 2\nHALT".toList

/-- The window names the stored word, and the step that follows halts. -/
theorem next_instruction_told_storeAhead :
    ∃ start after a, opened 8 defaultSpeed = .ok start ∧
      AccMachine.assemble (start.actAll [.edit storeAhead]).editor.text = .ok a ∧ a.ok ∧
      after = (start.entered storeAhead).actAll [.step, .step] ∧ after.machine.halted = false ∧
      after.machine.memory.InRange (Machine.address (after.machine.reg .pc)) ∧
      after.display.next = "PC [002]: LODD 5" ∧
      ∃ trace next, after.machine.step = .ok (trace, next) ∧
        disassemble (next.reg .ir) = "HALT" ∧ ¬ after.Tells (next.reg .ir) := by
  obtain ⟨start, hopened⟩ : ∃ c, opened 8 defaultSpeed = .ok c := ⟨_, if_neg (by decide)⟩
  have hassemble : AccMachine.assemble storeAhead =
      .ok ⟨#[0x7005, 0x1002, 0xFFFF], #[], #[], []⟩ := rfl
  have htext : (start.actAll [.edit storeAhead]).editor.text = storeAhead :=
    start.editor.text_setText storeAhead
  obtain ⟨hstands, hcurrent⟩ := entered_program hopened hassemble rfl
  have hafter : ((start.entered storeAhead).actAll [.step, .step]).machine =
      ((Machine.fresh 8).load #[0x7005, 0x1002, 0xFFFF]).stepped.stepped :=
    hstands.act_step.act_step.machine
  have hcurrent' := hcurrent.actAll [.step, .step] (by decide)
  obtain ⟨after, hdef⟩ : ∃ d, d = (start.entered storeAhead).actAll [.step, .step] := ⟨_, rfl⟩
  rw [← hdef] at hafter hcurrent'
  have live : after.machine.halted = false := by
    rw [hafter]
    decide +kernel
  have inside : after.machine.memory.InRange (Machine.address (after.machine.reg .pc)) := by
    rw [hafter]
    decide +kernel
  have hpc : after.machine.reg .pc = 2#16 := by
    rw [hafter]
    decide +kernel
  have hstored : after.machine.memory.get (Machine.address (after.machine.reg .pc)) = 5#16 := by
    rw [hafter]
    decide +kernel
  have hfetched : after.machine.fetchedWord = 0xFFFF#16 := by
    rw [hafter]
    decide +kernel
  obtain ⟨trace, next, hstep, hir, -⟩ := hcurrent'.sound.step_fetches live inside
  rw [hfetched] at hir
  have htells := hcurrent'.tells inside
  rw [hstored] at htells
  have hnext : after.display.next = "PC [002]: LODD 5" := by
    rw [htells, hpc]
    rfl
  rw [← htext] at hassemble
  refine ⟨start, after, _, hopened, hassemble, rfl, hdef, live, inside, hnext, trace, next, hstep,
    ?_, ?_⟩
  · rw [hir]
    rfl
  · rw [htells.iff_eq, hir]
    decide

end Console

end AccMachine
