import AccMachine.Proofs.MemoryRows
import AccMachine.Proofs.ShapedMachine

namespace AccMachine

def Action.throughWindow : Action → Bool
  | .setRegister _ _ => false
  | .setMemory _ _ => false
  | _ => true

namespace Console

def actAll (c : Console) (actions : List Action) : Console :=
  actions.foldl (fun c a => (c.act a).2) c

/--
The window shows its machine, which is sound, and remembers where the program counter and the stack
pointer were marked.
-/
structure Current (c : Console) : Prop where
  sound : c.machine.Sound
  shows : c.display.panel = c.machine.panel c.hex c.cacheChoice
  markedPc : c.markedPc = some (c.machine.reg .pc)
  markedSp : c.markedSp = some (c.machine.reg .sp)

variable {c : Console}

theorem Current.log (h : c.Current) (lines : List String) : (c.log lines).Current :=
  ⟨h.sound, h.shows, h.markedPc, h.markedSp⟩

theorem Current.showPhase (h : c.Current) (p : Phase) : (c.showPhase p).Current :=
  ⟨h.sound, h.shows, h.markedPc, h.markedSp⟩

def redrawnAddresses (c : Console) (full : Bool) : List Word :=
  [c.machine.reg .pc, c.machine.reg .sp] ++
    (if full then [] else c.markedPc.toList ++ c.markedSp.toList ++ [c.machine.reg .mar])

def rowsBefore (c : Console) (full : Bool) : Array MemoryRow :=
  if full then Display.unmarkedRows c.hex c.machine.memory else c.display.memory

/-- A drawing leaves the window current where the rows that it does not write already are right. -/
theorem current_refresh (c : Console) (full : Bool) (sound : c.machine.Sound)
    (hsize : (c.rowsBefore full).size = c.machine.memory.size.toNat)
    (others : ∀ i < (c.rowsBefore full).size, (∀ a ∈ c.redrawnAddresses full, a.toNat ≠ i) →
      (c.rowsBefore full)[i]?.map MemoryRow.look = some (Display.lookAt c.hex c.machine i)) :
    (c.refresh full).Current := by
  have hrows := Display.look_redrawAll hsize (c.redrawnAddresses full) others
  have hpanel : { c.machine.panel c.hex c.cacheChoice with
      memory := ((c.redrawnAddresses full).foldl (Display.redrawRow c.hex c.machine)
        (c.rowsBefore full)).map MemoryRow.look } = c.machine.panel c.hex c.cacheChoice := by
    rw [hrows]
    rfl
  unfold refresh
  dsimp only
  split
  · refine Current.showPhase ?_ _
    exact ⟨sound, hpanel, rfl, rfl⟩
  · exact ⟨sound, hpanel, rfl, rfl⟩

theorem current_refresh_full (c : Console) (sound : c.machine.Sound) :
    (c.refresh true).Current := by
  have hsize := Display.size_unmarkedRows c.hex c.machine.memory
  refine current_refresh c true sound hsize fun i hi others => ?_
  have hpc := others (c.machine.reg .pc) (by simp [redrawnAddresses])
  have hsp := others (c.machine.reg .sp) (by simp [redrawnAddresses])
  have hlook := Display.look_unmarkedRows c.hex c.machine.memory (i := i) (hsize ▸ hi)
  refine hlook.trans ?_
  unfold Display.lookAt
  rw [if_neg (Ne.symm hpc), if_neg (Ne.symm hsp)]

/-- After a step, drawing the rows that may have changed leaves the window current again. -/
theorem Current.refresh_changed (h : c.Current) {m : Machine} (sound : m.Sound)
    (frame : BareMachine.Frame c.machine.bare m.bare) :
    ({ c with machine := m }.refresh false).Current := by
  have hshown : c.display.memory.map MemoryRow.look =
      (Array.range c.machine.memory.size.toNat).map (Display.lookAt c.hex c.machine) :=
    congrArg Panel.memory h.shows
  have hmem : m.memory.size = c.machine.memory.size := frame.size
  have hsize : c.display.memory.size = c.machine.memory.size.toNat := by
    have := congrArg Array.size hshown
    rwa [Array.size_map, Array.size_map, Array.size_range] at this
  refine current_refresh { c with machine := m } false sound (by rw [hmem]; exact hsize) ?_
  intro i hi others
  -- The row is neither where a mark was or is nor where the step left MAR.
  have hmark : ∀ a, a ∈ [m.reg .pc, m.reg .sp, c.machine.reg .pc, c.machine.reg .sp, m.reg .mar] →
      i ≠ a.toNat := by
    intro a ha
    refine Ne.symm (others a ?_)
    unfold redrawnAddresses
    rw [h.markedPc, h.markedSp]
    exact ha
  have hword : m.memory.get i = c.machine.memory.get i := by
    rcases frame.word i with hsame | ⟨hmar, -⟩
    · exact hsame
    · have hne := hmark (m.reg .mar) (by simp)
      exact absurd (Int.natCast_inj.mp hmar) hne
  have hlast : (c.display.memory[i]?).map MemoryRow.look =
      some (Display.lookAt c.hex c.machine i) := by
    rw [← Array.getElem?_map, hshown, Array.getElem?_map, Array.getElem?_range,
      if_pos (hsize ▸ hi)]
    rfl
  refine hlast.trans ?_
  unfold Display.lookAt Display.memoryText
  rw [hword, if_neg (hmark _ (by simp)), if_neg (hmark _ (by simp)), if_neg (hmark _ (by simp)),
    if_neg (hmark _ (by simp))]

section
variable (c : Console) (full : Bool)

@[simp] theorem machine_refresh : (c.refresh full).machine = c.machine := by
  unfold refresh
  dsimp only
  split <;> rfl

@[simp] theorem hex_refresh : (c.refresh full).hex = c.hex := by
  unfold refresh
  dsimp only
  split <;> rfl

@[simp] theorem cacheChoice_refresh : (c.refresh full).cacheChoice = c.cacheChoice := by
  unfold refresh
  dsimp only
  split <;> rfl

@[simp] theorem running_refresh : (c.refresh full).running = c.running := by
  unfold refresh
  dsimp only
  split <;> rfl

@[simp] theorem job_refresh : (c.refresh full).job = c.job := by
  unfold refresh
  dsimp only
  split <;> rfl

@[simp] theorem timers_refresh : (c.refresh full).timers = c.timers := by
  unfold refresh
  dsimp only
  split <;> rfl

@[simp] theorem log_refresh : (c.refresh full).display.log = c.display.log := by
  unfold refresh
  dsimp only
  split <;> rfl

@[simp] theorem phase_refresh : (c.refresh full).display.phase =
    if c.machine.halted then .halted else c.display.phase := by
  unfold refresh
  dsimp only
  split
  next halted => exact (if_pos halted).symm
  next live => exact (if_neg live).symm

end

theorem Current.stepOnce (h : c.Current) : c.stepOnce.2.Current := by
  obtain ⟨trace, m, hstep, sound, -⟩ := h.sound.step_ok
  obtain ⟨_, _, hstep', frame⟩ := h.sound.shaped.step_frame
  obtain ⟨-, rfl⟩ := Prod.mk.inj (Except.ok.inj (hstep'.symm.trans hstep))
  unfold Console.stepOnce
  rw [hstep]
  exact (h.log (trace.map TraceLine.text)).refresh_changed sound frame

theorem Current.nextRound (h : c.Current) : c.nextRound.2.Current := by
  have hjob : { c with job := none }.Current := ⟨h.sound, h.shows, h.markedPc, h.markedSp⟩
  have hstep := hjob.stepOnce
  unfold Console.nextRound
  dsimp only
  split
  · exact hjob
  · split
    next heq =>
      rw [heq] at hstep
      exact hstep
    next next heq =>
      rw [heq] at hstep
      split
      · exact ⟨hstep.sound, hstep.shows, hstep.markedPc, hstep.markedSp⟩
      · exact ⟨hstep.sound, hstep.shows, hstep.markedPc, hstep.markedSp⟩

theorem Current.stop (h : c.Current) : c.stop.Current := by
  unfold Console.stop
  cases c.job with
  | none =>
    dsimp only
    split
    · exact ⟨h.sound, h.shows, h.markedPc, h.markedSp⟩
    · exact h
  | some id =>
    dsimp only
    split
    · exact ⟨h.sound, h.shows, h.markedPc, h.markedSp⟩
    · exact ⟨h.sound, h.shows, h.markedPc, h.markedSp⟩

theorem Current.assembleText (h : c.Current) : c.assembleText.2.Current := by
  have hstop := h.stop
  unfold Console.assembleText
  dsimp only
  split
  · exact hstop
  · split
    · exact ⟨hstop.sound, hstop.shows, hstop.markedPc, hstop.markedSp⟩
    next a _ _ _ =>
      have hload := Machine.sound_load c.stop.machine a.image
      exact ((current_refresh_full _ hload).log _).showPhase _

theorem Current.stepByHand (h : c.Current) : c.stepByHand.2.Current := by
  unfold Console.stepByHand
  dsimp only
  split
  · split
    · exact h.stop.log _
    · exact h.stop.stepOnce
  · split
    · exact h.log _
    · exact h.stepOnce

theorem Current.startRun (h : c.Current) : c.startRun.2.Current := by
  unfold Console.startRun
  split
  · exact h
  · split
    · exact h.log _
    · have hrun : { c with running := true }.Current :=
        ⟨h.sound, h.shows, h.markedPc, h.markedSp⟩
      exact (hrun.showPhase .running).nextRound

theorem Current.fireTimer (h : c.Current) : c.fireTimer.2.Current := by
  unfold Console.fireTimer
  split
  · exact h
  next rest _ =>
    have hrest : { c with timers := rest }.Current := ⟨h.sound, h.shows, h.markedPc, h.markedSp⟩
    exact hrest.nextRound

theorem current_resetMachine (c : Console) : c.resetMachine.Current := by
  unfold resetMachine
  dsimp only
  refine current_refresh_full _ ?_
  exact Machine.sound_fresh c.stop.machine.memory.size

theorem Current.chooseCache (h : c.Current) (choice : CacheChoice) :
    ({ c with cacheChoice := choice }.drawCache).Current := by
  refine ⟨h.sound, ?_, h.markedPc, h.markedSp⟩
  have hshown := congrArg (fun p => { p with
    cache := Display.cacheRows c.hex (Display.chosenCache c.machine choice)
    cacheStatus := Display.cacheStatusText c.machine }) h.shows
  exact hshown

theorem Current.act (h : c.Current) (a : Action) (through : a.throughWindow) :
    (c.act a).2.Current := by
  cases a with
  | edit src => exact ⟨h.sound, h.shows, h.markedPc, h.markedSp⟩
  | assemble => exact h.assembleText
  | step => exact h.stepByHand
  | run => exact h.startRun
  | stop => exact h.stop
  | reset => exact current_resetMachine c
  | changeBase => exact current_refresh_full _ h.sound
  | setSpeed value =>
    simp only [Console.act]
    split
    · exact h
    · exact ⟨h.sound, h.shows, h.markedPc, h.markedSp⟩
  | chooseCache choice => exact h.chooseCache choice
  | follow on => exact ⟨h.sound, h.shows, h.markedPc, h.markedSp⟩
  | fire => exact h.fireTimer
  | setRegister r v => cases through
  | setMemory addr v => cases through
  | refresh full =>
    cases full with
    | true => exact current_refresh_full c h.sound
    | false => exact h.refresh_changed h.sound (.of_memory rfl)

theorem Current.actAll (h : c.Current) (actions : List Action)
    (through : ∀ a ∈ actions, a.throughWindow) : (c.actAll actions).Current :=
  List.foldlRecOn actions _ h fun _ hc a ha => hc.act a (through a ha)

/--
After any actions that go through the window it shows the panel of its machine, which is what a full
drawing would show.
-/
theorem shows_as_drawn_in_full (size speed : Int) (hsize : 0 ≤ size) (actions : List Action)
    (through : ∀ a ∈ actions, a.throughWindow) :
    ∃ c, opened size speed = .ok c ∧
      (c.actAll actions).display.panel =
        (c.actAll actions).machine.panel (c.actAll actions).hex (c.actAll actions).cacheChoice ∧
      (c.actAll actions).display.panel = ((c.actAll actions).refresh true).display.panel := by
  have hopened := current_refresh_full (blank (Machine.fresh size) speed)
    (Machine.sound_fresh size)
  have hcurrent := hopened.actAll actions through
  have hfull := (current_refresh_full _ hcurrent.sound).shows
  simp only [machine_refresh, hex_refresh, cacheChoice_refresh] at hfull
  exact ⟨_, if_neg (by omega), hcurrent.shows, hcurrent.shows.trans hfull.symm⟩

def pausedRun : List Action :=
  [.assemble, .run, .fire, .stop, .changeBase, .chooseCache .instructions, .step, .reset]

theorem shows_as_drawn_in_full_pausedRun :
    (0 : Int) ≤ 16 ∧ (∀ a ∈ pausedRun, a.throughWindow) ∧
      ∃ c, opened 16 defaultSpeed = .ok c ∧
        (c.actAll pausedRun).display.panel = (c.actAll pausedRun).machine.panel
          (c.actAll pausedRun).hex (c.actAll pausedRun).cacheChoice ∧
        (c.actAll pausedRun).display.panel = ((c.actAll pausedRun).refresh true).display.panel :=
  have through : ∀ a ∈ pausedRun, a.throughWindow := by decide
  ⟨by decide, through, shows_as_drawn_in_full 16 defaultSpeed (by decide) pausedRun through⟩

end Console

end AccMachine
