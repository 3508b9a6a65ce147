import AccMachine.Proofs.MachineRequests
import AccMachine.Proofs.Redraw

namespace AccMachine

def Action.leavesMemory : Action → Bool
  | .setMemory _ _ => false
  | _ => true

structure Machine.SoundOver (m : Machine) (size : Int) : Prop extends m.Sound where
  size_eq : m.memory.size = size

theorem Machine.soundOver_load {m : Machine} {size : Int} (hsize : m.memory.size = size)
    (image : Array Int) : (m.load image).SoundOver size :=
  ⟨sound_load m image, hsize⟩

namespace Console

variable {c : Console} {size : Int}

structure Quiet (c : Console) : Prop where
  running : c.running = false
  job : c.job = none
  timers : c.timers = []

/-- A run goes on, and its next round is the one call that waits. -/
structure Waiting (c : Console) : Prop where
  running : c.running = true
  live : c.machine.halted = false
  waits : ∃ t, c.timers = [t] ∧ c.job = some t.id ∧ shortestDelay ≤ t.delay

/-- The parts of the run loop agree with one another, with the machine and with what is shown. -/
structure Paced (c : Console) (size : Int) : Prop where
  sound : c.machine.SoundOver size
  loop : c.Waiting ∨ c.Quiet
  showsRunning : c.display.phase = .running ↔ c.running
  showsHalted : c.display.phase = .halted ↔ c.machine.halted

theorem Waiting.congr (h : c.Waiting) {c' : Console}
    (halted : c'.machine.halted = c.machine.halted) (running : c'.running = c.running)
    (job : c'.job = c.job) (timers : c'.timers = c.timers) : c'.Waiting := by
  refine ⟨running.trans h.running, halted.trans h.live, ?_⟩
  rw [job, timers]
  exact h.waits

theorem Quiet.congr (h : c.Quiet) {c' : Console} (running : c'.running = c.running)
    (job : c'.job = c.job) (timers : c'.timers = c.timers) : c'.Quiet :=
  ⟨running.trans h.running, job.trans h.job, timers.trans h.timers⟩

theorem Waiting.paced (h : c.Waiting) (sound : c.machine.SoundOver size)
    (hphase : c.display.phase = .running) : c.Paced size :=
  ⟨sound, .inl h, by simp [hphase, h.running], by simp [hphase, h.live]⟩

theorem Quiet.paced (h : c.Quiet) (sound : c.machine.SoundOver size)
    (hrun : c.display.phase ≠ .running)
    (hhalt : c.display.phase = .halted ↔ c.machine.halted) : c.Paced size :=
  ⟨sound, .inr h, by simp [hrun, h.running], hhalt⟩

/-- Whatever changes beside the run loop, a sound machine and the phase that is shown leave it. -/
theorem Paced.congr (h : c.Paced size) {c' : Console} (sound : c'.machine.SoundOver size)
    (halted : c'.machine.halted = c.machine.halted) (running : c'.running = c.running)
    (job : c'.job = c.job) (timers : c'.timers = c.timers)
    (phase : c'.display.phase = c.display.phase) : c'.Paced size := by
  refine ⟨sound, ?_, ?_, ?_⟩
  · rcases h.loop with hw | hq
    · exact .inl (hw.congr halted running job timers)
    · exact .inr (hq.congr running job timers)
  · rw [phase, running]
    exact h.showsRunning
  · rw [phase, halted]
    exact h.showsHalted

theorem Paced.log (h : c.Paced size) (lines : List String) : (c.log lines).Paced size :=
  h.congr h.sound rfl rfl rfl rfl rfl

theorem Paced.quiet (h : c.Paced size) (hr : c.running = false) : c.Quiet := by
  rcases h.loop with hw | hq
  · rw [hw.running] at hr
    cases hr
  · exact hq

theorem paced_refresh (full : Bool) (sound : c.machine.SoundOver size)
    (loop : c.Waiting ∨ c.Quiet)
    (hrun : c.display.phase = .running ↔ c.running)
    (hhalt : c.display.phase = .halted → c.machine.halted) : (c.refresh full).Paced size := by
  rcases loop with hw | hq
  · have hwaiting : (c.refresh full).Waiting := hw.congr (by simp) (by simp) (by simp) (by simp)
    exact hwaiting.paced (by simpa using sound) (by simp [hw.live, hrun.mpr hw.running])
  · have hquiet : (c.refresh full).Quiet := hq.congr (by simp) (by simp) (by simp)
    refine hquiet.paced (by simpa using sound) ?_ ?_
    · rw [phase_refresh]
      split <;> simp [hrun, hq.running]
    · rw [machine_refresh, phase_refresh]
      split
      next hm => simp [hm]
      next hm => exact ⟨hhalt, fun hh => absurd hh hm⟩

theorem Paced.refresh (h : c.Paced size) (full : Bool) : (c.refresh full).Paced size :=
  paced_refresh full h.sound h.loop h.showsRunning h.showsHalted.mp

@[simp] theorem machine_stop (c : Console) : c.stop.machine = c.machine := by
  unfold stop
  cases c.job <;> dsimp only <;> split <;> rfl

theorem Quiet.stop_eq (h : c.Quiet) : c.stop = c := by
  unfold stop
  rw [h.job]
  dsimp only
  rw [if_neg (by rw [h.running]; simp)]

theorem Waiting.stop_eq (h : c.Waiting) :
    c.stop = ({ c with timers := [], job := none, running := false }.showPhase .paused).log
      ["Execucao pausada."] := by
  obtain ⟨t, htimers, hjob, -⟩ := h.waits
  unfold stop
  rw [hjob, htimers]
  dsimp only
  rw [if_pos h.running]
  simp

theorem Paced.stop (h : c.Paced size) : c.stop.Paced size ∧ c.stop.running = false := by
  rcases h.loop with hw | hq
  · rw [hw.stop_eq]
    have hlive : ¬c.machine.halted := by simp [hw.live]
    exact ⟨Quiet.paced ⟨rfl, rfl, rfl⟩ h.sound nofun ⟨nofun, fun hh => absurd hh hlive⟩, rfl⟩
  · rw [hq.stop_eq]
    exact ⟨h, hq.running⟩

/-- What a step leaves of a window: its run loop, and a log and a phase that tell of the step. -/
structure StepsTo (c : Console) (size : Int) (trace : List TraceLine) (c' : Console) : Prop where
  step : c.machine.step = .ok (trace, c'.machine)
  sound : c'.machine.SoundOver size
  running : c'.running = c.running
  job : c'.job = c.job
  timers : c'.timers = c.timers
  phase : c'.display.phase = if c'.machine.halted then .halted else c.display.phase
  log : c'.display.log = (trace.map TraceLine.text).reverse ++ c.display.log

theorem stepOnce_ok (sound : c.machine.SoundOver size) :
    ∃ trace c', c.stepOnce = (none, c') ∧ c.StepsTo size trace c' := by
  obtain ⟨trace, m, hstep, hsound, hsize⟩ := sound.step_ok
  refine ⟨trace, ({ c with machine := m }.log (trace.map TraceLine.text)).refresh false, ?_, ?_⟩
  · unfold stepOnce
    rw [hstep]
  · have hm : ({ c with machine := m }.log (trace.map TraceLine.text)).machine = m := rfl
    refine ⟨?_, ?_, by simp [log], by simp [log], by simp [log], ?_, by simp [log]⟩
    · rw [machine_refresh, hm, hstep]
    · rw [machine_refresh, hm]
      exact ⟨hsound, hsize.trans sound.size_eq⟩
    · rw [machine_refresh, phase_refresh]
      rfl

/-- A round of a run that goes on: a step, then the end of the run or a call of the next round. -/
theorem nextRound_ok (sound : c.machine.SoundOver size) (hr : c.running) :
    ∃ trace c', { c with job := none }.StepsTo size trace c' ∧
      c.nextRound = (none, if c'.machine.halted
        then { c' with running := false }.log ["=== FIM DA EXECUCAO (HALT) ==="]
        else c'.schedule) := by
  obtain ⟨trace, c', hone, hsteps⟩ := stepOnce_ok (c := { c with job := none }) sound
  refine ⟨trace, c', hsteps, ?_⟩
  unfold nextRound
  dsimp only
  rw [if_neg (by simp [hr]), hone]
  dsimp only
  split <;> rfl

theorem paced_nextRound (sound : c.machine.SoundOver size) (hr : c.running)
    (htimers : c.timers = []) (hphase : c.display.phase = .running) : c.nextRound.2.Paced size := by
  obtain ⟨trace, c', hsteps, heq⟩ := nextRound_ok sound hr
  have hp := hsteps.phase
  have ht : c'.timers = [] := hsteps.timers.trans htimers
  rw [heq]
  by_cases hm : c'.machine.halted
  · rw [if_pos hm] at hp ⊢
    have hquiet : ({ c' with running := false }.log ["=== FIM DA EXECUCAO (HALT) ==="]).Quiet :=
      ⟨rfl, hsteps.job, ht⟩
    refine hquiet.paced hsteps.sound ?_ ⟨fun _ => hm, fun _ => hp⟩
    change c'.display.phase ≠ .running
    simp [hp]
  · rw [if_neg hm] at hp ⊢
    have hlive : c'.machine.halted = false := by simpa using hm
    have hdelay : shortestDelay ≤ max c'.speed shortestDelay := Int.le_max_right _ _
    have hwaiting : c'.schedule.Waiting := by
      refine ⟨hsteps.running.trans hr, hlive, ⟨_, _⟩, ?_, rfl, hdelay⟩
      change c'.timers ++ _ = _
      rw [ht]
      rfl
    exact hwaiting.paced hsteps.sound (hp.trans hphase)

theorem Paced.assembleText (h : c.Paced size) : c.assembleText.2.Paced size := by
  obtain ⟨hstop, hidle⟩ := h.stop
  have hquiet := hstop.quiet hidle
  unfold Console.assembleText
  dsimp only
  split
  · exact hstop
  · split
    · exact ⟨hstop.sound, .inr ⟨hidle, hquiet.job, hquiet.timers⟩, hstop.showsRunning,
        hstop.showsHalted⟩
    next a _ _ _ =>
      have hquiet' : ({ c.stop with machine := c.stop.machine.load a.image }.refresh true).Quiet :=
        hquiet.congr (by simp) (by simp) (by simp)
      refine Quiet.paced ⟨hquiet'.running, hquiet'.job, hquiet'.timers⟩ ?_ nofun ⟨nofun, ?_⟩
      · change (Console.refresh _ true).machine.SoundOver size
        rw [machine_refresh]
        exact Machine.soundOver_load hstop.sound.size_eq _
      · change (Console.refresh _ true).machine.halted → _
        rw [machine_refresh]
        exact nofun

theorem Paced.stop_eq_ite (h : c.Paced size) : (if c.running then c.stop else c) = c.stop := by
  split
  next => rfl
  next hr => rw [(h.quiet (by simpa using hr)).stop_eq]

theorem Paced.stepByHand (h : c.Paced size) : c.stepByHand.2.Paced size := by
  obtain ⟨hstop, hidle⟩ := h.stop
  have hquiet := hstop.quiet hidle
  unfold Console.stepByHand
  rw [h.stop_eq_ite]
  dsimp only
  split
  · exact hstop.log _
  next hm =>
    obtain ⟨trace, c', hone, hsteps⟩ := stepOnce_ok hstop.sound
    have hshown : c.stop.display.phase ≠ .running := by simp [hstop.showsRunning, hidle]
    have hlive : c.stop.display.phase ≠ .halted := by simpa [hstop.showsHalted] using hm
    rw [hone]
    refine (hquiet.congr hsteps.running hsteps.job hsteps.timers).paced hsteps.sound ?_ ?_
    · rw [hsteps.phase]
      split <;> simp [hshown]
    · rw [hsteps.phase]
      split
      next hm' => simp [hm']
      next hm' => simp [hm', hlive]

theorem Paced.startRun (h : c.Paced size) : c.startRun.2.Paced size := by
  unfold Console.startRun
  split
  · exact h
  next hr =>
    split
    · exact h.log _
    · have hquiet := h.quiet (by simpa using hr)
      exact paced_nextRound (c := { c with running := true }.showPhase .running) h.sound rfl
        hquiet.timers rfl

theorem Paced.fireTimer (h : c.Paced size) : c.fireTimer.2.Paced size := by
  unfold Console.fireTimer
  split
  · exact h
  next t rest htimers =>
    rcases h.loop with hw | hq
    · obtain ⟨t', honly, -⟩ := hw.waits
      rw [htimers] at honly
      have hrest : rest = [] := (List.cons.inj honly).2
      exact paced_nextRound (c := { c with timers := rest }) h.sound hw.running hrest
        (h.showsRunning.mpr hw.running)
    · rw [hq.timers] at htimers
      cases htimers

theorem Paced.resetMachine (h : c.Paced size) : c.resetMachine.Paced size := by
  obtain ⟨hstop, hidle⟩ := h.stop
  have hquiet := hstop.quiet hidle
  unfold Console.resetMachine
  dsimp only
  refine paced_refresh true ⟨Machine.sound_fresh c.stop.machine.memory.size, hstop.sound.size_eq⟩
    (.inr ⟨hidle, hquiet.job, hquiet.timers⟩) ?_ nofun
  change Phase.idle = .running ↔ c.stop.running = true
  simp [hidle]

theorem Paced.changeBase (h : c.Paced size) : c.changeBase.Paced size := by
  unfold Console.changeBase
  refine Paced.refresh ?_ true
  exact h.congr h.sound rfl rfl rfl rfl rfl

theorem Paced.act (h : c.Paced size) (a : Action) (leaves : a.leavesMemory) :
    (c.act a).2.Paced size := by
  cases a with
  | edit src => exact h.congr h.sound rfl rfl rfl rfl rfl
  | assemble => exact h.assembleText
  | step => exact h.stepByHand
  | run => exact h.startRun
  | stop => exact h.stop.1
  | reset => exact h.resetMachine
  | changeBase => exact h.changeBase
  | setSpeed value =>
    simp only [Console.act]
    split
    · exact h
    · exact h.congr h.sound rfl rfl rfl rfl rfl
  | chooseCache choice => exact h.congr h.sound rfl rfl rfl rfl rfl
  | follow on => exact h.congr h.sound rfl rfl rfl rfl rfl
  | fire => exact h.fireTimer
  | setRegister r v => exact h.congr ⟨h.sound.put r v, h.sound.size_eq⟩ rfl rfl rfl rfl rfl
  | setMemory addr v => cases leaves
  | refresh full => exact h.refresh full

theorem Paced.actAll (h : c.Paced size) (actions : List Action)
    (leaves : ∀ a ∈ actions, a.leavesMemory) : (c.actAll actions).Paced size :=
  List.foldlRecOn (motive := fun c : Console => c.Paced size) actions _ h
    fun _ hc a ha => hc.act a (leaves a ha)

theorem paced_opened {speed : Int} (hopened : opened size speed = .ok c) : c.Paced size := by
  unfold opened at hopened
  split at hopened
  · cases hopened
  · cases hopened
    exact paced_refresh true ⟨Machine.sound_fresh size, rfl⟩ (.inr ⟨rfl, rfl, rfl⟩)
      ⟨nofun, nofun⟩ nofun

/--
After any actions that leave the memory to the machine, a call waits exactly while a run goes on,
and it is the one that the run loop counts on. Only a machine that has not halted runs, and the
phase that is shown says which of both is the case.
-/
theorem run_loop_agrees (size speed : Int) (hsize : 0 ≤ size) (actions : List Action)
    (leaves : ∀ a ∈ actions, a.leavesMemory) :
    ∃ start c, opened size speed = .ok start ∧ c = start.actAll actions ∧
      c.timers.length = (if c.running then 1 else 0) ∧
      (c.job.isSome ↔ c.running) ∧
      (∀ t ∈ c.timers, c.job = some t.id ∧ 10 ≤ t.delay) ∧
      (c.running → ¬c.machine.halted) ∧
      (c.display.phase.text = "RODANDO" ↔ c.running) ∧
      (c.display.phase.text = "HALT" ↔ c.machine.halted) := by
  have hopened : opened size speed = .ok _ := if_neg (by omega)
  have hpaced := (paced_opened hopened).actAll actions leaves
  refine ⟨_, _, hopened, rfl, ?_⟩
  generalize actAll _ actions = c at hpaced ⊢
  have hrunning : c.display.phase.text = "RODANDO" ↔ c.display.phase = .running := by
    cases c.display.phase <;> decide
  have hhalted : c.display.phase.text = "HALT" ↔ c.display.phase = .halted := by
    cases c.display.phase <;> decide
  rw [hrunning, hhalted]
  rcases hpaced.loop with hw | hq
  · obtain ⟨t, htimers, hjob, hdelay⟩ := hw.waits
    refine ⟨by simp [htimers, hw.running], by simp [hjob, hw.running], ?_, fun _ => ?_,
      hpaced.showsRunning, hpaced.showsHalted⟩
    · intro t' ht'
      rw [htimers, List.mem_singleton] at ht'
      subst ht'
      exact ⟨hjob, hdelay⟩
    · simp [hw.live]
  · refine ⟨by simp [hq.timers, hq.running], by simp [hq.job, hq.running], ?_, ?_,
      hpaced.showsRunning, hpaced.showsHalted⟩
    · simp [hq.timers]
    · simp [hq.running]

def brokenRun : List Action :=
  [.assemble, .run, .fire, .setSpeed ['x'], .setRegister .pc 0, .edit "LODD nada".toList, .assemble,
    .run]

theorem run_loop_agrees_brokenRun :
    (0 : Int) ≤ 16 ∧ (∀ a ∈ brokenRun, a.leavesMemory) ∧
      ∃ start c, opened 16 defaultSpeed = .ok start ∧ c = start.actAll brokenRun ∧
        c.timers.length = (if c.running then 1 else 0) ∧
        (c.job.isSome ↔ c.running) ∧
        (∀ t ∈ c.timers, c.job = some t.id ∧ 10 ≤ t.delay) ∧
        (c.running → ¬c.machine.halted) ∧
        (c.display.phase.text = "RODANDO" ↔ c.running) ∧
        (c.display.phase.text = "HALT" ↔ c.machine.halted) :=
  have leaves : ∀ a ∈ brokenRun, a.leavesMemory := by decide
  ⟨by decide, leaves, run_loop_agrees 16 defaultSpeed (by decide) brokenRun leaves⟩

end Console

end AccMachine
