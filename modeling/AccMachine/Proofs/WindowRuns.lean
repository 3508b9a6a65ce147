import AccMachine.Proofs.MachineRuns
import AccMachine.Proofs.RunLoop
import AccMachine.Report

namespace AccMachine

def Action.keepsProgram : Action → Bool
  | .assemble | .reset => false
  | .setRegister _ _ | .setMemory _ _ => false
  | _ => true

theorem Action.leavesMemory_of_keepsProgram {a : Action} (h : a.keepsProgram) :
    a.leavesMemory := by
  cases a <;> first | rfl | cases h

/-- What the window says of itself in the log while a program is run. -/
def notices : List String :=
  ["CPU parada (HALT). Reinicie para continuar.",
    "A CPU esta em HALT. Resete para rodar novamente.",
    "=== FIM DA EXECUCAO (HALT) ===",
    "Execucao pausada."]

/-- A log of blocks in their order, each of them whole and once, with notices between them. -/
inductive Interleaved : List (List String) → List String → Prop
  | nil : Interleaved [] []
  | notice {blocks : List (List String)} {log : List String} {s : String} :
      Interleaved blocks log → s ∈ notices → Interleaved blocks (log ++ [s])
  | block {blocks : List (List String)} {log : List String} (b : List String) :
      Interleaved blocks log → Interleaved (blocks ++ [b]) (log ++ b)

theorem head_append {s : String} {c : Char} (h : s.toList.head? = some c) (r : String) :
    (s ++ r).toList.head? = some c := by
  rw [String.toList_append, List.head?_append, h]
  rfl

theorem TraceLine.head_text (t : TraceLine) :
    t.text.toList.head? = some '[' ∨ t.text.toList.head? = some 'I' := by
  cases t with
  | fetch text =>
    have h : "[FETCH] ".toList.head? = some '[' := by decide
    exact .inl (head_append h text)
  | ran o text =>
    have h : "[".toList.head? = some '[' := by decide
    exact .inl (head_append (head_append (head_append h o.mnemonic) "] ") text)
  | unknown w =>
    have h : "Instrucao desconhecida: ".toList.head? = some 'I' := by decide
    exact .inr (head_append h w.hex)

theorem TraceLine.text_notMem_notices (t : TraceLine) : t.text ∉ notices := by
  intro h
  have hheads : ∀ s ∈ notices, s.toList.head? ≠ some '[' ∧ s.toList.head? ≠ some 'I' := by decide
  rcases t.head_text with hh | hh
  · exact (hheads _ h).1 hh
  · exact (hheads _ h).2 hh

/-- Blocks without a notice can be read off the log again. -/
theorem Interleaved.filter_eq {blocks : List (List String)} {log : List String}
    (h : Interleaved blocks log) (plain : ∀ b ∈ blocks, ∀ s ∈ b, s ∉ notices) :
    log.filter (· ∉ notices) = blocks.flatten := by
  induction h with
  | nil => rfl
  | @notice blocks log s _ hs ih =>
    rw [List.filter_append, ih plain]
    simp [hs]
  | @block blocks log b _ ih =>
    have hb : b.filter (· ∉ notices) = b := by
      rw [List.filter_eq_self]
      intro s hs
      simpa using plain b (by simp) s hs
    rw [List.filter_append, ih fun b' hb' => plain b' (by simp [hb']), hb]
    simp

@[simp] theorem Editor.text_setText (e : Editor) (s : Text) : (e.setText s).2.text = s := by
  unfold Editor.setText Editor.numberRows
  dsimp only
  split <;> rfl

namespace Console

def stepsAsked (c : Console) : Action → Nat
  | .step => if c.machine.halted then 0 else 1
  | .run => if c.running ∨ c.machine.halted then 0 else 1
  | .fire => if c.timers.isEmpty then 0 else 1
  | _ => 0

def stepsAskedAll (c : Console) : List Action → Nat
  | [] => 0
  | a :: actions => c.stepsAsked a + (c.act a).2.stepsAskedAll actions

/--
The machine of the window has made so many steps from `m` on, and the log tells of them above an
older log.
-/
def HasRun (c : Console) (m : Machine) (older : List String) (k : Nat) : Prop :=
  ∃ traces told, traces.length = k ∧ m.Ran traces c.machine ∧
    Interleaved (traces.map fun t => t.map TraceLine.text) told ∧
    c.display.log = told.reverse ++ older

variable {c c' : Console} {size : Int} {m : Machine} {going : Bool} {older : List String} {k : Nat}

theorem HasRun.congr (h : c.HasRun m older k) (machine : c'.machine = c.machine)
    (log : c'.display.log = c.display.log) : c'.HasRun m older k := by
  unfold HasRun
  rw [machine, log]
  exact h

theorem HasRun.notice (h : c.HasRun m older k) {s : String} (hs : s ∈ notices)
    (machine : c'.machine = c.machine) (log : c'.display.log = s :: c.display.log) :
    c'.HasRun m older k := by
  obtain ⟨traces, told, hlen, hran, hinter, hlog⟩ := h
  refine ⟨traces, told ++ [s], hlen, machine ▸ hran, hinter.notice hs, ?_⟩
  rw [log, hlog, List.reverse_append]
  rfl

theorem HasRun.step (h : c.HasRun m older k) (live : c.machine.halted = false)
    {trace : List TraceLine} (hsteps : c.StepsTo size trace c') : c'.HasRun m older (k + 1) := by
  obtain ⟨traces, told, hlen, hran, hinter, hlog⟩ := h
  refine ⟨traces ++ [trace], told ++ trace.map TraceLine.text, ?_,
    hran.step live hsteps.step, ?_, ?_⟩
  · rw [List.length_append, hlen]
    rfl
  · rw [List.map_append]
    exact hinter.block _
  · rw [hsteps.log, hlog, List.reverse_append, List.append_assoc]

theorem HasRun.refresh (h : c.HasRun m older k) (full : Bool) :
    (c.refresh full).HasRun m older k :=
  h.congr (by simp) (by simp)

theorem HasRun.stop (h : c.HasRun m older k) (hp : c.Paced size) : c.stop.HasRun m older k := by
  rcases hp.loop with hw | hq
  · rw [hw.stop_eq]
    exact h.notice (s := "Execucao pausada.") (by decide) rfl rfl
  · rw [hq.stop_eq]
    exact h

theorem HasRun.nextRound (h : c.HasRun m older k) (sound : c.machine.SoundOver size)
    (hr : c.running) (live : c.machine.halted = false) : c.nextRound.2.HasRun m older (k + 1) := by
  obtain ⟨trace, c', hsteps, heq⟩ := nextRound_ok sound hr
  have hjob : { c with job := none }.HasRun m older k := h.congr rfl rfl
  have hran := hjob.step live hsteps
  rw [heq]
  split
  · exact hran.notice (s := "=== FIM DA EXECUCAO (HALT) ===") (by decide) rfl rfl
  · exact hran.congr rfl rfl

theorem HasRun.stepByHand (h : c.HasRun m older k) (hp : c.Paced size) :
    c.stepByHand.2.HasRun m older (k + c.stepsAsked .step) := by
  have hstop := h.stop hp
  unfold Console.stepByHand stepsAsked
  rw [hp.stop_eq_ite]
  dsimp only
  rw [machine_stop]
  split
  · exact hstop.notice (s := "CPU parada (HALT). Reinicie para continuar.") (by decide) rfl
      rfl
  next hm =>
    obtain ⟨trace, c', hone, hsteps⟩ := stepOnce_ok hp.stop.1.sound
    rw [hone]
    exact hstop.step (by rw [machine_stop]; simpa using hm) hsteps

theorem HasRun.startRun (h : c.HasRun m older k) (hp : c.Paced size) :
    c.startRun.2.HasRun m older (k + c.stepsAsked .run) := by
  unfold Console.startRun stepsAsked
  dsimp only
  by_cases hr : c.running
  · rw [if_pos hr, if_pos (.inl hr)]
    exact h
  · rw [if_neg hr]
    by_cases hm : c.machine.halted
    · rw [if_pos hm, if_pos (.inr hm)]
      exact h.notice (s := "A CPU esta em HALT. Resete para rodar novamente.") (by decide) rfl
        rfl
    · rw [if_neg hm, if_neg (by simp [hr, hm])]
      have hbegun : ({ c with running := true }.showPhase .running).HasRun m older k :=
        h.congr rfl rfl
      have live : c.machine.halted = false := by simpa using hm
      exact hbegun.nextRound hp.sound rfl live

theorem HasRun.fireTimer (h : c.HasRun m older k) (hp : c.Paced size) :
    c.fireTimer.2.HasRun m older (k + c.stepsAsked .fire) := by
  unfold Console.fireTimer stepsAsked
  rcases hp.loop with hw | hq
  · obtain ⟨t, htimers, -⟩ := hw.waits
    rw [htimers]
    have hrest : { c with timers := [] }.HasRun m older k := h.congr rfl rfl
    exact hrest.nextRound hp.sound hw.running hw.live
  · rw [hq.timers]
    exact h

theorem HasRun.act (h : c.HasRun m older k) (hp : c.Paced size) (a : Action)
    (keeps : a.keepsProgram) : (c.act a).2.HasRun m older (k + c.stepsAsked a) := by
  cases a with
  | edit src => exact h.congr rfl rfl
  | assemble => cases keeps
  | step => exact h.stepByHand hp
  | run => exact h.startRun hp
  | stop => exact h.stop hp
  | reset => cases keeps
  | changeBase =>
    refine HasRun.refresh ?_ true
    exact h.congr rfl rfl
  | setSpeed value =>
    simp only [Console.act]
    split
    · exact h
    · exact h.congr rfl rfl
  | chooseCache choice => exact h.congr rfl rfl
  | follow on => exact h.congr rfl rfl
  | fire => exact h.fireTimer hp
  | setRegister r v => cases keeps
  | setMemory addr v => cases keeps
  | refresh full => exact h.refresh full

theorem HasRun.actAll (h : c.HasRun m older k) (hp : c.Paced size) (actions : List Action)
    (keeps : ∀ a ∈ actions, a.keepsProgram) :
    (c.actAll actions).HasRun m older (k + c.stepsAskedAll actions) := by
  induction actions generalizing c k with
  | nil => exact h
  | cons a actions ih =>
    have ha := keeps a (by simp)
    have hact := h.act hp a ha
    have hpaced := hp.act a (Action.leavesMemory_of_keepsProgram ha)
    rw [stepsAskedAll, ← Nat.add_assoc]
    exact ih hact hpaced fun b hb => keeps b (by simp [hb])

@[simp] theorem editor_stop (c : Console) : c.stop.editor = c.editor := by
  unfold stop
  cases c.job <;> dsimp only <;> split <;> rfl

theorem Paced.assembled (hp : c.Paced size) {a : Assembly}
    (hassemble : AccMachine.assemble c.editor.text = .ok a) (hok : a.ok) :
    (c.act .assemble).1 = none ∧ (c.act .assemble).2.running = false ∧
      (c.act .assemble).2.machine = (Machine.fresh size).load a.image := by
  have hfailure : a.failure? = none := if_pos hok
  have hsize : c.stop.machine.memory.size = size := hp.stop.1.sound.size_eq
  change c.assembleText.1 = none ∧ c.assembleText.2.running = false ∧ c.assembleText.2.machine = _
  unfold Console.assembleText
  dsimp only
  rw [editor_stop, hassemble]
  dsimp only
  rw [hfailure]
  refine ⟨rfl, ?_, ?_⟩
  · simpa [Console.log, showPhase] using hp.stop.2
  · simpa [Console.log, showPhase] using Machine.load_eq_of_size hsize a.image

theorem nextRound_stepped (sound : c.machine.SoundOver size) (hr : c.running) :
    c.nextRound.2.machine = c.machine.stepped ∧
      c.nextRound.2.running = !c.machine.stepped.halted := by
  obtain ⟨trace, c', hsteps, heq⟩ := nextRound_ok sound hr
  have hrunning : c'.running = true := hsteps.running.trans hr
  rw [heq, Machine.stepped_eq hsteps.step]
  split
  next hm => exact ⟨rfl, by simp [log, hm]⟩
  next hm => exact ⟨rfl, by simp [schedule, hm, hrunning]⟩

/-- A window between two actions, over a machine and with or without a run that goes on. -/
structure Stands (c : Console) (size : Int) (m : Machine) (going : Bool) : Prop where
  paced : c.Paced size
  machine : c.machine = m
  running : c.running = going

theorem Paced.stands_assembled (hp : c.Paced size) {a : Assembly}
    (hassemble : AccMachine.assemble c.editor.text = .ok a) (hok : a.ok) :
    (c.act .assemble).2.Stands size ((Machine.fresh size).load a.image) false := by
  obtain ⟨-, hidle, hmachine⟩ := hp.assembled hassemble hok
  exact ⟨hp.act .assemble rfl, hmachine, hidle⟩

theorem Stands.isEmpty_timers (h : c.Stands size m going) : c.timers.isEmpty = !going := by
  rw [← h.running]
  rcases h.paced.loop with hw | hq
  · obtain ⟨t, htimers, -⟩ := hw.waits
    rw [htimers, hw.running]
    rfl
  · rw [hq.timers, hq.running]
    rfl

theorem Stands.act_run (h : c.Stands size m false) (live : m.halted = false) :
    (c.act .run).2.Stands size m.stepped (!m.stepped.halted) := by
  obtain ⟨hp, rfl, hr⟩ := h
  have hround := nextRound_stepped (c := { c with running := true }.showPhase .running) hp.sound rfl
  have hrun : c.act .run = ({ c with running := true }.showPhase .running).nextRound := by
    change c.startRun = _
    unfold startRun
    rw [if_neg (by simp [hr]), if_neg (by simp [live])]
  rw [← hrun] at hround
  exact ⟨hp.act .run rfl, hround.1, hround.2⟩

theorem Stands.act_fire (h : c.Stands size m true) :
    (c.act .fire).2.Stands size m.stepped (!m.stepped.halted) := by
  obtain ⟨hp, rfl, hr⟩ := h
  rcases hp.loop with hw | hq
  · obtain ⟨t, htimers, -⟩ := hw.waits
    have hround := nextRound_stepped (c := { c with timers := [] }) hp.sound hr
    have hfire : c.act .fire = { c with timers := [] }.nextRound := by
      change c.fireTimer = _
      unfold fireTimer
      rw [htimers]
    rw [← hfire] at hround
    exact ⟨hp.act .fire rfl, hround.1, hround.2⟩
  · rw [hq.running] at hr
    cases hr

theorem Stands.act_stop (h : c.Stands size m going) : (c.act .stop).2.Stands size m false :=
  ⟨h.paced.act .stop rfl, (machine_stop c).trans h.machine, h.paced.stop.2⟩

theorem Stands.act_step (h : c.Stands size m going) :
    (c.act .step).2.Stands size m.stepped false := by
  obtain ⟨hp, rfl, -⟩ := h
  have hstepped : c.stepByHand.2.machine = c.machine.stepped ∧
      c.stepByHand.2.running = false := by
    unfold Console.stepByHand
    rw [hp.stop_eq_ite]
    dsimp only
    rw [machine_stop]
    split
    next hm =>
      rw [Machine.stepped_eq (Machine.step_of_halted hm)]
      exact ⟨machine_stop c, hp.stop.2⟩
    next =>
      obtain ⟨trace, c', hone, hsteps⟩ := stepOnce_ok hp.stop.1.sound
      have hstep := hsteps.step
      rw [machine_stop] at hstep
      rw [hone]
      exact ⟨(Machine.stepped_eq hstep).symm, hsteps.running.trans hp.stop.2⟩
  exact ⟨hp.act .step rfl, hstepped.1, hstepped.2⟩

/--
From a program that was assembled and loaded on, the machine of the window is where so many steps
lead as were asked for, and the log has the traces of these steps in their order, each of them once
and all else being notices. Where this ends in a halt, so does a run without a window that may make
as many steps, and in the same state.
-/
theorem window_makes_the_steps {speed : Int} {start before loaded after : Console} {a : Assembly}
    {earlier later : List Action} (hopened : opened size speed = .ok start)
    (leaves : ∀ x ∈ earlier, x.leavesMemory) (hbefore : before = start.actAll earlier)
    (hassemble : AccMachine.assemble before.editor.text = .ok a) (hok : a.ok)
    (hloaded : loaded = (before.act .assemble).2)
    (keeps : ∀ x ∈ later, x.keepsProgram) (hafter : after = loaded.actAll later) :
    (before.act .assemble).1 = none ∧
    ∃ traces told, traces.length = loaded.stepsAskedAll later ∧
      ((Machine.fresh size).load a.image).steps traces.length = .ok (traces, after.machine) ∧
      after.display.log = told.reverse ++ loaded.display.log ∧
      Interleaved (traces.map fun t => t.map TraceLine.text) told ∧
      told.filter (· ∉ notices) = traces.flatten.map TraceLine.text ∧
      (size = Memory.defaultSize → after.machine.halted →
        ∀ budget : Int, traces.length ≤ budget →
          ∃ r, runToEnd before.editor.text budget = .ok (.ok r) ∧ r.steps = traces.length ∧
            r.machine = after.machine) := by
  have hpaced := (paced_opened hopened).actAll earlier leaves
  rw [← hbefore] at hpaced
  obtain ⟨hdone, -, hmachine⟩ := hpaced.assembled hassemble hok
  have hpaced' := hpaced.act .assemble rfl
  rw [← hloaded] at hmachine hpaced'
  have hstart : loaded.HasRun loaded.machine loaded.display.log 0 :=
    ⟨[], [], rfl, .refl, .nil, rfl⟩
  obtain ⟨traces, told, hlen, hran, hinter, hlog⟩ := hstart.actAll hpaced' later keeps
  rw [← hafter, hmachine] at hran
  rw [← hafter] at hlog
  refine ⟨hdone, traces, told, by rw [hlen, Nat.zero_add], hran.steps_eq, hlog, hinter, ?_, ?_⟩
  · rw [hinter.filter_eq, List.map_flatten]
    intro b hb s hs
    obtain ⟨t, -, rfl⟩ := List.mem_map.mp hb
    obtain ⟨l, -, rfl⟩ := List.mem_map.mp hs
    exact l.text_notMem_notices
  · intro hsize halted budget hbudget
    subst hsize
    have hrun := hran.run_eq halted hbudget
    have hfailure : a.failure? = none := if_pos hok
    refine ⟨⟨a.warnings, traces.length, after.machine⟩, ?_, rfl, rfl⟩
    have hend : a.runToEnd budget = .ok ⟨a.warnings, traces.length, after.machine⟩ := by
      unfold Assembly.runToEnd
      rw [hrun]
      rfl
    unfold runToEnd
    rw [hassemble]
    dsimp only [bind, Except.bind]
    rw [hfailure]
    dsimp only
    rw [hend]
    rfl

def jumpAhead : Text := "LOCO 5\nSWAP\nINSP 2\nJUMP fim\nLOCO 6\nfim: HALT".toList

def jumpImage : Array Int := #[0x7005, 0xFA00, 0xFC02, 0x6005, 0x7006, 0xFFFF]

/-- A run that is paused, moved on by hand and taken up again, until the machine halts. -/
def interruptedRun : List Action := [.run, .fire, .stop, .step, .run, .fire, .step]

theorem interruptedRun_halts (h : c.Stands Memory.defaultSize
    ((Machine.fresh Memory.defaultSize).load jumpImage) false) :
    c.stepsAskedAll interruptedRun = 5 ∧ (c.actAll interruptedRun).machine.halted := by
  have hword (a : Int) (hin : (Memory.zeros Memory.defaultSize).InRange a) :=
    Memory.get_load (Memory.zeros Memory.defaultSize) jumpImage a hin
  have h0 := Machine.at_load Memory.defaultSize jumpImage
  have h1 : Machine.At _ _ 1 := h0.stepped (by decide) (by
    rw [hword _ (by decide)]
    exact fun b hb => ⟨rfl, rfl, hb⟩)
  have h2 : Machine.At _ _ 2 := h1.stepped (by decide) (by
    rw [hword _ (by decide)]
    exact fun b hb => ⟨rfl, rfl, hb⟩)
  have h3 : Machine.At _ _ 3 := h2.stepped (by decide) (by
    rw [hword _ (by decide)]
    exact fun b hb => ⟨rfl, rfl, hb⟩)
  have h4 : Machine.At _ _ 5 := h3.stepped (by decide) (by
    rw [hword _ (by decide)]
    exact fun _ _ => ⟨rfl, rfl, rfl⟩)
  have halted := h4.stepped_halts (by decide) (by
    rw [hword _ (by decide)]
    rfl)
  -- Two rounds, a pause, a step by hand, two rounds more, and a step that finds the machine halted.
  have c1 := h.act_run h0.live
  rw [h1.live] at c1
  have c3 := c1.act_fire.act_stop
  have c4 := c3.act_step
  have c5 := c4.act_run h3.live
  rw [h4.live] at c5
  have c6 := c5.act_fire
  have c7 := c6.act_step
  rw [Machine.stepped_eq (Machine.step_of_halted halted)] at c7
  constructor
  · simp [interruptedRun, stepsAskedAll, stepsAsked, h.machine, h.running, h0.live,
      c1.isEmpty_timers, c3.machine, h2.live, c4.running, c4.machine, h3.live, c5.isEmpty_timers,
      c6.machine, halted]
  · exact c7.machine ▸ halted

theorem window_makes_the_steps_interruptedRun :
    ∃ start loaded after, opened Memory.defaultSize defaultSpeed = .ok start ∧
      (start.actAll [.edit jumpAhead]).act .assemble = (none, loaded) ∧
      after = loaded.actAll interruptedRun ∧ after.machine.halted ∧
      ∃ traces told r, traces.length = 5 ∧
        ((Machine.fresh Memory.defaultSize).load jumpImage).steps 5 = .ok (traces, after.machine) ∧
        after.display.log = told.reverse ++ loaded.display.log ∧
        Interleaved (traces.map fun t => t.map TraceLine.text) told ∧
        told.filter (· ∉ notices) = traces.flatten.map TraceLine.text ∧
        runToEnd jumpAhead 5 = .ok (.ok r) ∧ r.steps = 5 ∧ r.machine = after.machine := by
  obtain ⟨start, hopened⟩ : ∃ c, opened Memory.defaultSize defaultSpeed = .ok c :=
    ⟨_, if_neg (by decide)⟩
  have leaves : ∀ x ∈ [Action.edit jumpAhead], x.leavesMemory := by decide
  have keeps : ∀ x ∈ interruptedRun, x.keepsProgram := by decide
  have htext : (start.actAll [.edit jumpAhead]).editor.text = jumpAhead :=
    start.editor.text_setText jumpAhead
  have hassemble : AccMachine.assemble jumpAhead =
      .ok ⟨jumpImage, #[], #[], [("fim".toList, 5)]⟩ := rfl
  rw [← htext] at hassemble
  have hpaced := (paced_opened hopened).actAll _ leaves
  have hstands := hpaced.stands_assembled hassemble rfl
  obtain ⟨loaded, hloaded⟩ : ∃ d, d = ((start.actAll [.edit jumpAhead]).act .assemble).2 :=
    ⟨_, rfl⟩
  obtain ⟨after, hafter⟩ : ∃ d, d = loaded.actAll interruptedRun := ⟨_, rfl⟩
  rw [← hloaded] at hstands
  obtain ⟨hasked, halted⟩ := interruptedRun_halts hstands
  rw [← hafter] at halted
  obtain ⟨hdone, traces, told, hlen, hsteps, hlog, hinter, hfilter, hend⟩ :=
    window_makes_the_steps hopened leaves rfl hassemble rfl hloaded keeps hafter
  rw [hasked] at hlen
  rw [hlen] at hsteps
  obtain ⟨r, hr, hcount, hsame⟩ := hend rfl halted 5 (by omega)
  rw [htext] at hr
  exact ⟨start, loaded, after, hopened, Prod.ext hdone hloaded.symm, hafter, halted, traces, told,
    r, hlen, hsteps, hlog, hinter, hfilter, hr, hcount.trans hlen, hsame⟩

end Console

end AccMachine
