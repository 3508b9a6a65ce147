import AccMachine.Proofs.WindowRuns

namespace AccMachine

/-- A text that assembles into no program: it has errors, or the assembler gives up on it. -/
def FailsToAssemble (src : Text) : Prop :=
  ∀ a, assemble src = .ok a → a.ok = false

namespace Console

/--
The call that the run loop counts on is the only one that waits, and none does outside of a run.
Unlike `Paced` this asks nothing of the machine, so writes to the memory keep it as well.
-/
structure Linked (c : Console) : Prop where
  timers : c.timers.map Timer.id = c.job.toList
  idle : c.running = false → c.job = none

variable {c c' : Console}

theorem Linked.congr (h : c.Linked) (timers : c'.timers = c.timers) (job : c'.job = c.job)
    (running : c'.running = c.running) : c'.Linked := by
  refine ⟨?_, ?_⟩
  · rw [timers, job]
    exact h.timers
  · rw [running, job]
    exact h.idle

theorem Linked.of_quiet (h : c.Quiet) : c.Linked := by
  refine ⟨?_, fun _ => h.job⟩
  rw [h.timers, h.job]
  rfl

theorem Linked.quiet (h : c.Linked) (hr : c.running = false) : c.Quiet := by
  have hjob := h.idle hr
  have htimers := h.timers
  rw [hjob] at htimers
  exact ⟨hr, hjob, List.map_eq_nil_iff.mp htimers⟩

theorem Linked.waits (h : c.Linked) :
    c.job = none ∧ c.timers = [] ∨ ∃ t, c.job = some t.id ∧ c.timers = [t] := by
  have hmap := h.timers
  cases hj : c.job with
  | none =>
    rw [hj] at hmap
    exact .inl ⟨rfl, List.map_eq_nil_iff.mp hmap⟩
  | some id =>
    rw [hj] at hmap
    obtain ⟨t, ht, rfl⟩ := List.map_eq_singleton_iff.mp hmap
    exact .inr ⟨t, rfl, ht⟩

theorem Linked.refresh (h : c.Linked) (full : Bool) : (c.refresh full).Linked :=
  h.congr (by simp) (by simp) (by simp)

/-- The window with its run ended: only a run is told of, in the phase and in the log. -/
def paused (c : Console) : Console :=
  { c with
    running := false
    job := none
    timers := []
    display := { c.display with
      phase := if c.running then .paused else c.display.phase
      log := if c.running then "Execucao pausada." :: c.display.log else c.display.log } }

theorem Linked.stop_eq (h : c.Linked) : c.stop = c.paused := by
  cases hr : c.running with
  | false =>
    have hq := h.quiet hr
    rw [hq.stop_eq]
    unfold paused
    rw [hr, if_neg Bool.false_ne_true, if_neg Bool.false_ne_true, ← hq.timers, ← hq.job, ← hr]
  | true =>
    unfold stop paused
    rw [if_pos hr, if_pos hr]
    rcases h.waits with ⟨hj, ht⟩ | ⟨t, hj, ht⟩
    · rw [hj]
      dsimp only
      rw [if_pos hr, ← ht, ← hj]
      rfl
    · have hnone : c.timers.filter (·.id ≠ t.id) = [] := by simp [ht]
      rw [hj]
      dsimp only
      rw [if_pos hr, hnone]
      rfl

theorem quiet_paused (c : Console) : c.paused.Quiet := ⟨rfl, rfl, rfl⟩

theorem Linked.stop (h : c.Linked) : c.stop.Linked := by
  rw [h.stop_eq]
  exact .of_quiet c.quiet_paused

theorem loop_stepOnce (c : Console) : c.stepOnce.2.timers = c.timers ∧
    c.stepOnce.2.job = c.job ∧ c.stepOnce.2.running = c.running := by
  unfold stepOnce
  split
  · exact ⟨rfl, rfl, rfl⟩
  · simp [log]

theorem Linked.stepOnce (h : c.Linked) : c.stepOnce.2.Linked := by
  obtain ⟨ht, hj, hr⟩ := loop_stepOnce c
  exact h.congr ht hj hr

theorem linked_nextRound (htimers : c.timers = []) : c.nextRound.2.Linked := by
  have hstart : { c with job := none }.Linked := by
    refine ⟨?_, fun _ => rfl⟩
    change c.timers.map Timer.id = []
    rw [htimers]
    rfl
  obtain ⟨ht, hj, hr⟩ := loop_stepOnce { c with job := none }
  unfold nextRound
  dsimp only
  split
  · exact hstart
  next hrunning =>
    split
    next f c' heq =>
      rw [heq] at ht hj hr
      exact hstart.congr ht hj hr
    next c' heq =>
      rw [heq] at ht hj hr
      split
      · exact .of_quiet ⟨rfl, hj, ht.trans htimers⟩
      · refine ⟨?_, fun hidle => ?_⟩
        · change (c'.timers ++ _).map Timer.id = _
          rw [ht.trans htimers]
          rfl
        · have hrun : c.running = true := by simpa using hrunning
          exact absurd (hr.symm.trans hidle) (by simp [hrun])

theorem Linked.assembleText (h : c.Linked) : c.assembleText.2.Linked := by
  unfold Console.assembleText
  dsimp only
  split
  · exact h.stop
  · split
    · exact h.stop.congr rfl rfl rfl
    next a _ _ _ =>
      have hload : { c.stop with machine := c.stop.machine.load a.image }.Linked :=
        h.stop.congr rfl rfl rfl
      exact (hload.refresh true).congr rfl rfl rfl

theorem Linked.stepByHand (h : c.Linked) : c.stepByHand.2.Linked := by
  have hready : (if c.running then c.stop else c).Linked := by
    split
    · exact h.stop
    · exact h
  unfold Console.stepByHand
  extract_lets ready
  split
  · exact hready.congr rfl rfl rfl
  · exact hready.stepOnce

theorem Linked.startRun (h : c.Linked) : c.startRun.2.Linked := by
  unfold Console.startRun
  split
  · exact h
  next hr =>
    split
    · exact h.congr rfl rfl rfl
    · exact linked_nextRound (h.quiet (by simpa using hr)).timers

theorem Linked.fireTimer (h : c.Linked) : c.fireTimer.2.Linked := by
  unfold Console.fireTimer
  split
  · exact h
  next t rest ht =>
    refine linked_nextRound ?_
    change rest = []
    rcases h.waits with ⟨-, hnone⟩ | ⟨t', -, hone⟩
    · rw [hnone] at ht
      cases ht
    · rw [hone] at ht
      exact (List.cons.inj ht).2.symm

theorem Linked.resetMachine (h : c.Linked) : c.resetMachine.Linked := by
  unfold Console.resetMachine
  refine Linked.refresh ?_ true
  exact h.stop.congr rfl rfl rfl

theorem Linked.act (h : c.Linked) (a : Action) : (c.act a).2.Linked := by
  cases a with
  | edit src => exact h.congr rfl rfl rfl
  | assemble => exact h.assembleText
  | step => exact h.stepByHand
  | run => exact h.startRun
  | stop => exact h.stop
  | reset => exact h.resetMachine
  | changeBase =>
    refine Linked.refresh ?_ true
    exact h.congr rfl rfl rfl
  | setSpeed value =>
    simp only [Console.act]
    split
    · exact h
    · exact h.congr rfl rfl rfl
  | chooseCache choice => exact h.congr rfl rfl rfl
  | follow on => exact h.congr rfl rfl rfl
  | fire => exact h.fireTimer
  | setRegister r v => exact h.congr rfl rfl rfl
  | setMemory addr v => exact h.congr rfl rfl rfl
  | refresh full => exact h.refresh full

theorem Linked.actAll (h : c.Linked) (actions : List Action) : (c.actAll actions).Linked :=
  List.foldlRecOn actions _ h fun _ hc a _ => hc.act a

theorem linked_opened {size speed : Int} (hopened : opened size speed = .ok c) : c.Linked := by
  unfold opened at hopened
  split at hopened
  · cases hopened
  · cases hopened
    exact (Linked.of_quiet ⟨rfl, rfl, rfl⟩).refresh true

/-- The window with older dialogs behind the ones that it shows. -/
def behind (c : Console) (older : List Dialog) : Console :=
  { c with display := { c.display with dialogs := c.display.dialogs ++ older } }

variable {older : List Dialog}

theorem ite_behind (p : Prop) [Decidable p] (c c' : Console) (older : List Dialog) :
    (if p then c else c').behind older = if p then c.behind older else c'.behind older :=
  apply_ite (behind · older) p c c'

@[simp] theorem log_behind (c : Console) (older : List Dialog) (lines : List String) :
    (c.behind older).log lines = (c.log lines).behind older := rfl

@[simp] theorem showPhase_behind (c : Console) (older : List Dialog) (p : Phase) :
    (c.behind older).showPhase p = (c.showPhase p).behind older := rfl

@[simp] theorem refresh_behind (c : Console) (older : List Dialog) (full : Bool) :
    (c.behind older).refresh full = (c.refresh full).behind older := by
  unfold refresh
  extract_lets
  rw [ite_behind]
  rfl

@[simp] theorem stop_behind (c : Console) (older : List Dialog) :
    (c.behind older).stop = c.stop.behind older := by
  unfold stop
  cases hj : c.job with
  | none =>
    have hj' : (c.behind older).job = none := hj
    rw [hj']
    dsimp only
    rw [ite_behind]
    rfl
  | some id =>
    have hj' : (c.behind older).job = some id := hj
    rw [hj']
    dsimp only
    rw [ite_behind]
    rfl

@[simp] theorem stepOnce_behind (c : Console) (older : List Dialog) :
    (c.behind older).stepOnce = (c.stepOnce.1, c.stepOnce.2.behind older) := by
  have hstep : (c.behind older).machine.step = c.machine.step := rfl
  unfold stepOnce
  rw [hstep]
  cases c.machine.step with
  | error f => rfl
  | ok r =>
    dsimp only
    rw [← refresh_behind]
    rfl

@[simp] theorem nextRound_behind (c : Console) (older : List Dialog) :
    (c.behind older).nextRound = (c.nextRound.1, c.nextRound.2.behind older) := by
  have hone := stepOnce_behind { c with job := none } older
  have hjob : { c.behind older with job := none } = { c with job := none }.behind older := rfl
  unfold nextRound
  rw [hjob]
  extract_lets old new
  have hr : old.running = new.running := rfl
  rw [hr, hone]
  split
  · rfl
  · cases new.stepOnce with
    | mk fault c' =>
      cases fault with
      | some f => rfl
      | none =>
        dsimp only
        have hm : (c'.behind older).machine = c'.machine := rfl
        rw [hm]
        split <;> rfl

@[simp] theorem assembleText_behind (c : Console) (older : List Dialog) :
    (c.behind older).assembleText = (c.assembleText.1, c.assembleText.2.behind older) := by
  unfold assembleText
  rw [stop_behind]
  generalize c.stop = d
  have he : (d.behind older).editor = d.editor := rfl
  dsimp only
  rw [he]
  cases AccMachine.assemble d.editor.text with
  | error f => rfl
  | ok a =>
    dsimp only
    cases a.failure? with
    | some e => rfl
    | none =>
      have hload := refresh_behind { d with machine := d.machine.load a.image } older true
      dsimp only
      rw [← showPhase_behind, ← log_behind, ← hload]
      rfl

@[simp] theorem stepByHand_behind (c : Console) (older : List Dialog) :
    (c.behind older).stepByHand = (c.stepByHand.1, c.stepByHand.2.behind older) := by
  have hr : (c.behind older).running = c.running := rfl
  unfold stepByHand
  rw [stop_behind, hr, ← ite_behind]
  extract_lets old new
  have hm : old.machine = new.machine := rfl
  rw [hm, stepOnce_behind]
  split <;> rfl

@[simp] theorem startRun_behind (c : Console) (older : List Dialog) :
    (c.behind older).startRun = (c.startRun.1, c.startRun.2.behind older) := by
  have hr : (c.behind older).running = c.running := rfl
  have hm : (c.behind older).machine = c.machine := rfl
  unfold startRun
  rw [hr, hm]
  split
  · rfl
  · split
    · rfl
    · exact nextRound_behind ({ c with running := true }.showPhase .running) older

@[simp] theorem fireTimer_behind (c : Console) (older : List Dialog) :
    (c.behind older).fireTimer = (c.fireTimer.1, c.fireTimer.2.behind older) := by
  have ht : (c.behind older).timers = c.timers := rfl
  unfold fireTimer
  rw [ht]
  cases c.timers with
  | nil => rfl
  | cons t rest => exact nextRound_behind { c with timers := rest } older

@[simp] theorem resetMachine_behind (c : Console) (older : List Dialog) :
    (c.behind older).resetMachine = c.resetMachine.behind older := by
  unfold resetMachine
  rw [stop_behind, ← refresh_behind]
  rfl

@[simp] theorem changeBase_behind (c : Console) (older : List Dialog) :
    (c.behind older).changeBase = c.changeBase.behind older := by
  unfold changeBase
  rw [← refresh_behind]
  rfl

/-- What an action does is not a matter of the dialogs that are open before it. -/
@[simp] theorem act_behind (c : Console) (older : List Dialog) (a : Action) :
    (c.behind older).act a = ((c.act a).1, (c.act a).2.behind older) := by
  cases a with
  | edit src => rfl
  | assemble => exact assembleText_behind c older
  | step => exact stepByHand_behind c older
  | run => exact startRun_behind c older
  | stop => exact congrArg (Prod.mk none) (stop_behind c older)
  | reset => exact congrArg (Prod.mk none) (resetMachine_behind c older)
  | changeBase => exact congrArg (Prod.mk none) (changeBase_behind c older)
  | setSpeed value =>
    simp only [Console.act]
    cases Numeral.readTruncated value <;> rfl
  | chooseCache choice => rfl
  | follow on => rfl
  | fire => exact fireTimer_behind c older
  | setRegister r v => rfl
  | setMemory addr v => rfl
  | refresh full => exact congrArg (Prod.mk none) (refresh_behind c older full)

@[simp] theorem actAll_behind (c : Console) (older : List Dialog) (actions : List Action) :
    (c.behind older).actAll actions = (c.actAll actions).behind older := by
  induction actions generalizing c with
  | nil => rfl
  | cons a actions ih =>
    have hact := congrArg Prod.snd (act_behind c older a)
    calc (c.behind older).actAll (a :: actions)
        = (((c.behind older).act a).2).actAll actions := rfl
      _ = ((c.act a).2.behind older).actAll actions := by rw [hact]
      _ = (c.actAll (a :: actions)).behind older := ih (c.act a).2

/-- What a failed assembly shows beside the window: the errors, unless the assembler gave up. -/
def failureDialogs : Except Fault Assembly → List Dialog
  | .error _ => []
  | .ok a => [⟨"Erro no Assembler", "\n".intercalate a.errorMessages⟩]

theorem Linked.assembleText_eq (h : c.Linked) (hfails : FailsToAssemble c.editor.text) :
    c.act .assemble = (match AccMachine.assemble c.editor.text with
      | .error f => some f
      | .ok _ => none,
      { c.paused with
        display := { c.paused.display with
          dialogs :=
            failureDialogs (AccMachine.assemble c.editor.text) ++ c.display.dialogs } }) := by
  change c.assembleText = _
  unfold Console.assembleText
  dsimp only
  rw [editor_stop, h.stop_eq]
  cases hassemble : AccMachine.assemble c.editor.text with
  | error f => rfl
  | ok a =>
    have hfailure : a.failure? = some ⟨a.errorMessages⟩ := by
      unfold Assembly.failure?
      rw [hfails a hassemble]
      rfl
    dsimp only
    rw [hfailure]
    rfl

/--
After any actions, assembling a text that makes no program ends a run as a stop does. All else of
the window and of its machine stays, but for one dialog with all errors in their order where there
are any. Whatever is done later then goes as after a stop, with the same faults and the same window
in front of the dialogs that were open.
-/
theorem failed_assembly_only_stops {size speed : Int} {start c : Console} {earlier : List Action}
    (hopened : opened size speed = .ok start) (hc : c = start.actAll earlier)
    (hfails : FailsToAssemble c.editor.text) :
    ∃ fault failed stopped, c.act .assemble = (fault, failed) ∧ c.act .stop = (none, stopped) ∧
      failed = { c with
        running := false
        job := none
        timers := []
        display := { c.display with
          phase := if c.running then .paused else c.display.phase
          log := if c.running then "Execucao pausada." :: c.display.log else c.display.log
          dialogs := failed.display.dialogs } } ∧
      (match AccMachine.assemble c.editor.text with
        | .error f => fault = some f ∧ failed.display.dialogs = c.display.dialogs
        | .ok a => fault = none ∧ failed.display.dialogs =
            ⟨"Erro no Assembler", "\n".intercalate a.errorMessages⟩ :: c.display.dialogs) ∧
      ∀ later, ∃ shown : Console,
        stopped.actAll later = shown.behind c.display.dialogs ∧
        failed.actAll later = shown.behind failed.display.dialogs ∧
        ∀ a, ((failed.actAll later).act a).1 = ((stopped.actAll later).act a).1 := by
  have hlinked : c.Linked := hc ▸ (linked_opened hopened).actAll earlier
  refine ⟨_, _, _, hlinked.assembleText_eq hfails, congrArg (Prod.mk none) hlinked.stop_eq, rfl, ?_,
    fun later => ?_⟩
  · cases AccMachine.assemble c.editor.text with
    | error f => exact ⟨rfl, rfl⟩
    | ok a => exact ⟨rfl, rfl⟩
  · -- Both windows are the paused one over their own dialogs.
    let bare := { c.paused with display := { c.paused.display with dialogs := [] } }
    have hstopped := actAll_behind bare c.display.dialogs later
    have hfailed := actAll_behind bare
      (failureDialogs (AccMachine.assemble c.editor.text) ++ c.display.dialogs) later
    refine ⟨bare.actAll later, hstopped, hfailed, fun a => ?_⟩
    have hs := congrArg Prod.fst (act_behind (bare.actAll later) c.display.dialogs a)
    have hf := congrArg Prod.fst (act_behind (bare.actAll later)
      (failureDialogs (AccMachine.assemble c.editor.text) ++ c.display.dialogs) a)
    rw [← hstopped] at hs
    rw [← hfailed] at hf
    exact hf.trans hs.symm

def brokenProgram : Text := "LODD nada".toList

theorem failed_assembly_only_stops_brokenProgram :
    ∃ start c fault failed stopped, opened 16 defaultSpeed = .ok start ∧
      c = start.actAll [.assemble, .run, .edit brokenProgram] ∧
      FailsToAssemble c.editor.text ∧
      c.act .assemble = (fault, failed) ∧ c.act .stop = (none, stopped) ∧
      failed.machine = c.machine ∧ failed.timers = [] ∧ fault = none ∧
      (∃ message, failed.display.dialogs = ⟨"Erro no Assembler", message⟩ :: c.display.dialogs) ∧
      (failed.actAll [.step]).machine = (stopped.actAll [.step]).machine := by
  obtain ⟨start, hopened⟩ : ∃ c, opened 16 defaultSpeed = .ok c := ⟨_, if_neg (by decide)⟩
  obtain ⟨c, hc⟩ : ∃ c, c = start.actAll [.assemble, .run, .edit brokenProgram] := ⟨_, rfl⟩
  obtain ⟨assembly, hassemble, hbad⟩ :
      ∃ a, AccMachine.assemble brokenProgram = .ok a ∧ a.ok = false := ⟨_, rfl, rfl⟩
  have htext : c.editor.text = brokenProgram := by
    rw [hc]
    exact (start.actAll [.assemble, .run]).editor.text_setText brokenProgram
  have hfails : FailsToAssemble c.editor.text := by
    intro other hother
    rw [htext, hassemble] at hother
    cases hother
    exact hbad
  obtain ⟨fault, failed, stopped, hact, hstop, hstate, hdialogs, hlater⟩ :=
    failed_assembly_only_stops hopened hc hfails
  rw [htext, hassemble] at hdialogs
  obtain ⟨shown, hs, hf, -⟩ := hlater [.step]
  exact ⟨start, c, fault, failed, stopped, hopened, hc, hfails, hact, hstop, by rw [hstate],
    by rw [hstate], hdialogs.1, ⟨_, hdialogs.2⟩, by rw [hs, hf]; rfl⟩

end Console

end AccMachine
