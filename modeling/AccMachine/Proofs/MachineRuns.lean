import AccMachine.Proofs.CachesInvisible
import AccMachine.Proofs.ShapedMachine

namespace AccMachine.Machine

/-- Steps in a row with their traces, each made by a machine that had not halted. -/
inductive Ran (m : Machine) : List (List TraceLine) → Machine → Prop
  | refl : Ran m [] m
  | step {traces : List (List TraceLine)} {trace : List TraceLine} {m' m'' : Machine} :
      Ran m traces m' → m'.halted = false → m'.step = .ok (trace, m'') →
        Ran m (traces ++ [trace]) m''

variable {m m' : Machine} {traces : List (List TraceLine)}

theorem Ran.steps_eq (h : m.Ran traces m') : m.steps traces.length = .ok (traces, m') := by
  induction h with
  | refl => rfl
  | step _ _ hstep ih =>
    rw [List.length_append, List.length_singleton, steps, ih]
    dsimp only [bind, Except.bind]
    rw [hstep]
    rfl

theorem Ran.runFrom_eq (h : m.Ran traces m') (done more : Nat) :
    m.runFrom done (traces.length + more) = m'.runFrom (done + traces.length) more := by
  induction h generalizing more with
  | refl => rw [List.length_nil, Nat.zero_add, Nat.add_zero]
  | @step traces trace next last _ live hstep ih =>
    have hlen : (traces ++ [trace]).length + more = traces.length + (more + 1) := by
      simp only [List.length_append, List.length_singleton]
      omega
    rw [hlen, ih, runFrom, if_neg (by simp [live]), hstep, List.length_append]
    rfl

theorem runFrom_of_halted (h : m.halted) (done more : Nat) :
    m.runFrom done more = .ok (done, m) := by
  cases more with
  | zero => rfl
  | succ more =>
    unfold runFrom
    rw [if_pos h]

/-- Steps that lead to a halt, or are as many as a budget allows, are the run within that budget. -/
theorem Ran.run_eq_of_le (h : m.Ran traces m') {budget : Int}
    (hle : traces.length ≤ budget.toNat) (hend : m'.halted ∨ traces.length = budget.toNat) :
    m.run budget = .ok (traces.length, m') := by
  obtain ⟨more, hmore⟩ := Nat.exists_eq_add_of_le hle
  unfold run
  rw [hmore, h.runFrom_eq, Nat.zero_add]
  rcases hend with halted | hlength
  · exact runFrom_of_halted halted _ _
  · obtain rfl : more = 0 := by omega
    rfl

theorem Ran.run_eq (h : m.Ran traces m') (halted : m'.halted) {budget : Int}
    (hbudget : traces.length ≤ budget) : m.run budget = .ok (traces.length, m') :=
  h.run_eq_of_le (by omega) (.inl halted)

/-- A machine halts over the word of a halt, where its code cache agrees with memory. -/
theorem Sound.step_halts (h : m.Sound) (code : m.codeCache.Mirrors m.memory)
    (live : m.halted = false) (hin : m.memory.InRange (address (m.reg .pc)))
    (hword : m.memory.get (address (m.reg .pc)) = Operation.halt.base) :
    ∃ trace m', m.step = .ok (trace, m') ∧ m'.halted := by
  obtain ⟨trace, m', hstep, -, -, -, hhalted⟩ := h.shaped.step_inside live hin
  exact ⟨trace, m', hstep, hhalted.mpr ((fetchedWord_eq code).trans hword)⟩

def stepped (m : Machine) : Machine :=
  match m.step with
  | .ok (_, m') => m'
  | .error _ => m

theorem stepped_eq {trace : List TraceLine} (h : m.step = .ok (trace, m')) : m.stepped = m' := by
  unfold stepped
  rw [h]

/-- A machine that goes on at a place of a memory that both of its caches agree with. -/
structure At (m : Machine) (memory : Memory) (pc : Word) : Prop where
  sound : m.Sound
  code : m.codeCache.Mirrors m.memory
  live : m.halted = false
  memory_eq : m.memory = memory
  pc_eq : m.reg .pc = pc

theorem at_load (size : Int) (image : Array Int) :
    ((fresh size).load image).At ((Memory.zeros size).load image) 0 :=
  ⟨sound_load _ _, load_mirrors _ _, rfl, rfl, rfl⟩

variable {memory : Memory} {pc pc' : Word}

/-- An instruction that leaves memory alone leaves the code cache in agreement with it. -/
theorem At.stepped (h : m.At memory pc) (inside : memory.InRange (address pc))
    (goes : ∀ b : BareMachine, b.reg .pc = pc + 1 →
      let b' := b.execute (memory.get (address pc))
      b'.memory = b.memory ∧ b'.halted = b.halted ∧ b'.reg .pc = pc') :
    m.stepped.At memory pc' := by
  obtain ⟨hsound, hcode, hlive, rfl, rfl⟩ := h
  obtain ⟨trace, m', hstep, hbare, hfollows⟩ := hsound.step_eq
  have hword : m.fetchedWord = m.memory.get (address (m.reg .pc)) := fetchedWord_eq hcode
  have hlive' : ¬m.bare.halted := by
    change ¬m.halted
    simp [hlive]
  have hinside : m.bare.memory.InRange (address (m.bare.reg .pc)) := inside
  unfold BareMachine.stepOn at hbare
  rw [hword, if_neg hlive', if_pos hinside] at hbare
  obtain ⟨hmemory, hhalted, hpc⟩ := goes _ (BareMachine.pc_fetch { m.bare with trace := [] } _)
  have hm' := congrArg Prod.snd hbare
  have hkept : m'.memory = m.memory := (congrArg BareMachine.memory hm').trans hmemory
  have hheld : m'.codeCache.Mirrors m.memory := (Mirrors.readied hcode hsound).congr fun a =>
    Cache.held?_congr_all hfollows.codeGeometry hfollows.codeLines a
  rw [stepped_eq hstep]
  refine ⟨hfollows.sound hsound.readied, hkept ▸ hheld, ?_, hkept, ?_⟩
  · exact (congrArg BareMachine.halted hm').trans (hhalted.trans hlive)
  · exact (congrArg (fun b => BareMachine.reg b .pc) hm').trans hpc

theorem At.stepped_halts (h : m.At memory pc) (inside : memory.InRange (address pc))
    (hword : memory.get (address pc) = Operation.halt.base) : m.stepped.halted := by
  obtain ⟨hsound, hcode, hlive, rfl, rfl⟩ := h
  obtain ⟨trace, m', hstep, halted⟩ := hsound.step_halts hcode hlive inside hword
  rwa [stepped_eq hstep]

def HaltsWithin (m : Machine) (budget : Int) : Prop :=
  ∃ (k : Nat) (traces : List (List TraceLine)) (m' : Machine),
    k ≤ budget ∧ m.steps k = .ok (traces, m') ∧ m'.halted

theorem Ran.cons {trace : List TraceLine} {next : Machine} (live : m.halted = false)
    (hstep : m.step = .ok (trace, next)) (h : next.Ran traces m') :
    m.Ran (trace :: traces) m' := by
  induction h with
  | refl => exact .step .refl live hstep
  | step _ live' hstep' ih => exact .step ih live' hstep'

theorem Shaped.runFrom_ran (h : m.Shaped) (done budget : Nat) :
    ∃ traces m', m.runFrom done budget = .ok (done + traces.length, m') ∧ m.Ran traces m' ∧
      traces.length ≤ budget ∧ (m'.halted ∨ traces.length = budget) := by
  induction budget generalizing m done with
  | zero => exact ⟨[], m, rfl, .refl, Nat.le_refl _, .inr rfl⟩
  | succ budget ih =>
    by_cases halted : m.halted
    · exact ⟨[], m, runFrom_of_halted halted _ _, .refl, Nat.zero_le _, .inl halted⟩
    · have live : m.halted = false := by simpa using halted
      obtain ⟨trace, next, hstep, hshaped, -⟩ := h.step_ok
      obtain ⟨traces, m', hrun, hran, hle, hend⟩ := ih hshaped (done + 1)
      refine ⟨trace :: traces, m', ?_, hran.cons live hstep, ?_, ?_⟩
      · unfold runFrom
        rw [if_neg halted, hstep, List.length_cons]
        refine hrun.trans ?_
        rw [Nat.add_right_comm, Nat.add_assoc]
      · rw [List.length_cons]
        omega
      · refine hend.imp_right fun hlength => ?_
        rw [List.length_cons, hlength]

theorem steps_of_halted {k : Nat} (h : m.steps k = .ok (traces, m')) (halted : m'.halted)
    (j : Nat) : ∃ traces', m.steps (k + j) = .ok (traces', m') := by
  induction j with
  | zero => exact ⟨traces, h⟩
  | succ j ih =>
    obtain ⟨traces', hsteps⟩ := ih
    have hstep := step_of_halted halted
    refine ⟨traces' ++ [[]], ?_⟩
    rw [← Nat.add_assoc, steps, hsteps]
    dsimp only [bind, Except.bind]
    rw [hstep]
    rfl

theorem Sound.run_halts_iff (h : m.Sound) (live : m.halted = false) (budget : Int) :
    ∃ n m', m.run budget = .ok (n, m') ∧ (m'.halted ↔ m.HaltsWithin budget) := by
  obtain ⟨traces, m', hrun, hran, hle, hend⟩ := h.shaped.runFrom_ran 0 budget.toNat
  refine ⟨_, m', hrun, fun halted => ?_, ?_⟩
  · refine ⟨traces.length, traces, m', ?_, hran.steps_eq, halted⟩
    -- A budget below zero allows no step, and the machine had not halted before.
    by_cases hneg : budget < 0
    · have hnone : traces = [] := List.eq_nil_of_length_eq_zero (by omega)
      subst hnone
      have hsame : m' = m := congrArg Prod.snd (Except.ok.inj hran.steps_eq).symm
      rw [hsame, live] at halted
      cases halted
    · omega
  · rintro ⟨k, traces', m'', hk, hsteps, halted⟩
    rcases hend with halted' | hlength
    · exact halted'
    · obtain ⟨j, hj⟩ := Nat.exists_eq_add_of_le (show k ≤ traces.length by omega)
      obtain ⟨_, hlast⟩ := steps_of_halted hsteps halted j
      rw [← hj, hran.steps_eq] at hlast
      have hsame : m' = m'' := congrArg Prod.snd (Except.ok.inj hlast)
      rw [hsame]
      exact halted

end AccMachine.Machine
