import AccMachine.Proofs.LoadForgets

namespace AccMachine.Machine

def HaltedAfter (m : Machine) (k : Nat) : Prop :=
  ∃ traces m', m.steps k = .ok (traces, m') ∧ m'.halted

/-- Whether the last of so many steps found the program counter outside of the memory. -/
def EndsOutside (m : Machine) (k : Nat) : Prop :=
  ∃ j traces before, k = j + 1 ∧ m.steps j = .ok (traces, before) ∧
    ¬before.memory.InRange (address (before.reg .pc))

/-- What a machine does with a budget of steps. -/
structure BudgetLaw (m : Machine) : Prop where
  /-- A run goes as far as the first halt, or as its budget. -/
  least : ∀ budget : Int, ∃ k traces m', m.run budget = .ok (k, m') ∧
    m.steps k = .ok (traces, m') ∧
      ((k : Int) ≤ max budget 0 ∧ m.HaltedAfter k ∧ (∀ j < k, ¬m.HaltedAfter j) ∨
        (k : Int) = max budget 0 ∧ ∀ j ≤ k, ¬m.HaltedAfter j)
  /-- Two runs in a row are one run within both budgets. -/
  splits : ∀ first second : Nat, ∃ i mid j last, m.run first = .ok (i, mid) ∧
    mid.run second = .ok (j, last) ∧ m.run (first + second : Nat) = .ok (i + j, last)
  /-- Once a program halts within a budget, a larger one makes no difference. -/
  settles : ∀ (budget larger : Int) (k : Nat) (m' : Machine), budget ≤ larger →
    m.run budget = .ok (k, m') → m'.halted → m.run larger = .ok (k, m')
  /-- A step halts where it finds the program counter outside, or fetches the word of a halt. -/
  halts : m.halted = false → ∃ w fetched trace m', m.fetch = .ok (w, fetched) ∧
    m.step = .ok (trace, m') ∧
      (m'.halted ↔ ¬m.memory.InRange (address (m.reg .pc)) ∨ w = 0xFFFF)
  /-- A step that finds the program counter outside changes the flag and clears the trace. -/
  outside : m.halted = false → ¬m.memory.InRange (address (m.reg .pc)) →
    m.step = .ok ([], { m with halted := true, trace := [] })
  /-- After a halt neither a step nor a run changes anything. -/
  rests : m.halted → m.step = .ok ([], m) ∧ ∀ budget, m.run budget = .ok (0, m)
  /-- The steps of a run are those that the machine counts, and one that ends outside. -/
  counts : ∀ (budget : Int) (k : Nat) (m' : Machine), m.run budget = .ok (k, m') →
    (m.EndsOutside k → m.cycle + k = m'.cycle + 1) ∧
      (¬m.EndsOutside k → m.cycle + k = m'.cycle)

variable {m m' m'' : Machine} {traces : List (List TraceLine)}

theorem Ran.trans {traces' : List (List TraceLine)} (first : m.Ran traces m')
    (second : m'.Ran traces' m'') : m.Ran (traces ++ traces') m'' := by
  induction second with
  | refl =>
    rw [List.append_nil]
    exact first
  | step _ live hstep ih =>
    rw [← List.append_assoc]
    exact ih.step live hstep

theorem Ran.eq_of_halted (ran : m.Ran traces m') (halted : m.halted) : traces = [] ∧ m' = m := by
  induction ran with
  | refl => exact ⟨rfl, rfl⟩
  | step _ live _ ih =>
    obtain ⟨-, rfl⟩ := ih
    rw [live] at halted
    cases halted

theorem Ran.haltedAfter_iff (ran : m.Ran traces m') :
    m.HaltedAfter traces.length ↔ m'.halted := by
  constructor
  · rintro ⟨traces', last, hsteps, halted⟩
    obtain ⟨-, rfl⟩ := Prod.mk.inj (Except.ok.inj (ran.steps_eq.symm.trans hsteps))
    exact halted
  · intro halted
    exact ⟨traces, m', ran.steps_eq, halted⟩

theorem Ran.not_haltedAfter (ran : m.Ran traces m') {j : Nat} (hj : j < traces.length) :
    ¬m.HaltedAfter j := by
  induction ran with
  | refl => cases hj
  | @step traces trace mid last ran live _ ih =>
    by_cases hlast : j < traces.length
    · exact ih hlast
    · rw [List.length_append, List.length_singleton] at hj
      obtain rfl : j = traces.length := by omega
      rw [ran.haltedAfter_iff, live]
      simp

theorem Shaped.run_ran (h : m.Shaped) (budget : Int) :
    ∃ traces m', m.run budget = .ok (traces.length, m') ∧ m.Ran traces m' ∧
      traces.length ≤ budget.toNat ∧ (m'.halted ∨ traces.length = budget.toNat) := by
  obtain ⟨traces, m', hrun, hran, hle, hend⟩ := h.runFrom_ran 0 budget.toNat
  rw [Nat.zero_add] at hrun
  exact ⟨traces, m', hrun, hran, hle, hend⟩

theorem Shaped.run_least (h : m.Shaped) (budget : Int) :
    ∃ k traces m', m.run budget = .ok (k, m') ∧ m.steps k = .ok (traces, m') ∧
      ((k : Int) ≤ max budget 0 ∧ m.HaltedAfter k ∧ (∀ j < k, ¬m.HaltedAfter j) ∨
        (k : Int) = max budget 0 ∧ ∀ j ≤ k, ¬m.HaltedAfter j) := by
  obtain ⟨traces, m', hrun, ran, hle, hend⟩ := h.run_ran budget
  refine ⟨traces.length, traces, m', hrun, ran.steps_eq, ?_⟩
  by_cases halted : m'.halted
  · exact .inl ⟨by omega, ran.haltedAfter_iff.mpr halted, fun j hj => ran.not_haltedAfter hj⟩
  · have hlength := hend.resolve_left halted
    refine .inr ⟨by omega, fun j hj => ?_⟩
    rcases Nat.lt_or_eq_of_le hj with hlt | rfl
    · exact ran.not_haltedAfter hlt
    · rw [ran.haltedAfter_iff]
      exact halted

theorem Shaped.run_splits (h : m.Shaped) (first second : Nat) :
    ∃ i mid j last, m.run first = .ok (i, mid) ∧ mid.run second = .ok (j, last) ∧
      m.run (first + second : Nat) = .ok (i + j, last) := by
  obtain ⟨traces, mid, hrun, ran, hle, hend⟩ := h.run_ran first
  obtain ⟨traces', last, hrun', ran', hle', hend'⟩ := (ran.shaped h).1.run_ran second
  rw [Int.toNat_natCast] at hle hend hle' hend'
  refine ⟨_, mid, _, last, hrun, hrun', ?_⟩
  have whole := ran.trans ran'
  rw [← List.length_append]
  refine whole.run_eq_of_le ?_ ?_
  · rw [List.length_append, Int.toNat_natCast]
    omega
  · rw [List.length_append, Int.toNat_natCast]
    rcases hend with halted | hlength
    · -- A halt in the first run leaves the second one without a step.
      obtain ⟨-, rfl⟩ := ran'.eq_of_halted halted
      exact .inl halted
    · exact hend'.imp_right fun hlength' => by omega

theorem Shaped.run_settles (h : m.Shaped) {budget larger : Int} {k : Nat} (hle : budget ≤ larger)
    (hrun : m.run budget = .ok (k, m')) (halted : m'.halted) : m.run larger = .ok (k, m') := by
  obtain ⟨traces, last, hrun', ran, hle', -⟩ := h.run_ran budget
  obtain ⟨rfl, rfl⟩ := Prod.mk.inj (Except.ok.inj (hrun.symm.trans hrun'))
  exact ran.run_eq_of_le (by omega) (.inl halted)

theorem Shaped.step_halts_iff (h : m.Shaped) (live : m.halted = false) :
    ∃ w fetched trace m', m.fetch = .ok (w, fetched) ∧ m.step = .ok (trace, m') ∧
      (m'.halted ↔ ¬m.memory.InRange (address (m.reg .pc)) ∨ w = 0xFFFF) := by
  by_cases inside : m.memory.InRange (address (m.reg .pc))
  · obtain ⟨trace, m', hstep, -, -, -, hhalted⟩ := h.step_inside live inside
    refine ⟨_, _, trace, m', fetch_eq h.code, hstep, hhalted.trans ?_⟩
    exact ⟨.inr, fun hw => hw.resolve_left fun outside => outside inside⟩
  · exact ⟨_, _, _, _, fetch_eq h.code, step_outside live inside, fun _ => .inl inside,
      fun _ => rfl⟩

theorem Ran.cycle_of_live (ran : m.Ran traces m') (h : m.Shaped) (live : m'.halted = false) :
    m'.cycle = m.cycle + traces.length := by
  induction ran with
  | refl => rfl
  | @step traces trace mid last ran before hstep ih =>
    have hmid := (ran.shaped h).1
    by_cases inside : mid.memory.InRange (address (mid.reg .pc))
    · obtain ⟨_, _, hstep', -, -, hcycle, -⟩ := hmid.step_inside before inside
      obtain ⟨-, rfl⟩ := Prod.mk.inj (Except.ok.inj (hstep.symm.trans hstep'))
      rw [hcycle, ih before, List.length_append, List.length_singleton]
      omega
    · have hstep' := step_outside before inside
      obtain ⟨-, rfl⟩ := Prod.mk.inj (Except.ok.inj (hstep.symm.trans hstep'))
      cases live

theorem Ran.endsOutside_iff {trace : List TraceLine} (ran : m.Ran traces m') :
    m.EndsOutside (traces ++ [trace]).length ↔ ¬m'.memory.InRange (address (m'.reg .pc)) := by
  rw [List.length_append, List.length_singleton]
  constructor
  · rintro ⟨j, traces', before, hj, hsteps, outside⟩
    obtain rfl : j = traces.length := by omega
    obtain ⟨-, rfl⟩ := Prod.mk.inj (Except.ok.inj (ran.steps_eq.symm.trans hsteps))
    exact outside
  · intro outside
    exact ⟨traces.length, traces, m', rfl, ran.steps_eq, outside⟩

theorem Ran.cycle_eq (ran : m.Ran traces m') (h : m.Shaped) :
    (m.EndsOutside traces.length → m.cycle + traces.length = m'.cycle + 1) ∧
      (¬m.EndsOutside traces.length → m.cycle + traces.length = m'.cycle) := by
  -- Only the last step can have ended outside, since it halts; the ones before it all count.
  cases ran with
  | refl =>
    refine ⟨?_, fun _ => rfl⟩
    rintro ⟨j, _, _, hj, -⟩
    cases hj
  | @step traces trace mid _ ran live hstep =>
    have hcycle := ran.cycle_of_live h live
    rw [ran.endsOutside_iff, List.length_append, List.length_singleton]
    by_cases inside : mid.memory.InRange (address (mid.reg .pc))
    · obtain ⟨_, _, hstep', -, -, hnext, -⟩ := (ran.shaped h).1.step_inside live inside
      obtain ⟨-, rfl⟩ := Prod.mk.inj (Except.ok.inj (hstep.symm.trans hstep'))
      exact ⟨fun outside => absurd inside outside, fun _ => by omega⟩
    · have hstep' := step_outside live inside
      obtain ⟨-, rfl⟩ := Prod.mk.inj (Except.ok.inj (hstep.symm.trans hstep'))
      refine ⟨fun _ => ?_, fun hin => absurd inside hin⟩
      change m.cycle + (traces.length + 1) = mid.cycle + 1
      omega

theorem Shaped.run_counts (h : m.Shaped) {budget : Int} {k : Nat}
    (hrun : m.run budget = .ok (k, m')) :
    (m.EndsOutside k → m.cycle + k = m'.cycle + 1) ∧
      (¬m.EndsOutside k → m.cycle + k = m'.cycle) := by
  obtain ⟨traces, last, hrun', ran, -⟩ := h.run_ran budget
  obtain ⟨rfl, rfl⟩ := Prod.mk.inj (Except.ok.inj (hrun.symm.trans hrun'))
  exact ran.cycle_eq h

theorem Shaped.budgetLaw (h : m.Shaped) : m.BudgetLaw where
  least := h.run_least
  splits := h.run_splits
  settles _ _ _ _ hle hrun halted := h.run_settles hle hrun halted
  halts := h.step_halts_iff
  outside := step_outside
  rests halted := ⟨step_of_halted halted, fun _ => runFrom_of_halted halted 0 _⟩
  counts _ _ _ hrun := h.run_counts hrun

/-- Whatever a machine underwent, it spends a budget of steps by these rules. -/
theorem runs_spend_budget (size : Int) (history : List Intervention) :
    ∃ m, (fresh size).undergoAll history = .ok m ∧ m.BudgetLaw := by
  obtain ⟨m, hall, hshaped, -⟩ := (shaped_fresh size).undergoAll_ok history
  exact ⟨m, hall, hshaped.budgetLaw⟩

end AccMachine.Machine
