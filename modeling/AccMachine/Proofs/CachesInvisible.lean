import AccMachine.Proofs.MachineStep

namespace AccMachine

/--
Whether writes to memory, made in their order, leave alone what a cache before it holds: each one
goes to an address that the cache would miss, or writes the word that memory already has there.
-/
def Harmless (c : Cache) : Memory → List (Int × Word) → Prop
  | _, [] => True
  | m, (a, v) :: stores =>
    (c.wouldHit a = .ok true → m.get a = v) ∧ Harmless c (m.set a v) stores

instance (c : Cache) (a : Int) : Decidable (c.wouldHit a = .ok true) :=
  match h : c.wouldHit a with
  | .ok true => isTrue rfl
  | .ok false => isFalse (by simp)
  | .error _ => isFalse (by simp)

instance instDecidableHarmless (c : Cache) :
    (m : Memory) → (stores : List (Int × Word)) → Decidable (Harmless c m stores)
  | _, [] => isTrue trivial
  | m, (a, v) :: stores =>
    have := instDecidableHarmless c (m.set a v) stores
    inferInstanceAs (Decidable ((c.wouldHit a = .ok true → m.get a = v) ∧ _))

theorem Harmless.mirrors {c : Cache} (shaped : c.Shaped) {m : Memory} (h : c.Mirrors m)
    {stores : List (Int × Word)} (harmless : Harmless c m stores) :
    c.Mirrors (m.setAll stores) := by
  induction stores generalizing m with
  | nil => exact h
  | cons s stores ih =>
    obtain ⟨a, v⟩ := s
    refine ih (h.set fun hheld => harmless.1 ?_) harmless.2
    rw [shaped.wouldHit_eq, hheld]

namespace Machine

def storesSince (m earlier : Machine) : List (Int × Word) :=
  storesOf (m.dataCache.history.take
    (m.dataCache.history.length - earlier.dataCache.history.length))

def steps (m : Machine) : Nat → Except Fault (List (List TraceLine) × Machine)
  | 0 => .ok ([], m)
  | k + 1 => do
    let (traces, m) ← m.steps k
    let (trace, m) ← m.step
    return (traces ++ [trace], m)

/-- Whether the next step stores no new word where the code cache then holds an old one. -/
def StepHarmless (m : Machine) : Prop :=
  -- The stores of a step come after its fetch, so the code cache they meet is the one it leaves.
  match m.step with
  | .ok (_, after) => Harmless after.codeCache m.memory (after.storesSince m)
  | .error _ => True

instance (m : Machine) : Decidable m.StepHarmless :=
  match h : m.step with
  | .ok (_, after) =>
    decidable_of_iff (Harmless after.codeCache m.memory (after.storesSince m)) (by
      simp only [StepHarmless, h])
  | .error _ => isTrue (by simp only [StepHarmless, h])

def StoresHarmless (m : Machine) (k : Nat) : Prop :=
  ∀ i < k, match m.steps i with
    | .ok (_, before) => before.StepHarmless
    | .error _ => True

instance (m : Machine) (k : Nat) : Decidable (m.StoresHarmless k) :=
  have (i : Nat) : Decidable (match m.steps i with
      | .ok (_, before) => before.StepHarmless
      | .error _ => True) :=
    match m.steps i with
    | .ok (_, before) => inferInstanceAs (Decidable before.StepHarmless)
    | .error _ => .isTrue trivial
  Nat.decidableBallLT k _

variable {m : Machine}

theorem Mirrors.readied (h : m.codeCache.Mirrors m.memory) (sound : m.Sound) :
    m.readied.codeCache.Mirrors m.memory := by
  unfold Machine.readied
  split
  · exact h.afterRead sound.code _
  · exact h

theorem fetchedWord_eq (h : m.codeCache.Mirrors m.memory) :
    m.fetchedWord = m.bare.word (m.bare.reg .pc) :=
  h.getD_eq _

/-- While the code cache agrees with memory, a step is a step of the machine without caches. -/
theorem Sound.step_eq_bare (h : m.Sound) (code : m.codeCache.Mirrors m.memory) :
    ∃ trace m', m.step = .ok (trace, m') ∧ (trace, m'.bare) = m.bare.step ∧ m'.Sound ∧
      (Harmless m'.codeCache m.memory (m'.storesSince m) → m'.codeCache.Mirrors m'.memory) := by
  obtain ⟨trace, m', hstep, hbare, hfollows⟩ := h.step_eq
  have hsound := hfollows.sound h.readied
  refine ⟨trace, m', hstep, ?_, hsound, fun harmless => ?_⟩
  · rw [hbare, fetchedWord_eq code]
    rfl
  · obtain ⟨events, hhist, hmem⟩ := hfollows.stores
    have hstores : m'.storesSince m = storesOf events := by simp [storesSince, hhist]
    have hheld : m'.codeCache.Mirrors m.memory := (Mirrors.readied code h).congr fun a =>
      Cache.held?_congr_all hfollows.codeGeometry hfollows.codeLines a
    rw [hstores] at harmless
    simpa [hmem] using harmless.mirrors hsound.code hheld

theorem Sound.steps_eq_bare (h : m.Sound) (code : m.codeCache.Mirrors m.memory) (k : Nat)
    (harmless : m.StoresHarmless k) :
    ∃ m', m.steps k = .ok ((m.bare.steps k).1, m') ∧ m'.bare = (m.bare.steps k).2 ∧ m'.Sound ∧
      m'.codeCache.Mirrors m'.memory := by
  -- Both caches agree with memory before each step, the data cache without further condition.
  induction k with
  | zero => exact ⟨m, rfl, rfl, h, code⟩
  | succ k ih =>
    obtain ⟨before, hsteps, hbare, hsound, hcode⟩ := ih fun i hi => harmless i (by omega)
    obtain ⟨trace, after, hstep, heq, hsound', hcode'⟩ := hsound.step_eq_bare hcode
    rw [hbare] at heq
    have htrace : trace = ((m.bare.steps k).2.step).1 := congrArg Prod.fst heq
    have hlast := harmless k (by omega)
    simp only [hsteps, StepHarmless, hstep] at hlast
    refine ⟨after, ?_, congrArg Prod.snd heq, hsound', hcode' hlast⟩
    unfold steps BareMachine.steps
    rw [hsteps]
    change (do let (trace, m) ← before.step; _) = _
    rw [hstep, htrace]
    rfl

theorem load_mirrors (m : Machine) (image : Array Int) :
    (m.load image).codeCache.Mirrors (m.load image).memory :=
  .cold _ _ _

/--
From a loaded program on, every step returns the trace and leaves the registers, the memory, the
cycle count and the halted flag of a machine without caches.
-/
theorem steps_without_caches (size : Int) (image : Array Int) (k : Nat)
    (harmless : ((fresh size).load image).StoresHarmless k) :
    ∀ j ≤ k, ∃ m, ((fresh size).load image).steps j =
        .ok (((BareMachine.start size image).steps j).1, m) ∧
      m.bare = ((BareMachine.start size image).steps j).2 := by
  intro j hj
  obtain ⟨m, hsteps, hbare, -, -⟩ := (sound_load (fresh size) image).steps_eq_bare
    (load_mirrors (fresh size) image) j fun i hi => harmless i (by omega)
  exact ⟨m, hsteps, hbare⟩

/-- Two steps of a program that stores outside of the block its code came from. -/
theorem steps_without_caches_storing :
    ((fresh 8).load #[0x7005, 0x1006]).StoresHarmless 2 ∧
      ∃ m, ((fresh 8).load #[0x7005, 0x1006]).steps 2 =
          .ok (((BareMachine.start 8 #[0x7005, 0x1006]).steps 2).1, m) ∧
        m.bare = ((BareMachine.start 8 #[0x7005, 0x1006]).steps 2).2 :=
  have harmless : ((fresh 8).load #[0x7005, 0x1006]).StoresHarmless 2 := by decide +kernel
  ⟨harmless, steps_without_caches 8 #[0x7005, 0x1006] 2 harmless 2 (by omega)⟩

-- A store into the block that the code came from is the harm meant.
example : ¬((fresh 8).load #[0x7005, 0x1002]).StoresHarmless 2 := by decide +kernel

end Machine

end AccMachine
