import AccMachine.Proofs.StepEffect

namespace AccMachine.Machine

variable {m m' : Machine}

theorem trace_loadWord {a v : Word} (h : m.loadWord a = .ok (v, m')) : m'.trace = m.trace := by
  unfold loadWord at h
  split at h
  next =>
    dsimp only at h
    split at h
    next => cases h
    next =>
      cases h
      rfl
  next =>
    cases h
    rfl

theorem trace_storeWord {a v : Word} (h : m.storeWord a v = .ok m') : m'.trace = m.trace := by
  unfold storeWord at h
  split at h
  next =>
    dsimp only at h
    split at h
    next => cases h
    next =>
      cases h
      rfl
  next =>
    cases h
    rfl

theorem trace_push {v : Word} (h : m.push v = .ok m') : m'.trace = m.trace :=
  trace_storeWord (m := m.put .sp (m.reg .sp - 1)) h

theorem trace_pop {v : Word} (h : m.pop = .ok (v, m')) : m'.trace = m.trace := by
  obtain ⟨⟨w, mid⟩, hload, h⟩ := bind_eq_ok.mp h
  cases h
  have htrace := trace_loadWord hload
  exact htrace

def Tells (m : Machine) (o : Operation) (m' : Machine) : Prop :=
  ∃ texts : List String, texts ≠ [] ∧ m'.trace = m.trace ++ texts.map (.ran o)

theorem tells_note (h : m'.trace = m.trace) (o : Operation) (text : String) :
    m.Tells o (m'.note (.ran o text)) :=
  ⟨[text], List.cons_ne_nil _ _, by rw [← h]; rfl⟩

theorem tells_branch (m : Machine) (o : Operation) (taken : Bool) (target : Word)
    (reason : String) : m.Tells o (m.branch o taken target reason) := by
  unfold branch
  split
  · exact tells_note rfl o _
  · exact tells_note rfl o _

theorem tells_perform {o : Operation} {x : Word} (h : m.perform o x = .ok m') : m.Tells o m' := by
  cases o with
  | lodd =>
    -- The one operation that tells twice, first of what it is about to read.
    obtain ⟨⟨v, mid⟩, hload, h⟩ := bind_eq_ok.mp h
    cases h
    refine ⟨[s!"MAR <- {x.toNat}; RD (D-Cache)", s!"AC <- MBR ({v.toNat})"], by simp, ?_⟩
    change mid.trace ++ _ = _
    rw [trace_loadWord hload]
    exact List.append_assoc ..
  | addd | subd | lodl | addl | subl =>
    obtain ⟨⟨v, mid⟩, hload, h⟩ := bind_eq_ok.mp h
    cases h
    exact tells_note (trace_loadWord hload) _ _
  | stod | stol =>
    obtain ⟨mid, hstore, h⟩ := bind_eq_ok.mp h
    cases h
    exact tells_note (trace_storeWord hstore) _ _
  | jpos | jzer | jneg | jnze =>
    cases h
    exact tells_branch m _ _ x _
  | call | push =>
    obtain ⟨mid, hpush, h⟩ := bind_eq_ok.mp h
    cases h
    exact tells_note (trace_push hpush) _ _
  | pshi =>
    obtain ⟨⟨v, mid⟩, hload, h⟩ := bind_eq_ok.mp h
    obtain ⟨last, hpush, h⟩ := bind_eq_ok.mp h
    cases h
    exact tells_note ((trace_push hpush).trans (trace_loadWord hload)) _ _
  | popi =>
    obtain ⟨⟨v, mid⟩, hload, h⟩ := bind_eq_ok.mp h
    obtain ⟨last, hstore, h⟩ := bind_eq_ok.mp h
    cases h
    exact tells_note ((trace_storeWord hstore).trans (trace_loadWord hload)) _ _
  | pop | retn =>
    obtain ⟨⟨v, mid⟩, hpop, h⟩ := bind_eq_ok.mp h
    cases h
    exact tells_note (trace_pop hpop) _ _
  | jump | loco | swap | insp | desp | halt =>
    cases h
    exact tells_note rfl _ _

def TellsOf (w : Word) (line : String) : Prop :=
  match (decode w).operation with
  | some o => ∃ text : String, line = s!"[{o.mnemonic}] {text}"
  | none => line = s!"Instrucao desconhecida: {w.hex}"

theorem told_of_execute {w : Word} (h : m.execute (decode w) = .ok m') :
    ∃ told, m'.trace = m.trace ++ told ∧ told ≠ [] ∧ ∀ l ∈ told, TellsOf w l.text := by
  unfold TellsOf
  unfold execute at h
  split at h
  next hop =>
    cases h
    refine ⟨[.unknown w], rfl, List.cons_ne_nil _ _, ?_⟩
    intro l hl
    rw [hop, List.mem_singleton.mp hl]
    rfl
  next o hop =>
    obtain ⟨texts, some, htrace⟩ := tells_perform h
    refine ⟨texts.map (.ran o), htrace, by simpa using some, ?_⟩
    intro l hl
    obtain ⟨text, -, rfl⟩ := List.mem_map.mp hl
    rw [hop]
    exact ⟨text, rfl⟩

/-- The lines of a step that fetches a word: two about the fetch, and one or more about the word. -/
structure Narrates (pc w : Word) (lines : List String) : Prop where
  fetch : lines.take 2 =
    ["[FETCH] " ++ s!"MAR <- PC ({pc.toNat}); RD (I-Cache)",
      "[FETCH] " ++ s!"IR <- MBR ({w.hex}); PC <- PC + 1"]
  some : lines.drop 2 ≠ []
  told : ∀ line ∈ lines.drop 2, TellsOf w line

/-- What a step tells, and what it keeps of it. -/
structure StepTrace (m : Machine) (trace : List TraceLine) (m' : Machine) : Prop where
  /-- A halted machine stays as it is, also in what it keeps of its last step. -/
  idle : m.halted → trace = [] ∧ m' = m
  kept : m.halted = false → m'.trace = trace
  silent : trace = [] ↔ m'.cycle = m.cycle
  told : trace ≠ [] → m'.cycle = m.cycle + 1 ∧
    ∃ w fetched, m.fetch = .ok (w, fetched) ∧ Narrates (m.reg .pc) w (trace.map TraceLine.text)

theorem Shaped.told_of_step (h : m.Shaped) (live : m.halted = false)
    (inside : m.memory.InRange (address (m.reg .pc))) {trace : List TraceLine}
    (hstep : m.step = .ok (trace, m')) :
    m'.trace = trace ∧ Narrates (m.reg .pc) m.fetchedWord (trace.map TraceLine.text) := by
  have hclear : { m with trace := [] }.Shaped := h.congr rfl rfl
  unfold step at hstep
  rw [if_neg (by simp [live]), if_pos inside] at hstep
  obtain ⟨⟨w, mid⟩, hfetch, hrest⟩ := bind_eq_ok.mp hstep
  rw [fetch_eq hclear.code] at hfetch
  cases hfetch
  obtain ⟨last, hexec, hlast⟩ := bind_eq_ok.mp hrest
  cases hlast
  obtain ⟨told, htrace, some, htold⟩ := told_of_execute hexec
  have hlines : last.trace.map TraceLine.text =
      ["[FETCH] " ++ s!"MAR <- PC ({(m.reg .pc).toNat}); RD (I-Cache)",
        "[FETCH] " ++ s!"IR <- MBR ({m.fetchedWord.hex}); PC <- PC + 1"] ++
      told.map TraceLine.text := by
    rw [htrace, List.map_append]
    rfl
  refine ⟨rfl, ?_, ?_, ?_⟩
  · rw [hlines]
    rfl
  · rw [hlines]
    simpa using some
  · rw [hlines]
    intro line hline
    obtain ⟨l, hl, rfl⟩ := List.mem_map.mp hline
    exact htold l hl

theorem Shaped.step_trace (h : m.Shaped) {trace : List TraceLine}
    (hstep : m.step = .ok (trace, m')) : m.StepTrace trace m' := by
  rcases h.step_cases with ⟨halted, hidle⟩ | ⟨live, -, hleft⟩ |
    ⟨live, inside, next, hnext, executes⟩
  · rw [hidle] at hstep
    cases hstep
    refine ⟨fun _ => ⟨rfl, rfl⟩, fun live => ?_, by simp, fun told => absurd rfl told⟩
    rw [halted] at live
    cases live
  · rw [hleft] at hstep
    cases hstep
    refine ⟨fun halted => ?_, fun _ => rfl, by simp, fun told => absurd rfl told⟩
    rw [live] at halted
    cases halted
  · obtain ⟨kept, narrates⟩ := h.told_of_step live inside hstep
    rw [hnext] at hstep
    cases hstep
    have hcycle : next.cycle = m.cycle := executes.cycle
    have hsome : next.trace ≠ [] := by
      intro hnil
      exact narrates.some (by rw [hnil]; rfl)
    refine ⟨fun halted => ?_, fun _ => kept, ?_, fun _ => ⟨?_, _, _, h.fetches.1, narrates⟩⟩
    · rw [live] at halted
      cases halted
    · change next.trace = [] ↔ next.cycle + 1 = m.cycle
      simp only [hsome, false_iff]
      omega
    · exact congrArg (· + 1) hcycle

/--
Whatever a machine underwent, a step tells nothing if and only if it does not count, and else of the
fetch first and then of the operation. What it tells is what the machine keeps, unless it was halted
before: such a machine keeps what its last step told, though the next one tells nothing.
-/
theorem steps_tell_what_they_do (size : Int) (history : List Intervention) :
    ∃ m trace m', (fresh size).undergoAll history = .ok m ∧ m.step = .ok (trace, m') ∧
      m.StepTrace trace m' := by
  obtain ⟨m, hall, hshaped, -⟩ := (shaped_fresh size).undergoAll_ok history
  obtain ⟨trace, m', hstep, -, -⟩ := hshaped.step_ok
  exact ⟨m, trace, m', hall, hstep, hshaped.step_trace hstep⟩

/-- A step behind a halt tells nothing, and keeps what the halt told. -/
theorem steps_tell_what_they_do_behindHalt :
    ∃ m m', (fresh 8).undergoAll [.request (.load #[0xFFFF]), .request .step] = .ok m ∧
      m.step = .ok ([], m') ∧ m'.trace ≠ [] := by
  obtain ⟨start, hstart⟩ : ∃ m, m = (fresh 8).load #[0xFFFF] := ⟨_, rfl⟩
  have h : start.Shaped := hstart ▸ (sound_load (fresh 8) #[0xFFFF]).shaped
  have live : start.halted = false := by rw [hstart]; rfl
  have inside : start.memory.InRange (address (start.reg .pc)) := by rw [hstart]; decide
  have hword : start.fetchedWord = Operation.halt.base := by rw [hstart]; decide
  obtain ⟨trace, m, hstep, -, -, -, hhalt⟩ := h.step_inside live inside
  obtain ⟨kept, narrates⟩ := h.told_of_step live inside hstep
  refine ⟨m, m, ?_, step_of_halted (hhalt.mpr hword), ?_⟩
  · have hload : (fresh 8).undergo (.request (.load #[0xFFFF])) = .ok start := by
      rw [hstart]
      rfl
    have hserve : start.undergo (.request .step) = .ok m := by
      unfold undergo serve
      rw [hstep]
      rfl
    unfold undergoAll
    rw [List.foldlM_cons, hload]
    change List.foldlM undergo start [.request .step] = _
    rw [List.foldlM_cons, hserve]
    rfl
  · rw [kept]
    rintro rfl
    exact narrates.some rfl

end AccMachine.Machine
