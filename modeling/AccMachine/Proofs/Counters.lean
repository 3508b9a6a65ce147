import AccMachine.Proofs.StepBudget

namespace AccMachine

/-- The counters of a cache have not fallen since, and its events are still there, in order. -/
structure Cache.Continues (c c' : Cache) : Prop where
  hits : c.hits ≤ c'.hits
  misses : c.misses ≤ c'.misses
  events : c.events <+: c'.events

/-- The events of a cache are those of uses in their order: each of them in a block of its own. -/
structure Cache.Records (c : Cache) (uses : List CacheUse) : Prop where
  blocks : ∃ blocks, List.Forall₂ CacheUse.Tells uses blocks ∧ c.events = blocks.flatten
  count : c.events.length = CacheUse.eventTotal uses

theorem Cache.Grows.continues {c c' : Cache} {uses : List CacheUse} (h : c.Grows uses c') :
    c.Continues c' := ⟨h.hits, h.misses, h.events_prefix⟩

theorem Cache.Grows.records {c c' : Cache} {uses : List CacheUse} (h : c.Grows uses c')
    (begins : c.events = []) : c'.Records uses := by
  have hlength := h.length_events
  obtain ⟨blocks, htells, hevents⟩ := h.told
  rw [begins] at hevents hlength
  exact ⟨⟨blocks, htells, hevents⟩, by rw [hlength, List.length_nil, Nat.zero_add]⟩

inductive Advance
  | step
  | run (budget : Int)

def Advance.request : Advance → Request
  | .step => .step
  | .run budget => .run budget

namespace Machine

def Fetches (m : Machine) : Prop := m.halted = false ∧ m.memory.InRange (address (m.reg .pc))

instance (m : Machine) : Decidable m.Fetches :=
  inferInstanceAs (Decidable (m.halted = false ∧ m.memory.InRange (address (m.reg .pc))))

def stepCode (m : Machine) : List CacheUse :=
  if m.Fetches then
    .read (address (m.reg .pc)) ::
      if m.fetchedWord = Operation.halt.base then [.flush] else []
  else []

def stepData (m : Machine) : List CacheUse :=
  if m.Fetches then m.fetched.dataUses m.fetchedWord else []

/-- What so many steps ask of a cache, where `uses` tells what one step does. -/
def usesOver (uses : Machine → List CacheUse) (m : Machine) : Nat → List CacheUse
  | 0 => []
  | k + 1 =>
    usesOver uses m k ++
      match m.steps k with
      | .ok (_, m') => uses m'
      | .error _ => []

/-- Between two states both caches have grown by their uses, and each cycle has made one fetch. -/
structure Counts (m : Machine) (code data : List CacheUse) (m' : Machine) : Prop where
  codeGrows : m.codeCache.Grows code m'.codeCache
  dataGrows : m.dataCache.Grows data m'.dataCache
  cycle : m'.cycle = m.cycle + code.countP CacheUse.isAccess
  rate : data.countP CacheUse.isAccess ≤ 2 * code.countP CacheUse.isAccess

variable {m m' m'' : Machine} {code data code' data' : List CacheUse}

theorem Counts.refl (m : Machine) : m.Counts [] [] m := ⟨.refl _, .refl _, rfl, Nat.le_refl _⟩

theorem Counts.trans (first : m.Counts code data m') (second : m'.Counts code' data' m'') :
    m.Counts (code ++ code') (data ++ data') m'' := by
  have hrate := first.rate
  have hrate' := second.rate
  refine ⟨first.codeGrows.trans second.codeGrows, first.dataGrows.trans second.dataGrows, ?_, ?_⟩
  · rw [second.cycle, first.cycle, List.countP_append, Nat.add_assoc]
  · rw [List.countP_append, List.countP_append]
    omega

theorem countP_asked_le (m : Machine) (x : Word) (o : Operation) :
    (m.asked x o).countP CacheUse.isAccess ≤ 2 := by
  have hle : (m.asked x o).length ≤ 2 := by
    cases o <;> simp [asked]
  exact Nat.le_trans List.countP_le_length hle

theorem countP_dataUses_le (m : Machine) (w : Word) :
    (m.dataUses w).countP CacheUse.isAccess ≤ 2 := by
  unfold dataUses
  split
  · exact Nat.zero_le _
  · exact Nat.le_trans List.filter_sublist.countP_le (countP_asked_le m _ _)

theorem Executes.counts (h : m.Shaped) (fetches : m.Fetches)
    (executes : { m with trace := [] }.fetched.Executes m.fetchedWord m') :
    m.Counts m.stepCode m.stepData { m' with cycle := m'.cycle + 1 } := by
  have hread := m.codeCache.grows_afterRead m.memory (address (m.reg .pc))
  have hcode : m'.codeCache = if m.fetchedWord = Operation.halt.base
    then (m.codeCache.afterRead m.memory (address (m.reg .pc))).flush
    else m.codeCache.afterRead m.memory (address (m.reg .pc)) := executes.code
  have hdata := (h.data.grows_useAll executes.data).1
  unfold stepCode stepData
  rw [if_pos fetches, if_pos fetches]
  refine ⟨?_, hdata, ?_, ?_⟩
  · change m.codeCache.Grows _ m'.codeCache
    rw [hcode]
    split
    · exact hread.trans (Cache.grows_flush _)
    · exact hread
  · have hcycle : m'.cycle = m.cycle := executes.cycle
    change m'.cycle + 1 = _
    rw [hcycle]
    split <;> rfl
  · have hle := countP_dataUses_le m.fetched m.fetchedWord
    split
    · exact hle
    · exact hle

theorem Shaped.step_counts (h : m.Shaped) :
    ∃ trace m', m.step = .ok (trace, m') ∧ m'.Shaped ∧ m.Counts m.stepCode m.stepData m' := by
  -- A step that does not fetch asks nothing of the caches, and leaves them and the cycles.
  have hnone : ¬m.Fetches → m.stepCode = [] ∧ m.stepData = [] :=
    fun idle => ⟨if_neg idle, if_neg idle⟩
  rcases h.step_cases with ⟨halted, hstep⟩ | ⟨-, outside, hstep⟩ |
    ⟨live, inside, m', hstep, executes⟩
  · obtain ⟨hcode, hdata⟩ := hnone fun fetches => by simp [fetches.1] at halted
    rw [hcode, hdata]
    exact ⟨_, _, hstep, h, .refl m⟩
  · obtain ⟨hcode, hdata⟩ := hnone fun fetches => outside fetches.2
    rw [hcode, hdata]
    exact ⟨_, _, hstep, h.congr rfl rfl, .refl _, .refl _, rfl, Nat.le_refl _⟩
  · exact ⟨_, _, hstep, executes.shaped.congr rfl rfl, executes.counts h ⟨live, inside⟩⟩

theorem Shaped.steps_counts (h : m.Shaped) (k : Nat) :
    ∃ traces m', m.steps k = .ok (traces, m') ∧ m'.Shaped ∧
      m.Counts (m.usesOver stepCode k) (m.usesOver stepData k) m' := by
  induction k with
  | zero => exact ⟨[], m, rfl, h, .refl m⟩
  | succ k ih =>
    obtain ⟨traces, m', hsteps, hshaped, counts⟩ := ih
    obtain ⟨trace, m'', hstep, hshaped', counts'⟩ := hshaped.step_counts
    refine ⟨traces ++ [trace], m'', ?_, hshaped', ?_⟩
    · rw [steps, hsteps]
      dsimp only [bind, Except.bind]
      rw [hstep]
      rfl
    · unfold usesOver
      rw [hsteps]
      exact counts.trans counts'

theorem Shaped.advance_ran (h : m.Shaped) (a : Advance) :
    ∃ traces m', m.serve a.request = .ok m' ∧ m.Ran traces m' := by
  cases a with
  | step =>
    obtain ⟨trace, m', hstep, -⟩ := h.step_ok
    have hserve : m.serve .step = .ok m' := by
      unfold serve
      dsimp only
      rw [hstep]
      rfl
    by_cases halted : m.halted
    · obtain ⟨-, rfl⟩ := Prod.mk.inj (Except.ok.inj (hstep.symm.trans (step_of_halted halted)))
      exact ⟨[], _, hserve, .refl⟩
    · exact ⟨[trace], m', hserve, .step .refl (by simpa using halted) hstep⟩
  | run budget =>
    obtain ⟨traces, m', hrun, ran, -⟩ := h.run_ran budget
    refine ⟨traces, m', ?_, ran⟩
    unfold serve Advance.request
    dsimp only
    rw [hrun]
    rfl

theorem Shaped.advanceAll_ran (h : m.Shaped) (advances : List Advance) :
    ∃ traces m', m.serveAll (advances.map Advance.request) = .ok m' ∧ m.Ran traces m' := by
  induction advances generalizing m with
  | nil => exact ⟨[], m, rfl, .refl⟩
  | cons a advances ih =>
    obtain ⟨traces, mid, hserve, ran⟩ := h.advance_ran a
    obtain ⟨traces', m', hall, ran'⟩ := ih (ran.shaped h).1
    refine ⟨traces ++ traces', m', ?_, ran.trans ran'⟩
    unfold serveAll at hall ⊢
    rw [List.map_cons, List.foldlM_cons, hserve]
    exact hall

theorem Ran.counts {traces : List (List TraceLine)} (ran : m.Ran traces m') (h : m.Shaped) :
    m.Counts (m.usesOver stepCode traces.length) (m.usesOver stepData traces.length) m' := by
  obtain ⟨_, last, hsteps, -, counts⟩ := h.steps_counts traces.length
  obtain ⟨-, rfl⟩ := Prod.mk.inj (Except.ok.inj (ran.steps_eq.symm.trans hsteps))
  exact counts

/--
After a program was loaded, and then stepped and run in any way, the code cache has counted one
fetch a cycle, and the data cache every access to data inside of the memory that the executed
instructions made, at most two a cycle. The events of both caches are those of their uses, a step
only adds to them, and no counter falls.
-/
theorem counters_tell_accesses (start : Machine) (image : Array Int)
    (earlier later : List Advance) :
    ∃ k traces m n,
      (start.load image).serveAll (earlier.map Advance.request) = .ok m ∧
      (start.load image).steps k = .ok (traces, m) ∧
      m.codeCache.hits + m.codeCache.misses = m.cycle ∧
      m.dataCache.hits + m.dataCache.misses =
        ((start.load image).usesOver stepData k).countP CacheUse.isAccess ∧
      m.dataCache.hits + m.dataCache.misses ≤ 2 * m.cycle ∧
      m.codeCache.Records ((start.load image).usesOver stepCode k) ∧
      m.dataCache.Records ((start.load image).usesOver stepData k) ∧
      m.serveAll (later.map Advance.request) = .ok n ∧
      m.codeCache.Continues n.codeCache ∧ m.dataCache.Continues n.dataCache ∧
      m.cycle ≤ n.cycle := by
  have h : (start.load image).Shaped := (sound_load start image).shaped
  obtain ⟨traces, m, hearlier, ran⟩ := h.advanceAll_ran earlier
  obtain ⟨traces', n, hlater, ran'⟩ := (ran.shaped h).1.advanceAll_ran later
  have counts := ran.counts h
  have counts' := ran'.counts (ran.shaped h).1
  -- A loaded machine has cold caches, and has made no cycle.
  have hcycle := counts.cycle.trans (Nat.zero_add _)
  have hcode := counts.codeGrows.total.trans (Nat.zero_add _)
  have hdata := counts.dataGrows.total.trans (Nat.zero_add _)
  have hrate := counts.rate
  rw [← hcycle, ← hdata] at hrate
  exact ⟨traces.length, traces, m, n, hearlier, ran.steps_eq, hcode.trans hcycle.symm, hdata, hrate,
    counts.codeGrows.records rfl, counts.dataGrows.records rfl, hlater,
    counts'.codeGrows.continues, counts'.dataGrows.continues,
    Nat.le.intro counts'.cycle.symm⟩

end Machine

end AccMachine
