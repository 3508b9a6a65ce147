import AccMachine.Proofs.HitHistory

namespace AccMachine

namespace Cache

variable {c d e : Cache} {m : Memory} {a : Int} {hit : Bool} {put : Option Word}

def HoldsBlock (c : Cache) (i : Nat) (a : Int) : Prop :=
  ∃ l, c.lines[i]? = some l ∧ l.valid ∧ c.geometry.baseAt l.tag i = c.geometry.blockBase a

theorem Shaped.place_of_holdsBlock (h : c.Shaped) {i : Nat} (hb : c.HoldsBlock i a) :
    i = c.place a := by
  obtain ⟨l, hl, -, hbase⟩ := hb
  obtain ⟨hi, -⟩ := Array.getElem?_eq_some_iff.mp hl
  have hs := h.lines_size
  have hparts := Geometry.baseAt_eq_blockBase_iff h.positive (t := l.tag) (i := i) (a := a)
    (by omega) (by omega)
  obtain ⟨-, hline⟩ := hparts.mp hbase
  unfold place
  omega

theorem Shaped.holdsBlock_unique (h : c.Shaped) {i j : Nat} (hi : c.HoldsBlock i a)
    (hj : c.HoldsBlock j a) : i = j :=
  (h.place_of_holdsBlock hi).trans (h.place_of_holdsBlock hj).symm

/--
What an access at an address makes of the lines. `hit` tells whether the block was there, `put` is
the word that the access puts at the address, if it does.
-/
structure Frames (c d : Cache) (m : Memory) (a : Int) (hit : Bool) (put : Option Word) : Prop where
  probed : c.wouldHit a = .ok hit
  others : ∀ i, i ≠ c.place a → d.lines[i]? = c.lines[i]?
  line : ∃ old new, c.lines[c.place a]? = some old ∧ d.lines[c.place a]? = some new ∧
    new.valid ∧ new.tag = c.geometry.tagOf a ∧
    (∀ o : Nat, (o : Int) < c.geometry.block → (o : Int) ≠ c.geometry.offset a →
      new.block[o]? =
        if hit then old.block[o]? else some (m.get (c.geometry.blockBase a + o))) ∧
    new.block[(c.geometry.offset a).toNat]? = some (put.getD ((c.held? a).getD (m.get a)))

theorem lines_bringIn_of_ne (c : Cache) (m : Memory) (a : Int) {p i : Nat} (hi : i ≠ p) :
    (c.bringIn m p a).lines[i]? = c.lines[i]? := by
  unfold bringIn
  split
  next => rfl
  next => simp [Array.getElem?_modify, hi.symm]

theorem Shaped.line_bringIn (h : c.Shaped) (m : Memory) {old : CacheLine Word}
    (hold : c.lines[c.place a]? = some old) :
    ∃ new, (c.bringIn m (c.place a) a).lines[c.place a]? = some new ∧
      new.valid ∧ new.tag = c.geometry.tagOf a ∧
      new.block =
        if (c.held? a).isSome then old.block
        else m.block (c.geometry.blockBase a) c.geometry.block := by
  unfold Cache.bringIn
  rw [h.holdsAt_eq a]
  split
  next hheld =>
    obtain ⟨valid, tag⟩ := CacheLine.holds_iff.mp (h.holds_of_held hold hheld)
    exact ⟨old, hold, valid, tag, rfl⟩
  next =>
    refine ⟨{ old with
      valid := true
      tag := c.geometry.tagOf a
      block := m.block (c.geometry.blockBase a) c.geometry.block }, ?_, rfl, rfl, rfl⟩
    simp [Array.getElem?_modify, hold]

theorem Shaped.frames_bringIn (h : c.Shaped) (m : Memory) (a : Int) :
    c.Frames (c.bringIn m (c.place a) a) m a (c.held? a).isSome none := by
  obtain ⟨old, hold⟩ := h.exists_line a
  obtain ⟨new, hnew, valid, tag, block⟩ := h.line_bringIn m hold
  refine ⟨h.wouldHit_eq a, fun i hi => lines_bringIn_of_ne c m a hi,
    old, new, hold, hnew, valid, tag, ?_, ?_⟩
  · intro o ho _
    rw [block]
    split
    next => rfl
    next =>
      have hword := m.getElem?_block (c.geometry.blockBase a) (Int.natCast_nonneg o) ho
      rwa [Int.toNat_natCast] at hword
  · have hg := geometry_bringIn c m (c.place a) a
    have hheld := h.held?_bringIn m a a
    have hholds := CacheLine.holds_iff.mpr ⟨valid, tag⟩
    have hline : (c.bringIn m (c.place a) a).lines[(c.bringIn m (c.place a) a).place a]? =
        some new := by
      rw [place_congr hg]
      exact hnew
    rw [heldAfter?_self, held?_of_line hline, hg, if_pos hholds] at hheld
    exact hheld

/-- Neither counting an access nor recording it has a part in what it makes of the lines. -/
theorem Shaped.frames_bringIn_congr (h : c.Shaped) (hg : d.geometry = c.geometry)
    (hl : d.lines = c.lines) (m : Memory) (a : Int) :
    c.Frames (d.bringIn m (c.place a) a) m a (c.held? a).isSome none := by
  obtain ⟨-, others, line⟩ := (h.congr hg hl).frames_bringIn m a
  rw [place_congr hg, hl] at others
  rw [place_congr hg, hl, hg, held?_congr_all hg hl] at line
  exact ⟨h.wouldHit_eq a, others, line⟩

theorem Shaped.frames_afterRead (h : c.Shaped) (m : Memory) (a : Int) :
    c.Frames (c.afterRead m a) m a (c.held? a).isSome none := by
  refine h.frames_bringIn_congr ?_ ?_ m a <;> simp

theorem Shaped.frames_touchWrite (h : c.Shaped) (m : Memory) (a : Int) :
    c.Frames (c.touchWrite m (c.place a) a) m a (c.held? a).isSome none := by
  refine h.frames_bringIn_congr ?_ ?_ m a <;> simp

/-- A word that is stored behind an access is the only one to differ from what the access left. -/
theorem Frames.stored (h : c.Frames d m a hit none) (shaped : d.Shaped)
    (hg : d.geometry = c.geometry) (v : Word) : c.Frames (d.stored a v) m a hit (some v) := by
  obtain ⟨probed, others, old, new, hold, hnew, valid, tag, words, -⟩ := h
  have hp := place_congr hg a
  refine ⟨probed, fun i hi => ?_, old,
    { new with block := new.block.setIfInBounds (c.geometry.offset a).toNat v }, hold, ?_, valid,
    tag, fun o ho hne => ?_, ?_⟩
  · have hother := others i hi
    simp [Array.getElem?_modify, hp, hi.symm, hother]
  · simp [Array.getElem?_modify, hp, hg, hnew]
  · have h0 := Geometry.offset_nonneg shaped.positive a
    rw [hg] at h0
    have hplace : (c.geometry.offset a).toNat ≠ o := by omega
    rw [Array.getElem?_setIfInBounds_ne hplace]
    exact words o ho hne
  · rw [← hp] at hnew
    have hoff := shaped.offset_lt hnew a
    rw [hg] at hoff
    simp [hoff]

theorem Shaped.frames_afterWrite (h : c.Shaped) (m : Memory) (a : Int) (v : Word) :
    c.Frames (c.afterWrite m a v) m a (c.held? a).isSome (some v) := by
  obtain ⟨probed, others, line⟩ :=
    (h.frames_touchWrite m a).stored (h.touchWrite m (c.place a) a) (by simp) v
  exact ⟨probed, others, line⟩

end Cache

def Access.put? {ι : Type} : Access ι → Option Word
  | .read _ _ => none
  | .write _ _ v => some (Word.ofInt v)
  | .flush _ => none
  | .set _ v => some (Word.ofInt v)
  | .load _ => none
  | .clear => none

namespace SharedMemory

variable {ι : Type} [DecidableEq ι] {s : SharedMemory ι} {accesses : Nat → Access ι}

/-- A visit changes the one line of its address, or none if it cannot be recorded. -/
theorem frames_visit (h : s.Shaped) {x : Access ι} {c : ι} {v : Visit}
    (hv : x.visit? c = some v) :
    ∃ hit, (s.caches c).wouldHit v.address = .ok hit ∧
      ((v.event (s.caches c).geometry hit).Writable →
        (∃ r, (s.perform x).1 = .ok r) ∧
          (s.caches c).Frames ((s.perform x).2.caches c) s.memory v.address hit x.put?) ∧
      (¬(v.event (s.caches c).geometry hit).Writable →
        (s.perform x).1 = .error .badValue ∧
          ((s.perform x).2.caches c).lines = (s.caches c).lines) := by
  refine ⟨_, (h c).wouldHit_eq v.address, ?_⟩
  rcases Access.eq_of_visit? hv with ⟨a, rfl, rfl⟩ | ⟨a, word, rfl, rfl⟩
  · rw [← (h c).readEvent_eq]
    constructor
    · intro w
      rw [h.perform_read w]
      simp only [Function.update_self]
      exact ⟨⟨_, rfl⟩, (h c).frames_afterRead s.memory a⟩
    · intro w
      simp [h.perform_read_fault w]
  · rw [← (h c).writeEvent_eq]
    constructor
    · intro w
      rw [h.perform_write word w]
      simp only [Function.update_self]
      exact ⟨⟨_, rfl⟩, (h c).frames_afterWrite s.memory a (Word.ofInt word)⟩
    · intro w
      simp [h.perform_write_fault word w]

theorem perform_flush (s : SharedMemory ι) (c : ι) :
    (s.perform (.flush c)).1 = .ok none ∧ (s.perform (.flush c)).2.memory = s.memory ∧
      (s.perform (.flush c)).2.caches c =
        { s.caches c with status := .flush, history := .flush :: (s.caches c).history } := by
  refine ⟨rfl, rfl, ?_⟩
  simp only [perform, Function.update_self]
  rfl

/--
Whatever is accessed, a cache keeps the lines that its geometry tells, all clean and of words, and
never has a block in two of them. A visit that can be recorded changes the line of its address
alone, and a hit the word at the address alone; what a miss brings in is memory's. One that cannot
be recorded faults and changes no line. A flush leaves memory and all lines as they are.
-/
theorem lines_follow_visits (memory : Memory) (name : ι → String) (geometry : ι → Geometry)
    (positive : ∀ c, (geometry c).Positive) (accesses : Nat → Access ι) (c : ι) :
    let s := start memory name geometry
    let cache := fun n => (s.moment accesses n).caches c
    let ram := fun n => (s.moment accesses n).memory
    (∀ n, (cache n).geometry = geometry c ∧ (cache n).Shaped ∧
      (∀ (i : Nat) (l : CacheLine Word), (cache n).lines[i]? = some l →
        ∀ w ∈ l.block, w.toNat ≤ 65535) ∧
      ∀ i j a, (cache n).HoldsBlock i a → (cache n).HoldsBlock j a → i = j) ∧
    (∀ n v, (accesses n).visit? c = some v →
      ∃ hit, (cache n).wouldHit v.address = .ok hit ∧
        ((v.event (geometry c) hit).Writable →
          (∃ r, s.result accesses n = .ok r) ∧
            (cache n).Frames (cache (n + 1)) (ram n) v.address hit (accesses n).put?) ∧
        (¬(v.event (geometry c) hit).Writable →
          s.result accesses n = .error .badValue ∧ (cache (n + 1)).lines = (cache n).lines)) ∧
    (∀ n, accesses n = .flush c →
      s.result accesses n = .ok none ∧ ram (n + 1) = ram n ∧
        cache (n + 1) =
          { cache n with status := .flush, history := .flush :: (cache n).history }) ∧
    (∀ n, (accesses n).visit? c = none → accesses n ≠ .flush c → cache (n + 1) = cache n) := by
  intro s cache ram
  have h : s.Shaped := start_shaped memory name positive
  have tracks : ∀ n, (cache n).Tracks (geometry c) (visits accesses c n) := fun n =>
    tracks_moment h (Cache.tracks_cold (name c) (positive c)) n
  refine ⟨?_, ?_, ?_, ?_⟩
  · intro n
    have shaped := (tracks n).shaped
    refine ⟨(tracks n).geometry, shaped, ?_, ?_⟩
    · intro i l _ w _
      have hw := w.isLt
      omega
    · intro i j a hi hj
      exact shaped.holdsBlock_unique hi hj
  · intro n v hv
    have hvisit := frames_visit (h.moment accesses n) hv
    rw [(tracks n).geometry] at hvisit
    exact hvisit
  · intro n hn
    have hflush := perform_flush (s.moment accesses n) c
    rw [← hn] at hflush
    exact hflush
  · intro n hv hf
    exact cache_of_no_visit hv hf

/-- A write to the last word of a block below zero, whose first word was read before. -/
theorem lines_follow_visits_sharedLine :
    (∀ _ : Unit, Geometry.standard.Positive) ∧
      (∃ r, oneCache.result sharedLine 1 = .ok r) ∧
      ((oneCache.moment sharedLine 1).caches ()).Frames ((oneCache.moment sharedLine 2).caches ())
        (oneCache.moment sharedLine 1).memory (-1) true (some (Word.ofInt 7)) := by
  obtain ⟨-, visited, -, -⟩ := lines_follow_visits (Memory.zeros 8) (fun _ => "L1")
    (fun _ => Geometry.standard) (fun _ => Geometry.standard_positive) sharedLine ()
  obtain ⟨hit, probed, recorded, -⟩ := visited 1 ⟨-1, true⟩ rfl
  have hstart : start (Memory.zeros 8) (fun _ => "L1") (fun _ => Geometry.standard) = oneCache :=
    rfl
  rw [hstart] at probed recorded
  have held : (((oneCache.moment sharedLine 1).caches ()).wouldHit (-1)).toOption = some true := by
    decide +kernel
  have hhit : hit = true := by
    rw [probed] at held
    exact Option.some.inj held
  have small := sharedLine_small ⟨-1, true⟩ (.tail _ (.tail _ (.head _)))
  have tellable : Geometry.standard.Tellable (-1) := fun n hn =>
    Numeral.writable_of_natAbs_lt (small n hn)
  rw [hhit] at recorded
  have writable := tellable.event_writable (v := ⟨-1, true⟩) true
  obtain ⟨done, frames⟩ := recorded writable
  simp only [Nat.reduceAdd] at frames
  exact ⟨fun _ => Geometry.standard_positive, done, frames⟩

theorem lines_follow_visits_writeLimit :
    (oneCache.perform (.write () Numeral.writeLimit 7)).1 = .error .badValue ∧
      ((oneCache.perform (.write () Numeral.writeLimit 7)).2.caches ()).lines =
        Array.replicate 8 (CacheLine.cold 4) := by
  have h : oneCache.Shaped := start_shaped _ _ fun _ => Geometry.standard_positive
  obtain ⟨hit, -, -, fault⟩ := frames_visit h (x := .write () Numeral.writeLimit 7) (c := ())
    (v := ⟨Numeral.writeLimit, true⟩) rfl
  apply fault
  intro w
  exact Numeral.not_writable_writeLimit (w _ (Visit.address_mem_numbers _ _ _))

end SharedMemory

end AccMachine
