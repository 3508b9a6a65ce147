import AccMachine.Proofs.Geometry

namespace AccMachine

theorem Memory.getElem?_block (m : Memory) (start : Int) {size i : Int} (h0 : 0 ≤ i)
    (h : i < size) : (m.block start size)[i.toNat]? = some (m.get (start + i)) := by
  have hi : i.toNat < size.toNat := by omega
  have hc : ((i.toNat : Nat) : Int) = i := Int.toNat_of_nonneg h0
  simp [Memory.block, hi, hc]

theorem CacheLine.holds_iff {l : CacheLine Word} {tag : Int} :
    l.holds tag ↔ l.valid ∧ l.tag = tag := by
  simp [CacheLine.holds]

namespace Cache

/-- As many lines as the geometry tells, each with as many words as it tells and none dirty. -/
structure Shaped (c : Cache) : Prop where
  positive : c.geometry.Positive
  lines_size : (c.lines.size : Int) = c.geometry.lines
  block_size : ∀ (i : Nat) (l : CacheLine Word), c.lines[i]? = some l →
    (l.block.size : Int) = c.geometry.block
  clean : ∀ (i : Nat) (l : CacheLine Word), c.lines[i]? = some l → l.dirty = false

def place (c : Cache) (a : Int) : Nat := (c.geometry.lineOf a).toNat

/-- The word that the cache holds for an address. -/
def held? (c : Cache) (a : Int) : Option Word :=
  match c.lines[c.place a]? with
  | none => none
  | some l =>
    if l.holds (c.geometry.tagOf a) then l.block[(c.geometry.offset a).toNat]? else none

theorem line_of_cold {name : String} {g : Geometry} {i : Nat} {l : CacheLine Word}
    (h : (Cache.cold name g).lines[i]? = some l) : l = CacheLine.cold g.block := by
  simp only [Cache.cold, Array.getElem?_replicate] at h
  split at h
  next => exact (Option.some.inj h).symm
  next => simp at h

theorem Shaped.cold (name : String) {g : Geometry} (pos : g.Positive) :
    (Cache.cold name g).Shaped := by
  have hl := pos.lines
  have hb := pos.block
  refine ⟨pos, ?_, ?_, ?_⟩
  · simp only [Cache.cold, Array.size_replicate]
    omega
  · intro i l h
    rw [line_of_cold h]
    simp only [CacheLine.cold, CacheLine.make, List.isEmpty_toArray, List.isEmpty_nil, if_true,
      Array.size_replicate, Cache.cold]
    omega
  · intro i l h
    rw [line_of_cold h]
    rfl

@[simp] theorem held?_cold (name : String) (g : Geometry) (a : Int) :
    (Cache.cold name g).held? a = none := by
  unfold held?
  split
  next => rfl
  next l hl => rw [line_of_cold hl]; rfl

theorem Shaped.exists_line {c : Cache} (h : c.Shaped) (a : Int) :
    ∃ l, c.lines[c.place a]? = some l := by
  have h0 := Geometry.lineOf_nonneg h.positive a
  have h1 := Geometry.lineOf_lt h.positive a
  have hs := h.lines_size
  have hp : c.place a < c.lines.size := by unfold place; omega
  exact ⟨_, Array.getElem?_eq_getElem hp⟩

theorem held?_of_line {c : Cache} {a : Int} {l : CacheLine Word}
    (hl : c.lines[c.place a]? = some l) :
    c.held? a =
      if l.holds (c.geometry.tagOf a) then l.block[(c.geometry.offset a).toNat]? else none := by
  simp only [held?, hl]

theorem Shaped.offset_lt {c : Cache} (h : c.Shaped) {i : Nat} {l : CacheLine Word}
    (hl : c.lines[i]? = some l) (a : Int) : (c.geometry.offset a).toNat < l.block.size := by
  have h0 := Geometry.offset_nonneg h.positive a
  have h1 := Geometry.offset_lt h.positive a
  have hs := h.block_size i l hl
  omega

theorem Shaped.holdsAt_eq {c : Cache} (h : c.Shaped) (a : Int) :
    c.holdsAt (c.place a) a = (c.held? a).isSome := by
  obtain ⟨l, hl⟩ := h.exists_line a
  have ho := h.offset_lt hl a
  rw [held?_of_line hl]
  unfold holdsAt
  rw [hl, Option.any_some]
  split
  next hh => simp [hh, ho]
  next hh => simpa using hh

theorem Shaped.holds_of_held {c : Cache} (h : c.Shaped) {a : Int} {l : CacheLine Word}
    (hl : c.lines[c.place a]? = some l) (ha : (c.held? a).isSome) :
    l.holds (c.geometry.tagOf a) := by
  have hh := h.holdsAt_eq a
  rw [ha] at hh
  simpa [holdsAt, hl] using hh

theorem place_congr {c d : Cache} (hg : d.geometry = c.geometry) (a : Int) :
    d.place a = c.place a := by
  unfold place
  rw [hg]

/-- What is held for an address depends on its line alone. -/
theorem held?_congr {c d : Cache} {a : Int} (hg : d.geometry = c.geometry)
    (hl : d.lines[c.place a]? = c.lines[c.place a]?) : d.held? a = c.held? a := by
  have hp := place_congr hg a
  simp only [held?, hp, hl, hg]

theorem Shaped.congr {c d : Cache} (h : c.Shaped) (hg : d.geometry = c.geometry)
    (hl : d.lines = c.lines) : d.Shaped := by
  obtain ⟨hp, hs, hb, hc⟩ := h
  exact ⟨hg ▸ hp, by rw [hg, hl]; exact hs, by rw [hg, hl]; exact hb, by rw [hl]; exact hc⟩

theorem place_eq_iff {c : Cache} (h : c.geometry.Positive) {a b : Int} :
    c.place a = c.place b ↔ c.geometry.lineOf a = c.geometry.lineOf b := by
  have ha := Geometry.lineOf_nonneg h a
  have hb := Geometry.lineOf_nonneg h b
  unfold place
  omega

theorem Shaped.modify {c d : Cache} (h : c.Shaped) (hg : d.geometry = c.geometry) {p : Nat}
    {f : CacheLine Word → CacheLine Word} (hd : d.lines = c.lines.modify p f)
    (hsize : ∀ l, c.lines[p]? = some l → ((f l).block.size : Int) = c.geometry.block)
    (hclean : ∀ l, (f l).dirty = l.dirty) : d.Shaped := by
  have hline : ∀ (i : Nat) (l : CacheLine Word), d.lines[i]? = some l →
      c.lines[i]? = some l ∨ ∃ old, c.lines[p]? = some old ∧ l = f old := by
    intro i l hl
    rw [hd, Array.getElem?_modify] at hl
    split at hl
    next hp =>
      obtain ⟨old, hold, rfl⟩ := Option.map_eq_some_iff.mp hl
      exact .inr ⟨old, hp ▸ hold, rfl⟩
    next => exact .inl hl
  refine ⟨hg ▸ h.positive, ?_, ?_, ?_⟩
  · rw [hd, hg, Array.size_modify]
    exact h.lines_size
  · intro i l hl
    rw [hg]
    rcases hline i l hl with same | ⟨old, hold, rfl⟩
    · exact h.block_size i l same
    · exact hsize old hold
  · intro i l hl
    rcases hline i l hl with same | ⟨old, hold, rfl⟩
    · exact h.clean i l same
    · exact (hclean old).trans (h.clean p old hold)

/-- Changing the line of an address leaves what is held in the other lines. -/
theorem Shaped.held?_modify {c d : Cache} (h : c.Shaped) (hg : d.geometry = c.geometry) {a : Int}
    {f : CacheLine Word → CacheLine Word} (hd : d.lines = c.lines.modify (c.place a) f)
    {l : CacheLine Word} (hl : c.lines[c.place a]? = some l) (b : Int) :
    d.held? b =
      if c.geometry.lineOf b = c.geometry.lineOf a then
        if (f l).holds (c.geometry.tagOf b) then (f l).block[(c.geometry.offset b).toNat]? else none
      else c.held? b := by
  have hplace := place_eq_iff h.positive (a := b) (b := a)
  split
  next hline =>
    have hnew : d.lines[d.place b]? = some (f l) := by
      rw [place_congr hg, hplace.mpr hline, hd, Array.getElem?_modify, if_pos rfl, hl]
      rfl
    rw [held?_of_line hnew, hg]
  next hline =>
    have hp : c.place a ≠ c.place b := fun hp => hline (hplace.mp hp.symm)
    refine held?_congr hg ?_
    rw [hd, Array.getElem?_modify, if_neg hp]

@[simp] theorem lines_fill (c : Cache) (m : Memory) (p : Nat) (a : Int) :
    (c.fill m p a).lines = c.lines.modify p fun l =>
      { l with
        valid := true
        tag := c.geometry.tagOf a
        block := m.block (c.geometry.blockBase a) c.geometry.block } := rfl

theorem Shaped.fill {c : Cache} (h : c.Shaped) (m : Memory) (p : Nat) (a : Int) :
    (c.fill m p a).Shaped := by
  have hb := h.positive.block
  refine h.modify rfl (lines_fill c m p a) ?_ ?_
  · intro l _
    simp only [Memory.block, Array.size_ofFn]
    omega
  · intro l
    rfl

/-- A fill holds one block and forgets the block that shared its line. -/
theorem Shaped.held?_fill {c : Cache} (h : c.Shaped) (m : Memory) (a b : Int) :
    (c.fill m (c.place a) a).held? b =
      if c.geometry.blockBase b = c.geometry.blockBase a then some (m.get b)
      else if c.geometry.lineOf b = c.geometry.lineOf a then none
      else c.held? b := by
  obtain ⟨l, hl⟩ := h.exists_line a
  have hiff := Geometry.blockBase_eq_iff h.positive (a := b) (b := a)
  rw [h.held?_modify (d := c.fill m _ a) rfl (lines_fill c m _ a) hl b]
  by_cases hline : c.geometry.lineOf b = c.geometry.lineOf a
  · rw [if_pos hline]
    by_cases hbase : c.geometry.blockBase b = c.geometry.blockBase a
    · have hword := m.getElem?_block (c.geometry.blockBase a)
        (Geometry.offset_nonneg h.positive b) (Geometry.offset_lt h.positive b)
      rw [← hbase, Geometry.blockBase_add_offset, hbase] at hword
      rw [if_pos hbase, if_pos (CacheLine.holds_iff.mpr ⟨rfl, (hiff.mp hbase).1.symm⟩)]
      exact hword
    · rw [if_neg hbase, if_pos hline, if_neg]
      intro hholds
      exact hbase (hiff.mpr ⟨(CacheLine.holds_iff.mp hholds).2.symm, hline⟩)
  · have hbase : c.geometry.blockBase b ≠ c.geometry.blockBase a :=
      fun hb => hline (hiff.mp hb).2
    rw [if_neg hline, if_neg hbase, if_neg hline]

theorem Shaped.bringIn {c : Cache} (h : c.Shaped) (m : Memory) (p : Nat) (a : Int) :
    (c.bringIn m p a).Shaped := by
  unfold Cache.bringIn
  split
  · exact h
  · exact h.fill m p a

theorem Shaped.isSome_held?_of_blockBase {c : Cache} (h : c.Shaped) {a b : Int}
    (hb : c.geometry.blockBase b = c.geometry.blockBase a) :
    (c.held? b).isSome = (c.held? a).isSome := by
  obtain ⟨htag, hline⟩ := (Geometry.blockBase_eq_iff h.positive).mp hb
  have hp : c.place b = c.place a := (place_eq_iff h.positive).mpr hline
  rw [← h.holdsAt_eq, ← h.holdsAt_eq]
  unfold holdsAt
  rw [hp, htag]

theorem Shaped.held?_eq_none_of_line {c : Cache} (h : c.Shaped) {a b : Int}
    (ha : (c.held? a).isSome) (hline : c.geometry.lineOf b = c.geometry.lineOf a)
    (hb : c.geometry.blockBase b ≠ c.geometry.blockBase a) : c.held? b = none := by
  obtain ⟨l, hl⟩ := h.exists_line a
  have hp : c.place b = c.place a := (place_eq_iff h.positive).mpr hline
  have hhold := h.holds_of_held hl ha
  rw [held?_of_line (hp ▸ hl), if_neg]
  intro hh
  have htag := (CacheLine.holds_iff.mp hh).2.symm.trans (CacheLine.holds_iff.mp hhold).2
  exact hb ((Geometry.blockBase_eq_iff h.positive).mpr ⟨htag, hline⟩)

/--
What is held for `b` once the block of `a` is: a block that was held keeps its words, another one
comes from memory and takes the place of the block that shared its line.
-/
def heldAfter? (c : Cache) (m : Memory) (a b : Int) : Option Word :=
  if c.geometry.blockBase b = c.geometry.blockBase a then some ((c.held? b).getD (m.get b))
  else if c.geometry.lineOf b = c.geometry.lineOf a then none
  else c.held? b

@[simp] theorem heldAfter?_self (c : Cache) (m : Memory) (a : Int) :
    c.heldAfter? m a a = some ((c.held? a).getD (m.get a)) := if_pos rfl

theorem kept_or_fetched {c : Cache} {m : Memory} {a b : Int} {w : Word}
    (h : c.heldAfter? m a b = some w) :
    c.held? b = some w ∨ c.held? b = none ∧ w = m.get b := by
  unfold heldAfter? at h
  split at h
  next =>
    cases hb : c.held? b with
    | none =>
      rw [hb] at h
      exact .inr ⟨rfl, (Option.some.inj h).symm⟩
    | some v =>
      rw [hb] at h
      exact .inl h
  next =>
    split at h
    next => cases h
    next => exact .inl h

theorem Shaped.held?_bringIn {c : Cache} (h : c.Shaped) (m : Memory) (a b : Int) :
    (c.bringIn m (c.place a) a).held? b = c.heldAfter? m a b := by
  unfold Cache.bringIn heldAfter?
  rw [h.holdsAt_eq]
  split
  next ha =>
    split
    next hb =>
      have hs := h.isSome_held?_of_blockBase hb
      rw [ha] at hs
      obtain ⟨w, hw⟩ := Option.isSome_iff_exists.mp hs
      simp [hw]
    next hb =>
      split
      next hline => exact h.held?_eq_none_of_line ha hline hb
      next => rfl
  next ha =>
    rw [h.held?_fill]
    split
    next hb =>
      have hs := h.isSome_held?_of_blockBase hb
      have hn : c.held? b = none := by
        rw [← Option.not_isSome_iff_eq_none, hs]
        exact ha
      simp [hn]
    next => rfl

def stored (c : Cache) (a : Int) (v : Word) : Cache :=
  { c with
    lines := c.lines.modify (c.place a) fun l =>
      { l with block := l.block.setIfInBounds (c.geometry.offset a).toNat v } }

@[simp] theorem lines_stored (c : Cache) (a : Int) (v : Word) :
    (c.stored a v).lines = c.lines.modify (c.place a) fun l =>
      { l with block := l.block.setIfInBounds (c.geometry.offset a).toNat v } := rfl

theorem Shaped.stored {c : Cache} (h : c.Shaped) (a : Int) (v : Word) : (c.stored a v).Shaped := by
  refine h.modify rfl (lines_stored c a v) ?_ ?_
  · intro l hl
    simp only [Array.size_setIfInBounds]
    exact h.block_size (c.place a) l hl
  · intro l
    rfl

theorem Shaped.held?_stored {c : Cache} (h : c.Shaped) {a : Int} (ha : (c.held? a).isSome)
    (v : Word) (b : Int) : (c.stored a v).held? b = if b = a then some v else c.held? b := by
  obtain ⟨l, hl⟩ := h.exists_line a
  have hhold := h.holds_of_held hl ha
  rw [h.held?_modify (d := c.stored a v) rfl (lines_stored c a v) hl b]
  split
  next hline =>
    have hp : c.place b = c.place a := (place_eq_iff h.positive).mpr hline
    change (if l.holds (c.geometry.tagOf b) then _ else none) = _
    rw [held?_of_line (hp ▸ hl)]
    by_cases hab : b = a
    · subst hab
      rw [if_pos hhold, if_pos rfl]
      exact Array.getElem?_setIfInBounds_self_of_lt (h.offset_lt hl b)
    · rw [if_neg hab]
      split
      next hb =>
        -- Two addresses of one block differ in their offsets.
        have htag := (CacheLine.holds_iff.mp hb).2.symm.trans (CacheLine.holds_iff.mp hhold).2
        have hbase := (Geometry.blockBase_eq_iff h.positive).mpr ⟨htag, hline⟩
        have h0 := Geometry.offset_nonneg h.positive a
        have h1 := Geometry.offset_nonneg h.positive b
        have ho : (c.geometry.offset a).toNat ≠ (c.geometry.offset b).toNat :=
          fun heq => hab (Geometry.eq_of_blockBase_offset hbase (by omega))
        exact Array.getElem?_setIfInBounds_ne ho
      next => rfl
  next hline => rw [if_neg fun hab => hline (by rw [hab])]

end Cache

end AccMachine
