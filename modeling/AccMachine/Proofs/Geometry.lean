import AccMachine.Cache

namespace AccMachine

theorem position?_of_lt {size : Nat} {i : Int} (h0 : 0 ≤ i) (h1 : i < size) :
    position? size i = some i.toNat := by
  simp [position?, h0, h1]

namespace Geometry

structure Positive (g : Geometry) : Prop where
  lines : 0 < g.lines
  block : 0 < g.block

variable {g : Geometry}

theorem standard_positive : standard.Positive := ⟨by decide, by decide⟩

theorem Positive.divides (pos : g.Positive) : g.Divides :=
  ⟨Int.ne_of_gt pos.lines, Int.ne_of_gt pos.block⟩

theorem lineOf_nonneg (pos : g.Positive) (a : Int) : 0 ≤ g.lineOf a :=
  Int.fmod_nonneg_of_pos _ pos.lines

theorem lineOf_lt (pos : g.Positive) (a : Int) : g.lineOf a < g.lines :=
  Int.fmod_lt_of_pos _ pos.lines

theorem offset_nonneg (pos : g.Positive) (a : Int) : 0 ≤ g.offset a :=
  Int.fmod_nonneg_of_pos _ pos.block

theorem offset_lt (pos : g.Positive) (a : Int) : g.offset a < g.block :=
  Int.fmod_lt_of_pos _ pos.block

@[simp] theorem blockBase_add_offset (g : Geometry) (a : Int) : g.blockBase a + g.offset a = a := by
  have h := Int.fmod_add_fdiv_mul a g.block
  unfold blockBase offset
  omega

/-- The lines take turns at the blocks, and the tag counts the rounds. -/
theorem tagOf_eq (pos : g.Positive) (a : Int) : g.tagOf a = (a.fdiv g.block).fdiv g.lines := by
  have hb := Int.le_of_lt pos.block
  have hl := Int.le_of_lt pos.lines
  unfold tagOf
  rw [Int.fdiv_eq_ediv_of_nonneg _ hb, Int.fdiv_eq_ediv_of_nonneg _ hl,
    Int.fdiv_eq_ediv_of_nonneg _ (Int.mul_nonneg hb hl), Int.ediv_ediv_of_nonneg hb]

theorem tag_line_blockBase (pos : g.Positive) (a : Int) :
    (g.tagOf a * g.lines + g.lineOf a) * g.block = g.blockBase a := by
  have hq := Int.fmod_add_fdiv_mul (a.fdiv g.block) g.lines
  have hnumber : g.tagOf a * g.lines + g.lineOf a = a.fdiv g.block := by
    rw [tagOf_eq pos]
    unfold lineOf
    omega
  rw [hnumber]
  rfl

theorem blockBase_eq_iff (pos : g.Positive) {a b : Int} :
    g.blockBase a = g.blockBase b ↔ g.tagOf a = g.tagOf b ∧ g.lineOf a = g.lineOf b := by
  constructor
  · intro h
    have hq : a.fdiv g.block = b.fdiv g.block :=
      Int.eq_of_mul_eq_mul_right (Int.ne_of_gt pos.block) h
    rw [tagOf_eq pos, tagOf_eq pos]
    unfold lineOf
    rw [hq]
    exact ⟨rfl, rfl⟩
  · rintro ⟨htag, hline⟩
    rw [← tag_line_blockBase pos, ← tag_line_blockBase pos, htag, hline]

theorem eq_of_blockBase_offset {a b : Int} (hb : g.blockBase a = g.blockBase b)
    (ho : g.offset a = g.offset b) : a = b := by
  rw [← blockBase_add_offset g a, ← blockBase_add_offset g b, hb, ho]

theorem parts_of_address (pos : g.Positive) (t : Int) {i o : Int} (hi0 : 0 ≤ i)
    (hi : i < g.lines) (ho0 : 0 ≤ o) (ho : o < g.block) :
    g.tagOf ((t * g.lines + i) * g.block + o) = t ∧
      g.lineOf ((t * g.lines + i) * g.block + o) = i ∧
      g.offset ((t * g.lines + i) * g.block + o) = o := by
  have hb := Int.ne_of_gt pos.block
  have hl := Int.ne_of_gt pos.lines
  have hq : ((t * g.lines + i) * g.block + o).fdiv g.block = t * g.lines + i := by
    rw [Int.add_comm, Int.add_mul_fdiv_right _ _ hb, Int.fdiv_eq_zero_of_lt ho0 ho, Int.zero_add]
  refine ⟨?_, ?_, ?_⟩
  · rw [tagOf_eq pos, hq, Int.add_comm, Int.add_mul_fdiv_right _ _ hl,
      Int.fdiv_eq_zero_of_lt hi0 hi, Int.zero_add]
  · unfold lineOf
    rw [hq, Int.add_comm, Int.add_mul_fmod_self_right, Int.fmod_eq_of_lt hi0 hi]
  · unfold offset
    rw [Int.add_comm, Int.add_mul_fmod_self_right, Int.fmod_eq_of_lt ho0 ho]

def baseAt (g : Geometry) (t i : Int) : Int := (t * g.lines + i) * g.block

theorem baseAt_eq_blockBase_iff (pos : g.Positive) {t i a : Int} (hi0 : 0 ≤ i) (hi : i < g.lines) :
    g.baseAt t i = g.blockBase a ↔ t = g.tagOf a ∧ i = g.lineOf a := by
  constructor
  · intro h
    obtain ⟨htag, hline, -⟩ := parts_of_address pos t hi0 hi (Int.le_refl 0) pos.block
    obtain ⟨htag', hline', -⟩ := parts_of_address pos (g.tagOf a) (lineOf_nonneg pos a)
      (lineOf_lt pos a) (Int.le_refl 0) pos.block
    have hsame : (t * g.lines + i) * g.block = (g.tagOf a * g.lines + g.lineOf a) * g.block :=
      h.trans (tag_line_blockBase pos a).symm
    rw [hsame] at htag hline
    exact ⟨htag.symm.trans htag', hline.symm.trans hline'⟩
  · rintro ⟨rfl, rfl⟩
    exact tag_line_blockBase pos a

theorem lineOf_le (pos : g.Positive) {a : Int} (h : 0 ≤ a) : g.lineOf a ≤ a := by
  have hb := Int.le_of_lt pos.block
  have hl := Int.le_of_lt pos.lines
  have hq := Int.ediv_nonneg h hb
  have hle := Int.ediv_le_self g.block h
  have hparts := Int.emod_add_mul_ediv (a / g.block) g.lines
  have hrest := Int.mul_nonneg hl (Int.ediv_nonneg hq hl)
  unfold lineOf
  rw [Int.fdiv_eq_ediv_of_nonneg _ hb, Int.fmod_eq_emod_of_nonneg _ hl]
  omega

theorem blockBase_nonneg (pos : g.Positive) {a : Int} (h : 0 ≤ a) : 0 ≤ g.blockBase a := by
  have hb := Int.le_of_lt pos.block
  unfold blockBase
  rw [Int.fdiv_eq_ediv_of_nonneg _ hb]
  exact Int.mul_nonneg (Int.ediv_nonneg h hb) hb

theorem blockBase_le (pos : g.Positive) (a : Int) : g.blockBase a ≤ a := by
  have h0 := offset_nonneg pos a
  have h := blockBase_add_offset g a
  omega

end Geometry

namespace Cache

variable {c : Cache}

theorem split_eq (pos : c.geometry.Positive) (a : Int) :
    c.split a = .ok (c.geometry.lineOf a, c.geometry.tagOf a, c.geometry.offset a,
      c.geometry.blockBase a) := by
  unfold split
  exact if_pos pos.divides

theorem split_address (pos : c.geometry.Positive) (t : Int) {i o : Int} (hi0 : 0 ≤ i)
    (hi : i < c.geometry.lines) (ho0 : 0 ≤ o) (ho : o < c.geometry.block) :
    c.split ((t * c.geometry.lines + i) * c.geometry.block + o) =
      .ok (i, t, o, (t * c.geometry.lines + i) * c.geometry.block) := by
  obtain ⟨htag, hline, hoff⟩ := Geometry.parts_of_address pos t hi0 hi ho0 ho
  have hbase := Geometry.tag_line_blockBase pos
    ((t * c.geometry.lines + i) * c.geometry.block + o)
  rw [htag, hline] at hbase
  rw [split_eq pos, htag, hline, hoff, ← hbase]

/--
Every address, also below zero, splits into a line of the cache, a tag and a place in the block,
and these make it again; every such three are the parts of the address that they make. So it is the
same for two addresses to have one tag and one line as to have one block start.
-/
theorem addresses_split_uniquely (c : Cache) (pos : c.geometry.Positive) :
    let g := c.geometry
    (∀ a, c.split a = .ok (g.lineOf a, g.tagOf a, g.offset a, g.blockBase a) ∧
      (0 ≤ g.lineOf a ∧ g.lineOf a < g.lines) ∧ (0 ≤ g.offset a ∧ g.offset a < g.block) ∧
      g.blockBase a + g.offset a = a ∧
      (g.tagOf a * g.lines + g.lineOf a) * g.block + g.offset a = a) ∧
    (∀ t i o, 0 ≤ i → i < g.lines → 0 ≤ o → o < g.block →
      c.split ((t * g.lines + i) * g.block + o) = .ok (i, t, o, (t * g.lines + i) * g.block)) ∧
    ∀ a b, (g.tagOf a = g.tagOf b ∧ g.lineOf a = g.lineOf b) ↔ g.blockBase a = g.blockBase b := by
  intro g
  refine ⟨fun a => ?_, fun t i o hi0 hi ho0 ho => split_address pos t hi0 hi ho0 ho,
    fun a b => (Geometry.blockBase_eq_iff pos).symm⟩
  have hwhole := Geometry.blockBase_add_offset g a
  refine ⟨split_eq pos a, ⟨Geometry.lineOf_nonneg pos a, Geometry.lineOf_lt pos a⟩,
    ⟨Geometry.offset_nonneg pos a, Geometry.offset_lt pos a⟩, hwhole, ?_⟩
  rw [Geometry.tag_line_blockBase pos, hwhole]

theorem addresses_split_uniquely_belowZero :
    let c := Cache.cold "L1" ⟨3, 5⟩
    c.geometry.Positive ∧ c.split (-7) = .ok (1, -1, 3, -10) := by
  have pos : (Cache.cold "L1" ⟨3, 5⟩).geometry.Positive := ⟨by decide, by decide⟩
  obtain ⟨-, made, -⟩ := addresses_split_uniquely (Cache.cold "L1" ⟨3, 5⟩) pos
  have h := made (-1) 1 3 (by decide) (by decide) (by decide) (by decide)
  exact ⟨pos, by simpa [cold] using h⟩

end Cache

end AccMachine
