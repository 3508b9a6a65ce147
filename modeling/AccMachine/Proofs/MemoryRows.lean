import AccMachine.Console
import AccMachine.Proofs.MachineAccess

namespace AccMachine

def MemoryRow.look (r : MemoryRow) : String × Background := (r.text, r.background.getD .plain)

/-- What shows the machine, without what tells how it came to be shown. -/
structure Panel where
  registers : List RegisterRow
  next : String
  cache : List CacheRow
  cacheStatus : String
  cycles : String
  memory : Array (String × Background)

namespace Display

def panel (d : Display) : Panel where
  registers := d.registers
  next := d.next
  cache := d.cache
  cacheStatus := d.cacheStatus
  cycles := d.cycles
  memory := d.memory.map MemoryRow.look

def lookAt (hex : Bool) (m : Machine) (i : Nat) : String × Background :=
  (memoryText hex m.memory i,
    if i = (m.reg .pc).toNat then .pc else if i = (m.reg .sp).toNat then .sp else .plain)

end Display

def Machine.panel (m : Machine) (hex : Bool) (choice : CacheChoice) : Panel where
  registers := Display.registerRows m
  next := Display.nextText m
  cache := Display.cacheRows hex (Display.chosenCache m choice)
  cacheStatus := Display.cacheStatusText m
  cycles := Display.cyclesText m
  memory := (Array.range m.memory.size.toNat).map (Display.lookAt hex m)

namespace Display

variable {hex : Bool} {m : Machine} {rows : Array MemoryRow}

theorem inRange_iff (m : Memory) (a : Word) :
    m.InRange (Machine.address a) ↔ a.toNat < m.size.toNat := by
  unfold Memory.InRange Machine.address
  omega

theorem backgroundAt_eq (m : Machine) (a : Word) :
    (memoryText hex m.memory a.toNat, backgroundAt m a) = lookAt hex m a.toNat := by
  unfold backgroundAt lookAt
  simp only [BitVec.toNat_inj]

@[simp] theorem size_redrawRow (hex : Bool) (m : Machine) (rows : Array MemoryRow) (a : Word) :
    (redrawRow hex m rows a).size = rows.size := by
  unfold redrawRow
  split
  · exact Array.size_setIfInBounds
  · rfl

/-- Drawing a row again makes it look as it has to, and leaves the other rows. -/
theorem look_redrawRow (hsize : rows.size = m.memory.size.toNat) (a : Word) (i : Nat) :
    (redrawRow hex m rows a)[i]?.map MemoryRow.look =
      if a.toNat = i ∧ i < rows.size then some (lookAt hex m i)
      else rows[i]?.map MemoryRow.look := by
  unfold redrawRow
  by_cases hin : m.memory.InRange (Machine.address a)
  · have hlt := (inRange_iff m.memory a).mp hin
    rw [if_pos hin, Array.getElem?_setIfInBounds]
    by_cases hi : a.toNat = i
    · subst hi
      rw [if_pos rfl, if_pos (by omega), if_pos ⟨rfl, by omega⟩, ← backgroundAt_eq]
      rfl
    · rw [if_neg hi, if_neg fun h => hi h.1]
  · have hlt := fun h => hin ((inRange_iff m.memory a).mpr h)
    rw [if_neg hin, if_neg fun h => hlt (by omega)]

/-- Where every row but some looks as it has to, the list does once these are drawn again. -/
theorem look_redrawAll (hsize : rows.size = m.memory.size.toNat) (addrs : List Word)
    (others : ∀ i < rows.size, (∀ a ∈ addrs, a.toNat ≠ i) →
      rows[i]?.map MemoryRow.look = some (lookAt hex m i)) :
    (addrs.foldl (redrawRow hex m) rows).map MemoryRow.look =
      (Array.range m.memory.size.toNat).map (lookAt hex m) := by
  induction addrs generalizing rows with
  | nil =>
    apply Array.ext_getElem?
    intro i
    simp only [List.foldl_nil, Array.getElem?_map]
    by_cases hi : i < rows.size
    · rw [others i hi (by simp), Array.getElem?_range, if_pos (by omega)]
      rfl
    · rw [Array.getElem?_eq_none (by omega), Array.getElem?_eq_none (by simp; omega)]
      rfl
  | cons a addrs ih =>
    have hsame := size_redrawRow hex m rows a
    refine ih (hsame.trans hsize) fun i hi hothers => ?_
    rw [look_redrawRow hsize]
    by_cases ha : a.toNat = i
    · rw [if_pos ⟨ha, by omega⟩]
    · rw [if_neg fun h => ha h.1]
      refine others i (by omega) fun b hb => ?_
      rcases List.mem_cons.mp hb with rfl | hb
      · exact ha
      · exact hothers b hb

@[simp] theorem size_unmarkedRows (hex : Bool) (m : Memory) :
    (unmarkedRows hex m).size = m.size.toNat := by
  unfold unmarkedRows
  rw [Array.size_map, Array.size_range]

theorem look_unmarkedRows (hex : Bool) (m : Memory) {i : Nat} (hi : i < m.size.toNat) :
    (unmarkedRows hex m)[i]?.map MemoryRow.look =
      some (memoryText hex m i, .plain) := by
  unfold unmarkedRows
  rw [Array.getElem?_map, Array.getElem?_range, if_pos hi]
  rfl

end Display

end AccMachine
