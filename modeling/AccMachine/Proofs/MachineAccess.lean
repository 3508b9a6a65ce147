import AccMachine.Proofs.BareMachine
import AccMachine.Proofs.CacheAccess

namespace AccMachine

def CacheEvent.store? : CacheEvent → Option (Int × Word)
  | .writeThrough a v => some (a, v)
  | _ => none

def storesOf (history : List CacheEvent) : List (Int × Word) :=
  (history.filterMap CacheEvent.store?).reverse

@[simp] theorem storesOf_nil : storesOf [] = [] := rfl

@[simp] theorem storesOf_cons (e : CacheEvent) (history : List CacheEvent) :
    storesOf (e :: history) = storesOf history ++ e.store?.toList := by
  cases h : e.store? <;> simp [storesOf, h]

@[simp] theorem storesOf_append (later earlier : List CacheEvent) :
    storesOf (later ++ earlier) = storesOf earlier ++ storesOf later := by
  simp [storesOf]

@[simp] theorem store?_writeThrough (a : Int) (v : Word) :
    (CacheEvent.writeThrough a v).store? = some (a, v) := rfl

@[simp] theorem store?_readEvent (c : Cache) (p : Nat) (a : Int) :
    (c.readEvent p a).store? = none := by
  unfold Cache.readEvent
  split <;> rfl

@[simp] theorem store?_writeEvent (c : Cache) (p : Nat) (a : Int) :
    (c.writeEvent p a).store? = none := by
  unfold Cache.writeEvent
  split <;> rfl

def Memory.setAll (m : Memory) (stores : List (Int × Word)) : Memory :=
  stores.foldl (fun m s => m.set s.1 s.2) m

@[simp] theorem Memory.setAll_nil (m : Memory) : m.setAll [] = m := rfl

@[simp] theorem Memory.setAll_cons (m : Memory) (s : Int × Word) (stores : List (Int × Word)) :
    m.setAll (s :: stores) = (m.set s.1 s.2).setAll stores := rfl

@[simp] theorem Memory.setAll_append (m : Memory) (first second : List (Int × Word)) :
    m.setAll (first ++ second) = (m.setAll first).setAll second :=
  List.foldl_append

@[simp] theorem Memory.size_setAll (m : Memory) (stores : List (Int × Word)) :
    (m.setAll stores).size = m.size := by
  induction stores generalizing m with
  | nil => rfl
  | cons s stores ih => simp [ih]

namespace Machine

@[simp] theorem reg_put (m : Machine) (r q : Register) (v : Word) :
    (m.put r v).reg q = if q = r then v else m.reg q :=
  Registers.get_set m.registers r q v

@[simp] theorem memory_put (m : Machine) (r : Register) (v : Word) :
    (m.put r v).memory = m.memory := rfl

@[simp] theorem memory_note (m : Machine) (t : TraceLine) : (m.note t).memory = m.memory := rfl

theorem address_lt (a : Word) : address a < 65536 := by
  have := a.isLt
  unfold address
  omega

theorem address_nonneg (a : Word) : 0 ≤ address a := Int.natCast_nonneg _

theorem writable_address (a : Word) : Numeral.Writable (address a) :=
  Numeral.writable_of_lt (address_nonneg a) (address_lt a)

/-- Both caches have their shape; what they hold may differ from memory. -/
structure Shaped (m : Machine) : Prop where
  code : m.codeCache.Shaped
  data : m.dataCache.Shaped

/-- Both caches have the standard shape, and the data cache agrees with memory. -/
structure Sound (m : Machine) : Prop where
  code : m.codeCache.Shaped
  codeGeometry : m.codeCache.geometry = Geometry.standard
  data : m.dataCache.Shaped
  dataGeometry : m.dataCache.geometry = Geometry.standard
  coherent : m.dataCache.Mirrors m.memory

variable {m m' m'' : Machine}

theorem Sound.shaped (h : m.Sound) : m.Shaped := ⟨h.code, h.data⟩

theorem sound_fresh (size : Int) : (fresh size).Sound :=
  ⟨.cold _ Geometry.standard_positive, rfl, .cold _ Geometry.standard_positive, rfl,
    .cold _ _ _⟩

theorem sound_load (m : Machine) (image : Array Int) : (m.load image).Sound :=
  ⟨.cold _ Geometry.standard_positive, rfl, .cold _ Geometry.standard_positive, rfl,
    .cold _ _ _⟩

def dataAt (m : Machine) (a : Word) : Word :=
  if m.memory.InRange (address a) then
    (m.dataCache.held? (address a)).getD (m.memory.get (address a))
  else 0

def afterLoad (m : Machine) (a : Word) : Machine :=
  if m.memory.InRange (address a) then
    { m.put .mar a with
      dataCache := m.dataCache.afterRead m.memory (address a) }.put .mbr (m.dataAt a)
  else m

def loaded (m : Machine) (a : Word) : Machine :=
  if m.memory.InRange (address a) then
    { m.put .mar a with
      dataCache := m.dataCache.afterRead m.memory (address a) }.put .mbr (m.memory.get (address a))
  else m

def stored (m : Machine) (a v : Word) : Machine :=
  if m.memory.InRange (address a) then
    { (m.put .mar a).put .mbr v with
      dataCache := m.dataCache.afterWrite m.memory (address a) v
      memory := m.memory.set (address a) v }
  else m

theorem Shaped.loadWord_eq (h : m.Shaped) (a : Word) :
    m.loadWord a = .ok (m.dataAt a, m.afterLoad a) := by
  unfold loadWord afterLoad dataAt
  split
  next =>
    have hread := h.data.read_eq m.memory
      (Cache.readEvent_writable h.data.positive (address_nonneg a) (writable_address a) _)
    have hput : (m.put .mar a).dataCache.read (m.put .mar a).memory (address a) =
        m.dataCache.read m.memory (address a) := rfl
    dsimp only
    rw [hput, hread]
  next => rfl

theorem Shaped.storeWord_eq (h : m.Shaped) (a v : Word) :
    m.storeWord a v = .ok (m.stored a v) := by
  unfold storeWord stored
  split
  next =>
    have hwrite := h.data.write_eq m.memory v
      (Cache.writeEvent_writable h.data.positive (address_nonneg a) (writable_address a) _)
    have hput : ((m.put .mar a).put .mbr v).dataCache.write ((m.put .mar a).put .mbr v).memory
        (address a) v = m.dataCache.write m.memory (address a) v := rfl
    dsimp only
    rw [hput, hwrite]
  next => rfl

theorem Sound.dataAt_eq (h : m.Sound) (a : Word) : m.dataAt a = m.memory.get (address a) := by
  unfold dataAt
  split
  next => exact h.coherent.getD_eq (address a)
  next hout => rw [Memory.get_of_not_inRange hout]

theorem Sound.loadWord_eq (h : m.Sound) (a : Word) :
    m.loadWord a = .ok (m.memory.get (address a), m.loaded a) := by
  rw [h.shaped.loadWord_eq, afterLoad, h.dataAt_eq]
  rfl

theorem Sound.storeWord_eq (h : m.Sound) (a v : Word) :
    m.storeWord a v = .ok (m.stored a v) := h.shaped.storeWord_eq a v

/--
What an instruction can do behind its fetch: soundness stays, the code cache holds what it held,
and memory takes the writes that the data cache records.
-/
structure Follows (m m' : Machine) : Prop where
  sound : m.Sound → m'.Sound
  codeGeometry : m'.codeCache.geometry = m.codeCache.geometry
  codeLines : m'.codeCache.lines = m.codeCache.lines
  stores : ∃ events, m'.dataCache.history = events ++ m.dataCache.history ∧
    m'.memory = m.memory.setAll (storesOf events)

theorem Follows.refl (m : Machine) : m.Follows m := ⟨id, rfl, rfl, [], rfl, rfl⟩

theorem Follows.trans (f : m.Follows m') (g : m'.Follows m'') : m.Follows m'' := by
  obtain ⟨first, hfirst, mfirst⟩ := f.stores
  obtain ⟨second, hsecond, msecond⟩ := g.stores
  refine ⟨g.sound ∘ f.sound, g.codeGeometry.trans f.codeGeometry, g.codeLines.trans f.codeLines,
    second ++ first, ?_, ?_⟩
  · rw [hsecond, hfirst, List.append_assoc]
  · simp [msecond, mfirst]

theorem Sound.congr (h : m.Sound) (hcode : m'.codeCache = m.codeCache)
    (hdata : m'.dataCache = m.dataCache) (hmem : m'.memory = m.memory) : m'.Sound := by
  obtain ⟨code, codeGeometry, data, dataGeometry, coherent⟩ := h
  rw [← hcode] at code codeGeometry
  rw [← hdata] at data dataGeometry coherent
  rw [← hmem] at coherent
  exact ⟨code, codeGeometry, data, dataGeometry, coherent⟩

theorem Follows.congr (hcode : m'.codeCache = m.codeCache) (hdata : m'.dataCache = m.dataCache)
    (hmem : m'.memory = m.memory) : m.Follows m' := by
  refine ⟨fun h => h.congr hcode hdata hmem, by rw [hcode], by rw [hcode], [], ?_, hmem⟩
  rw [hdata, List.nil_append]

theorem Follows.put (f : m.Follows m') (r : Register) (v : Word) : m.Follows (m'.put r v) :=
  f.trans (.congr rfl rfl rfl)

theorem Follows.note (f : m.Follows m') (t : TraceLine) : m.Follows (m'.note t) :=
  f.trans (.congr rfl rfl rfl)

theorem sound_loaded (h : m.Sound) (a : Word) : (m.loaded a).Sound := by
  unfold loaded
  split
  · exact ⟨h.code, h.codeGeometry, h.data.afterRead m.memory _,
      (Cache.geometry_afterRead ..).trans h.dataGeometry, h.coherent.afterRead h.data _⟩
  · exact h

theorem sound_stored (h : m.Sound) (a v : Word) : (m.stored a v).Sound := by
  unfold stored
  split
  next hin =>
    exact ⟨h.code, h.codeGeometry, h.data.afterWrite m.memory _ v,
      by simpa using h.dataGeometry,
      h.coherent.afterWrite h.data hin v⟩
  next => exact h

theorem Follows.loaded (f : m.Follows m') (a : Word) : m.Follows (m'.loaded a) := by
  refine f.trans ⟨fun h => sound_loaded h a, ?_, ?_, ?_⟩
  · unfold Machine.loaded
    split <;> rfl
  · unfold Machine.loaded
    split <;> rfl
  · unfold Machine.loaded
    split
    · exact ⟨[_], Cache.history_afterRead _ _ _, by simp⟩
    · exact ⟨[], rfl, rfl⟩

theorem Follows.stored (f : m.Follows m') (a v : Word) : m.Follows (m'.stored a v) := by
  refine f.trans ⟨fun h => sound_stored h a v, ?_, ?_, ?_⟩
  · unfold Machine.stored
    split <;> rfl
  · unfold Machine.stored
    split <;> rfl
  · unfold Machine.stored
    split
    · exact ⟨[_, _], Cache.history_afterWrite _ _ _ _, by simp⟩
    · exact ⟨[], rfl, rfl⟩

end Machine

end AccMachine
