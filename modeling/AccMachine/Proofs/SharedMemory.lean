import AccMachine.Proofs.CacheAccess
import Mathlib.Logic.Function.Basic

namespace AccMachine

/-- One memory with a family of caches before it. -/
structure SharedMemory (ι : Type) where
  memory : Memory
  caches : ι → Cache

inductive Access (ι : Type)
  | read (cache : ι) (a : Int)
  | write (cache : ι) (a v : Int)
  | flush (cache : ι)
  | set (a v : Int)
  | load (image : Array Int)
  | clear

namespace SharedMemory

variable {ι : Type} [DecidableEq ι]

def start (memory : Memory) (name : ι → String) (geometry : ι → Geometry) : SharedMemory ι :=
  ⟨memory, fun c => Cache.cold (name c) (geometry c)⟩

def perform (s : SharedMemory ι) : Access ι → Except Fault (Option Word) × SharedMemory ι
  | .read c a =>
    let (result, cache) := (s.caches c).read s.memory a
    (result.map some, { s with caches := Function.update s.caches c cache })
  | .write c a v =>
    let (result, cache, memory) := (s.caches c).write s.memory a (Word.ofInt v)
    (result.map fun _ => none, ⟨memory, Function.update s.caches c cache⟩)
  | .flush c => (.ok none, { s with caches := Function.update s.caches c (s.caches c).flush })
  | .set a v => (.ok none, { s with memory := s.memory.set a (Word.ofInt v) })
  | .load image => (.ok none, { s with memory := s.memory.load image })
  | .clear => (.ok none, { s with memory := s.memory.clear })

def moment (s : SharedMemory ι) (accesses : Nat → Access ι) : Nat → SharedMemory ι
  | 0 => s
  | n + 1 => ((s.moment accesses n).perform (accesses n)).2

def result (s : SharedMemory ι) (accesses : Nat → Access ι) (n : Nat) :
    Except Fault (Option Word) :=
  ((s.moment accesses n).perform (accesses n)).1

def Shaped (s : SharedMemory ι) : Prop := ∀ c, (s.caches c).Shaped

variable {s : SharedMemory ι}

theorem Shaped.update (h : s.Shaped) {c : ι} {cache : Cache} (hc : cache.Shaped) (memory : Memory) :
    (⟨memory, Function.update s.caches c cache⟩ : SharedMemory ι).Shaped := by
  intro d
  by_cases hd : d = c
  · subst hd
    simpa using hc
  · simpa [Function.update_of_ne hd] using h d

theorem Shaped.perform_read (h : s.Shaped) {c : ι} {a : Int}
    (w : ((s.caches c).readEvent ((s.caches c).place a) a).Writable) :
    s.perform (.read c a) =
      (.ok (some (((s.caches c).held? a).getD (s.memory.get a))),
        ⟨s.memory, Function.update s.caches c ((s.caches c).afterRead s.memory a)⟩) := by
  simp only [perform, (h c).read_eq s.memory w, Except.map]

theorem Shaped.perform_read_fault (h : s.Shaped) {c : ι} {a : Int}
    (w : ¬((s.caches c).readEvent ((s.caches c).place a) a).Writable) :
    s.perform (.read c a) =
      (.error .badValue,
        ⟨s.memory, Function.update s.caches c
          ((s.caches c).countRead ((s.caches c).place a) a)⟩) := by
  simp only [perform, (h c).read_eq_of_not_writable s.memory w, Except.map]

theorem Shaped.perform_write (h : s.Shaped) {c : ι} {a : Int} (v : Int)
    (w : ((s.caches c).writeEvent ((s.caches c).place a) a).Writable) :
    s.perform (.write c a v) =
      (.ok none,
        ⟨s.memory.set a (Word.ofInt v),
          Function.update s.caches c ((s.caches c).afterWrite s.memory a (Word.ofInt v))⟩) := by
  simp only [perform, (h c).write_eq s.memory _ w, Except.map]

theorem Shaped.perform_write_fault (h : s.Shaped) {c : ι} {a : Int} (v : Int)
    (w : ¬((s.caches c).writeEvent ((s.caches c).place a) a).Writable) :
    s.perform (.write c a v) =
      (.error .badValue,
        ⟨s.memory, Function.update s.caches c
          ((s.caches c).countWrite ((s.caches c).place a) a)⟩) := by
  simp only [perform, (h c).write_eq_of_not_writable s.memory _ w, Except.map]

theorem Shaped.afterAccess (h : s.Shaped) (x : Access ι) : (s.perform x).2.Shaped := by
  cases x with
  | read c a =>
    by_cases w : ((s.caches c).readEvent ((s.caches c).place a) a).Writable
    · rw [h.perform_read w]
      exact h.update ((h c).afterRead s.memory a) s.memory
    · rw [h.perform_read_fault w]
      exact h.update ((h c).countRead _ a) s.memory
  | write c a v =>
    by_cases w : ((s.caches c).writeEvent ((s.caches c).place a) a).Writable
    · rw [h.perform_write v w]
      exact h.update ((h c).afterWrite s.memory a _) _
    · rw [h.perform_write_fault v w]
      exact h.update ((h c).countWrite _ a) s.memory
  | flush c =>
    have hc : (s.caches c).flush.Shaped := (h c).congr rfl rfl
    exact h.update hc s.memory
  | set a v => exact h
  | load image => exact h
  | clear => exact h

theorem Shaped.moment (h : s.Shaped) (accesses : Nat → Access ι) (n : Nat) :
    (s.moment accesses n).Shaped := by
  induction n with
  | zero => exact h
  | succ n ih => exact ih.afterAccess (accesses n)

omit [DecidableEq ι] in
theorem start_shaped (memory : Memory) (name : ι → String) {geometry : ι → Geometry}
    (positive : ∀ c, (geometry c).Positive) : (start memory name geometry).Shaped :=
  fun c => Cache.Shaped.cold (name c) (positive c)

end SharedMemory

end AccMachine
