import AccMachine.Proofs.SharedMemory

namespace AccMachine

def putFlat (size a v : Int) (flat : Int → Int) : Int → Int :=
  fun x => if x = a ∧ 0 ≤ a ∧ a < size then v % 65536 else flat x

def loadFlat (size : Int) (image : Array Int) (flat : Int → Int) : Int → Int :=
  fun x =>
    if 0 ≤ x ∧ x < size then
      match image[x.toNat]? with
      | some n => n % 65536
      | none => flat x
    else flat x

/--
What an access makes of a flat memory. An address with too many digits to be written cannot be
recorded by a cache, which faults before it writes.
-/
def Access.onFlat {ι : Type} (size : Int) (flat : Int → Int) : Access ι → Int → Int
  | .write _ a v => if Numeral.Writable a then putFlat size a v flat else flat
  | .set a v => putFlat size a v flat
  | .load image => loadFlat size image flat
  | .clear => fun _ => 0
  | .read _ _ => flat
  | .flush _ => flat

/-- Whether an access leaves memory to one cache. -/
def Access.LeavesTo {ι : Type} (cache : ι) : Access ι → Prop
  | .write c _ _ => c = cache
  | .set _ _ => False
  | .load _ => False
  | .clear => False
  | .read _ _ => True
  | .flush _ => True

def flatMoment {ι : Type} (memory : Memory) (accesses : Nat → Access ι) : Nat → Int → Int
  | 0 => fun x => (memory.get x).toNat
  | n + 1 => (accesses n).onFlat memory.size (flatMoment memory accesses n)

namespace SharedMemory

variable {ι : Type} [DecidableEq ι] {s : SharedMemory ι} {accesses : Nat → Access ι}

theorem get_set_flat {m : Memory} {flat : Int → Int} (agree : ∀ x, ((m.get x).toNat : Int) = flat x)
    (a v x : Int) : (((m.set a (Word.ofInt v)).get x).toNat : Int) = putFlat m.size a v flat x := by
  rw [Memory.get_set]
  unfold putFlat Memory.InRange
  split <;> simp [agree x]

theorem get_load_flat {m : Memory} {flat : Int → Int}
    (agree : ∀ x, ((m.get x).toNat : Int) = flat x) (image : Array Int) (x : Int) :
    (((m.load image).get x).toNat : Int) = loadFlat m.size image flat x := by
  unfold loadFlat
  split
  next hin =>
    rw [Memory.get_load m image x hin]
    cases image[x.toNat]? with
    | some n => simp
    | none => exact agree x
  next hout =>
    rw [← agree x, Memory.get_of_not_inRange (m := m) hout,
      Memory.get_of_not_inRange (m := m.load image) hout]

theorem size_perform (h : s.Shaped) (x : Access ι) :
    (s.perform x).2.memory.size = s.memory.size := by
  cases x with
  | read c a => rfl
  | write c a v =>
    by_cases w : ((s.caches c).writeEvent ((s.caches c).place a) a).Writable
    · simp [h.perform_write v w]
    · rw [h.perform_write_fault v w]
  | flush c => rfl
  | set a v => simp [perform]
  | load image => rfl
  | clear => rfl

/-- Memory after an access is the flat memory after it. -/
theorem get_perform (h : s.Shaped) (x : Access ι) {flat : Int → Int}
    (agree : ∀ b, ((s.memory.get b).toNat : Int) = flat b) (b : Int) :
    (((s.perform x).2.memory.get b).toNat : Int) = x.onFlat s.memory.size flat b := by
  cases x with
  | read c a => exact agree b
  | write c a v =>
    simp only [Access.onFlat]
    by_cases w : ((s.caches c).writeEvent ((s.caches c).place a) a).Writable
    · rw [h.perform_write v w, if_pos (Cache.writable_of_writeEvent w)]
      exact get_set_flat agree a v b
    · rw [h.perform_write_fault v w]
      split
      next wa =>
        unfold putFlat
        rw [if_neg]
        · exact agree b
        · rintro ⟨-, h0, -⟩
          exact w (Cache.writeEvent_writable (h c).positive h0 wa _)
      next => exact agree b
  | flush c => exact agree b
  | set a v => exact get_set_flat agree a v b
  | load image => exact get_load_flat agree image b
  | clear => simp [perform, Memory.clear, Access.onFlat]

theorem size_moment (h : s.Shaped) (n : Nat) :
    (s.moment accesses n).memory.size = s.memory.size := by
  induction n with
  | zero => rfl
  | succ n ih => exact (size_perform (h.moment accesses n) (accesses n)).trans ih

theorem inRange_moment (h : s.Shaped) (n : Nat) {a : Int} (hin : s.memory.InRange a) :
    (s.moment accesses n).memory.InRange a := by
  unfold Memory.InRange
  rw [size_moment h n]
  exact hin

theorem get_moment (h : s.Shaped) (n : Nat) (a : Int) :
    (((s.moment accesses n).memory.get a).toNat : Int) = flatMoment s.memory accesses n a := by
  induction n generalizing a with
  | zero => rfl
  | succ n ih =>
    have hstep := get_perform (h.moment accesses n) (accesses n) ih a
    rw [size_moment h n] at hstep
    exact hstep

theorem get_perform_of_leavesTo (h : s.Shaped) {x : Access ι} {c : ι} {a : Int}
    (hx : x.LeavesTo c) (hne : ∀ v, x ≠ .write c a v) :
    (s.perform x).2.memory.get a = s.memory.get a := by
  cases x with
  | read d b => rfl
  | write d b v =>
    obtain rfl : d = c := hx
    have hab : a ≠ b := fun hab => hne v (by rw [hab])
    by_cases wr : ((s.caches d).writeEvent ((s.caches d).place b) b).Writable
    · simp [h.perform_write v wr, hab]
    · rw [h.perform_write_fault v wr]
  | flush d => rfl
  | set b v => exact absurd hx id
  | load image => exact absurd hx id
  | clear => exact absurd hx id

end SharedMemory

end AccMachine
