import AccMachine.Proofs.FlatMemory

namespace AccMachine

namespace SharedMemory

variable {ι : Type} [DecidableEq ι] {s : SharedMemory ι} {accesses : Nat → Access ι}

def TakesIn (s : SharedMemory ι) (cache : ι) (a : Int) (x : Access ι) : Prop :=
  (s.caches cache).wouldHit a = .ok false ∧ ((s.perform x).2.caches cache).wouldHit a = .ok true

/-- Whether an access takes the block of an address into a cache, or writes there through it. -/
def Refreshes (s : SharedMemory ι) (cache : ι) (a : Int) (x : Access ι) : Prop :=
  s.TakesIn cache a x ∨ ∃ v, x = .write cache a v

theorem takesIn_of_held (h : s.Shaped) {c : ι} {a : Int} {x : Access ι}
    (before : (s.caches c).held? a = none)
    (after : (((s.perform x).2.caches c).held? a).isSome) : s.TakesIn c a x := by
  refine ⟨?_, ?_⟩
  · rw [(h c).wouldHit_eq, before]
    rfl
  · rw [(h.afterAccess x c).wouldHit_eq, after]

theorem not_takesIn_of_held (h : s.Shaped) {c : ι} {a : Int} {x : Access ι}
    (before : ((s.caches c).held? a).isSome) : ¬s.TakesIn c a x := by
  rintro ⟨miss, -⟩
  rw [(h c).wouldHit_eq, before] at miss
  cases miss

theorem held_before_or_fetched (h : s.Shaped) {x : Access ι} {c : ι} {a : Int} {w : Word}
    (hx : ∀ v, x ≠ .write c a v) (hw : ((s.perform x).2.caches c).held? a = some w) :
    (s.caches c).held? a = some w ∨
      (s.caches c).held? a = none ∧ w = (s.perform x).2.memory.get a := by
  cases x with
  | read d b =>
    by_cases hd : c = d
    · subst hd
      by_cases wr : ((s.caches c).readEvent ((s.caches c).place b) b).Writable
      · rw [h.perform_read wr] at hw ⊢
        simp only [Function.update_self] at hw
        exact (h c).held?_of_afterRead hw
      · rw [h.perform_read_fault wr] at hw
        exact .inl (by simpa using hw)
    · simp only [perform, Function.update_of_ne hd] at hw
      exact .inl hw
  | write d b v =>
    by_cases hd : c = d
    · subst hd
      have hne : a ≠ b := fun hab => hx v (by rw [hab])
      by_cases wr : ((s.caches c).writeEvent ((s.caches c).place b) b).Writable
      · rw [h.perform_write v wr] at hw ⊢
        simp only [Function.update_self] at hw
        simpa [hne] using (h c).held?_of_afterWrite hne hw
      · rw [h.perform_write_fault v wr] at hw
        exact .inl (by simpa using hw)
    · simp only [perform, Function.update_of_ne hd] at hw
      exact .inl hw
  | flush d =>
    by_cases hd : c = d
    · subst hd
      simp only [perform, Function.update_self] at hw
      exact .inl hw
    · simp only [perform, Function.update_of_ne hd] at hw
      exact .inl hw
  | set b v => exact .inl hw
  | load image => exact .inl hw
  | clear => exact .inl hw

theorem held_after_write (h : s.Shaped) {c : ι} {a : Int} (v : Int) (hin : s.memory.InRange a)
    (wa : Numeral.Writable a) :
    ((s.perform (.write c a v)).2.caches c).held? a =
      some ((s.perform (.write c a v)).2.memory.get a) := by
  have wr := Cache.writeEvent_writable (h c).positive hin.1 wa ((s.caches c).place a)
  simp [h.perform_write v wr, (h c).held?_afterWrite, hin]

/-- What a word that is held after an access owes to it: all, or nothing. -/
theorem refreshed_or_kept (h : s.Shaped) (x : Access ι) {c : ι} {a : Int} {w : Word}
    (hin : s.memory.InRange a) (wa : Numeral.Writable a)
    (hw : ((s.perform x).2.caches c).held? a = some w) :
    s.Refreshes c a x ∧ w = (s.perform x).2.memory.get a ∨
      ¬s.Refreshes c a x ∧ (s.caches c).held? a = some w := by
  by_cases hx : ∃ v, x = .write c a v
  · obtain ⟨v, rfl⟩ := hx
    rw [held_after_write h v hin wa] at hw
    exact .inl ⟨.inr ⟨v, rfl⟩, (Option.some.inj hw).symm⟩
  · rcases held_before_or_fetched h (fun v hv => hx ⟨v, hv⟩) hw with kept | ⟨miss, fetched⟩
    · refine .inr ⟨?_, kept⟩
      rintro (taken | written)
      · exact not_takesIn_of_held h (by rw [kept]; rfl) taken
      · exact hx written
    · exact .inl ⟨.inl (takesIn_of_held h miss (by rw [hw]; rfl)), fetched⟩

/-- The last access before a moment that refreshed an address, and memory right after it. -/
structure LastRefresh (s : SharedMemory ι) (accesses : Nat → Access ι) (c : ι) (a : Int)
    (j n : Nat) : Prop where
  before : j < n
  refreshes : (s.moment accesses j).Refreshes c a (accesses j)
  last : ∀ i, j < i → i < n → ¬(s.moment accesses i).Refreshes c a (accesses i)

theorem LastRefresh.next {c : ι} {a : Int} {j n : Nat} (h : LastRefresh s accesses c a j n)
    (hn : ¬(s.moment accesses n).Refreshes c a (accesses n)) :
    LastRefresh s accesses c a j (n + 1) := by
  refine ⟨by have := h.before; omega, h.refreshes, ?_⟩
  intro i hji hin
  by_cases hi : i = n
  · subst hi
    exact hn
  · exact h.last i hji (by omega)

/-- A word that is held is the one that memory had after the last refresh. -/
theorem held_eq_last_refresh (h : s.Shaped) (cold : ∀ c a, (s.caches c).held? a = none)
    {c : ι} {a : Int} (hin : s.memory.InRange a) (wa : Numeral.Writable a) (n : Nat) {w : Word}
    (hw : ((s.moment accesses n).caches c).held? a = some w) :
    ∃ j, LastRefresh s accesses c a j n ∧ w = (s.moment accesses (j + 1)).memory.get a := by
  -- Going back from the moment, each access either refreshed the word or left it as it was.
  induction n with
  | zero =>
    have hc := cold c a
    change (s.caches c).held? a = some w at hw
    rw [hc] at hw
    cases hw
  | succ n ih =>
    rcases refreshed_or_kept (h.moment accesses n) (accesses n) (inRange_moment h n hin) wa hw with
      ⟨fresh, hword⟩ | ⟨stale, kept⟩
    · exact ⟨n, ⟨by omega, fresh, fun i _ _ => by omega⟩, hword⟩
    · obtain ⟨j, hj, hword⟩ := ih kept
      exact ⟨j, hj.next stale, hword⟩

theorem result_read (h : s.Shaped) (cold : ∀ c a, (s.caches c).held? a = none) {n : Nat} {c : ι}
    {a : Int} (hn : accesses n = .read c a) (hin : s.memory.InRange a) (wa : Numeral.Writable a) :
    ∃ j, LastRefresh s accesses c a j (n + 1) ∧
      s.result accesses n = .ok (some ((s.moment accesses (j + 1)).memory.get a)) := by
  have hs := h.moment accesses n
  have wr := Cache.readEvent_writable (hs c).positive hin.1 wa
    (((s.moment accesses n).caches c).place a)
  have hresult : s.result accesses n = .ok (some
      ((((s.moment accesses n).caches c).held? a).getD ((s.moment accesses n).memory.get a))) := by
    unfold result
    rw [hn, hs.perform_read wr]
  cases hheld : ((s.moment accesses n).caches c).held? a with
  | some w =>
    obtain ⟨j, hj, hword⟩ := held_eq_last_refresh h cold hin wa n hheld
    refine ⟨j, hj.next ?_, by rw [hresult, hheld, hword]; rfl⟩
    rintro (taken | ⟨v, written⟩)
    · exact not_takesIn_of_held hs (by rw [hheld]; rfl) taken
    · rw [hn] at written
      cases written
  | none =>
    have hafter : ((s.moment accesses n).perform (accesses n)).2 =
        ⟨(s.moment accesses n).memory, Function.update (s.moment accesses n).caches c
          (((s.moment accesses n).caches c).afterRead (s.moment accesses n).memory a)⟩ := by
      rw [hn, hs.perform_read wr]
    refine ⟨n, ⟨by omega, .inl (takesIn_of_held hs hheld ?_), fun i _ _ => by omega⟩, ?_⟩
    · simp [hafter, (hs c).held?_afterRead]
    · rw [hresult, hheld]
      change _ = Except.ok (some (((s.moment accesses n).perform (accesses n)).2.memory.get a))
      rw [hafter]
      rfl

theorem result_read_fault (h : s.Shaped) {n : Nat} {c : ι} {a : Int}
    (hn : accesses n = .read c a) (wa : ¬Numeral.Writable a) :
    s.result accesses n = .error .badValue := by
  unfold result
  rw [hn, (h.moment accesses n).perform_read_fault fun w => wa (Cache.writable_of_readEvent w)]

/-- Between refreshes the memory that is left to one cache does not change. -/
theorem LastRefresh.get_eq (h : s.Shaped) {c : ι} {a : Int} {j n k : Nat}
    (hj : LastRefresh s accesses c a j n) (alone : ∀ i < n, (accesses i).LeavesTo c)
    (hjk : j + 1 ≤ k) (hkn : k ≤ n) :
    (s.moment accesses k).memory.get a = (s.moment accesses (j + 1)).memory.get a := by
  induction hjk with
  | refl => rfl
  | @step k hjk ih =>
    have hjk : j + 1 ≤ k := hjk
    have hquiet := hj.last k (by omega) (by omega)
    have hstep := get_perform_of_leavesTo (h.moment accesses k) (alone k (by omega)) (a := a)
      fun v hv => hquiet (.inr ⟨v, hv⟩)
    exact hstep.trans (ih (by omega))

/--
Memory is what the writes alone make of a flat memory. A read of an address of the memory gives the
word that memory had when the cache last took in the block or was last written there, which is the
present one if no other cache and nothing behind the cache writes. No memory that can be built
reaches the addresses that cannot be written down; a read of one faults.
-/
theorem reads_follow_last_refresh (memory : Memory) (name : ι → String) (geometry : ι → Geometry)
    (positive : ∀ c, (geometry c).Positive) (accesses : Nat → Access ι) :
    let s := start memory name geometry
    (∀ n, (s.moment accesses n).memory.size = memory.size ∧
      ∀ a, (((s.moment accesses n).memory.get a).toNat : Int) = flatMoment memory accesses n a) ∧
    (∀ n c a, accesses n = .read c a → memory.InRange a → Numeral.Writable a →
      ∃ j, LastRefresh s accesses c a j (n + 1) ∧
        s.result accesses n = .ok (some ((s.moment accesses (j + 1)).memory.get a))) ∧
    (∀ n c a, accesses n = .read c a → memory.InRange a → Numeral.Writable a →
      (∀ i < n, (accesses i).LeavesTo c) →
        s.result accesses n = .ok (some ((s.moment accesses n).memory.get a))) ∧
    (∀ n c a, accesses n = .read c a → ¬Numeral.Writable a →
      s.result accesses n = .error .badValue) := by
  intro s
  have h : s.Shaped := start_shaped memory name positive
  have cold : ∀ c a, (s.caches c).held? a = none := fun c a => Cache.held?_cold _ _ a
  refine ⟨fun n => ⟨size_moment h n, fun a => get_moment h n a⟩, ?_, ?_, ?_⟩
  · intro n c a hn hin wa
    exact result_read h cold hn hin wa
  · intro n c a hn hin wa alone
    obtain ⟨j, hj, hresult⟩ := result_read h cold hn hin wa
    have hread : (accesses n).LeavesTo c := by rw [hn]; trivial
    have all : ∀ i < n + 1, (accesses i).LeavesTo c := by
      intro i hi
      by_cases he : i = n
      · exact he ▸ hread
      · exact alone i (by omega)
    have hnow := hj.get_eq h all hj.before (Nat.le_refl (n + 1))
    have hkeep : (s.moment accesses (n + 1)).memory.get a = (s.moment accesses n).memory.get a :=
      get_perform_of_leavesTo (h.moment accesses n) hread fun v hv => by rw [hn] at hv; cases hv
    rw [hresult, ← hnow, hkeep]
  · intro n c a hn wa
    exact result_read_fault h hn wa

def twoCaches : SharedMemory Bool :=
  start (Memory.zeros 8) (fun _ => "L1") fun _ => Geometry.standard

def readAround : Nat → Access Bool
  | 0 => .read true 3
  | 1 => .set 3 7
  | _ => .read true 3

theorem reads_follow_last_refresh_readAround :
    (∀ _ : Bool, Geometry.standard.Positive) ∧
      ∃ j, LastRefresh twoCaches readAround true 3 j 3 ∧
        twoCaches.result readAround 2 =
          .ok (some ((twoCaches.moment readAround (j + 1)).memory.get 3)) :=
  ⟨fun _ => Geometry.standard_positive,
    (reads_follow_last_refresh (Memory.zeros 8) (fun _ => "L1") (fun _ => Geometry.standard)
      (fun _ => Geometry.standard_positive) readAround).2.1 2 true 3 rfl ⟨by decide, by decide⟩
      (Numeral.writable_of_lt (by decide) (by decide))⟩

example :
    (twoCaches.result readAround 2).toOption = some (some 0) ∧
      (twoCaches.moment readAround 2).memory.get 3 = 7 := by
  decide +kernel

end SharedMemory

end AccMachine
