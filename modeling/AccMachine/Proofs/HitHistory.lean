import AccMachine.Proofs.SharedMemory

namespace AccMachine

structure Visit where
  address : Int
  stores : Bool

namespace Visit

def event (v : Visit) (g : Geometry) (hit : Bool) : CacheEvent :=
  match v.stores, hit with
  | false, true => .hit v.address (g.lineOf v.address)
  | false, false => .miss v.address (g.lineOf v.address) (g.blockBase v.address)
  | true, true => .writeHit v.address (g.lineOf v.address)
  | true, false => .writeMiss v.address (g.lineOf v.address)

def status (v : Visit) (hit : Bool) : CacheStatus :=
  match v.stores, hit with
  | false, true => .hit
  | false, false => .miss
  | true, true => .writeHit
  | true, false => .writeMiss

theorem address_mem_numbers (v : Visit) (g : Geometry) (hit : Bool) :
    v.address ∈ (v.event g hit).numbers := by
  obtain ⟨a, stores⟩ := v
  cases stores <;> cases hit <;> simp [event, CacheEvent.numbers]

end Visit

theorem Numeral.not_writable_writeLimit : ¬Numeral.Writable Numeral.writeLimit := by
  unfold Numeral.Writable
  rw [Int.natAbs_natCast]
  exact Nat.lt_irrefl _

namespace Geometry

/--
Whether the latest of the earlier addresses with the line of an address has its block, too; the
latest address stands first.
-/
def revisits (g : Geometry) (earlier : List Int) (a : Int) : Bool :=
  (earlier.find? fun b => g.lineOf b == g.lineOf a).any fun b => g.blockBase b == g.blockBase a

/--
The addresses of the visits that left their block in the cache. A visit whose event has a number too
long to be written faults before it does.
-/
def recorded (g : Geometry) : List Visit → List Int
  | [] => []
  | v :: earlier =>
    if (v.event g (g.revisits (g.recorded earlier) v.address)).Writable then
      v.address :: g.recorded earlier
    else g.recorded earlier

def hitsOf (g : Geometry) : List Visit → Nat
  | [] => 0
  | v :: earlier =>
    g.hitsOf earlier + if g.revisits (g.recorded earlier) v.address then 1 else 0

def revisitCount (g : Geometry) : List Int → Nat
  | [] => 0
  | a :: earlier => g.revisitCount earlier + if g.revisits earlier a then 1 else 0

def Tellable (g : Geometry) (a : Int) : Prop :=
  (CacheEvent.miss a (g.lineOf a) (g.blockBase a)).Writable

variable {g : Geometry}

@[simp] theorem revisits_nil (g : Geometry) (a : Int) : g.revisits [] a = false := rfl

theorem revisits_cons (g : Geometry) (b : Int) (earlier : List Int) (a : Int) :
    g.revisits (b :: earlier) a =
      if g.lineOf b = g.lineOf a then g.blockBase b == g.blockBase a
      else g.revisits earlier a := by
  by_cases h : g.lineOf b = g.lineOf a <;> simp [revisits, h]

@[simp] theorem revisits_self (g : Geometry) (a : Int) (earlier : List Int) :
    g.revisits (a :: earlier) a = true := by
  simp [revisits_cons]

theorem Tellable.event_writable {v : Visit} (h : g.Tellable v.address) (hit : Bool) :
    (v.event g hit).Writable := by
  obtain ⟨a, stores⟩ := v
  have hparts : ∀ n ∈ [a, g.lineOf a], n ∈ [a, g.lineOf a, g.blockBase a] := by simp
  intro n hn
  cases stores with
  | false =>
    cases hit with
    | false => exact h n hn
    | true => exact h n (hparts n hn)
  | true =>
    cases hit with
    | false => exact h n (hparts n hn)
    | true => exact h n (hparts n hn)

theorem recorded_of_tellable {past : List Visit} (h : ∀ v ∈ past, g.Tellable v.address) :
    g.recorded past = past.map Visit.address := by
  induction past with
  | nil => rfl
  | cons v earlier ih =>
    have hv : g.Tellable v.address := h v (by simp)
    have hrest := ih fun w hw => h w (by simp [hw])
    rw [recorded, if_pos (hv.event_writable _), hrest, List.map_cons]

theorem hitsOf_of_tellable {past : List Visit} (h : ∀ v ∈ past, g.Tellable v.address) :
    g.hitsOf past = g.revisitCount (past.map Visit.address) := by
  induction past with
  | nil => rfl
  | cons v earlier ih =>
    have hearlier : ∀ w ∈ earlier, g.Tellable w.address := fun w hw => h w (by simp [hw])
    rw [hitsOf, ih hearlier, recorded_of_tellable hearlier]
    rfl

theorem recorded_eq_nil {past : List Visit} (h : ∀ v ∈ past, ¬Numeral.Writable v.address) :
    g.recorded past = [] := by
  induction past with
  | nil => rfl
  | cons v earlier ih =>
    have hearlier := ih fun w hw => h w (by simp [hw])
    rw [recorded, if_neg fun w => h v (by simp) (w _ (v.address_mem_numbers g _)), hearlier]

theorem hitsOf_eq_zero {past : List Visit} (h : ∀ v ∈ past, ¬Numeral.Writable v.address) :
    g.hitsOf past = 0 := by
  induction past with
  | nil => rfl
  | cons v earlier ih =>
    have hearlier : ∀ w ∈ earlier, ¬Numeral.Writable w.address := fun w hw => h w (by simp [hw])
    rw [hitsOf, ih hearlier, recorded_eq_nil hearlier]
    rfl

end Geometry

namespace Cache

variable {c d : Cache} {g : Geometry} {past : List Visit}

structure Counted (c d : Cache) (v : Visit) (hit : Bool) : Prop where
  hits : d.hits = c.hits + if hit then 1 else 0
  misses : d.misses = c.misses + if hit then 0 else 1
  status : d.status = v.status hit

theorem counted_ite (c : Cache) (v : Visit) (hit : Bool) :
    c.Counted
      (if hit then { c with hits := c.hits + 1, status := v.status true }
      else { c with misses := c.misses + 1, status := v.status false }) v hit := by
  cases hit with
  | false => exact ⟨rfl, rfl, rfl⟩
  | true => exact ⟨rfl, rfl, rfl⟩

theorem counted_countRead (c : Cache) (p : Nat) (a : Int) :
    c.Counted (c.countRead p a) ⟨a, false⟩ (c.holdsAt p a) :=
  counted_ite c ⟨a, false⟩ (c.holdsAt p a)

theorem counted_countWrite (c : Cache) (p : Nat) (a : Int) :
    c.Counted (c.countWrite p a) ⟨a, true⟩ (c.holdsAt p a) :=
  counted_ite c ⟨a, true⟩ (c.holdsAt p a)

theorem Counted.total {v : Visit} {hit : Bool} (h : c.Counted d v hit) :
    d.hits + d.misses = c.hits + c.misses + 1 := by
  rw [h.hits, h.misses]
  cases hit <;> simp <;> omega

section
variable {v : Visit} {hit : Bool}

theorem Counted.record (h : c.Counted d v hit) (event : CacheEvent) :
    c.Counted (d.record event) v hit :=
  ⟨h.hits, h.misses, h.status⟩

theorem Counted.bringIn (h : c.Counted d v hit) (m : Memory) (p : Nat) (a : Int) :
    c.Counted (d.bringIn m p a) v hit := by
  unfold Cache.bringIn
  split
  · exact h
  · exact ⟨h.hits, h.misses, h.status⟩

theorem Counted.stored (h : c.Counted d v hit) (a : Int) (w : Word) :
    c.Counted (d.stored a w) v hit :=
  ⟨h.hits, h.misses, h.status⟩

end

theorem Counted.afterRead {a : Int} {hit : Bool}
    (h : c.Counted (c.countRead (c.place a) a) ⟨a, false⟩ hit) (m : Memory) :
    c.Counted (c.afterRead m a) ⟨a, false⟩ hit :=
  (h.record _).bringIn m _ a

theorem Counted.afterWrite {a : Int} {hit : Bool}
    (h : c.Counted (c.countWrite (c.place a) a) ⟨a, true⟩ hit) (m : Memory) (v : Word) :
    c.Counted (c.afterWrite m a v) ⟨a, true⟩ hit :=
  (((h.record _).bringIn m _ a).stored a v).record _

theorem Shaped.readEvent_eq (h : c.Shaped) (a : Int) :
    c.readEvent (c.place a) a = Visit.event ⟨a, false⟩ c.geometry (c.held? a).isSome := by
  unfold readEvent
  rw [h.holdsAt_eq]
  cases (c.held? a).isSome <;> rfl

theorem Shaped.writeEvent_eq (h : c.Shaped) (a : Int) :
    c.writeEvent (c.place a) a = Visit.event ⟨a, true⟩ c.geometry (c.held? a).isSome := by
  unfold writeEvent
  rw [h.holdsAt_eq]
  cases (c.held? a).isSome <;> rfl

/-- A cache holds the blocks that its past visits left there, and has counted them all. -/
structure Tracks (c : Cache) (g : Geometry) (past : List Visit) : Prop where
  shaped : c.Shaped
  geometry : c.geometry = g
  held : ∀ a, (c.held? a).isSome = g.revisits (g.recorded past) a
  hits : c.hits = g.hitsOf past
  total : c.hits + c.misses = past.length

theorem tracks_cold (name : String) (pos : g.Positive) : (Cache.cold name g).Tracks g [] := by
  exact ⟨Shaped.cold name pos, rfl, fun a => by simp [Geometry.recorded], rfl, rfl⟩

theorem Tracks.holdsAt_eq (h : c.Tracks g past) (a : Int) :
    c.holdsAt (c.place a) a = g.revisits (g.recorded past) a :=
  (h.shaped.holdsAt_eq a).trans (h.held a)

theorem Tracks.readEvent_eq (h : c.Tracks g past) (a : Int) :
    c.readEvent (c.place a) a = Visit.event ⟨a, false⟩ g (g.revisits (g.recorded past) a) := by
  rw [h.shaped.readEvent_eq, h.held, h.geometry]

theorem Tracks.writeEvent_eq (h : c.Tracks g past) (a : Int) :
    c.writeEvent (c.place a) a = Visit.event ⟨a, true⟩ g (g.revisits (g.recorded past) a) := by
  rw [h.shaped.writeEvent_eq, h.held, h.geometry]

/-- After an access the block that it went to is the latest one in its line. -/
theorem Tracks.isSome_heldAfter? (h : c.Tracks g past) (m : Memory) (a b : Int) :
    (c.heldAfter? m a b).isSome = g.revisits (a :: g.recorded past) b := by
  have hiff := Geometry.blockBase_eq_iff h.shaped.positive (a := b) (b := a)
  unfold heldAfter?
  rw [h.geometry] at hiff ⊢
  rw [g.revisits_cons]
  by_cases hbase : g.blockBase b = g.blockBase a
  · rw [if_pos hbase, if_pos (hiff.mp hbase).2.symm, hbase]
    simp
  · rw [if_neg hbase]
    by_cases hline : g.lineOf b = g.lineOf a
    · rw [if_pos hline, if_pos hline.symm]
      simp [Ne.symm hbase]
    · rw [if_neg hline, if_neg (Ne.symm hline)]
      exact h.held b

theorem Tracks.recorded (h : c.Tracks g past) {v : Visit}
    (w : (v.event g (g.revisits (g.recorded past) v.address)).Writable) (shaped : d.Shaped)
    (geometry : d.geometry = c.geometry)
    (counted : c.Counted d v (g.revisits (g.recorded past) v.address))
    (held : ∀ b, (d.held? b).isSome = g.revisits (v.address :: g.recorded past) b) :
    d.Tracks g (v :: past) := by
  refine ⟨shaped, geometry.trans h.geometry, fun b => ?_, ?_, ?_⟩
  · rw [held, Geometry.recorded, if_pos w]
  · rw [counted.hits, h.hits]
    rfl
  · rw [counted.total, h.total]
    rfl

/-- A visit that could not be recorded is counted, and leaves the lines as they were. -/
theorem Tracks.unrecorded (h : c.Tracks g past) {v : Visit}
    (w : ¬(v.event g (g.revisits (g.recorded past) v.address)).Writable)
    (geometry : d.geometry = c.geometry) (lines : d.lines = c.lines)
    (counted : c.Counted d v (g.revisits (g.recorded past) v.address)) :
    d.Tracks g (v :: past) := by
  refine ⟨h.shaped.congr geometry lines, geometry.trans h.geometry, fun b => ?_, ?_, ?_⟩
  · rw [held?_congr_all geometry lines, h.held, Geometry.recorded, if_neg w]
  · rw [counted.hits, h.hits]
    rfl
  · rw [counted.total, h.total]
    rfl

theorem Tracks.flush (h : c.Tracks g past) : c.flush.Tracks g past :=
  ⟨h.shaped.congr rfl rfl, h.geometry, fun a => (congrArg Option.isSome
    (held?_congr_all rfl rfl a)).trans (h.held a), h.hits, h.total⟩

end Cache

def Access.visit? {ι : Type} [DecidableEq ι] (cache : ι) : Access ι → Option Visit
  | .read c a => if c = cache then some ⟨a, false⟩ else none
  | .write c a _ => if c = cache then some ⟨a, true⟩ else none
  | .flush _ => none
  | .set _ _ => none
  | .load _ => none
  | .clear => none

theorem Access.eq_of_visit? {ι : Type} [DecidableEq ι] {x : Access ι} {c : ι} {v : Visit}
    (h : x.visit? c = some v) :
    (∃ a, x = .read c a ∧ v = ⟨a, false⟩) ∨ ∃ a word, x = .write c a word ∧ v = ⟨a, true⟩ := by
  cases x with
  | read d a =>
    simp only [visit?, Option.ite_none_right_eq_some, Option.some.injEq] at h
    obtain ⟨rfl, rfl⟩ := h
    exact .inl ⟨a, rfl, rfl⟩
  | write d a word =>
    simp only [visit?, Option.ite_none_right_eq_some, Option.some.injEq] at h
    obtain ⟨rfl, rfl⟩ := h
    exact .inr ⟨a, word, rfl, rfl⟩
  | flush d => cases h
  | set a word => cases h
  | load image => cases h
  | clear => cases h

namespace SharedMemory

variable {ι : Type} [DecidableEq ι] {s : SharedMemory ι} {accesses : Nat → Access ι}

def visits (accesses : Nat → Access ι) (cache : ι) : Nat → List Visit
  | 0 => []
  | n + 1 => ((accesses n).visit? cache).toList ++ visits accesses cache n

theorem tracks_visit (h : s.Shaped) {x : Access ι} {c : ι} {g : Geometry} {past : List Visit}
    {v : Visit} (hv : x.visit? c = some v) (tracks : (s.caches c).Tracks g past) :
    ((s.perform x).2.caches c).Tracks g (v :: past) ∧
      (s.caches c).Counted ((s.perform x).2.caches c) v
        (g.revisits (g.recorded past) v.address) ∧
      ((s.perform x).1 = .error .badValue ↔
        ¬(v.event g (g.revisits (g.recorded past) v.address)).Writable) := by
  rcases Access.eq_of_visit? hv with ⟨a, rfl, rfl⟩ | ⟨a, word, rfl, rfl⟩
  · have hcount := Cache.counted_countRead (s.caches c) ((s.caches c).place a) a
    rw [tracks.holdsAt_eq] at hcount
    have hevent := tracks.readEvent_eq a
    by_cases w : ((s.caches c).readEvent ((s.caches c).place a) a).Writable
    · rw [h.perform_read w]
      rw [hevent] at w
      simp only [Function.update_self]
      refine ⟨tracks.recorded w ((h c).afterRead _ a) (by simp) (hcount.afterRead _) fun b => ?_,
        hcount.afterRead _, by simp [w]⟩
      rw [(h c).held?_afterRead]
      exact tracks.isSome_heldAfter? _ a b
    · rw [h.perform_read_fault w]
      rw [hevent] at w
      simp only [Function.update_self]
      exact ⟨tracks.unrecorded w (by simp) (by simp) hcount, hcount, by simp [w]⟩
  · have hcount := Cache.counted_countWrite (s.caches c) ((s.caches c).place a) a
    rw [tracks.holdsAt_eq] at hcount
    have hevent := tracks.writeEvent_eq a
    by_cases w : ((s.caches c).writeEvent ((s.caches c).place a) a).Writable
    · rw [h.perform_write word w]
      rw [hevent] at w
      simp only [Function.update_self]
      refine ⟨tracks.recorded w ((h c).afterWrite _ a _) (by simp) (hcount.afterWrite _ _)
        fun b => ?_, hcount.afterWrite _ _, by simp [w]⟩
      rw [(h c).held?_afterWrite, ← tracks.isSome_heldAfter? s.memory a b]
      split
      next hb => simp [hb]
      next => rfl
    · rw [h.perform_write_fault word w]
      rw [hevent] at w
      simp only [Function.update_self]
      exact ⟨tracks.unrecorded w (by simp) (by simp) hcount, hcount, by simp [w]⟩

theorem cache_of_no_visit {x : Access ι} {c : ι} (hv : x.visit? c = none) (hf : x ≠ .flush c) :
    (s.perform x).2.caches c = s.caches c := by
  cases x with
  | read d a =>
    have hd : c ≠ d := by
      rintro rfl
      simp [Access.visit?] at hv
    simp only [perform, Function.update_of_ne hd]
  | write d a word =>
    have hd : c ≠ d := by
      rintro rfl
      simp [Access.visit?] at hv
    simp only [perform, Function.update_of_ne hd]
  | flush d =>
    have hd : c ≠ d := by
      rintro rfl
      exact hf rfl
    simp only [perform, Function.update_of_ne hd]
  | set a word => rfl
  | load image => rfl
  | clear => rfl

theorem tracks_of_no_visit {x : Access ι} {c : ι} {g : Geometry} {past : List Visit}
    (hv : x.visit? c = none) (tracks : (s.caches c).Tracks g past) :
    ((s.perform x).2.caches c).Tracks g past := by
  by_cases hf : x = .flush c
  · subst hf
    simp only [perform, Function.update_self]
    exact tracks.flush
  · rw [cache_of_no_visit hv hf]
    exact tracks

theorem tracks_moment (h : s.Shaped) {c : ι} {g : Geometry} (start : (s.caches c).Tracks g [])
    (n : Nat) : ((s.moment accesses n).caches c).Tracks g (visits accesses c n) := by
  induction n with
  | zero => exact start
  | succ n ih =>
    unfold visits
    cases hv : (accesses n).visit? c with
    | none => exact tracks_of_no_visit hv ih
    | some v => exact (tracks_visit (h.moment accesses n) hv ih).1

/--
An access through a cache is a hit if and only if the latest access before it in the same line, of
those that were recorded, went to the same block. So the counters depend on the kinds and the
addresses of the accesses alone, and where all addresses can be written on the addresses alone.
-/
theorem hits_follow_latest_block (memory : Memory) (name : ι → String) (geometry : ι → Geometry)
    (positive : ∀ c, (geometry c).Positive) (accesses : Nat → Access ι) (c : ι) :
    let s := start memory name geometry
    let g := geometry c
    let cache := fun n => (s.moment accesses n).caches c
    let past := visits accesses c
    (∀ n v, (accesses n).visit? c = some v →
      (cache n).Counted (cache (n + 1)) v (g.revisits (g.recorded (past n)) v.address) ∧
        (s.result accesses n = .error .badValue ↔
          ¬(v.event g (g.revisits (g.recorded (past n)) v.address)).Writable)) ∧
    (∀ n, (cache n).hits = g.hitsOf (past n) ∧
      (cache n).hits + (cache n).misses = (past n).length) ∧
    (∀ n, (∀ v ∈ past n, g.Tellable v.address) →
      g.recorded (past n) = (past n).map Visit.address ∧
        (cache n).hits = g.revisitCount ((past n).map Visit.address)) := by
  intro s g cache past
  have h : s.Shaped := start_shaped memory name positive
  have tracks : ∀ n, (cache n).Tracks g (past n) := fun n =>
    tracks_moment h (Cache.tracks_cold (name c) (positive c)) n
  refine ⟨?_, ?_, ?_⟩
  · intro n v hv
    obtain ⟨-, counted, fault⟩ := tracks_visit (h.moment accesses n) hv (tracks n)
    exact ⟨counted, fault⟩
  · intro n
    exact ⟨(tracks n).hits, (tracks n).total⟩
  · intro n tellable
    refine ⟨Geometry.recorded_of_tellable tellable, ?_⟩
    rw [(tracks n).hits, Geometry.hitsOf_of_tellable tellable]

def oneCache : SharedMemory Unit :=
  start (Memory.zeros 8) (fun _ => "L1") fun _ => Geometry.standard

def sharedLine : Nat → Access Unit
  | 0 => .read () (-4)
  | 1 => .write () (-1) 7
  | 2 => .read () 28
  | _ => .read () (-3)

theorem sharedLine_small : ∀ v ∈ visits sharedLine () 4,
    ∀ n ∈ [v.address, Geometry.standard.lineOf v.address, Geometry.standard.blockBase v.address],
      n.natAbs < 65536 := by
  decide

theorem hits_follow_latest_block_sharedLine :
    (∀ _ : Unit, Geometry.standard.Positive) ∧
      (∀ v ∈ visits sharedLine () 4, Geometry.standard.Tellable v.address) ∧
      ((oneCache.moment sharedLine 4).caches ()).hits = 1 := by
  have tellable : ∀ v ∈ visits sharedLine () 4, Geometry.standard.Tellable v.address :=
    fun v hv n hn => Numeral.writable_of_natAbs_lt (sharedLine_small v hv n hn)
  obtain ⟨-, -, law⟩ := hits_follow_latest_block (Memory.zeros 8) (fun _ => "L1")
    (fun _ => Geometry.standard) (fun _ => Geometry.standard_positive) sharedLine ()
  obtain ⟨-, hits⟩ := law 4 tellable
  have hstart : start (Memory.zeros 8) (fun _ => "L1") (fun _ => Geometry.standard) = oneCache :=
    rfl
  rw [hstart] at hits
  have count : Geometry.standard.revisitCount ((visits sharedLine () 4).map Visit.address) = 1 := by
    decide
  exact ⟨fun _ => Geometry.standard_positive, tellable, hits.trans count⟩

def beyondWriting : Nat → Access Unit := fun _ => .read () Numeral.writeLimit

theorem address_of_mem_visits_beyondWriting {n : Nat} {v : Visit}
    (h : v ∈ visits beyondWriting () n) : v.address = Numeral.writeLimit := by
  induction n with
  | zero => cases h
  | succ n ih =>
    rcases List.mem_cons.mp h with rfl | h
    · rfl
    · exact ih h

/-- The second read of a block finds it missing: the first one faulted before it took it in. -/
theorem hits_follow_latest_block_beyondWriting :
    Geometry.standard.revisits ((visits beyondWriting () 1).map Visit.address)
        Numeral.writeLimit ∧
      oneCache.result beyondWriting 0 = .error .badValue ∧
      ((oneCache.moment beyondWriting 2).caches ()).hits = 0 ∧
      ((oneCache.moment beyondWriting 2).caches ()).misses = 2 ∧
      ((oneCache.moment beyondWriting 2).caches ()).status = .miss := by
  have h : oneCache.Shaped := start_shaped _ _ fun _ => Geometry.standard_positive
  have cold : (oneCache.caches ()).Tracks Geometry.standard [] :=
    Cache.tracks_cold "L1" Geometry.standard_positive
  have tracks : ∀ n, ((oneCache.moment beyondWriting n).caches ()).Tracks Geometry.standard
      (visits beyondWriting () n) := fun n => tracks_moment h cold n
  have beyond : ∀ n, ∀ v ∈ visits beyondWriting () n, ¬Numeral.Writable v.address := by
    intro n v hv
    rw [address_of_mem_visits_beyondWriting hv]
    exact Numeral.not_writable_writeLimit
  have hvisit : ∀ n, (beyondWriting n).visit? () = some ⟨Numeral.writeLimit, false⟩ :=
    fun _ => rfl
  obtain ⟨-, -, fault⟩ := tracks_visit h (hvisit 0) cold
  obtain ⟨-, counted, -⟩ := tracks_visit (h.moment beyondWriting 1) (hvisit 1) (tracks 1)
  have hits : ((oneCache.moment beyondWriting 2).caches ()).hits = 0 :=
    (tracks 2).hits.trans (Geometry.hitsOf_eq_zero (beyond 2))
  have misses : ((oneCache.moment beyondWriting 2).caches ()).misses = 2 := by
    have total := (tracks 2).total
    rw [hits, Nat.zero_add] at total
    exact total
  have hlast : oneCache.moment beyondWriting 2 =
      ((oneCache.moment beyondWriting 1).perform (beyondWriting 1)).2 := rfl
  have status : ((oneCache.moment beyondWriting 2).caches ()).status = .miss := by
    rw [hlast, counted.status, Geometry.recorded_eq_nil (beyond 1), Geometry.revisits_nil]
    rfl
  refine ⟨Geometry.revisits_self .., fault.mpr ?_, hits, misses, status⟩
  exact fun w => Numeral.not_writable_writeLimit (w _ (Visit.address_mem_numbers _ _ _))

end SharedMemory

end AccMachine
