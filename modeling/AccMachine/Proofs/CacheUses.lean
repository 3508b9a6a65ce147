import AccMachine.Proofs.HitHistory
import Mathlib.Data.List.Forall2

namespace AccMachine

inductive CacheUse
  | read (a : Int)
  | write (a : Int) (v : Word)
  | flush
deriving DecidableEq

namespace CacheUse

def isAccess : CacheUse → Bool
  | .flush => false
  | _ => true

def Within (m : Memory) : CacheUse → Prop
  | .read a => m.InRange a
  | .write a _ => m.InRange a
  | .flush => True

instance (m : Memory) (u : CacheUse) : Decidable (u.Within m) :=
  match u with
  | .read a => inferInstanceAs (Decidable (m.InRange a))
  | .write a _ => inferInstanceAs (Decidable (m.InRange a))
  | .flush => isTrue trivial

def eventCount : CacheUse → Nat
  | .read _ => 1
  | .write _ _ => 2
  | .flush => 1

def eventTotal : List CacheUse → Nat
  | [] => 0
  | u :: uses => u.eventCount + eventTotal uses

/-- The events that a use leaves, in their order: whether it hit, and what it wrote through. -/
def Tells : CacheUse → List CacheEvent → Prop
  | .read a, events => ∃ line start, events = [.hit a line] ∨ events = [.miss a line start]
  | .write a v, events => ∃ line,
      events = [.writeHit a line, .writeThrough a v] ∨
        events = [.writeMiss a line, .writeThrough a v]
  | .flush, events => events = [.flush]

theorem Tells.length_eq {u : CacheUse} {events : List CacheEvent} (h : u.Tells events) :
    events.length = u.eventCount := by
  cases u with
  | read a =>
    obtain ⟨line, start, rfl | rfl⟩ := h
    · rfl
    · rfl
  | write a v =>
    obtain ⟨line, rfl | rfl⟩ := h
    · rfl
    · rfl
  | flush =>
    obtain rfl : events = [.flush] := h
    rfl

theorem length_flatten_of_tells {uses : List CacheUse} {blocks : List (List CacheEvent)}
    (h : List.Forall₂ Tells uses blocks) : blocks.flatten.length = eventTotal uses := by
  induction h with
  | nil => rfl
  | cons hone _ ih => rw [List.flatten_cons, List.length_append, hone.length_eq, ih, eventTotal]

end CacheUse

namespace Cache

def use (c : Cache) (m : Memory) : CacheUse → Except Fault (Cache × Memory)
  | .read a =>
    match c.read m a with
    | (.error f, _) => .error f
    | (.ok _, c) => .ok (c, m)
  | .write a v =>
    match c.write m a v with
    | (.error f, _, _) => .error f
    | (.ok _, c, m) => .ok (c, m)
  | .flush => .ok (c.flush, m)

def useAll (c : Cache) (m : Memory) (uses : List CacheUse) : Except Fault (Cache × Memory) :=
  uses.foldlM (fun s u => s.1.use s.2 u) (c, m)

variable {c c' c'' : Cache} {m m' m'' : Memory} {uses uses' : List CacheUse}

theorem useAll_append (first : c.useAll m uses = .ok (c', m'))
    (second : c'.useAll m' uses' = .ok (c'', m'')) :
    c.useAll m (uses ++ uses') = .ok (c'', m'') := by
  unfold useAll at first second ⊢
  rw [List.foldlM_append, first]
  exact second

/-- A use outside of the memory is left out. -/
theorem useAll_within {u : CacheUse} (inside : u.Within m → c.use m u = .ok (c', m'))
    (outside : ¬u.Within m → c' = c ∧ m' = m) :
    c.useAll m ([u].filter (·.Within m)) = .ok (c', m') := by
  by_cases hin : u.Within m
  · rw [List.filter_cons_of_pos (by simpa using hin)]
    change (do let s ← c.use m u; _) = _
    rw [inside hin]
    rfl
  · obtain ⟨rfl, rfl⟩ := outside hin
    rw [List.filter_cons_of_neg (by simpa using hin)]
    rfl

/-- What uses of a cache add to its counters and to its events: each use its own block of events. -/
structure Grows (c : Cache) (uses : List CacheUse) (c' : Cache) : Prop where
  hits : c.hits ≤ c'.hits
  misses : c.misses ≤ c'.misses
  total : c'.hits + c'.misses = c.hits + c.misses + uses.countP CacheUse.isAccess
  told : ∃ blocks, List.Forall₂ CacheUse.Tells uses blocks ∧
    c'.events = c.events ++ blocks.flatten

theorem Grows.refl (c : Cache) : c.Grows [] c :=
  ⟨Nat.le_refl _, Nat.le_refl _, rfl, [], .nil, (List.append_nil _).symm⟩

theorem Grows.trans (first : c.Grows uses c') (second : c'.Grows uses' c'') :
    c.Grows (uses ++ uses') c'' := by
  obtain ⟨blocks, htells, hevents⟩ := first.told
  obtain ⟨blocks', htells', hevents'⟩ := second.told
  refine ⟨Nat.le_trans first.hits second.hits, Nat.le_trans first.misses second.misses, ?_,
    blocks ++ blocks', List.rel_append htells htells', ?_⟩
  · rw [second.total, first.total, List.countP_append, Nat.add_assoc]
  · rw [hevents', hevents, List.flatten_append, List.append_assoc]

theorem Grows.of_counted {v : Visit} {hit : Bool} {u : CacheUse} (h : c.Counted c' v hit)
    (access : u.isAccess) {events : List CacheEvent} (tells : u.Tells events)
    (history : c'.history = events.reverse ++ c.history) : c.Grows [u] c' := by
  refine ⟨?_, ?_, ?_, [events], .cons tells .nil, ?_⟩
  · rw [h.hits]
    exact Nat.le_add_right _ _
  · rw [h.misses]
    exact Nat.le_add_right _ _
  · rw [h.total, List.countP_singleton, if_pos access]
  · unfold Cache.events
    rw [history, List.reverse_append, List.reverse_reverse, List.flatten_singleton]

theorem tells_readEvent (c : Cache) (p : Nat) (a : Int) :
    CacheUse.Tells (.read a) [c.readEvent p a] := by
  refine ⟨c.geometry.lineOf a, c.geometry.blockBase a, ?_⟩
  unfold readEvent
  split
  · exact .inl rfl
  · exact .inr rfl

theorem tells_writeEvent (c : Cache) (p : Nat) (a : Int) (v : Word) :
    CacheUse.Tells (.write a v) [c.writeEvent p a, .writeThrough a v] := by
  refine ⟨c.geometry.lineOf a, ?_⟩
  unfold writeEvent
  split
  · exact .inl rfl
  · exact .inr rfl

theorem grows_afterRead (c : Cache) (m : Memory) (a : Int) :
    c.Grows [.read a] (c.afterRead m a) :=
  .of_counted ((counted_countRead c (c.place a) a).afterRead m) rfl
    (tells_readEvent c (c.place a) a) (history_afterRead c m a)

theorem grows_afterWrite (c : Cache) (m : Memory) (a : Int) (v : Word) :
    c.Grows [.write a v] (c.afterWrite m a v) :=
  .of_counted ((counted_countWrite c (c.place a) a).afterWrite m v) rfl
    (tells_writeEvent c (c.place a) a v) (history_afterWrite c m a v)

theorem grows_flush (c : Cache) : c.Grows [.flush] c.flush := by
  refine ⟨Nat.le_refl _, Nat.le_refl _, rfl, [[.flush]], .cons rfl .nil, ?_⟩
  exact List.reverse_cons

theorem Shaped.grows_use (h : c.Shaped) {u : CacheUse} (hu : c.use m u = .ok (c', m')) :
    c.Grows [u] c' ∧ c'.Shaped := by
  cases u with
  | read a =>
    unfold use at hu
    dsimp only at hu
    by_cases w : (c.readEvent (c.place a) a).Writable
    · rw [h.read_eq m w] at hu
      cases hu
      exact ⟨grows_afterRead c m a, h.afterRead m a⟩
    · rw [h.read_eq_of_not_writable m w] at hu
      cases hu
  | write a v =>
    unfold use at hu
    dsimp only at hu
    by_cases w : (c.writeEvent (c.place a) a).Writable
    · rw [h.write_eq m v w] at hu
      cases hu
      exact ⟨grows_afterWrite c m a v, h.afterWrite m a v⟩
    · rw [h.write_eq_of_not_writable m v w] at hu
      cases hu
  | flush =>
    cases hu
    exact ⟨grows_flush c, h.congr rfl rfl⟩

theorem Shaped.grows_useAll (h : c.Shaped) (hall : c.useAll m uses = .ok (c', m')) :
    c.Grows uses c' ∧ c'.Shaped := by
  induction uses generalizing c m with
  | nil =>
    cases hall
    exact ⟨.refl _, h⟩
  | cons u uses ih =>
    unfold useAll at hall
    rw [List.foldlM_cons] at hall
    cases hu : c.use m u with
    | error f =>
      rw [hu] at hall
      cases hall
    | ok next =>
      rw [hu] at hall
      obtain ⟨hone, hshaped⟩ := h.grows_use hu
      obtain ⟨hrest, hshaped'⟩ := ih hshaped hall
      exact ⟨hone.trans hrest, hshaped'⟩

theorem Grows.events_prefix (h : c.Grows uses c') : c.events <+: c'.events := by
  obtain ⟨blocks, -, hevents⟩ := h.told
  exact ⟨blocks.flatten, hevents.symm⟩

theorem Grows.length_events (h : c.Grows uses c') :
    c'.events.length = c.events.length + CacheUse.eventTotal uses := by
  obtain ⟨blocks, htells, hevents⟩ := h.told
  rw [hevents, List.length_append, CacheUse.length_flatten_of_tells htells]

end Cache

end AccMachine
