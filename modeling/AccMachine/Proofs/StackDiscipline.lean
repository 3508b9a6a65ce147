import AccMachine.Proofs.Brackets
import Mathlib.Tactic.Choose

namespace AccMachine

open Machine (address)

@[simp] theorem Word.sub_ofInt_zero (w : Word) : w - Word.ofInt 0 = w := BitVec.sub_zero w

@[simp] theorem Word.sub_ofInt_one (w : Word) : w - Word.ofInt 1 = w - 1 := rfl

@[simp] theorem Word.sub_ofInt_neg_one (w : Word) : w - Word.ofInt (-1) = w + 1 := by
  have hone : Word.ofInt (-1) = -1 := by decide
  rw [hone, BitVec.sub_neg]

theorem Machine.address_sub {w : Word} {δ : Int} (h0 : 0 ≤ address w - δ)
    (h1 : address w - δ < 65536) : address (w - Word.ofInt δ) = address w - δ := by
  have hw := w.isLt
  have hδ := Word.toNat_ofInt δ
  unfold address at *
  rw [BitVec.toNat_sub]
  omega

namespace BareMachine

variable {o : Operation} {x : Word} {δ : Int}

@[simp] theorem sp_push (m : BareMachine) (v : Word) : (m.push v).reg .sp = m.reg .sp - 1 := by
  simp [push, reg_write]

@[simp] theorem sp_branch (m : BareMachine) (o : Operation) (taken : Bool) (target : Word)
    (reason : String) : (m.branch o taken target reason).reg .sp = m.reg .sp := by
  unfold branch
  split <;> simp

theorem sp_perform (m : BareMachine) (h : o.stackMove? = some δ) (x : Word) :
    (m.perform o x).reg .sp = m.reg .sp - Word.ofInt δ := by
  cases o with
  | swap | insp | desp | halt => cases h
  | _ =>
    cases h
    simp [perform, pop, reg_write]

theorem exists_store {m : BareMachine} {a : Int}
    (h : (m.perform o x).memory.get a ≠ m.memory.get a) :
    ∃ s, m.store? x o = some s ∧ address s.1 = a := by
  rw [memory_perform] at h
  cases hstore : m.store? x o with
  | none =>
    rw [hstore] at h
    exact absurd rfl h
  | some s =>
    refine ⟨s, rfl, ?_⟩
    by_contra hne
    exact h (by simp [hstore, Ne.symm hne])

end BareMachine

namespace Machine

def pushes? (m : Machine) (r : Request) : Option Word :=
  match r.operation? with
  | some (.push, _) => some (m.reg .ac)
  | some (.pshi, _) => some (m.memory.get (address (m.reg .ac)))
  | some (.call, _) => some (m.reg .pc)
  | _ => none

def Delivers (m m' : Machine) (v : Word) (r : Request) : Prop :=
  match r.operation? with
  | some (.pop, _) => m'.reg .ac = v
  | some (.retn, _) => m'.reg .pc = v
  | some (.popi, _) =>
    m.memory.InRange (address (m.reg .ac)) → m'.memory.get (address (m.reg .ac)) = v
  | _ => False

def sideStore? (m : Machine) (r : Request) : Option (Word × Word) :=
  match r.operation? with
  | some (.stod, x) => some (m.reg .sp, x)
  | some (.stol, x) => some (m.reg .sp, m.reg .sp + x)
  | some (.popi, _) => some (m.reg .sp + 1, m.reg .ac)
  | _ => none

/-- Whether a request stores nothing from the top of the stack to its bottom, but for a push. -/
def Spares (m : Machine) (bottom : Int) (r : Request) : Prop :=
  ∀ s ∈ m.sideStore? r, ¬(address s.1 ≤ address s.2 ∧ address s.2 < bottom)

instance (m : Machine) (bottom : Int) (r : Request) : Decidable (m.Spares bottom r) :=
  Option.decidableForallMem (m.sideStore? r)

def SparesAll (m : Machine) (bottom : Int) (moves : List Request) : Prop :=
  ∀ i, (hi : i < moves.length) → match m.serveAll (moves.take i) with
    | .ok before => before.Spares bottom moves[i]
    | .error _ => True

instance (m : Machine) (bottom : Int) (moves : List Request) :
    Decidable (m.SparesAll bottom moves) :=
  have (i : Nat) (hi : i < moves.length) : Decidable (match m.serveAll (moves.take i) with
      | .ok before => before.Spares bottom moves[i]
      | .error _ => True) :=
    match m.serveAll (moves.take i) with
    | .ok before => inferInstanceAs (Decidable (before.Spares bottom moves[i]))
    | .error _ => .isTrue trivial
  Nat.decidableBallLT moves.length _

variable {m m' : Machine} {r : Request} {o : Operation} {x : Word} {δ : Int}

theorem Sound.serve_operation (h : m.Sound) (hop : r.operation? = some (o, x)) :
    ∃ m', m.serve r = .ok m' ∧ m'.bare = m.bare.perform o x := by
  cases r with
  | execute w =>
    obtain ⟨o', ho, hpair⟩ := Option.bind_eq_some_iff.mp hop
    obtain ⟨rfl, rfl⟩ := Prod.mk.inj (Option.some.inj hpair)
    obtain ⟨m', hexec, hbare, -⟩ := h.execute_eq (Word.ofInt w)
    refine ⟨m', hexec, hbare.trans ?_⟩
    unfold BareMachine.execute
    rw [ho]
  | _ => cases hop

theorem store?_of_push (hop : r.operation? = some (o, x)) (hmove : o.stackMove? = some 1) :
    ∃ v, m.pushes? r = some v ∧ m.bare.store? x o = some (m.reg .sp - 1, v) := by
  unfold pushes?
  rw [hop]
  cases o with
  | push => exact ⟨_, rfl, rfl⟩
  | pshi => exact ⟨_, rfl, rfl⟩
  | call => exact ⟨_, rfl, rfl⟩
  | _ => cases hmove

theorem sideStore?_of_store {s : Word × Word} (hop : r.operation? = some (o, x))
    (hmove : o.stackMove? = some δ) (hδ : δ ≠ 1) (hs : m.bare.store? x o = some s) :
    m.sideStore? r = some (m.reg .sp - Word.ofInt δ, s.1) := by
  unfold sideStore?
  rw [hop]
  cases o with
  | stod | stol | popi => cases hmove; cases hs; simp
  | call => cases hmove; exact absurd rfl hδ
  | pshi => cases hmove; exact absurd rfl hδ
  | push => cases hmove; exact absurd rfl hδ
  | _ => cases hs

theorem delivers_of_pop (hop : r.operation? = some (o, x)) (hmove : o.stackMove? = some (-1))
    (hbare : m'.bare = m.bare.perform o x) :
    m.Delivers m' (m.memory.get (address (m.reg .sp))) r := by
  have hreg (q : Register) : m'.reg q = (m.bare.perform o x).reg q :=
    congrArg (fun b : BareMachine => b.reg q) hbare
  unfold Delivers
  rw [hop]
  cases o with
  | pop => simp [hreg, BareMachine.perform, BareMachine.word]
  | retn => simp [hreg, BareMachine.perform, BareMachine.word]
  | popi =>
    intro inside
    have hmem : m'.memory = m.memory.set (address (m.reg .ac))
        (m.memory.get (address (m.reg .sp))) :=
      (congrArg BareMachine.memory hbare).trans (BareMachine.memory_perform m.bare .popi x)
    simp [hmem, inside]
  | _ => cases hmove

/-- What a request that deepens the stack by so much leaves. -/
structure Moves (m : Machine) (r : Request) (δ : Int) (m' : Machine) : Prop where
  sp : m'.reg .sp = m.reg .sp - Word.ofInt δ
  push : δ = 1 → ∃ v, m.pushes? r = some v ∧
    m'.memory = m.memory.set (address (m'.reg .sp)) v
  side : δ ≠ 1 → ∀ a, m'.memory.get a ≠ m.memory.get a →
    ∃ s ∈ m.sideStore? r, s.1 = m'.reg .sp ∧ address s.2 = a
  pop : δ = -1 → m.Delivers m' (m.memory.get (address (m.reg .sp))) r

theorem Sound.serve_moves (h : m.Sound) (hr : r.stackMove? = some δ) :
    ∃ m', m.serve r = .ok m' ∧ m.Moves r δ m' := by
  obtain ⟨v, rfl, rfl⟩ | ⟨o, x, hop, hmove⟩ := Request.stackMove?_eq_some hr
  · exact ⟨_, rfl, by simp, by omega, fun _ a ha => absurd rfl ha, by omega⟩
  · obtain ⟨m', hserve, hbare⟩ := h.serve_operation hop
    have hsp : m'.reg .sp = m.reg .sp - Word.ofInt δ :=
      (congrArg (fun b : BareMachine => b.reg .sp) hbare).trans (m.bare.sp_perform hmove x)
    have hmem : m'.memory = (m.bare.perform o x).memory := congrArg BareMachine.memory hbare
    refine ⟨m', hserve, hsp, ?_, ?_, ?_⟩
    · rintro rfl
      obtain ⟨v, hpush, hstore⟩ := store?_of_push (m := m) hop hmove
      refine ⟨v, hpush, ?_⟩
      rw [hmem, BareMachine.memory_perform, hstore, hsp]
      rfl
    · intro hδ a hchange
      rw [hmem] at hchange
      obtain ⟨s, hstore, hs⟩ := BareMachine.exists_store hchange
      exact ⟨_, sideStore?_of_store hop hmove hδ hstore, hsp.symm, hs⟩
    · rintro rfl
      exact delivers_of_pop hop hmove hbare

theorem Moves.get_of_push (moves : m.Moves r 1 m') {a : Int} (ha : address (m'.reg .sp) < a) :
    m'.memory.get a = m.memory.get a := by
  obtain ⟨v, -, hmem⟩ := moves.push rfl
  have hne : a ≠ address (m'.reg .sp) := by omega
  simp [hmem, hne]

/-- A move that spares the stack leaves what was in it and still is. -/
theorem Moves.get_eq (moves : m.Moves r δ m') {bottom a : Int} (spares : m.Spares bottom r)
    (htop : address (m'.reg .sp) = address (m.reg .sp) - δ) (ha : address (m.reg .sp) ≤ a)
    (ha' : address (m'.reg .sp) ≤ a) (hbottom : a < bottom) :
    m'.memory.get a = m.memory.get a := by
  by_cases hδ : δ = 1
  · subst hδ
    exact moves.get_of_push (by omega)
  · by_contra hchange
    obtain ⟨s, hs, hsp, rfl⟩ := moves.side hδ a hchange
    exact spares s hs ⟨hsp ▸ ha', hbottom⟩

variable {moves : List Request} {state : Nat → Machine} {i j : Nat}

/-- The machines that brackets lead through which spare the stack under them. -/
structure Course (m : Machine) (moves : List Request) (state : Nat → Machine) : Prop where
  bracketed : Request.Bracketed moves (address (m.reg .sp))
  spares : m.SparesAll (address (m.reg .sp)) moves
  states : ∀ i, m.serveAll (moves.take i) = .ok (state i)
  size : ∀ i, (state i).memory.size = m.memory.size
  step : ∀ i r δ, moves[i]? = some r → r.stackMove? = some δ → (state i).Moves r δ (state (i + 1))

theorem serveAll_concat (m : Machine) (moves : List Request) (r : Request) :
    m.serveAll (moves ++ [r]) = m.serveAll moves >>= fun m => m.serve r := by
  unfold serveAll
  rw [List.foldlM_append]
  congr 1
  funext m
  exact bind_pure _

theorem Sound.exists_course (h : m.Sound)
    (bracketed : Request.Bracketed moves (address (m.reg .sp)))
    (spares : m.SparesAll (address (m.reg .sp)) moves) : ∃ state, m.Course moves state := by
  choose state hstates hsound hsize using fun i => h.serveAll_ok (moves.take i)
  refine ⟨state, bracketed, spares, hstates, hsize, fun i r δ hr hδ => ?_⟩
  obtain ⟨m', hserve, hmoves⟩ := (hsound i).serve_moves hδ
  have hnext := hstates (i + 1)
  rw [List.take_add_one, hr, Option.toList_some, serveAll_concat, hstates i] at hnext
  cases hserve.symm.trans hnext
  exact hmoves

theorem Course.state_zero (course : m.Course moves state) : state 0 = m :=
  (Except.ok.inj (course.states 0)).symm

theorem Course.past_end (course : m.Course moves state) (hi : moves[i]? = none) :
    state (i + 1) = state i := by
  have hnext := course.states (i + 1)
  rw [List.take_add_one, hi, Option.toList_none, List.append_nil, course.states i] at hnext
  exact (Except.ok.inj hnext).symm

theorem Course.spares_at (course : m.Course moves state) (hr : moves[i]? = some r) :
    (state i).Spares (address (m.reg .sp)) r := by
  obtain ⟨hi, rfl⟩ := List.getElem?_eq_some_iff.mp hr
  have hspares := course.spares i hi
  rw [course.states i] at hspares
  exact hspares

/-- The top of the stack lies as far below its bottom as the brackets are deep. -/
theorem Course.sp_eq (course : m.Course moves state) (i : Nat) :
    address ((state i).reg .sp) = address (m.reg .sp) - Request.depth (moves.take i) := by
  induction i with
  | zero =>
    rw [course.state_zero]
    exact (Int.sub_zero _).symm
  | succ i ih =>
    cases hr : moves[i]? with
    | none =>
      rw [course.past_end hr, ih, List.take_add_one, hr, Option.toList_none, List.append_nil]
    | some r =>
      obtain ⟨δ, hδ⟩ := course.bracketed.exists_move hr
      have hdepth := Request.depth_take_succ hr
      have hbounds := course.bracketed.depth_bounds (i + 1)
      have hbottom := address_lt (m.reg .sp)
      rw [hδ, Option.getD_some] at hdepth
      rw [(course.step i r δ hr hδ).sp, address_sub (by omega) (by omega)]
      omega

/-- A word stays as it is for as long as it is on the stack. -/
theorem Course.get_eq (course : m.Course moves state) {a : Int} (hij : i ≤ j)
    (hbottom : a < address (m.reg .sp))
    (htop : ∀ k, i ≤ k → k ≤ j → address ((state k).reg .sp) ≤ a) :
    (state j).memory.get a = (state i).memory.get a := by
  induction j, hij using Nat.le_induction with
  | base => rfl
  | succ j hij ih =>
    rw [← ih fun k hik hkj => htop k hik (by omega)]
    cases hr : moves[j]? with
    | none => rw [course.past_end hr]
    | some r =>
      obtain ⟨δ, hδ⟩ := course.bracketed.exists_move hr
      have hdepth := Request.depth_take_succ hr
      have hsp := course.sp_eq j
      have hsp' := course.sp_eq (j + 1)
      rw [hδ, Option.getD_some] at hdepth
      exact (course.step j r δ hr hδ).get_eq (course.spares_at hr) (by omega)
        (htop j hij (by omega)) (htop (j + 1) (by omega) (Nat.le_refl _)) hbottom

theorem Course.get_of_push (course : m.Course moves state) (hr : moves[i]? = some r)
    (hpush : r.stackMove? = some 1) {a : Int} (ha : address (m.reg .sp) ≤ a) :
    (state (i + 1)).memory.get a = (state i).memory.get a := by
  have hsp := course.sp_eq (i + 1)
  have hdepth := Request.depth_take_succ hr
  have hbounds := course.bracketed.depth_bounds i
  rw [hpush, Option.getD_some] at hdepth
  exact (course.step i r 1 hr hpush).get_of_push (by omega)

theorem Course.pushed (course : m.Course moves state) (room : address (m.reg .sp) ≤ m.memory.size)
    (hr : moves[i]? = some r) (hpush : r.stackMove? = some 1) :
    ∃ v, (state i).pushes? r = some v ∧
      (state (i + 1)).memory.get (address ((state (i + 1)).reg .sp)) = v := by
  obtain ⟨v, hv, hmem⟩ := (course.step i r 1 hr hpush).push rfl
  have hsp := course.sp_eq (i + 1)
  have hdepth := Request.depth_take_succ hr
  have hbounds := course.bracketed.depth_bounds i
  have hsize := course.size i
  rw [hpush, Option.getD_some] at hdepth
  have inside : (state i).memory.InRange (address ((state (i + 1)).reg .sp)) :=
    ⟨address_nonneg _, by omega⟩
  exact ⟨v, hv, by simp [hmem, inside]⟩

theorem Course.delivers (course : m.Course moves state)
    (room : address (m.reg .sp) ≤ m.memory.size) (matching : Request.Matches moves i j) :
    ∃ push pop v, moves[i]? = some push ∧ moves[j]? = some pop ∧
      (state i).pushes? push = some v ∧ (state j).Delivers (state (j + 1)) v pop := by
  obtain ⟨push, hpush, hone⟩ := Option.bind_eq_some_iff.mp matching.push
  obtain ⟨pop, hpop, hless⟩ := Option.bind_eq_some_iff.mp matching.pop
  obtain ⟨v, hv, hstored⟩ := course.pushed room hpush hone
  refine ⟨push, pop, v, hpush, hpop, hv, ?_⟩
  have hsp := course.sp_eq (i + 1)
  have hsame : address ((state j).reg .sp) = address ((state (i + 1)).reg .sp) := by
    rw [hsp, course.sp_eq j, matching.closed]
  -- Between the two the stack is never lower than the word pushed, so that word stays.
  have hkept : (state j).memory.get (address ((state (i + 1)).reg .sp)) =
      (state (i + 1)).memory.get (address ((state (i + 1)).reg .sp)) := by
    have hdepth := matching.depth_push
    have hbounds := course.bracketed.depth_bounds i
    refine course.get_eq matching.before (by omega) fun k hik hkj => ?_
    have hwithin := matching.within k hik hkj
    have hsp' := course.sp_eq k
    omega
  have hdelivers := (course.step j pop (-1) hpop hless).pop rfl
  rw [hsame, hkept, hstored] at hdelivers
  exact hdelivers

/-- What makes the stack last in, first out over the machines that requests lead through. -/
structure LastInFirstOut (m : Machine) (moves : List Request) (state : Nat → Machine) : Prop where
  states : ∀ i, m.serveAll (moves.take i) = .ok (state i)
  /-- The stack pointer is below its start by the depth, and in the end where it started. -/
  top : ∀ i, address ((state i).reg .sp) = address (m.reg .sp) - Request.depth (moves.take i)
  closes : (state moves.length).reg .sp = m.reg .sp
  /-- Each pop has its push, whose word it gives. -/
  matched : ∀ j pop, moves[j]? = some pop → pop.stackMove? = some (-1) →
    ∃! i, Request.Matches moves i j
  delivers : ∀ i j, Request.Matches moves i j → ∃ push pop v, moves[i]? = some push ∧
    moves[j]? = some pop ∧ (state i).pushes? push = some v ∧
      (state j).Delivers (state (j + 1)) v pop
  /-- Pushes leave alone what lies from the bottom of the stack on. -/
  apart : ∀ i push, moves[i]? = some push → push.stackMove? = some 1 →
    ∀ a, address (m.reg .sp) ≤ a → (state (i + 1)).memory.get a = (state i).memory.get a

theorem Course.lastInFirstOut (course : m.Course moves state)
    (room : address (m.reg .sp) ≤ m.memory.size) : m.LastInFirstOut moves state where
  states := course.states
  top := course.sp_eq
  closes := by
    have hlast := course.sp_eq moves.length
    rw [List.take_length, course.bracketed.closed, Int.sub_zero] at hlast
    exact BitVec.eq_of_toNat_eq (Int.ofNat.inj hlast)
  matched _ _ := course.bracketed.exists_matches
  delivers _ _ := course.delivers room
  apart _ _ hr hpush _ := course.get_of_push hr hpush

/--
From a machine that requests lead to, brackets that fit under its stack pointer, and whose other
stores spare the live stack, find the stack last in, first out.
-/
theorem pops_deliver_matching_pushes {size : Int} {history moves : List Request} {m : Machine}
    (reached : (fresh size).serveAll history = .ok m)
    (room : address (m.reg .sp) ≤ size)
    (bracketed : Request.Bracketed moves (address (m.reg .sp)))
    (spares : m.SparesAll (address (m.reg .sp)) moves) :
    ∃ state, m.LastInFirstOut moves state := by
  obtain ⟨m', hall, hsound, hsize⟩ := (sound_fresh size).serveAll_ok history
  obtain rfl := Except.ok.inj (hall.symm.trans reached)
  obtain ⟨state, course⟩ := hsound.exists_course bracketed spares
  exact ⟨state, course.lastInFirstOut (hsize ▸ room)⟩

def nestedMoves : List Request :=
  [.execute 0xF400, .execute 0xE003, .execute 0x700E, .execute 0xF000, .execute 0x100D,
    .execute 0xF200, .execute 0xF800, .assign .ac 3, .execute 0xF600]

theorem pops_deliver_matching_pushes_nested :
    ∃ m, (fresh 16).serveAll [.load #[], .assign .sp 12, .assign .ac 7] = .ok m ∧
      address (m.reg .sp) ≤ 16 ∧ Request.Bracketed nestedMoves (address (m.reg .sp)) ∧
      m.SparesAll (address (m.reg .sp)) nestedMoves ∧ ∃ state, m.LastInFirstOut nestedMoves state :=
  have reached : (fresh 16).serveAll [.load #[], .assign .sp 12, .assign .ac 7] =
    .ok ((((fresh 16).load #[]).put .sp 12).put .ac 7) := rfl
  have bracketed : Request.Bracketed nestedMoves 12 :=
    ⟨by decide +kernel, by decide +kernel, by decide +kernel, by decide +kernel⟩
  have spares :
      Machine.SparesAll ((((fresh 16).load #[]).put .sp 12).put .ac 7) 12 nestedMoves := by
    decide +kernel
  ⟨_, reached, by decide, bracketed, spares,
    pops_deliver_matching_pushes reached (by decide) bracketed spares⟩

end Machine

end AccMachine
