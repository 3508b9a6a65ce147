import AccMachine.Proofs.MachineRequests
import Mathlib.Data.List.Infix

namespace AccMachine

/-- By how much an operation deepens the stack; none if it moves its top in another way. -/
def Operation.stackMove? : Operation → Option Int
  | .push | .pshi | .call => some 1
  | .pop | .popi | .retn => some (-1)
  | .lodd | .stod | .addd | .subd | .loco | .lodl | .stol | .addl | .subl => some 0
  | .jpos | .jzer | .jump | .jneg | .jnze => some 0
  | .swap | .insp | .desp | .halt => none

namespace Request

def operation? : Request → Option (Operation × Word)
  | .execute w => do
    let i := decode (Word.ofInt w)
    return (← i.operation, i.operand)
  | _ => none

def stackMove? : Request → Option Int
  | .assign .ac _ => some 0
  | r => r.operation?.bind fun s => s.1.stackMove?

def depth : List Request → Int
  | [] => 0
  | r :: moves => r.stackMove?.getD 0 + depth moves

/-- Pushes and pops that close as brackets do, nested no deeper than a limit. -/
structure Bracketed (moves : List Request) (limit : Int) : Prop where
  disciplined : ∀ r ∈ moves, r.stackMove?.isSome
  nonneg : ∀ before ∈ moves.inits, 0 ≤ depth before
  le_limit : ∀ before ∈ moves.inits, depth before ≤ limit
  closed : depth moves = 0

/-- A push and the pop after it, with brackets between them that close among themselves. -/
structure Matches (moves : List Request) (i j : Nat) : Prop where
  before : i < j
  push : moves[i]?.bind stackMove? = some 1
  pop : moves[j]?.bind stackMove? = some (-1)
  closed : depth (moves.take j) = depth (moves.take (i + 1))
  within : ∀ k, i < k → k ≤ j → depth (moves.take (i + 1)) ≤ depth (moves.take k)

variable {moves : List Request} {r : Request} {i j : Nat} {limit : Int}

theorem stackMove?_eq_some {δ : Int} (h : r.stackMove? = some δ) :
    (∃ v, r = .assign .ac v ∧ δ = 0) ∨
      ∃ o x, r.operation? = some (o, x) ∧ o.stackMove? = some δ := by
  unfold stackMove? at h
  split at h
  next v => exact .inl ⟨v, rfl, (Option.some.inj h).symm⟩
  next =>
    obtain ⟨⟨o, x⟩, hop, hmove⟩ := Option.bind_eq_some_iff.mp h
    exact .inr ⟨o, x, hop, hmove⟩

theorem stackMove_le_one (r : Request) : r.stackMove?.getD 0 ≤ 1 := by
  cases h : r.stackMove? with
  | none => decide
  | some δ =>
    obtain ⟨_, -, rfl⟩ | ⟨o, _, -, hmove⟩ := stackMove?_eq_some h
    · decide
    · cases o <;> cases hmove <;> decide

@[simp] theorem depth_concat (moves : List Request) (r : Request) :
    depth (moves ++ [r]) = depth moves + r.stackMove?.getD 0 := by
  induction moves with
  | nil => exact Int.add_comm _ _
  | cons q moves ih =>
    change q.stackMove?.getD 0 + depth (moves ++ [r]) = _
    rw [ih, ← Int.add_assoc]
    rfl

theorem depth_take_succ (h : moves[i]? = some r) :
    depth (moves.take (i + 1)) = depth (moves.take i) + r.stackMove?.getD 0 := by
  rw [List.take_add_one, h]
  exact depth_concat _ r

theorem depth_succ_le (moves : List Request) (i : Nat) :
    depth (moves.take (i + 1)) ≤ depth (moves.take i) + 1 := by
  cases h : moves[i]? with
  | none =>
    have hlen := List.getElem?_eq_none_iff.mp h
    rw [List.take_of_length_le hlen, List.take_of_length_le (by omega)]
    omega
  | some r =>
    have hone := stackMove_le_one r
    rw [depth_take_succ h]
    omega

theorem Bracketed.depth_bounds (h : Bracketed moves limit) (i : Nat) :
    0 ≤ depth (moves.take i) ∧ depth (moves.take i) ≤ limit := by
  have hmem : moves.take i ∈ moves.inits := (List.mem_inits _ _).mpr (List.take_prefix i moves)
  exact ⟨h.nonneg _ hmem, h.le_limit _ hmem⟩

theorem Bracketed.exists_move (h : Bracketed moves limit) (hr : moves[i]? = some r) :
    ∃ δ, r.stackMove? = some δ :=
  Option.isSome_iff_exists.mp (h.disciplined r (List.mem_of_getElem? hr))

/--
A sequence that starts below a level, and is not below it in the end, was below it for a last time.
-/
theorem exists_last_below {f : Nat → Int} {level : Int} (start : f 0 < level) (j : Nat)
    (h : level ≤ f j) : ∃ i < j, f i < level ∧ ∀ k, i < k → k ≤ j → level ≤ f k := by
  induction j with
  | zero => omega
  | succ j ih =>
    by_cases hj : level ≤ f j
    · obtain ⟨i, hi, below, above⟩ := ih hj
      refine ⟨i, by omega, below, fun k hik hkj => ?_⟩
      rcases Nat.lt_or_eq_of_le hkj with hlt | rfl
      · exact above k hik (by omega)
      · exact h
    · refine ⟨j, by omega, by omega, fun k hjk hkj => ?_⟩
      obtain rfl : k = j + 1 := by omega
      exact h

theorem Matches.depth_push (h : Matches moves i j) :
    depth (moves.take (i + 1)) = depth (moves.take i) + 1 := by
  obtain ⟨r, hr, hpush⟩ := Option.bind_eq_some_iff.mp h.push
  rw [depth_take_succ hr, hpush, Option.getD_some]

theorem Matches.not_between {i' : Nat} (h : Matches moves i j) (h' : Matches moves i' j) :
    ¬i < i' := by
  intro hlt
  -- Before the later push the stack would be lower than the earlier one lets it be.
  have hbelow := h.within i' hlt (Nat.le_of_lt h'.before)
  have hpush := h'.depth_push
  rw [← h'.closed, h.closed] at hpush
  omega

theorem Bracketed.exists_matches (h : Bracketed moves limit) (hr : moves[j]? = some r)
    (pops : r.stackMove? = some (-1)) : ∃! i, Matches moves i j := by
  have hpop := depth_take_succ hr
  have hafter := (h.depth_bounds (j + 1)).1
  rw [pops, Option.getD_some] at hpop
  have hstart : depth (moves.take 0) < depth (moves.take j) := by
    change (0 : Int) < _
    omega
  -- The push is where the depth was last below the one that the pop finds.
  obtain ⟨i, hij, below, above⟩ := exists_last_below (f := fun k => depth (moves.take k))
    hstart j (Int.le_refl _)
  have hrise := depth_succ_le moves i
  have hnext : depth (moves.take j) ≤ depth (moves.take (i + 1)) := above (i + 1) (by omega) hij
  have hlevel : depth (moves.take (i + 1)) = depth (moves.take j) := by omega
  have hlast := (List.getElem?_eq_some_iff.mp hr).1
  obtain ⟨q, hq⟩ : ∃ q, moves[i]? = some q := ⟨_, List.getElem?_eq_getElem (by omega)⟩
  obtain ⟨δ, hδ⟩ := h.exists_move hq
  have hpush := depth_take_succ hq
  rw [hδ, Option.getD_some] at hpush
  obtain rfl : δ = 1 := by omega
  have matching : Matches moves i j :=
    ⟨hij, by rw [hq]; exact hδ, by rw [hr]; exact pops, hlevel.symm,
      fun k hik hkj => hlevel ▸ above k hik hkj⟩
  refine ⟨i, matching, fun i' h' => ?_⟩
  have hle := matching.not_between h'
  have hge := h'.not_between matching
  omega

end Request

end AccMachine
