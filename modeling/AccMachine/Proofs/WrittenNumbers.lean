import AccMachine.Numeral.Typed
import AccMachine.Proofs.TextCuts

namespace AccMachine.Numeral

theorem digitValue_digitChar {d : Nat} (h : d < 16) : digitValue d.digitChar = d := by
  have hall : ∀ e ∈ List.range 16, digitValue e.digitChar = e := by decide
  exact hall d (List.mem_range.mpr h)

theorem digitValue_toUpper_digitChar {d : Nat} (h : d < 16) :
    digitValue d.digitChar.toUpper = d := by
  have hall : ∀ e ∈ List.range 16, digitValue e.digitChar.toUpper = e := by decide
  exact hall d (List.mem_range.mpr h)

theorem ofDigits_concat (base : Nat) (ds : List Char) (c : Char) :
    ofDigits base (ds ++ [c]) = ofDigits base ds * base + digitValue c := by
  unfold ofDigits
  rw [List.foldl_append]
  rfl

@[simp] theorem ofDigits_replicate_zero (base k : Nat) (ds : List Char) :
    ofDigits base (List.replicate k '0' ++ ds) = ofDigits base ds := by
  induction k with
  | zero => rfl
  | succ k ih =>
    have hzero : ofDigits base ('0' :: (List.replicate k '0' ++ ds)) =
        ofDigits base (List.replicate k '0' ++ ds) := by
      unfold ofDigits
      rw [List.foldl_cons, Nat.zero_mul]
      rfl
    rw [List.replicate_succ, List.cons_append, hzero, ih]

variable {base : Nat}

theorem forall_mem_toDigits {p : Char → Prop} (h1 : 1 < base) (h : ∀ d < base, p d.digitChar)
    {n : Nat} : ∀ c ∈ Nat.toDigits base n, p c := by
  induction n using Nat.strongRecOn with
  | ind n ih =>
    by_cases hn : n < base
    · rw [Nat.toDigits_of_lt_base hn]
      simpa using h n hn
    · rw [Nat.toDigits_of_base_le h1 (by omega)]
      intro c hc
      rcases List.mem_append.mp hc with hfront | hlast
      · exact ih (n / base) (Nat.div_lt_self (by omega) h1) c hfront
      · rw [List.mem_singleton.mp hlast]
        exact h (n % base) (Nat.mod_lt n (by omega))

/-- Digits in a form that keeps their values are read back. -/
theorem ofDigits_map_toDigits (h1 : 1 < base) (h16 : base ≤ 16) {form : Char → Char}
    (keeps : ∀ d < 16, digitValue (form d.digitChar) = d) (n : Nat) :
    ofDigits base ((Nat.toDigits base n).map form) = n := by
  induction n using Nat.strongRecOn with
  | ind n ih =>
    by_cases hn : n < base
    · rw [Nat.toDigits_of_lt_base hn]
      unfold ofDigits
      rw [List.map_cons, List.map_nil, List.foldl_cons, List.foldl_nil, keeps n (by omega)]
      omega
    · have hquot := ih (n / base) (Nat.div_lt_self (by omega) h1)
      have hlast := keeps (n % base) (Nat.lt_of_lt_of_le (Nat.mod_lt n (by omega)) h16)
      rw [Nat.toDigits_of_base_le h1 (by omega), List.map_append, List.map_singleton,
        ofDigits_concat, hquot, hlast]
      exact Nat.div_add_mod' n base

theorem ofDigits_toDigits (h1 : 1 < base) (h16 : base ≤ 16) (n : Nat) :
    ofDigits base (Nat.toDigits base n) = n := by
  have h := @ofDigits_map_toDigits base h1 h16 id (fun _ => digitValue_digitChar) n
  rwa [List.map_id] at h

theorem ofDigits_digits (h1 : 1 < base) (h16 : base ≤ 16) (width n : Nat) :
    ofDigits base (digits base width n) = n := by
  unfold digits List.leftpad
  rw [ofDigits_replicate_zero]
  exact ofDigits_map_toDigits h1 h16 (fun _ => digitValue_toUpper_digitChar) n

theorem padded_injective (h1 : 1 < base) (h16 : base ≤ 16) (width : Nat) :
    Function.Injective (padded base width) := by
  intro m n h
  have hdigits : digits base width m = digits base width n := by
    have hlist := congrArg String.toList h
    rwa [toList_padded, toList_padded] at hlist
  rw [← ofDigits_digits h1 h16 width m, hdigits, ofDigits_digits h1 h16]

theorem forall_isDigit {p : Char → Prop} (h : ∀ d ∈ List.range 10, p d.digitChar) {c : Char}
    (hc : c.isDigit) : p c := by
  have hrange : 48 ≤ c.toNat ∧ c.toNat ≤ 57 := Char.isDigit_iff_toNat.mp hc
  have hchar : (c.toNat - 48).digitChar = c := by
    rw [← Char.toNat_inj, Nat.toNat_digitChar_of_lt_ten (by omega)]
    omega
  have hdigit := h (c.toNat - 48) (List.mem_range.mpr (by omega))
  rwa [hchar] at hdigit

theorem digitValue_of_isDigit {c : Char} (h : c.isDigit) : digitValue c < 10 :=
  @forall_isDigit (fun c => digitValue c < 10) (by decide) c h

theorem isDigits_ten {s : Text} (hne : s ≠ []) (h : ∀ c ∈ s, c.isDigit) :
    Literal.isDigits 10 s := by
  unfold Literal.isDigits
  simp only [Bool.and_eq_true, Bool.not_eq_true', List.isEmpty_eq_false_iff, List.all_eq_true,
    decide_eq_true_eq]
  exact ⟨hne, fun c hc => digitValue_of_isDigit (h c hc)⟩

theorem isDigit_of_mem_toDigits_ten {n : Nat} {c : Char} (h : c ∈ Nat.toDigits 10 n) : c.isDigit :=
  Nat.isDigit_of_mem_toDigits (by decide) (by decide) h

@[simp] theorem isDigits_toDigits_ten (n : Nat) : Literal.isDigits 10 (Nat.toDigits 10 n) :=
  isDigits_ten Nat.toDigits_ne_nil fun _ => isDigit_of_mem_toDigits_ten

/-- A number can be written if it has no more digits than are read. -/
theorem writable_iff_length {n : Int} :
    Writable n ↔ (Nat.toDigits 10 n.natAbs).length ≤ maxDecimalDigits := by
  have hpos : 0 < maxDecimalDigits := by decide
  unfold Writable writeLimit
  -- With the number of digits left open, no one computes the power.
  generalize maxDecimalDigits = digits at hpos ⊢
  exact (Nat.length_toDigits_le_iff (by decide) hpos).symm

theorem toList_toString (n : Int) :
    (toString n).toList = (if n < 0 then ['-'] else []) ++ Nat.toDigits 10 n.natAbs := by
  rw [Int.toString_eq_repr, Int.repr_eq_if]
  by_cases h : n < 0
  · rw [if_neg (by omega), if_pos h, String.toList_append, Nat.toList_repr]
    congr 2
    omega
  · rw [if_pos (by omega), if_neg h, Nat.toList_repr]
    congr 1
    omega

theorem mem_toString {n : Int} {c : Char} (h : c ∈ (toString n).toList) : c = '-' ∨ c.isDigit := by
  rw [toList_toString] at h
  rcases List.mem_append.mp h with hsign | hdigit
  · split at hsign
    next => exact .inl (List.mem_singleton.mp hsign)
    next => cases hsign
  · exact .inr (isDigit_of_mem_toDigits_ten hdigit)

theorem splitSign_of_isDigit {s : Text} (h : ∀ c ∈ s, c.isDigit) :
    Literal.splitSign s = (false, s) := by
  unfold Literal.splitSign
  split
  next => exact absurd (h '+' (by simp)) (by decide)
  next => exact absurd (h '-' (by simp)) (by decide)
  next => rfl

theorem splitBase_of_isDigit {s : Text} (h : ∀ c ∈ s, c.isDigit) :
    Literal.splitBase s = (10, s) := by
  unfold Literal.splitBase
  split
  next => exact absurd (h 'x' (by simp)) (by decide)
  next => exact absurd (h 'X' (by simp)) (by decide)
  next => exact absurd (h 'b' (by simp)) (by decide)
  next => exact absurd (h 'B' (by simp)) (by decide)
  next => rfl

theorem splitSign_toString (n : Int) :
    Literal.splitSign (toString n).toList = (decide (n < 0), Nat.toDigits 10 n.natAbs) := by
  rw [toList_toString]
  by_cases h : n < 0
  · rw [if_pos h, decide_eq_true h]
    rfl
  · rw [if_neg h, decide_eq_false h, List.nil_append]
    exact splitSign_of_isDigit fun _ => isDigit_of_mem_toDigits_ten

theorem signed_natAbs (n : Int) : (if n < 0 then -(n.natAbs : Int) else n.natAbs) = n := by
  split <;> omega

theorem not_isBlank_of_isDigit {c : Char} (h : c.isDigit) : isBlank c = false :=
  @forall_isDigit (fun c => isBlank c = false) (by decide) c h

theorem not_isBlank_of_mem_toString {n : Int} {c : Char} (h : c ∈ (toString n).toList) :
    isBlank c = false := by
  rcases mem_toString h with rfl | hdigit
  · decide
  · exact not_isBlank_of_isDigit hdigit

theorem read_toString {n : Int} (h : Writable n) :
    Literal.read (toString n).toList = .ok (some n) := by
  have hlength := writable_iff_length.mp h
  have hsigned := signed_natAbs n
  unfold Literal.read
  rw [Text.strip_of_no_blank fun _ => not_isBlank_of_mem_toString, splitSign_toString]
  dsimp only
  rw [splitBase_of_isDigit fun _ => isDigit_of_mem_toDigits_ten]
  dsimp only
  rw [isDigits_toDigits_ten, if_neg (by decide), if_neg (by omega),
    ofDigits_toDigits (by decide) (by decide)]
  simpa using hsigned

theorem ungroupAfter_of_no_underscore {s : Text} (h : '_' ∉ s) (digit : Bool) :
    ungroupAfter digit s = some s := by
  induction s generalizing digit with
  | nil => rfl
  | cons c s ih =>
    have hrest := ih (fun hs => h (List.mem_cons_of_mem _ hs)) c.isDigit
    unfold ungroupAfter
    split
    next heq => cases heq
    next heq => exact absurd (List.head_eq_of_cons_eq heq ▸ List.mem_cons_self) h
    next heq => exact absurd (List.head_eq_of_cons_eq heq ▸ List.mem_cons_self) h
    next heq =>
      obtain ⟨rfl, rfl⟩ := List.cons.inj heq
      rw [hrest]
      rfl

theorem plainChar_of_mem_toString {n : Int} {c : Char} (h : c ∈ (toString n).toList) :
    plainChar c = c ∧ isPad c = false := by
  rcases mem_toString h with rfl | hdigit
  · decide
  · exact @forall_isDigit (fun c => plainChar c = c ∧ isPad c = false) (by decide) c hdigit

theorem plain_toString (n : Int) : plain (toString n).toList = (toString n).toList := by
  have hmap : (toString n).toList.map plainChar = (toString n).toList := by
    conv_rhs => rw [← List.map_id (toString n).toList]
    exact List.map_congr_left fun c hc => (plainChar_of_mem_toString hc).1
  have hfront : (toString n).toList.dropWhile isPad = (toString n).toList :=
    Text.dropWhile_eq_self fun c hc => (plainChar_of_mem_toString (List.mem_of_head? hc)).2
  have hback : (toString n).toList.reverse.dropWhile isPad = (toString n).toList.reverse := by
    apply Text.dropWhile_eq_self
    intro c hc
    rw [List.head?_reverse] at hc
    exact (plainChar_of_mem_toString (List.mem_of_getLast? hc)).2
  unfold plain
  rw [hmap, hfront, hback, List.reverse_reverse]

theorem readWhole_toString {n : Int} (h : Writable n) :
    readWhole (toString n).toList = .ok n := by
  have hlength := writable_iff_length.mp h
  have hplain : '_' ∉ (toString n).toList := by
    intro hmem
    rcases mem_toString hmem with heq | hdigit
    · exact absurd heq (by decide)
    · exact absurd hdigit (by decide)
  have hchars : typedChars (toString n).toList = .ok (toString n).toList := by
    unfold typedChars
    rw [plain_toString, ungroupAfter_of_no_underscore hplain]
  have hsigned := signed_natAbs n
  unfold readWhole
  rw [hchars]
  dsimp only [bind, Except.bind]
  rw [splitSign_toString]
  dsimp only
  rw [isDigits_toDigits_ten, if_neg (by simpa using hlength),
    ofDigits_toDigits (by decide) (by decide)]
  exact congrArg Except.ok (by simpa using hsigned)

end AccMachine.Numeral
