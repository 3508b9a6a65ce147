import AccMachine.Instruction
import AccMachine.Proofs.TwoPasses
import Mathlib.Algebra.Group.Int.Defs
import Mathlib.Algebra.Group.Nat.Defs

namespace AccMachine

namespace Operation

def operandBits : Operation → Nat
  | insp | desp => 8
  | pshi | popi | push | pop | retn | swap | halt => 0
  | _ => 12

theorem operandMask_toNat (o : Operation) : o.operandMask.toNat = 2 ^ o.operandBits - 1 := by
  cases o <;> rfl

theorem operandBits_le (o : Operation) : o.operandBits ≤ 16 := by
  cases o <;> decide

theorem operandBits_eq_zero {o : Operation} (h : ¬ o.takesOperand) : o.operandBits = 0 := by
  cases o <;> first | rfl | exact absurd rfl h

@[simp] theorem base_and_mask (o : Operation) : o.base &&& o.operandMask = 0#16 := by
  cases o <;> rfl

theorem find?_all_eq_some_iff {p : Operation → Bool} (hp : ∀ o o', p o → p o' → o = o')
    {o : Operation} : all.find? p = some o ↔ p o := by
  constructor
  · exact List.find?_some
  · intro h
    obtain ⟨o', ho'⟩ := Option.isSome_iff_exists.mp (List.find?_isSome.mpr ⟨o, mem_all o, h⟩)
    rw [ho', hp o' o (List.find?_some ho') h]

theorem mnemonic_injective {o o' : Operation} (h : o.mnemonic = o'.mnemonic) : o = o' := by
  have hall : ∀ o ∈ all, ∀ o' ∈ all, o.mnemonic = o'.mnemonic → o = o' := by decide +kernel
  exact hall o (mem_all o) o' (mem_all o') h

theorem ofMnemonic?_eq_some_iff {s : Text} {o : Operation} :
    ofMnemonic? s = some o ↔ s = o.mnemonic.toList := by
  unfold ofMnemonic?
  rw [find?_all_eq_some_iff, beq_iff_eq, eq_comm]
  intro o o' h h'
  exact mnemonic_injective (String.toList_inj.mp ((beq_iff_eq.mp h).trans (beq_iff_eq.mp h').symm))

theorem toNat_and_mask (o : Operation) (w : Word) :
    (w &&& o.operandMask).toNat = w.toNat % 2 ^ o.operandBits := by
  rw [BitVec.toNat_and, operandMask_toNat, Nat.and_two_pow_sub_one_eq_mod]

theorem and_not_add_and (w m : Word) : (w &&& ~~~m).toNat + (w &&& m).toNat = w.toNat := by
  have hdisjoint : (w &&& ~~~m) &&& (w &&& m) = 0#16 := by
    ext i hi
    simp only [BitVec.getElem_and, BitVec.getElem_not, BitVec.getElem_zero]
    cases w[i] <;> cases m[i] <;> rfl
  have hunion : (w &&& ~~~m) ||| (w &&& m) = w := by
    ext i hi
    simp only [BitVec.getElem_or, BitVec.getElem_and, BitVec.getElem_not]
    cases w[i] <;> cases m[i] <;> rfl
  rw [← BitVec.toNat_add_of_and_eq_zero hdisjoint, BitVec.add_eq_or_of_and_eq_zero _ _ hdisjoint,
    hunion]

theorem base_mod (o : Operation) : o.base.toNat % 2 ^ o.operandBits = 0 := by
  rw [← toNat_and_mask, base_and_mask]
  rfl

theorem and_not_mask_eq_base_iff {o : Operation} {w : Word} : w &&& ~~~o.operandMask = o.base ↔
    w.toNat / 2 ^ o.operandBits = o.base.toNat / 2 ^ o.operandBits := by
  have hw := and_not_add_and w o.operandMask
  have hdiv := Nat.div_add_mod w.toNat (2 ^ o.operandBits)
  have hbase := Nat.div_add_mod o.base.toNat (2 ^ o.operandBits)
  rw [toNat_and_mask] at hw
  rw [base_mod] at hbase
  rw [← BitVec.toNat_inj]
  constructor
  · intro h
    apply Nat.eq_of_mul_eq_mul_left (Nat.two_pow_pos o.operandBits)
    omega
  · intro h
    rw [h] at hdiv
    omega

theorem eq_of_fixed_bits {o o' : Operation} {w : Word} (h : w &&& ~~~o.operandMask = o.base)
    (h' : w &&& ~~~o'.operandMask = o'.base) : o = o' := by
  -- What both masks leave of the word is what each leaves of the other operation's bits.
  have hall : ∀ o ∈ all, ∀ o' ∈ all,
      o.base &&& ~~~o'.operandMask = o'.base &&& ~~~o.operandMask → o = o' := by decide +kernel
  apply hall o (mem_all o) o' (mem_all o')
  rw [← h, ← h', BitVec.and_assoc, BitVec.and_assoc, BitVec.and_comm (~~~o.operandMask)]

theorem ofWord?_eq_some_iff {w : Word} {o : Operation} : ofWord? w = some o ↔
    w.toNat / 2 ^ o.operandBits = o.base.toNat / 2 ^ o.operandBits := by
  unfold ofWord?
  rw [find?_all_eq_some_iff, beq_iff_eq, and_not_mask_eq_base_iff]
  intro o o' h h'
  exact eq_of_fixed_bits (beq_iff_eq.mp h) (beq_iff_eq.mp h')

theorem toNat_ofInt_mod {bits : Nat} (h : bits ≤ 16) (v : Int) :
    (Word.ofInt v).toNat % 2 ^ bits = (v % 2 ^ bits).toNat := by
  have hdvd : (2 : Int) ^ bits ∣ 2 ^ 16 := by exact_mod_cast Nat.pow_dvd_pow 2 h
  have hcast : ((Word.ofInt v).toNat % 2 ^ bits : Nat) = v % 2 ^ bits := by
    rw [Int.natCast_emod, Word.toNat_ofInt, Int.natCast_pow]
    exact Int.emod_emod_of_dvd v hdvd
  rw [← hcast]
  rfl

/-- The operand of an encoded word is added to the word of the operation. -/
theorem toNat_encode (o : Operation) (v : Int) :
    (o.encode v).toNat = o.base.toNat + (v % 2 ^ o.operandBits).toNat := by
  have hdisjoint : o.base &&& (Word.ofInt v &&& o.operandMask) = 0#16 := by
    rw [BitVec.and_comm (Word.ofInt v), ← BitVec.and_assoc, base_and_mask, BitVec.zero_and]
  unfold encode
  rw [← BitVec.add_eq_or_of_and_eq_zero _ _ hdisjoint, BitVec.toNat_add_of_and_eq_zero hdisjoint,
    toNat_and_mask, toNat_ofInt_mod o.operandBits_le]

theorem operand_lt (o : Operation) (v : Int) :
    (v % 2 ^ o.operandBits).toNat < 2 ^ o.operandBits := by
  rw [← toNat_ofInt_mod o.operandBits_le]
  exact Nat.mod_lt _ (Nat.two_pow_pos _)

theorem encode_of_no_operand {o : Operation} (h : ¬ o.takesOperand) (v : Int) :
    o.encode v = o.base := by
  apply BitVec.eq_of_toNat_eq
  rw [toNat_encode, operandBits_eq_zero h, Int.pow_zero, Int.emod_one]
  rfl

@[simp] theorem ofWord?_encode (o : Operation) (v : Int) : ofWord? (o.encode v) = some o := by
  obtain ⟨q, hq⟩ := Nat.dvd_of_mod_eq_zero o.base_mod
  rw [ofWord?_eq_some_iff, toNat_encode, hq, Nat.mul_add_div (Nat.two_pow_pos _),
    Nat.div_eq_of_lt (operand_lt o v), Nat.mul_div_cancel_left _ (Nat.two_pow_pos _), Nat.add_zero]

theorem encode_and_mask (o : Operation) (v : Int) :
    (o.encode v &&& o.operandMask).toNat = (v % 2 ^ o.operandBits).toNat := by
  rw [toNat_and_mask, toNat_encode, Nat.add_mod, base_mod, Nat.zero_add, Nat.mod_mod,
    Nat.mod_eq_of_lt (operand_lt o v)]

def ofGroup? : Nat → Option Operation
  | 0x0 => some lodd | 0x1 => some stod | 0x2 => some addd | 0x3 => some subd
  | 0x4 => some jpos | 0x5 => some jzer | 0x6 => some jump | 0x7 => some loco
  | 0x8 => some lodl | 0x9 => some stol | 0xA => some addl | 0xB => some subl
  | 0xC => some jneg | 0xD => some jnze | 0xE => some call | _ => none

def ofUpperByte? : Nat → Option Operation
  | 0xFC => some insp | 0xFE => some desp | _ => none

def ofWhole? : Nat → Option Operation
  | 0xF000 => some pshi | 0xF200 => some popi | 0xF400 => some push | 0xF600 => some pop
  | 0xF800 => some retn | 0xFA00 => some swap | 0xFFFF => some halt | _ => none

def byLevels? (w : Word) : Option Operation :=
  if w.toNat / 2 ^ 12 = Instruction.extendedGroup then
    (ofUpperByte? (w.toNat / 2 ^ 8)).or (ofWhole? w.toNat)
  else ofGroup? (w.toNat / 2 ^ 12)

theorem ofGroup?_eq_some {g : Nat} {o : Operation} (h : ofGroup? g = some o) :
    o.operandBits = 12 ∧ g = o.base.toNat / 2 ^ 12 := by
  unfold ofGroup? at h
  split at h <;> cases h <;> exact ⟨rfl, rfl⟩

theorem ofUpperByte?_eq_some {b : Nat} {o : Operation} (h : ofUpperByte? b = some o) :
    o.operandBits = 8 ∧ b = o.base.toNat / 2 ^ 8 := by
  unfold ofUpperByte? at h
  split at h <;> cases h <;> exact ⟨rfl, rfl⟩

theorem ofWhole?_eq_some {n : Nat} {o : Operation} (h : ofWhole? n = some o) :
    o.operandBits = 0 ∧ n = o.base.toNat := by
  unfold ofWhole? at h
  split at h <;> cases h <;> exact ⟨rfl, rfl⟩

theorem ofWord?_of_byLevels? {w : Word} {o : Operation} (h : byLevels? w = some o) :
    ofWord? w = some o := by
  rw [ofWord?_eq_some_iff]
  unfold byLevels? at h
  split at h
  next =>
    rcases Option.or_eq_some_iff.mp h with h | ⟨-, h⟩
    · obtain ⟨hbits, hbyte⟩ := ofUpperByte?_eq_some h
      rw [hbits, hbyte]
    · obtain ⟨hbits, hword⟩ := ofWhole?_eq_some h
      rw [hbits, hword]
  next =>
    obtain ⟨hbits, hgroup⟩ := ofGroup?_eq_some h
    rw [hbits, hgroup]

theorem isSome_byLevels? {w : Word} {o : Operation} (h : ofWord? w = some o) :
    (byLevels? w).isSome := by
  -- The width of its operand tells in which table an operation stands.
  have htables : ∀ o ∈ all,
      (o.operandBits = 12 ∧ o.base.toNat / 2 ^ 12 ≠ Instruction.extendedGroup ∧
        (ofGroup? (o.base.toNat / 2 ^ 12)).isSome) ∨
      (o.operandBits = 8 ∧ o.base.toNat / 2 ^ 8 / 16 = Instruction.extendedGroup ∧
        (ofUpperByte? (o.base.toNat / 2 ^ 8)).isSome) ∨
      (o.operandBits = 0 ∧ o.base.toNat / 2 ^ 12 = Instruction.extendedGroup ∧
        (ofWhole? o.base.toNat).isSome) := by decide +kernel
  rw [ofWord?_eq_some_iff] at h
  unfold byLevels?
  rcases htables o (mem_all o) with ⟨hbits, hgroup, hsome⟩ | ⟨hbits, hgroup, hsome⟩ |
    ⟨hbits, hgroup, hsome⟩
  · rw [hbits] at h
    rw [h, if_neg hgroup]
    exact hsome
  · rw [hbits] at h
    have hword : w.toNat / 2 ^ 12 = Instruction.extendedGroup := by omega
    rw [if_pos hword, h, Option.isSome_or, hsome, Bool.true_or]
  · rw [hbits, Nat.pow_zero, Nat.div_one, Nat.div_one] at h
    rw [h, if_pos hgroup, Option.isSome_or, hsome, Bool.or_true]

theorem ofWord?_eq_byLevels? (w : Word) : ofWord? w = byLevels? w := by
  cases h : ofWord? w with
  | none =>
    cases h' : byLevels? w with
    | none => rfl
    | some o => rw [← h, ofWord?_of_byLevels? h']
  | some o =>
    obtain ⟨o', ho'⟩ := Option.isSome_iff_exists.mp (isSome_byLevels? h)
    rw [ho', ← h, ofWord?_of_byLevels? ho']

end Operation

/-- What a token gives as an operand: the address of a label, else its literal. -/
def OperandGiven (labels : Labels) (token : Text) (v : Int) : Prop :=
  labels.find? token = some v ∨ labels.find? token = none ∧ Literal.read token = .ok (some v)

/-- A word that is read as an operation with an operand, zero where it takes none. -/
structure ReadsAs (w : Word) (o : Operation) (operand : Nat) : Prop where
  known : (decode w).known
  operation : (decode w).operation = some o
  levels : Operation.byLevels? w = some o
  operand_eq : o.takesOperand → (decode w).operand.toNat = operand
  listing : disassemble w = if o.takesOperand then s!"{o.mnemonic} {operand}" else o.mnemonic
  fixed : w &&& ~~~o.operandMask = o.base

/-- A word that says what the tokens of its line do. -/
structure SaysTokens (labels : Labels) (first : Text) (rest : List Text) (n : Int) : Prop where
  operation : ∀ o : Operation, first.upper = o.mnemonic.toList →
    if o.takesOperand then
      ∃ token more v, rest = token :: more ∧ OperandGiven labels token v ∧
        n = o.base.toNat + v % 2 ^ o.operandBits ∧
        ReadsAs (Word.ofInt n) o (v % 2 ^ o.operandBits).toNat
    else n = o.base.toNat ∧ ReadsAs (Word.ofInt n) o 0
  data : (∀ o : Operation, first.upper ≠ o.mnemonic.toList) →
    (∃ v, Literal.read first = .ok (some v) ∧ n = v % 2 ^ 16) ∨
      (Literal.read first = .ok none ∧ labels.find? first = some n)

theorem operand_decode {w : Word} {o : Operation} (h : (decode w).operation = some o)
    (ht : o.takesOperand) : (decode w).operand = w &&& o.operandMask := by
  unfold Instruction.operand
  rw [h]
  cases o <;> first | rfl | cases ht

theorem readsAs_encode (o : Operation) (v : Int) :
    ReadsAs (o.encode v) o (v % 2 ^ o.operandBits).toNat := by
  have hword := o.ofWord?_encode v
  have hoperand : o.takesOperand →
      (decode (o.encode v)).operand.toNat = (v % 2 ^ o.operandBits).toNat := fun ht => by
    rw [operand_decode hword ht, o.encode_and_mask v]
  refine ⟨?_, hword, ?_, hoperand, ?_, ?_⟩
  · unfold Instruction.known decode
    rw [hword]
    rfl
  · rw [← Operation.ofWord?_eq_byLevels?, hword]
  · unfold disassemble Instruction.listing
    rw [show (decode (o.encode v)).operation = some o from hword]
    dsimp only
    split
    next ht => rw [hoperand ht]
    next => rfl
  · rw [Operation.and_not_mask_eq_base_iff, ← Operation.ofWord?_eq_some_iff, hword]

section
variable {labels : Labels} {body first : Text} {rest : List Text} {n : Int}

theorem operandValue_ok {token : Text} {v : Int} (h : operandValue labels token = .ok (some v)) :
    OperandGiven labels token v := by
  unfold operandValue at h
  split at h
  next heq =>
    cases h
    exact .inl heq
  next heq => exact .inr ⟨heq, h⟩

theorem bind_eq_ok {ε α β : Type} {x : Except ε α} {f : α → Except ε β} {b : β} :
    (x >>= f) = .ok b ↔ ∃ a, x = .ok a ∧ f a = .ok b := by
  cases x <;> simp [bind, Except.bind]

theorem encodeOperation_ok {o : Operation} (h : encodeOperation labels o rest = .ok (.ok n)) :
    if o.takesOperand then
      ∃ token more v, rest = token :: more ∧ OperandGiven labels token v ∧
        n = o.base.toNat + v % 2 ^ o.operandBits ∧
        ReadsAs (Word.ofInt n) o (v % 2 ^ o.operandBits).toNat
    else n = o.base.toNat ∧ ReadsAs (Word.ofInt n) o 0 := by
  unfold encodeOperation at h
  split at h
  next ht =>
    rw [if_pos ht]
    split at h
    next => cases h
    next token more =>
      obtain ⟨value, hvalue, h⟩ := bind_eq_ok.mp h
      cases value with
      | none => cases h
      | some v =>
        cases h
        rw [Word.ofInt_toNat]
        refine ⟨token, more, v, rfl, operandValue_ok hvalue, ?_, readsAs_encode o v⟩
        rw [o.toNat_encode, Int.natCast_add, Int.toNat_of_nonneg]
        exact Int.emod_nonneg v (Int.ne_of_gt (Int.pow_pos (by decide)))
  next ht =>
    cases h
    have hreads := readsAs_encode o 0
    rw [o.encode_of_no_operand ht, Int.zero_emod] at hreads
    rw [if_neg ht, Word.ofInt_toNat]
    exact ⟨rfl, hreads⟩

theorem encodeData_ok (h : encodeData labels first = .ok (.ok n)) :
    (∃ v, Literal.read first = .ok (some v) ∧ n = v % 2 ^ 16) ∨
      (Literal.read first = .ok none ∧ labels.find? first = some n) := by
  obtain ⟨value, hvalue, h⟩ := bind_eq_ok.mp h
  cases value with
  | some v =>
    cases h
    exact .inl ⟨v, hvalue, Word.toNat_ofInt v⟩
  | none =>
    dsimp only at h
    split at h
    next addr heq =>
      cases h
      exact .inr ⟨hvalue, heq⟩
    next => cases h

theorem ofMnemonic?_eq_none_iff {s : Text} :
    Operation.ofMnemonic? s = none ↔ ∀ o : Operation, s ≠ o.mnemonic.toList := by
  rw [Option.eq_none_iff_forall_ne_some]
  simp only [ne_eq, Operation.ofMnemonic?_eq_some_iff]

theorem encodeBody_of_mnemonic {o : Operation}
    (words : body.words = first :: rest) (mnemonic : first.upper = o.mnemonic.toList) :
    encodeBody labels body = encodeOperation labels o rest := by
  unfold encodeBody
  rw [words]
  dsimp only
  rw [Operation.ofMnemonic?_eq_some_iff.mpr mnemonic]

theorem encodeBody_of_plain (words : body.words = first :: rest)
    (plain : ∀ o : Operation, first.upper ≠ o.mnemonic.toList) :
    encodeBody labels body = encodeData labels first := by
  unfold encodeBody
  rw [words]
  dsimp only
  rw [ofMnemonic?_eq_none_iff.mpr plain]

theorem encodeBody_of_no_words (words : body.words = []) :
    encodeBody labels body = .error .outOfRange := by
  unfold encodeBody
  rw [words]

theorem encodeBody_cases (labels : Labels) (words : body.words = first :: rest) :
    (∃ o : Operation, first.upper = o.mnemonic.toList ∧
      encodeBody labels body = encodeOperation labels o rest) ∨
    (∀ o : Operation, first.upper ≠ o.mnemonic.toList) ∧
      encodeBody labels body = encodeData labels first := by
  cases ho : Operation.ofMnemonic? first.upper with
  | none =>
    have plain := ofMnemonic?_eq_none_iff.mp ho
    exact .inr ⟨plain, encodeBody_of_plain words plain⟩
  | some o =>
    have mnemonic := Operation.ofMnemonic?_eq_some_iff.mp ho
    exact .inl ⟨o, mnemonic, encodeBody_of_mnemonic words mnemonic⟩

theorem encodeBody_ok (h : encodeBody labels body = .ok (.ok n)) :
    ∃ first rest, body.words = first :: rest ∧ SaysTokens labels first rest n := by
  cases hwords : body.words with
  | nil =>
    rw [encodeBody_of_no_words hwords] at h
    cases h
  | cons first rest =>
    refine ⟨first, rest, rfl, fun o ho => ?_, fun hnone => ?_⟩
    · rw [encodeBody_of_mnemonic hwords ho] at h
      exact encodeOperation_ok h
    · rw [encodeBody_of_plain hwords hnone] at h
      exact encodeData_ok h

end

theorem word_of_body {a : Assembly} {src body : Text} {i : Nat} (h : assemble src = .ok a)
    (hok : a.ok) (hi : (Outline.ofLines [] (codeLines src)).bodies[i]? = some body) :
    ∃ n, a.image[i]? = some n ∧ encodeBody a.labels body = .ok (.ok n) := by
  rw [← Array.getElem?_toList, (Outline.isOf_ofLines _).bodies_eq] at hi
  have hword := congrArg (·[i]?) (Assembly.words_of_ok h hok)
  simp only [List.getElem?_map, hi, Option.map_some] at hword
  obtain ⟨n, hn, heq⟩ := Option.map_eq_some_iff.mp hword.symm
  rw [Array.getElem?_toList] at hn
  exact ⟨n, hn, heq.symm⟩

/-- A word of a program without errors is read back as the mnemonic and the operand of its line. -/
theorem words_read_back {a : Assembly} {src body : Text} {i : Nat} (h : assemble src = .ok a)
    (hok : a.ok) (hi : (Outline.ofLines [] (codeLines src)).bodies[i]? = some body) :
    ∃ first rest n, body.words = first :: rest ∧ a.image[i]? = some n ∧
      SaysTokens a.labels first rest n := by
  obtain ⟨n, hn, hbody⟩ := word_of_body h hok hi
  obtain ⟨first, rest, hwords, hsays⟩ := encodeBody_ok hbody
  exact ⟨first, rest, n, hwords, hn, hsays⟩

theorem words_read_back_desp :
    let src := "LOCO -1\nx: JUMP x\ndesp 0x1FF\n-2".toList
    let a : Assembly := ⟨#[0x7FFF, 0x6001, 0xFEFF, 0xFFFE], #[], #[], [("x".toList, 1)]⟩
    assemble src = .ok a ∧ a.ok ∧
      (Outline.ofLines [] (codeLines src)).bodies[2]? = some "desp 0x1FF".toList ∧
      ∃ first rest n, Text.words "desp 0x1FF".toList = first :: rest ∧ a.image[2]? = some n ∧
        SaysTokens a.labels first rest n := by
  intro src a
  exact ⟨rfl, rfl, rfl, @words_read_back a src _ 2 rfl rfl rfl⟩

end AccMachine
