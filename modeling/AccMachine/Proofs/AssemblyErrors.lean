import AccMachine.Proofs.CodeLines
import AccMachine.Proofs.Decoding
import AccMachine.Proofs.LiteralGrammar

namespace AccMachine

/-- A decimal literal with more digits than are read. -/
def Literal.TooLong (token : Text) : Prop :=
  ∃ sign digits, token.strip = sign ++ digits ∧ sign ∈ ([[], ['+'], ['-']] : List Text) ∧
    (∀ c ∈ digits, c.isDigit) ∧ Numeral.maxDecimalDigits < digits.length

/-- A body with a literal that is too long where a word of data or an operand has to be read. -/
inductive Overlong (labels : Labels) (body : Text) : Prop
  | data {first : Text} {rest : List Text} (words : body.words = first :: rest)
      (plain : ∀ o : Operation, first.upper ≠ o.mnemonic.toList)
      (long : Literal.TooLong first)
  | operand {first token : Text} {rest : List Text} {o : Operation}
      (words : body.words = first :: token :: rest)
      (mnemonic : first.upper = o.mnemonic.toList) (takes : o.takesOperand)
      (unlabelled : labels.find? token = none) (long : Literal.TooLong token)

/-- A body with a token that is no mnemonic, no label and no integer, or that lacks its operand. -/
inductive Fails (labels : Labels) (body : Text) : LineError → Prop
  | command {first : Text} {rest : List Text} (words : body.words = first :: rest)
      (plain : ∀ o : Operation, first.upper ≠ o.mnemonic.toList)
      (unlabelled : labels.find? first = none) (unread : Literal.read first = .ok none) :
      Fails labels body (.unknownCommand first)
  | missing {first : Text} {o : Operation} (words : body.words = [first])
      (mnemonic : first.upper = o.mnemonic.toList) (takes : o.takesOperand) :
      Fails labels body (.missingOperand o)
  | operand {first token : Text} {rest : List Text} {o : Operation}
      (words : body.words = first :: token :: rest)
      (mnemonic : first.upper = o.mnemonic.toList) (takes : o.takesOperand)
      (unlabelled : labels.find? token = none) (unread : Literal.read token = .ok none) :
      Fails labels body (.badOperand token)

def wordOf? (labels : Labels) (body : Text) : Option Int :=
  (encodeBody labels body).toOption.bind Except.toOption

def HasOverlong (src : Text) : Prop :=
  ∃ body ∈ (Outline.ofLines [] (codeLines src)).bodies.toList,
    Overlong (Outline.ofLines [] (codeLines src)).labels body

/-- An assembly with the errors of all the bodies that fail, and the words of all the others. -/
structure Assembly.Collects (a : Assembly) (bodies : List Text) : Prop where
  errors : ∀ n e, ⟨n, e⟩ ∈ a.errors.toList ↔
    ∃ i body, n = i + 1 ∧ bodies[i]? = some body ∧ Fails a.labels body e
  ordered : a.errors.toList.Pairwise (·.line < ·.line)
  messages : a.errorMessages =
    a.errors.toList.map fun e => s!"Erro linha {e.line}: {e.cause.message}"
  words : ∀ body ∈ bodies, (∃ e, Fails a.labels body e) ∨
    ∃ first rest w, body.words = first :: rest ∧ wordOf? a.labels body = some w ∧
      SaysTokens a.labels first rest w
  image : a.image.toList = bodies.filterMap (wordOf? a.labels)

namespace Literal

theorem spells_ten_iff {t : Text} {negative : Bool} {values : List Nat} :
    Spells t negative 10 values ↔ ∃ sign digits : Text, t = sign ++ digits ∧
      (sign, negative) ∈ signs ∧ digits ≠ [] ∧ (∀ c ∈ digits, c.isDigit) ∧
        values = digits.map Numeral.digitValue := by
  constructor
  · rintro ⟨sign, opening, digits, rfl, hsign, hopening, hne, hfigures⟩
    obtain ⟨rfl, hdigits⟩ := (forall₂_figure_iff (by decide)).mp hfigures
    have hnone : ∀ e ∈ openings, e.2 = 10 → e.1 = [] := by decide
    obtain rfl : opening = [] := hnone _ hopening rfl
    exact ⟨sign, digits, by rw [List.append_nil], hsign, hne,
      fun c hc => isDigit_of_digitValue_lt (hdigits c hc), rfl⟩
  · rintro ⟨sign, digits, rfl, hsign, hne, hdigits, rfl⟩
    refine ⟨sign, [], digits, by rw [List.append_nil], hsign, by simp [openings], hne, ?_⟩
    exact (forall₂_figure_iff (by decide)).mpr
      ⟨rfl, fun c hc => Numeral.digitValue_of_isDigit (hdigits c hc)⟩

/-- A literal that is too long is the one text that cannot even be found to be no literal. -/
theorem read_eq_error_iff {s : Text} {f : Fault} :
    read s = .error f ↔ f = .badValue ∧ TooLong s := by
  rw [read_faults_iff]
  refine and_congr_right fun _ => ?_
  constructor
  · rintro ⟨negative, values, hspells, hlong⟩
    obtain ⟨sign, digits, happend, hsign, -, hdigits, rfl⟩ := spells_ten_iff.mp hspells
    rw [List.length_map] at hlong
    have hmem : ∀ e ∈ signs, e.1 ∈ ([[], ['+'], ['-']] : List Text) := by decide
    exact ⟨sign, digits, happend, hmem _ hsign, hdigits, hlong⟩
  · rintro ⟨sign, digits, happend, hsign, hdigits, hlong⟩
    have hmem : ∀ sign ∈ ([[], ['+'], ['-']] : List Text),
        ∃ negative ∈ [false, true], (sign, negative) ∈ signs := by decide
    obtain ⟨negative, -, hsign'⟩ := hmem sign hsign
    have hne : digits ≠ [] := by
      rintro rfl
      cases hlong
    exact ⟨negative, _, spells_ten_iff.mpr ⟨sign, digits, happend, hsign', hne, hdigits, rfl⟩,
      by rwa [List.length_map]⟩

theorem TooLong.upper_ne {token : Text} (h : TooLong token) (o : Operation) :
    token.upper ≠ o.mnemonic.toList := by
  obtain ⟨sign, digits, hstrip, -, -, hlong⟩ := h
  have hshort : ∀ o ∈ Operation.all, o.mnemonic.toList.length ≤ 4 := by decide +kernel
  have hmnemonic := hshort o o.mem_all
  have hstripped := Text.length_strip_le token
  have hupper := Text.length_le_length_upper token
  rw [hstrip, List.length_append] at hstripped
  unfold Numeral.maxDecimalDigits at hlong
  intro heq
  rw [heq] at hupper
  omega

end Literal

section
variable {labels : Labels} {body : Text}

theorem bind_eq_error {ε α β : Type} {x : Except ε α} {f : α → Except ε β} {e : ε} :
    (x >>= f) = .error e ↔ x = .error e ∨ ∃ a, x = .ok a ∧ f a = .error e := by
  cases x <;> simp [bind, Except.bind]

theorem operandValue_eq_error_iff {token : Text} {f : Fault} :
    operandValue labels token = .error f ↔
      f = .badValue ∧ labels.find? token = none ∧ Literal.TooLong token := by
  unfold operandValue
  cases h : labels.find? token with
  | some addr => simp
  | none => simp [Literal.read_eq_error_iff]

theorem operandValue_eq_none_iff {token : Text} :
    operandValue labels token = .ok none ↔
      labels.find? token = none ∧ Literal.read token = .ok none := by
  unfold operandValue
  cases h : labels.find? token <;> simp

theorem encodeData_eq_error_iff {token : Text} {f : Fault} :
    encodeData labels token = .error f ↔ f = .badValue ∧ Literal.TooLong token := by
  unfold encodeData
  rw [bind_eq_error, Literal.read_eq_error_iff]
  constructor
  · rintro (h | ⟨value, -, h⟩)
    · exact h
    · cases value with
      | some n => cases h
      | none =>
        dsimp only at h
        split at h <;> cases h
  · exact .inl

theorem encodeData_eq_ok_error_iff {token : Text} {e : LineError} :
    encodeData labels token = .ok (.error e) ↔
      e = .unknownCommand token ∧ labels.find? token = none ∧ Literal.read token = .ok none := by
  unfold encodeData
  rw [bind_eq_ok]
  constructor
  · rintro ⟨value, hread, h⟩
    cases value with
    | some n => cases h
    | none =>
      dsimp only at h
      split at h
      next => cases h
      next hnone =>
        cases h
        exact ⟨rfl, hnone, hread⟩
  · rintro ⟨rfl, hnone, hread⟩
    refine ⟨none, hread, ?_⟩
    dsimp only
    rw [hnone]
    rfl

theorem encodeOperation_eq_error_iff {o : Operation} {rest : List Text} {f : Fault} :
    encodeOperation labels o rest = .error f ↔ f = .badValue ∧ o.takesOperand ∧
      ∃ token more, rest = token :: more ∧ labels.find? token = none ∧ Literal.TooLong token := by
  unfold encodeOperation
  cases ht : o.takesOperand with
  | false => simp
  | true =>
    rw [if_pos rfl]
    cases rest with
    | nil => simp
    | cons token more =>
      dsimp only
      rw [bind_eq_error, operandValue_eq_error_iff]
      constructor
      · rintro (⟨rfl, hnone, hlong⟩ | ⟨value, -, h⟩)
        · exact ⟨rfl, rfl, token, more, rfl, hnone, hlong⟩
        · cases value <;> cases h
      · rintro ⟨rfl, -, _, _, heq, hnone, hlong⟩
        cases heq
        exact .inl ⟨rfl, hnone, hlong⟩

theorem encodeOperation_eq_ok_error_iff {o : Operation} {rest : List Text} {e : LineError} :
    encodeOperation labels o rest = .ok (.error e) ↔ o.takesOperand ∧
      (rest = [] ∧ e = .missingOperand o ∨ ∃ token more, rest = token :: more ∧
        e = .badOperand token ∧ labels.find? token = none ∧ Literal.read token = .ok none) := by
  unfold encodeOperation
  cases ht : o.takesOperand with
  | false => simp
  | true =>
    rw [if_pos rfl]
    cases rest with
    | nil => simp [eq_comm]
    | cons token more =>
      dsimp only
      rw [bind_eq_ok]
      constructor
      · rintro ⟨value, hvalue, h⟩
        cases value with
        | some n => cases h
        | none =>
          cases h
          obtain ⟨hnone, hread⟩ := operandValue_eq_none_iff.mp hvalue
          exact ⟨rfl, .inr ⟨token, more, rfl, rfl, hnone, hread⟩⟩
      · rintro ⟨-, ⟨hnil, -⟩ | ⟨_, _, heq, rfl, hnone, hread⟩⟩
        · cases hnil
        · cases heq
          exact ⟨none, operandValue_eq_none_iff.mpr ⟨hnone, hread⟩, rfl⟩

/-- Apart from a body without tokens, nothing but an overlong literal stops the second pass. -/
theorem encodeBody_eq_error_iff {f : Fault} (hwords : body.words ≠ []) :
    encodeBody labels body = .error f ↔ f = .badValue ∧ Overlong labels body := by
  constructor
  · intro h
    obtain ⟨first, rest, heq⟩ := List.exists_cons_of_ne_nil hwords
    rcases encodeBody_cases labels heq with ⟨o, hmnemonic, hbody⟩ | ⟨hplain, hbody⟩
    · rw [hbody, encodeOperation_eq_error_iff] at h
      obtain ⟨rfl, ht, token, more, rfl, hnone, hlong⟩ := h
      exact ⟨rfl, .operand heq hmnemonic ht hnone hlong⟩
    · rw [hbody, encodeData_eq_error_iff] at h
      exact ⟨h.1, .data heq hplain h.2⟩
  · rintro ⟨rfl, hover⟩
    cases hover with
    | data heq hplain hlong =>
      rw [encodeBody_of_plain heq hplain]
      exact encodeData_eq_error_iff.mpr ⟨rfl, hlong⟩
    | operand heq hmnemonic ht hnone hlong =>
      rw [encodeBody_of_mnemonic heq hmnemonic]
      exact encodeOperation_eq_error_iff.mpr ⟨rfl, ht, _, _, rfl, hnone, hlong⟩

theorem encodeBody_eq_ok_error_iff {e : LineError} :
    encodeBody labels body = .ok (.error e) ↔ Fails labels body e := by
  constructor
  · intro h
    cases heq : body.words with
    | nil =>
      rw [encodeBody_of_no_words heq] at h
      cases h
    | cons first rest =>
      rcases encodeBody_cases labels heq with ⟨o, hmnemonic, hbody⟩ | ⟨hplain, hbody⟩
      · rw [hbody, encodeOperation_eq_ok_error_iff] at h
        obtain ⟨ht, ⟨rfl, rfl⟩ | ⟨token, more, rfl, rfl, hnone, hread⟩⟩ := h
        · exact .missing heq hmnemonic ht
        · exact .operand heq hmnemonic ht hnone hread
      · rw [hbody, encodeData_eq_ok_error_iff] at h
        obtain ⟨rfl, hnone, hread⟩ := h
        exact .command heq hplain hnone hread
  · intro h
    cases h with
    | command heq hplain hnone hread =>
      rw [encodeBody_of_plain heq hplain]
      exact encodeData_eq_ok_error_iff.mpr ⟨rfl, hnone, hread⟩
    | missing heq hmnemonic ht =>
      rw [encodeBody_of_mnemonic heq hmnemonic]
      exact encodeOperation_eq_ok_error_iff.mpr ⟨ht, .inl ⟨rfl, rfl⟩⟩
    | operand heq hmnemonic ht hnone hread =>
      rw [encodeBody_of_mnemonic heq hmnemonic]
      exact encodeOperation_eq_ok_error_iff.mpr ⟨ht, .inr ⟨_, _, rfl, rfl, hnone, hread⟩⟩

theorem wordOf?_eq_some_iff {w : Int} :
    wordOf? labels body = some w ↔ encodeBody labels body = .ok (.ok w) := by
  unfold wordOf?
  rcases encodeBody labels body with f | e | v <;> simp [Except.toOption]

end

theorem codeLine_ne_blank {src line : Text} (h : line ∈ codeLines src) :
    ∃ c ∈ line, isBlank c = false := by
  obtain ⟨hmem, hne⟩ := List.mem_filter.mp h
  obtain ⟨l, -, rfl⟩ := List.mem_map.mp hmem
  exact Text.exists_mem_strip (by simpa using hne)

theorem words_ne_nil_of_mem_bodies {src body : Text}
    (h : body ∈ (Outline.ofLines [] (codeLines src)).bodies.toList) : body.words ≠ [] := by
  rw [(Outline.isOf_ofLines (codeLines src)).bodies_eq] at h
  obtain ⟨hmem, hne⟩ := List.mem_filter.mp h
  obtain ⟨line, hline, rfl⟩ := List.mem_map.mp hmem
  have hmark : ∃ c ∈ bodyOf line, isBlank c = false := by
    unfold bodyOf at hne ⊢
    split at hne
    next hcolon =>
      rw [if_pos hcolon]
      exact Text.exists_mem_strip (by simpa using hne)
    next hcolon =>
      rw [if_neg hcolon]
      exact codeLine_ne_blank hline
  obtain ⟨c, hc, hblank⟩ := hmark
  exact Text.words_ne_nil hc hblank

theorem mem_numberedErrors_iff {k n : Nat} {e : LineError}
    {outcomes : List (Except LineError Int)} : ⟨n, e⟩ ∈ numberedErrors k outcomes ↔
      ∃ i, n = i + k ∧ outcomes[i]? = some (.error e) := by
  unfold numberedErrors
  simp only [List.mem_filterMap, Prod.exists, List.mem_zipIdx_iff_le_and_getElem?_sub]
  constructor
  · rintro ⟨outcome, m, ⟨hle, hget⟩, h⟩
    cases outcome with
    | ok w => cases h
    | error e' =>
      cases h
      exact ⟨n - k, by omega, hget⟩
  · rintro ⟨i, rfl, hget⟩
    exact ⟨.error e, i + k, ⟨by omega, by simpa using hget⟩, rfl⟩

theorem numberedErrors_pairwise (k : Nat) (outcomes : List (Except LineError Int)) :
    (numberedErrors k outcomes).Pairwise (·.line < ·.line) := by
  induction outcomes generalizing k with
  | nil => exact .nil
  | cons outcome outcomes ih =>
    rw [numberedErrors_cons]
    cases outcome with
    | ok w => exact ih (k + 1)
    | error e =>
      refine List.pairwise_cons.mpr ⟨?_, ih (k + 1)⟩
      rintro ⟨n, e'⟩ hmem
      obtain ⟨i, rfl, -⟩ := mem_numberedErrors_iff.mp hmem
      dsimp only
      omega

namespace Assembly

theorem encodeFrom_faults {a a' : Assembly} {n : Nat} {texts : List Text} {f : Fault}
    (h : a.encodeFrom n texts = (a', some f)) :
    ∃ body ∈ texts, encodeBody a.labels body = .error f := by
  induction texts generalizing a n with
  | nil => cases h
  | cons body texts ih =>
    unfold encodeFrom at h
    split at h
    next f' heq =>
      cases h
      exact ⟨body, by simp, heq⟩
    next e _ =>
      obtain ⟨body', hmem, heq⟩ := ih h
      exact ⟨body', by simp [hmem], heq⟩
    next w _ =>
      obtain ⟨body', hmem, heq⟩ := ih h
      exact ⟨body', by simp [hmem], heq⟩

section
variable {labels : Labels} {bodies : List Text} {outcomes : List (Except LineError Int)}

theorem exists_outcome (hmap : bodies.map (encodeBody labels) = outcomes.map Except.ok)
    {body : Text} (hmem : body ∈ bodies) : ∃ outcome, encodeBody labels body = .ok outcome := by
  have hbody : encodeBody labels body ∈ outcomes.map Except.ok := hmap ▸ List.mem_map_of_mem hmem
  obtain ⟨outcome, -, heq⟩ := List.mem_map.mp hbody
  exact ⟨outcome, heq.symm⟩

theorem getElem?_outcomes (hmap : bodies.map (encodeBody labels) = outcomes.map Except.ok)
    {i : Nat} {outcome : Except LineError Int} : outcomes[i]? = some outcome ↔
      ∃ body, bodies[i]? = some body ∧ encodeBody labels body = .ok outcome := by
  have hi : (bodies.map (encodeBody labels))[i]? = (outcomes.map Except.ok)[i]? := by rw [hmap]
  rw [List.getElem?_map, List.getElem?_map] at hi
  constructor
  · intro ho
    rw [ho] at hi
    exact Option.map_eq_some_iff.mp hi
  · rintro ⟨body, hb, hbody⟩
    rw [hb, Option.map_some, hbody] at hi
    obtain ⟨outcome', ho, heq⟩ := Option.map_eq_some_iff.mp hi.symm
    cases heq
    exact ho

end

theorem collects_of_outcomes {a : Assembly} {bodies : List Text}
    {outcomes : List (Except LineError Int)}
    (hmap : bodies.map (encodeBody a.labels) = outcomes.map Except.ok)
    (himage : a.image.toList = outcomes.filterMap Except.toOption)
    (herrors : a.errors.toList = numberedErrors 1 outcomes) : a.Collects bodies where
  errors n e := by
    rw [herrors, mem_numberedErrors_iff]
    simp only [getElem?_outcomes hmap, encodeBody_eq_ok_error_iff, exists_and_left]
  ordered := by
    rw [herrors]
    exact numberedErrors_pairwise 1 outcomes
  messages := rfl
  words body hmem := by
    obtain ⟨outcome, hbody⟩ := exists_outcome hmap hmem
    cases outcome with
    | error e => exact .inl ⟨e, encodeBody_eq_ok_error_iff.mp hbody⟩
    | ok w =>
      obtain ⟨first, rest, hwords, hsays⟩ := encodeBody_ok hbody
      exact .inr ⟨first, rest, w, hwords, wordOf?_eq_some_iff.mpr hbody, hsays⟩
  image := by
    calc a.image.toList
        = (outcomes.map Except.ok).filterMap
            (fun x : Except Fault _ => x.toOption.bind Except.toOption) := by
          rw [himage, List.filterMap_map]
          rfl
      _ = bodies.filterMap (wordOf? a.labels) := by
          rw [← hmap, List.filterMap_map]
          rfl

end Assembly

theorem assemble_error {src : Text} {f : Fault} (h : assemble src = .error f) :
    ∃ body ∈ (Outline.ofLines [] (codeLines src)).bodies.toList,
      encodeBody (Outline.ofLines [] (codeLines src)).labels body = .error f := by
  unfold assemble at h
  split at h
  next a f' hgather =>
    cases h
    exact Assembly.encodeFrom_faults hgather
  next => cases h

theorem not_hasOverlong_of_ok {src : Text} {a : Assembly} (h : assemble src = .ok a) :
    ¬ HasOverlong src := by
  obtain ⟨outcomes, hmap, -, -, hlabels, -⟩ := Assembly.assemble_ok h
  rintro ⟨body, hmem, hlong⟩
  have hfault := (encodeBody_eq_error_iff (words_ne_nil_of_mem_bodies hmem)).mpr ⟨rfl, hlong⟩
  rw [(Outline.isOf_ofLines (codeLines src)).bodies_eq] at hmem
  obtain ⟨outcome, heq⟩ := Assembly.exists_outcome hmap hmem
  rw [hlabels, hfault] at heq
  cases heq

theorem assemble_eq_error_iff {src : Text} {f : Fault} :
    assemble src = .error f ↔ f = .badValue ∧ HasOverlong src := by
  constructor
  · intro h
    obtain ⟨body, hmem, hbody⟩ := assemble_error h
    obtain ⟨rfl, hlong⟩ :=
      (encodeBody_eq_error_iff (words_ne_nil_of_mem_bodies hmem)).mp hbody
    exact ⟨rfl, body, hmem, hlong⟩
  · rintro ⟨rfl, hover⟩
    cases h : assemble src with
    | ok a => exact absurd hover (not_hasOverlong_of_ok h)
    | error f =>
      obtain ⟨body, hmem, hbody⟩ := assemble_error h
      rw [((encodeBody_eq_error_iff (words_ne_nil_of_mem_bodies hmem)).mp hbody).1]

structure PlainLine (line : Text) : Prop extends CodeLine line where
  unlabelled : ':' ∉ line

theorem Outline.add_of_plain {line : Text} (h : PlainLine line) (o : Outline) :
    o.add line = { o with bodies := o.bodies.push line } := by
  have hlabel : labelOf? line = none := if_neg h.unlabelled
  have hbody : bodyOf line = line := if_neg h.unlabelled
  rw [Outline.add_eq, hlabel, hbody, if_neg (by simpa using h.ne_nil)]
  simp

theorem Outline.ofLines_of_plain {ls : List Text} (h : ∀ l ∈ ls, PlainLine l) :
    Outline.ofLines [] ls = ⟨[], ls.toArray, #[]⟩ := by
  induction ls using List.reverseRecOn with
  | nil => rfl
  | append_singleton ls l ih =>
    have hls := ih fun k hk => h k (by simp [hk])
    unfold Outline.ofLines at hls ⊢
    rw [List.foldl_append, hls]
    simp [Outline.add_of_plain (h l (by simp))]

theorem assemble_of_plain {ls : List Text} (h : ∀ l ∈ ls, PlainLine l)
    {outcomes : List (Except LineError Int)}
    (hmap : ls.map (encodeBody []) = outcomes.map Except.ok) :
    ∃ a, assemble (['\n'].intercalate ls) = .ok a ∧ a.labels = [] ∧ a.redefinitions = #[] ∧
      a.image.toList = outcomes.filterMap Except.toOption ∧
      a.errors.toList = numberedErrors 1 outcomes := by
  have hcode : codeLines (['\n'].intercalate ls) = ls :=
    codeLines_intercalate fun l hl => (h l hl).toCodeLine
  have houtline := Outline.ofLines_of_plain h
  have hbodies := (Outline.isOf_ofLines ls).bodies_eq
  rw [houtline] at hbodies
  cases hassemble : assemble (['\n'].intercalate ls) with
  | error f =>
    obtain ⟨body, hmem, hfault⟩ := assemble_error hassemble
    rw [hcode, houtline] at hmem hfault
    obtain ⟨outcome, heq⟩ := Assembly.exists_outcome hmap hmem
    rw [heq] at hfault
    cases hfault
  | ok a =>
    obtain ⟨outcomes', hmap', himage, herrors, hlabels, hredefs⟩ := Assembly.assemble_ok hassemble
    rw [hcode, houtline] at hlabels hredefs
    rw [hcode, ← hbodies, hlabels] at hmap'
    have hsame : outcomes' = outcomes := by
      apply List.map_injective_iff.mpr (fun _ _ => Except.ok.inj)
      exact hmap'.symm.trans hmap
    rw [hsame] at himage herrors
    exact ⟨a, rfl, hlabels, hredefs, himage, herrors⟩

theorem plainLine_of_isDigit {s : Text} (hne : s ≠ []) (h : ∀ c ∈ s, c.isDigit) :
    PlainLine s where
  ne_nil := hne
  marks c hc := @Numeral.forall_isDigit
    (fun c => isLineBreak c = false ∧ c ≠ ';') (by decide) c (h c hc)
  strip_eq := Text.strip_of_no_blank fun c hc => Numeral.not_isBlank_of_isDigit (h c hc)
  unlabelled hc := @Numeral.forall_isDigit (· ≠ ':') (by decide) ':' (h ':' hc) rfl

theorem assemble_overlong_digits {s : Text} (h : ∀ c ∈ s, c.isDigit)
    (hlong : Numeral.maxDecimalDigits < s.length) : assemble s = .error .badValue := by
  have hne : s ≠ [] := List.ne_nil_of_length_pos (Nat.zero_lt_of_lt hlong)
  have hline := plainLine_of_isDigit hne h
  have hlines : ∀ l ∈ [s], PlainLine l := by simpa using hline
  have hcode : codeLines s = [s] := by
    simpa using codeLines_intercalate fun l hl => (hlines l hl).toCodeLine
  have hwords : Text.words s = [s] :=
    Text.words_of_no_blank (fun c hc => Numeral.not_isBlank_of_isDigit (h c hc)) hne
  have htoken : Literal.TooLong s := ⟨[], s, by simpa using hline.strip_eq, by simp, h, hlong⟩
  refine assemble_eq_error_iff.mpr ⟨rfl, s, ?_, .data hwords htoken.upper_ne htoken⟩
  rw [hcode, Outline.ofLines_of_plain hlines]
  simp

/--
A decimal literal that is too long, where a literal is read at all, is the one thing that keeps an
assembly from its end. Else every token that stands for nothing becomes an error with the number of
its body, and the other bodies are assembled.
-/
theorem assemble_collects_or_faults (src : Text) :
    (∀ body ∈ (Outline.ofLines [] (codeLines src)).bodies.toList, body.words ≠ []) ∧
    ((HasOverlong src ∧ assemble src = .error .badValue) ∨
      (¬ HasOverlong src ∧ ∃ a, assemble src = .ok a ∧
        a.labels = (Outline.ofLines [] (codeLines src)).labels ∧
        a.Collects (Outline.ofLines [] (codeLines src)).bodies.toList)) := by
  refine ⟨fun body => words_ne_nil_of_mem_bodies, ?_⟩
  cases h : assemble src with
  | error f =>
    obtain ⟨rfl, hover⟩ := assemble_eq_error_iff.mp h
    exact .inl ⟨hover, rfl⟩
  | ok a =>
    obtain ⟨outcomes, hmap, himage, herrors, hlabels, -⟩ := Assembly.assemble_ok h
    rw [← (Outline.isOf_ofLines (codeLines src)).bodies_eq] at hmap
    exact .inr ⟨not_hasOverlong_of_ok h, a, rfl, hlabels,
      Assembly.collects_of_outcomes hmap himage herrors⟩

theorem assemble_collects_or_faults_longLiteral :
    assemble (List.replicate 4301 '1') = .error .badValue := by
  have hdigits : ∀ c ∈ List.replicate 4301 '1', c.isDigit := by
    intro c hc
    rw [List.eq_of_mem_replicate hc]
    rfl
  have hlong : Numeral.maxDecimalDigits < (List.replicate 4301 '1').length := by
    rw [List.length_replicate]
    decide
  exact assemble_overlong_digits hdigits hlong

end AccMachine
