import AccMachine.Proofs.AssemblyErrors
import AccMachine.Proofs.TokenRuns
import Mathlib.Data.List.Forall2

namespace AccMachine

def Span.stopIn (length : Nat) (s : Span) : Nat := s.stop.getD length

def Token.styled (t : Token) (row : Nat) (style : Style) : Span :=
  ⟨style, row, t.start, some (if style = .label then t.stop + 1 else t.stop)⟩

def Token.spanOf? (code : Text) (row : Nat) (t : Token) : Option Span :=
  (t.span? code row).toOption.join

def Styled (code : Text) (t : Token) (style : Style) : Prop :=
  Run code t ∧ wordStyle t.word code[t.stop]?.toList = .ok (some style)

/-- The spans of a row with a number: those of its comment and those of its words. -/
structure Marks (n : Nat) (row : Text) (comment words : List Span) : Prop where
  comment_eq : comment =
    if ';' ∈ row then [⟨.comment, n, (codePart row).length, none⟩] else []
  mem_words : ∀ span, span ∈ words ↔
    ∃ t style, Styled (codePart row) t style ∧ span = t.styled n style
  leftToRight : words.Pairwise (·.start < ·.start)
  disjoint : (comment ++ words).Pairwise fun a b =>
    a.stopIn row.length ≤ b.start ∨ b.stopIn row.length ≤ a.start
  inRange : ∀ span ∈ comment ++ words,
    span.start < span.stopIn row.length ∧ span.stopIn row.length ≤ row.length

def HasLongWord (row : Text) : Prop :=
  ∃ t, Run (codePart row) t ∧ Literal.TooLong t.word

theorem wordStyle_eq_error_iff {word next : Text} {f : Fault} :
    wordStyle word next = .error f ↔ f = .badValue ∧ Literal.TooLong word := by
  unfold wordStyle
  cases ho : Operation.ofMnemonic? word.upper with
  | some o =>
    constructor
    · nofun
    · rintro ⟨-, hlong⟩
      exact absurd (Operation.ofMnemonic?_eq_some_iff.mp ho) (hlong.upper_ne o)
  | none =>
    rw [Option.isSome_none, if_neg (by simp), bind_eq_error, Literal.read_eq_error_iff]
    constructor
    · rintro (h | ⟨value, -, h⟩)
      · exact h
      · split at h
        next => cases h
        next => split at h <;> cases h
    · exact .inl

theorem wordStyle_ne_comment (word next : Text) : wordStyle word next ≠ .ok (some .comment) := by
  unfold wordStyle
  split
  next => nofun
  next =>
    rw [ne_eq, bind_eq_ok]
    rintro ⟨value, -, h⟩
    split at h
    next => cases h
    next => split at h <;> cases h

theorem eq_colon_of_label {word next : Text} (h : wordStyle word next = .ok (some .label)) :
    next = [':'] := by
  unfold wordStyle at h
  split at h
  next => cases h
  next =>
    obtain ⟨value, -, h⟩ := bind_eq_ok.mp h
    split at h
    next => cases h
    next =>
      split at h
      next hnext => exact hnext
      next => cases h

section
variable {code : Text} {row : Nat} {t : Token}

theorem take_drop_stop (code : Text) (t : Token) :
    (code.drop t.stop).take 1 = code[t.stop]?.toList := by
  rw [List.take_one, List.head?_drop]

theorem Token.span?_eq_error_iff {f : Fault} :
    t.span? code row = .error f ↔ f = .badValue ∧ Literal.TooLong t.word := by
  unfold Token.span?
  rw [bind_eq_error, wordStyle_eq_error_iff]
  constructor
  · rintro (h | ⟨style, -, h⟩)
    · exact h
    · split at h <;> cases h
  · exact .inl

theorem Token.span?_eq_some_iff {span : Span} :
    t.span? code row = .ok (some span) ↔ ∃ style,
      wordStyle t.word code[t.stop]?.toList = .ok (some style) ∧ span = t.styled row style := by
  unfold Token.span?
  rw [bind_eq_ok, take_drop_stop]
  constructor
  · rintro ⟨found, hstyle, h⟩
    split at h
    next => cases h
    next =>
      obtain rfl := Option.some.inj (Except.ok.inj h)
      exact ⟨.label, hstyle, rfl⟩
    next style hlabel =>
      obtain rfl := Option.some.inj (Except.ok.inj h)
      have hne : style ≠ .label := fun heq => hlabel (by rw [heq])
      refine ⟨style, hstyle, ?_⟩
      unfold Token.styled
      rw [if_neg hne]
  · rintro ⟨style, hstyle, rfl⟩
    exact ⟨some style, hstyle, by cases style <;> rfl⟩

theorem Token.spanOf?_eq_some_iff {span : Span} :
    t.spanOf? code row = some span ↔ ∃ style,
      wordStyle t.word code[t.stop]?.toList = .ok (some style) ∧ span = t.styled row style := by
  rw [← Token.span?_eq_some_iff]
  unfold Token.spanOf?
  cases t.span? code row <;> simp [Except.toOption]

theorem tokenSpans_ok {ts : List Token} (h : ∀ t ∈ ts, ¬ Literal.TooLong t.word) :
    tokenSpans code row ts = (ts.filterMap (Token.spanOf? code row), none) := by
  induction ts with
  | nil => rfl
  | cons t ts ih =>
    obtain ⟨hshort, hrest⟩ := List.forall_mem_cons.mp h
    rw [tokenSpans, ih hrest, List.filterMap_cons]
    unfold Token.spanOf?
    cases hspan : t.span? code row with
    | error f => exact absurd (Token.span?_eq_error_iff.mp hspan).2 hshort
    | ok found => cases found <;> rfl

theorem tokenSpans_faults {ts : List Token} (ht : t ∈ ts) (hlong : Literal.TooLong t.word) :
    (tokenSpans code row ts).2 ≠ none := by
  induction ts with
  | nil => cases ht
  | cons t' ts ih =>
    unfold tokenSpans
    rcases List.mem_cons.mp ht with rfl | ht
    · rw [Token.span?_eq_error_iff.mpr ⟨rfl, hlong⟩]
      exact Option.some_ne_none Fault.badValue
    · cases t'.span? code row with
      | error f => exact Option.some_ne_none f
      | ok found =>
        cases found with
        | none => exact ih ht
        | some span => exact ih ht

end

section
variable {row : Text} {n : Nat}

theorem length_codePart_lt_iff : (codePart row).length < row.length ↔ ';' ∈ row := by
  have hlength := congrArg List.length (codePart_append_dropWhile row)
  rw [List.length_append] at hlength
  constructor
  · intro hlt
    by_contra hnot
    have hself : codePart row = row := by
      rw [codePart, List.takeWhile_eq_self_iff]
      intro c hc
      simpa using ne_of_mem_of_not_mem hc hnot
    rw [hself] at hlt
    exact Nat.lt_irrefl _ hlt
  · intro hmem
    have hne : row.dropWhile (· != ';') ≠ [] := by
      intro hnil
      have hall := List.dropWhile_eq_nil_iff.mp hnil ';' hmem
      simp at hall
    have hpos := List.length_pos_iff.mpr hne
    omega

theorem rowSpans_eq (n : Nat) (row : Text) : rowSpans n row =
    ((if ';' ∈ row then [⟨.comment, n, (codePart row).length, none⟩] else []) ++
      (wordSpans (codePart row) n 0 (rowWords (codePart row))).1,
      (wordSpans (codePart row) n 0 (rowWords (codePart row))).2) := by
  unfold rowSpans
  change (if (codePart row).length < row.length then _ else _) = _
  simp only [length_codePart_lt_iff]
  split <;> rfl

theorem Styled.stopIn_le {code : Text} {t : Token} {style : Style} (h : Styled code t style) :
    (t.styled n style).stopIn row.length ≤ code.length := by
  unfold Span.stopIn Token.styled
  rw [Option.getD_some]
  split
  next hlabel =>
    subst hlabel
    have hnext := eq_colon_of_label h.2
    have hlt : t.stop < code.length := by
      by_contra hle
      rw [List.getElem?_eq_none (by omega)] at hnext
      cases hnext
    omega
  next => exact h.1.stop_le

theorem Styled.start_lt {code : Text} {t : Token} {style : Style} (h : Styled code t style) :
    t.start < (t.styled n style).stopIn row.length := by
  have hlt := h.1.start_lt_stop
  unfold Span.stopIn Token.styled
  rw [Option.getD_some]
  split <;> omega

/-- The span of a run ends before the next run, also with a colon. -/
theorem Styled.stopIn_le_start {code : Text} {t r : Token} {style : Style}
    (h : Styled code t style) (hr : Run code r) (hlt : t.start < r.start) :
    (t.styled n style).stopIn row.length ≤ r.start := by
  have hstop := h.1.stop_lt_start hr hlt
  unfold Span.stopIn Token.styled
  rw [Option.getD_some]
  split <;> omega

theorem marks_of_words {words : List Span}
    (hmem : ∀ span, span ∈ words ↔
      ∃ t style, Styled (codePart row) t style ∧ span = t.styled n style)
    (hordered : words.Pairwise (·.start < ·.start)) :
    Marks n row (if ';' ∈ row then [⟨.comment, n, (codePart row).length, none⟩] else []) words := by
  have hprefix : (codePart row).length ≤ row.length := (List.takeWhile_prefix _).length_le
  refine ⟨rfl, hmem, hordered, ?_, ?_⟩
  · refine List.pairwise_append.mpr ⟨?_, ?_, ?_⟩
    · split <;> simp
    · refine hordered.imp_of_mem fun {a b} ha hb hlt => .inl ?_
      obtain ⟨t, style, ht, rfl⟩ := (hmem a).mp ha
      obtain ⟨r, style', hr, rfl⟩ := (hmem b).mp hb
      exact ht.stopIn_le_start hr.1 hlt
    · -- The comment begins where the part before it ends, and no word reaches further.
      intro a ha b hb
      obtain ⟨t, style, ht, rfl⟩ := (hmem b).mp hb
      split at ha
      next =>
        obtain rfl := List.mem_singleton.mp ha
        exact .inr ht.stopIn_le
      next => cases ha
  · intro span hspan
    rcases List.mem_append.mp hspan with hcomment | hword
    · split at hcomment
      next hsemicolon =>
        obtain rfl := List.mem_singleton.mp hcomment
        exact ⟨length_codePart_lt_iff.mpr hsemicolon, Nat.le_refl _⟩
      next => cases hcomment
    · obtain ⟨t, style, ht, rfl⟩ := (hmem span).mp hword
      exact ⟨ht.start_lt, ht.stopIn_le.trans hprefix⟩

theorem rowSpans_ok (n : Nat) (h : ¬ HasLongWord row) : ∃ comment words,
    rowSpans n row = (comment ++ words, none) ∧ Marks n row comment words := by
  obtain ⟨ts, hruns, hordered, hsearch⟩ := exists_runs (codePart row)
  have hshort : ∀ t ∈ ts, ¬ Literal.TooLong t.word :=
    fun t ht hlong => h ⟨t, (hruns t).mp ht, hlong⟩
  rw [rowSpans_eq, hsearch, tokenSpans_ok hshort]
  refine ⟨_, _, rfl, marks_of_words (fun span => ?_) ?_⟩
  · rw [List.mem_filterMap]
    constructor
    · rintro ⟨t, ht, hspan⟩
      obtain ⟨style, hstyle, rfl⟩ := Token.spanOf?_eq_some_iff.mp hspan
      exact ⟨t, style, ⟨(hruns t).mp ht, hstyle⟩, rfl⟩
    · rintro ⟨t, style, ⟨hrun, hstyle⟩, rfl⟩
      exact ⟨t, (hruns t).mpr hrun, Token.spanOf?_eq_some_iff.mpr ⟨style, hstyle, rfl⟩⟩
  · refine hordered.filterMap _ fun t r hlt a ha b hb => ?_
    obtain ⟨style, -, rfl⟩ := Token.spanOf?_eq_some_iff.mp ha
    obtain ⟨style', -, rfl⟩ := Token.spanOf?_eq_some_iff.mp hb
    exact hlt

theorem not_hasLongWord {row : Text} (h : row.length ≤ Numeral.maxDecimalDigits) :
    ¬ HasLongWord row := by
  rintro ⟨t, hrun, sign, digits, hstrip, -, -, hlong⟩
  have hstripped := Text.length_strip_le t.word
  have hword := hrun.stop_le
  have hprefix : (codePart row).length ≤ row.length := (List.takeWhile_prefix _).length_le
  rw [hstrip, List.length_append] at hstripped
  unfold Token.stop at hword
  omega

theorem rowSpans_faults (n : Nat) (h : HasLongWord row) : (rowSpans n row).2 ≠ none := by
  obtain ⟨t, hrun, hlong⟩ := h
  obtain ⟨ts, hruns, -, hsearch⟩ := exists_runs (codePart row)
  rw [rowSpans_eq, hsearch]
  exact tokenSpans_faults ((hruns t).mpr hrun) hlong

end

theorem rowsSpans_ok {rows : List Text} (n : Nat) (h : ∀ row ∈ rows, ¬ HasLongWord row) :
    ∃ marks : List (List Span × List Span),
      rowsSpans n rows = (marks.flatMap fun m => m.1 ++ m.2, none) ∧
      List.Forall₂ (fun (row, k) m => Marks k row m.1 m.2) (rows.zipIdx n) marks := by
  induction rows generalizing n with
  | nil => exact ⟨[], rfl, .nil⟩
  | cons row rows ih =>
    obtain ⟨hrow, hrows⟩ := List.forall_mem_cons.mp h
    obtain ⟨comment, words, hspans, hmarks⟩ := rowSpans_ok n hrow
    obtain ⟨marks, hrest, hall⟩ := ih (n + 1) hrows
    refine ⟨(comment, words) :: marks, ?_, .cons hmarks hall⟩
    rw [rowsSpans, hspans]
    dsimp only
    rw [hrest]
    rfl

theorem rowsSpans_faults {rows : List Text} {row : Text} (n : Nat) (hrow : row ∈ rows)
    (h : HasLongWord row) : (rowsSpans n rows).2 ≠ none := by
  induction rows generalizing n with
  | nil => cases hrow
  | cons first rows ih =>
    unfold rowsSpans
    cases hfirst : rowSpans n first with
    | mk spans f =>
      cases f with
      | some f => nofun
      | none =>
        rcases List.mem_cons.mp hrow with rfl | hrow
        · exact absurd (congrArg Prod.snd hfirst) (rowSpans_faults n h)
        · exact ih (n + 1) hrow

theorem highlight_ok {s : Text} (h : ∀ row ∈ editorRows s, ¬ HasLongWord row) :
    ∃ marks : List (List Span × List Span),
      highlight s = (marks.flatMap fun m => m.1 ++ m.2, none) ∧
      List.Forall₂ (fun (row, n) m => Marks n row m.1 m.2) ((editorRows s).zipIdx 1) marks :=
  rowsSpans_ok 1 h

/-- Nothing but a decimal literal that is too long keeps the search for spans from its end. -/
theorem highlight_eq_none_iff {s : Text} :
    (highlight s).2 = none ↔ ∀ row ∈ editorRows s, ¬ HasLongWord row := by
  constructor
  · intro hnone row hrow hlong
    exact rowsSpans_faults 1 hrow hlong hnone
  · intro h
    obtain ⟨marks, hspans, -⟩ := highlight_ok h
    rw [hspans]

/--
The spans of a text are found to the end if and only if no word of a row is a decimal literal that
is too long. Each row then has the span of its comment, from its first semicolon on, and the spans
of its runs before it that have a style.
-/
theorem spans_mark_runs (s : Text) :
    ((highlight s).2 = none ↔ ∀ row ∈ editorRows s, ¬ HasLongWord row) ∧
    ((∀ row ∈ editorRows s, ¬ HasLongWord row) →
      ∃ marks : List (List Span × List Span),
        highlight s = (marks.flatMap fun m => m.1 ++ m.2, none) ∧
        List.Forall₂ (fun (row, n) m => Marks n row m.1 m.2) ((editorRows s).zipIdx 1) marks) :=
  ⟨highlight_eq_none_iff, highlight_ok⟩

def labelledHalt : Text := "Fim:Fimx -3 HALT; 7".toList

theorem spans_mark_runs_labelledHalt :
    (∀ row ∈ editorRows labelledHalt, ¬ HasLongWord row) ∧
    highlight labelledHalt =
      ([⟨.comment, 1, 16, none⟩, ⟨.label, 1, 0, some 4⟩, ⟨.number, 1, 9, some 11⟩,
        ⟨.keyword, 1, 12, some 16⟩], none) ∧
    ∃ marks : List (List Span × List Span),
      highlight labelledHalt = (marks.flatMap fun m => m.1 ++ m.2, none) ∧
      List.Forall₂ (fun (row, n) m => Marks n row m.1 m.2)
        ((editorRows labelledHalt).zipIdx 1) marks := by
  have hshort : ∀ row ∈ editorRows labelledHalt, ¬ HasLongWord row := by
    have hlength : ∀ row ∈ editorRows labelledHalt, row.length ≤ Numeral.maxDecimalDigits := by
      decide
    exact fun row hrow => not_hasLongWord (hlength row hrow)
  exact ⟨hshort, by rfl, (spans_mark_runs labelledHalt).2 hshort⟩

end AccMachine
