import AccMachine.Outline
import AccMachine.Proofs.TextCuts

namespace AccMachine

def codePart (row : Text) : Text := row.takeWhile (· != ';')

def commentPart (row : Text) : Text := row.dropWhile (· != ';')

/-- What a line holds besides blanks at its ends and a comment. -/
def codeOf (l : Text) : Text := Text.strip (l.takeWhile (· != ';'))

def TokenChar (c : Char) : Prop := isBlank c = false ∧ c ≠ ';' ∧ c ≠ ':'

instance (c : Char) : Decidable (TokenChar c) :=
  inferInstanceAs (Decidable (isBlank c = false ∧ c ≠ ';' ∧ c ≠ ':'))

structure CodeLine (line : Text) : Prop where
  ne_nil : line ≠ []
  marks : ∀ c ∈ line, isLineBreak c = false ∧ c ≠ ';'
  strip_eq : line.strip = line

def codeAmong (ls : List Text) : List Text := (ls.map codeOf).filter (!·.isEmpty)

theorem codeLines_eq (src : Text) : codeLines src = codeAmong src.lines := rfl

@[simp] theorem codeAmong_append (ls ls' : List Text) :
    codeAmong (ls ++ ls') = codeAmong ls ++ codeAmong ls' := by
  unfold codeAmong
  rw [List.map_append, List.filter_append]

theorem codeAmong_cons_of_nil {l : Text} (h : codeOf l = []) (ls : List Text) :
    codeAmong (l :: ls) = codeAmong ls := by
  unfold codeAmong
  rw [List.map_cons, h]
  rfl

theorem codeAmong_singleton {l : Text} (h : codeOf l ≠ []) : codeAmong [l] = [codeOf l] := by
  unfold codeAmong
  rw [List.map_singleton, List.filter_cons_of_pos (by simpa using h), List.filter_nil]

theorem codeAmong_singleton_congr {l l' : Text} (h : codeOf l = codeOf l') :
    codeAmong [l] = codeAmong [l'] := by
  unfold codeAmong
  rw [List.map_singleton, h, List.map_singleton]

@[simp] theorem codePart_append_dropWhile (row : Text) :
    codePart row ++ row.dropWhile (· != ';') = row := List.takeWhile_append_dropWhile

theorem commentPart_eq (row : Text) :
    commentPart row = [] ∨ ∃ rest, commentPart row = ';' :: rest := by
  cases hcomment : commentPart row with
  | nil => exact .inl rfl
  | cons c rest =>
    have hhead := List.head?_dropWhile_not (· != ';') row
    unfold commentPart at hcomment
    rw [hcomment] at hhead
    obtain rfl : c = ';' := by simpa using hhead
    exact .inr ⟨rest, rfl⟩

theorem takeWhile_eq_self {l : Text} (h : ∀ c ∈ l, c ≠ ';') : l.takeWhile (· != ';') = l := by
  rw [List.takeWhile_eq_self_iff]
  intro c hc
  simpa using h c hc

theorem CodeLine.codeOf_eq {line : Text} (h : CodeLine line) : codeOf line = line := by
  unfold codeOf
  rw [takeWhile_eq_self fun c hc => (h.marks c hc).2, h.strip_eq]

@[simp] theorem codeOf_append_semicolon (l rest : Text) : codeOf (l ++ ';' :: rest) = codeOf l := by
  unfold codeOf
  rw [List.takeWhile_append]
  split
  next hall =>
    rw [List.takeWhile_cons_of_neg (by simp), List.append_nil]
    rw [(List.takeWhile_prefix _).eq_of_length hall]
  next => rfl

theorem codeLines_of_unbroken {l : Text} (h : ∀ c ∈ l, isLineBreak c = false) :
    codeLines l = codeAmong [l] := by
  cases l with
  | nil => rfl
  | cons c l => rw [codeLines_eq, Text.lines_of_unbroken h (by simp)]

theorem CodeLine.of_mem_codeLines {src line : Text} (h : line ∈ codeLines src) :
    CodeLine line := by
  obtain ⟨hmem, hne⟩ := List.mem_filter.mp h
  obtain ⟨l, hl, rfl⟩ := List.mem_map.mp hmem
  refine ⟨by simpa using hne, fun c hc => ?_, Text.strip_strip _⟩
  have hcut := Text.mem_of_mem_strip hc
  refine ⟨Text.unbroken_lines src l hl c ((List.takeWhile_prefix _).subset hcut), ?_⟩
  simpa using List.mem_takeWhile_imp hcut

/--
Lines in front of a line `h` that others follow: the last of them runs on into `h`, or it ends
before `h`.
-/
inductive Joins (h : Text) (after : List Text) : List Text → List Text → Prop
  | apart (ls : List Text) : Joins h after ls (ls ++ h :: after)
  | runOn (ls : List Text) (l : Text) : Joins h after (ls ++ [l]) (ls ++ (l ++ h) :: after)

section
variable {h : Text} {after ls ls' : List Text}

theorem Joins.break (hj : Joins h after ls ls') : Joins h after ([] :: ls) ([] :: ls') := by
  cases hj with
  | apart ls => exact .apart ([] :: ls)
  | runOn ls l => exact .runOn ([] :: ls) l

theorem Joins.consHead (hj : Joins h after ls ls') (c : Char) :
    Joins h after (Text.consHead c ls) (Text.consHead c ls') := by
  cases hj with
  | apart ls =>
    cases ls with
    | nil => exact .runOn [] [c]
    | cons first ls => exact .apart ((c :: first) :: ls)
  | runOn ls l =>
    cases ls with
    | nil => exact .runOn [] (c :: l)
    | cons first ls => exact .runOn ((c :: first) :: ls) l

/-- One more character keeps lines joined, and whether a line feed follows no longer differs. -/
theorem Joins.lineStep {rest rest' : Bool × List Text} (hj : Joins h after rest.2 rest'.2)
    (hfeed : rest.1 = rest'.1 ∨ rest = (false, []) ∧ h = [] ∧ rest'.2 = [] :: after) (c : Char) :
    Joins h after (Text.lineStep c rest).2 (Text.lineStep c rest').2 ∧
      (Text.lineStep c rest).1 = (Text.lineStep c rest').1 := by
  unfold Text.lineStep
  rcases hfeed with hfeed | ⟨rfl, rfl, hfirst⟩
  · rw [hfeed]
    split
    next => exact ⟨hj, rfl⟩
    next =>
      split
      next => exact ⟨hj.break, rfl⟩
      next => exact ⟨hj.consHead c, rfl⟩
  · rw [if_neg (by simp)]
    split
    next hbreak =>
      split
      next hreturn =>
        -- The carriage return belongs to the line feed that follows it.
        rw [hfirst, hreturn.1]
        exact ⟨.runOn [] [], rfl⟩
      next => exact ⟨hj.break, rfl⟩
    next hplain =>
      rw [if_neg fun hreturn => hplain (by rw [hreturn.1]; rfl)]
      exact ⟨hj.consHead c, rfl⟩

theorem joins_foldr {fed : Bool} (hfed : fed = true → h = []) (a : Text) :
    Joins h after (a.foldr Text.lineStep (false, [])).2
      (a.foldr Text.lineStep (fed, h :: after)).2 ∧
    (a ≠ [] → (a.foldr Text.lineStep (false, [])).1 =
      (a.foldr Text.lineStep (fed, h :: after)).1) := by
  -- What follows the text matters to its last character alone.
  induction a with
  | nil => exact ⟨.apart [], fun hne => absurd rfl hne⟩
  | cons c a ih =>
    obtain ⟨hj, hsame⟩ := ih
    have hfeed : (a.foldr Text.lineStep (false, [])).1 =
          (a.foldr Text.lineStep (fed, h :: after)).1 ∨
        a.foldr Text.lineStep (false, []) = (false, []) ∧ h = [] ∧
          (a.foldr Text.lineStep (fed, h :: after)).2 = [] :: after := by
      by_cases ha : a = []
      · subst ha
        cases fed with
        | false => exact .inl rfl
        | true =>
          have hnil := hfed rfl
          exact .inr ⟨rfl, hnil, by rw [hnil]; rfl⟩
      · exact .inl (hsame ha)
    obtain ⟨hstep, hfeed'⟩ := hj.lineStep hfeed c
    exact ⟨hstep, fun _ => hfeed'⟩

theorem Joins.codeAmong_eq (hj : Joins h after ls ls')
    (hneutral : ∀ l, codeOf (l ++ h) = codeOf l) :
    codeAmong ls' = codeAmong ls ++ codeAmong after := by
  have hnil : codeOf h = [] := hneutral []
  cases hj with
  | apart => rw [codeAmong_append, codeAmong_cons_of_nil hnil]
  | runOn ls l =>
    rw [← List.singleton_append, codeAmong_append, codeAmong_append, codeAmong_append,
      codeAmong_singleton_congr (hneutral l), List.append_assoc]

end

theorem exists_lines_of_fed {s : Text} (h : (s.foldr Text.lineStep (false, [])).1) :
    ∃ after, (s.foldr Text.lineStep (false, [])).2 = [] :: after := by
  cases s with
  | nil => cases h
  | cons c s =>
    rw [List.foldr_cons] at h ⊢
    cases hc : isLineBreak c with
    | false =>
      rw [Text.lineStep_of_unbroken hc] at h
      cases h
    | true =>
      by_cases hreturn : c = '\r' ∧ (s.foldr Text.lineStep (false, [])).1
      · rw [Text.lineStep_of_return hreturn] at h
        cases h
      · exact ⟨_, congrArg Prod.snd (Text.lineStep_of_break hreturn hc)⟩

theorem exists_neutral_head {c : Char} (hc : isLineBreak c ∨ c = ';') (s : Text) :
    ∃ fed h after, (c :: s).foldr Text.lineStep (false, []) = (fed, h :: after) ∧
      (fed = true → h = []) ∧ ∀ l, codeOf (l ++ h) = codeOf l := by
  rw [List.foldr_cons]
  rcases hc with hbreak | rfl
  · by_cases hreturn : c = '\r' ∧ (s.foldr Text.lineStep (false, [])).1
    · obtain ⟨after, hafter⟩ := exists_lines_of_fed hreturn.2
      rw [Text.lineStep_of_return hreturn, hafter]
      exact ⟨false, [], after, rfl, fun _ => rfl, fun l => by rw [List.append_nil]⟩
    · rw [Text.lineStep_of_break hreturn hbreak]
      exact ⟨_, [], _, rfl, fun _ => rfl, fun l => by rw [List.append_nil]⟩
  · rw [Text.lineStep_of_unbroken (by decide)]
    cases (s.foldr Text.lineStep (false, [])).2 with
    | nil => exact ⟨false, [';'], [], rfl, nofun, fun l => codeOf_append_semicolon l []⟩
    | cons l ls => exact ⟨false, ';' :: l, ls, rfl, nofun, fun k => codeOf_append_semicolon k l⟩

/-- The lines of code before a line break or a semicolon are those of the text that ends there. -/
theorem codeLines_append_cons {c : Char} (hc : isLineBreak c ∨ c = ';') (a s : Text) :
    codeLines (a ++ c :: s) = codeLines a ++ codeLines (c :: s) := by
  obtain ⟨fed, h, after, hfold, hfed, hneutral⟩ := exists_neutral_head hc s
  have hlines : Text.lines (c :: s) = h :: after := congrArg Prod.snd hfold
  have hjoins : Joins h after a.lines (a.foldr Text.lineStep (fed, h :: after)).2 :=
    (joins_foldr hfed a).1
  rw [← hfold, ← List.foldr_append] at hjoins
  have hnil : codeOf h = [] := hneutral []
  have hrest : codeLines (c :: s) = codeAmong after := by
    rw [codeLines_eq, hlines, codeAmong_cons_of_nil hnil]
  rw [hrest]
  exact hjoins.codeAmong_eq hneutral

theorem codeLines_cons_break {c : Char} (hc : isLineBreak c) (s : Text) :
    codeLines (c :: s) = codeLines s := by
  rw [codeLines_eq, codeLines_eq]
  unfold Text.lines
  rw [List.foldr_cons]
  by_cases hreturn : c = '\r' ∧ (s.foldr Text.lineStep (false, [])).1
  · rw [Text.lineStep_of_return hreturn]
  · rw [Text.lineStep_of_break hreturn hc, codeAmong_cons_of_nil rfl]

theorem codeLines_append_break {c : Char} (hc : isLineBreak c) (a s : Text) :
    codeLines (a ++ c :: s) = codeLines a ++ codeLines s := by
  rw [codeLines_append_cons (.inl hc), codeLines_cons_break hc]

theorem codeLines_intercalate_rows (rows : List Text) :
    codeLines (['\n'].intercalate rows) = rows.flatMap codeLines := by
  induction rows with
  | nil => rfl
  | cons row rows ih =>
    cases rows with
    | nil => rw [List.intercalate_singleton, List.flatMap_singleton]
    | cons next rows =>
      rw [List.intercalate_cons_cons, List.append_assoc, List.singleton_append,
        codeLines_append_break (by decide), ih]
      rfl

theorem codeLines_intercalate {ls : List Text} (h : ∀ l ∈ ls, CodeLine l) :
    codeLines (['\n'].intercalate ls) = ls := by
  have hlines : Text.lines (['\n'].intercalate ls) = ls :=
    Text.lines_intercalate fun l hl => ⟨(h l hl).ne_nil, fun c hc => ((h l hl).marks c hc).1⟩
  have hcode : ls.map codeOf = ls := by
    rw [List.map_congr_left fun l hl => (h l hl).codeOf_eq, List.map_id']
  rw [codeLines_eq, hlines]
  unfold codeAmong
  rw [hcode, List.filter_eq_self]
  intro l hl
  simpa using (h l hl).ne_nil

theorem codeLines_codeLines (src : Text) :
    codeLines (['\n'].intercalate (codeLines src)) = codeLines src :=
  codeLines_intercalate fun _ => CodeLine.of_mem_codeLines

end AccMachine
