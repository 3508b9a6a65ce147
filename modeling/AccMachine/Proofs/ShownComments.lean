import AccMachine.Proofs.Layout
import AccMachine.Proofs.MarkedRows

namespace AccMachine

def shownIn (style : Style) (spans : List Span) (n length col : Nat) : Bool :=
  spans.any fun s => s.style = style ∧ s.row = n ∧ s.start ≤ col ∧ col < s.stopIn length

def rowWithout (style : Style) (spans : List Span) (row : Text) (n : Nat) : Text :=
  (row.zipIdx.filter fun e => !shownIn style spans n row.length e.2).map (·.1)

def withoutStyle (style : Style) (spans : List Span) (s : Text) : Text :=
  ['\n'].intercalate (((editorRows s).zipIdx 1).map fun e => rowWithout style spans e.1 e.2)

/-- The definition and the body that a line of code adds to a program, counted together. -/
def entriesOf (line : Text) : Nat :=
  (labelOf? line).toList.length + (if (bodyOf line).isEmpty then [] else [bodyOf line]).length

def Outline.entries (o : Outline) : Nat := o.labels.length + o.redefinitions.size + o.bodies.size

theorem exists_marked {es : List (Text × Nat)} {marks : List (List Span × List Span)}
    (h : List.Forall₂ (fun (row, n) m => Marks n row m.1 m.2) es marks) {span : Span} :
    (span ∈ marks.flatMap fun m => m.1 ++ m.2) ∧ span.style = .comment ↔
      ∃ e ∈ es, ';' ∈ e.1 ∧ span = ⟨.comment, e.2, (codePart e.1).length, none⟩ := by
  induction h with
  | nil => simp
  | @cons e m es marks hmarks _ ih =>
    have hrow : span ∈ m.1 ++ m.2 ∧ span.style = .comment ↔
        ';' ∈ e.1 ∧ span = ⟨.comment, e.2, (codePart e.1).length, none⟩ := by
      rw [hmarks.comment_eq, List.mem_append, hmarks.mem_words]
      constructor
      · rintro ⟨hcomment | ⟨t, style, ht, rfl⟩, hstyle⟩
        · split at hcomment
          next hsemicolon => exact ⟨hsemicolon, List.mem_singleton.mp hcomment⟩
          next => cases hcomment
        · obtain rfl : style = .comment := hstyle
          exact absurd ht.2 (wordStyle_ne_comment _ _)
      · rintro ⟨hsemicolon, rfl⟩
        rw [if_pos hsemicolon]
        exact ⟨.inl (by simp), rfl⟩
    rw [List.flatMap_cons, List.mem_append, or_and_right, hrow, ih]
    simp

theorem mem_comments_iff {s : Text} (h : (highlight s).2 = none) {span : Span} :
    span ∈ (highlight s).1 ∧ span.style = .comment ↔ ∃ e ∈ (editorRows s).zipIdx 1,
      ';' ∈ e.1 ∧ span = ⟨.comment, e.2, (codePart e.1).length, none⟩ := by
  obtain ⟨marks, hspans, hall⟩ := highlight_ok (highlight_eq_none_iff.mp h)
  rw [hspans]
  exact exists_marked hall

theorem shownIn_comment_iff {s : Text} (h : (highlight s).2 = none) {row : Text} {n col : Nat}
    (hrow : (row, n) ∈ (editorRows s).zipIdx 1) (hcol : col < row.length) :
    shownIn .comment (highlight s).1 n row.length col ↔ (codePart row).length ≤ col := by
  unfold shownIn
  rw [List.any_eq_true]
  simp only [decide_eq_true_eq]
  constructor
  · rintro ⟨span, hmem, hstyle, hn, hstart, -⟩
    obtain ⟨⟨row', k⟩, he, -, rfl⟩ := (mem_comments_iff h).mp ⟨hmem, hstyle⟩
    -- There is one row of each number, so the comment is that of this row.
    obtain rfl : k = n := hn
    have hget := (List.mem_zipIdx_iff_le_and_getElem?_sub.mp he).2
    rw [(List.mem_zipIdx_iff_le_and_getElem?_sub.mp hrow).2] at hget
    obtain rfl := Option.some.inj hget
    exact hstart
  · intro hle
    have hsemicolon : ';' ∈ row := length_codePart_lt_iff.mp (by omega)
    obtain ⟨hmem, hstyle⟩ := (mem_comments_iff h).mpr ⟨(row, n), hrow, hsemicolon, rfl⟩
    exact ⟨_, hmem, hstyle, rfl, hle, hcol⟩

theorem map_filter_zipIdx {α : Type} (l : List α) (i k : Nat) :
    ((l.zipIdx i).filter (·.2 < i + k)).map (·.1) = l.take k := by
  induction l generalizing i k with
  | nil => simp
  | cons x l ih =>
    cases k with
    | zero =>
      rw [List.take_zero, List.map_eq_nil_iff, List.filter_eq_nil_iff]
      rintro ⟨y, j⟩ hmem
      have hle := List.le_snd_of_mem_zipIdx hmem
      simpa using hle
    | succ k =>
      have hrest := ih (i + 1) k
      rw [show i + 1 + k = i + (k + 1) by omega] at hrest
      rw [List.zipIdx_cons, List.filter_cons_of_pos (by simp), List.map_cons, hrest,
        List.take_succ_cons]

theorem rowWithout_comment {s : Text} (h : (highlight s).2 = none) {row : Text} {n : Nat}
    (hrow : (row, n) ∈ (editorRows s).zipIdx 1) :
    rowWithout .comment (highlight s).1 row n = codePart row := by
  have hkept : ∀ e ∈ row.zipIdx, (!shownIn .comment (highlight s).1 n row.length e.2) =
      decide (e.2 < 0 + (codePart row).length) := by
    rintro ⟨c, col⟩ he
    have hcol : col < row.length := by simpa using List.snd_lt_of_mem_zipIdx he
    have hshown : shownIn .comment (highlight s).1 n row.length col =
        decide ((codePart row).length ≤ col) := by
      rw [Bool.eq_iff_iff, shownIn_comment_iff h hrow hcol, decide_eq_true_iff]
    dsimp only
    rw [hshown, ← decide_not, Nat.zero_add]
    exact decide_eq_decide.mpr Nat.not_le
  unfold rowWithout
  rw [List.filter_congr hkept, map_filter_zipIdx]
  exact (List.prefix_iff_eq_take.mp (List.takeWhile_prefix _)).symm

theorem withoutStyle_comment {s : Text} (h : (highlight s).2 = none) :
    withoutStyle .comment (highlight s).1 s = ['\n'].intercalate ((editorRows s).map codePart) := by
  have hrows : ∀ e ∈ (editorRows s).zipIdx 1,
      rowWithout .comment (highlight s).1 e.1 e.2 = (codePart ∘ Prod.fst) e :=
    fun e he => rowWithout_comment h he
  unfold withoutStyle
  rw [List.map_congr_left hrows, ← List.map_map, List.zipIdx_map_fst]

theorem codeLines_row (row : Text) :
    codeLines row = codeLines (codePart row) ++ codeLines (commentPart row) := by
  have hsplit : codePart row ++ commentPart row = row := codePart_append_dropWhile row
  rcases commentPart_eq row with hnil | ⟨rest, hrest⟩
  · rw [hnil, List.append_nil] at hsplit
    rw [hnil, hsplit]
    exact (List.append_nil _).symm
  · rw [hrest] at hsplit ⊢
    rw [← codeLines_append_cons (.inr rfl), hsplit]

theorem codeLines_shown (s : Text) : codeLines s =
    (editorRows s).flatMap fun row => codeLines (codePart row) ++ codeLines (commentPart row) := by
  have hjoined : ['\n'].intercalate (editorRows s) = s := List.intercalate_splitOn '\n'
  conv_lhs => rw [← hjoined, codeLines_intercalate_rows]
  exact List.flatMap_congr fun row _ => codeLines_row row

theorem codeLines_withoutStyle {s : Text} (h : (highlight s).2 = none) :
    codeLines (withoutStyle .comment (highlight s).1 s) =
      (editorRows s).flatMap fun row => codeLines (codePart row) := by
  rw [withoutStyle_comment h, codeLines_intercalate_rows, List.flatMap_map]

/-- A comment that no line break cuts, save one at its very end, holds no line of code. -/
theorem codeLines_commentPart {row : Text}
    (h : ∀ c ∈ (commentPart row).dropLast, isLineBreak c = false) :
    codeLines (commentPart row) = [] := by
  have hwhole (rest : Text) (hrest : ∀ c ∈ ';' :: rest, isLineBreak c = false) :
      codeLines (';' :: rest) = [] := by
    have hcode : codeOf (';' :: rest) = [] := codeOf_append_semicolon [] rest
    rw [codeLines_of_unbroken hrest, codeAmong_cons_of_nil hcode]
    rfl
  rcases commentPart_eq row with hnil | ⟨rest, hrest⟩
  · rw [hnil]
    rfl
  rw [hrest] at h ⊢
  obtain ⟨front, c, hlast⟩ := (List.eq_nil_or_concat (';' :: rest)).resolve_left (by simp)
  rw [List.concat_eq_append] at hlast
  rw [hlast, List.dropLast_concat] at h
  -- A break at the end leaves nothing behind it.
  cases hc : isLineBreak c with
  | false =>
    apply hwhole
    rw [hlast]
    exact List.forall_mem_append.mpr ⟨h, List.forall_mem_singleton.mpr hc⟩
  | true =>
    rw [hlast, codeLines_append_break hc]
    cases front with
    | nil => rfl
    | cons d front =>
      obtain ⟨rfl, -⟩ := List.cons.inj hlast
      rw [hwhole front h]
      rfl

theorem entriesOf_pos {line : Text} (h : line ≠ []) : 0 < entriesOf line := by
  unfold entriesOf labelOf? bodyOf
  split
  next => simp
  next => simp [h]

@[simp] theorem Labels.find?_cons (e : Text × Int) (es : Labels) (name : Text) :
    Labels.find? (e :: es) name = if e.1 = name then some e.2 else Labels.find? es name := by
  unfold Labels.find?
  rw [List.find?_cons]
  by_cases h : e.1 = name <;> simp [h]

theorem Labels.length_define (labels : Labels) (name : Text) (addr : Int) :
    (labels.define name addr).length + (labels.find? name).toList.length = labels.length + 1 := by
  induction labels with
  | nil => rfl
  | cons e es ih =>
    unfold Labels.define
    rw [Labels.find?_cons]
    split
    next => rfl
    next =>
      rw [List.length_cons, List.length_cons]
      omega

@[simp] theorem Outline.entries_add (o : Outline) (line : Text) :
    (o.add line).entries = o.entries + entriesOf line := by
  rw [Outline.add_eq]
  unfold Outline.entries entriesOf
  cases labelOf? line with
  | none =>
    simp
    omega
  | some name =>
    have hlength := Labels.length_define o.labels name o.bodies.size
    cases hfind : o.labels.find? name <;> simp [hfind] at hlength ⊢ <;> omega

@[simp] theorem Outline.entries_ofLines (lines : List Text) :
    (ofLines [] lines).entries = (lines.map entriesOf).sum := by
  induction lines using List.reverseRecOn with
  | nil => rfl
  | append_singleton lines line ih =>
    unfold ofLines at ih ⊢
    rw [List.foldl_append, List.foldl_cons, List.foldl_nil, entries_add, ih, List.map_append,
      List.sum_append, List.map_singleton, List.sum_singleton]

/-- What an assembly holds tells how much its lines of code have added to it. -/
theorem Assembly.entries_eq {src : Text} {a : Assembly} (h : assemble src = .ok a) :
    a.labels.length + a.redefinitions.size + (a.image.size + a.errors.size) =
      ((codeLines src).map entriesOf).sum := by
  obtain ⟨outcomes, hmap, himage, herrors, hlabels, hredefs⟩ := assemble_ok h
  have hcount := length_words_add_errors 1 outcomes
  have hbodies := congrArg List.length hmap
  have hof := Outline.isOf_ofLines (codeLines src)
  rw [← hof.bodies_eq, List.length_map, List.length_map, Array.length_toList] at hbodies
  rw [← himage, ← herrors, Array.length_toList, Array.length_toList, ← hbodies] at hcount
  rw [hcount, hlabels, hredefs, ← Outline.entries_ofLines]
  rfl

theorem eq_nil_of_entries {lines : List Text} (h : ∀ line ∈ lines, line ≠ [])
    (hsum : (lines.map entriesOf).sum = 0) : lines = [] := by
  cases lines with
  | nil => rfl
  | cons line lines =>
    have hpos := entriesOf_pos (h line (by simp))
    rw [List.map_cons, List.sum_cons] at hsum
    omega

theorem sum_entries_flatMap (rows : List Text) (f g : Text → List Text) :
    ((rows.flatMap fun row => f row ++ g row).map entriesOf).sum =
      ((rows.flatMap f).map entriesOf).sum + ((rows.flatMap g).map entriesOf).sum := by
  induction rows with
  | nil => rfl
  | cons row rows ih =>
    simp only [List.flatMap_cons, List.map_append, List.sum_append, ih]
    omega

/-- An assembly that comments make no difference to leaves no code to the comments. -/
theorem codeless_of_assemble_eq {s : Text} {a : Assembly} (hshown : (highlight s).2 = none)
    (hwhole : assemble s = .ok a)
    (hcut : assemble (withoutStyle .comment (highlight s).1 s) = .ok a) :
    ∀ row ∈ editorRows s, codeLines (commentPart row) = [] := by
  -- Both programs have as many entries, so the comments have none to add.
  have hentries := (Assembly.entries_eq hwhole).symm.trans (Assembly.entries_eq hcut)
  rw [codeLines_shown, codeLines_withoutStyle hshown, sum_entries_flatMap] at hentries
  have hne : ∀ line ∈ (editorRows s).flatMap fun row => codeLines (commentPart row), line ≠ [] := by
    intro line hline
    obtain ⟨row, -, hmem⟩ := List.mem_flatMap.mp hline
    exact (CodeLine.of_mem_codeLines hmem).ne_nil
  have hnil := eq_nil_of_entries hne (by omega)
  exact List.flatMap_eq_nil_iff.mp hnil

theorem assemble_withoutStyle {s : Text} (hshown : (highlight s).2 = none)
    (hcodeless : ∀ row ∈ editorRows s, codeLines (commentPart row) = []) :
    assemble (withoutStyle .comment (highlight s).1 s) = assemble s := by
  apply assemble_congr
  rw [codeLines_withoutStyle hshown, codeLines_shown s]
  refine List.flatMap_congr fun row hrow => ?_
  rw [hcodeless row hrow, List.append_nil]

/--
A source that is assembled to its end is assembled to the same without what is shown as comments if
and only if no comment holds a line of code; so it is where no line break cuts a comment.
-/
theorem comments_not_assembled_iff (s : Text) (a : Assembly) (hshown : (highlight s).2 = none)
    (hassembled : assemble s = .ok a) :
    (assemble (withoutStyle .comment (highlight s).1 s) = .ok a ↔
      ∀ row ∈ editorRows s, codeLines (commentPart row) = []) ∧
    ((∀ row ∈ editorRows s, ∀ c ∈ (commentPart row).dropLast, isLineBreak c = false) →
      assemble (withoutStyle .comment (highlight s).1 s) = .ok a) := by
  have hsame (hcodeless : ∀ row ∈ editorRows s, codeLines (commentPart row) = []) :
      assemble (withoutStyle .comment (highlight s).1 s) = .ok a :=
    (assemble_withoutStyle hshown hcodeless).trans hassembled
  refine ⟨⟨codeless_of_assemble_eq hshown hassembled, hsame⟩, fun hunbroken => ?_⟩
  exact hsame fun row hrow => codeLines_commentPart (hunbroken row hrow)

def remarkedHalt : Text := "LOCO 1 ; um\r\n;\nHALT".toList

theorem comments_not_assembled_iff_remarkedHalt :
    (highlight remarkedHalt).2 = none ∧
    assemble remarkedHalt = .ok ⟨#[0x7001, 0xFFFF], #[], #[], []⟩ ∧
    (∀ row ∈ editorRows remarkedHalt, ∀ c ∈ (commentPart row).dropLast, isLineBreak c = false) ∧
    withoutStyle .comment (highlight remarkedHalt).1 remarkedHalt = "LOCO 1 \n\nHALT".toList ∧
    assemble (withoutStyle .comment (highlight remarkedHalt).1 remarkedHalt) =
      .ok ⟨#[0x7001, 0xFFFF], #[], #[], []⟩ := by
  have hshown : (highlight remarkedHalt).2 = none := by rfl
  have hassembled : assemble remarkedHalt = .ok ⟨#[0x7001, 0xFFFF], #[], #[], []⟩ := by rfl
  have hall : ∀ row ∈ editorRows remarkedHalt,
      (commentPart row).dropLast.all (!isLineBreak ·) := by decide
  have hunbroken : ∀ row ∈ editorRows remarkedHalt,
      ∀ c ∈ (commentPart row).dropLast, isLineBreak c = false :=
    fun row hrow => by simpa using hall row hrow
  exact ⟨hshown, hassembled, hunbroken, by rfl,
    (comments_not_assembled_iff _ _ hshown hassembled).2 hunbroken⟩

def cutComment : Text := "; a\x0cHALT".toList

/-- The whole row is shown as a comment, and its second line is assembled. -/
theorem comments_not_assembled_iff_cutComment :
    highlight cutComment = ([⟨.comment, 1, 0, none⟩], none) ∧
    withoutStyle .comment (highlight cutComment).1 cutComment = [] ∧
    assemble cutComment = .ok ⟨#[0xFFFF], #[], #[], []⟩ ∧
    assemble [] = .ok ⟨#[], #[], #[], []⟩ := by
  refine ⟨by rfl, by rfl, by rfl, by rfl⟩

end AccMachine
