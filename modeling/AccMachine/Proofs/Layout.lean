import AccMachine.Assembly
import AccMachine.Proofs.CodeLines

namespace AccMachine

/-- What may end a line; a carriage return and the line feed behind it are one ending. -/
def lineEndings : List Text :=
  [['\n'], ['\r'], ['\r', '\n'], ['\x0b'], ['\x0c'], ['\x1c'], ['\x1d'], ['\x1e'], ['\x85'],
    ['\u2028'], ['\u2029']]

def Filler (s : Text) : Prop := ∀ c ∈ s, isBlank c ∧ isLineBreak c = false

instance (s : Text) : Decidable (Filler s) :=
  List.decidableBAll _ s

inductive Remark : Text → Prop
  | none : Remark []
  | comment {note : Text} (unbroken : ∀ c ∈ note, isLineBreak c = false) : Remark (';' :: note)

inductive LaidLine (body : Text) : Text → Prop
  | around {before after remark : Text} (plain : ∀ c ∈ body, c ≠ ';' ∧ isLineBreak c = false)
      (front : Filler before) (back : Filler after) (last : Remark remark) :
      LaidLine body (before ++ body ++ after ++ remark)

/--
A text whose lines have the bodies given, with lines without a body anywhere among them. The last
line needs no ending.
-/
inductive LaidOut : List Text → Text → Prop
  | lastBlank {line : Text} (laid : LaidLine [] line) : LaidOut [] line
  | last {body line : Text} (laid : LaidLine body line) : LaidOut [body] line
  | blank {line ending text : Text} {bodies : List Text} (laid : LaidLine [] line)
      (ends : ending ∈ lineEndings) (rest : LaidOut bodies text) :
      LaidOut bodies (line ++ ending ++ text)
  | line {body line ending text : Text} {bodies : List Text} (laid : LaidLine body line)
      (ends : ending ∈ lineEndings) (rest : LaidOut bodies text) :
      LaidOut (body :: bodies) (line ++ ending ++ text)

def stripped (bodies : List Text) : List Text := (bodies.map Text.strip).filter (!·.isEmpty)

theorem stripped_cons (body : Text) (bodies : List Text) :
    stripped (body :: bodies) = stripped [body] ++ stripped bodies := by
  unfold stripped
  rw [← List.filter_append]
  rfl

theorem codeLines_append_ending {ending : Text} (h : ending ∈ lineEndings) (a s : Text) :
    codeLines (a ++ ending ++ s) = codeLines a ++ codeLines s := by
  have hforms : ∀ e ∈ lineEndings, e = ['\r', '\n'] ∨ ∃ c, e = [c] ∧ isLineBreak c := by
    simp [lineEndings, isLineBreak]
  rw [List.append_assoc]
  rcases hforms ending h with rfl | ⟨c, rfl, hc⟩
  · change codeLines (a ++ '\r' :: '\n' :: s) = _
    rw [codeLines_append_break (by decide), codeLines_cons_break (by decide)]
  · exact codeLines_append_break hc a s

theorem Filler.plain {s : Text} (h : Filler s) : ∀ c ∈ s, c ≠ ';' ∧ isLineBreak c = false := by
  intro c hc
  refine ⟨?_, (h c hc).2⟩
  rintro rfl
  cases (h ';' hc).1

theorem Remark.unbroken {remark : Text} (h : Remark remark) :
    ∀ c ∈ remark, isLineBreak c = false := by
  cases h with
  | none => nofun
  | comment unbroken => exact List.forall_mem_cons.mpr ⟨by decide, unbroken⟩

section
variable {before body after line : Text}

theorem plain_around (front : Filler before) (plain : ∀ c ∈ body, c ≠ ';' ∧ isLineBreak c = false)
    (back : Filler after) :
    ∀ c ∈ before ++ body ++ after, c ≠ ';' ∧ isLineBreak c = false := by
  intro c hc
  rcases List.mem_append.mp hc with hc | hc
  · rcases List.mem_append.mp hc with hc | hc
    · exact front.plain c hc
    · exact plain c hc
  · exact back.plain c hc

theorem LaidLine.unbroken (h : LaidLine body line) : ∀ c ∈ line, isLineBreak c = false := by
  obtain ⟨plain, front, back, last⟩ := h
  intro c hc
  rcases List.mem_append.mp hc with hc | hc
  · exact (plain_around front plain back c hc).2
  · exact last.unbroken c hc

theorem LaidLine.codeOf_eq (h : LaidLine body line) : codeOf line = body.strip := by
  obtain @⟨before, after, remark, plain, front, back, last⟩ := h
  have hremark : codeOf (before ++ body ++ after ++ remark) = codeOf (before ++ body ++ after) := by
    cases last with
    | none => rw [List.append_nil]
    | comment => exact codeOf_append_semicolon _ _
  have hcode : ∀ c ∈ before ++ body ++ after, c ≠ ';' :=
    fun c hc => (plain_around front plain back c hc).1
  rw [hremark]
  unfold codeOf
  rw [takeWhile_eq_self hcode,
    Text.strip_between (fun c hc => (front c hc).1) fun c hc => (back c hc).1]

theorem LaidLine.codeLines_eq (h : LaidLine body line) : codeLines line = stripped [body] := by
  rw [codeLines_of_unbroken h.unbroken]
  unfold codeAmong stripped
  rw [List.map_singleton, h.codeOf_eq, List.map_singleton]

end

theorem LaidOut.codeLines_eq {bodies : List Text} {text : Text} (h : LaidOut bodies text) :
    codeLines text = stripped bodies := by
  induction h with
  | lastBlank laid => exact laid.codeLines_eq
  | last laid => exact laid.codeLines_eq
  | blank laid ends rest ih =>
    rw [codeLines_append_ending ends, laid.codeLines_eq, ih]
    rfl
  | line laid ends rest ih =>
    rw [codeLines_append_ending ends, laid.codeLines_eq, ih, ← stripped_cons]

theorem gather_congr {src src' : Text} (h : codeLines src = codeLines src') :
    Assembly.gather src = Assembly.gather src' := by
  unfold Assembly.gather
  rw [h]

theorem assemble_congr {src src' : Text} (h : codeLines src = codeLines src') :
    assemble src = assemble src' := by
  unfold assemble
  rw [gather_congr h]

/--
The lines of code of a text are the bodies that it is laid out from, less blanks and those that hold
nothing else. So all layouts of the same bodies are assembled to the same, and so is a text that is
rewritten to its lines of code.
-/
theorem layout_changes_nothing :
    (∀ bodies text, LaidOut bodies text → codeLines text = stripped bodies) ∧
    (∀ bodies text text', LaidOut bodies text → LaidOut bodies text' →
      assemble text = assemble text') ∧
    (∀ src, assemble (['\n'].intercalate (codeLines src)) = assemble src) := by
  refine ⟨fun bodies text h => h.codeLines_eq, fun bodies text text' h h' => ?_, fun src => ?_⟩
  · exact assemble_congr (h.codeLines_eq.trans h'.codeLines_eq.symm)
  · exact assemble_congr (codeLines_codeLines src)

def spacedProgram : Text := "\u3000LOCO 5\t; a\x0c;;\r\x85 HALT".toList

theorem layout_changes_nothing_spacedProgram :
    LaidOut ["LOCO 5".toList, "HALT".toList] spacedProgram ∧
      codeLines spacedProgram = stripped ["LOCO 5".toList, "HALT".toList] ∧
      assemble spacedProgram = assemble "LOCO 5\nHALT".toList := by
  have hnothing : LaidLine [] [] :=
    @LaidLine.around [] [] [] [] nofun (by decide) (by decide) .none
  have hnote : LaidLine [] ";;".toList :=
    @LaidLine.around [] [] [] ";;".toList nofun (by decide) (by decide)
      (@Remark.comment [';'] (by simp [isLineBreak]))
  have hloco : LaidLine "LOCO 5".toList "\u3000LOCO 5\t; a".toList :=
    @LaidLine.around _ ['\u3000'] ['\t'] "; a".toList (by simp [isLineBreak]) (by decide)
      (by decide) (@Remark.comment " a".toList (by simp [isLineBreak]))
  have hhalt : LaidLine "HALT".toList " HALT".toList :=
    @LaidLine.around _ [' '] [] [] (by simp [isLineBreak]) (by decide) (by decide) .none
  have hspaced : LaidOut ["LOCO 5".toList, "HALT".toList] spacedProgram :=
    .line hloco (show ['\x0c'] ∈ lineEndings by decide)
      (.blank hnote (show ['\r'] ∈ lineEndings by decide)
        (.blank hnothing (show ['\x85'] ∈ lineEndings by decide) (.last hhalt)))
  have hloco' : LaidLine "LOCO 5".toList "LOCO 5".toList :=
    @LaidLine.around _ [] [] [] (by simp [isLineBreak]) (by decide) (by decide) .none
  have hhalt' : LaidLine "HALT".toList "HALT".toList :=
    @LaidLine.around _ [] [] [] (by simp [isLineBreak]) (by decide) (by decide) .none
  have hplain : LaidOut ["LOCO 5".toList, "HALT".toList] "LOCO 5\nHALT".toList :=
    .line hloco' (show ['\n'] ∈ lineEndings by decide) (.last hhalt')
  exact ⟨hspaced, layout_changes_nothing.1 _ _ hspaced,
    layout_changes_nothing.2.1 _ _ _ hspaced hplain⟩

end AccMachine
