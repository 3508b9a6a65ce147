import AccMachine.Command
import AccMachine.Proofs.AssemblyErrors
import AccMachine.Proofs.MachineRuns

namespace AccMachine

namespace ArgShape

theorem ofArg_of_head {s : Text} (h : s.head? ≠ some '-') : ofArg s = .ok .plain := by
  unfold ofArg
  split
  next => exact absurd rfl h
  next => rfl

theorem exists_mem_spelling :
    ∀ e ∈ Flag.spellings, ∃ c ∈ e.1.toList.tail, c.isDigit = false := by
  have hall : ∀ e ∈ Flag.spellings, e.1.toList.tail.any (!·.isDigit) := by decide
  intro e he
  simpa using hall e he

section
variable {r : Text} (hne : r ≠ []) (h : ∀ c ∈ r, c.isDigit)
include h

theorem ofSpelling?_of_isDigit : Flag.ofSpelling? ('-' :: r) = none := by
  unfold Flag.ofSpelling?
  rw [Option.map_eq_none_iff, List.find?_eq_none]
  intro e he heq
  obtain ⟨c, hc, hdigit⟩ := exists_mem_spelling e he
  rw [eq_of_beq heq] at hc
  rw [h c hc] at hdigit
  cases hdigit

theorem cutEquals_of_isDigit : cutEquals ('-' :: r) = ('-' :: r, none) := by
  have hfront : ('-' :: r).takeWhile (· != '=') = '-' :: r := by
    rw [List.takeWhile_eq_self_iff]
    intro c hc
    rcases List.mem_cons.mp hc with rfl | hc
    · decide
    · exact @Numeral.forall_isDigit (fun c => (c != '=') = true) (by decide) c (h c hc)
  unfold cutEquals
  dsimp only
  rw [hfront, List.drop_length]

include hne

theorem isNegativeNumber_of_isDigit : isNegativeNumber ('-' :: r) := by
  have hrest : r.dropWhile Numeral.isDecimalDigit = [] := by
    rw [List.dropWhile_eq_nil_iff]
    exact fun c hc => Numeral.isDecimalDigit_of_isDigit (h c hc)
  have hlast : ('-' :: r).getLast? ≠ some '\n' := by
    intro heq
    rcases List.mem_cons.mp (List.mem_of_getLast? heq) with hc | hc
    · cases hc
    · exact absurd (h _ hc) (by decide)
  unfold isNegativeNumber
  split
  next heq => exact absurd heq hlast
  next => simp [hrest, hne]

theorem candidates_of_isDigit : candidates ('-' :: r) = [] := by
  obtain ⟨d, t, rfl⟩ := List.exists_cons_of_ne_nil hne
  have hd := h d (by simp)
  unfold candidates
  split
  next heq =>
    have hdash : d = '-' := (List.cons.inj (List.cons.inj heq).2).1
    rw [hdash] at hd
    cases hd
  next =>
    rw [List.map_eq_nil_iff, List.filter_eq_nil_iff]
    intro e he heq
    obtain ⟨c, hc, hdigit⟩ := exists_mem_spelling e he
    rw [eq_of_beq heq] at hc
    have hfirst : c = d := by simpa using hc
    rw [hfirst, hd] at hdigit
    cases hdigit

theorem ofArg_of_isDigit : ofArg ('-' :: r) = .ok .plain := by
  unfold ofArg
  dsimp only
  rw [ofSpelling?_of_isDigit h, cutEquals_of_isDigit h, candidates_of_isDigit hne h,
    isNegativeNumber_of_isDigit hne h]
  simp [hne]

end

theorem ofArg_toString (n : Int) : ofArg (toString n).toList = .ok .plain := by
  rw [Numeral.toList_toString]
  split
  next => exact ofArg_of_isDigit Nat.toDigits_ne_nil fun _ => Numeral.isDigit_of_mem_toDigits_ten
  next =>
    apply ofArg_of_head
    intro hhead
    have hdigit := Numeral.isDigit_of_mem_toDigits_ten (List.mem_of_head? hhead)
    cases hdigit

end ArgShape

namespace Options

def headlessArgs (path : Text) (budget : Int) : List Text :=
  [path, "--headless".toList, "--max-steps".toList, (toString budget).toList]

variable {path : Text} {budget : Int}

theorem toString_ne_optionsEnd (n : Int) : (toString n).toList ≠ optionsEnd := by
  intro heq
  have hsign := Numeral.splitSign_toString n
  rw [heq] at hsign
  have hdigits : Nat.toDigits 10 n.natAbs = ['-'] := (congrArg Prod.snd hsign).symm
  have hdash := @Numeral.isDigit_of_mem_toDigits_ten n.natAbs '-' (by simp [hdigits])
  cases hdash

theorem shapes_headlessArgs (plain : path.head? ≠ some '-') :
    ArgShape.ofArgs (headlessArgs path budget) = .ok
      [(path, .plain), ("--headless".toList, .option .headless false none),
        ("--max-steps".toList, .option .maxSteps false none),
        ((toString budget).toList, .plain)] := by
  have hpath : path ≠ optionsEnd := by
    rintro rfl
    exact plain rfl
  have hheadless : ArgShape.ofArg "--headless".toList = .ok (.option .headless false none) := rfl
  have hsteps : ArgShape.ofArg "--max-steps".toList = .ok (.option .maxSteps false none) := rfl
  unfold headlessArgs
  rw [ArgShape.ofArgs, if_neg hpath, ArgShape.ofArg_of_head plain, ArgShape.ofArgs,
    if_neg (by decide), hheadless, ArgShape.ofArgs, if_neg (by decide), hsteps, ArgShape.ofArgs,
    if_neg (toString_ne_optionsEnd budget), ArgShape.ofArg_toString]
  rfl

theorem ofArgs_headlessArgs (plain : path.head? ≠ some '-') (writable : Numeral.Writable budget) :
    ofArgs (headlessArgs path budget) = .ok
      { default with source := some path, headless := true, maxSteps := some budget } := by
  have hvalue : wholeValue .maxSteps (toString budget).toList = .ok (some budget) := by
    unfold wholeValue
    rw [if_neg (toString_ne_optionsEnd budget), Numeral.readWhole_toString writable]
  have hset : setValue { default with source := some path, headless := true } .maxSteps
      (toString budget).toList = .ok
        { default with source := some path, headless := true, maxSteps := some budget } := by
    unfold setValue
    dsimp only
    rw [hvalue]
    rfl
  have hgather : gather default false #[]
      [(path, .plain), ("--headless".toList, .option .headless false none),
        ("--max-steps".toList, .option .maxSteps false none),
        ((toString budget).toList, .plain)] =
      ((setValue { default with source := some path, headless := true } .maxSteps
        (toString budget).toList).mapError Refusal.usage >>= fun o => .ok (o, #[])) := rfl
  rw [hset] at hgather
  unfold ofArgs
  rw [shapes_headlessArgs plain]
  dsimp only [Except.mapError, bind, Except.bind]
  rw [hgather]
  rfl

end Options

def Assembly.loaded (a : Assembly) : Machine := (Machine.fresh Memory.defaultSize).load a.image

def Assembly.warned (a : Assembly) : String :=
  LogRecord.text (a.warnings.map fun w => ⟨.warning, .assembler, w⟩)

def unreadMessage (path : Text) (reason : String) : String :=
  let refusal := s!"{reason}: {Text.quoted (SourceFile.normalize path)}"
  s!"Nao consegui ler {String.ofList path}: {refusal}"

/-- How the command ends without a window, for a name and what stands under it. -/
inductive HeadlessEnd (path : Text) (budget : Int) : FileState → Outcome → Prop
  | unread {state : FileState} {reason : String}
      (problem : SourceFile.problem? state = some reason) :
      HeadlessEnd path budget state
        ⟨.returned 2, "", LogRecord.text [⟨.error, .command, unreadMessage path reason⟩], none⟩
  /-- No one is told of bytes that are no text. -/
  | notText {bytes : ByteArray} (coded : String.fromUTF8? bytes = none) :
      HeadlessEnd path budget (.file bytes) ⟨.failed .notText, "", "", none⟩
  | overlong {bytes : ByteArray} {s stderr : String} (coded : String.fromUTF8? bytes = some s)
      (long : HasOverlong (SourceFile.unifyNewlines s.toList)) :
      HeadlessEnd path budget (.file bytes) ⟨.failed .badValue, "", stderr, none⟩
  | errors {bytes : ByteArray} {s : String} {a : Assembly}
      (coded : String.fromUTF8? bytes = some s)
      (assembled : assemble (SourceFile.unifyNewlines s.toList) = .ok a) (wrong : a.ok = false) :
      HeadlessEnd path budget (.file bytes)
        ⟨.returned 1, "", a.warned ++ Command.errorList a.errorMessages, none⟩
  | halted {bytes : ByteArray} {s stderr : String} {a : Assembly} {r : FinishedRun}
      (coded : String.fromUTF8? bytes = some s)
      (assembled : assemble (SourceFile.unifyNewlines s.toList) = .ok a) (right : a.ok)
      (halts : a.loaded.HaltsWithin budget) (ran : a.runToEnd budget = .ok r) :
      HeadlessEnd path budget (.file bytes) ⟨.returned 0, r.report, stderr, none⟩
  | spent {bytes : ByteArray} {s stderr : String} {a : Assembly} {r : FinishedRun}
      (coded : String.fromUTF8? bytes = some s)
      (assembled : assemble (SourceFile.unifyNewlines s.toList) = .ok a) (right : a.ok)
      (goes : ¬ a.loaded.HaltsWithin budget) (ran : a.runToEnd budget = .ok r) :
      HeadlessEnd path budget (.file bytes) ⟨.returned 3, r.report, stderr, none⟩

theorem Assembly.atLeast_warning_records (a : Assembly) (finished : Bool) :
    LogRecord.atLeast .warning (a.records finished) =
      a.warnings.map fun w => ⟨.warning, .assembler, w⟩ := by
  have hwarnings : LogRecord.atLeast .warning
      (a.warnings.map fun w => ⟨.warning, .assembler, w⟩) =
        a.warnings.map fun w => ⟨.warning, .assembler, w⟩ := by
    unfold LogRecord.atLeast
    rw [List.filter_eq_self]
    intro r hr
    obtain ⟨w, -, rfl⟩ := List.mem_map.mp hr
    rfl
  have herrors : LogRecord.atLeast .warning
      (a.errorMessages.map fun e => ⟨.debug, .assembler, e⟩) = [] := by
    unfold LogRecord.atLeast
    rw [List.filter_eq_nil_iff]
    intro r hr
    obtain ⟨e, -, rfl⟩ := List.mem_map.mp hr
    have hlow : ¬ LogLevel.warning.rank ≤ LogLevel.debug.rank := by decide
    simpa using hlow
  unfold LogRecord.atLeast at hwarnings herrors ⊢
  unfold Assembly.records
  rw [List.filter_append, List.filter_append, hwarnings, herrors]
  cases finished <;> simp [LogLevel.rank]

theorem Assembly.runToEnd_ok (a : Assembly) (budget : Int) :
    ∃ r, a.runToEnd budget = .ok r ∧ (r.machine.halted ↔ a.loaded.HaltsWithin budget) := by
  obtain ⟨n, m, hrun, hhalts⟩ :=
    (Machine.sound_load (Machine.fresh Memory.defaultSize) a.image).run_halts_iff rfl budget
  refine ⟨⟨a.warnings, n, m⟩, ?_, hhalts⟩
  unfold Assembly.runToEnd
  rw [hrun]
  rfl

namespace Command

variable {path : Text} {budget : Int}

theorem runImage_ends {bytes : ByteArray} {s : String} {a : Assembly}
    (coded : String.fromUTF8? bytes = some s)
    (assembled : assemble (SourceFile.unifyNewlines s.toList) = .ok a) (right : a.ok)
    (l : LogLevel) (told : List LogRecord) :
    HeadlessEnd path budget (.file bytes) (runImage a (some budget) l told) := by
  obtain ⟨r, hrun, hhalts⟩ := a.runToEnd_ok budget
  unfold runImage
  dsimp only
  rw [hrun]
  dsimp only
  split
  next halted => exact .halted coded assembled right (hhalts.mp halted) hrun
  next live => exact .spent coded assembled right (fun h => live (hhalts.mpr h)) hrun

theorem headless_ends {bytes : ByteArray} {s : String} (coded : String.fromUTF8? bytes = some s) :
    HeadlessEnd path budget (.file bytes)
      (headless (SourceFile.unifyNewlines s.toList) (some budget) .warning) := by
  unfold headless
  rcases hgather : Assembly.gather (SourceFile.unifyNewlines s.toList) with ⟨a, f⟩
  dsimp only
  cases f with
  | some f =>
    have hassemble : assemble (SourceFile.unifyNewlines s.toList) = .error f := by
      unfold assemble
      rw [hgather]
    obtain ⟨rfl, hover⟩ := assemble_eq_error_iff.mp hassemble
    exact .overlong coded hover
  | none =>
    have hassemble : assemble (SourceFile.unifyNewlines s.toList) = .ok a := by
      unfold assemble
      rw [hgather]
    dsimp only
    cases hok : a.ok with
    | false =>
      have hfailure : a.failure? = some ⟨a.errorMessages⟩ := if_neg (by simp [hok])
      rw [hfailure, Assembly.atLeast_warning_records]
      exact .errors coded hassemble hok
    | true =>
      have hfailure : a.failure? = none := if_pos hok
      rw [hfailure]
      exact runImage_ends coded hassemble hok _ _

theorem withLevel_ends {o : Options} (nonempty : path ≠ []) (noNul : '\x00' ∉ path)
    (source : o.source = some path) (headless : o.headless) (steps : o.maxSteps = some budget)
    (files : Text → FileState) :
    HeadlessEnd path budget (files (SourceFile.normalize path)) (withLevel o .warning files) := by
  have hsource : o.source.filter (!·.isEmpty) = some path := by
    rw [source]
    simp [nonempty]
  have hnul : ¬ path.contains '\x00' := by simpa using noNul
  unfold withLevel
  rw [hsource]
  dsimp only
  unfold SourceFile.read
  rw [if_neg hnul]
  dsimp only
  cases hstate : files (SourceFile.normalize path) with
  | file bytes =>
    dsimp only
    unfold SourceFile.decodeText
    cases hcoded : String.fromUTF8? bytes with
    | none => exact .notText hcoded
    | some s =>
      dsimp only [bind, Except.bind, pure, Except.pure]
      rw [if_pos headless, steps]
      exact headless_ends hcoded
  | missing => exact @HeadlessEnd.unread path budget .missing _ rfl
  | directory => exact @HeadlessEnd.unread path budget .directory _ rfl
  | throughFile => exact @HeadlessEnd.unread path budget .throughFile _ rfl
  | nameTooLong => exact @HeadlessEnd.unread path budget .nameTooLong _ rfl

/--
Whatever stands under the name of a source, and whatever the budget, the command without a window
ends in one of six ways: it returns 2 for what is no file, 1 for a program with errors, 0 for one
that halts within the budget and 3 for any other, with the report of a program that was run. It
faults on bytes that are no text and on a decimal literal that is too long.
-/
theorem headless_command_ends (nonempty : path ≠ []) (plain : path.head? ≠ some '-')
    (noNul : '\x00' ∉ path) (writable : Numeral.Writable budget) (files : Text → FileState) :
    HeadlessEnd path budget (files (SourceFile.normalize path))
      (run (Options.headlessArgs path budget) files) := by
  unfold run
  rw [Options.ofArgs_headlessArgs plain writable]
  exact withLevel_ends nonempty noNul rfl rfl rfl files

def haltFile : FileState := .file "HALT".toUTF8

theorem headless_command_ends_haltFile :
    "a.asm".toList ≠ [] ∧ "a.asm".toList.head? ≠ some '-' ∧ '\x00' ∉ "a.asm".toList ∧
      Numeral.Writable 5 ∧
      HeadlessEnd "a.asm".toList 5 haltFile
        (run (Options.headlessArgs "a.asm".toList 5) fun _ => haltFile) ∧
      (run (Options.headlessArgs "a.asm".toList 5) fun _ => haltFile).ending = .returned 0 := by
  have writable : Numeral.Writable 5 := Numeral.writable_iff_length.mpr (by decide)
  have hend := @headless_command_ends "a.asm".toList 5 (by decide) (by decide) (by decide)
    writable fun _ => haltFile
  refine ⟨by decide, by decide, by decide, writable, hend, ?_⟩
  have hcoded : String.fromUTF8? "HALT".toUTF8 = some "HALT" := rfl
  have hassemble : assemble (SourceFile.unifyNewlines "HALT".toList) =
      .ok ⟨#[0xFFFF], #[], #[], []⟩ := rfl
  have hhalts : (Assembly.loaded ⟨#[0xFFFF], #[], #[], []⟩).HaltsWithin 5 := by
    obtain ⟨trace, m, hstep, halted⟩ := Machine.Sound.step_halts
      (Machine.sound_load (Machine.fresh Memory.defaultSize) #[0xFFFF])
      (Machine.load_mirrors _ _) rfl (by decide) (Memory.get_load _ _ _ (by decide))
    have hran := (Machine.Ran.refl.step rfl hstep).steps_eq
    exact ⟨1, _, m, by decide, hran, halted⟩
  unfold haltFile at hend ⊢
  generalize run (Options.headlessArgs "a.asm".toList 5) _ = outcome at hend ⊢
  cases hend with
  | unread problem => cases problem
  | notText coded =>
    rw [hcoded] at coded
    cases coded
  | overlong coded long =>
    rw [hcoded] at coded
    cases coded
    exact absurd long (not_hasOverlong_of_ok hassemble)
  | errors coded assembled wrong =>
    rw [hcoded] at coded
    cases coded
    rw [hassemble] at assembled
    cases assembled
    cases wrong
  | halted => rfl
  | spent coded assembled _ goes =>
    rw [hcoded] at coded
    cases coded
    rw [hassemble] at assembled
    cases assembled
    exact absurd hhalts goes

theorem headless_command_ends_badByte :
    run (Options.headlessArgs "a.asm".toList 5) (fun _ => .file ⟨#[0xFF]⟩) =
      ⟨.failed .notText, "", "", none⟩ := by
  have writable : Numeral.Writable 5 := Numeral.writable_iff_length.mpr (by decide)
  unfold run
  rw [Options.ofArgs_headlessArgs (by decide) writable]
  rfl

end Command

end AccMachine
