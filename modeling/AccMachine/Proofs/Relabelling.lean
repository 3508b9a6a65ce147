import AccMachine.Proofs.AssemblyErrors
import AccMachine.Proofs.ChangedWords

namespace AccMachine

def labelNames (src : Text) : List Text := (codeLines src).filterMap labelOf?

def bodyWords (src : Text) : List Text := (codeLines src).flatMap fun line => (bodyOf line).words

/-- The number of words of a body that are looked up: the first one, and an operand behind it. -/
def lookedUp : List Text → Nat
  | [] => 0
  | first :: _ =>
    match Operation.ofMnemonic? first.upper with
    | some o => if o.takesOperand then 2 else 1
    | none => 1

def relabelBody (r : Text → Text) (s : Text) : Text := Text.onWords r (lookedUp s.words) s

def relabelCode (r : Text → Text) (s : Text) : Text :=
  if ':' ∈ s then
    let after := (s.dropWhile (· ≠ ':')).tail
    Text.onWords r 1 (s.takeWhile (· ≠ ':')) ++
      ':' :: (relabelBody r (after.takeWhile (· ≠ ':')) ++ after.dropWhile (· ≠ ':'))
  else relabelBody r s

def relabelLine (r : Text → Text) (line : Text) : Text :=
  relabelCode r (codePart line) ++ commentPart line

/-- The new name of a token that is a label of the source; other tokens keep theirs. -/
def newName (ρ : Text → Text) (src token : Text) : Text :=
  if (labelNames src).contains token then ρ token else token

theorem newName_of_mem {ρ : Text → Text} {src token : Text} (h : token ∈ labelNames src) :
    newName ρ src token = ρ token :=
  if_pos (List.contains_iff_mem.mpr h)

theorem newName_of_notMem {ρ : Text → Text} {src token : Text} (h : token ∉ labelNames src) :
    newName ρ src token = token :=
  if_neg (List.contains_iff_mem.not.mpr h)

def relabel (ρ : Text → Text) (src : Text) : Text := Text.onLines (relabelLine (newName ρ src)) src

/-- A token that is read as a label wherever it is looked up: no mnemonic and no literal. -/
structure LabelToken (t : Text) : Prop where
  ne_nil : t ≠ []
  chars : ∀ c ∈ t, TokenChar c
  plain : ∀ o : Operation, t.upper ≠ o.mnemonic.toList
  unread : Literal.read t = .ok none

theorem labelToken_iff {t : Text} : LabelToken t ↔
    t ≠ [] ∧ (∀ c ∈ t, TokenChar c) ∧ Operation.ofMnemonic? t.upper = none ∧
      Literal.read t = .ok none := by
  constructor
  · intro h
    exact ⟨h.ne_nil, h.chars, ofMnemonic?_eq_none_iff.mpr h.plain, h.unread⟩
  · rintro ⟨hne, hchars, hplain, hread⟩
    exact ⟨hne, hchars, ofMnemonic?_eq_none_iff.mp hplain, hread⟩

instance (t : Text) : Decidable (LabelToken t) :=
  have : Decidable (∀ c ∈ t, TokenChar c) := List.decidableBAll _ t
  decidable_of_iff _ labelToken_iff.symm

/--
New names for the labels of a source: they are read as labels like the old ones, tell the labels
apart, and are no words of the source, save those that are its labels.
-/
structure Renaming (ρ : Text → Text) (src : Text) : Prop where
  names : ∀ n ∈ labelNames src, LabelToken n
  images : ∀ n ∈ labelNames src, LabelToken (ρ n)
  injective : ∀ n ∈ labelNames src, ∀ k ∈ labelNames src, ρ n = ρ k → n = k
  fresh : ∀ n ∈ labelNames src, ∀ t ∈ bodyWords src, t ∉ labelNames src → ρ n ≠ t

def Labels.rename (r : Text → Text) (labels : Labels) : Labels := labels.map fun e => (r e.1, e.2)

def Redefinition.rename (r : Text → Text) (d : Redefinition) : Redefinition :=
  { d with name := r d.name }

def Assembly.rename (r : Text → Text) (a : Assembly) : Assembly :=
  { a with redefinitions := a.redefinitions.map (·.rename r), labels := a.labels.rename r }

/-- A body in whose place another one stands with the words that are looked up exchanged. -/
structure SameBody (r : Text → Text) (body body' : Text) : Prop where
  empty : body'.isEmpty = body.isEmpty
  words : body'.words = (body.words.take (lookedUp body.words)).map r ++
    body.words.drop (lookedUp body.words)

structure SameLine (r : Text → Text) (line line' : Text) : Prop where
  label : labelOf? line' = (labelOf? line).map r
  body : SameBody r (bodyOf line) (bodyOf line')

section
variable {r : Text → Text} {s : Text}

theorem not_tokenChar_colon : ¬TokenChar ':' := by decide

theorem not_tokenChar_semicolon : ¬TokenChar ';' := by decide

theorem sameBody_strip (h : KeepsWords r) (s : Text) :
    SameBody r s.strip (relabelBody r s).strip := by
  have hwords : (relabelBody r s).words =
      (s.words.take (lookedUp s.words)).map r ++ s.words.drop (lookedUp s.words) :=
    Text.words_onWords h _ s
  have hlength := congrArg List.length hwords
  rw [List.length_append, List.length_map, ← List.length_append, List.take_append_drop] at hlength
  constructor
  · rw [Bool.eq_iff_iff, List.isEmpty_iff, List.isEmpty_iff, Text.strip_eq_nil_iff,
      Text.strip_eq_nil_iff, ← List.length_eq_zero_iff, hlength, List.length_eq_zero_iff]
  · rw [Text.words_strip, Text.words_strip, hwords]

theorem relabelCode_append_colon {before : Text} (h : ':' ∉ before) (after : Text) :
    relabelCode r (before ++ ':' :: after) = Text.onWords r 1 before ++
      ':' :: (relabelBody r (after.takeWhile (· ≠ ':')) ++ after.dropWhile (· ≠ ':')) := by
  unfold relabelCode
  rw [if_pos (by simp), takeWhile_ne_append h, dropWhile_ne_append h]
  rfl

theorem relabelCode_of_no_colon (h : ':' ∉ s) : relabelCode r s = relabelBody r s := if_neg h

theorem mem_relabelCode (h : KeepsWords r) {c : Char} (hc : c ∈ relabelCode r s) :
    c ∈ s ∨ TokenChar c := by
  by_cases hcolon : ':' ∈ s
  · obtain ⟨before, after, rfl, hbefore⟩ := List.eq_append_cons_of_mem hcolon
    rw [relabelCode_append_colon hbefore, List.mem_append, List.mem_cons, List.mem_append] at hc
    rw [List.mem_append, List.mem_cons]
    rcases hc with hlabel | rfl | hbody | hrest
    · exact (Text.mem_onWords h hlabel).imp_left .inl
    · exact .inl (.inr (.inl rfl))
    · exact (Text.mem_onWords h hbody).imp_left fun hmem =>
        .inr (.inr ((List.takeWhile_prefix _).subset hmem))
    · exact .inl (.inr (.inr ((List.dropWhile_suffix _).subset hrest)))
  · rw [relabelCode_of_no_colon hcolon] at hc
    exact Text.mem_onWords h hc

theorem colon_notMem_of_blank {blanks : Text} (h : ∀ c ∈ blanks, isBlank c) : ':' ∉ blanks :=
  fun hmem => absurd (h ':' hmem) (by decide)

theorem strip_takeWhile_append {blanks : Text} (h : ∀ c ∈ blanks, isBlank c) (s : Text) :
    Text.strip ((s ++ blanks).takeWhile (· ≠ ':')) = Text.strip (s.takeWhile (· ≠ ':')) := by
  have hnone := colon_notMem_of_blank h
  by_cases hcolon : ':' ∈ s
  · obtain ⟨front, rest, rfl, hfront⟩ := List.eq_append_cons_of_mem hcolon
    rw [List.append_assoc, List.cons_append, takeWhile_ne_append hfront, takeWhile_ne_append hfront]
  · have hboth : ':' ∉ s ++ blanks := fun hmem => (List.mem_append.mp hmem).elim hcolon hnone
    have hstrip : Text.strip ([] ++ s ++ blanks) = s.strip :=
      Text.strip_between (List.forall_mem_nil _) h s
    rw [takeWhile_ne_self hcolon, takeWhile_ne_self hboth]
    exact hstrip

theorem parts_strip (s : Text) :
    labelOf? s.strip = labelOf? s ∧ bodyOf s.strip = (bodyOf s).strip := by
  obtain ⟨front, back, hsplit, hfront, hback⟩ := Text.exists_blanks_around s
  by_cases hcolon : ':' ∈ s.strip
  · obtain ⟨before, after, hstrip, hbefore⟩ := List.eq_append_cons_of_mem hcolon
    have hlong : s = (front ++ before) ++ ':' :: (after ++ back) := by
      rw [hstrip] at hsplit
      simpa using hsplit
    have hlong' : ':' ∉ front ++ before := fun hmem =>
      (List.mem_append.mp hmem).elim (colon_notMem_of_blank hfront) hbefore
    have hlabel : Text.strip (front ++ before ++ []) = Text.strip before :=
      Text.strip_between hfront (List.forall_mem_nil _) before
    rw [List.append_nil] at hlabel
    rw [hstrip, hlong, labelOf?_append_colon hbefore, labelOf?_append_colon hlong',
      bodyOf_append_colon hbefore, bodyOf_append_colon hlong', hlabel, Text.strip_strip,
      strip_takeWhile_append hback]
    exact ⟨rfl, rfl⟩
  · have hnone : ':' ∉ s := by
      rw [hsplit, List.mem_append, List.mem_append]
      rintro ((hmem | hmem) | hmem)
      · exact colon_notMem_of_blank hfront hmem
      · exact hcolon hmem
      · exact colon_notMem_of_blank hback hmem
    rw [labelOf?_of_no_colon hcolon, labelOf?_of_no_colon hnone, bodyOf_of_no_colon hcolon,
      bodyOf_of_no_colon hnone]
    exact ⟨rfl, rfl⟩

@[simp] theorem labelOf?_strip (s : Text) : labelOf? s.strip = labelOf? s := (parts_strip s).1

@[simp] theorem bodyOf_strip (s : Text) : bodyOf s.strip = (bodyOf s).strip := (parts_strip s).2

theorem sameLine_strip (h : KeepsWords r)
    (label : ∀ n, labelOf? s = some n → n ≠ [] ∧ ∀ c ∈ n, isBlank c = false) :
    SameLine r s.strip (relabelCode r s).strip := by
  by_cases hcolon : ':' ∈ s
  · obtain ⟨before, after, rfl, hbefore⟩ := List.eq_append_cons_of_mem hcolon
    have hlabel := labelOf?_append_colon hbefore after
    obtain ⟨hne, hchars⟩ := label _ hlabel
    have hbefore' := Text.notMem_onWords h not_tokenChar_colon hbefore 1
    have hmid : ':' ∉ after.takeWhile (· ≠ ':') := by
      intro hmem
      simpa using List.mem_takeWhile_imp hmem
    have hmid' : ':' ∉ relabelBody r (after.takeWhile (· ≠ ':')) :=
      Text.notMem_onWords h not_tokenChar_colon hmid _
    constructor
    · rw [labelOf?_strip, labelOf?_strip, hlabel, relabelCode_append_colon hbefore,
        labelOf?_append_colon hbefore', Text.strip_onWords_one h rfl hne hchars]
      rfl
    · rw [bodyOf_strip, bodyOf_strip, bodyOf_append_colon hbefore, relabelCode_append_colon hbefore,
        bodyOf_append_colon hbefore', takeWhile_append_dropWhile_ne hmid', Text.strip_strip,
        Text.strip_strip]
      exact sameBody_strip h _
  · have hcolon' : ':' ∉ relabelCode r s := by
      intro hmem
      exact (mem_relabelCode h hmem).elim hcolon not_tokenChar_colon
    constructor
    · rw [labelOf?_strip, labelOf?_strip, labelOf?_of_no_colon hcolon, labelOf?_of_no_colon hcolon']
      rfl
    · rw [bodyOf_strip, bodyOf_strip, bodyOf_of_no_colon hcolon, bodyOf_of_no_colon hcolon',
        relabelCode_of_no_colon hcolon]
      exact sameBody_strip h s

theorem relabelLine_unbroken (h : KeepsWords r) {line : Text}
    (hline : ∀ c ∈ line, isLineBreak c = false) :
    ∀ c ∈ relabelLine r line, isLineBreak c = false := by
  intro c hc
  rcases List.mem_append.mp hc with hcode | hcomment
  · rcases mem_relabelCode h hcode with hmem | htoken
    · exact hline c ((List.takeWhile_prefix _).subset hmem)
    · exact Text.not_isLineBreak_of_not_isBlank htoken.1
  · exact hline c ((List.dropWhile_suffix _).subset hcomment)

theorem codeOf_relabelLine (h : KeepsWords r) (line : Text) :
    codeOf (relabelLine r line) = Text.strip (relabelCode r (codePart line)) := by
  have hplain : ∀ c ∈ relabelCode r (codePart line), c ≠ ';' := by
    rintro c hc rfl
    rcases mem_relabelCode h hc with hmem | htoken
    · simpa using List.mem_takeWhile_imp hmem
    · exact not_tokenChar_semicolon htoken
  have hcode : codeOf (relabelCode r (codePart line)) =
      Text.strip (relabelCode r (codePart line)) := by
    unfold codeOf
    rw [takeWhile_eq_self hplain]
  unfold relabelLine
  rcases commentPart_eq line with hnil | ⟨rest, hrest⟩
  · rw [hnil, List.append_nil, hcode]
  · rw [hrest, codeOf_append_semicolon, hcode]

theorem eq_nil_iff_parts {line : Text} : line = [] ↔ labelOf? line = none ∧ bodyOf line = [] := by
  constructor
  · rintro rfl
    exact ⟨rfl, rfl⟩
  · rintro ⟨hlabel, hbody⟩
    have hnone : ':' ∉ line := by
      intro hmem
      unfold labelOf? at hlabel
      rw [if_pos hmem] at hlabel
      cases hlabel
    rwa [bodyOf_of_no_colon hnone] at hbody

theorem SameLine.nil_iff {line line' : Text} (h : SameLine r line line') :
    line' = [] ↔ line = [] := by
  have hbody := h.body.empty
  rw [Bool.eq_iff_iff, List.isEmpty_iff, List.isEmpty_iff] at hbody
  rw [@eq_nil_iff_parts line', @eq_nil_iff_parts line, hbody, h.label, Option.map_eq_none_iff]

theorem sameLine_relabelLine (h : KeepsWords r) {line : Text}
    (label : ∀ code ∈ codeAmong [line], ∀ n, labelOf? code = some n →
      n ≠ [] ∧ ∀ c ∈ n, isBlank c = false) :
    List.Forall₂ (SameLine r) (codeAmong [line]) (codeAmong [relabelLine r line]) := by
  have hcode := codeOf_relabelLine h line
  have same : SameLine r (codeOf line) (codeOf (relabelLine r line)) := by
    rw [hcode]
    apply sameLine_strip h
    intro n hn
    have hstrip : labelOf? (codeOf line) = some n := (labelOf?_strip (codePart line)).trans hn
    have hne : codeOf line ≠ [] := by
      intro hnil
      rw [hnil] at hstrip
      cases hstrip
    rw [codeAmong_singleton hne] at label
    exact label _ (List.mem_singleton_self _) n hstrip
  by_cases hnil : codeOf line = []
  · rw [codeAmong_cons_of_nil hnil, codeAmong_cons_of_nil (same.nil_iff.mpr hnil)]
    exact .nil
  · rw [codeAmong_singleton hnil, codeAmong_singleton fun hnil' => hnil (same.nil_iff.mp hnil')]
    exact .cons same .nil

theorem sameLine_codeLines (h : KeepsWords r) {src : Text}
    (names : ∀ n ∈ labelNames src, n ≠ [] ∧ ∀ c ∈ n, isBlank c = false) :
    List.Forall₂ (SameLine r) (codeLines src) (codeLines (Text.onLines (relabelLine r) src)) := by
  apply forall₂_codeLines_onLines (fun _ => relabelLine_unbroken h) fun _ => sameLine_relabelLine h
  intro code hcode n hn
  exact names n (List.mem_filterMap.mpr ⟨code, hcode, hn⟩)

theorem Labels.find?_rename {labels : Labels} {t : Text}
    (apart : ∀ e ∈ labels, r e.1 = r t → e.1 = t) :
    (labels.rename r).find? (r t) = labels.find? t := by
  unfold Labels.find? Labels.rename
  induction labels with
  | nil => rfl
  | cons e es ih =>
    have hrest := ih fun d hd => apart d (List.mem_cons_of_mem e hd)
    rw [List.map_cons, List.find?_cons, List.find?_cons]
    by_cases he : e.1 = t
    · simp [he]
    · have hne : r e.1 ≠ r t := fun heq => he (apart e (by simp) heq)
      simpa [he, hne] using hrest

theorem Labels.define_rename {labels : Labels} {name : Text} (addr : Int)
    (apart : ∀ e ∈ labels, r e.1 = r name → e.1 = name) :
    (labels.rename r).define (r name) addr = (labels.define name addr).rename r := by
  unfold Labels.rename
  induction labels with
  | nil => rfl
  | cons e es ih =>
    have hrest := ih fun d hd => apart d (List.mem_cons_of_mem e hd)
    rw [List.map_cons]
    unfold Labels.define
    by_cases he : e.1 = name
    · simp [he]
    · have hne : r e.1 ≠ r name := fun heq => he (apart e (by simp) heq)
      simpa [he, hne] using hrest

structure Outline.Renamed (r : Text → Text) (names : List Text) (o o' : Outline) : Prop where
  labels : o'.labels = o.labels.rename r
  bodies : List.Forall₂ (SameBody r) o.bodies.toList o'.bodies.toList
  redefinitions : o'.redefinitions = o.redefinitions.map (·.rename r)
  known : ∀ e ∈ o.labels, e.1 ∈ names
  knownAgain : ∀ d ∈ o.redefinitions, d.name ∈ names

namespace Outline.Renamed

variable {names : List Text} {o o' : Outline}

theorem start : (Outline.start []).Renamed r names (Outline.start []) :=
  ⟨rfl, .nil, by simp [Outline.start], nofun, nofun⟩

theorem define (h : o.Renamed r names o')
    (injective : ∀ n ∈ names, ∀ k ∈ names, r n = r k → n = k) {name : Text} (hname : name ∈ names) :
    (o.define name).Renamed r names (o'.define (r name)) := by
  have hsize : o'.bodies.size = o.bodies.size := h.bodies.length_eq.symm
  have apart : ∀ e ∈ o.labels, r e.1 = r name → e.1 = name :=
    fun e he => injective e.1 (h.known e he) name hname
  have hfind : o'.labels.find? (r name) = o.labels.find? name := by
    rw [h.labels]
    exact Labels.find?_rename apart
  rw [define_eq, define_eq]
  refine ⟨?_, h.bodies, ?_, ?_, ?_⟩
  · rw [h.labels, hsize]
    exact Labels.define_rename _ apart
  · rw [hfind, hsize, h.redefinitions, Array.map_append]
    cases o.labels.find? name <;> simp [Redefinition.rename]
  · intro e he
    rcases Labels.mem_names_define (List.mem_map_of_mem he) with heq | hold
    · rw [heq]
      exact hname
    · obtain ⟨d, hd, heq⟩ := List.mem_map.mp hold
      rw [← heq]
      exact h.known d hd
  · intro d hd
    rcases Array.mem_append.mp hd with hold | hnew
    · exact h.knownAgain d hold
    · cases hprevious : o.labels.find? name with
      | none => simp [hprevious] at hnew
      | some previous =>
        obtain rfl : d = ⟨name, previous, o.bodies.size⟩ := by simpa [hprevious] using hnew
        exact hname

theorem addBody (h : o.Renamed r names o') {body body' : Text} (same : SameBody r body body') :
    (if body.isEmpty then o else { o with bodies := o.bodies.push body }).Renamed r names
      (if body'.isEmpty then o' else { o' with bodies := o'.bodies.push body' }) := by
  rw [same.empty]
  split
  next => exact h
  next =>
    refine ⟨h.labels, ?_, h.redefinitions, h.known, h.knownAgain⟩
    rw [Array.toList_push, Array.toList_push]
    exact List.rel_append h.bodies (.cons same .nil)

theorem add (h : o.Renamed r names o')
    (injective : ∀ n ∈ names, ∀ k ∈ names, r n = r k → n = k) {line line' : Text}
    (same : SameLine r line line') (label : ∀ n, labelOf? line = some n → n ∈ names) :
    (o.add line).Renamed r names (o'.add line') := by
  unfold Outline.add
  rw [SourceLine.ofText_eq, SourceLine.ofText_eq, same.label]
  cases hlabel : labelOf? line with
  | none => exact h.addBody same.body
  | some name => exact (h.define injective (label name hlabel)).addBody same.body

theorem foldl_add (h : o.Renamed r names o')
    (injective : ∀ n ∈ names, ∀ k ∈ names, r n = r k → n = k) {lines lines' : List Text}
    (same : List.Forall₂ (SameLine r) lines lines')
    (label : ∀ line ∈ lines, ∀ n, labelOf? line = some n → n ∈ names) :
    (lines.foldl Outline.add o).Renamed r names (lines'.foldl Outline.add o') := by
  induction same generalizing o o' with
  | nil => exact h
  | cons hline _ ih =>
    obtain ⟨hfirst, hrest⟩ := List.forall_mem_cons.mp label
    exact ih (h.add injective hline hfirst) hrest

end Outline.Renamed

theorem find?_ofLines_ne_none {lines : List Text} {name : Text}
    (h : name ∈ lines.filterMap labelOf?) :
    (Outline.ofLines [] lines).labels.find? name ≠ none := by
  induction lines using List.reverseRecOn with
  | nil => cases h
  | append_singleton lines line ih =>
    unfold Outline.ofLines at ih ⊢
    rw [List.foldl_append, List.foldl_cons, List.foldl_nil, Outline.add_eq]
    rw [List.filterMap_append, List.mem_append] at h
    cases hlabel : labelOf? line with
    | none =>
      have hearlier : name ∈ lines.filterMap labelOf? := by simpa [hlabel] using h
      exact ih hearlier
    | some label =>
      dsimp only
      rw [Labels.find?_define]
      split
      next => simp
      next hne =>
        have hearlier : name ∈ lines.filterMap labelOf? := by
          simpa [hlabel, Ne.symm hne] using h
        exact ih hearlier

/-- What renaming keeps of a token: what it is looked up as, and itself where it is no label. -/
structure Carried (r : Text → Text) (labels : Labels) (t : Text) : Prop where
  mnemonic : Operation.ofMnemonic? (r t).upper = Operation.ofMnemonic? t.upper
  read : Literal.read (r t) = Literal.read t
  find : (labels.rename r).find? (r t) = labels.find? t
  fixed : labels.find? t = none → r t = t

section
variable {labels : Labels}

theorem Carried.encodeData_eq {t : Text} (h : Carried r labels t) :
    encodeData (labels.rename r) (r t) = encodeData labels t := by
  unfold encodeData
  rw [h.read, h.find]
  cases hfind : labels.find? t with
  | none => rw [h.fixed hfind]
  | some addr => rfl

theorem Carried.operandValue_eq {t : Text} (h : Carried r labels t) :
    operandValue (labels.rename r) (r t) = operandValue labels t := by
  unfold operandValue
  rw [h.read, h.find]

theorem encodeOperation_rename {o : Operation} (ho : o.takesOperand) {rest : List Text}
    (h : ∀ t ∈ rest, Carried r labels t) :
    encodeOperation (labels.rename r) o ((rest.take 1).map r ++ rest.drop 1) =
      encodeOperation labels o rest := by
  unfold encodeOperation
  rw [if_pos ho, if_pos ho]
  cases rest with
  | nil => rfl
  | cons t rest =>
    have ht := h t (by simp)
    change (operandValue (labels.rename r) (r t) >>= _) = (operandValue labels t >>= _)
    rw [ht.operandValue_eq]
    cases hvalue : operandValue labels t with
    | error f => rfl
    | ok value =>
      cases value with
      | none =>
        have hfind := (operandValue_eq_none_iff.mp hvalue).1
        rw [ht.fixed hfind]
      | some n => rfl

theorem encodeBody_rename {body body' : Text} (same : SameBody r body body')
    (h : ∀ t ∈ body.words, Carried r labels t) :
    encodeBody (labels.rename r) body' = encodeBody labels body := by
  have hwords := same.words
  cases hbody : body.words with
  | nil =>
    rw [hbody] at hwords
    rw [encodeBody_of_no_words hbody, encodeBody_of_no_words hwords]
  | cons first rest =>
    rw [hbody] at hwords h
    obtain ⟨hfirst, hrest⟩ := List.forall_mem_cons.mp h
    have hcarried := hfirst.mnemonic
    cases ho : Operation.ofMnemonic? first.upper with
    | none =>
      rw [ho] at hcarried
      have hone : lookedUp (first :: rest) = 1 := by
        simp [lookedUp, ho]
      rw [hone] at hwords
      rw [encodeBody_of_plain hbody (ofMnemonic?_eq_none_iff.mp ho),
        encodeBody_of_plain hwords (ofMnemonic?_eq_none_iff.mp hcarried)]
      exact hfirst.encodeData_eq
    | some o =>
      rw [ho] at hcarried
      have hmnemonic := Operation.ofMnemonic?_eq_some_iff.mp ho
      have hmnemonic' := Operation.ofMnemonic?_eq_some_iff.mp hcarried
      rw [encodeBody_of_mnemonic hbody hmnemonic]
      cases takes : o.takesOperand with
      | true =>
        have htwo : lookedUp (first :: rest) = 2 := by
          simp [lookedUp, ho, takes]
        rw [htwo] at hwords
        rw [encodeBody_of_mnemonic hwords hmnemonic']
        exact encodeOperation_rename takes hrest
      | false =>
        have hone : lookedUp (first :: rest) = 1 := by
          simp [lookedUp, ho, takes]
        rw [hone] at hwords
        rw [encodeBody_of_mnemonic hwords hmnemonic']
        unfold encodeOperation
        rw [takes]
        rfl

end

theorem encodeFrom_rename {a : Assembly} {bodies bodies' : List Text} (n : Nat)
    (same : List.Forall₂ (SameBody r) bodies bodies')
    (h : ∀ body ∈ bodies, ∀ t ∈ body.words, Carried r a.labels t) :
    (a.rename r).encodeFrom n bodies' =
      ((a.encodeFrom n bodies).1.rename r, (a.encodeFrom n bodies).2) := by
  induction same generalizing a n with
  | nil => rfl
  | @cons body body' bodies bodies' hbody _ ih =>
    obtain ⟨hfirst, hrest⟩ := List.forall_mem_cons.mp h
    have hencode : encodeBody (a.rename r).labels body' = encodeBody a.labels body :=
      encodeBody_rename hbody hfirst
    unfold Assembly.encodeFrom
    rw [hencode]
    cases encodeBody a.labels body with
    | error f => rfl
    | ok outcome =>
      cases outcome with
      | error e => exact @ih { a with errors := a.errors.push ⟨n, e⟩ } (n + 1) hrest
      | ok w => exact @ih { a with image := a.image.push w } (n + 1) hrest

end

namespace Renaming

variable {ρ : Text → Text} {src : Text}

theorem keepsWords (h : Renaming ρ src) : KeepsWords (newName ρ src) := by
  constructor
  · intro w hw
    by_cases hname : w ∈ labelNames src
    · rw [newName_of_mem hname]
      exact (h.images w hname).ne_nil
    · rw [newName_of_notMem hname]
      exact hw
  · intro w c hc
    by_cases hname : w ∈ labelNames src
    · rw [newName_of_mem hname] at hc
      exact .inr ((h.images w hname).chars c hc)
    · rw [newName_of_notMem hname] at hc
      exact .inl hc

theorem newName_eq_imp (h : Renaming ρ src) {n t : Text} (hn : n ∈ labelNames src)
    (ht : t ∈ labelNames src ∨ t ∈ bodyWords src) (heq : newName ρ src n = newName ρ src t) :
    n = t := by
  rw [newName_of_mem hn] at heq
  by_cases hname : t ∈ labelNames src
  · rw [newName_of_mem hname] at heq
    exact h.injective n hn t hname heq
  · rw [newName_of_notMem hname] at heq
    exact absurd heq (h.fresh n hn t (ht.resolve_left hname) hname)

theorem carried (h : Renaming ρ src) {labels : Labels}
    (known : ∀ e ∈ labels, e.1 ∈ labelNames src)
    (all : ∀ n ∈ labelNames src, labels.find? n ≠ none) {t : Text} (ht : t ∈ bodyWords src) :
    Carried (newName ρ src) labels t := by
  have hfind : (labels.rename (newName ρ src)).find? (newName ρ src t) = labels.find? t :=
    Labels.find?_rename fun e he => h.newName_eq_imp (known e he) (.inr ht)
  by_cases hname : t ∈ labelNames src
  · have hnew : newName ρ src t = ρ t := newName_of_mem hname
    have hold := h.names t hname
    have himage := h.images t hname
    refine ⟨?_, ?_, hfind, fun hnone => absurd hnone (all t hname)⟩
    · rw [hnew, ofMnemonic?_eq_none_iff.mpr hold.plain, ofMnemonic?_eq_none_iff.mpr himage.plain]
    · rw [hnew, hold.unread, himage.unread]
  · have hsame : newName ρ src t = t := newName_of_notMem hname
    exact ⟨by rw [hsame], by rw [hsame], hfind, fun _ => hsame⟩

theorem outline (h : Renaming ρ src) :
    (Outline.ofLines [] (codeLines src)).Renamed (newName ρ src) (labelNames src)
      (Outline.ofLines [] (codeLines (relabel ρ src))) := by
  have same := sameLine_codeLines h.keepsWords fun n hn =>
    ⟨(h.names n hn).ne_nil, fun c hc => ((h.names n hn).chars c hc).1⟩
  have injective : ∀ n ∈ labelNames src, ∀ k ∈ labelNames src,
      newName ρ src n = newName ρ src k → n = k :=
    fun n hn k hk => h.newName_eq_imp hn (.inl hk)
  exact Outline.Renamed.start.foldl_add injective same fun line hline n hn =>
    List.mem_filterMap.mpr ⟨line, hline, hn⟩

theorem gather_relabel (h : Renaming ρ src) : Assembly.gather (relabel ρ src) =
    ((Assembly.gather src).1.rename (newName ρ src), (Assembly.gather src).2) := by
  have houtline := h.outline
  have hstart : Assembly.ofOutline (Outline.ofLines [] (codeLines (relabel ρ src))) =
      (Assembly.ofOutline (Outline.ofLines [] (codeLines src))).rename (newName ρ src) := by
    unfold Assembly.ofOutline Assembly.rename
    rw [houtline.labels, houtline.redefinitions]
  unfold Assembly.gather
  dsimp only
  rw [hstart]
  apply encodeFrom_rename 1 houtline.bodies
  intro body hbody t ht
  rw [(Outline.isOf_ofLines (codeLines src)).bodies_eq] at hbody
  obtain ⟨line, hline, rfl⟩ := List.mem_map.mp (List.mem_of_mem_filter hbody)
  have hword : t ∈ bodyWords src := List.mem_flatMap.mpr ⟨line, hline, ht⟩
  exact h.carried houtline.known (fun _ => find?_ofLines_ne_none) hword

theorem rename_assembled (h : Renaming ρ src) {a : Assembly} (ha : assemble src = .ok a) :
    a.rename (newName ρ src) = a.rename ρ := by
  have houtline := h.outline
  obtain ⟨-, -, -, -, hlabels, hredefs⟩ := Assembly.assemble_ok ha
  unfold Assembly.rename
  congr 1
  · apply Array.map_congr_left
    intro d hd
    rw [hredefs] at hd
    unfold Redefinition.rename
    rw [newName_of_mem (houtline.knownAgain d hd)]
  · apply List.map_congr_left
    intro e he
    rw [hlabels] at he
    rw [newName_of_mem (houtline.known e he)]

end Renaming

/--
Renaming the labels of a source changes no word and no error of what is assembled from it. The
labels keep their addresses and their order, the warnings their addresses, under the new names.
-/
theorem label_names_do_not_matter {ρ : Text → Text} {src : Text} (h : Renaming ρ src) :
    (∀ f, assemble src = .error f → assemble (relabel ρ src) = .error f) ∧
      ∀ a, assemble src = .ok a → assemble (relabel ρ src) = .ok
        { image := a.image
          errors := a.errors
          redefinitions := a.redefinitions.map fun d => { d with name := ρ d.name }
          labels := a.labels.map fun e => (ρ e.1, e.2) } := by
  have hgather := h.gather_relabel
  have hassemble : assemble (relabel ρ src) =
      (assemble src).map (Assembly.rename (newName ρ src)) := by
    unfold assemble
    rw [hgather]
    obtain ⟨a, f⟩ := Assembly.gather src
    cases f <;> rfl
  constructor
  · intro f hf
    rw [hassemble, hf]
    rfl
  · intro a ha
    rw [hassemble, ha]
    change Except.ok (a.rename (newName ρ src)) = _
    rw [h.rename_assembled ha]
    rfl

theorem label_names_do_not_matter_shifted :
    let src := "a: LODD b ; reads b\na: b\nb: JUMP A".toList
    let ρ (t : Text) : Text := if t = ['a'] then ['b'] else ['c']
    let errors : Array NumberedError := #[⟨3, .badOperand ['A']⟩]
    Renaming ρ src ∧
      assemble src = .ok ⟨#[0x0002, 0x0002], errors, #[⟨['a'], 0, 1⟩], [(['a'], 1), (['b'], 2)]⟩ ∧
      relabel ρ src = "b: LODD c ; reads b\nb: c\nc: JUMP A".toList ∧
      assemble (relabel ρ src) =
        .ok ⟨#[0x0002, 0x0002], errors, #[⟨['b'], 0, 1⟩], [(['b'], 1), (['c'], 2)]⟩ := by
  intro src ρ errors
  have hnames : labelNames src = [['a'], ['a'], ['b']] := rfl
  have hwords : bodyWords src = ["LODD".toList, ['b'], ['b'], "JUMP".toList, ['A']] := rfl
  have h : Renaming ρ src := by
    constructor <;> rw [hnames]
    case fresh =>
      rw [hwords]
      decide
    all_goals decide
  have hassemble : assemble src =
      .ok ⟨#[0x0002, 0x0002], errors, #[⟨['a'], 0, 1⟩], [(['a'], 1), (['b'], 2)]⟩ := rfl
  have hrelabelled := (label_names_do_not_matter h).2 _ hassemble
  refine ⟨h, hassemble, rfl, hrelabelled.trans ?_⟩
  simp [ρ]

end AccMachine
