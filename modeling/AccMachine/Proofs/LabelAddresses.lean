import AccMachine.Outline
import Mathlib.Data.List.Basic
import Mathlib.Data.List.Induction
import Mathlib.Data.List.TakeWhile

namespace AccMachine

/-- The label that a line defines: what stands before its first colon. -/
def labelOf? (line : Text) : Option Text :=
  if ':' ∈ line then some (Text.strip (line.takeWhile (· ≠ ':'))) else none

/--
The body of a line: behind a label what stands between the first colon and the second, else the
whole line.
-/
def bodyOf (line : Text) : Text :=
  if ':' ∈ line then Text.strip ((line.dropWhile (· ≠ ':')).tail.takeWhile (· ≠ ':')) else line

def bodiesOf (lines : List Text) : List Text := (lines.map bodyOf).filter (!·.isEmpty)

/-- What a rule makes of each entry of a list and of those before it, where it makes anything. -/
def afterEarlier {α β : Type} (rule : List α → α → Option β) (l : List α) : List β :=
  l.zipIdx.filterMap fun (x, i) => rule (l.take i) x

def definitionsOf (lines : List Text) : List (Text × Nat) :=
  afterEarlier (fun before line => (labelOf? line).map (·, (bodiesOf before).length)) lines

def lastAddress? (defs : List (Text × Nat)) (name : Text) : Option Nat :=
  (defs.filter (·.1 = name)).getLast?.map (·.2)

/-- The definitions of names that were defined before, each with the address that it replaces. -/
def redefinitionsOf (defs : List (Text × Nat)) : List Redefinition :=
  afterEarlier (fun before d =>
    (lastAddress? before d.1).map fun previous => ⟨d.1, previous, d.2⟩) defs

/-- A name is defined by a line, and by none of those that follow it. -/
structure LastDefined (name : Text) (lines before : List Text) (line : Text)
    (after : List Text) : Prop where
  lines_eq : lines = before ++ line :: after
  label : labelOf? line = some name
  later : ∀ l ∈ after, labelOf? l ≠ some name

section Cuts
variable {sep : Char} {before : Text}

theorem forall_ne_of_notMem (h : sep ∉ before) : ∀ c ∈ before, decide (c ≠ sep) = true := by
  intro c hc
  simpa using ne_of_mem_of_not_mem hc h

theorem takeWhile_ne_self (h : sep ∉ before) : before.takeWhile (· ≠ sep) = before :=
  List.takeWhile_eq_self_iff.mpr (forall_ne_of_notMem h)

theorem takeWhile_ne_append (h : sep ∉ before) (after : Text) :
    (before ++ sep :: after).takeWhile (· ≠ sep) = before := by
  rw [List.takeWhile_append_of_pos (forall_ne_of_notMem h), List.takeWhile_cons_of_neg (by simp),
    List.append_nil]

theorem dropWhile_ne_append (h : sep ∉ before) (after : Text) :
    (before ++ sep :: after).dropWhile (· ≠ sep) = sep :: after := by
  rw [List.dropWhile_append_of_pos (forall_ne_of_notMem h), List.dropWhile_cons_of_neg (by simp)]

theorem takeWhile_append_dropWhile_ne (h : sep ∉ before) (s : Text) :
    (before ++ s.dropWhile (· ≠ sep)).takeWhile (· ≠ sep) = before := by
  cases hrest : s.dropWhile (· ≠ sep) with
  | nil =>
    rw [List.append_nil]
    exact takeWhile_ne_self h
  | cons c rest =>
    have hhead := List.head?_dropWhile_not (· ≠ sep) s
    rw [hrest] at hhead
    obtain rfl : c = sep := by simpa using hhead
    exact takeWhile_ne_append h rest

theorem head_splitOn (sep : Char) (s : Text) :
    ∃ rest, s.splitOn sep = s.takeWhile (· ≠ sep) :: rest := by
  by_cases h : sep ∈ s
  · obtain ⟨before, after, rfl, hbefore⟩ := List.eq_append_cons_of_mem h
    rw [takeWhile_ne_append hbefore, List.splitOn_append_cons_self_of_not_mem hbefore]
    exact ⟨_, rfl⟩
  · rw [takeWhile_ne_self h, List.splitOn_eq_singleton h]
    exact ⟨_, rfl⟩

end Cuts

theorem labelOf?_append_colon {before : Text} (h : ':' ∉ before) (after : Text) :
    labelOf? (before ++ ':' :: after) = some (Text.strip before) := by
  unfold labelOf?
  rw [if_pos (by simp), takeWhile_ne_append h]

theorem bodyOf_append_colon {before : Text} (h : ':' ∉ before) (after : Text) :
    bodyOf (before ++ ':' :: after) = Text.strip (after.takeWhile (· ≠ ':')) := by
  unfold bodyOf
  rw [if_pos (by simp), dropWhile_ne_append h]
  rfl

theorem labelOf?_of_no_colon {line : Text} (h : ':' ∉ line) : labelOf? line = none := if_neg h

theorem bodyOf_of_no_colon {line : Text} (h : ':' ∉ line) : bodyOf line = line := if_neg h

theorem SourceLine.ofText_eq (line : Text) :
    SourceLine.ofText line = ⟨labelOf? line, bodyOf line⟩ := by
  unfold SourceLine.ofText
  by_cases h : ':' ∈ line
  · obtain ⟨before, after, rfl, hbefore⟩ := List.eq_append_cons_of_mem h
    obtain ⟨rest, hrest⟩ := head_splitOn ':' after
    rw [labelOf?_append_colon hbefore, bodyOf_append_colon hbefore,
      List.splitOn_append_cons_self_of_not_mem hbefore, hrest]
  · rw [labelOf?_of_no_colon h, bodyOf_of_no_colon h, List.splitOn_eq_singleton h]

@[simp] theorem bodiesOf_append (first second : List Text) :
    bodiesOf (first ++ second) = bodiesOf first ++ bodiesOf second := by
  unfold bodiesOf
  rw [List.map_append, List.filter_append]

theorem bodiesOf_concat (lines : List Text) (line : Text) :
    bodiesOf (lines ++ [line]) =
      bodiesOf lines ++ if (bodyOf line).isEmpty then [] else [bodyOf line] := by
  rw [bodiesOf_append]
  congr 1
  unfold bodiesOf
  cases h : (bodyOf line).isEmpty <;> simp [h]

@[simp] theorem afterEarlier_concat {α β : Type} (rule : List α → α → Option β) (l : List α)
    (x : α) : afterEarlier rule (l ++ [x]) = afterEarlier rule l ++ (rule l x).toList := by
  unfold afterEarlier
  rw [List.zipIdx_append, List.filterMap_append]
  congr 1
  · apply List.filterMap_congr
    intro e he
    have hlt := List.snd_lt_of_mem_zipIdx he
    dsimp only
    rw [List.take_append_of_le_length (by omega)]
  · cases hr : rule l x <;> simp [hr]

theorem definitionsOf_concat (lines : List Text) (line : Text) :
    definitionsOf (lines ++ [line]) =
      definitionsOf lines ++ ((labelOf? line).map (·, (bodiesOf lines).length)).toList :=
  afterEarlier_concat _ _ _

theorem lastAddress?_concat (defs : List (Text × Nat)) (d : Text × Nat) (name : Text) :
    lastAddress? (defs ++ [d]) name = if d.1 = name then some d.2 else lastAddress? defs name := by
  unfold lastAddress?
  by_cases h : d.1 = name <;> simp [h]

theorem lastDefined_concat_self {name line : Text} (h : labelOf? line = some name)
    {lines before after : List Text} {l : Text} :
    LastDefined name (lines ++ [line]) before l after ↔
      before = lines ∧ l = line ∧ after = [] := by
  constructor
  · intro hl
    rcases List.eq_nil_or_concat after with rfl | ⟨after, last, rfl⟩
    · obtain ⟨hlines, hline⟩ := List.append_inj' hl.lines_eq rfl
      exact ⟨hlines.symm, (List.singleton_inj.mp hline).symm, rfl⟩
    · have heq : lines ++ [line] = (before ++ l :: after) ++ [last] := by
        rw [hl.lines_eq]
        simp
      have hlast : line = last := List.singleton_inj.mp (List.append_inj' heq rfl).2
      exact absurd (hlast ▸ h) (hl.later last (by simp))
  · rintro ⟨rfl, rfl, rfl⟩
    exact ⟨rfl, h, nofun⟩

theorem lastDefined_concat_other {name line : Text} (h : labelOf? line ≠ some name)
    {lines before after : List Text} {l : Text} :
    LastDefined name (lines ++ [line]) before l after ↔
      ∃ earlier, after = earlier ++ [line] ∧ LastDefined name lines before l earlier := by
  constructor
  · intro hl
    rcases List.eq_nil_or_concat after with rfl | ⟨after, last, rfl⟩
    · have hline := List.singleton_inj.mp (List.append_inj' hl.lines_eq rfl).2
      exact absurd (hline ▸ hl.label) h
    · have heq : lines ++ [line] = (before ++ l :: after) ++ [last] := by
        rw [hl.lines_eq]
        simp
      obtain ⟨hlines, hlast⟩ := List.append_inj' heq rfl
      refine ⟨after, by simp [List.singleton_inj.mp hlast], hlines, hl.label, fun x hx => ?_⟩
      exact hl.later x (by simp [hx])
  · rintro ⟨earlier, rfl, hl⟩
    refine ⟨by rw [hl.lines_eq]; simp, hl.label, fun x hx => ?_⟩
    rcases List.mem_append.mp hx with hx | hx
    · exact hl.later x hx
    · rw [List.mem_singleton.mp hx]
      exact h

/-- The last address of a name is the number of bodies before its last definition. -/
theorem lastAddress?_eq_some_iff {lines : List Text} {name : Text} {n : Nat} :
    lastAddress? (definitionsOf lines) name = some n ↔
      ∃ before line after, LastDefined name lines before line after ∧
        n = (bodiesOf before).length := by
  induction lines using List.reverseRecOn with
  | nil =>
    constructor
    · nofun
    · rintro ⟨before, line, after, hl, -⟩
      simpa using hl.lines_eq
  | append_singleton lines line ih =>
    rw [definitionsOf_concat]
    by_cases h : labelOf? line = some name
    · simp only [h, Option.map_some, Option.toList_some, lastDefined_concat_self h]
      rw [lastAddress?_concat, if_pos rfl]
      constructor
      · intro hn
        exact ⟨lines, line, [], ⟨rfl, rfl, rfl⟩, (Option.some.inj hn).symm⟩
      · rintro ⟨before, l, after, ⟨rfl, -, -⟩, rfl⟩
        rfl
    · have hsame : lastAddress? (definitionsOf lines ++
          ((labelOf? line).map (·, (bodiesOf lines).length)).toList) name =
          lastAddress? (definitionsOf lines) name := by
        cases hlabel : labelOf? line with
        | none => simp
        | some label =>
          simp only [Option.map_some, Option.toList_some]
          rw [lastAddress?_concat, if_neg fun heq => h (hlabel.trans (congrArg some heq))]
      rw [hsame, ih]
      simp only [lastDefined_concat_other h]
      constructor
      · rintro ⟨before, l, after, hl, hn⟩
        exact ⟨before, l, after ++ [line], ⟨after, rfl, hl⟩, hn⟩
      · rintro ⟨before, l, after, ⟨earlier, -, hl⟩, hn⟩
        exact ⟨before, l, earlier, hl, hn⟩

namespace Labels

theorem mem_names_define {labels : Labels} {name other : Text} {addr : Int}
    (h : other ∈ (labels.define name addr).map Prod.fst) :
    other = name ∨ other ∈ labels.map Prod.fst := by
  induction labels with
  | nil => exact .inl (by simpa [define] using h)
  | cons e es ih =>
    unfold define at h
    split at h
    next => exact (List.mem_cons.mp h).imp_right (List.mem_cons_of_mem _)
    next =>
      rw [List.map_cons, List.mem_cons] at h
      rcases h with rfl | h
      · exact .inr (by simp)
      · exact (ih h).imp_right fun hm => by simp [hm]

theorem nodup_define {labels : Labels} (h : (labels.map Prod.fst).Nodup) (name : Text)
    (addr : Int) : ((labels.define name addr).map Prod.fst).Nodup := by
  induction labels with
  | nil => simp [define]
  | cons e es ih =>
    rw [List.map_cons, List.nodup_cons] at h
    unfold define
    split
    next he =>
      subst he
      exact List.nodup_cons.mpr h
    next he =>
      refine List.nodup_cons.mpr ⟨fun hm => ?_, ih h.2⟩
      rcases mem_names_define hm with heq | hm
      · exact he heq
      · exact h.1 hm

theorem find?_eq_some_iff {labels : Labels} (h : (labels.map Prod.fst).Nodup) {name : Text}
    {addr : Int} : labels.find? name = some addr ↔ (name, addr) ∈ labels := by
  induction labels with
  | nil => simp [find?]
  | cons e es ih =>
    rw [List.map_cons, List.nodup_cons] at h
    unfold find? at ih ⊢
    by_cases he : e.1 = name
    · subst he
      have hother : (e.1, addr) ∉ es := fun hm => h.1 (List.mem_map.mpr ⟨_, hm, rfl⟩)
      simp [hother, Prod.ext_iff, eq_comm]
    · have hne : (name, addr) ≠ e := fun heq => he (congrArg Prod.fst heq).symm
      simp [he, hne, ih h.2]

end Labels

structure Outline.IsOf (o : Outline) (lines : List Text) : Prop where
  bodies_eq : o.bodies.toList = bodiesOf lines
  find_eq : ∀ name, o.labels.find? name = (lastAddress? (definitionsOf lines) name).map Int.ofNat
  names_nodup : (o.labels.map Prod.fst).Nodup
  redefinitions_eq : o.redefinitions.toList = redefinitionsOf (definitionsOf lines)

namespace Outline

variable {o : Outline} {lines : List Text}

theorem isOf_start : (start []).IsOf [] := ⟨rfl, fun _ => rfl, List.nodup_nil, rfl⟩

theorem define_eq (o : Outline) (name : Text) : o.define name =
    ⟨o.labels.define name o.bodies.size, o.bodies, o.redefinitions ++
      ((o.labels.find? name).map fun previous => ⟨name, previous, o.bodies.size⟩).toArray⟩ := by
  unfold Outline.define
  cases o.labels.find? name with
  | none => simp
  | some previous => simp

theorem add_eq (o : Outline) (line : Text) : o.add line =
    ⟨match labelOf? line with
      | none => o.labels
      | some name => o.labels.define name o.bodies.size,
      o.bodies ++ (if (bodyOf line).isEmpty then [] else [bodyOf line]).toArray,
      o.redefinitions ++ ((labelOf? line).bind fun name =>
        (o.labels.find? name).map fun previous => ⟨name, previous, o.bodies.size⟩).toArray⟩ := by
  unfold Outline.add
  rw [SourceLine.ofText_eq]
  cases labelOf? line with
  | none =>
    dsimp only
    split <;> simp
  | some name =>
    dsimp only
    rw [define_eq]
    split <;> simp

theorem IsOf.add (h : o.IsOf lines) (line : Text) : (o.add line).IsOf (lines ++ [line]) := by
  have hsize : o.bodies.size = (bodiesOf lines).length := by rw [← h.bodies_eq, Array.length_toList]
  rw [add_eq, hsize]
  refine ⟨?_, ?_, ?_, ?_⟩
  · rw [bodiesOf_concat, ← h.bodies_eq]
    simp
  · intro name
    rw [definitionsOf_concat]
    cases labelOf? line with
    | none => simpa using h.find_eq name
    | some label =>
      simp only [Option.map_some, Option.toList_some]
      rw [lastAddress?_concat, Labels.find?_define]
      split
      next => rfl
      next => exact h.find_eq name
  · cases labelOf? line with
    | none => exact h.names_nodup
    | some label => exact Labels.nodup_define h.names_nodup label _
  · rw [definitionsOf_concat, redefinitionsOf, Array.toList_append, h.redefinitions_eq]
    cases labelOf? line with
    | none => simp [redefinitionsOf]
    | some label =>
      simp only [Option.map_some, Option.toList_some, Option.bind_some]
      rw [afterEarlier_concat, h.find_eq]
      cases lastAddress? (definitionsOf lines) label <;> simp [redefinitionsOf]

theorem isOf_ofLines (lines : List Text) : (ofLines [] lines).IsOf lines := by
  -- The first pass takes the lines from the left, so the induction adds them at the right.
  induction lines using List.reverseRecOn with
  | nil => exact isOf_start
  | append_singleton lines line ih =>
    unfold ofLines
    rw [List.foldl_append]
    exact ih.add line

end Outline

end AccMachine
