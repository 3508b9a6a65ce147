import AccMachine.Assembly
import AccMachine.Proofs.LabelAddresses

namespace AccMachine

def numberedErrors (n : Nat) (outcomes : List (Except LineError Int)) : List NumberedError :=
  (outcomes.zipIdx n).filterMap fun (outcome, i) =>
    match outcome with
    | .error e => some ⟨i, e⟩
    | .ok _ => none

@[simp] theorem numberedErrors_cons (n : Nat) (outcome : Except LineError Int)
    (outcomes : List (Except LineError Int)) : numberedErrors n (outcome :: outcomes) =
      (match outcome with
        | .error e => [⟨n, e⟩]
        | .ok _ => []) ++ numberedErrors (n + 1) outcomes := by
  unfold numberedErrors
  rw [List.zipIdx_cons]
  cases outcome <;> simp

theorem length_words_add_errors (n : Nat) (outcomes : List (Except LineError Int)) :
    (outcomes.filterMap Except.toOption).length + (numberedErrors n outcomes).length =
      outcomes.length := by
  induction outcomes generalizing n with
  | nil => rfl
  | cons outcome outcomes ih =>
    have hrest := ih (n + 1)
    rw [numberedErrors_cons]
    cases outcome <;>
      simp only [List.filterMap_cons, Except.toOption, List.length_append, List.length_cons,
        List.length_nil] <;>
      omega

theorem outcomes_of_no_errors {n : Nat} {outcomes : List (Except LineError Int)}
    (h : numberedErrors n outcomes = []) :
    outcomes = (outcomes.filterMap Except.toOption).map Except.ok := by
  induction outcomes generalizing n with
  | nil => rfl
  | cons outcome outcomes ih =>
    rw [numberedErrors_cons] at h
    obtain ⟨hhead, htail⟩ := List.append_eq_nil_iff.mp h
    cases outcome with
    | error e => cases hhead
    | ok w =>
      rw [List.filterMap_cons]
      exact congrArg (Except.ok w :: ·) (ih htail)

namespace Assembly

variable {a a' : Assembly} {src : Text}

/-- A second pass that comes to an end has given every body its outcome. -/
theorem encodeFrom_ok {n : Nat} {texts : List Text} (h : a.encodeFrom n texts = (a', none)) :
    ∃ outcomes, texts.map (encodeBody a.labels) = outcomes.map Except.ok ∧
      a'.image.toList = a.image.toList ++ outcomes.filterMap Except.toOption ∧
      a'.errors.toList = a.errors.toList ++ numberedErrors n outcomes ∧
      a'.labels = a.labels ∧ a'.redefinitions = a.redefinitions := by
  induction texts generalizing a n with
  | nil =>
    cases h
    exact ⟨[], rfl, by simp, by simp [numberedErrors], rfl, rfl⟩
  | cons body texts ih =>
    unfold encodeFrom at h
    split at h
    next => cases h
    next e heq =>
      obtain ⟨outcomes, hmap, himage, herrors, hlabels, hredefs⟩ := ih h
      refine ⟨.error e :: outcomes, ?_, himage, ?_, hlabels, hredefs⟩
      · rw [List.map_cons, heq, hmap]
        rfl
      · rw [herrors, numberedErrors_cons]
        simp
    next w heq =>
      obtain ⟨outcomes, hmap, himage, herrors, hlabels, hredefs⟩ := ih h
      refine ⟨.ok w :: outcomes, ?_, ?_, ?_, hlabels, hredefs⟩
      · rw [List.map_cons, heq, hmap]
        rfl
      · rw [himage, List.filterMap_cons]
        simp [Except.toOption]
      · rw [herrors, numberedErrors_cons]
        rfl

/-- What is assembled from a source: the outcomes of its bodies over the labels of its lines. -/
theorem assemble_ok (h : assemble src = .ok a) :
    ∃ outcomes, (bodiesOf (codeLines src)).map (encodeBody a.labels) = outcomes.map Except.ok ∧
      a.image.toList = outcomes.filterMap Except.toOption ∧
      a.errors.toList = numberedErrors 1 outcomes ∧
      a.labels = (Outline.ofLines [] (codeLines src)).labels ∧
      a.redefinitions = (Outline.ofLines [] (codeLines src)).redefinitions := by
  have hof := Outline.isOf_ofLines (codeLines src)
  unfold assemble at h
  split at h
  next => cases h
  next a' hgather =>
    cases h
    unfold gather at hgather
    obtain ⟨outcomes, hmap, himage, herrors, hlabels, hredefs⟩ := encodeFrom_ok hgather
    rw [hof.bodies_eq, ← hlabels] at hmap
    exact ⟨outcomes, hmap, himage, herrors, hlabels, hredefs⟩

theorem words_of_ok (h : assemble src = .ok a) (hok : a.ok) :
    (bodiesOf (codeLines src)).map (encodeBody a.labels) =
      a.image.toList.map fun w => .ok (.ok w) := by
  obtain ⟨outcomes, hmap, himage, herrors, -, -⟩ := assemble_ok h
  have hnone : numberedErrors 1 outcomes = [] := by
    rw [← herrors, Array.toList_eq_nil_iff]
    exact Array.isEmpty_iff.mp hok
  rw [hmap, himage]
  conv_lhs => rw [outcomes_of_no_errors hnone]
  rw [List.map_map]
  rfl

theorem mem_labels_iff (h : assemble src = .ok a) (name : Text) (addr : Int) :
    (name, addr) ∈ a.labels ↔ ∃ before line after,
      LastDefined name (codeLines src) before line after ∧ addr = (bodiesOf before).length := by
  have hof := Outline.isOf_ofLines (codeLines src)
  obtain ⟨-, -, -, -, hlabels, -⟩ := assemble_ok h
  rw [hlabels, ← Labels.find?_eq_some_iff hof.names_nodup, hof.find_eq, Option.map_eq_some_iff]
  constructor
  · rintro ⟨n, hlast, rfl⟩
    obtain ⟨before, line, after, hl, rfl⟩ := lastAddress?_eq_some_iff.mp hlast
    exact ⟨before, line, after, hl, rfl⟩
  · rintro ⟨before, line, after, hl, rfl⟩
    exact ⟨_, lastAddress?_eq_some_iff.mpr ⟨before, line, after, hl, rfl⟩, rfl⟩

theorem messages_numberedErrors (n : Nat) (outcomes : List (Except LineError Int)) :
    (numberedErrors n outcomes).map (·.message) =
      (outcomes.zipIdx n).filterMap fun (outcome, n) =>
        match outcome with
        | .error e => some s!"Erro linha {n}: {e.message}"
        | .ok _ => none := by
  rw [numberedErrors, List.map_filterMap]
  apply List.filterMap_congr
  rintro ⟨outcome, i⟩ -
  cases outcome <;> rfl

theorem place_of_ok (h : assemble src = .ok a) (hok : a.ok) {before after : List Text}
    (hlines : codeLines src = before ++ after) :
    (bodiesOf before).length ≤ a.image.size ∧
      a.image[(bodiesOf before).length]?.map (fun w => .ok (.ok w)) =
        (bodiesOf after).head?.map (encodeBody a.labels) := by
  have hwords := words_of_ok h hok
  rw [hlines, bodiesOf_append, List.map_append] at hwords
  constructor
  · have hlength := congrArg List.length hwords
    simp only [List.length_append, List.length_map, Array.length_toList] at hlength
    omega
  · calc a.image[(bodiesOf before).length]?.map (fun w => .ok (.ok w))
        = (a.image.toList.map fun w => .ok (.ok w))[(bodiesOf before).length]? := by
          rw [List.getElem?_map, Array.getElem?_toList]
      _ = ((bodiesOf after).map (encodeBody a.labels)).head? := by
          rw [← hwords, List.getElem?_append_right (by simp), List.head?_eq_getElem?]
          simp
      _ = (bodiesOf after).head?.map (encodeBody a.labels) := List.head?_map

/-- What an assembly of lines has to be. -/
structure IsOf (a : Assembly) (lines : List Text) : Prop where
  bodies : (Outline.ofLines [] lines).bodies.toList = bodiesOf lines
  /-- A label has the number of bodies before its last definition, wherever it is used. -/
  labels : ∀ name addr, (name, addr) ∈ a.labels ↔ ∃ before line after,
    LastDefined name lines before line after ∧ addr = (bodiesOf before).length
  labels_nodup : (a.labels.map Prod.fst).Nodup
  warnings : a.warnings = (redefinitionsOf (definitionsOf lines)).map fun r =>
    s!"Label '{String.ofList r.name}' redefinido: {r.previous} -> {r.current}"
  /-- Each body yields a word or an error, and both are in the order of the bodies. -/
  outcomes : ∃ outcomes : List (Except LineError Int),
    (bodiesOf lines).map (encodeBody a.labels) = outcomes.map Except.ok ∧
    a.image.toList = outcomes.filterMap Except.toOption ∧
    a.errorMessages = (outcomes.zipIdx 1).filterMap fun (outcome, n) =>
      match outcome with
      | .error e => some s!"Erro linha {n}: {e.message}"
      | .ok _ => none
  count : a.image.size + a.errors.size = (bodiesOf lines).length
  words : a.ok → (bodiesOf lines).map (encodeBody a.labels) =
    a.image.toList.map fun w => .ok (.ok w)
  /-- Without errors a label is where the word of the next body is, or the end of the image. -/
  places : a.ok → ∀ name before line after, LastDefined name lines before line after →
    (bodiesOf before).length ≤ a.image.size ∧
      a.image[(bodiesOf before).length]?.map (fun w => .ok (.ok w)) =
        (bodiesOf (line :: after)).head?.map (encodeBody a.labels)

end Assembly

/-- Whatever `assemble` returns is what the lines amount to. -/
theorem assemble_follows_lines {a : Assembly} {src : Text} (h : assemble src = .ok a) :
    a.IsOf (codeLines src) := by
  have hof := Outline.isOf_ofLines (codeLines src)
  obtain ⟨outcomes, hmap, himage, herrors, hlabels, hredefs⟩ := Assembly.assemble_ok h
  have hlength : (bodiesOf (codeLines src)).length = outcomes.length := by
    simpa using congrArg List.length hmap
  exact {
    bodies := hof.bodies_eq
    labels := Assembly.mem_labels_iff h
    labels_nodup := hlabels ▸ hof.names_nodup
    warnings := by
      unfold Assembly.warnings
      rw [hredefs, hof.redefinitions_eq]
      rfl
    outcomes := by
      refine ⟨outcomes, hmap, himage, ?_⟩
      unfold Assembly.errorMessages
      rw [herrors, Assembly.messages_numberedErrors]
    count := by
      rw [← Array.length_toList, ← Array.length_toList, himage, herrors,
        length_words_add_errors, hlength]
    words := Assembly.words_of_ok h
    places := fun hok _ _ _ _ hl => Assembly.place_of_ok h hok hl.lines_eq }

theorem assemble_follows_lines_relabelled :
    let a : Assembly := ⟨#[0x7005, 0xFFFF, 0x6003], #[], #[⟨"a".toList, 0, 1⟩],
      [("a".toList, 1), ("b".toList, 3)]⟩
    assemble "a: LOCO 5\na: HALT\nJUMP b\nb:".toList = .ok a ∧ a.ok ∧
      a.IsOf (codeLines "a: LOCO 5\na: HALT\nJUMP b\nb:".toList) :=
  ⟨rfl, rfl, assemble_follows_lines rfl⟩

end AccMachine
