import AccMachine.Editor
import AccMachine.Proofs.WrittenNumbers

namespace AccMachine

theorem length_editorRows (s : Text) : (editorRows s).length = 1 + s.count '\n' := by
  unfold editorRows List.splitOn
  induction s with
  | nil => rfl
  | cons c s ih =>
    rw [List.splitOnP_cons_eq_if_modifyHead, List.count_cons]
    split
    next => rw [List.length_cons, ih, Nat.add_assoc]
    next => rw [List.length_modifyHead, ih, Nat.add_zero]

namespace Editor

def Numbered (e : Editor) : Prop := e.gutter = numbers e.rows

def setTexts (e : Editor) (texts : List Text) : Editor :=
  texts.foldl (fun e s => (e.setText s).2) e

theorem editorRows_numbers {n : Nat} (h : 0 < n) :
    editorRows (numbers n).toList = (List.range' 1 n).map fun k => (toString k).toList := by
  have hplain : ∀ l ∈ (List.range' 1 n).map fun k => (toString k).toList, '\n' ∉ l := by
    intro l hl
    obtain ⟨k, -, rfl⟩ := List.mem_map.mp hl
    intro hmem
    rcases Numeral.mem_toString (n := k) hmem with h | h <;> cases h
  have hne : (List.range' 1 n).map (fun k => (toString k).toList) ≠ [] := by
    rw [ne_eq, List.map_eq_nil_iff, List.range'_eq_nil_iff]
    omega
  have hnumbers : (numbers n).toList =
      ['\n'].intercalate ((List.range' 1 n).map fun k => (toString k).toList) := by
    unfold numbers
    rw [String.toList_intercalate, List.map_map, List.range'_eq_map_range, List.map_map]
    simp only [Function.comp_def, Nat.add_comm 1]
    rfl
  rw [hnumbers]
  exact List.splitOn_intercalate '\n' hplain hne

theorem numberRows_eq {e : Editor} (h : e.Numbered) : e.numberRows =
    { e with
      rows := (editorRows e.text).length
      gutter := numbers (editorRows e.text).length } := by
  unfold numberRows
  dsimp only
  split
  next hrows =>
    -- Numbers that are kept are those of as many rows.
    unfold Numbered at h
    rw [hrows, ← h]
  next => rfl

theorem numbered_empty : empty.Numbered := by
  have hnew : Numbered ⟨[], 0, "", []⟩ := rfl
  unfold empty
  rw [numberRows_eq hnew]
  rfl

theorem foldl_takeOff (e : Editor) (styles : List Style) :
    styles.foldl takeOff e = { e with spans := e.spans.filter (·.style ∉ styles) } := by
  induction styles generalizing e with
  | nil => simp
  | cons style styles ih =>
    rw [List.foldl_cons, ih]
    unfold takeOff
    dsimp only
    rw [List.filter_filter]
    congr 2
    funext span
    simp [Bool.and_comm]

@[simp] theorem takeOff_all (e : Editor) : Style.all.foldl takeOff e = { e with spans := [] } := by
  rw [foldl_takeOff]
  congr 1
  rw [List.filter_eq_nil_iff]
  intro span _
  simpa using Style.mem_all span.style

theorem restyle_eq (e : Editor) :
    e.restyle = ((highlight e.text).2, { e with spans := (highlight e.text).1 }) := by
  unfold restyle
  rw [takeOff_all]
  rfl

/-- One text put into the editor: nothing is left of the one before. -/
theorem setText_eq {e : Editor} (h : e.Numbered) (s : Text) : e.setText s =
    ((highlight s).2,
      ⟨s, (editorRows s).length, numbers (editorRows s).length, (highlight s).1⟩) := by
  have hnumbered : Numbered { e with text := s } := h
  unfold setText
  rw [numberRows_eq hnumbered, restyle_eq]

theorem numbered_setText {e : Editor} (h : e.Numbered) (s : Text) : (e.setText s).2.Numbered := by
  rw [setText_eq h]
  rfl

theorem numbered_setTexts {e : Editor} (h : e.Numbered) (texts : List Text) :
    (e.setTexts texts).Numbered := by
  unfold setTexts
  induction texts generalizing e with
  | nil => exact h
  | cons s texts ih => exact ih (numbered_setText h s)

/--
An editor shows a text as a new one does, with the same fault if any, whatever texts have been put
into it before: it gives the text back, and numbers its rows from 1 on.
-/
theorem earlier_texts_forgotten (earlier : List Text) (s : Text) :
    let e := empty.setTexts earlier
    e.setText s = empty.setText s ∧
    (e.setText s).2.text = s ∧
    (e.setText s).2.spans = (highlight s).1 ∧
    editorRows (e.setText s).2.gutter.toList =
      (List.range' 1 (1 + s.count '\n')).map fun k => (toString k).toList := by
  have hnumbered := numbered_setTexts numbered_empty earlier
  dsimp only
  rw [setText_eq hnumbered, setText_eq numbered_empty]
  refine ⟨rfl, rfl, rfl, ?_⟩
  rw [← length_editorRows]
  apply editorRows_numbers
  rw [length_editorRows]
  omega

end Editor

end AccMachine
