import AccMachine.Text
import Mathlib.Data.List.Basic
import Mathlib.Data.List.TakeWhile

namespace AccMachine.Text

theorem not_isLineBreak_of_not_isBlank {c : Char} (h : isBlank c = false) :
    isLineBreak c = false := by
  unfold isBlank at h
  rw [Bool.or_assoc, Bool.or_eq_false_iff] at h
  exact h.1

theorem length_le_length_upper (s : Text) : s.length ≤ s.upper.length := by
  have hone : ∀ c, 1 ≤ (capital c).length := by
    intro c
    unfold capital
    split
    next => exact Nat.le_refl _
    next => split <;> simp
  induction s with
  | nil => exact Nat.le_refl _
  | cons c s ih =>
    have hcons : upper (c :: s) = capital c ++ upper s := List.flatMap_cons
    have hc := hone c
    rw [hcons, List.length_append, List.length_cons]
    omega

theorem dropWhile_eq_self {p : Char → Bool} {s : Text}
    (h : ∀ c, s.head? = some c → p c = false) : s.dropWhile p = s := by
  cases s with
  | nil => rfl
  | cons c r =>
    have hc := h c rfl
    rw [List.dropWhile_cons_of_neg (by simp [hc])]

theorem strip_eq_self {s : Text} (first : ∀ c, s.head? = some c → isBlank c = false)
    (last : ∀ c, s.getLast? = some c → isBlank c = false) : s.strip = s := by
  have hback : s.reverse.dropWhile isBlank = s.reverse := by
    apply dropWhile_eq_self
    intro c hc
    rw [List.head?_reverse] at hc
    exact last c hc
  unfold strip
  rw [dropWhile_eq_self first, hback, List.reverse_reverse]

theorem strip_of_no_blank {s : Text} (h : ∀ c ∈ s, isBlank c = false) : s.strip = s :=
  strip_eq_self (fun c hc => h c (List.mem_of_head? hc)) fun c hc => h c (List.mem_of_getLast? hc)

theorem exists_mem_strip {s : Text} (h : s.strip ≠ []) : ∃ c ∈ s.strip, isBlank c = false := by
  unfold strip at h ⊢
  have hne : (s.dropWhile isBlank).reverse.dropWhile isBlank ≠ [] := by simpa using h
  have hhead := List.head_dropWhile_not isBlank hne
  exact ⟨_, List.mem_reverse.mpr (List.head_mem hne), hhead⟩

theorem strip_between {before after : Text} (hbefore : ∀ c ∈ before, isBlank c)
    (hafter : ∀ c ∈ after, isBlank c) (s : Text) : strip (before ++ s ++ after) = strip s := by
  unfold strip
  rw [List.append_assoc, List.dropWhile_append_of_pos hbefore, List.dropWhile_append]
  split
  next hnil =>
    rw [List.isEmpty_iff.mp hnil, List.dropWhile_eq_nil_iff.mpr hafter]
  next =>
    rw [List.reverse_append, List.dropWhile_append_of_pos (by simpa using hafter)]

theorem strip_prefix_dropWhile (s : Text) : s.strip <+: s.dropWhile isBlank := by
  have hsuffix := List.dropWhile_suffix isBlank (l := (s.dropWhile isBlank).reverse)
  rw [← List.reverse_prefix, List.reverse_reverse] at hsuffix
  exact hsuffix

theorem mem_of_mem_strip {s : Text} {c : Char} (h : c ∈ s.strip) : c ∈ s :=
  (List.dropWhile_suffix isBlank).subset ((strip_prefix_dropWhile s).subset h)

theorem length_strip_le (s : Text) : s.strip.length ≤ s.length :=
  (strip_prefix_dropWhile s).length_le.trans (List.dropWhile_suffix isBlank).length_le

theorem exists_blanks_around (s : Text) : ∃ before after, s = before ++ s.strip ++ after ∧
    (∀ c ∈ before, isBlank c) ∧ ∀ c ∈ after, isBlank c := by
  have hfront := List.takeWhile_append_dropWhile (p := isBlank) (l := s)
  have hback := List.takeWhile_append_dropWhile (p := isBlank) (l := (s.dropWhile isBlank).reverse)
  refine ⟨s.takeWhile isBlank, ((s.dropWhile isBlank).reverse.takeWhile isBlank).reverse, ?_,
    fun c hc => List.mem_takeWhile_imp hc,
    fun c hc => List.mem_takeWhile_imp (List.mem_reverse.mp hc)⟩
  unfold strip
  rw [List.append_assoc, ← List.reverse_append, hback, List.reverse_reverse, hfront]

@[simp] theorem strip_strip (s : Text) : s.strip.strip = s.strip := by
  apply strip_eq_self
  · intro c hc
    obtain ⟨rest, hrest⟩ := strip_prefix_dropWhile s
    have hhead : (s.dropWhile isBlank).head? = some c := by
      rw [← hrest, List.head?_append, hc]
      rfl
    have hnot := List.head?_dropWhile_not isBlank s
    rw [hhead] at hnot
    simpa using hnot
  · intro c hc
    unfold strip at hc
    rw [List.getLast?_reverse] at hc
    have hnot := List.head?_dropWhile_not isBlank (s.dropWhile isBlank).reverse
    rw [hc] at hnot
    simpa using hnot

/-- The words of a text are those before a blank and those behind it. -/
theorem words_append_cons {b : Char} (hb : isBlank b) (a s : Text) :
    words (a ++ b :: s) = words a ++ words s := by
  unfold words
  rw [List.splitOnP_append_cons a s hb, List.filter_append]

theorem words_cons_blank {b : Char} (hb : isBlank b) (s : Text) : words (b :: s) = words s :=
  words_append_cons hb [] s

theorem words_ne_nil {s : Text} {c : Char} (hc : c ∈ s) (h : isBlank c = false) :
    words s ≠ [] := by
  induction s with
  | nil => cases hc
  | cons d s ih =>
    cases hd : isBlank d with
    | true =>
      have hmem : c ∈ s := by
        rcases List.mem_cons.mp hc with rfl | hmem
        · rw [h] at hd
          cases hd
        · exact hmem
      rw [words_cons_blank hd]
      exact ih hmem
    | false =>
      obtain ⟨w, ws, hparts⟩ := List.exists_cons_of_ne_nil (List.splitOnP_ne_nil isBlank s)
      unfold words
      rw [List.splitOnP_cons_eq_if_modifyHead, if_neg (by simp [hd]), hparts]
      simp

theorem words_of_no_blank {w : Text} (h : ∀ c ∈ w, isBlank c = false) (hne : w ≠ []) :
    words w = [w] := by
  unfold words
  rw [List.splitOnP_eq_singleton h]
  simp [hne]

theorem words_append_blank {w : Text} (h : ∀ c ∈ w, isBlank c = false) (hne : w ≠ []) {b : Char}
    (hb : isBlank b) (rest : Text) : words (w ++ b :: rest) = w :: words rest := by
  rw [words_append_cons hb, words_of_no_blank h hne]
  rfl

theorem words_of_blank {s : Text} (h : ∀ c ∈ s, isBlank c) : words s = [] := by
  induction s with
  | nil => rfl
  | cons b s ih =>
    rw [words_cons_blank (h b (by simp))]
    exact ih fun c hc => h c (by simp [hc])

theorem words_eq_nil_iff {s : Text} : words s = [] ↔ ∀ c ∈ s, isBlank c := by
  constructor
  · intro hwords c hc
    cases hblank : isBlank c with
    | true => rfl
    | false => exact absurd hwords (words_ne_nil hc hblank)
  · exact words_of_blank

theorem words_between {before after : Text} (hbefore : ∀ c ∈ before, isBlank c)
    (hafter : ∀ c ∈ after, isBlank c) (s : Text) : words (before ++ s ++ after) = words s := by
  have hfront : words (before ++ s) = words s := by
    induction before with
    | nil => rfl
    | cons b before ih =>
      rw [List.cons_append, words_cons_blank (hbefore b (by simp))]
      exact ih fun c hc => hbefore c (by simp [hc])
  cases after with
  | nil => rw [List.append_nil, hfront]
  | cons b after =>
    have hrest := words_of_blank fun c hc => hafter c (List.mem_cons_of_mem b hc)
    rw [words_append_cons (hafter b (by simp)), hfront, hrest, List.append_nil]

@[simp] theorem words_strip (s : Text) : words s.strip = words s := by
  obtain ⟨before, after, hsplit, hbefore, hafter⟩ := exists_blanks_around s
  conv_rhs => rw [hsplit]
  exact (words_between hbefore hafter _).symm

@[simp] theorem strip_eq_nil_iff {s : Text} : s.strip = [] ↔ words s = [] := by
  constructor
  · intro hnil
    rw [← words_strip, hnil]
    rfl
  · intro hwords
    by_contra hne
    obtain ⟨c, hc, hblank⟩ := exists_mem_strip hne
    exact words_ne_nil (mem_of_mem_strip hc) hblank hwords

theorem words_intercalate {ws : List Text} (h : ∀ w ∈ ws, w ≠ [] ∧ ∀ c ∈ w, isBlank c = false) :
    words ([' '].intercalate ws) = ws := by
  induction ws with
  | nil => rfl
  | cons w ws ih =>
    obtain ⟨hne, hw⟩ := h w (by simp)
    have hrest := ih fun v hv => h v (by simp [hv])
    cases ws with
    | nil =>
      rw [List.intercalate_singleton]
      exact words_of_no_blank hw hne
    | cons v ws =>
      rw [List.intercalate_cons_cons, List.append_assoc, List.singleton_append,
        words_append_blank hw hne (by decide), hrest]

theorem intercalate_ne_nil {sep w : Text} (hw : w ≠ []) (ws : List Text) :
    sep.intercalate (w :: ws) ≠ [] := by
  cases ws with
  | nil => simpa using hw
  | cons v ws => simp [List.intercalate_cons_cons, hw]

theorem mem_intercalate {sep : Text} {ws : List Text} {c : Char} (h : c ∈ sep.intercalate ws) :
    c ∈ sep ∨ ∃ w ∈ ws, c ∈ w := by
  induction ws with
  | nil => cases h
  | cons w ws ih =>
    cases ws with
    | nil =>
      rw [List.intercalate_singleton] at h
      exact .inr ⟨w, by simp, h⟩
    | cons v ws =>
      rw [List.intercalate_cons_cons, List.append_assoc, List.mem_append, List.mem_append] at h
      rcases h with hw | hsep | hrest
      · exact .inr ⟨w, by simp, hw⟩
      · exact .inl hsep
      · obtain hsep | ⟨u, hu, hc⟩ := ih hrest
        · exact .inl hsep
        · exact .inr ⟨u, List.mem_cons_of_mem _ hu, hc⟩

theorem strip_intercalate {ws : List Text}
    (h : ∀ w ∈ ws, w ≠ [] ∧ ∀ c ∈ w, isBlank c = false) :
    strip ([' '].intercalate ws) = [' '].intercalate ws := by
  apply strip_eq_self
  · cases ws with
    | nil => nofun
    | cons w ws =>
      obtain ⟨hne, hw⟩ := h w (by simp)
      obtain ⟨d, w', rfl⟩ := List.exists_cons_of_ne_nil hne
      have hhead : ([' '].intercalate ((d :: w') :: ws)).head? = some d := by
        cases ws <;> simp [List.intercalate_cons_cons]
      intro c hc
      rw [hhead] at hc
      cases hc
      exact hw d (by simp)
  · induction ws with
    | nil => nofun
    | cons w ws ih =>
      obtain ⟨hne, hw⟩ := h w (by simp)
      have hrest := ih fun v hv => h v (by simp [hv])
      cases ws with
      | nil =>
        rw [List.intercalate_singleton]
        exact fun c hc => hw c (List.mem_of_getLast? hc)
      | cons v ws =>
        rw [List.intercalate_cons_cons,
          List.getLast?_append_of_ne_nil _ (intercalate_ne_nil (h v (by simp)).1 ws)]
        exact hrest

theorem lineStep_of_unbroken {c : Char} (h : isLineBreak c = false) (rest : Bool × List Text) :
    lineStep c rest = (false, consHead c rest.2) := by
  have hr : c ≠ '\r' := by
    rintro rfl
    cases h
  unfold lineStep
  rw [if_neg fun hc => hr hc.1, if_neg (by simp [h])]

/-- A line feed ends a line along with the carriage return before it. -/
theorem lineStep_of_return {c : Char} {rest : Bool × List Text} (h : c = '\r' ∧ rest.1) :
    lineStep c rest = (false, rest.2) :=
  if_pos h

theorem lineStep_of_break {c : Char} {rest : Bool × List Text} (h : ¬(c = '\r' ∧ rest.1))
    (hc : isLineBreak c) : lineStep c rest = (decide (c = '\n'), [] :: rest.2) := by
  unfold lineStep
  rw [if_neg h, if_pos hc]

theorem foldr_lineStep_of_unbroken {l : Text} (h : ∀ c ∈ l, isLineBreak c = false)
    (rest : Bool × List Text) : (l.foldr lineStep rest).2 = l.foldr consHead rest.2 := by
  induction l with
  | nil => rfl
  | cons c l ih =>
    rw [List.foldr_cons, lineStep_of_unbroken (h c (by simp)), List.foldr_cons,
      ih fun d hd => h d (by simp [hd])]

theorem foldr_consHead (l first : Text) (others : List Text) :
    l.foldr consHead (first :: others) = (l ++ first) :: others := by
  induction l with
  | nil => rfl
  | cons c l ih => rw [List.foldr_cons, ih]; rfl

theorem foldr_consHead_nil {l : Text} (hne : l ≠ []) : l.foldr consHead [] = [l] := by
  obtain ⟨front, c, rfl⟩ := (List.eq_nil_or_concat l).resolve_left hne
  rw [List.concat_eq_append, List.foldr_append]
  exact foldr_consHead front [c] []

theorem lines_of_unbroken {l : Text} (h : ∀ c ∈ l, isLineBreak c = false) (hne : l ≠ []) :
    lines l = [l] := by
  unfold lines
  rw [foldr_lineStep_of_unbroken h, foldr_consHead_nil hne]

theorem lines_append_lineFeed {l : Text} (h : ∀ c ∈ l, isLineBreak c = false) (rest : Text) :
    lines (l ++ '\n' :: rest) = l :: lines rest := by
  unfold lines
  rw [List.foldr_append, foldr_lineStep_of_unbroken h, List.foldr_cons]
  exact (foldr_consHead l [] _).trans (by rw [List.append_nil])

theorem lines_intercalate {ls : List Text}
    (h : ∀ l ∈ ls, l ≠ [] ∧ ∀ c ∈ l, isLineBreak c = false) :
    lines (['\n'].intercalate ls) = ls := by
  induction ls with
  | nil => rfl
  | cons l ls ih =>
    obtain ⟨hne, hl⟩ := h l (by simp)
    have hrest := ih fun k hk => h k (by simp [hk])
    cases ls with
    | nil =>
      rw [List.intercalate_singleton]
      exact lines_of_unbroken hl hne
    | cons k ls =>
      rw [List.intercalate_cons_cons, List.append_assoc, List.singleton_append,
        lines_append_lineFeed hl, hrest]

theorem mem_of_mem_consHead {c d : Char} {ls : List Text} {l : Text} (h : l ∈ consHead c ls)
    (hd : d ∈ l) : d = c ∨ ∃ k ∈ ls, d ∈ k := by
  cases ls with
  | nil =>
    obtain rfl := List.mem_singleton.mp h
    exact .inl (List.mem_singleton.mp hd)
  | cons first others =>
    rcases List.mem_cons.mp h with rfl | h
    · exact (List.mem_cons.mp hd).imp_right fun hd => ⟨first, by simp, hd⟩
    · exact .inr ⟨l, by simp [h], hd⟩

theorem unbroken_lineStep {rest : Bool × List Text}
    (h : ∀ l ∈ rest.2, ∀ d ∈ l, isLineBreak d = false) (c : Char) :
    ∀ l ∈ (lineStep c rest).2, ∀ d ∈ l, isLineBreak d = false := by
  unfold lineStep
  split
  next => exact h
  next =>
    split
    next => exact List.forall_mem_cons.mpr ⟨nofun, h⟩
    next hc =>
      intro l hl d hd
      rcases mem_of_mem_consHead hl hd with rfl | ⟨k, hk, hd⟩
      · simpa using hc
      · exact h k hk d hd

theorem unbroken_lines (s : Text) : ∀ l ∈ lines s, ∀ c ∈ l, isLineBreak c = false := by
  unfold lines
  induction s with
  | nil => nofun
  | cons c s ih => exact unbroken_lineStep ih c

end AccMachine.Text
