import AccMachine.Proofs.CodeLines
import Mathlib.Data.List.Forall2

namespace AccMachine

namespace Text

/-- Exchanges the first words of a text, as many as told, and leaves all else as it stands. -/
def onWords (f : Text → Text) : Nat → Text → Text
  | 0, s => s
  | k + 1, s =>
    let word := (s.dropWhile isBlank).takeWhile (!isBlank ·)
    if word.isEmpty then s
    else
      s.takeWhile isBlank ++ f word ++ onWords f k ((s.dropWhile isBlank).dropWhile (!isBlank ·))

/-- Exchanges every line of a text that goes on with `s` after `line`, and keeps the line breaks. -/
def onLinesFrom (f : Text → Text) (line : Text) : Text → Text
  | [] => f line
  | c :: s =>
    if isLineBreak c then f line ++ c :: onLinesFrom f [] s else onLinesFrom f (line ++ [c]) s

def onLines (f : Text → Text) (s : Text) : Text := onLinesFrom f [] s

end Text

structure KeepsWords (f : Text → Text) : Prop where
  ne_nil : ∀ w, w ≠ [] → f w ≠ []
  chars : ∀ w, ∀ c ∈ f w, c ∈ w ∨ TokenChar c

theorem KeepsWords.unblank {f : Text → Text} (h : KeepsWords f) {w : Text}
    (hw : ∀ c ∈ w, isBlank c = false) : ∀ c ∈ f w, isBlank c = false := by
  intro c hc
  rcases h.chars w c hc with hmem | htoken
  · exact hw c hmem
  · exact htoken.1

namespace Text

variable {f : Text → Text} {s : Text}

structure FirstWord (s blanks word rest : Text) : Prop where
  split : s = blanks ++ word ++ rest
  blank : ∀ c ∈ blanks, isBlank c
  ne_nil : word ≠ []
  unblank : ∀ c ∈ word, isBlank c = false
  ends : ∀ c, rest.head? = some c → isBlank c

theorem FirstWord.words_eq {blanks word rest : Text} (h : FirstWord s blanks word rest) :
    words s = word :: words rest := by
  have hfront : words (blanks ++ (word ++ rest) ++ []) = words (word ++ rest) :=
    words_between h.blank (List.forall_mem_nil _) (word ++ rest)
  rw [List.append_nil, ← List.append_assoc, ← h.split] at hfront
  rw [hfront]
  cases hrest : rest with
  | nil =>
    rw [List.append_nil]
    exact words_of_no_blank h.unblank h.ne_nil
  | cons b rest =>
    have hb : isBlank b := h.ends b (by rw [hrest]; rfl)
    rw [words_append_blank h.unblank h.ne_nil hb, words_cons_blank hb]

theorem onWords_succ (f : Text → Text) (k : Nat) (s : Text) :
    words s = [] ∧ onWords f (k + 1) s = s ∨
      ∃ blanks word rest, FirstWord s blanks word rest ∧
        onWords f (k + 1) s = blanks ++ f word ++ onWords f k rest := by
  have hblanks := List.takeWhile_append_dropWhile (p := isBlank) (l := s)
  have hword := List.takeWhile_append_dropWhile (p := (!isBlank ·)) (l := s.dropWhile isBlank)
  rw [onWords]
  split
  next hempty =>
    have hnil := List.isEmpty_iff.mp hempty
    refine .inl ⟨?_, rfl⟩
    -- The text behind the blanks begins with no blank, so it is empty like its first word.
    cases hrest : s.dropWhile isBlank with
    | nil => exact words_eq_nil_iff.mpr (List.dropWhile_eq_nil_iff.mp hrest)
    | cons c rest =>
      have hhead := List.head?_dropWhile_not isBlank s
      rw [hrest] at hhead hnil
      have hc : isBlank c = false := by simpa using hhead
      simp [hc] at hnil
  next hne =>
    refine .inr ⟨_, _, _, ⟨?_, ?_, fun hnil => hne (List.isEmpty_iff.mpr hnil), ?_, ?_⟩, rfl⟩
    · rw [List.append_assoc, hword, hblanks]
    · intro c hc
      exact List.mem_takeWhile_imp hc
    · intro c hc
      simpa using List.mem_takeWhile_imp hc
    · intro c hc
      have hhead := List.head?_dropWhile_not (!isBlank ·) (s.dropWhile isBlank)
      rw [hc] at hhead
      simpa using hhead

theorem head?_onWords (h : ∀ c, s.head? = some c → isBlank c) (f : Text → Text) (k : Nat) :
    ∀ c, (onWords f k s).head? = some c → isBlank c := by
  cases k with
  | zero => exact h
  | succ k =>
    rcases onWords_succ f k s with ⟨-, hsame⟩ | ⟨blanks, word, rest, hfirst, hnext⟩
    · rwa [hsame]
    · cases blanks with
      | nil =>
        obtain ⟨c, word', rfl⟩ := List.exists_cons_of_ne_nil hfirst.ne_nil
        have hblank := h c (by rw [hfirst.split]; rfl)
        rw [hfirst.unblank c (by simp)] at hblank
        cases hblank
      | cons b blanks =>
        rw [hnext]
        intro c hc
        cases hc
        exact hfirst.blank b (by simp)

theorem FirstWord.change {blanks word rest : Text} (h : FirstWord s blanks word rest)
    (hf : KeepsWords f) (k : Nat) :
    FirstWord (blanks ++ f word ++ onWords f k rest) blanks (f word) (onWords f k rest) where
  split := rfl
  blank := h.blank
  ne_nil := hf.ne_nil word h.ne_nil
  unblank := hf.unblank h.unblank
  ends := head?_onWords h.ends f k

theorem words_onWords (h : KeepsWords f) (k : Nat) (s : Text) :
    words (onWords f k s) = ((words s).take k).map f ++ (words s).drop k := by
  induction k generalizing s with
  | zero => rfl
  | succ k ih =>
    rcases onWords_succ f k s with ⟨hnone, hsame⟩ | ⟨blanks, word, rest, hfirst, hnext⟩
    · rw [hsame, hnone]
      rfl
    · rw [hnext, (hfirst.change h k).words_eq, hfirst.words_eq, ih]
      rfl

theorem mem_onWords (h : KeepsWords f) {k : Nat} {c : Char} (hc : c ∈ onWords f k s) :
    c ∈ s ∨ TokenChar c := by
  induction k generalizing s with
  | zero => exact .inl hc
  | succ k ih =>
    rcases onWords_succ f k s with ⟨-, hsame⟩ | ⟨blanks, word, rest, hfirst, hnext⟩
    · rw [hsame] at hc
      exact .inl hc
    · rw [hnext, List.mem_append, List.mem_append] at hc
      rw [hfirst.split, List.mem_append, List.mem_append]
      rcases hc with (hblank | hword) | hrest
      · exact .inl (.inl (.inl hblank))
      · exact (h.chars word c hword).imp_left fun hmem => .inl (.inr hmem)
      · exact (ih hrest).imp_left .inr

theorem notMem_onWords (h : KeepsWords f) {c : Char} (hc : ¬TokenChar c) (hs : c ∉ s) (k : Nat) :
    c ∉ onWords f k s := by
  intro hmem
  exact (mem_onWords h hmem).elim hs hc

theorem strip_onWords_one (h : KeepsWords f) {w : Text} (hs : s.strip = w) (hne : w ≠ [])
    (hw : ∀ c ∈ w, isBlank c = false) : (onWords f 1 s).strip = f w := by
  have hwords := words_strip s
  rw [hs, words_of_no_blank hw hne] at hwords
  rcases onWords_succ f 0 s with ⟨hnone, -⟩ | ⟨blanks, word, rest, hfirst, hnext⟩
  · rw [hnone] at hwords
    cases hwords
  · rw [hfirst.words_eq] at hwords
    obtain ⟨rfl, hrest⟩ := List.cons.inj hwords
    have hblank := words_eq_nil_iff.mp hrest.symm
    rw [hnext]
    change strip (blanks ++ f w ++ rest) = f w
    rw [strip_between hfirst.blank hblank]
    exact strip_of_no_blank (h.unblank hw)

end Text

theorem forall₂_codeLines_onLines {f : Text → Text} {R : Text → Text → Prop} {P : Text → Prop}
    (unbroken : ∀ l, (∀ c ∈ l, isLineBreak c = false) → ∀ c ∈ f l, isLineBreak c = false)
    (alike : ∀ l, (∀ code ∈ codeAmong [l], P code) →
      List.Forall₂ R (codeAmong [l]) (codeAmong [f l]))
    {src : Text} (hsrc : ∀ code ∈ codeLines src, P code) :
    List.Forall₂ R (codeLines src) (codeLines (Text.onLines f src)) := by
  -- The line that is being read is part of the text, so the induction carries it along.
  have hfrom (line s : Text) (hline : ∀ c ∈ line, isLineBreak c = false)
      (hcode : ∀ code ∈ codeLines (line ++ s), P code) :
      List.Forall₂ R (codeLines (line ++ s)) (codeLines (Text.onLinesFrom f line s)) := by
    induction s generalizing line with
    | nil =>
      rw [List.append_nil] at hcode ⊢
      rw [codeLines_of_unbroken hline] at hcode ⊢
      unfold Text.onLinesFrom
      rw [codeLines_of_unbroken (unbroken line hline)]
      exact alike line hcode
    | cons c s ih =>
      unfold Text.onLinesFrom
      split
      next hc =>
        rw [codeLines_append_break hc, codeLines_of_unbroken hline] at hcode ⊢
        rw [codeLines_append_break hc, codeLines_of_unbroken (unbroken line hline)]
        obtain ⟨hfirst, hrest⟩ := List.forall_mem_append.mp hcode
        exact List.rel_append (alike line hfirst) (ih [] nofun hrest)
      next hc =>
        have hnext : ∀ d ∈ line ++ [c], isLineBreak d = false :=
          List.forall_mem_append.mpr ⟨hline, List.forall_mem_singleton.mpr (by simpa using hc)⟩
        have happend : line ++ c :: s = (line ++ [c]) ++ s := by simp
        rw [happend] at hcode ⊢
        exact ih (line ++ [c]) hnext hcode
  exact hfrom [] src nofun hsrc

end AccMachine
