import AccMachine.Highlight
import AccMachine.Proofs.TextCuts

namespace AccMachine

def isSeparator (c : Char) : Bool := isBlank c || c == ':'

/-- A word in its place: a maximal run of characters that are no separators. -/
structure Run (code : Text) (t : Token) : Prop where
  ne_nil : t.word ≠ []
  inside : ∀ c ∈ t.word, isSeparator c = false
  placed : ∃ before after, code = before ++ t.word ++ after ∧ before.length = t.start ∧
    (∀ c ∈ before.getLast?, isSeparator c) ∧ ∀ c ∈ after.head?, isSeparator c

/-- A text that begins at a place is read from the left as these runs. -/
inductive ReadFrom : Nat → Text → List Token → Prop
  | done {place : Nat} : ReadFrom place [] []
  | skip {place : Nat} {c : Char} {s : Text} {ts : List Token} (separates : isSeparator c)
      (rest : ReadFrom (place + 1) s ts) : ReadFrom place (c :: s) ts
  | run {place : Nat} {word s : Text} {ts : List Token} (ne_nil : word ≠ [])
      (inside : ∀ c ∈ word, isSeparator c = false) (ends : ∀ c ∈ s.head?, isSeparator c)
      (rest : ReadFrom (place + word.length) s ts) :
      ReadFrom place (word ++ s) (⟨place, word⟩ :: ts)

def tokenSpans (code : Text) (row : Nat) : List Token → Spans
  | [] => ([], none)
  | t :: ts =>
    match t.span? code row with
    | .error f => ([], some f)
    | .ok none => tokenSpans code row ts
    | .ok (some s) =>
      let (more, f) := tokenSpans code row ts
      (s :: more, f)

section
variable {code : Text} {t r : Token}

theorem Run.start_lt_stop (h : Run code t) : t.start < t.stop := by
  have hpos := List.length_pos_iff.mpr h.ne_nil
  unfold Token.stop
  omega

theorem Run.stop_le (h : Run code t) : t.stop ≤ code.length := by
  obtain ⟨before, after, rfl, hstart, -, -⟩ := h.placed
  unfold Token.stop
  simp only [List.length_append]
  omega

theorem Run.getElem?_inside (h : Run code t) {i : Nat} (hstart : t.start ≤ i) (hstop : i < t.stop) :
    ∃ c, code[i]? = some c ∧ isSeparator c = false := by
  obtain ⟨before, after, rfl, hlength, -, -⟩ := h.placed
  unfold Token.stop at hstop
  have hi : i - before.length < t.word.length := by omega
  refine ⟨t.word[i - before.length], ?_, h.inside _ (List.getElem_mem hi)⟩
  rw [List.append_assoc, List.getElem?_append_right (by omega), List.getElem?_append_left hi,
    List.getElem?_eq_getElem hi]

theorem Run.separator_before (h : Run code t) (hpos : 0 < t.start) :
    ∃ c, code[t.start - 1]? = some c ∧ isSeparator c := by
  obtain ⟨before, after, rfl, hlength, hbefore, -⟩ := h.placed
  have hne : before ≠ [] := by
    rintro rfl
    rw [List.length_nil] at hlength
    omega
  obtain ⟨front, c, rfl⟩ := (List.eq_nil_or_concat before).resolve_left hne
  rw [List.concat_eq_append] at hlength hbefore ⊢
  rw [List.length_append, List.length_singleton] at hlength
  refine ⟨c, ?_, hbefore c (by simp)⟩
  rw [List.append_assoc, List.append_assoc, List.getElem?_append_right (by omega),
    show t.start - 1 - front.length = 0 by omega]
  rfl

theorem takeWhile_run {word after : Text} (inside : ∀ c ∈ word, isSeparator c = false)
    (ends : ∀ c ∈ after.head?, isSeparator c) :
    (word ++ after).takeWhile (!isSeparator ·) = word := by
  rw [List.takeWhile_append_of_pos (by simpa using inside)]
  cases after with
  | nil => exact List.append_nil word
  | cons c after =>
    rw [List.takeWhile_cons_of_neg (by simpa using ends c rfl), List.append_nil]

theorem Run.word_eq (h : Run code t) :
    t.word = (code.drop t.start).takeWhile (!isSeparator ·) := by
  obtain ⟨before, after, rfl, hlength, -, hafter⟩ := h.placed
  rw [← hlength, List.append_assoc, List.drop_left, takeWhile_run h.inside hafter]

theorem Run.stop_lt_start (h : Run code t) (hr : Run code r) (hlt : t.start < r.start) :
    t.stop < r.start := by
  by_contra hle
  obtain ⟨c, hc, hsep⟩ := hr.separator_before (by omega)
  obtain ⟨d, hd, hplain⟩ := h.getElem?_inside (i := r.start - 1) (by omega) (by omega)
  rw [hc] at hd
  obtain rfl := Option.some.inj hd
  rw [hplain] at hsep
  cases hsep

theorem Run.eq_of_start (h : Run code t) (hr : Run code r) (hstart : t.start = r.start) :
    t = r := by
  have hword : t.word = r.word := by rw [h.word_eq, hr.word_eq, hstart]
  cases t
  cases r
  cases hstart
  cases hword
  rfl

end

theorem exists_readFrom (place : Nat) (s : Text) : ∃ ts, ReadFrom place s ts := by
  induction hn : s.length using Nat.strong_induction_on generalizing place s with
  | _ n ih =>
    cases s with
    | nil => exact ⟨[], .done⟩
    | cons c s =>
      rw [List.length_cons] at hn
      cases hc : isSeparator c with
      | true =>
        obtain ⟨ts, hts⟩ := ih s.length (by omega) (place + 1) s rfl
        exact ⟨ts, .skip hc hts⟩
      | false =>
        -- The run goes as far as there is no separator.
        let more := s.takeWhile (!isSeparator ·)
        let rest := s.dropWhile (!isSeparator ·)
        have hsplit : c :: s = (c :: more) ++ rest :=
          congrArg (c :: ·) List.takeWhile_append_dropWhile.symm
        have hrest : rest.length ≤ s.length := (List.dropWhile_suffix _).length_le
        have hinside : ∀ d ∈ c :: more, isSeparator d = false := by
          refine List.forall_mem_cons.mpr ⟨hc, fun d hd => ?_⟩
          simpa using List.mem_takeWhile_imp hd
        have hends : ∀ d ∈ rest.head?, isSeparator d := by
          intro d hd
          have hnot := List.head?_dropWhile_not (!isSeparator ·) s
          rw [Option.mem_def.mp hd] at hnot
          simpa using hnot
        obtain ⟨ts, hts⟩ := ih rest.length (by omega) (place + (c :: more).length) rest rfl
        rw [hsplit]
        exact ⟨_, .run (by simp) hinside hends hts⟩

namespace ReadFrom

variable {place : Nat} {s : Text} {ts : List Token}

theorem word_plain (h : ReadFrom place s ts) :
    ∀ t ∈ ts, t.word ≠ [] ∧ ∀ c ∈ t.word, isSeparator c = false := by
  induction h with
  | done => nofun
  | skip separates rest ih => exact ih
  | run ne_nil inside ends rest ih => exact List.forall_mem_cons.mpr ⟨⟨ne_nil, inside⟩, ih⟩

theorem place_le (h : ReadFrom place s ts) : ∀ t ∈ ts, place ≤ t.start := by
  induction h with
  | done => nofun
  | skip separates rest ih => exact fun t ht => Nat.le_of_succ_le (ih t ht)
  | run ne_nil inside ends rest ih =>
    refine List.forall_mem_cons.mpr ⟨Nat.le_refl _, fun t ht => ?_⟩
    have hle := ih t ht
    omega

theorem ordered (h : ReadFrom place s ts) : ts.Pairwise (·.start < ·.start) := by
  induction h with
  | done => exact .nil
  | skip separates rest ih => exact ih
  | run ne_nil inside ends rest ih =>
    refine List.pairwise_cons.mpr ⟨fun t ht => ?_, ih⟩
    have hpos := List.length_pos_iff.mpr ne_nil
    have hle := rest.place_le t ht
    dsimp only
    omega

/-- Reading from a place on finds the runs that begin there or behind. -/
theorem mem_iff (h : ReadFrom place s ts) (before : Text) (hplace : before.length = place)
    (hcut : (∀ c ∈ before.getLast?, isSeparator c) ∨ ∀ c ∈ s.head?, isSeparator c) (t : Token) :
    t ∈ ts ↔ Run (before ++ s) t ∧ place ≤ t.start := by
  -- What has been read stands before the rest, and no run goes on from the one into the other.
  induction h generalizing before with
  | done =>
    constructor
    · nofun
    · rintro ⟨hrun, hle⟩
      have hstop := hrun.stop_le
      have hlt := hrun.start_lt_stop
      rw [List.append_nil] at hstop
      omega
  | @skip place c s ts separates rest ih =>
    have hlength : (before ++ [c]).length = place + 1 := by
      rw [List.length_append, hplace, List.length_singleton]
    rw [ih _ hlength (.inl (by simpa using separates)), List.append_assoc, List.singleton_append]
    refine and_congr_right fun hrun => ⟨Nat.le_of_succ_le, fun hle => ?_⟩
    by_contra hlt
    obtain ⟨d, hd, hplain⟩ := hrun.getElem?_inside (i := place) (by omega)
      (by have := hrun.start_lt_stop; omega)
    rw [← hplace, List.getElem?_append_right (Nat.le_refl _), Nat.sub_self] at hd
    obtain rfl := Option.some.inj hd
    rw [separates] at hplain
    cases hplain
  | @run place word s ts ne_nil inside ends rest ih =>
    have hlength : (before ++ word).length = place + word.length := by
      rw [List.length_append, hplace]
    have hbefore : ∀ c ∈ before.getLast?, isSeparator c := by
      refine hcut.resolve_right fun hhead => ?_
      obtain ⟨d, more, rfl⟩ := List.exists_cons_of_ne_nil ne_nil
      have hsep := hhead d rfl
      rw [inside d (by simp)] at hsep
      cases hsep
    have hfirst : Run (before ++ (word ++ s)) ⟨place, word⟩ :=
      ⟨ne_nil, inside, before, s, by rw [List.append_assoc], hplace, hbefore, ends⟩
    rw [List.mem_cons, ih _ hlength (.inr ends), List.append_assoc]
    constructor
    · rintro (rfl | ⟨hrun, hle⟩)
      · exact ⟨hfirst, Nat.le_refl _⟩
      · exact ⟨hrun, by omega⟩
    · rintro ⟨hrun, hle⟩
      rcases Nat.eq_or_lt_of_le hle with heq | hlt
      · exact .inl (hfirst.eq_of_start hrun heq).symm
      · have hstop : place + word.length < t.start := hfirst.stop_lt_start hrun hlt
        exact .inr ⟨hrun, by omega⟩

end ReadFrom

theorem not_isBlank_of_inside {word : Text} (inside : ∀ c ∈ word, isSeparator c = false) :
    ∀ c ∈ word, isBlank c = false :=
  fun c hc => (Bool.or_eq_false_iff.mp (inside c hc)).1

theorem ne_colon_of_inside {word : Text} (inside : ∀ c ∈ word, isSeparator c = false) :
    word ≠ [':'] := by
  rintro rfl
  cases inside ':' (by simp)

theorem rowWords_cons_blank {c : Char} (hc : isBlank c) (s : Text) :
    rowWords (c :: s) = rowWords s := by
  have hcolon : c ≠ ':' := by
    rintro rfl
    cases hc
  unfold rowWords
  rw [List.flatMap_cons, if_neg hcolon, List.singleton_append, Text.words_cons_blank hc]

@[simp] theorem rowWords_cons_colon (s : Text) : rowWords (':' :: s) = [':'] :: rowWords s := by
  unfold rowWords
  rw [List.flatMap_cons, if_pos rfl]
  have hblank : ∀ c ∈ [':'], isBlank c = false := List.forall_mem_singleton.mpr rfl
  have hword := Text.words_append_blank hblank (by simp) (b := ' ') (by decide)
  exact (Text.words_cons_blank (by decide) _).trans (hword _)

theorem rowWords_append {word s : Text} (ne_nil : word ≠ [])
    (inside : ∀ c ∈ word, isSeparator c = false) (ends : ∀ c ∈ s.head?, isSeparator c) :
    rowWords (word ++ s) = word :: rowWords s := by
  have hblank := not_isBlank_of_inside inside
  have hself : word.flatMap (fun c => if c = ':' then [' ', ':', ' '] else [c]) = word := by
    have hone : ∀ c ∈ word, (if c = ':' then [' ', ':', ' '] else [c]) = [c] := by
      intro c hc
      refine if_neg ?_
      rintro rfl
      cases inside ':' hc
    rw [List.flatMap_congr hone, List.flatMap_singleton']
  cases s with
  | nil =>
    unfold rowWords
    rw [List.append_nil, hself, Text.words_of_no_blank hblank ne_nil]
    rfl
  | cons d s =>
    rcases Bool.or_eq_true_iff.mp (ends d rfl) with hd | hd
    · rw [rowWords_cons_blank hd]
      have hcolon : d ≠ ':' := by
        rintro rfl
        cases hd
      unfold rowWords
      rw [List.flatMap_append, hself, List.flatMap_cons, if_neg hcolon, List.singleton_append,
        Text.words_append_blank hblank ne_nil hd]
    · obtain rfl := eq_of_beq hd
      unfold rowWords
      rw [List.flatMap_append, hself, List.flatMap_cons, if_pos rfl]
      have hword := Text.words_append_blank hblank ne_nil (b := ' ') (by decide)
      exact (hword _).trans (congrArg _ (Text.words_cons_blank (by decide) _).symm)

theorem ReadFrom.words_eq {place : Nat} {s : Text} {ts : List Token} (h : ReadFrom place s ts) :
    (rowWords s).filter (· ≠ [':']) = ts.map (·.word) := by
  induction h with
  | done => rfl
  | @skip place c s ts separates rest ih =>
    rcases Bool.or_eq_true_iff.mp separates with hblank | hcolon
    · rw [rowWords_cons_blank hblank, ih]
    · obtain rfl := eq_of_beq hcolon
      rw [rowWords_cons_colon, List.filter_cons_of_neg (by simp), ih]
  | run ne_nil inside ends rest ih =>
    have hword := ne_colon_of_inside inside
    rw [rowWords_append ne_nil inside ends, List.filter_cons_of_pos (by simpa using hword), ih,
      List.map_cons]

theorem placeFrom?_append {word : Text} (ne_nil : word ≠ []) (place : Nat) (s : Text) :
    placeFrom? word place (word ++ s) = some place := by
  obtain ⟨c, more, rfl⟩ := List.exists_cons_of_ne_nil ne_nil
  have hprefix : (c :: more).isPrefixOf (c :: (more ++ s)) :=
    List.isPrefixOf_iff_prefix.mpr ⟨s, rfl⟩
  rw [List.cons_append, placeFrom?, if_pos hprefix]

theorem placeFrom?_cons {word : Text} (ne_nil : word ≠ [])
    (inside : ∀ c ∈ word, isSeparator c = false) {c : Char} (hc : isSeparator c) (place : Nat)
    (s : Text) : placeFrom? word place (c :: s) = placeFrom? word (place + 1) s := by
  rw [placeFrom?]
  refine if_neg fun hprefix => ?_
  obtain ⟨d, more, rfl⟩ := List.exists_cons_of_ne_nil ne_nil
  obtain ⟨rest, hrest⟩ := List.isPrefixOf_iff_prefix.mp hprefix
  rw [List.cons_append] at hrest
  obtain ⟨rfl, -⟩ := List.cons.inj hrest
  rw [inside d (by simp)] at hc
  cases hc

section
variable {code : Text} {row : Nat}

theorem wordSpans_filter (col : Nat) (ws : List Text) :
    wordSpans code row col (ws.filter (· ≠ [':'])) = wordSpans code row col ws := by
  induction ws generalizing col with
  | nil => rfl
  | cons w ws ih =>
    by_cases hw : w = [':']
    · rw [List.filter_cons_of_neg (by simpa using hw), ih, wordSpans, if_pos hw]
    · rw [List.filter_cons_of_pos (by simpa using hw), wordSpans, wordSpans, if_neg hw, if_neg hw]
      simp only [ih]

theorem wordSpans_skip {place : Nat} {c : Char} {s : Text} {ts : List Token}
    (hs : code.drop place = c :: s) (hc : isSeparator c)
    (plain : ∀ t ∈ ts, t.word ≠ [] ∧ ∀ c ∈ t.word, isSeparator c = false) :
    wordSpans code row place (ts.map (·.word)) =
      wordSpans code row (place + 1) (ts.map (·.word)) := by
  cases ts with
  | nil => rfl
  | cons t ts =>
    obtain ⟨ne_nil, inside⟩ := plain t (by simp)
    have hrest : code.drop (place + 1) = s := by rw [← List.tail_drop, hs, List.tail_cons]
    have hword := ne_colon_of_inside inside
    rw [List.map_cons, wordSpans, wordSpans, if_neg hword, if_neg hword, hs, hrest,
      placeFrom?_cons ne_nil inside hc]

/-- Every word is found, and in the place where it was read. -/
theorem ReadFrom.wordSpans_eq {place : Nat} {s : Text} {ts : List Token}
    (h : ReadFrom place s ts) (hs : code.drop place = s) :
    wordSpans code row place (ts.map (·.word)) = tokenSpans code row ts := by
  induction h with
  | done => rfl
  | @skip place c s ts separates rest ih =>
    have hrest : code.drop (place + 1) = s := by rw [← List.tail_drop, hs, List.tail_cons]
    rw [wordSpans_skip hs separates rest.word_plain, ih hrest]
  | @run place word s ts ne_nil inside ends rest ih =>
    have hrest : code.drop (place + word.length) = s := by
      rw [← List.drop_drop, hs, List.drop_left]
    have hstop : Token.stop ⟨place, word⟩ = place + word.length := rfl
    rw [List.map_cons, wordSpans, tokenSpans, if_neg (ne_colon_of_inside inside), hs,
      placeFrom?_append ne_nil]
    dsimp only
    rewrite [hstop, ih hrest]
    rfl

/-- The words of a row are looked for where its runs are. -/
theorem exists_runs (code : Text) : ∃ ts, (∀ t, t ∈ ts ↔ Run code t) ∧
    ts.Pairwise (·.start < ·.start) ∧
    ∀ row, wordSpans code row 0 (rowWords code) = tokenSpans code row ts := by
  obtain ⟨ts, hts⟩ := exists_readFrom 0 code
  refine ⟨ts, fun t => ?_, hts.ordered, fun row => ?_⟩
  · simpa using hts.mem_iff [] rfl (.inl nofun) t
  · rw [← wordSpans_filter, hts.words_eq, hts.wordSpans_eq List.drop_zero]

end

end AccMachine
