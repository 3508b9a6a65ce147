import AccMachine.Proofs.Listing
import Mathlib.Data.Int.ModEq

namespace AccMachine

inductive Showing
  | hex | dec | signed | bin

/-- The text that shows the word of an integer; binary digits are shown without an opening. -/
def Showing.text (s : Showing) (v : Int) : Text :=
  match s with
  | hex => (Word.ofInt v).hex.toList
  | dec => (Word.ofInt v).dec.toList
  | signed => (Word.ofInt v).signed.toList
  | bin => ['0', 'b'] ++ (Word.ofInt v).bin.toList

namespace Literal

theorem exists_isDigit_of_spells {t : Text} {negative : Bool} {base : Nat} {values : List Nat}
    (h : Spells t negative base values) : ∃ c ∈ t, c.isDigit := by
  obtain ⟨sign, opening, digits, rfl, -, hopening, hne, hfigures⟩ := h
  obtain ⟨-, hdigits⟩ := (forall₂_figure_iff (base_le_of_mem_openings hopening)).mp hfigures
  have hforms : ∀ e ∈ openings, '0' ∈ e.1 ∨ e.2 = 10 := by decide
  rcases hforms _ hopening with hzero | hten
  · exact ⟨'0', by simp [hzero], by decide⟩
  · obtain ⟨c, r, rfl⟩ := List.exists_cons_of_ne_nil hne
    have hc := hdigits c (by simp)
    exact ⟨c, by simp, isDigit_of_digitValue_lt (hten ▸ hc)⟩

end Literal

theorem upper_ne_of_isDigit {s : Text} {c : Char} (hc : c ∈ s) (hdigit : c.isDigit)
    (o : Operation) : s.upper ≠ o.mnemonic.toList := by
  have hcapital : capital c = [c] :=
    @Numeral.forall_isDigit (fun c => capital c = [c]) (by decide) c hdigit
  have hplain : ∀ o ∈ Operation.all, o.mnemonic.toList.all (!·.isDigit) := by decide +kernel
  have hupper : c ∈ s.upper := List.mem_flatMap.mpr ⟨c, hc, by simp [hcapital]⟩
  intro heq
  rw [heq] at hupper
  have hnot := List.all_eq_true.mp (hplain o o.mem_all) c hupper
  simp [hdigit] at hnot

structure LiteralLine (line : Text) (n : Int) : Prop where
  unblank : ∀ c ∈ line, isBlank c = false
  read_eq : Literal.read line = .ok (some n)

namespace LiteralLine

variable {line : Text} {n : Int}

theorem decimal (h : Numeral.Writable n) : LiteralLine (toString n).toList n :=
  ⟨fun _ => Numeral.not_isBlank_of_mem_toString, Numeral.read_toString h⟩

theorem padded {opening : Text} {base : Nat} (hopening : (opening, base) ∈ Literal.openings)
    (hten : base ≠ 10) (width k : Nat) :
    LiteralLine (opening ++ Numeral.digits base width k) k :=
  have hspells := Literal.spells_padded hopening width k
  ⟨Literal.not_isBlank_of_spells hspells, Literal.read_padded hopening hten width k⟩

theorem spells (h : LiteralLine line n) :
    ∃ negative base values, Literal.Spells line negative base values := by
  obtain ⟨negative, base, values, hspells, -⟩ := Literal.read_eq_some_iff.mp h.read_eq
  rw [Text.strip_of_no_blank h.unblank] at hspells
  exact ⟨negative, base, values, hspells⟩

theorem plainLine (h : LiteralLine line n) : PlainLine line := by
  obtain ⟨negative, base, values, hspells⟩ := h.spells
  obtain ⟨c, hc, -⟩ := Literal.exists_isDigit_of_spells hspells
  have hchars : ∀ c ∈ line, TokenChar c :=
    Literal.forall_of_spells (by decide)
      (fun _ => Literal.forall_digit (p := TokenChar) (by decide +kernel)) hspells
  exact {
    ne_nil := List.ne_nil_of_mem hc
    marks := fun c hc =>
      ⟨Text.not_isLineBreak_of_not_isBlank (h.unblank c hc), (hchars c hc).2.1⟩
    strip_eq := Text.strip_of_no_blank h.unblank
    unlabelled := fun hcolon => (hchars ':' hcolon).2.2 rfl }

theorem encodeBody_eq (h : LiteralLine line n) (labels : Labels) :
    encodeBody labels line = .ok (.ok (n % 65536)) := by
  obtain ⟨negative, base, values, hspells⟩ := h.spells
  obtain ⟨c, hc, hdigit⟩ := Literal.exists_isDigit_of_spells hspells
  have hwords := Text.words_of_no_blank h.unblank (List.ne_nil_of_mem hc)
  rw [encodeBody_of_plain hwords (upper_ne_of_isDigit hc hdigit), encodeData, h.read_eq,
    ← Word.toNat_ofInt]
  rfl

end LiteralLine

theorem assemble_literals {lines : List (Text × Int)} (h : ∀ l ∈ lines, LiteralLine l.1 l.2) :
    ∃ a, assemble (['\n'].intercalate (lines.map Prod.fst)) = .ok a ∧ a.labels = [] ∧
      a.redefinitions = #[] ∧ a.image.toList = lines.map (·.2 % 65536) ∧ a.errors = #[] := by
  have hplain : ∀ l ∈ lines.map Prod.fst, PlainLine l := by
    intro l hl
    obtain ⟨e, he, rfl⟩ := List.mem_map.mp hl
    exact (h e he).plainLine
  have hmap : (lines.map Prod.fst).map (encodeBody []) =
      ((lines.map (·.2 % 65536)).map Except.ok).map Except.ok := by
    rw [List.map_map, List.map_map, List.map_map]
    exact List.map_congr_left fun e he => (h e he).encodeBody_eq []
  obtain ⟨a, hassemble, hlabels, hredefs, himage, herrors⟩ := assemble_of_plain hplain hmap
  have hwords : ∀ ws : List Int, (ws.map Except.ok).filterMap
      (Except.toOption : Except LineError Int → Option Int) = ws := by
    intro ws
    rw [List.filterMap_map]
    exact List.filterMap_some
  have hnone : ∀ (k : Nat) (ws : List Int), numberedErrors k (ws.map Except.ok) = [] := by
    intro k ws
    induction ws generalizing k with
    | nil => rfl
    | cons w ws ih =>
      rw [List.map_cons, numberedErrors_cons, ih]
      rfl
  rw [hwords] at himage
  rw [hnone, Array.toList_eq_nil_iff] at herrors
  exact ⟨a, hassemble, hlabels, hredefs, himage, herrors⟩

theorem Word.toInt_ofInt_emod (v : Int) : (Word.ofInt v).toInt % 65536 = v % 65536 := by
  unfold Word.ofInt
  rw [BitVec.toInt_ofInt]
  exact Int.bmod_emod

theorem Word.toInt_bounds (w : Word) : -32768 ≤ w.toInt ∧ w.toInt ≤ 32767 := by
  have hlow := BitVec.le_toInt w
  have hhigh := BitVec.toInt_lt (x := w)
  omega

/-- A shown word is a literal for an integer that is cut to the same word. -/
theorem Showing.exists_literalLine (s : Showing) (v : Int) :
    ∃ n, LiteralLine (s.text v) n ∧ n % 65536 = v % 65536 := by
  have hunsigned : ((Word.ofInt v).toNat : Int) % 65536 = v % 65536 := by
    rw [Word.toNat_ofInt]
    omega
  cases s with
  | hex =>
    have htext : hex.text v = ['0', 'x'] ++ Numeral.digits 16 4 (Word.ofInt v).toNat := by
      change ("0x" ++ Numeral.padded 16 4 (Word.ofInt v).toNat).toList = _
      rw [String.toList_append, Numeral.toList_padded]
      rfl
    rw [htext]
    exact ⟨_, .padded (by decide) (by decide) 4 _, hunsigned⟩
  | dec =>
    have hline := LiteralLine.decimal (writable_toNat (Word.ofInt v))
    exact ⟨_, hline, hunsigned⟩
  | signed =>
    have hbounds := (Word.ofInt v).toInt_bounds
    have hwritable : Numeral.Writable (Word.ofInt v).toInt :=
      Numeral.writable_of_natAbs_lt (by omega)
    exact ⟨_, .decimal hwritable, Word.toInt_ofInt_emod v⟩
  | bin =>
    have htext : bin.text v = ['0', 'b'] ++ Numeral.digits 2 16 (Word.ofInt v).toNat := by
      change ['0', 'b'] ++ (Numeral.padded 2 16 (Word.ofInt v).toNat).toList = _
      rw [Numeral.toList_padded]
    rw [htext]
    exact ⟨_, .padded (by decide) (by decide) 16 _, hunsigned⟩

/--
Words that are shown one a line, each in any of the ways, are assembled to the words that were
shown. With a sign a word is shown as the one integer from -32768 to 32767 that is cut to it.
-/
theorem shown_words_typed_back :
    (∀ shown : List (Showing × Int),
      ∃ a, assemble (['\n'].intercalate (shown.map fun (s, v) => s.text v)) = .ok a ∧
        a.errorMessages = [] ∧ a.labels = [] ∧ a.warnings = [] ∧
        a.image.toList = shown.map fun (_, v) => v % 65536) ∧
    ∀ v : Int, -32768 ≤ (Word.ofInt v).toInt ∧ (Word.ofInt v).toInt ≤ 32767 ∧
      (Word.ofInt v).toInt ≡ v [ZMOD 65536] := by
  refine ⟨fun shown => ?_, fun v => ?_⟩
  · choose value hline hvalue using Showing.exists_literalLine
    let lines := shown.map fun (s, v) => (s.text v, value s v)
    have hliteral : ∀ l ∈ lines, LiteralLine l.1 l.2 := by
      intro l hl
      obtain ⟨⟨s, v⟩, -, rfl⟩ := List.mem_map.mp hl
      exact hline s v
    have htexts : lines.map Prod.fst = shown.map fun (s, v) => s.text v := List.map_map
    have hwords : lines.map (·.2 % 65536) = shown.map fun (_, v) => v % 65536 := by
      rw [List.map_map]
      exact List.map_congr_left fun e _ => hvalue e.1 e.2
    obtain ⟨a, hassemble, hlabels, hredefs, himage, herrors⟩ := assemble_literals hliteral
    rw [htexts] at hassemble
    rw [hwords] at himage
    refine ⟨a, hassemble, ?_, hlabels, ?_, himage⟩
    · unfold Assembly.errorMessages
      rw [herrors]
      rfl
    · unfold Assembly.warnings
      rw [hredefs]
      rfl
  · obtain ⟨hlow, hhigh⟩ := (Word.ofInt v).toInt_bounds
    exact ⟨hlow, hhigh, Word.toInt_ofInt_emod v⟩

end AccMachine
