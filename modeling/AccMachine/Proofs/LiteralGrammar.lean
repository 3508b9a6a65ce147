import AccMachine.Proofs.WrittenNumbers
import Mathlib.Data.List.Forall2
import Mathlib.Data.List.Induction
import Mathlib.Data.Nat.Digits.Defs

namespace AccMachine.Literal

def signs : List (Text × Bool) := [([], false), (['+'], false), (['-'], true)]

/-- What tells the base of the digits that follow; before decimal digits stands nothing. -/
def openings : List (Text × Nat) :=
  [(['0', 'x'], 16), (['0', 'X'], 16), (['0', 'b'], 2), (['0', 'B'], 2), ([], 10)]

def Figure (base : Nat) (c : Char) (value : Nat) : Prop :=
  value < base ∧
    ("0123456789abcdef".toList[value]? = some c ∨ "0123456789ABCDEF".toList[value]? = some c)

instance (base : Nat) (c : Char) (value : Nat) : Decidable (Figure base c value) :=
  inferInstanceAs (Decidable (_ ∧ _))

/-- A text is a sign, an opening and one or more digits with these values. -/
def Spells (t : Text) (negative : Bool) (base : Nat) (values : List Nat) : Prop :=
  ∃ sign opening digits : Text, t = sign ++ opening ++ digits ∧ (sign, negative) ∈ signs ∧
    (opening, base) ∈ openings ∧ digits ≠ [] ∧ List.Forall₂ (Figure base) digits values

/-- The integer that digits stand for by their places; the last digit counts the ones. -/
def number (negative : Bool) (base : Nat) (values : List Nat) : Int :=
  let n := Nat.ofDigits base values.reverse
  if negative then -(n : Int) else n

theorem toNat_lt_of_digitValue {c : Char} (h : Numeral.digitValue c < 16) : c.toNat < 128 := by
  unfold Numeral.digitValue at h
  split at h
  next hc =>
    have hlast : c.toNat ≤ 57 := hc.2
    omega
  next =>
    split at h
    next hc =>
      have hlast : c.toNat ≤ 102 := hc.2
      omega
    next =>
      split at h
      next hc =>
        have hlast : c.toNat ≤ 70 := hc.2
        omega
      next => cases Nat.lt_irrefl 16 h

theorem forall_digit {p : Char → Prop}
    (h : ∀ k ∈ List.range 128, Numeral.digitValue (Char.ofNat k) < 16 → p (Char.ofNat k)) {c : Char}
    (hc : Numeral.digitValue c < 16) : p c := by
  have hdigit := h c.toNat (List.mem_range.mpr (toNat_lt_of_digitValue hc))
  rw [Char.ofNat_toNat] at hdigit
  exact hdigit hc

theorem not_isBlank_of_digitValue {c : Char} (h : Numeral.digitValue c < 16) :
    isBlank c = false :=
  @forall_digit (fun c => isBlank c = false) (by decide +kernel) c h

theorem isDigit_of_digitValue_lt {c : Char} (h : Numeral.digitValue c < 10) : c.isDigit :=
  @forall_digit (fun c => Numeral.digitValue c < 10 → c.isDigit) (by decide +kernel) c (by omega) h

theorem figure_digitValue {base : Nat} (hbase : base ≤ 16) {c : Char}
    (h : Numeral.digitValue c < base) : Figure base c (Numeral.digitValue c) :=
  have hall := @forall_digit (fun c => Figure 16 c (Numeral.digitValue c)) (by decide +kernel) c
    (by omega)
  ⟨h, hall.2⟩

theorem figure_iff {base : Nat} (hbase : base ≤ 16) {c : Char} {value : Nat} :
    Figure base c value ↔ Numeral.digitValue c = value ∧ value < base := by
  constructor
  · rintro ⟨hlt, hchar⟩
    have hall : ∀ v ∈ List.range 16,
        ("0123456789abcdef".toList[v]?.all fun d => Numeral.digitValue d = v) ∧
          ("0123456789ABCDEF".toList[v]?.all fun d => Numeral.digitValue d = v) := by
      decide +kernel
    obtain ⟨hsmall, hcapital⟩ := hall value (List.mem_range.mpr (by omega))
    rcases hchar with hc | hc
    · rw [hc] at hsmall
      exact ⟨of_decide_eq_true hsmall, hlt⟩
    · rw [hc] at hcapital
      exact ⟨of_decide_eq_true hcapital, hlt⟩
  · rintro ⟨rfl, hlt⟩
    exact figure_digitValue hbase hlt

theorem base_le_of_mem_openings {opening : Text} {base : Nat} (h : (opening, base) ∈ openings) :
    base ≤ 16 := by
  have hall : ∀ e ∈ openings, e.2 ≤ 16 := by decide
  exact hall _ h

theorem one_lt_of_mem_openings {opening : Text} {base : Nat} (h : (opening, base) ∈ openings) :
    1 < base := by
  have hall : ∀ e ∈ openings, 1 < e.2 := by decide
  exact hall _ h

/-- Digits have values of a base if they are the values that they are read with. -/
theorem forall₂_figure_iff {base : Nat} (hbase : base ≤ 16) {digits : Text} {values : List Nat} :
    List.Forall₂ (Figure base) digits values ↔
      values = digits.map Numeral.digitValue ∧ ∀ c ∈ digits, Numeral.digitValue c < base := by
  induction digits generalizing values with
  | nil => simp
  | cons c digits ih =>
    rw [List.forall₂_cons_left_iff]
    constructor
    · rintro ⟨v, values, hfigure, hrest, rfl⟩
      obtain ⟨rfl, hlt⟩ := (figure_iff hbase).mp hfigure
      obtain ⟨rfl, hall⟩ := ih.mp hrest
      exact ⟨rfl, List.forall_mem_cons.mpr ⟨hlt, hall⟩⟩
    · rintro ⟨rfl, hall⟩
      obtain ⟨hlt, hrest⟩ := List.forall_mem_cons.mp hall
      exact ⟨_, _, figure_digitValue hbase hlt, ih.mpr ⟨rfl, hrest⟩, rfl⟩

theorem ofDigits_eq (base : Nat) (digits : Text) :
    Numeral.ofDigits base digits = Nat.ofDigits base (digits.map Numeral.digitValue).reverse := by
  induction digits using List.reverseRecOn with
  | nil => rfl
  | append_singleton digits c ih =>
    rw [Numeral.ofDigits_concat, ih, List.map_append, List.map_singleton, List.reverse_append,
      List.reverse_singleton, List.singleton_append, Nat.ofDigits_cons]
    exact (Nat.add_comm _ _).trans (congrArg _ (Nat.mul_comm _ _))

theorem splitSign_spec (t : Text) :
    ∃ sign, (sign, (splitSign t).1) ∈ signs ∧ t = sign ++ (splitSign t).2 := by
  unfold splitSign
  split
  next => exact ⟨['+'], by simp [signs], rfl⟩
  next => exact ⟨['-'], by simp [signs], rfl⟩
  next => exact ⟨[], by simp [signs], rfl⟩

theorem splitBase_spec (t : Text) :
    ∃ opening, (opening, (splitBase t).1) ∈ openings ∧ t = opening ++ (splitBase t).2 := by
  unfold splitBase
  split
  next => exact ⟨['0', 'x'], by simp [openings], rfl⟩
  next => exact ⟨['0', 'X'], by simp [openings], rfl⟩
  next => exact ⟨['0', 'b'], by simp [openings], rfl⟩
  next => exact ⟨['0', 'B'], by simp [openings], rfl⟩
  next => exact ⟨[], by simp [openings], rfl⟩

theorem splitSign_append_of_head {sign r : Text} {negative : Bool}
    (hsign : (sign, negative) ∈ signs) (hplus : r.head? ≠ some '+') (hminus : r.head? ≠ some '-') :
    splitSign (sign ++ r) = (negative, r) := by
  simp only [signs, List.mem_cons, Prod.mk.injEq, List.not_mem_nil, or_false] at hsign
  rcases hsign with ⟨rfl, rfl⟩ | ⟨rfl, rfl⟩ | ⟨rfl, rfl⟩
  · rw [List.nil_append]
    unfold splitSign
    split
    next => exact absurd rfl hplus
    next => exact absurd rfl hminus
    next => rfl
  · rfl
  · rfl

theorem splitBase_append {opening digits : Text} {base : Nat}
    (hopening : (opening, base) ∈ openings)
    (hdigits : ∀ c ∈ digits, Numeral.digitValue c < base) :
    splitBase (opening ++ digits) = (base, digits) := by
  simp only [openings, List.mem_cons, Prod.mk.injEq, List.not_mem_nil, or_false] at hopening
  rcases hopening with ⟨rfl, rfl⟩ | ⟨rfl, rfl⟩ | ⟨rfl, rfl⟩ | ⟨rfl, rfl⟩ | ⟨rfl, rfl⟩
  · rfl
  · rfl
  · rfl
  · rfl
  · exact Numeral.splitBase_of_isDigit fun c hc => isDigit_of_digitValue_lt (hdigits c hc)

theorem head_opening_append {opening digits : Text} {base : Nat}
    (hopening : (opening, base) ∈ openings) (hne : digits ≠ [])
    (hdigits : ∀ c ∈ digits, Numeral.digitValue c < base) :
    ∃ c, (opening ++ digits).head? = some c ∧ Numeral.digitValue c < 16 := by
  have hbase := base_le_of_mem_openings hopening
  simp only [openings, List.mem_cons, Prod.mk.injEq, List.not_mem_nil, or_false] at hopening
  obtain ⟨c, r, rfl⟩ := List.exists_cons_of_ne_nil hne
  have hfirst := hdigits c (by simp)
  rcases hopening with ⟨rfl, rfl⟩ | ⟨rfl, rfl⟩ | ⟨rfl, rfl⟩ | ⟨rfl, rfl⟩ | ⟨rfl, rfl⟩
  · exact ⟨'0', rfl, by decide⟩
  · exact ⟨'0', rfl, by decide⟩
  · exact ⟨'0', rfl, by decide⟩
  · exact ⟨'0', rfl, by decide⟩
  · exact ⟨c, rfl, by omega⟩

theorem isDigits_iff {base : Nat} {digits : Text} :
    isDigits base digits ↔ digits ≠ [] ∧ ∀ c ∈ digits, Numeral.digitValue c < base := by
  simp [isDigits]

/-- A text is taken apart in the one way in which it can spell a literal. -/
theorem spells_iff {t : Text} {negative : Bool} {base : Nat} {values : List Nat} :
    Spells t negative base values ↔ (splitSign t).1 = negative ∧
      (splitBase (splitSign t).2).1 = base ∧ isDigits base (splitBase (splitSign t).2).2 ∧
      values = (splitBase (splitSign t).2).2.map Numeral.digitValue := by
  constructor
  · rintro ⟨sign, opening, digits, rfl, hsign, hopening, hne, hfigures⟩
    obtain ⟨rfl, hdigits⟩ := (forall₂_figure_iff (base_le_of_mem_openings hopening)).mp hfigures
    obtain ⟨c, hhead, hc⟩ := head_opening_append hopening hne hdigits
    have hmark : ∀ d, Numeral.digitValue d = 16 → (opening ++ digits).head? ≠ some d := by
      intro d hd heq
      rw [hhead] at heq
      obtain rfl := Option.some.inj heq
      omega
    have happly := splitSign_append_of_head hsign (hmark '+' (by decide)) (hmark '-' (by decide))
    rw [List.append_assoc, happly]
    dsimp only
    rw [splitBase_append hopening hdigits]
    exact ⟨rfl, rfl, isDigits_iff.mpr ⟨hne, hdigits⟩, rfl⟩
  · rintro ⟨rfl, rfl, hdigits, rfl⟩
    obtain ⟨hne, hvalues⟩ := isDigits_iff.mp hdigits
    obtain ⟨sign, hsign, ht⟩ := splitSign_spec t
    obtain ⟨opening, hopening, hu⟩ := splitBase_spec (splitSign t).2
    have hbase := base_le_of_mem_openings hopening
    refine ⟨sign, opening, _, ?_, hsign, hopening, hne, (forall₂_figure_iff hbase).mpr
      ⟨rfl, hvalues⟩⟩
    rw [List.append_assoc, ← hu]
    exact ht

theorem read_of_spells {s : Text} {negative : Bool} {base : Nat} {values : List Nat}
    (h : Spells s.strip negative base values) :
    read s = if base = 10 ∧ 4300 < values.length then .error .badValue
      else .ok (some (number negative base values)) := by
  obtain ⟨rfl, rfl, hdigits, rfl⟩ := spells_iff.mp h
  unfold read number
  dsimp only
  rw [hdigits, if_neg (by decide), List.length_map, ofDigits_eq]
  rfl

theorem read_of_not_spells {s : Text}
    (h : ∀ negative base values, ¬Spells s.strip negative base values) : read s = .ok none := by
  have hdigits :
      ¬isDigits (splitBase (splitSign s.strip).2).1 (splitBase (splitSign s.strip).2).2 :=
    fun hdigits => h _ _ _ (spells_iff.mpr ⟨rfl, rfl, hdigits, rfl⟩)
  unfold read
  dsimp only
  rw [if_pos (by simpa using hdigits)]

theorem spells_or_not (t : Text) : (∃ negative base values, Spells t negative base values) ∨
    ∀ negative base values, ¬Spells t negative base values := by
  by_cases h : ∃ negative base values, Spells t negative base values
  · exact .inl h
  · exact .inr fun negative base values hspells => h ⟨negative, base, values, hspells⟩

theorem read_eq_some_iff {s : Text} {n : Int} :
    read s = .ok (some n) ↔ ∃ negative base values, Spells s.strip negative base values ∧
      (base = 10 → values.length ≤ 4300) ∧ n = number negative base values := by
  constructor
  · intro h
    rcases spells_or_not s.strip with ⟨negative, base, values, hspells⟩ | hnone
    · rw [read_of_spells hspells] at h
      split at h
      next => cases h
      next hshort =>
        obtain rfl := Option.some.inj (Except.ok.inj h)
        exact ⟨negative, base, values, hspells, by omega, rfl⟩
    · rw [read_of_not_spells hnone] at h
      cases h
  · rintro ⟨negative, base, values, hspells, hshort, rfl⟩
    rw [read_of_spells hspells, if_neg (by omega)]

theorem read_eq_none_iff {s : Text} :
    read s = .ok none ↔ ∀ negative base values, ¬Spells s.strip negative base values := by
  constructor
  · intro h negative base values hspells
    rw [read_of_spells hspells] at h
    split at h
    next => cases h
    next => cases h
  · exact read_of_not_spells

theorem read_faults_iff {s : Text} {f : Fault} :
    read s = .error f ↔ f = .badValue ∧
      ∃ negative values, Spells s.strip negative 10 values ∧ 4300 < values.length := by
  constructor
  · intro h
    rcases spells_or_not s.strip with ⟨negative, base, values, hspells⟩ | hnone
    · rw [read_of_spells hspells] at h
      split at h
      next hlong =>
        obtain ⟨rfl, hlong⟩ := hlong
        cases h
        exact ⟨rfl, negative, values, hspells, hlong⟩
      next => cases h
    · rw [read_of_not_spells hnone] at h
      cases h
  · rintro ⟨rfl, negative, values, hspells, hlong⟩
    rw [read_of_spells hspells, if_pos ⟨rfl, hlong⟩]

theorem forall_of_spells {p : Char → Prop} (marks : ['+', '-', '0', 'x', 'X', 'b', 'B'].Forall p)
    (figures : ∀ c, Numeral.digitValue c < 16 → p c) {t : Text} {negative : Bool} {base : Nat}
    {values : List Nat} (h : Spells t negative base values) : ∀ c ∈ t, p c := by
  obtain ⟨sign, opening, digits, rfl, hsign, hopening, -, hfigures⟩ := h
  have hbase := base_le_of_mem_openings hopening
  obtain ⟨-, hdigits⟩ := (forall₂_figure_iff hbase).mp hfigures
  have hsigns : ∀ e ∈ signs, e.1 ⊆ ['+', '-', '0', 'x', 'X', 'b', 'B'] := by decide
  have hopenings : ∀ e ∈ openings, e.1 ⊆ ['+', '-', '0', 'x', 'X', 'b', 'B'] := by decide
  rw [List.forall_iff_forall_mem] at marks
  intro c hc
  rcases List.mem_append.mp hc with hc | hc
  · rcases List.mem_append.mp hc with hc | hc
    · exact marks c (hsigns _ hsign hc)
    · exact marks c (hopenings _ hopening hc)
  · exact figures c (Nat.lt_of_lt_of_le (hdigits c hc) hbase)

theorem not_isBlank_of_spells {t : Text} {negative : Bool} {base : Nat} {values : List Nat}
    (h : Spells t negative base values) : ∀ c ∈ t, isBlank c = false :=
  forall_of_spells (by decide) (fun _ => not_isBlank_of_digitValue) h

/-- The digits of a number, small or in capitals, are read back behind its sign and an opening. -/
theorem read_rendering {n : Int} {sign opening : Text} {base : Nat} {form : Char → Char}
    (hsign : (sign, decide (n < 0)) ∈ signs) (hopening : (opening, base) ∈ openings)
    (keeps : ∀ d < 16, Numeral.digitValue (form d.digitChar) = d)
    (hshort : base = 10 → Numeral.Writable n) :
    read (sign ++ opening ++ (Nat.toDigits base n.natAbs).map form) = .ok (some n) := by
  have hbase := base_le_of_mem_openings hopening
  have hone := one_lt_of_mem_openings hopening
  have hdigits : ∀ c ∈ (Nat.toDigits base n.natAbs).map form, Numeral.digitValue c < base := by
    intro c hc
    obtain ⟨d, hd, rfl⟩ := List.mem_map.mp hc
    refine Numeral.forall_mem_toDigits (p := fun c => Numeral.digitValue (form c) < base) hone
      ?_ d hd
    intro e he
    rw [keeps e (by omega)]
    exact he
  have hspells : Spells (sign ++ opening ++ (Nat.toDigits base n.natAbs).map form)
      (decide (n < 0)) base (((Nat.toDigits base n.natAbs).map form).map Numeral.digitValue) :=
    ⟨sign, opening, _, rfl, hsign, hopening, by simp [Nat.toDigits_ne_nil],
      (forall₂_figure_iff hbase).mpr ⟨rfl, hdigits⟩⟩
  have hstrip := Text.strip_of_no_blank (not_isBlank_of_spells hspells)
  rw [← hstrip] at hspells
  rw [read_eq_some_iff]
  refine ⟨_, _, _, hspells, fun hten => ?_, ?_⟩
  · subst hten
    rw [List.length_map, List.length_map]
    exact Numeral.writable_iff_length.mp (hshort rfl)
  · have hsigned := Numeral.signed_natAbs n
    unfold number
    rw [← ofDigits_eq, Numeral.ofDigits_map_toDigits hone hbase keeps]
    simpa using hsigned.symm

theorem spells_padded {opening : Text} {base : Nat} (hopening : (opening, base) ∈ openings)
    (width n : Nat) : Spells (opening ++ Numeral.digits base width n) false base
      ((Numeral.digits base width n).map Numeral.digitValue) := by
  have hbase := base_le_of_mem_openings hopening
  have hone := one_lt_of_mem_openings hopening
  have hdigits : ∀ c ∈ Numeral.digits base width n, Numeral.digitValue c < base := by
    intro c hc
    rcases List.mem_append.mp hc with hzero | hdigit
    · have hval : Numeral.digitValue '0' = 0 := by decide
      rw [List.eq_of_mem_replicate hzero, hval]
      omega
    · obtain ⟨d, hd, rfl⟩ := List.mem_map.mp hdigit
      have hkeeps : ∀ e < base, Numeral.digitValue e.digitChar.toUpper < base := by
        intro e he
        rw [Numeral.digitValue_toUpper_digitChar (by omega)]
        exact he
      exact Numeral.forall_mem_toDigits (p := fun c => Numeral.digitValue c.toUpper < base) hone
        hkeeps d hd
  have hne : Numeral.digits base width n ≠ [] := by
    unfold Numeral.digits List.leftpad
    simp [Nat.toDigits_ne_nil]
  exact ⟨[], opening, _, rfl, by decide, hopening, hne, (forall₂_figure_iff hbase).mpr
    ⟨rfl, hdigits⟩⟩

/-- Zeros in front of digits do not count, and in base two and sixteen they may be many. -/
theorem read_padded {opening : Text} {base : Nat} (hopening : (opening, base) ∈ openings)
    (hten : base ≠ 10) (width n : Nat) :
    read (opening ++ Numeral.digits base width n) = .ok (some n) := by
  have hspells := spells_padded hopening width n
  have hvalue := Numeral.ofDigits_digits (one_lt_of_mem_openings hopening)
    (base_le_of_mem_openings hopening) width n
  rw [ofDigits_eq] at hvalue
  have hstrip := Text.strip_of_no_blank (not_isBlank_of_spells hspells)
  rw [← hstrip] at hspells
  rw [read_of_spells hspells, if_neg fun hlong => hten hlong.1]
  unfold number
  rw [if_neg (by decide), hvalue]

/--
A text is read as an integer if and only if it spells a literal between blanks, which stands for
that integer by the places of its digits. A decimal literal with too many digits is a fault, and
any other text is no literal. So a written number is read back, in decimal digits if they are not
too many, and in hexadecimal and binary digits of either letter case.
-/
theorem read_follows_grammar :
    (∀ token : Text,
      (∀ n, read token = .ok (some n) ↔
        ∃ negative base values, Spells token.strip negative base values ∧
          (base = 10 → values.length ≤ 4300) ∧ n = number negative base values) ∧
      (read token = .ok none ↔ ∀ negative base values, ¬Spells token.strip negative base values) ∧
      (∀ f, read token = .error f ↔ f = .badValue ∧
        ∃ negative values, Spells token.strip negative 10 values ∧ 4300 < values.length)) ∧
    (∀ n, Numeral.Writable n → read (toString n).toList = .ok (some n)) ∧
    (∀ n : Int, ∀ sign opening : Text, ∀ base : Nat, ∀ form ∈ [id, Char.toUpper],
      (sign, decide (n < 0)) ∈ signs → (opening, base) ∈ openings →
      (base = 10 → Numeral.Writable n) →
        read (sign ++ opening ++ (Nat.toDigits base n.natAbs).map form) = .ok (some n)) := by
  refine ⟨fun token => ⟨fun n => read_eq_some_iff, read_eq_none_iff, fun f => read_faults_iff⟩,
    fun n => Numeral.read_toString, ?_⟩
  intro n sign opening base form hform hsign hopening hshort
  refine read_rendering hsign hopening (fun d hd => ?_) hshort
  simp only [List.mem_cons, List.not_mem_nil, or_false] at hform
  rcases hform with rfl | rfl
  · exact Numeral.digitValue_digitChar hd
  · exact Numeral.digitValue_toUpper_digitChar hd

end AccMachine.Literal
