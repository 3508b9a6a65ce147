import AccMachine.Proofs.AssemblyErrors

namespace AccMachine

def listing (words : List Word) : String := "\n".intercalate (words.map disassemble)

def unknownMark : Text := "???".toList

def listingTokens (w : Word) : List Text :=
  match Operation.ofWord? w with
  | none => [unknownMark, w.hex.toList]
  | some o =>
    if o.takesOperand then
      [o.mnemonic.toList, (toString (w &&& o.operandMask).toNat).toList]
    else [o.mnemonic.toList]

def relisted (w : Word) : Except LineError Int :=
  if (decode w).known then .ok w.toNat else .error (.unknownCommand unknownMark)

namespace Operation

@[simp] theorem upper_mnemonic (o : Operation) :
    Text.upper o.mnemonic.toList = o.mnemonic.toList := by
  cases o <;> rfl

theorem encode_operand {w : Word} {o : Operation} (h : ofWord? w = some o) :
    o.encode (w &&& o.operandMask).toNat = w := by
  have hbase : w &&& ~~~o.operandMask = o.base :=
    and_not_mask_eq_base_iff.mpr (ofWord?_eq_some_iff.mp h)
  unfold encode
  rw [Word.ofInt_toNat, BitVec.and_assoc, BitVec.and_self, ← hbase]
  ext i hi
  simp only [BitVec.getElem_or, BitVec.getElem_and, BitVec.getElem_not]
  cases w[i] <;> cases o.operandMask[i] <;> rfl

theorem base_of_no_operand {w : Word} {o : Operation} (h : ofWord? w = some o)
    (ht : ¬ o.takesOperand) : o.base = w := by
  rw [← encode_of_no_operand ht (w &&& o.operandMask).toNat, encode_operand h]

end Operation

theorem toList_disassemble (w : Word) :
    (disassemble w).toList = [' '].intercalate (listingTokens w) := by
  have hoperation : (decode w).operation = Operation.ofWord? w := rfl
  unfold disassemble Instruction.listing listingTokens
  rw [hoperation]
  cases h : Operation.ofWord? w with
  | none =>
    dsimp only
    rw [String.toList_append, List.intercalate_cons_cons, List.intercalate_singleton]
    rfl
  | some o =>
    dsimp only
    split
    next ht =>
      rw [operand_decode h ht]
      simp [toString, String.toList_append]
    next => simp

theorem tokenChar_of_all {s : Text} (h : s.all fun c => TokenChar c) : ∀ c ∈ s, TokenChar c := by
  simpa using h

theorem tokenChar_of_mem_hex {w : Word} {c : Char} (h : c ∈ w.hex.toList) : TokenChar c := by
  have hdigit : ∀ d < 16, TokenChar d.digitChar.toUpper := by decide
  unfold Word.hex Word.hexDigits at h
  rw [String.toList_append] at h
  rcases List.mem_append.mp h with hbase | hpadded
  · exact tokenChar_of_all (by decide) c hbase
  · rw [Numeral.toList_padded, Numeral.digits, List.leftpad, List.mem_append] at hpadded
    rcases hpadded with hzero | hmem
    · rw [List.eq_of_mem_replicate hzero]
      decide
    · obtain ⟨d, hd, rfl⟩ := List.mem_map.mp hmem
      exact @Numeral.forall_mem_toDigits 16 (fun d => TokenChar d.toUpper) (by decide) hdigit
        w.toNat d hd

theorem tokenChar_of_mem_toString {n : Nat} {c : Char} (h : c ∈ (toString n).toList) :
    TokenChar c := by
  rcases @Numeral.mem_toString n c h with rfl | hdigit
  · decide
  · exact @Numeral.forall_isDigit TokenChar (by decide) c hdigit

theorem toString_ne_nil (n : Nat) : (toString n).toList ≠ [] := by
  have h := Numeral.toList_toString n
  rw [if_neg (by omega)] at h
  exact h ▸ Nat.toDigits_ne_nil

theorem mnemonic_plain (o : Operation) :
    o.mnemonic.toList ≠ [] ∧ ∀ c ∈ o.mnemonic.toList, TokenChar c := by
  have hall : ∀ o ∈ Operation.all,
      o.mnemonic.toList ≠ [] ∧ o.mnemonic.toList.all fun c => TokenChar c := by decide +kernel
  exact (hall o o.mem_all).imp_right tokenChar_of_all

theorem listingTokens_plain {w : Word} :
    ∀ token ∈ listingTokens w, token ≠ [] ∧ ∀ c ∈ token, TokenChar c := by
  unfold listingTokens
  split
  next =>
    have hmark : unknownMark ≠ [] ∧ ∀ c ∈ unknownMark, TokenChar c :=
      ⟨by decide, tokenChar_of_all (by decide)⟩
    refine List.forall_mem_cons.mpr ⟨hmark, List.forall_mem_singleton.mpr ⟨?_, ?_⟩⟩
    · simp [Word.hex]
    · exact fun c => tokenChar_of_mem_hex
  next o _ =>
    split
    next =>
      refine List.forall_mem_cons.mpr ⟨mnemonic_plain o, List.forall_mem_singleton.mpr ⟨?_, ?_⟩⟩
      · exact toString_ne_nil _
      · exact fun c => tokenChar_of_mem_toString
    next => exact List.forall_mem_singleton.mpr (mnemonic_plain o)

theorem listingTokens_unblank {w : Word} :
    ∀ token ∈ listingTokens w, token ≠ [] ∧ ∀ c ∈ token, isBlank c = false := by
  intro token h
  obtain ⟨hne, hchars⟩ := listingTokens_plain token h
  exact ⟨hne, fun c hc => (hchars c hc).1⟩

theorem words_disassemble (w : Word) : Text.words (disassemble w).toList = listingTokens w := by
  rw [toList_disassemble, Text.words_intercalate listingTokens_unblank]

theorem plainLine_disassemble (w : Word) : PlainLine (disassemble w).toList where
  ne_nil := by
    intro hnil
    have hwords := words_disassemble w
    rw [hnil] at hwords
    unfold listingTokens at hwords
    split at hwords
    next => cases hwords
    next => split at hwords <;> cases hwords
  marks c hc := by
    rw [toList_disassemble] at hc
    rcases Text.mem_intercalate hc with hsep | ⟨token, htoken, hmem⟩
    · rw [List.mem_singleton.mp hsep]
      decide
    · obtain ⟨hblank, hsemicolon, -⟩ := (listingTokens_plain token htoken).2 c hmem
      exact ⟨Text.not_isLineBreak_of_not_isBlank hblank, hsemicolon⟩
  strip_eq := by rw [toList_disassemble, Text.strip_intercalate listingTokens_unblank]
  unlabelled hc := by
    rw [toList_disassemble] at hc
    rcases Text.mem_intercalate hc with hsep | ⟨token, htoken, hmem⟩
    · cases List.mem_singleton.mp hsep
    · exact ((listingTokens_plain token htoken).2 ':' hmem).2.2 rfl

theorem writable_toNat (w : Word) : Numeral.Writable w.toNat :=
  Numeral.writable_of_natAbs_lt w.isLt

theorem operandValue_toString (w : Word) :
    operandValue [] (toString w.toNat).toList = .ok (some w.toNat) :=
  @Numeral.read_toString w.toNat (writable_toNat w)

theorem encodeBody_disassemble (w : Word) :
    encodeBody [] (disassemble w).toList = .ok (relisted w) := by
  have hwords := words_disassemble w
  unfold listingTokens at hwords
  unfold relisted Instruction.known decode
  cases h : Operation.ofWord? w with
  | none =>
    rw [h] at hwords
    have hplain : ∀ o : Operation, Text.upper unknownMark ≠ o.mnemonic.toList := by
      intro o
      cases o <;> decide
    rw [encodeBody_of_plain hwords hplain]
    rfl
  | some o =>
    rw [h] at hwords
    dsimp only at hwords ⊢
    split at hwords
    next ht =>
      rw [encodeBody_of_mnemonic hwords o.upper_mnemonic, encodeOperation, if_pos ht]
      rw [operandValue_toString]
      change Except.ok (Except.ok ((o.encode (w &&& o.operandMask).toNat).toNat : Int)) = _
      rw [Operation.encode_operand h]
      rfl
    next ht =>
      rw [encodeBody_of_mnemonic hwords o.upper_mnemonic, encodeOperation, if_neg ht,
        Operation.base_of_no_operand h ht]
      rfl

theorem toList_listing (ws : List Word) :
    (listing ws).toList = ['\n'].intercalate (ws.map fun w => (disassemble w).toList) := by
  unfold listing
  rw [String.toList_intercalate, List.map_map]
  rfl

theorem assemble_listing (ws : List Word) : ∃ a, assemble (listing ws).toList = .ok a ∧
    a.labels = [] ∧ a.redefinitions = #[] ∧
    a.image.toList = (ws.map relisted).filterMap Except.toOption ∧
    a.errors.toList = numberedErrors 1 (ws.map relisted) := by
  rw [toList_listing]
  apply assemble_of_plain
  · simpa using fun w _ => plainLine_disassemble w
  · rw [List.map_map, List.map_map]
    exact List.map_congr_left fun w _ => encodeBody_disassemble w

theorem words_relisted (ws : List Int) :
    ((ws.map Word.ofInt).map relisted).filterMap Except.toOption =
      (ws.filter fun w => (decode (Word.ofInt w)).known).map (· % 65536) := by
  induction ws with
  | nil => rfl
  | cons w ws ih =>
    rw [List.map_cons, List.map_cons, List.filterMap_cons, ih, List.filter_cons]
    unfold relisted
    cases (decode (Word.ofInt w)).known with
    | false => rfl
    | true => exact congrArg (· :: _) (Word.toNat_ofInt w)

theorem message_unknown (i : Nat) : (NumberedError.mk i (.unknownCommand unknownMark)).message =
    s!"Erro linha {i}: Comando desconhecido '???'" := by
  change "Erro linha " ++ toString i ++ ": " ++ "Comando desconhecido '???'" = _
  rw [String.append_assoc]
  rfl

theorem messages_relisted (n : Nat) (ws : List Int) :
    (numberedErrors n ((ws.map Word.ofInt).map relisted)).map (·.message) =
      ((ws.zipIdx n).filter fun e => !(decode (Word.ofInt e.1)).known).map
        fun e => s!"Erro linha {e.2}: Comando desconhecido '???'" := by
  induction ws generalizing n with
  | nil => rfl
  | cons w ws ih =>
    rw [List.map_cons, List.map_cons, numberedErrors_cons, List.map_append, ih, List.zipIdx_cons,
      List.filter_cons]
    unfold relisted
    dsimp only
    cases (decode (Word.ofInt w)).known with
    | false => exact congrArg (· :: _) (message_unknown n)
    | true => rfl

/--
The lines of any integers are assembled to the words among them that carry an operation, with one
error for each other word in its place.
-/
theorem listing_reassembles (ws : List Int) :
    ∃ a, assemble (listing (ws.map Word.ofInt)).toList = .ok a ∧
      a.labels = [] ∧ a.warnings = [] ∧
      a.image.toList = (ws.filter fun w => (decode (Word.ofInt w)).known).map (· % 65536) ∧
      a.errorMessages = (((ws.zipIdx 1).filter fun e => !(decode (Word.ofInt e.1)).known).map
        fun e => s!"Erro linha {e.2}: Comando desconhecido '???'") ∧
      ((∀ w ∈ ws, (decode (Word.ofInt w)).known) →
        a.ok ∧ a.image.toList = ws.map (· % 65536)) := by
  obtain ⟨a, h, hlabels, hredefs, himage, herrors⟩ := assemble_listing (ws.map Word.ofInt)
  rw [words_relisted] at himage
  have hmessages := messages_relisted 1 ws
  rw [← herrors] at hmessages
  refine ⟨a, h, hlabels, ?_, himage, hmessages, fun hknown => ⟨?_, ?_⟩⟩
  · unfold Assembly.warnings
    rw [hredefs]
    rfl
  · have hnone : (ws.zipIdx 1).filter (fun e => !(decode (Word.ofInt e.1)).known) = [] := by
      rw [List.filter_eq_nil_iff]
      rintro ⟨w, i⟩ hmem
      simpa using hknown w (List.fst_mem_of_mem_zipIdx hmem)
    rw [hnone, List.map_nil, List.map_eq_nil_iff, Array.toList_eq_nil_iff] at hmessages
    unfold Assembly.ok
    rw [hmessages]
    rfl
  · rw [himage, List.filter_eq_self.mpr hknown]

theorem disassemble_injective : Function.Injective disassemble := by
  intro w w' h
  have hbody : relisted w = relisted w' := by
    have hencoded := encodeBody_disassemble w
    rw [h, encodeBody_disassemble] at hencoded
    exact (Except.ok.inj hencoded).symm
  have htokens : listingTokens w = listingTokens w' := by
    rw [← words_disassemble, h, words_disassemble]
  unfold relisted Instruction.known decode at hbody
  unfold listingTokens at htokens
  cases ho : Operation.ofWord? w with
  | some o =>
    cases ho' : Operation.ofWord? w' with
    | some o' =>
      rw [ho, ho'] at hbody
      exact BitVec.eq_of_toNat_eq (Int.ofNat.inj (Except.ok.inj hbody))
    | none =>
      rw [ho, ho'] at hbody
      cases hbody
  | none =>
    cases ho' : Operation.ofWord? w' with
    | some o' =>
      rw [ho, ho'] at hbody
      cases hbody
    | none =>
      -- Neither line is assembled, but both show all digits of their words.
      rw [ho, ho'] at htokens
      have hhex : w.hex = w'.hex := String.toList_inj.mp (by simpa using htokens)
      have hdigits : w.hexDigits = w'.hexDigits := by simpa [Word.hex] using hhex
      exact BitVec.eq_of_toNat_eq (Numeral.padded_injective (by decide) (by decide) 4 hdigits)

end AccMachine
