import FixtureBench.Random.Token

/-!
# Expansions of tokens

What a token expands to, for each kind of token, from what its parts expand to. The template of a
word expands to lower-case ASCII letters, and their number lies between the bounds of the template;
a word with a limit has a letter even if the limit is zero.
-/

namespace FixtureBench

namespace Token

/-- A word of at most `most` letters, and at least one. -/
structure IsWord (most : Nat) (text : String) : Prop where
  nonempty : 1 ≤ text.length
  bounded : text.length ≤ max 1 most
  letters : ∀ c ∈ text.toList, c.isLower = true

theorem canYield_expand {token : Token} {text : String} :
    token.expand.CanYield text ↔ token.expandChars.CanYield text.toList := by
  simp only [expand, Draw.canYield_bind, Draw.canYield_pure]
  constructor
  · rintro ⟨cs, hcs, rfl⟩
    rwa [String.toList_ofList]
  · intro h
    exact ⟨text.toList, h, (String.ofList_toList).symm⟩

theorem charOfCode_of_valid {code : Nat} (h : code.isValidChar) :
    (charOfCode code).toNat = code := by
  rw [charOfCode, if_pos h, Char.ofNat, dif_pos h]
  rfl

theorem charOfCode_toNat (c : Char) : charOfCode c.toNat = c := by
  have hvalid : c.toNat.isValidChar := c.valid
  rw [charOfCode, if_pos hvalid, Char.ofNat_toNat]

/-- A character between two code points, or the replacement character if one of the code points
between them is no character. -/
def InRange (first last : Nat) (c : Char) : Prop :=
  (min first last ≤ c.toNat ∧ c.toNat ≤ max first last) ∨
    c = '\uFFFD' ∧ ∃ code, min first last ≤ code ∧ code ≤ max first last ∧ ¬ code.isValidChar

theorem canYield_drawChar {first last : Nat} {c : Char} :
    (drawChar first last).CanYield c ↔ InRange first last c := by
  rw [drawChar, Draw.canYield_bind]
  constructor
  · rintro ⟨⟨code, hlo, hhi⟩, -, hc⟩
    obtain rfl : c = charOfCode code := Draw.canYield_pure.1 hc
    by_cases hvalid : code.isValidChar
    · left
      rw [charOfCode_of_valid hvalid]
      exact ⟨hlo, hhi⟩
    · right
      exact ⟨if_neg hvalid, code, hlo, hhi, hvalid⟩
  · rintro (hbounds | ⟨rfl, code, hlo, hhi, hvalid⟩)
    · exact ⟨⟨c.toNat, hbounds⟩, Draw.canYield_natural _,
        Draw.canYield_pure.2 (charOfCode_toNat c).symm⟩
    · exact ⟨⟨code, hlo, hhi⟩, Draw.canYield_natural _, Draw.canYield_pure.2 (if_neg hvalid).symm⟩

theorem canYield_drawChar_letter {c : Char} :
    (drawChar 'a'.toNat 'z'.toNat).CanYield c ↔ c.isLower = true := by
  have hlower : c.isLower = true ↔ 97 ≤ c.toNat ∧ c.toNat ≤ 122 := by
    change (decide (97 ≤ c.val) && decide (c.val ≤ 122)) = true ↔ _
    rw [Bool.and_eq_true, decide_eq_true_iff, decide_eq_true_iff]
    exact and_congr UInt32.le_iff_toNat_le UInt32.le_iff_toNat_le
  have hvalid : ¬ ∃ code, 97 ≤ code ∧ code ≤ 122 ∧ ¬ code.isValidChar := by
    rintro ⟨code, -, hhi, hinvalid⟩
    exact hinvalid (.inl (by omega))
  rw [canYield_drawChar, hlower]
  exact or_iff_left fun h => hvalid h.2

theorem canYield_expandChars_letter {cs : List Char} :
    (charRange 'a'.toNat 'z'.toNat 1).expandChars.CanYield cs ↔
      ∃ c : Char, c.isLower = true ∧ cs = [c] := by
  rw [charRange, expandChars, Draw.canYield_replicate, List.length_eq_one_iff]
  constructor
  · rintro ⟨⟨c, rfl⟩, h⟩
    exact ⟨c, canYield_drawChar_letter.1 (h c List.mem_cons_self), rfl⟩
  · rintro ⟨c, hc, rfl⟩
    exact ⟨⟨c, rfl⟩, List.forall_mem_singleton.2 (canYield_drawChar_letter.2 hc)⟩

/-- A repeated token expands to the parts of its repetitions, one after another. -/
theorem canYield_expandChars_repeated {a b : Nat} {token : Token} {cs : List Char} :
    (repeated (a, b) token).expandChars.CanYield cs ↔
      ∃ parts : List (List Char), (min a b ≤ parts.length ∧ parts.length ≤ max a b) ∧
        (∀ part ∈ parts, token.expandChars.CanYield part) ∧ cs = parts.flatten := by
  simp only [expandChars, Draw.canYield_bind, Draw.canYield_pure, Draw.canYield_replicate]
  constructor
  · rintro ⟨⟨times, hbounds⟩, -, parts, ⟨hlength, hparts⟩, hcs⟩
    change parts.length = times at hlength
    subst hlength
    exact ⟨parts, hbounds, hparts, hcs⟩
  · rintro ⟨parts, hbounds, hparts, hcs⟩
    exact ⟨⟨parts.length, hbounds⟩, Draw.canYield_natural _, parts, ⟨rfl, hparts⟩, hcs⟩

theorem canYield_expandChars_word {least most : Nat} {cs : List Char} :
    (word least most).expandChars.CanYield cs ↔
      (min least most ≤ cs.length ∧ cs.length ≤ max least most) ∧ ∀ c ∈ cs, c.isLower = true := by
  simp only [word, repeatedBetween, canYield_expandChars_repeated, canYield_expandChars_letter]
  constructor
  · rintro ⟨letters, ⟨hlo, hhi⟩, hletters, rfl⟩
    have hsizes : letters.map List.length = List.replicate letters.length 1 := by
      apply List.map_eq_replicate_iff.2
      intro letter hletter
      obtain ⟨c, -, rfl⟩ := hletters letter hletter
      rfl
    have hlength : letters.flatten.length = letters.length := by
      rw [List.length_flatten, hsizes]
      simp
    refine ⟨by omega, ?_⟩
    simp only [List.mem_flatten]
    rintro c ⟨letter, hletter, hc⟩
    obtain ⟨c', hlower, rfl⟩ := hletters letter hletter
    rwa [List.mem_singleton.1 hc]
  · rintro ⟨hlength, hletters⟩
    refine ⟨cs.map ([·]), ?_, ?_, ?_⟩
    · rw [List.length_map]
      omega
    · exact List.forall_mem_map.2 fun c hc => ⟨c, hletters c hc, rfl⟩
    · rw [← List.flatMap_def, List.flatMap_singleton']

theorem canYield_expand_word {most : Nat} {text : String} :
    (word 1 (max most 1)).expand.CanYield text ↔ IsWord most text := by
  rw [canYield_expand, canYield_expandChars_word, String.length_toList]
  constructor
  · rintro ⟨⟨hlo, hhi⟩, hletters⟩
    exact ⟨by omega, by omega, hletters⟩
  · rintro ⟨hlo, hhi, hletters⟩
    exact ⟨⟨by omega, by omega⟩, hletters⟩

theorem expandAt_eq {tokens : List Token} {i : Nat} (hi : i < tokens.length) :
    expandAt tokens i = tokens[i].expandChars := by
  induction tokens generalizing i with
  | nil => cases hi
  | cons token rest ih =>
    cases i with
    | zero => rfl
    | succ i => exact ih (Nat.lt_of_succ_lt_succ hi)

theorem canYield_expandChars_oneOf {tokens : List Token} {cs : List Char} (nonempty : tokens ≠ []) :
    (oneOf tokens).expandChars.CanYield cs ↔ ∃ token ∈ tokens, token.expandChars.CanYield cs := by
  rw [expandChars, dif_pos (List.length_pos_iff.2 nonempty), Draw.canYield_bind]
  constructor
  · rintro ⟨i, -, h⟩
    rw [expandAt_eq i.isLt] at h
    exact ⟨tokens[i], List.getElem_mem i.isLt, h⟩
  · rintro ⟨token, htoken, h⟩
    obtain ⟨i, hi, rfl⟩ := List.mem_iff_getElem.1 htoken
    refine ⟨⟨i, hi⟩, Draw.canYield_position _, ?_⟩
    rwa [expandAt_eq hi]

end Token

end FixtureBench
