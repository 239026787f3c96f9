import FixtureBench.Cursor.Step

/-!
# The two readings of a step

The texts that spell an index are the decimals of the numbers below `2 ^ 64`, one for each. So the
index that a step addresses can be told from its key, and the key from the index.
-/

namespace FixtureBench

namespace Step

theorem digitChar_digit {c : Char} (h : c.isDigit = true) :
    Nat.digitChar (c.toNat - '0'.toNat) = c ∧ c.toNat - '0'.toNat < 10 := by
  have hbounds : 48 ≤ c.toNat ∧ c.toNat ≤ 57 := by
    simpa [Char.isDigit, UInt32.le_iff_toNat_le] using h
  have hlt : c.toNat - 48 < 10 := by omega
  refine ⟨Char.toNat_inj.1 ?_, hlt⟩
  change (Nat.digitChar (c.toNat - 48)).toNat = c.toNat
  rw [Nat.toNat_digitChar_of_lt_ten hlt]
  omega

/-- Digits that follow the decimal of a positive number make the decimal of a number. -/
theorem toDigits_ofDigitChars {digits : List Char} (h : ∀ c ∈ digits, c.isDigit = true) {n : Nat}
    (hn : 0 < n) :
    Nat.toDigits 10 (Nat.ofDigitChars 10 digits n) = Nat.toDigits 10 n ++ digits := by
  induction digits generalizing n with
  | nil => simp
  | cons c rest ih =>
    obtain ⟨hchar, hlt⟩ := digitChar_digit (h c List.mem_cons_self)
    have hpos : 0 < 10 * n + (c.toNat - '0'.toNat) := by omega
    rw [Nat.ofDigitChars_cons, ih (fun d hd => h d (List.mem_cons_of_mem _ hd)) hpos,
      ← Nat.toDigits_append_toDigits (by decide) hn hlt, Nat.toDigits_of_lt_base hlt, hchar]
    simp

theorem toDigits_ofDigitChars_cons {c : Char} {digits : List Char} (hc : c ≠ '0')
    (h : ∀ d ∈ c :: digits, d.isDigit = true) :
    Nat.toDigits 10 (Nat.ofDigitChars 10 (c :: digits) 0) = c :: digits := by
  obtain ⟨hchar, hlt⟩ := digitChar_digit (h c List.mem_cons_self)
  have hpos : 0 < c.toNat - '0'.toNat := by
    rcases Nat.eq_zero_or_pos (c.toNat - '0'.toNat) with hzero | hpos
    · rw [hzero] at hchar
      exact absurd hchar.symm hc
    · exact hpos
  rw [Nat.ofDigitChars_cons, Nat.mul_zero, Nat.zero_add,
    toDigits_ofDigitChars (fun d hd => h d (List.mem_cons_of_mem _ hd)) hpos,
    Nat.toDigits_of_lt_base hlt, hchar, List.singleton_append]

theorem head?_toDigits {n : Nat} (hn : 0 < n) : (Nat.toDigits 10 n).head? ≠ some '0' := by
  induction n using Nat.strongRecOn with
  | ind n ih =>
    by_cases hlt : n < 10
    · have hne : n ≠ 0 := Nat.ne_of_gt hn
      rw [Nat.toDigits_of_lt_base hlt]
      simpa [Nat.digitChar_eq_zero] using hne
    · have hdiv := ih (n / 10) (by omega) (by omega)
      rw [Nat.toDigits_of_base_le (by decide) (by omega), List.head?_append]
      cases hhead : (Nat.toDigits 10 (n / 10)).head? with
      | none => exact absurd (List.head?_eq_none_iff.1 hhead) Nat.toDigits_ne_nil
      | some c =>
        rw [hhead] at hdiv
        exact hdiv

/-- The canonical decimals are the texts of numbers. -/
theorem isIndexText_iff {text : String} :
    isIndexText text = true ↔ text = toString (Nat.ofDigitChars 10 text.toList 0) := by
  rw [Nat.toString_eq_ofList_toDigits, ← String.toList_inj, String.toList_ofList, isIndexText]
  generalize text.toList = digits
  split
  · simp
  · exact iff_of_true rfl rfl
  · -- A zero comes first in the decimal of zero only, which has no other digit.
    rename_i rest hrest
    refine iff_of_false Bool.false_ne_true fun heq => ?_
    rcases Nat.eq_zero_or_pos (Nat.ofDigitChars 10 ('0' :: rest) 0) with hzero | hpos
    · rw [hzero, Nat.toDigits_zero] at heq
      exact hrest (List.cons.inj heq).2
    · exact head?_toDigits hpos (heq ▸ rfl)
  · rename_i hnil hzero hlead
    rw [List.all_eq_true]
    constructor
    · intro h
      cases digits with
      | nil => exact absurd rfl hnil
      | cons c rest =>
        have hc : c ≠ '0' := fun hc => hlead rest (hc ▸ rfl)
        exact (toDigits_ofDigitChars_cons hc h).symm
    · intro heq c hc
      rw [heq] at hc
      exact Nat.isDigit_of_mem_toDigits (by decide) (by decide) hc

theorem ofDigitChars_toString (n : Nat) : Nat.ofDigitChars 10 (toString n).toList 0 = n := by
  rw [Nat.toString_eq_ofList_toDigits, String.toList_ofList, Nat.ofDigitChars_ten_toDigits]

theorem isIndexText_iff_exists {text : String} :
    isIndexText text = true ↔ ∃ n : Nat, text = toString n := by
  rw [isIndexText_iff]
  constructor
  · intro htext
    exact ⟨_, htext⟩
  · rintro ⟨n, rfl⟩
    rw [ofDigitChars_toString]

/-- A text spells at most one index, and an index is spelled by its decimal. -/
theorem indexOfText?_eq_some {text : String} {n : Nat} :
    indexOfText? text = some n ↔ n < UInt64.size ∧ text = toString n := by
  simp only [indexOfText?, Option.ite_none_right_eq_some, Bool.and_eq_true, decide_eq_true_eq,
    isIndexText_iff, Option.some.injEq]
  constructor
  · rintro ⟨⟨htext, hlt⟩, rfl⟩
    exact ⟨hlt, htext⟩
  · rintro ⟨hlt, rfl⟩
    rw [ofDigitChars_toString]
    exact ⟨⟨rfl, hlt⟩, rfl⟩

/-- The index that a step addresses is the one that its key spells. -/
theorem asIndex?_eq (s : Step) : s.asIndex? = indexOfText? s.asKey := by
  cases s with
  | index i => exact (indexOfText?_eq_some.2 ⟨i.toNat_lt_size, rfl⟩).symm
  | key k => rfl

theorem asIndex?_eq_some {s : Step} {n : Nat} :
    s.asIndex? = some n ↔ n < UInt64.size ∧ s.asKey = toString n := by
  rw [asIndex?_eq, indexOfText?_eq_some]

/-- The steps that address no index are the keys that spell none. -/
theorem asIndex?_eq_none {s : Step} :
    s.asIndex? = none ↔ ∃ key, s = .key key ∧ ∀ n < UInt64.size, key ≠ toString n := by
  cases s with
  | index i => simp [asIndex?]
  | key k =>
    rw [Option.eq_none_iff_forall_ne_some]
    simp only [ne_eq, asIndex?_eq_some, asKey, Step.key.injEq, exists_eq_left', not_and]

theorem asIndex?_eq_some_toNat {s : Step} {n : UInt64} :
    s.asIndex? = some n.toNat ↔ s.asKey = toString n.toNat := by
  rw [asIndex?_eq_some]
  exact and_iff_right n.toNat_lt_size

theorem asIndex?_eq_none_iff_asKey {s : Step} :
    s.asIndex? = none ↔ ∀ n : UInt64, s.asKey ≠ toString n.toNat := by
  rw [Option.eq_none_iff_forall_ne_some]
  constructor
  · intro h n hkey
    exact h n.toNat (asIndex?_eq_some_toNat.2 hkey)
  · intro h n hindex
    obtain ⟨hlt, hkey⟩ := asIndex?_eq_some.1 hindex
    apply h (UInt64.ofNat n)
    rwa [UInt64.toNat_ofNat_of_lt' hlt]

theorem asKey_eq_of_asIndex? {s t : Step} {n : Nat} (hs : s.asIndex? = some n)
    (ht : t.asIndex? = some n) : s.asKey = t.asKey := by
  rw [(asIndex?_eq_some.1 hs).2, (asIndex?_eq_some.1 ht).2]

end Step

end FixtureBench
