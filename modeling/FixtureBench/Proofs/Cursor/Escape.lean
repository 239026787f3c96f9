import FixtureBench.Cursor.Pointer

/-!
# Escapes in a pointer component

An escaped component has no slash, and each of its tildes starts an escape. The two replacements
that undo the escapes one after the other come to one pass from left to right,
`Pointer.decode`. So decoding undoes escaping, and escaping undoes decoding on the texts that
escaping produces.
-/

namespace FixtureBench

namespace Pointer

/-- Every tilde starts an escape. -/
def Escaped (cs : List Char) : Prop :=
  ∀ before after, cs = before ++ '~' :: after →
    after.head? = some '0' ∨ after.head? = some '1'

/-- Undo all escapes in one pass. A tilde that starts no escape stays. -/
def decode : List Char → List Char
  | '~' :: '1' :: rest => '/' :: decode rest
  | '~' :: '0' :: rest => '~' :: decode rest
  | c :: rest => c :: decode rest
  | [] => []

def escapeChar (c : Char) : List Char :=
  if c = '~' then ['~', '0'] else if c = '/' then ['~', '1'] else [c]

def encode (cs : List Char) : List Char := cs.flatMap escapeChar

theorem toList_escape (component : String) :
    (escape component).toList = encode component.toList := by
  rw [escape, String.toList_ofList, replaceChar, replaceChar, List.flatMap_assoc]
  congr 1
  funext c
  by_cases htilde : c = '~'
  · simp [escapeChar, htilde]
  · by_cases hslash : c = '/' <;> simp [escapeChar, htilde, hslash]

section Decode

theorem replacePair_cons_pair (a b out : Char) (rest : List Char) :
    replacePair a b out (a :: b :: rest) = out :: replacePair a b out rest := by
  simp [replacePair]

theorem replacePair_cons_of_ne {a x : Char} (h : x ≠ a) (b out : Char) (rest : List Char) :
    replacePair a b out (x :: rest) = x :: replacePair a b out rest := by
  cases rest <;> simp [replacePair, h]

theorem replacePair_cons_of_head? {b : Char} {rest : List Char} (h : rest.head? ≠ some b)
    (a x out : Char) : replacePair a b out (x :: rest) = x :: replacePair a b out rest := by
  cases rest with
  | nil => rfl
  | cons y rest =>
    have hne : y ≠ b := fun hy => h (congrArg some hy)
    simp [replacePair, hne]

theorem head?_replacePair {a b out c : Char} {cs : List Char} (ha : c ≠ a) (hout : c ≠ out) :
    (replacePair a b out cs).head? = some c ↔ cs.head? = some c := by
  fun_cases replacePair a b out cs with
  | case1 x y rest h => simp [h.1, ha.symm, hout.symm]
  | case2 => rfl
  | case3 => rfl

theorem decode_cons_of_ne {c : Char} (h : c ≠ '~') (rest : List Char) :
    decode (c :: rest) = c :: decode rest := by
  simp [decode, h]

/-- No replacement makes or breaks an escape of the other kind. -/
theorem unescapeChars_eq_decode (cs : List Char) : unescapeChars cs = decode cs := by
  unfold unescapeChars
  fun_induction decode cs with
  | case1 rest ih => rw [replacePair_cons_pair, replacePair_cons_of_ne (by decide), ih]
  | case2 rest ih =>
    have hzero : '0' ≠ '~' := by decide
    rw [replacePair_cons_of_head? (by simp), replacePair_cons_of_ne hzero, replacePair_cons_pair,
      ih]
  | case3 c rest h1 h0 ih =>
    by_cases hc : c = '~'
    · -- The slash that the first replacement leaves behind completes no escape of a tilde.
      have hnext1 : rest.head? ≠ some '1' :=
        mt List.head?_eq_some_iff.1 (not_exists.2 fun rest' => h1 rest' hc)
      have hnext0 : rest.head? ≠ some '0' :=
        mt List.head?_eq_some_iff.1 (not_exists.2 fun rest' => h0 rest' hc)
      have hnext : (replacePair '~' '1' '/' rest).head? ≠ some '0' :=
        mt (head?_replacePair (by decide) (by decide)).1 hnext0
      rw [replacePair_cons_of_head? hnext1, replacePair_cons_of_head? hnext, ih]
    · rw [replacePair_cons_of_ne hc, replacePair_cons_of_ne hc, ih]
  | case4 => rfl

theorem decode_encode (cs : List Char) : decode (encode cs) = cs := by
  unfold encode
  induction cs with
  | nil => rfl
  | cons c rest ih =>
    rw [List.flatMap_cons]
    by_cases htilde : c = '~'
    · simp [escapeChar, htilde, decode, ih]
    · by_cases hslash : c = '/'
      · simp [escapeChar, hslash, decode, ih]
      · simp [escapeChar, htilde, hslash, decode_cons_of_ne htilde, ih]

theorem encode_injective : Function.Injective encode :=
  Function.LeftInverse.injective decode_encode

theorem unescape_escape (component : String) : unescape (escape component) = component := by
  rw [unescape, toList_escape, unescapeChars_eq_decode, decode_encode, String.ofList_toList]

theorem encode_eq_self {cs : List Char} (h : ∀ c ∈ cs, c ≠ '~' ∧ c ≠ '/') : encode cs = cs := by
  induction cs with
  | nil => rfl
  | cons c rest ih =>
    obtain ⟨htilde, hslash⟩ := h c List.mem_cons_self
    rw [encode, List.flatMap_cons, ← encode, ih fun d hd => h d (List.mem_cons_of_mem _ hd)]
    simp [escapeChar, htilde, hslash]

theorem encode_decimal (n : Nat) : encode (toString n).toList = (toString n).toList := by
  refine encode_eq_self fun c hc => ?_
  rw [Nat.toString_eq_ofList_toDigits, String.toList_ofList] at hc
  have hdigit : c.isDigit = true := Nat.isDigit_of_mem_toDigits (by decide) (by decide) hc
  constructor <;> rintro rfl <;> cases hdigit

end Decode

section Escaped

variable {c : Char} {cs ds : List Char}

theorem escaped_nil : Escaped [] := by
  intro before after h
  simp at h

theorem escaped_cons : Escaped (c :: cs) ↔
    (c = '~' → cs.head? = some '0' ∨ cs.head? = some '1') ∧ Escaped cs := by
  constructor
  · refine fun h => ⟨?_, fun before after hcs => ?_⟩
    · rintro rfl
      exact h [] cs rfl
    · exact h (c :: before) after (by rw [hcs, List.cons_append])
  · rintro ⟨hhead, htail⟩ before after hcs
    cases before with
    | nil =>
      obtain ⟨rfl, rfl⟩ := List.cons.inj hcs
      exact hhead rfl
    | cons c' before => exact htail before after (List.cons.inj hcs).2

theorem Escaped.append (hcs : Escaped cs) (hds : Escaped ds) : Escaped (cs ++ ds) := by
  induction cs with
  | nil => exact hds
  | cons c rest ih =>
    obtain ⟨hhead, hrest⟩ := escaped_cons.1 hcs
    refine escaped_cons.2 ⟨fun hc => ?_, ih hrest⟩
    cases rest with
    | nil => simp [hc] at hhead
    | cons d rest => exact hhead hc

theorem Escaped.right (h : Escaped (cs ++ ds)) : Escaped ds :=
  fun before after hds => h (cs ++ before) after (by rw [hds, List.append_assoc])

/-- A text before something that completes no escape has complete escapes itself. -/
theorem Escaped.left (h : Escaped (cs ++ ds)) (h0 : ds.head? ≠ some '0')
    (h1 : ds.head? ≠ some '1') : Escaped cs := by
  intro before after hcs
  have hafter := h before (after ++ ds) (by rw [hcs]; simp)
  cases after with
  | nil => exact absurd hafter (not_or.2 ⟨h0, h1⟩)
  | cons d after => exact hafter

theorem escaped_encode (cs : List Char) : Escaped (encode cs) := by
  induction cs with
  | nil => exact escaped_nil
  | cons c rest ih =>
    rw [encode, List.flatMap_cons]
    refine Escaped.append ?_ ih
    by_cases htilde : c = '~'
    · simp [escapeChar, htilde, escaped_cons, escaped_nil]
    · by_cases hslash : c = '/' <;>
        simp [escapeChar, htilde, hslash, escaped_cons, escaped_nil]

theorem slash_not_mem_encode (cs : List Char) : '/' ∉ encode cs := by
  simp only [encode, List.mem_flatMap, not_exists, not_and]
  intro c _
  by_cases htilde : c = '~'
  · simp [escapeChar, htilde]
  · by_cases hslash : c = '/'
    · simp [escapeChar, hslash]
    · simp [escapeChar, htilde, hslash, Ne.symm hslash]

theorem encode_decode (h : Escaped cs) (slash : '/' ∉ cs) : encode (decode cs) = cs := by
  unfold encode
  fun_induction decode cs with
  | case1 rest ih =>
    have hrest : Escaped rest := (escaped_cons.1 (escaped_cons.1 h).2).2
    have hslash : '/' ∉ rest := fun hmem => slash (by simp [hmem])
    simp [escapeChar, ih hrest hslash]
  | case2 rest ih =>
    have hrest : Escaped rest := (escaped_cons.1 (escaped_cons.1 h).2).2
    have hslash : '/' ∉ rest := fun hmem => slash (by simp [hmem])
    simp [escapeChar, ih hrest hslash]
  | case3 c rest h1 h0 ih =>
    obtain ⟨hstart, hrest⟩ := escaped_cons.1 h
    have hslash : '/' ≠ c := List.ne_of_not_mem_cons slash
    have htilde : c ≠ '~' := by
      intro hc
      rcases hstart hc with hnext | hnext
      · obtain ⟨rest', hrest'⟩ := List.head?_eq_some_iff.1 hnext
        exact h0 rest' hc hrest'
      · obtain ⟨rest', hrest'⟩ := List.head?_eq_some_iff.1 hnext
        exact h1 rest' hc hrest'
    simp [escapeChar, htilde, hslash.symm, ih hrest (List.not_mem_of_not_mem_cons slash)]
  | case4 => rfl

end Escaped

theorem escape_unescape_iff {text : String} :
    escape (unescape text) = text ↔ '/' ∉ text.toList ∧ Escaped text.toList := by
  constructor
  · intro h
    rw [← h, toList_escape]
    exact ⟨slash_not_mem_encode _, escaped_encode _⟩
  · rintro ⟨slash, hescaped⟩
    rw [← String.toList_inj, toList_escape, unescape, String.toList_ofList, unescapeChars_eq_decode,
      encode_decode hescaped slash]

/-- The two replacements that undo the escapes decode every text in one pass. What is written for a
component has no slash and no tilde but those that start an escape, and decodes to the component;
every such text is written for what it decodes to. -/
theorem unescape_one_pass :
    (∀ text : String, unescape text = String.ofList (decode text.toList)) ∧
    (∀ component : String, '/' ∉ (escape component).toList ∧ Escaped (escape component).toList ∧
      unescape (escape component) = component) ∧
    ∀ text : String, escape (unescape text) = text ↔ '/' ∉ text.toList ∧ Escaped text.toList := by
  refine ⟨fun text => ?_, fun component => ⟨?_, ?_, unescape_escape component⟩,
    fun text => escape_unescape_iff⟩
  · rw [unescape, unescapeChars_eq_decode]
  · rw [toList_escape]
    exact slash_not_mem_encode component.toList
  · rw [toList_escape]
    exact escaped_encode component.toList

/-- A tilde before an escape stays, and neither replacement reads what the other has written. -/
example : unescape "~~1~01~~0/~" = "~/~1~~/~" := by decide +kernel

end Pointer

end FixtureBench
