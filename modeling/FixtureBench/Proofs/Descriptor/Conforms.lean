import FixtureBench.Proofs.Descriptor.Random
import FixtureBench.Proofs.PropValue
import FixtureBench.Proofs.Random.Complete
import FixtureBench.Proofs.Random.Token

/-!
# The form of random values

`Descriptor.Conforms` lists what a type asks of its random values, down to its scalars: nulls only
where a value may be missing, lists and objects within the limit, every declared field and no other.
What the scalars ask for is a parameter, and whatever they ask of the values that are drawn for
them, a drawn value conforms to its type. `RandomOptions.Suits` is what the scalars ask for by their
names: words, markup, numbers, and documents that do not exceed the limit.
-/

namespace FixtureBench

namespace Descriptor

mutual

/-- The value is one that a type asks for. `present` says that it is already decided not to be
null. -/
inductive Conforms (o : RandomOptions) (asked : Scalar → PropValue → Prop) :
    Descriptor → Bool → PropValue → Prop where
  | bare {v : Validator} {present : Bool} : Conforms o asked (.bare v) present .null
  | missing {form : TypeForm Descriptor} {source : Option Validator} :
      Conforms o asked (.typed form false source) false .null
  | typed {form : TypeForm Descriptor} {required : Bool} {source : Option Validator}
      {present : Bool} {value : PropValue} (fits : Fits o asked form value) :
      Conforms o asked (.typed form required source) present value

inductive Fits (o : RandomOptions) (asked : Scalar → PropValue → Prop) :
    TypeForm Descriptor → PropValue → Prop where
  | scalar {s : Scalar} {value : PropValue} (h : asked s value) : Fits o asked (.scalar s) value
  | shape {fields : Keyed Descriptor} {members : Props} (names : members.keys = fields.keys)
      (each : ∀ e ∈ fields.values.zip members.values, Conforms o asked e.1 false e.2) :
      Fits o asked (.shape fields) (.obj members)
  | arrayOf {item : Descriptor} {items : List PropValue} (length : items.length ≤ o.maxItems)
      (each : ∀ value ∈ items, Conforms o asked item false value) :
      Fits o asked (.arrayOf item) (.arr items)
  | objectOf {entry : Descriptor} {members : Props} (size : members.size ≤ o.maxItems)
      (distinct : members.Distinct)
      (words : ∀ key ∈ members.keys, Token.IsWord o.maxStringLength key)
      (each : ∀ value ∈ members.values, Conforms o asked entry false value) :
      Fits o asked (.objectOf entry) (.obj members)
  | instanceOf {expected : ClassRef} : Fits o asked (.instanceOf expected) .null
  | oneOf {literals : List PropValue} {value : PropValue} (h : value ∈ literals) :
      Fits o asked (.oneOf literals) value
  | noLiteral : Fits o asked (.oneOf []) .null
  /-- The chosen alternative is present even if it is optional. -/
  | oneOfType {alternatives : List Descriptor} {d : Descriptor} {value : PropValue}
      (h : d ∈ alternatives) (conforms : Conforms o asked d true value) :
      Fits o asked (.oneOfType alternatives) value
  | noAlternative : Fits o asked (.oneOfType []) .null

end

end Descriptor

namespace RandomOptions

variable {o : RandomOptions} {value : PropValue}

theorem drawLength_le {n : Nat} (h : o.drawLength.CanYield n) : n ≤ o.maxItems := by
  rw [drawLength, Draw.canYield_bind] at h
  obtain ⟨⟨length, least, most⟩, -, hn⟩ := h
  rwa [Draw.canYield_pure.1 hn]

end RandomOptions

namespace Descriptor

variable {o : RandomOptions} {asked : Scalar → PropValue → Prop} {value : PropValue}

/-- If its parts conform, what is drawn for a form fits it. -/
theorem fits_drawForm {form : TypeForm Descriptor}
    (scalars : ∀ s value, (o.drawScalar s).CanYield value → asked s value)
    (parts : ∀ d ∈ form.parts, ∀ present value, (d.drawPresent o present).CanYield value →
      d.Conforms o asked present value)
    (h : (drawForm o form).CanYield value) : Fits o asked form value := by
  cases form with
  | scalar s => exact .scalar (scalars s value h)
  | shape fields =>
    simp only [drawForm, Draw.canYield_bind, Draw.canYield_pure] at h
    obtain ⟨pairs, hpairs, rfl⟩ := h
    obtain ⟨hnames, -, hzip⟩ := drawFields_spec hpairs
    refine .shape hnames fun e he => ?_
    exact parts e.1 (List.of_mem_zip he).1 false e.2 (hzip e he)
  | arrayOf item =>
    simp only [drawForm, Draw.canYield_bind, Draw.canYield_pure, Draw.canYield_replicate] at h
    obtain ⟨length, hlength, items, ⟨hitems, hyield⟩, rfl⟩ := h
    refine .arrayOf (hitems ▸ RandomOptions.drawLength_le hlength) fun value hvalue => ?_
    exact parts item List.mem_cons_self false value (hyield value hvalue)
  | objectOf entry =>
    simp only [drawForm, Draw.canYield_bind, Draw.canYield_pure, Draw.canYield_replicate] at h
    obtain ⟨length, hlength, pairs, ⟨hpairs, hyield⟩, rfl⟩ := h
    -- A key may be drawn twice, so there can be fewer entries than pairs.
    have hsize : (Keyed.ofPairs pairs).size ≤ o.maxItems := by
      apply Nat.le_trans (Keyed.size_ofPairs_le pairs)
      rw [hpairs]
      exact RandomOptions.drawLength_le hlength
    refine .objectOf hsize (Keyed.distinct_ofPairs pairs) ?_ ?_
    · intro key hkey
      obtain ⟨pair, hpair, rfl⟩ := List.mem_map.1 (Keyed.mem_pairs_of_mem_keys_ofPairs hkey)
      obtain ⟨key, hword, value, -, rfl⟩ := hyield pair hpair
      exact Token.canYield_expand_word.1 hword
    · intro value hvalue
      obtain ⟨pair, hpair, rfl⟩ := List.mem_map.1 (Keyed.mem_pairs_of_mem_values_ofPairs hvalue)
      obtain ⟨key, -, value, hentry, rfl⟩ := hyield pair hpair
      exact parts entry List.mem_cons_self false value hentry
  | instanceOf expected =>
    rw [Draw.canYield_pure.1 h]
    exact .instanceOf
  | oneOf literals =>
    rw [drawForm, Draw.canYield_bind] at h
    obtain ⟨picked, hpicked, hvalue⟩ := h
    cases literals with
    | nil =>
      obtain rfl : picked = none := Draw.canYield_pure.1 hpicked
      rw [Draw.canYield_pure.1 hvalue]
      exact .noLiteral
    | cons first rest =>
      obtain ⟨literal, hmem, rfl⟩ := Draw.pick?_mem (List.cons_ne_nil first rest) hpicked
      rw [Draw.canYield_pure.1 hvalue]
      exact .oneOf hmem
  | oneOfType alternatives =>
    cases alternatives with
    | nil =>
      rw [Draw.canYield_pure.1 h]
      exact .noAlternative
    | cons first rest =>
      have nonempty : 0 < (first :: rest).length := Nat.succ_pos _
      rw [drawForm, dif_pos nonempty, Draw.canYield_bind] at h
      obtain ⟨i, -, hvalue⟩ := h
      obtain ⟨d, hd, hyield⟩ := drawAt_mem i.isLt hvalue
      exact .oneOfType hd (parts d hd true value hyield)

/-- Whatever scalars ask of the values drawn for them, a drawn value conforms to its type. -/
theorem conforms_drawPresent
    (scalars : ∀ s value, (o.drawScalar s).CanYield value → asked s value) (d : Descriptor)
    (present : Bool) (value : PropValue) (h : (d.drawPresent o present).CanYield value) :
    d.Conforms o asked present value := by
  induction d generalizing present value with
  | bare v =>
    rw [Draw.canYield_pure.1 h]
    exact .bare
  | typed form required source ih =>
    rw [drawPresent] at h
    by_cases hpresent : (required || present) = true
    · rw [if_pos hpresent] at h
      exact .typed (fits_drawForm scalars ih h)
    · rw [if_neg hpresent, Draw.canYield_bind] at h
      obtain ⟨isNull, -, h⟩ := h
      cases isNull with
      | true =>
        -- The roll for null is only made for optional values that are not yet decided.
        obtain ⟨rfl, rfl⟩ : required = false ∧ present = false := by simpa using hpresent
        rw [Draw.canYield_pure.1 h]
        exact .missing
      | false => exact .typed (fits_drawForm scalars ih h)

end Descriptor

namespace RandomOptions

def IsText (o : RandomOptions) (value : PropValue) : Prop :=
  ∃ text, Token.IsWord o.maxStringLength text ∧ value = .str text

/-- A word between the opening and the closing form of one of the tags. -/
def IsMarkup (o : RandomOptions) (value : PropValue) : Prop :=
  ∃ tag ∈ tags, ∃ text, Token.IsWord o.maxStringLength text ∧
    value = .str ("<" ++ tag ++ ">" ++ text ++ "</" ++ tag ++ ">")

/-- A document with a container of the kind at its root and a limited number of nodes below. -/
def IsDocument (o : RandomOptions) (root : RootNode) (value : PropValue) : Prop :=
  value.root? = some root ∧ value.descendants ≤ o.maxItems

/-- What a scalar asks for. -/
def Suits (o : RandomOptions) : Scalar → PropValue → Prop
  | .string, value | .node, value => o.IsText value
  | .element, value => o.IsMarkup value
  | .any, value => o.IsText value ∨ (∃ n, value = .num n) ∨ ∃ b, value = .bool b
  | .number, value => ∃ n, value = .num n
  | .bool, value => ∃ b, value = .bool b
  | .func, value => value = .func .noop
  | .array, value => o.IsDocument .array value
  | .object, value => o.IsDocument .object value

variable {o : RandomOptions} {value : PropValue}

theorem isText_drawWord (h : o.drawWord.CanYield value) : o.IsText value := by
  rw [drawWord, Draw.canYield_bind] at h
  obtain ⟨text, htext, hvalue⟩ := h
  exact ⟨text, Token.canYield_expand_word.1 htext, Draw.canYield_pure.1 hvalue⟩

theorem isMarkup_drawScalar (h : (o.drawScalar .element).CanYield value) : o.IsMarkup value := by
  rw [drawScalar, Draw.canYield_bind] at h
  obtain ⟨text, htext, hvalue⟩ := h
  obtain rfl := Draw.canYield_pure.1 hvalue
  obtain ⟨token, htoken, hyield⟩ := (Token.canYield_expandChars_oneOf (by simp [tags])).1
    (Token.canYield_expand.1 htext)
  obtain ⟨tag, htag, rfl⟩ := List.mem_map.1 htoken
  -- The sequence is expanded part by part: the opening tag, the word and the closing tag.
  simp only [Token.expandChars, Token.expandAll, Draw.canYield_bind, Draw.canYield_pure] at hyield
  obtain ⟨opening, rfl, _, ⟨word, hword, _, ⟨closing, rfl, _, rfl, rfl⟩, rfl⟩, htext⟩ := hyield
  refine ⟨tag, htag, String.ofList word, ?_, congrArg Tree.str ?_⟩
  · apply Token.canYield_expand_word.1
    rwa [Token.canYield_expand, String.toList_ofList]
  · rw [← String.toList_inj, htext]
    simp

theorem descendants_drawDocument {root : RootNode} (h : (o.drawDocument root).CanYield value) :
    value.descendants ≤ o.maxItems := by
  simp only [drawDocument, Growth.draw, Draw.canYield_bind, Draw.canYield_pure] at h
  obtain ⟨count, hcount, doc, ⟨g, hg, rfl⟩, rfl⟩ := h
  have hbounded := (Growth.canYield_addNodes_start.1 hg).complete.bounded
  rw [PropValue.ofJson, Tree.descendants_subst fun e => e.elim]
  exact Nat.le_trans hbounded (drawLength_le hcount)

theorem isDocument_drawDocument {root : RootNode} (h : (o.drawDocument root).CanYield value) :
    o.IsDocument root value :=
  ⟨root?_drawDocument h, descendants_drawDocument h⟩

theorem suits_drawScalar (s : Scalar) (value : PropValue) (h : (o.drawScalar s).CanYield value) :
    o.Suits s value := by
  cases s with
  | string => exact isText_drawWord h
  | node => exact isText_drawWord h
  | element => exact isMarkup_drawScalar h
  | any =>
    rcases drawAny_cases h with h | h | h
    · exact .inl (isText_drawWord h)
    · exact .inr (.inl (drawNumber_eq h))
    · exact .inr (.inr h)
  | number => exact drawNumber_eq h
  | bool => exact drawBool_eq h
  | func => exact Draw.canYield_pure.1 h
  | array => exact isDocument_drawDocument h
  | object => exact isDocument_drawDocument h

end RandomOptions

namespace Descriptor

/-- Whatever the source of randomness answers and whatever the options are, a value is drawn for a
type, and it has the form that the type asks for. -/
theorem conforms_draw (d : Descriptor) (o : RandomOptions) :
    (∃ value, (d.draw o).CanYield value) ∧
      ∀ value, (d.draw o).CanYield value → d.Conforms o o.Suits false value := by
  constructor
  · exact ⟨_, Draw.canYield_run (d.draw o) (.ofSeed 0)⟩
  · exact conforms_drawPresent RandomOptions.suits_drawScalar d false

def elements : Descriptor := .typed (.objectOf (.typed (.scalar .element) true none)) true none

theorem conforms_draw_elements :
    elements.Conforms .default RandomOptions.default.Suits false
      ((elements.draw .default).run (.ofSeed 7)).1 :=
  (conforms_draw elements .default).2 _ (Draw.canYield_run _ _)

end Descriptor

end FixtureBench
