import FixtureBench.Proofs.Descriptor.Conforms
import FixtureBench.Proofs.Random.Bounds

/-!
# Limits of what is random

The options limit the words and the whole numbers of random values. The limits hold for the values
of all scalars but plain arrays and objects, which are documents grown with limits of their own:
`limits_draw` says for which options the limits hold there as well.
-/

namespace FixtureBench

namespace RandomOptions

variable {o : RandomOptions} {b : Bounds} {value : PropValue}

def bounds (o : RandomOptions) : Bounds where
  letters := o.maxStringLength
  least := min o.numberRange.1.toInt o.numberRange.2.toInt
  greatest := max o.numberRange.1.toInt o.numberRange.2.toInt

/-- The limits of documents. -/
def documentBounds : Bounds := ⟨8, -1000, 1000⟩

/-- What is random in a value of a scalar lies within the limits of the options, and in a document
within limits that are given apart. -/
def Limits (o : RandomOptions) (documents : Bounds) : Scalar → PropValue → Prop
  | .element, value => o.IsMarkup value
  | .array, value | .object, value => value.Bounded documents
  | _, value => value.Bounded o.bounds

theorem bounded_of_isText (h : o.IsText value) : value.Bounded o.bounds := by
  obtain ⟨text, word, rfl⟩ := h
  exact .str word

theorem bounded_drawNumber (h : o.drawNumber.CanYield value) : value.Bounded o.bounds := by
  rcases drawNumber_cases h with ⟨n, inRange, rfl, between⟩ | ⟨x, rfl⟩
  · exact .int inRange between
  · exact .double x

/-! ## Documents -/

theorem canYield_documentText {text : String} :
    GrowthOptions.default.strings.expand.CanYield text ↔
      Token.IsWord documentBounds.letters text := by
  rw [← Token.canYield_expand_word]
  rfl

theorem keepsTo_of_within (root : RootNode) (count : Nat) (h : documentBounds.Within b) :
    { GrowthOptions.default with root, count }.KeepsTo b where
  words := by
    intro text htext
    have word := canYield_documentText.1 htext
    exact ⟨word.nonempty, Nat.le_trans word.bounded (Nat.max_le.2 ⟨Nat.le_max_left _ _, h.letters⟩),
      word.letters⟩
  least := h.least
  greatest := h.greatest

theorem bounded_drawDocument {root : RootNode} (h : (o.drawDocument root).CanYield value)
    (within : o.maxItems = 0 ∨ documentBounds.Within b) : value.Bounded b := by
  simp only [drawDocument, Draw.canYield_bind, Draw.canYield_pure] at h
  obtain ⟨count, hcount, doc, hdoc, rfl⟩ := h
  refine (Growth.bounded_draw (fun hpos => ?_) hdoc).subst fun e => e.elim
  rcases within with hnone | within
  · -- Without items nothing is inserted, so it does not matter what the limits are.
    have := drawLength_le hcount
    change 0 < count at hpos
    omega
  · exact keepsTo_of_within root count within

/-- If lists may have items, any leaf can become the only item of a plain list. -/
theorem canYield_drawDocument {type : NodeType} (node : Json) (hitems : o.maxItems ≠ 0)
    (htype : NodeOdds.default.draw.CanYield type)
    (hnode : (Growth.drawLeaf GrowthOptions.default.strings type).CanYield node) :
    (o.drawDocument .array).CanYield (.arr [PropValue.ofJson node]) := by
  have hcount : o.drawLength.CanYield 1 := by
    rw [drawLength, Draw.canYield_bind]
    exact ⟨⟨1, by omega⟩, Draw.canYield_natural _, Draw.canYield_pure.2 rfl⟩
  have hdoc := Growth.canYield_draw_single htype hnode
  simp only [drawDocument, Draw.canYield_bind, Draw.canYield_pure]
  exact ⟨1, hcount, _, hdoc, (Tree.subst_arr _ [node]).symm⟩

/-- Every number of the range of documents can become the only item of a plain list. -/
theorem canYield_number {n : Int} (inRange : -0x8000000000000000 ≤ n ∧ n < 0x10000000000000000)
    (hitems : o.maxItems ≠ 0) (h : -1000 ≤ n ∧ n ≤ 1000) :
    (o.drawDocument .array).CanYield (.arr [.num (.int n inRange)]) := by
  have htype : NodeOdds.default.draw.CanYield .number := NodeOdds.canYield_draw ⟨3, by decide⟩
  refine canYield_drawDocument (.num (.int n inRange)) hitems htype ?_
  rw [Growth.drawLeaf, Draw.canYield_bind]
  exact ⟨⟨n, h⟩, Draw.canYield_integer _, Draw.canYield_pure.2 rfl⟩

theorem canYield_text {text : String} (hitems : o.maxItems ≠ 0)
    (h : Token.IsWord documentBounds.letters text) :
    (o.drawDocument .array).CanYield (.arr [.str text]) := by
  have htype : NodeOdds.default.draw.CanYield .string := NodeOdds.canYield_draw ⟨9, by decide⟩
  refine canYield_drawDocument (.str text) hitems htype ?_
  rw [Growth.drawLeaf, Draw.canYield_bind]
  exact ⟨text, canYield_documentText.2 h, Draw.canYield_pure.2 rfl⟩

/-- Plain lists can reach the limits of documents, so they keep to no others. -/
theorem within_of_bounded (hitems : o.maxItems ≠ 0)
    (h : ∀ value, (o.drawDocument .array).CanYield value → value.Bounded b) :
    documentBounds.Within b := by
  have hitem {item : PropValue} (hlist : (o.drawDocument .array).CanYield (.arr [item])) :
      item.Bounded b := Tree.bounded_arr.1 (h _ hlist) item List.mem_cons_self
  have hnumber (n : Int) (hn : -1000 ≤ n ∧ n ≤ 1000) : b.least ≤ n ∧ n ≤ b.greatest := by
    cases hitem (canYield_number (by omega) hitems hn)
    assumption
  have hword : Token.IsWord b.letters "aaaaaaaa" := by
    have longest : Token.IsWord documentBounds.letters "aaaaaaaa" := ⟨by decide, by decide, by simp⟩
    cases hitem (canYield_text hitems longest)
    assumption
  have hleast := hnumber (-1000) (by omega)
  have hgreatest := hnumber 1000 (by omega)
  exact ⟨hword.bounded, hleast.1, hgreatest.2⟩

/-! ## Values -/

theorem limits_drawScalar (within : o.maxItems = 0 ∨ documentBounds.Within b) (s : Scalar)
    (value : PropValue) (h : (o.drawScalar s).CanYield value) : o.Limits b s value := by
  cases s with
  | string => exact bounded_of_isText (isText_drawWord h)
  | node => exact bounded_of_isText (isText_drawWord h)
  | element => exact isMarkup_drawScalar h
  | any =>
    rcases drawAny_cases h with h | h | ⟨x, rfl⟩
    · exact bounded_of_isText (isText_drawWord h)
    · exact bounded_drawNumber h
    · exact .bool x
  | number => exact bounded_drawNumber h
  | bool =>
    obtain ⟨x, rfl⟩ := drawBool_eq h
    exact .bool x
  | func =>
    rw [Draw.canYield_pure.1 h]
    exact .leaf _
  | array => exact bounded_drawDocument h within
  | object => exact bounded_drawDocument h within

end RandomOptions

namespace Descriptor

def plainList : Descriptor := .typed (.scalar .array) true none

theorem conforms_plainList {o : RandomOptions} {asked : Scalar → PropValue → Prop}
    {value : PropValue} : plainList.Conforms o asked false value ↔ asked .array value := by
  constructor
  · rintro (_ | _ | ⟨⟨h⟩⟩)
    exact h
  · exact fun h => .typed (.scalar h)

/-- Whatever the source of randomness answers, what is random in a value keeps to the limits of the
options, except that documents keep to their own. They keep to those of the options if they have no
nodes or these are wide enough, and otherwise there are values that do not. -/
theorem limits_draw (o : RandomOptions) :
    (∀ (d : Descriptor) value, (d.draw o).CanYield value →
      d.Conforms o (o.Limits RandomOptions.documentBounds) false value) ∧
    ((∀ (d : Descriptor) value, (d.draw o).CanYield value →
      d.Conforms o (o.Limits o.bounds) false value) ↔
        o.maxItems = 0 ∨ RandomOptions.documentBounds.Within o.bounds) := by
  have hlimits {b : Bounds} (within : o.maxItems = 0 ∨ RandomOptions.documentBounds.Within b)
      (d : Descriptor) :
      ∀ value, (d.draw o).CanYield value → d.Conforms o (o.Limits b) false value :=
    conforms_drawPresent (RandomOptions.limits_drawScalar within) d false
  -- The limits of documents are within themselves.
  refine ⟨hlimits (.inr ⟨by decide, Int.le_refl _, Int.le_refl _⟩), ?_, hlimits⟩
  intro h
  by_cases hnone : o.maxItems = 0
  · exact .inl hnone
  · refine .inr (RandomOptions.within_of_bounded hnone fun value hvalue => ?_)
    exact conforms_plainList.1 (h plainList value hvalue)

/-- The limits of documents are those of the default options. -/
example : RandomOptions.default.bounds = RandomOptions.documentBounds := by decide

/-- At most one item, and no number but 5. -/
def fives : RandomOptions := { RandomOptions.default with maxItems := 1, numberRange := (5, 5) }

theorem limits_draw_fives :
    plainList.Conforms fives (fives.Limits RandomOptions.documentBounds) false
      ((plainList.draw fives).run (.ofSeed 5)).1 :=
  (limits_draw fives).1 plainList _ (Draw.canYield_run _ _)

/-- A plain list can hold a number that the options exclude. -/
theorem plainList_beyond_fives :
    (plainList.draw fives).CanYield (.arr [.num (.int 998 (by omega))]) ∧
      ¬ plainList.Conforms fives (fives.Limits fives.bounds) false
        (.arr [.num (.int 998 (by omega))]) := by
  constructor
  · exact RandomOptions.canYield_number _ (by decide) (by omega)
  · rw [conforms_plainList]
    intro h
    cases Tree.bounded_arr.1 h _ List.mem_cons_self with
    | int inRange between => exact absurd between.2 (by decide)

end Descriptor

end FixtureBench
