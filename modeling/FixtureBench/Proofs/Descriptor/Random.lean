import FixtureBench.Descriptor.Random
import FixtureBench.Proofs.Descriptor.Delegation
import FixtureBench.Proofs.Equality
import FixtureBench.Proofs.Numeric.Finite
import FixtureBench.Proofs.Random.Growth
import FixtureBench.Random.Xoshiro

/-!
# Random values are values of their types

`Descriptor.Drawable` excludes the types that have no value to draw: bare validators, instances of
classes, choices of nothing and choices of null. Whatever the source of randomness answers and
whatever the options are, a value drawn for a type that is left satisfies the type, and it is not
null when a value is required. Without bare validators every node decides by its form, so it is
enough to follow the draw through the forms.
-/

namespace FixtureBench

namespace RandomOptions

variable {o : RandomOptions} {value : PropValue}

theorem drawWord_eq (h : o.drawWord.CanYield value) : ∃ text, value = .str text := by
  rw [drawWord, Draw.canYield_bind] at h
  obtain ⟨text, -, hvalue⟩ := h
  exact ⟨text, Draw.canYield_pure.1 hvalue⟩

theorem natAbs_toInt_le (n : Int64) : n.toInt.natAbs ≤ 2 ^ 63 := by
  have hlo := n.le_toInt
  have hhi := n.toInt_lt
  omega

/-- A number is a whole number of the range or a double: the hundredths of a range of 64-bit
numbers are finite. -/
theorem drawNumber_cases (h : o.drawNumber.CanYield value) :
    (∃ n inRange, value = .num (.int n inRange) ∧
      min o.numberRange.1.toInt o.numberRange.2.toInt ≤ n ∧
      n ≤ max o.numberRange.1.toInt o.numberRange.2.toInt) ∨
    ∃ x, value = .num (.double x) := by
  rw [drawNumber] at h
  generalize o.numberRange = range at h ⊢
  obtain ⟨a, b⟩ := range
  rw [Draw.canYield_bind] at h
  obtain ⟨whole, -, h⟩ := h
  cases whole with
  | true =>
    simp only [if_true, Draw.canYield_bind, Draw.canYield_pure] at h
    obtain ⟨⟨n, between⟩, -, rfl⟩ := h
    exact .inl ⟨n, _, rfl, between⟩
  | false =>
    simp only [Bool.false_eq_true, if_false, Draw.canYield_bind, Draw.canYield_pure] at h
    obtain ⟨x, hx, rfl⟩ := h
    have hwithin := Draw.within_doubleBetween (Binary64.ofInt_within (natAbs_toInt_le a))
      (Binary64.ofInt_within (natAbs_toInt_le b)) hx
    obtain ⟨y, hy, -⟩ := hwithin.roundToHundredths
    rw [hy]
    exact .inr ⟨y, rfl⟩

theorem drawNumber_eq (h : o.drawNumber.CanYield value) : ∃ n, value = .num n := by
  rcases drawNumber_cases h with ⟨n, inRange, rfl, -⟩ | ⟨x, rfl⟩
  · exact ⟨_, rfl⟩
  · exact ⟨_, rfl⟩

theorem drawBool_eq
    (h : (do return Tree.bool (← Draw.chance .half) : Draw PropValue).CanYield value) :
    ∃ b, value = .bool b := by
  rw [Draw.canYield_bind] at h
  obtain ⟨b, -, hvalue⟩ := h
  exact ⟨b, Draw.canYield_pure.1 hvalue⟩

theorem drawAny_cases (h : (o.drawScalar .any).CanYield value) :
    o.drawWord.CanYield value ∨ o.drawNumber.CanYield value ∨ ∃ b, value = .bool b := by
  rw [drawScalar, Draw.canYield_bind] at h
  obtain ⟨i, -, h⟩ := h
  by_cases hword : i = 0
  · rw [if_pos hword] at h
    exact .inl h
  · rw [if_neg hword] at h
    by_cases hnumber : i = 1
    · rw [if_pos hnumber] at h
      exact .inr (.inl h)
    · rw [if_neg hnumber] at h
      exact .inr (.inr (drawBool_eq h))

theorem root?_ofJson (doc : Json) : (PropValue.ofJson doc).root? = doc.root? := by
  cases doc with
  | leaf e => cases e
  | _ =>
    rw [PropValue.ofJson, Tree.subst]
    rfl

theorem root?_drawDocument {root : RootNode} (h : (o.drawDocument root).CanYield value) :
    value.root? = some root := by
  simp only [drawDocument, Draw.canYield_bind, Draw.canYield_pure] at h
  obtain ⟨count, -, doc, hdoc, rfl⟩ := h
  rw [root?_ofJson, Growth.root?_draw hdoc]

theorem drawScalar_accepts {s : Scalar} (h : (o.drawScalar s).CanYield value) :
    value ≠ .null ∧ s.accepts value = true := by
  cases s with
  | array =>
    have hroot := root?_drawDocument h
    cases value with
    | arr items => exact ⟨nofun, rfl⟩
    | _ => cases hroot
  | object =>
    have hroot := root?_drawDocument h
    cases value with
    | obj members => exact ⟨nofun, rfl⟩
    | _ => cases hroot
  | bool =>
    obtain ⟨b, rfl⟩ := drawBool_eq h
    exact ⟨nofun, rfl⟩
  | func =>
    rw [Draw.canYield_pure.1 h]
    exact ⟨nofun, rfl⟩
  | number =>
    obtain ⟨n, rfl⟩ := drawNumber_eq h
    exact ⟨nofun, rfl⟩
  | any =>
    refine ⟨?_, rfl⟩
    rcases drawAny_cases h with h | h | ⟨b, rfl⟩
    · obtain ⟨text, rfl⟩ := drawWord_eq h
      exact nofun
    · obtain ⟨n, rfl⟩ := drawNumber_eq h
      exact nofun
    · exact nofun
  | element =>
    rw [drawScalar, Draw.canYield_bind] at h
    obtain ⟨text, -, hvalue⟩ := h
    rw [Draw.canYield_pure.1 hvalue]
    exact ⟨nofun, rfl⟩
  | string =>
    obtain ⟨text, rfl⟩ := drawWord_eq h
    exact ⟨nofun, rfl⟩
  | node =>
    obtain ⟨text, rfl⟩ := drawWord_eq h
    exact ⟨nofun, rfl⟩

end RandomOptions

/-- Some value other than null can be drawn for the form, if it can for the parts. -/
def TypeForm.Populated {α : Type} : TypeForm α → Prop
  | instanceOf _ => False
  | oneOf literals => literals ≠ [] ∧ Tree.null ∉ literals
  | oneOfType alternatives => alternatives ≠ []
  | _ => True

theorem Draw.pick?_mem {α : Type} {items : List α} (nonempty : items ≠ []) {picked : Option α}
    (h : (Draw.pick? items).CanYield picked) : ∃ a ∈ items, picked = some a := by
  rw [Draw.pick?, dif_pos (List.length_pos_iff.2 nonempty), Draw.canYield_bind] at h
  obtain ⟨i, -, hpicked⟩ := h
  exact ⟨items[i], List.getElem_mem _, Draw.canYield_pure.1 hpicked⟩

namespace Descriptor

variable {o : RandomOptions} {value : PropValue}

/-- Types without bare validators, instances of classes, and choices of nothing or of null. -/
inductive Drawable : Descriptor → Prop where
  | typed {form : TypeForm Descriptor} {required : Bool} {source : Option Validator}
      (populated : form.Populated) (parts : ∀ d ∈ form.parts, Drawable d) :
      Drawable (.typed form required source)

def DrawsValues (o : RandomOptions) (d : Descriptor) : Prop :=
  ∀ present value, (d.drawPresent o present).CanYield value →
    d.acceptsMember (some value) = true ∧ ((d.isRequired || present) = true → value ≠ .null)

theorem drawFields_spec {fields : List (String × Descriptor)} {pairs : List (String × PropValue)}
    (h : (drawFields o fields).CanYield pairs) : pairs.map (·.1) = fields.map (·.1) ∧
      (∀ e ∈ fields, ∃ value, (e.1, value) ∈ pairs ∧ (e.2.drawPresent o false).CanYield value) ∧
      ∀ e ∈ (fields.map (·.2)).zip (pairs.map (·.2)),
        (e.1.drawPresent o false).CanYield e.2 := by
  induction fields generalizing pairs with
  | nil =>
    rw [Draw.canYield_pure.1 h]
    exact ⟨rfl, fun _ h => (nomatch h), fun _ h => nomatch h⟩
  | cons e rest ih =>
    simp only [drawFields, Draw.canYield_bind, Draw.canYield_pure] at h
    obtain ⟨value, hvalue, others, hothers, rfl⟩ := h
    obtain ⟨hnames, hrest, hzip⟩ := ih hothers
    refine ⟨congrArg (List.cons e.1) hnames, ?_, List.forall_mem_cons.2 ⟨hvalue, hzip⟩⟩
    intro field hfield
    rcases List.mem_cons.1 hfield with rfl | hfield
    · exact ⟨value, List.mem_cons_self, hvalue⟩
    · obtain ⟨value, hmem, hyield⟩ := hrest field hfield
      exact ⟨value, List.mem_cons_of_mem _ hmem, hyield⟩

theorem drawAt_mem {alternatives : List Descriptor} {i : Nat} (hi : i < alternatives.length)
    (h : (drawAt o alternatives i).CanYield value) :
    ∃ d ∈ alternatives, (d.drawPresent o true).CanYield value := by
  induction alternatives generalizing i with
  | nil => cases hi
  | cons d rest ih =>
    cases i with
    | zero => exact ⟨d, List.mem_cons_self, h⟩
    | succ i =>
      obtain ⟨d, hd, hyield⟩ := ih (Nat.lt_of_succ_lt_succ hi) h
      exact ⟨d, List.mem_cons_of_mem _ hd, hyield⟩

/-- A value drawn for a form fits the form, and is not null. -/
theorem drawForm_allows {form : TypeForm Descriptor} (populated : form.Populated)
    (wellFormed : form.WellFormed) (parts : ∀ d ∈ form.parts, d.DrawsValues o)
    (h : (drawForm o form).CanYield value) :
    value ≠ .null ∧ form.allows acceptsMember value = true := by
  cases form with
  | scalar s => exact RandomOptions.drawScalar_accepts h
  | shape fields =>
    simp only [drawForm, Draw.canYield_bind, Draw.canYield_pure] at h
    obtain ⟨pairs, hpairs, rfl⟩ := h
    obtain ⟨hnames, hfields, -⟩ := drawFields_spec hpairs
    have distinct : (Keyed.mk pairs).Distinct := by
      change (pairs.map (·.1)).Nodup
      rw [hnames]
      exact wellFormed.fields
    refine ⟨by simp, List.all_eq_true.2 fun e he => ?_⟩
    obtain ⟨value, hmem, hvalue⟩ := hfields e he
    rw [distinct.get?_of_mem hmem]
    exact (parts e.2 (List.mem_map_of_mem he) false value hvalue).1
  | arrayOf item =>
    simp only [drawForm, Draw.canYield_bind, Draw.canYield_pure, Draw.canYield_replicate] at h
    obtain ⟨length, -, items, ⟨-, hitems⟩, rfl⟩ := h
    refine ⟨by simp, List.all_eq_true.2 fun value hvalue => ?_⟩
    exact (parts item List.mem_cons_self false value (hitems value hvalue)).1
  | objectOf entry =>
    simp only [drawForm, Draw.canYield_bind, Draw.canYield_pure, Draw.canYield_replicate] at h
    obtain ⟨length, -, pairs, ⟨-, hpairs⟩, rfl⟩ := h
    refine ⟨by simp, List.all_eq_true.2 fun value hvalue => ?_⟩
    -- A key may be drawn twice, but every member of the object is the value of some pair.
    obtain ⟨pair, hpair, rfl⟩ := List.mem_map.1 (Keyed.mem_pairs_of_mem_values_ofPairs hvalue)
    obtain ⟨key, -, value, hyield, rfl⟩ := hpairs pair hpair
    exact (parts entry List.mem_cons_self false value hyield).1
  | instanceOf expected => exact populated.elim
  | oneOf literals =>
    rw [drawForm, Draw.canYield_bind] at h
    obtain ⟨picked, hpicked, hvalue⟩ := h
    obtain ⟨literal, hmem, rfl⟩ := Draw.pick?_mem populated.1 hpicked
    obtain rfl : value = literal := Draw.canYield_pure.1 hvalue
    refine ⟨fun hnull => populated.2 (hnull ▸ hmem), List.any_eq_true.2 ⟨value, hmem, ?_⟩⟩
    exact Tree.looseEq_self (wellFormed.literals value hmem)
  | oneOfType alternatives =>
    rw [drawForm, dif_pos (List.length_pos_iff.2 populated), Draw.canYield_bind] at h
    obtain ⟨i, -, hvalue⟩ := h
    obtain ⟨d, hd, hyield⟩ := drawAt_mem i.isLt hvalue
    obtain ⟨haccepts, hpresent⟩ := parts d hd true value hyield
    exact ⟨hpresent (Bool.or_true _), List.any_eq_true.2 ⟨d, hd, haccepts⟩⟩

theorem Drawable.structural {d : Descriptor} (drawable : d.Drawable) : d.Structural := by
  induction drawable with
  | typed populated parts ih => exact .typed ih

theorem Drawable.grounded {leaf leaf' : Validator → Prop} {d : Descriptor} (drawable : d.Drawable)
    (h : d.Grounded leaf) : d.Grounded leaf' := drawable.structural.grounded h

theorem Drawable.drawsValues {d : Descriptor} (drawable : d.Drawable)
    (h : d.Grounded Validator.ValueOnly) : d.DrawsValues o := by
  induction drawable with
  | @typed form required source populated drawableParts ih =>
    obtain ⟨wellFormed, parts⟩ := h.typed_parts
    have hform {value : PropValue} (hvalue : (drawForm o form).CanYield value) :
        value ≠ .null ∧
          (Descriptor.typed form required source).acceptsMember (some value) = true := by
      obtain ⟨hnull, hallows⟩ := drawForm_allows populated wellFormed
        (fun part hpart => ih part hpart (parts part hpart)) hvalue
      refine ⟨hnull, ?_⟩
      rw [h.acceptsMember_typed, acceptsMember_form hnull]
      exact hallows
    intro present value hvalue
    rw [drawPresent] at hvalue
    by_cases hpresent : (required || present) = true
    · rw [if_pos hpresent] at hvalue
      exact ⟨(hform hvalue).2, fun _ => (hform hvalue).1⟩
    · rw [if_neg hpresent, Draw.canYield_bind] at hvalue
      obtain ⟨isNull, -, hvalue⟩ := hvalue
      refine ⟨?_, fun hrequired => absurd hrequired hpresent⟩
      cases isNull with
      | true =>
        obtain rfl : value = .null := Draw.canYield_pure.1 hvalue
        rw [h.acceptsMember_typed, acceptsMember_missing rfl]
        cases required with
        | true => exact absurd rfl hpresent
        | false => rfl
      | false => exact (hform hvalue).2

/-- Whatever the source of randomness answers, a value is drawn for a drawable type, and it
satisfies the type and is not null if a value is required. -/
theorem accepts_draw {d : Descriptor} (composed : d.Composed (Inferred fun _ => True))
    (drawable : d.Drawable) (o : RandomOptions) :
    (∃ value, (d.draw o).CanYield value) ∧ ∀ value, (d.draw o).CanYield value →
      d.accepts value = true ∧ (d.isRequired = true → value ≠ .null) := by
  constructor
  · exact ⟨_, Draw.canYield_run (d.draw o) (.ofSeed 0)⟩
  · intro value h
    have grounded : d.Grounded fun _ => True := composed.grounded fun d hd => hd.sourced
    obtain ⟨haccepts, hnull⟩ :=
      (drawable.drawsValues (drawable.grounded grounded) : d.DrawsValues o) false value h
    refine ⟨haccepts, fun hrequired => hnull ?_⟩
    rw [hrequired]
    rfl

def strings : Descriptor :=
  (((Session.openWith wordCheck).run .empty).2.registry 0).infer
    (((Session.openWith wordCheck).run .empty).1.1.scalar .string)

theorem strings_eq : ∃ source, strings = .typed (.scalar .string) false source := by
  obtain ⟨reachable, held, patched, -⟩ := Session.openWith_spec wordCheck .empty
  rw [strings]
  generalize (Session.openWith wordCheck).run .empty = opened at reachable held patched ⊢
  obtain ⟨⟨lib, word⟩, s⟩ := opened
  have hs : s.Valid := Session.Reachable.valid reachable
  have product := hs.scalars lib held .string
  obtain ⟨id, hlabel⟩ := hs.eq_optional product rfl
  have hstring : lib.scalar .string = .optional (id + 1) id (TypeForm.scalar .string).check :=
    congrArg Product.validator hlabel
  have known := (hs.patched lib held 0 patched).2 .string
  rw [hs.infer_product product rfl known .refl List.mem_cons_self, hstring]
  exact ⟨_, rfl⟩

theorem strings_spec : strings.Inferred (fun _ => True) ∧ strings.Drawable := by
  constructor
  · obtain ⟨reachable, held, -⟩ := Session.openWith_spec wordCheck .empty
    rw [strings]
    generalize (Session.openWith wordCheck).run .empty = opened at reachable held ⊢
    obtain ⟨⟨lib, word⟩, s⟩ := opened
    have product := (Session.Reachable.valid reachable).scalars lib held .string
    exact ⟨s, reachable, 0, _,
      .library product rfl (fun _ h => nomatch h) List.mem_cons_self, rfl⟩
  · obtain ⟨source, h⟩ := strings_eq
    rw [h]
    exact .typed trivial fun _ h => nomatch h

theorem accepts_draw_strings :
    (ofForm (.objectOf strings)).toRequired.accepts
        (((ofForm (.objectOf strings)).toRequired.draw .default).run (.ofSeed 7)).1 = true ∧
      ((ofForm (.objectOf strings)).toRequired.isRequired = true →
        (((ofForm (.objectOf strings)).toRequired.draw .default).run (.ofSeed 7)).1 ≠ .null) := by
  obtain ⟨inferred, drawable⟩ := strings_spec
  have wellFormed : (TypeForm.objectOf strings).WellFormed :=
    ⟨List.nodup_nil, fun _ h => nomatch h⟩
  have composed : (ofForm (.objectOf strings)).toRequired.Composed (Inferred fun _ => True) :=
    .toRequired (.ofForm wellFormed (List.forall_mem_singleton.2 (.given inferred)))
  have drawable' : (ofForm (.objectOf strings)).toRequired.Drawable :=
    .typed trivial (List.forall_mem_singleton.2 drawable)
  exact (accepts_draw composed drawable' .default).2 _ (Draw.canYield_run _ _)

end Descriptor

end FixtureBench
