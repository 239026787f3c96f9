import FixtureBench.Descriptor.Basic
import FixtureBench.Proofs.Equality

/-!
# Equality of descriptors

Two forms are alike if they are of one kind, with the same fields in any order, equal literals and
related parts. Descriptors are equal if both are required or neither is and their forms are alike,
with equal descriptors as parts. So equality is an equivalence of the descriptors that name no
field twice and have well-formed literals.
-/

namespace FixtureBench

namespace TypeForm

variable {α β γ : Type} {R : α → β → Prop} {S : β → γ → Prop} {T : α → γ → Prop}
  {form : TypeForm α} {form' : TypeForm β} {form'' : TypeForm γ}

/-- The same form up to the order of fields and the equality of literals, with related parts. -/
inductive Alike (R : α → β → Prop) : TypeForm α → TypeForm β → Prop where
  | scalar (s : Scalar) : Alike R (.scalar s) (.scalar s)
  | shape {fields : Keyed α} {others : Keyed β} (h : fields.Agree R others) :
      Alike R (.shape fields) (.shape others)
  | arrayOf {item : α} {other : β} (h : R item other) : Alike R (.arrayOf item) (.arrayOf other)
  | objectOf {entry : α} {other : β} (h : R entry other) :
      Alike R (.objectOf entry) (.objectOf other)
  | instanceOf (expected : ClassRef) : Alike R (.instanceOf expected) (.instanceOf expected)
  | oneOf {literals others : List PropValue} (h : (literals == others) = true) :
      Alike R (.oneOf literals) (.oneOf others)
  | oneOfType {alternatives : List α} {others : List β} (h : List.Forall₂ R alternatives others) :
      Alike R (.oneOfType alternatives) (.oneOfType others)

theorem beq_literals_self {literals : List PropValue}
    (wellFormed : ∀ literal ∈ literals, literal.WellFormed) : (literals == literals) = true :=
  beq_list_iff.2 (List.forall₂_same.2 fun literal h => Tree.beq_self (wellFormed literal h))

namespace Alike

theorem refl {R : α → α → Prop} (wellFormed : form.WellFormed) (h : ∀ a ∈ form.parts, R a a) :
    form.Alike R form := by
  cases form with
  | scalar s => exact .scalar s
  | shape fields => exact .shape (.refl h)
  | arrayOf item => exact .arrayOf (h item List.mem_cons_self)
  | objectOf entry => exact .objectOf (h entry List.mem_cons_self)
  | instanceOf expected => exact .instanceOf expected
  | oneOf literals => exact .oneOf (beq_literals_self wellFormed.literals)
  | oneOfType alternatives => exact .oneOfType (List.forall₂_same.2 h)

theorem symm {R' : β → α → Prop} (h : form.Alike R form') (wellFormed : form.WellFormed)
    (wellFormed' : form'.WellFormed)
    (sym : ∀ a ∈ form.parts, ∀ b ∈ form'.parts, R a b → R' b a) : form'.Alike R' form := by
  cases h with
  | scalar s => exact .scalar s
  | shape h => exact .shape (h.symm sym)
  | arrayOf h => exact .arrayOf (sym _ List.mem_cons_self _ List.mem_cons_self h)
  | objectOf h => exact .objectOf (sym _ List.mem_cons_self _ List.mem_cons_self h)
  | instanceOf expected => exact .instanceOf expected
  | oneOf h =>
    exact .oneOf (beq_list_iff.2 (forall₂_symm (beq_list_iff.1 h) fun a ha b hb =>
      Tree.eqBy_symm Number.beq_equivalence.symm (wellFormed.literals a ha)
        (wellFormed'.literals b hb)))
  | oneOfType h => exact .oneOfType (forall₂_symm h sym)

theorem trans (h : form.Alike R form') (h' : form'.Alike S form'') (wellFormed : form.WellFormed)
    (wellFormed' : form'.WellFormed)
    (comp : ∀ a ∈ form.parts, ∀ b ∈ form'.parts, ∀ c ∈ form''.parts, R a b → S b c → T a c) :
    form.Alike T form'' := by
  cases h with
  | scalar s =>
    cases h' with
    | scalar => exact .scalar s
  | shape h =>
    cases h' with
    | shape h' => exact .shape (h.trans h' comp)
  | arrayOf h =>
    cases h' with
    | arrayOf h' =>
      exact .arrayOf (comp _ List.mem_cons_self _ List.mem_cons_self _ List.mem_cons_self h h')
  | objectOf h =>
    cases h' with
    | objectOf h' =>
      exact .objectOf (comp _ List.mem_cons_self _ List.mem_cons_self _ List.mem_cons_self h h')
  | instanceOf expected =>
    cases h' with
    | instanceOf => exact .instanceOf expected
  | oneOf h =>
    cases h' with
    | oneOf h' =>
      exact .oneOf (beq_list_iff.2 (forall₂_trans (beq_list_iff.1 h) (beq_list_iff.1 h')
        fun a ha b hb _ _ => Tree.eqBy_trans Number.beq_equivalence.trans
          (wellFormed.literals a ha) (wellFormed'.literals b hb)))
  | oneOfType h =>
    cases h' with
    | oneOfType h' => exact .oneOfType (forall₂_trans h h' comp)

theorem map {δ ε : Type} {R' : δ → ε → Prop} {f : α → δ} {g : β → ε} (h : form.Alike R form')
    (conv : ∀ a ∈ form.parts, ∀ b ∈ form'.parts, R a b → R' (f a) (g b)) :
    (form.map f).Alike R' (form'.map g) := by
  cases h with
  | scalar s => exact .scalar s
  | shape h => exact .shape (h.mapEntries fun _ => conv)
  | arrayOf h => exact .arrayOf (conv _ List.mem_cons_self _ List.mem_cons_self h)
  | objectOf h => exact .objectOf (conv _ List.mem_cons_self _ List.mem_cons_self h)
  | instanceOf expected => exact .instanceOf expected
  | oneOf h => exact .oneOf h
  | oneOfType h =>
    refine .oneOfType ?_
    rw [List.forall₂_map_left_iff, List.forall₂_map_right_iff]
    exact forall₂_imp h conv

end Alike

end TypeForm

namespace Descriptor

/-- No shape in the descriptor names a field twice, and all literals are well-formed. -/
inductive WellFormed : Descriptor → Prop where
  | typed {form : TypeForm Descriptor} {required : Bool} {source : Option Validator}
      (wellFormed : form.WellFormed) (parts : ∀ d ∈ form.parts, WellFormed d) :
      WellFormed (.typed form required source)
  | bare (v : Validator) : WellFormed (.bare v)

theorem beqFields_iff {fields : List (String × Descriptor)} {others : Keyed Descriptor} :
    beqFields fields others = true ↔
      ∀ e ∈ fields, ∃ d, others.get? e.1 = some d ∧ (e.2 == d) = true := by
  induction fields with
  | nil => simp [beqFields]
  | cons e rest ih =>
    rw [beqFields, Bool.and_eq_true, ih, List.forall_mem_cons]
    cases others.get? e.1 with
    | none => simp
    | some d => simp [BEq.beq]

theorem beqList_iff {alternatives others : List Descriptor} :
    beqList alternatives others = true ↔
      List.Forall₂ (fun a b => (a == b) = true) alternatives others := by
  induction alternatives generalizing others with
  | nil => cases others <;> simp [beqList]
  | cons a rest ih => cases others <;> simp [beqList, ih, BEq.beq]

variable {form form' : TypeForm Descriptor} {required required' : Bool}
  {source source' : Option Validator}

theorem beq_bare {v : Validator} {d : Descriptor} :
    (bare v == d) = true ↔ ∃ w, d = bare w ∧ v.id = w.id := by
  change beq (.bare v) d = true ↔ _
  cases d with
  | typed form required source => simp [beq]
  | bare w => simp [beq, BEq.beq]

theorem alike_of_beq (distinct : form.fieldNames.Nodup)
    (h : (typed form required source == typed form' required' source') = true) :
    required = required' ∧ form.Alike (fun a b => (a == b) = true) form' := by
  change beq (.typed form required source) (.typed form' required' source') = true at h
  cases form with
  | scalar s =>
    cases form' with
    | scalar t =>
      obtain ⟨rfl, rfl⟩ : s = t ∧ required = required' := by simpa [beq] using h
      exact ⟨rfl, .scalar s⟩
    | _ => simp [beq] at h
  | shape fields =>
    obtain ⟨entries⟩ := fields
    cases form' with
    | shape others =>
      obtain ⟨⟨hrequired, hsize⟩, hfields⟩ :
          (required = required' ∧ entries.length = others.size) ∧
            beqFields entries others = true := by simpa [beq] using h
      exact ⟨hrequired, .shape ((Keyed.agree_iff distinct).2 ⟨hsize, beqFields_iff.1 hfields⟩)⟩
    | _ => simp [beq] at h
  | arrayOf item =>
    cases form' with
    | arrayOf other =>
      obtain ⟨hrequired, hitem⟩ : required = required' ∧ beq item other = true := by
        simpa [beq] using h
      exact ⟨hrequired, .arrayOf hitem⟩
    | _ => simp [beq] at h
  | objectOf entry =>
    cases form' with
    | objectOf other =>
      obtain ⟨hrequired, hentry⟩ : required = required' ∧ beq entry other = true := by
        simpa [beq] using h
      exact ⟨hrequired, .objectOf hentry⟩
    | _ => simp [beq] at h
  | instanceOf expected =>
    cases form' with
    | instanceOf other =>
      obtain ⟨hrequired, rfl⟩ : required = required' ∧ expected = other := by
        simpa [beq] using h
      exact ⟨hrequired, .instanceOf expected⟩
    | _ => simp [beq] at h
  | oneOf literals =>
    cases form' with
    | oneOf others =>
      obtain ⟨hrequired, hliterals⟩ : required = required' ∧ (literals == others) = true := by
        simpa [beq] using h
      exact ⟨hrequired, .oneOf hliterals⟩
    | _ => simp [beq] at h
  | oneOfType alternatives =>
    cases form' with
    | oneOfType others =>
      obtain ⟨hrequired, halternatives⟩ :
          required = required' ∧ beqList alternatives others = true := by simpa [beq] using h
      exact ⟨hrequired, .oneOfType (beqList_iff.1 halternatives)⟩
    | _ => simp [beq] at h

theorem beq_of_alike (distinct : form.fieldNames.Nodup)
    (h : form.Alike (fun a b => (a == b) = true) form') :
    (typed form required source == typed form' required source') = true := by
  change beq (.typed form required source) (.typed form' required source') = true
  cases h with
  | scalar s => simp [beq]
  | @shape fields others h =>
    obtain ⟨entries⟩ := fields
    obtain ⟨hsize, hfound⟩ := (Keyed.agree_iff distinct).1 h
    rw [beq, beqFields_iff.2 hfound]
    simpa [Keyed.size] using hsize
  | @arrayOf item other h =>
    have hitem : beq item other = true := h
    simp [beq, hitem]
  | @objectOf entry other h =>
    have hentry : beq entry other = true := h
    simp [beq, hentry]
  | instanceOf expected => simp [beq]
  | oneOf h => simp [beq, h]
  | oneOfType h => simp [beq, beqList_iff.2 h]

/-- A descriptor of a form equals the descriptors that demand the same of an alike form. -/
theorem beq_typed (distinct : form.fieldNames.Nodup) {d : Descriptor} :
    (typed form required source == d) = true ↔ ∃ form' source',
      d = .typed form' required source' ∧ form.Alike (fun a b => (a == b) = true) form' := by
  constructor
  · intro h
    cases d with
    | typed form' required' source' =>
      obtain ⟨rfl, halike⟩ := alike_of_beq distinct h
      exact ⟨form', source', rfl, halike⟩
    | bare w =>
      change beq (.typed form required source) (.bare w) = true at h
      simp [beq] at h
  · rintro ⟨form', source', rfl, halike⟩
    exact beq_of_alike distinct halike

variable {a b c : Descriptor}

theorem beq_refl (h : a.WellFormed) : (a == a) = true := by
  induction a with
  | bare v => exact beq_bare.2 ⟨v, rfl, rfl⟩
  | typed form required source ih =>
    cases h with
    | typed wellFormed parts =>
      exact beq_of_alike wellFormed.fields
        (.refl wellFormed fun part hpart => ih part hpart (parts part hpart))

theorem beq_symm (ha : a.WellFormed) (hb : b.WellFormed) (h : (a == b) = true) :
    (b == a) = true := by
  induction a generalizing b with
  | bare v =>
    obtain ⟨w, rfl, hid⟩ := beq_bare.1 h
    exact beq_bare.2 ⟨v, rfl, hid.symm⟩
  | typed form required source ih =>
    cases ha with
    | typed wellFormed parts =>
      obtain ⟨form', source', rfl, halike⟩ := (beq_typed wellFormed.fields).1 h
      cases hb with
      | typed wellFormed' parts' =>
        refine beq_of_alike wellFormed'.fields (halike.symm wellFormed wellFormed' ?_)
        exact fun part hpart other hother => ih part hpart (parts part hpart) (parts' other hother)

theorem beq_trans (ha : a.WellFormed) (hb : b.WellFormed) (h : (a == b) = true)
    (h' : (b == c) = true) : (a == c) = true := by
  induction a generalizing b c with
  | bare v =>
    obtain ⟨w, rfl, hid⟩ := beq_bare.1 h
    obtain ⟨x, rfl, hid'⟩ := beq_bare.1 h'
    exact beq_bare.2 ⟨x, rfl, hid.trans hid'⟩
  | typed form required source ih =>
    cases ha with
    | typed wellFormed parts =>
      obtain ⟨form', source', rfl, halike⟩ := (beq_typed wellFormed.fields).1 h
      cases hb with
      | typed wellFormed' parts' =>
        obtain ⟨form'', source'', rfl, halike'⟩ := (beq_typed wellFormed'.fields).1 h'
        refine beq_of_alike wellFormed.fields (halike.trans halike' wellFormed wellFormed' ?_)
        exact fun part hpart other hother _ _ =>
          ih part hpart (parts part hpart) (parts' other hother)

theorem beq_sources (h : (typed form required source).WellFormed) :
    (typed form required source == typed form required source') = true := by
  cases h with
  | typed wellFormed parts =>
    exact beq_of_alike wellFormed.fields
      (.refl wellFormed fun part hpart => beq_refl (parts part hpart))

theorem beq_shape_of_perm {fields others : Keyed Descriptor}
    (h : (typed (.shape fields) required source).WellFormed)
    (hperm : fields.entries.Perm others.entries) :
    (typed (.shape fields) required source == typed (.shape others) required source') = true := by
  cases h with
  | typed wellFormed parts =>
    have distinct : others.Distinct := (hperm.map _).nodup_iff.1 wellFormed.fields
    exact beq_of_alike wellFormed.fields (.shape
      (.of_perm distinct hperm fun part hpart => beq_refl (parts part hpart)))

theorem beq_map {α : Type} {form : TypeForm α} (wellFormed : form.WellFormed)
    {f g : α → Descriptor} (h : ∀ a ∈ form.parts, beq (f a) (g a) = true) (required : Bool)
    (source source' : Option Validator) :
    beq (.typed (form.map f) required source) (.typed (form.map g) required source') = true := by
  have halike : form.Alike (· = ·) form := .refl wellFormed fun _ _ => rfl
  exact beq_of_alike (wellFormed.map f).fields (halike.map fun a ha _ _ heq => heq ▸ h a ha)

theorem beq_toRequired (ha : a.WellFormed) (h : (a == b) = true) :
    (a.toRequired == b.toRequired) = true := by
  cases ha with
  | bare v =>
    obtain ⟨w, rfl, hid⟩ := beq_bare.1 h
    exact h
  | typed wellFormed parts =>
    obtain ⟨form', source', rfl, halike⟩ := (beq_typed wellFormed.fields).1 h
    exact beq_of_alike wellFormed.fields halike

end Descriptor

end FixtureBench
