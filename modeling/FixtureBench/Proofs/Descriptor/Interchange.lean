import FixtureBench.Proofs.Descriptor.Equality
import FixtureBench.Proofs.Descriptor.Overrides
import FixtureBench.Proofs.Editor

/-!
# Equal descriptors are interchangeable

Whatever reads a descriptor respects the equality of descriptors. Equal descriptors have equal
minimal values at every path and equal editors, and they stay equal when they are made required.
Without sources they accept the same values. Each of these recursions is followed once for alike
forms, and then by induction over the descriptor.
-/

namespace FixtureBench

def Overrides.WellFormed (o : Overrides) : Prop :=
  ∀ path value, o.get? path = some value → value.WellFormed

namespace TypeForm

variable {α β : Type} {R : α → β → Prop}

theorem Alike.allows_eq {form : TypeForm α} {form' : TypeForm β} (h : form.Alike R form')
    (wellFormed : form.WellFormed) (wellFormed' : form'.WellFormed)
    {fits : α → Option PropValue → Bool} {fits' : β → Option PropValue → Bool}
    (parts : ∀ a ∈ form.parts, ∀ b ∈ form'.parts, R a b → ∀ value, fits a value = fits' b value)
    (value : PropValue) : form.allows fits value = form'.allows fits' value := by
  cases h with
  | scalar s => rfl
  | shape h =>
    cases value with
    | obj members =>
      exact h.all_entries wellFormed.fields wellFormed'.fields
        fun name a ha b hb hab => parts a ha b hb hab (members.get? name)
    | _ => rfl
  | arrayOf h =>
    have hitem := parts _ List.mem_cons_self _ List.mem_cons_self h
    cases value with
    | arr items => simp only [allows, hitem]
    | _ => rfl
  | objectOf h =>
    have hentry := parts _ List.mem_cons_self _ List.mem_cons_self h
    cases value with
    | obj members => simp only [allows, hentry]
    | _ => rfl
  | instanceOf expected => rfl
  | oneOf h =>
    exact any_eq_of_forall₂ (beq_list_iff.1 h) fun a ha b hb heq =>
      Tree.eqBy_congr_left Number.sameValue_equivalence (wellFormed.literals a ha)
        (wellFormed'.literals b hb) (Tree.looseEq_of_beq (wellFormed.literals a ha) heq) value
  | oneOfType h =>
    exact any_eq_of_forall₂ h fun a ha b hb hab => parts a ha b hb hab (some value)

end TypeForm

namespace Editor

theorem beqFields_iff {entries : List (String × Editor)} {others : Keyed Editor} :
    beqFields entries others = true ↔
      ∀ e ∈ entries, ∃ editor, others.get? e.1 = some editor ∧ (e.2 == editor) = true := by
  induction entries with
  | nil => simp [beqFields]
  | cons e rest ih =>
    rw [beqFields, Bool.and_eq_true, ih, List.forall_mem_cons]
    cases others.get? e.1 with
    | none => simp
    | some editor => simp [BEq.beq]

theorem beq_fields {editors others : Keyed Editor} (distinct : editors.Distinct) :
    (fields editors == fields others) = true ↔
      editors.Agree (fun a b => (a == b) = true) others := by
  obtain ⟨entries⟩ := editors
  change beq (fields ⟨entries⟩) (fields others) = true ↔ _
  rw [Keyed.agree_iff distinct, beq, Bool.and_eq_true, beq_iff_eq, beqFields_iff]
  rfl

end Editor

namespace Descriptor

variable {a b : Descriptor} {form form' : TypeForm Descriptor}

theorem minimalOfForm_scalar_wellFormed (o : Overrides) (s : Scalar) (path : Cursor) :
    (minimalOfForm o (.scalar s) path).WellFormed := by
  cases s with
  | object => exact Tree.wellFormed_obj.2 ⟨List.nodup_nil, List.forall_mem_nil _⟩
  | func => simp [minimalOfForm, PropValue.func, Tree.WellFormed]
  | _ => simp [minimalOfForm, Tree.WellFormed]

theorem minimalOfForm_beq {R : Descriptor → Descriptor → Prop} {o : Overrides}
    (wellFormed : form.WellFormed) (h : form.Alike R form')
    (parts : ∀ a ∈ form.parts, ∀ b ∈ form'.parts, R a b →
      ∀ path, (a.minimal o path == b.minimal o path) = true) (path : Cursor) :
    (minimalOfForm o form path == minimalOfForm o form' path) = true := by
  cases h with
  | scalar s => exact Tree.beq_self (minimalOfForm_scalar_wellFormed o s path)
  | @shape fields others h =>
    have distinct : fields.Distinct := wellFormed.fields
    let member (name : String) (field : Descriptor) := field.minimal o (path ++ [.key name])
    rw [minimalOfForm, minimalOfForm, minimalFields_eq_map, minimalFields_eq_map]
    refine (Tree.eqBy_obj (distinct.mapEntries member)).2
      (h.mapEntries (f := member) (g := member) ?_)
    exact fun name a ha b hb hab => parts a ha b hb hab (path ++ [.key name])
  | arrayOf h =>
    rw [minimalOfForm, minimalOfForm]
    refine Tree.eqBy_arr.2 (.cons ?_ .nil)
    exact parts _ List.mem_cons_self _ List.mem_cons_self h (path ++ [.index 0])
  | objectOf h =>
    exact Tree.beq_self (Tree.wellFormed_obj.2 ⟨List.nodup_nil, List.forall_mem_nil _⟩)
  | instanceOf expected => rfl
  | oneOf h =>
    rw [minimalOfForm, minimalOfForm]
    cases beq_list_iff.1 h with
    | nil => exact Tree.beq_self (by simp [Tree.WellFormed])
    | cons first rest => exact first
  | oneOfType h =>
    cases h with
    | nil => rfl
    | cons first rest =>
      rw [minimalOfForm, minimalOfForm]
      exact parts _ List.mem_cons_self _ List.mem_cons_self first path

theorem minimal_beq {o : Overrides} (overrides : o.WellFormed) (ha : a.WellFormed)
    (h : (a == b) = true) (path : Cursor) :
    (a.minimal o path == b.minimal o path) = true := by
  induction a generalizing b path with
  | bare v =>
    obtain ⟨w, rfl, -⟩ := beq_bare.1 h
    cases hget : o.get? path with
    | some value =>
      rw [minimal_of_override hget, minimal_of_override hget]
      exact Tree.beq_self (overrides path value hget)
    | none =>
      rw [minimal, minimal, hget]
      rfl
  | typed form required source ih =>
    cases ha with
    | typed wellFormed partsWellFormed =>
      obtain ⟨form', source', rfl, halike⟩ := (beq_typed wellFormed.fields).1 h
      cases hget : o.get? path with
      | some value =>
        rw [minimal_of_override hget, minimal_of_override hget]
        exact Tree.beq_self (overrides path value hget)
      | none =>
        rw [minimal_of_free hget, minimal_of_free hget]
        cases required with
        | false => rfl
        | true =>
          exact minimalOfForm_beq wellFormed halike (fun part hpart other _ hbeq path =>
            ih part hpart (partsWellFormed part hpart) hbeq path) path

theorem ofForm_beq {R : Descriptor → Descriptor → Prop} (wellFormed : form.WellFormed)
    (h : form.Alike R form')
    (parts : ∀ a ∈ form.parts, ∀ b ∈ form'.parts, R a b →
      (Editor.ofDescriptor a == Editor.ofDescriptor b) = true) :
    (Editor.ofForm form == Editor.ofForm form') = true := by
  cases h with
  | scalar s => cases s <;> rfl
  | @shape fields others h =>
    have distinct : fields.Distinct := wellFormed.fields
    rw [Editor.ofForm, Editor.ofForm, Editor.ofFields_eq_map, Editor.ofFields_eq_map]
    exact (Editor.beq_fields (distinct.mapEntries fun _ => Editor.ofDescriptor)).2
      (h.mapEntries (f := fun _ => Editor.ofDescriptor) (g := fun _ => Editor.ofDescriptor)
        fun _ => parts)
  | arrayOf h =>
    rw [Editor.ofForm, Editor.ofForm]
    exact parts _ List.mem_cons_self _ List.mem_cons_self h
  | objectOf h => rfl
  | instanceOf expected => rfl
  | oneOf h => exact h
  | oneOfType h => rfl

theorem editor_beq (ha : a.WellFormed) (h : (a == b) = true) :
    (Editor.ofDescriptor a == Editor.ofDescriptor b) = true := by
  induction a generalizing b with
  | bare v =>
    obtain ⟨w, rfl, -⟩ := beq_bare.1 h
    rfl
  | typed form required source ih =>
    cases ha with
    | typed wellFormed partsWellFormed =>
      obtain ⟨form', source', rfl, halike⟩ := (beq_typed wellFormed.fields).1 h
      have hform : (Editor.ofForm form == Editor.ofForm form') = true :=
        ofForm_beq wellFormed halike fun part hpart other _ hbeq =>
          ih part hpart (partsWellFormed part hpart) hbeq
      rw [Editor.ofDescriptor, Editor.ofDescriptor]
      cases required with
      | true => exact hform
      | false => exact hform

/-- A descriptor without sources whose bare validators are among the given ones. -/
inductive Unsourced (given : Validator → Prop) : Descriptor → Prop where
  | typed {form : TypeForm Descriptor} {required : Bool}
      (parts : ∀ d ∈ form.parts, Unsourced given d) : Unsourced given (.typed form required none)
  | bare {v : Validator} (h : given v) : Unsourced given (.bare v)

theorem acceptsMember_eq {given : Validator → Prop}
    (apart : ∀ v w, given v → given w → v.id = w.id → v = w)
    (ha : a.WellFormed) (hb : b.WellFormed) (unsourced : a.Unsourced given)
    (unsourced' : b.Unsourced given) (h : (a == b) = true) (value : Option PropValue) :
    a.acceptsMember value = b.acceptsMember value := by
  induction a generalizing b value with
  | bare v =>
    obtain ⟨w, rfl, hid⟩ := beq_bare.1 h
    cases unsourced with
    | bare hv =>
      cases unsourced' with
      | bare hw => rw [apart v w hv hw hid]
  | typed form required source ih =>
    cases ha with
    | typed wellFormed partsWellFormed =>
      obtain ⟨form', source', rfl, halike⟩ := (beq_typed wellFormed.fields).1 h
      cases hb with
      | typed wellFormed' partsWellFormed' =>
        cases unsourced with
        | typed parts =>
          cases unsourced' with
          | typed parts' =>
            rcases PropValue.missing_or_present value with hvalue | ⟨present, hvalue, rfl⟩
            · rw [acceptsMember_missing hvalue, acceptsMember_missing hvalue]
            · rw [acceptsMember_form hvalue, acceptsMember_form hvalue]
              refine halike.allows_eq wellFormed wellFormed' ?_ present
              exact fun part hpart other hother hbeq => ih part hpart
                (partsWellFormed part hpart) (partsWellFormed' other hother) (parts part hpart)
                (parts' other hother) hbeq

end Descriptor

/-- In a reachable session an identity belongs to one handle. -/
theorem Session.Valid.handle_unique {s : Session} (hs : s.Valid) {v w : Validator}
    (hv : v ∈ s.handles) (hw : w ∈ s.handles) (hid : v.id = w.id) : v = w := by
  obtain ⟨p, hp, hv⟩ := mem_handles.1 hv
  obtain ⟨q, hq, hw⟩ := mem_handles.1 hw
  exact (hs.apart p hp q hq v hv w hw hid).2

namespace Descriptor

/-- Equality of descriptors ignores sources and the order of fields, and it is an equivalence.
Equal descriptors have equal minimal values and equal editors and are equal when made required.
Without sources they accept the same values. -/
theorem beq_interchangeable :
    (∀ (form : TypeForm Descriptor) (required : Bool) (source source' : Option Validator),
      (typed form required source).WellFormed →
      (typed form required source == typed form required source') = true) ∧
    (∀ (fields others : Keyed Descriptor) (required : Bool) (source source' : Option Validator),
      (typed (.shape fields) required source).WellFormed → fields.entries.Perm others.entries →
      (typed (.shape fields) required source == typed (.shape others) required source') = true) ∧
    (Equivalence fun a b : {d : Descriptor // d.WellFormed} => (a.1 == b.1) = true) ∧
    ∀ a b : Descriptor, a.WellFormed → b.WellFormed → (a == b) = true →
      (∀ o : Overrides, o.WellFormed → ∀ path, (a.minimal o path == b.minimal o path) = true) ∧
      (Editor.ofDescriptor a == Editor.ofDescriptor b) = true ∧
      (a.toRequired == b.toRequired) = true ∧
      ∀ s : Session, s.Reachable → a.Unsourced (· ∈ s.handles) → b.Unsourced (· ∈ s.handles) →
        ∀ value, a.accepts value = b.accepts value := by
  refine ⟨fun _ _ _ _ => beq_sources, fun _ _ _ _ _ => beq_shape_of_perm,
    ⟨fun a => beq_refl a.2, ?symm, ?trans⟩, ?consumers⟩
  case symm =>
    intro a b
    exact beq_symm a.2 b.2
  case trans =>
    intro a b c
    exact beq_trans a.2 b.2
  case consumers =>
    intro a b ha hb h
    refine ⟨fun o ho => minimal_beq ho ha h, editor_beq ha h, beq_toRequired ha h, ?_⟩
    intro s reachable unsourced unsourced' value
    exact acceptsMember_eq (fun v w => reachable.valid.handle_unique) ha hb unsourced unsourced' h
      (some value)

def origin (start : Binary64) : Descriptor := .ofForm (.oneOf [.num (.double start)])

/-- The fields of a scale: where it starts, and a unit that a validator checks. -/
def scaleFields (start : Binary64) (unit : Validator) : List (String × Descriptor) :=
  [("origin", origin start), ("unit", .bare unit)]

def requiredShape (fields : List (String × Descriptor)) : Descriptor :=
  (ofForm (.shape ⟨fields⟩)).toRequired

theorem scale_spec {given : Validator → Prop} {start : Binary64} {unit : Validator}
    (h : given unit) {fields : List (String × Descriptor)}
    (hperm : fields.Perm (scaleFields start unit)) :
    (requiredShape fields).WellFormed ∧ (requiredShape fields).Unsourced given := by
  have hnames : (fields.map (·.1)).Nodup := (hperm.map _).nodup_iff.2 (by simp [scaleFields])
  have hparts {d : Descriptor} (hd : d ∈ fields.map (·.2)) : d = origin start ∨ d = .bare unit :=
    List.mem_pair.1 ((hperm.map (·.2)).mem_iff.1 hd)
  constructor
  · refine .typed ⟨hnames, List.forall_mem_nil _⟩ fun d hd => ?_
    rcases hparts hd with rfl | rfl
    · exact .typed ⟨List.nodup_nil, List.forall_mem_singleton.2 (by simp [Tree.WellFormed])⟩
        (List.forall_mem_nil _)
    · exact .bare unit
  · refine .typed fun d hd => ?_
    rcases hparts hd with rfl | rfl
    · exact .typed (List.forall_mem_nil _)
    · exact .bare h

/-- The two zeros are equal, so the two orders of a scale from them are. -/
theorem scale_beq (unit : Validator) :
    (requiredShape (scaleFields .zero unit) ==
      requiredShape (scaleFields (.neg .zero) unit).reverse) = true := by
  have horigin : (origin .zero == origin (.neg .zero)) = true := by decide +kernel
  have hunit : (bare unit == bare unit) = true := beq_bare.2 ⟨unit, rfl, rfl⟩
  have distinct : (Keyed.mk (scaleFields .zero unit)).Distinct := by
    simp [Keyed.Distinct, Keyed.keys, scaleFields]
  refine beq_of_alike distinct (.shape ((Keyed.agree_iff distinct).2 ⟨rfl, fun e he => ?_⟩))
  rcases List.mem_pair.1 he with rfl | rfl
  · exact ⟨_, rfl, horigin⟩
  · exact ⟨_, rfl, hunit⟩

theorem beq_interchangeable_scale :
    let unit := (Session.wordList.run .empty).1
    let overrides := Overrides.empty.insert [.key "unit"] (.str "meter")
    let scale := requiredShape (scaleFields .zero unit)
    let mirrored := requiredShape (scaleFields (.neg .zero) unit).reverse
    (scale == mirrored) = true ∧
      (scale.minimal overrides [] == mirrored.minimal overrides []) = true ∧
      scale.accepts (.obj {}) = mirrored.accepts (.obj {}) := by
  intro unit overrides scale mirrored
  obtain ⟨reachable, built, -⟩ := Session.wordList_spec
  have hoverrides : overrides.WellFormed := by
    intro path value h
    rw [Overrides.get?_insert] at h
    split at h
    · cases h
      simp [Tree.WellFormed]
    · cases h
  obtain ⟨hscale, unsourced⟩ := scale_spec built.mem_handles (.refl (scaleFields .zero unit))
  obtain ⟨hmirrored, unsourced'⟩ := scale_spec built.mem_handles
    (List.reverse_perm (scaleFields (.neg .zero) unit))
  obtain ⟨-, -, -, consumers⟩ := beq_interchangeable
  obtain ⟨minimal, -, -, accepts⟩ := consumers _ _ hscale hmirrored (scale_beq unit)
  exact ⟨scale_beq unit, minimal overrides hoverrides [],
    accepts _ reachable unsourced unsourced' _⟩

end Descriptor

end FixtureBench
