import FixtureBench.Proofs.Cursor.Lens
import FixtureBench.Proofs.Descriptor.Overrides

/-!
# Overrides of places that the minimal value reaches

The generation of a minimal value goes down from its path to the fields of required shapes and to
the one item of required lists, and stops at optional types and at overrides. `Overrides.Reaches`
lists the places where it arrives. An override of such a place has the effect of a write into the
value at this place, and an override of any other place has none.
-/

namespace FixtureBench

/-- The generation of a minimal value at a path arrives at a place below the path. -/
inductive Overrides.Reaches (o : Overrides) : Descriptor → Cursor → Cursor → Prop where
  | start (d : Descriptor) (path : Cursor) : Reaches o d path []
  | field {fields : Keyed Descriptor} {source : Option Validator} {path below : Cursor}
      {name : String} {d : Descriptor} (free : o.get? path = none)
      (named : (name, d) ∈ fields.entries) (rest : Reaches o d (path ++ [.key name]) below) :
      Reaches o (.typed (.shape fields) true source) path (.key name :: below)
  | item {d : Descriptor} {source : Option Validator} {path below : Cursor}
      (free : o.get? path = none) (rest : Reaches o d (path ++ [.index 0]) below) :
      Reaches o (.typed (.arrayOf d) true source) path (.index 0 :: below)
  /-- The first part of a choice is generated at the place of the choice. -/
  | first {d : Descriptor} {others : List Descriptor} {source : Option Validator}
      {path below : Cursor} (free : o.get? path = none) (rest : Reaches o d path below) :
      Reaches o (.typed (.oneOfType (d :: others)) true source) path below

namespace Descriptor

/-- No shape in the descriptor names a field twice. -/
inductive FieldsDistinct : Descriptor → Prop where
  | typed {form : TypeForm Descriptor} {required : Bool} {source : Option Validator}
      (fields : form.fieldNames.Nodup) (parts : ∀ d ∈ form.parts, FieldsDistinct d) :
      FieldsDistinct (.typed form required source)
  | bare (v : Validator) : FieldsDistinct (.bare v)

variable {o : Overrides} {d : Descriptor} {path below : Cursor} {step : Step}
  {source : Option Validator} {value : PropValue}

theorem FieldsDistinct.typed_parts {form : TypeForm Descriptor} {required : Bool}
    (h : (Descriptor.typed form required source).FieldsDistinct) :
    form.fieldNames.Nodup ∧ ∀ d ∈ form.parts, d.FieldsDistinct := by
  cases h with
  | typed fields parts => exact ⟨fields, parts⟩

theorem get?_insert_below (inside : below ≠ []) (o : Overrides) (path : Cursor)
    (value : PropValue) : (o.insert (path ++ below) value).get? path = o.get? path := by
  rw [Overrides.get?_insert, if_neg]
  exact fun h => inside (List.self_eq_append_right.1 h)

theorem minimal_shape (free : o.get? path = none) (fields : Keyed Descriptor) :
    (typed (.shape fields) true source).minimal o path =
      .obj ⟨fields.entries.map fun e => (e.1, e.2.minimal o (path ++ [.key e.1]))⟩ := by
  rw [minimal_of_free free, if_pos rfl, minimalOfForm, minimalFields_eq_map]

theorem minimal_arrayOf (free : o.get? path = none) (item : Descriptor) :
    (typed (.arrayOf item) true source).minimal o path =
      .arr [item.minimal o (path ++ [.index 0])] := by
  rw [minimal_of_free free, if_pos rfl, minimalOfForm]

theorem minimal_oneOfType (o : Overrides) (path : Cursor) (first : Descriptor)
    (others : List Descriptor) :
    (typed (.oneOfType (first :: others)) true source).minimal o path = first.minimal o path := by
  cases hget : o.get? path with
  | some value => rw [minimal_of_override hget, minimal_of_override hget]
  | none => rw [minimal_of_free hget, if_pos rfl, minimalOfForm]

/-- An override below one step makes no difference to the minimal values below another. -/
theorem minimal_insert_beside {other : Step} (h : other ≠ step) (value : PropValue) :
    d.minimal (o.insert (path ++ step :: below) value) (path ++ [other]) =
      d.minimal o (path ++ [other]) := by
  apply minimal_insert_apart
  rw [List.prefix_append_right_inj, List.cons_prefix_cons]
  exact fun hprefix => h hprefix.1

/-! ## Reached places -/

/-- A write into a member of an object that was made entry by entry changes this entry. -/
theorem setOr_members {α : Type} {fields : Keyed α} (distinct : fields.Distinct) {name : String}
    {a : α} (named : (name, a) ∈ fields.entries) {old new : String × α → PropValue}
    {missing : CursorError}
    (h : (old (name, a)).setOr missing below value = .ok (new (name, a)))
    (same : ∀ e ∈ fields.entries, e.1 ≠ name → new e = old e) :
    (Tree.obj ⟨fields.entries.map fun e => (e.1, old e)⟩).setOr missing (.key name :: below) value =
      .ok (.obj ⟨fields.entries.map fun e => (e.1, new e)⟩) := by
  have distinct' : (Keyed.mk (fields.entries.map fun e => (e.1, old e))).Distinct := by
    unfold Keyed.Distinct Keyed.keys
    rw [List.map_map]
    exact distinct
  have hmem : (name, old (name, a)) ∈ fields.entries.map fun e => (e.1, old e) :=
    List.mem_map.2 ⟨_, named, rfl⟩
  have hchild : (Tree.obj ⟨fields.entries.map fun e => (e.1, old e)⟩).child? (.key name) =
      some (old (name, a)) := distinct'.get?_of_mem hmem
  rw [Tree.setOr_child hchild, h]
  change Except.ok (Tree.obj (Keyed.insert _ name _)) = _
  rw [distinct'.insert_eq_map (List.mem_map_of_mem hmem), List.map_map]
  refine congrArg (fun entries => Except.ok (Tree.obj ⟨entries⟩)) ?_
  refine List.map_congr_left fun e he => ?_
  by_cases hname : e.1 = name
  · -- The name belongs to one entry only.
    obtain rfl : e = (name, a) := by
      subst hname
      have hfield := (distinct.get?_of_mem he).symm.trans (distinct.get?_of_mem named)
      exact Prod.ext rfl (Option.some.inj hfield)
    exact if_pos rfl
  · rw [same e he hname]
    exact if_neg hname

theorem setOr_minimal (distinct : d.FieldsDistinct) (h : o.Reaches d path below)
    (missing : CursorError) (value : PropValue) :
    (d.minimal o path).setOr missing below value =
      .ok (d.minimal (o.insert (path ++ below) value) path) := by
  induction h with
  | start d path =>
    have hget : (o.insert (path ++ []) value).get? path = some value := by
      rw [Overrides.get?_insert, if_pos (List.append_nil path).symm]
    rw [minimal_of_override hget]
    rfl
  | @field fields source path below name d free named rest ih =>
    obtain ⟨hfields, hparts⟩ := distinct.typed_parts
    have free' := (get?_insert_below (List.cons_ne_nil (.key name) below) o path value).trans free
    have hfield := ih (hparts d (List.mem_map_of_mem named))
    rw [List.append_assoc] at hfield
    rw [minimal_shape free, minimal_shape free']
    refine setOr_members hfields named hfield fun e _ hname => ?_
    exact minimal_insert_beside (fun h => hname (Step.key.inj h)) value
  | @item d source path below free rest ih =>
    obtain ⟨-, hparts⟩ := distinct.typed_parts
    have free' := (get?_insert_below (List.cons_ne_nil (.index 0) below) o path value).trans free
    have hitem := ih (hparts d List.mem_cons_self)
    rw [List.append_assoc] at hitem
    have hchild : (Tree.arr [d.minimal o (path ++ [.index 0])]).child? (.index 0) =
        some (d.minimal o (path ++ [.index 0])) := rfl
    rw [minimal_arrayOf free, minimal_arrayOf free', Tree.setOr_child hchild, hitem]
    rfl
  | @first d others source path below free rest ih =>
    obtain ⟨-, hparts⟩ := distinct.typed_parts
    rw [minimal_oneOfType, minimal_oneOfType]
    exact ih (hparts d List.mem_cons_self)

/-! ## Other places -/

/-- Only an override below the step to a part can make a difference to the minimal value there. -/
theorem minimal_insert_part {part : Descriptor} (inside : below ≠ [])
    (h : ∀ rest, below = step :: rest →
      part.minimal (o.insert (path ++ [step] ++ rest) value) (path ++ [step]) =
        part.minimal o (path ++ [step])) :
    part.minimal (o.insert (path ++ below) value) (path ++ [step]) =
      part.minimal o (path ++ [step]) := by
  cases below with
  | nil => exact absurd rfl inside
  | cons other rest =>
    by_cases hstep : other = step
    · subst hstep
      have hrest := h rest rfl
      rwa [List.append_assoc] at hrest
    · exact minimal_insert_beside (Ne.symm hstep) value

/-- A place that is not reached is not reached from any part, so it makes no difference to what the
parts contribute. -/
theorem minimal_required_of_not_reaches {form : TypeForm Descriptor} (free : o.get? path = none)
    (inside : below ≠ []) (h : ¬ o.Reaches (typed form true source) path below)
    (parts : ∀ d ∈ form.parts, ∀ path below, ¬ o.Reaches d path below →
      d.minimal (o.insert (path ++ below) value) path = d.minimal o path) :
    (typed form true source).minimal (o.insert (path ++ below) value) path =
      (typed form true source).minimal o path := by
  have free' := (get?_insert_below inside o path value).trans free
  cases form with
  | shape fields =>
    rw [minimal_shape free, minimal_shape free']
    refine congrArg (fun entries => Tree.obj ⟨entries⟩) (List.map_congr_left fun e he => ?_)
    refine congrArg (Prod.mk e.1) (minimal_insert_part inside fun rest hrest => ?_)
    refine parts e.2 (List.mem_map_of_mem he) _ _ fun hreach => h ?_
    rw [hrest]
    exact .field free he hreach
  | arrayOf item =>
    rw [minimal_arrayOf free, minimal_arrayOf free']
    refine congrArg (Tree.arr [·]) (minimal_insert_part inside fun rest hrest => ?_)
    refine parts item List.mem_cons_self _ _ fun hreach => h ?_
    rw [hrest]
    exact .item free hreach
  | oneOfType alternatives =>
    cases alternatives with
    | nil =>
      rw [minimal_of_free free, minimal_of_free free']
      rfl
    | cons first others =>
      rw [minimal_oneOfType, minimal_oneOfType]
      exact parts first List.mem_cons_self _ _ fun hreach => h (.first free hreach)
  | _ =>
    rw [minimal_of_free free, minimal_of_free free']
    rfl

/-- An override of a place that is not reached is never looked up. -/
theorem minimal_insert_of_not_reaches (h : ¬ o.Reaches d path below) (value : PropValue) :
    d.minimal (o.insert (path ++ below) value) path = d.minimal o path := by
  induction d generalizing path below with
  | bare v =>
    have inside : below ≠ [] := fun hnil => h (hnil ▸ .start _ _)
    rw [minimal, minimal, get?_insert_below inside]
  | typed form required source ih =>
    have inside : below ≠ [] := fun hnil => h (hnil ▸ .start _ _)
    have hpath := get?_insert_below inside o path value
    cases free : o.get? path with
    | some used => rw [minimal_of_override free, minimal_of_override (hpath.trans free)]
    | none =>
      cases required with
      | false => rw [minimal_of_free free, minimal_of_free (hpath.trans free)]; rfl
      | true => exact minimal_required_of_not_reaches free inside h fun d hd path below => ih d hd

/-- One override more, at a place below the path: if the generation of the minimal value reaches
the place, the new value is the old one with the override written at the place, and this write
succeeds; if not, the minimal value is as it was. -/
theorem minimal_insert (distinct : d.FieldsDistinct) (o : Overrides) (path below : Cursor)
    (value : PropValue) :
    (o.Reaches d path below → (d.minimal o path).set below value =
      .ok (d.minimal (o.insert (path ++ below) value) path)) ∧
    (¬ o.Reaches d path below →
      d.minimal (o.insert (path ++ below) value) path = d.minimal o path) :=
  ⟨fun h => setOr_minimal distinct h _ value, fun h => minimal_insert_of_not_reaches h value⟩

/-- A team with at least one member, known by a name. -/
def team : Descriptor :=
  .typed (.shape ⟨[("motto", .typed (.scalar .string) false none),
    ("members", .typed (.arrayOf (.typed (.oneOfType [.typed (.scalar .string) true none])
      true none)) true none)]⟩) true none

theorem fieldsDistinct_team : team.FieldsDistinct := by
  have scalar (s : Scalar) (required : Bool) :
      (Descriptor.typed (.scalar s) required none).FieldsDistinct :=
    .typed List.nodup_nil (List.forall_mem_nil _)
  have name : (Descriptor.typed (.oneOfType [.typed (.scalar .string) true none])
      true none).FieldsDistinct :=
    .typed List.nodup_nil (List.forall_mem_singleton.2 (scalar _ _))
  refine .typed (by decide) ?_
  simp only [TypeForm.parts, Keyed.values, List.map_cons, List.map_nil, List.forall_mem_cons]
  exact ⟨scalar _ _, .typed List.nodup_nil (List.forall_mem_singleton.2 name),
    List.forall_mem_nil _⟩

/-- The first member of a team is reached through its index, but not through the key that spells
the index. -/
theorem minimal_insert_team :
    (team.minimal .empty [.index 4]).set [.key "members", .index 0] (.str "Ann") =
        .ok (team.minimal (.insert .empty ([.index 4] ++ [.key "members", .index 0]) (.str "Ann"))
          [.index 4]) ∧
      team.minimal (.insert .empty ([.index 4] ++ [.key "members", .key "0"]) (.str "Ann"))
          [.index 4] = team.minimal .empty [.index 4] := by
  constructor
  · exact (minimal_insert fieldsDistinct_team _ _ _ _).1
      (.field rfl (List.mem_cons_of_mem _ List.mem_cons_self) (.item rfl (.start _ _)))
  · refine (minimal_insert fieldsDistinct_team _ _ _ _).2 fun h => ?_
    rw [team] at h
    cases h with
    | field free named rest =>
      simp only [List.mem_cons, Prod.mk.injEq, String.reduceEq, false_and, true_and, false_or,
        List.not_mem_nil, or_false] at named
      subst named
      cases rest

end Descriptor

end FixtureBench
