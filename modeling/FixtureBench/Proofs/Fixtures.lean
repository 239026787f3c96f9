import FixtureBench.Fixtures.Basic
import FixtureBench.Proofs.Equality
import FixtureBench.Proofs.PropValue

/-!
# Fixtures and their documents

A document holds fixtures if it is an object and its list of instances, when it has one, is an
array. Fixtures are written with the instances first and the other members after them, in the order
in which they were read.
-/

namespace FixtureBench

namespace Fixtures

def plain (f : Fixtures) : Fixtures :=
  ⟨f.instances.map PropValue.plain, f.extra.map PropValue.plain⟩

/-- The members of a document other than the list of instances. -/
def others (members : Keyed Json) : Keyed Json := ⟨members.entries.filter (·.1 ≠ instancesKey)⟩

theorem distinct_others {members : Keyed Json} (h : members.Distinct) : (others members).Distinct :=
  List.Pairwise.sublist (List.filter_sublist.map _) h

theorem instancesKey_not_mem_others (members : Keyed Json) :
    instancesKey ∉ (others members).keys := by
  simp [others, Keyed.keys]

section Read

variable {members : Keyed Json}

theorem ofJson_of_absent (h : members.get? instancesKey = none) :
    ofJson (.obj members) = .ok ⟨[], (others members).map PropValue.ofJson⟩ := by
  rw [ofJson, h]
  rfl

theorem ofJson_of_array {items : List Json} (h : members.get? instancesKey = some (.arr items)) :
    ofJson (.obj members) =
      .ok ⟨items.map PropValue.ofJson, (others members).map PropValue.ofJson⟩ := by
  rw [ofJson, h]
  rfl

/-- A list of instances that is no array holds none. -/
theorem array_of_ofJson {f : Fixtures} (h : ofJson (.obj members) = .ok f) :
    members.get? instancesKey = none ∨ ∃ items, members.get? instancesKey = some (.arr items) := by
  rw [ofJson] at h
  cases hget : members.get? instancesKey with
  | none => exact .inl rfl
  | some found =>
    rw [hget] at h
    cases found with
    | arr items => exact .inr ⟨items, rfl⟩
    | _ => cases h

theorem exists_ofJson_iff {doc : Json} : (∃ f, ofJson doc = .ok f) ↔
    ∃ members, doc = .obj members ∧ (members.get? instancesKey = none ∨
      ∃ items, members.get? instancesKey = some (.arr items)) := by
  constructor
  · rintro ⟨f, h⟩
    cases doc with
    | obj members => exact ⟨members, rfl, array_of_ofJson h⟩
    | _ => cases h
  · rintro ⟨members, rfl, hget | ⟨items, hget⟩⟩
    · exact ⟨_, ofJson_of_absent hget⟩
    · exact ⟨_, ofJson_of_array hget⟩

theorem extra_of_ofJson {f : Fixtures} (h : ofJson (.obj members) = .ok f) :
    f.extra = (others members).map PropValue.ofJson := by
  rcases array_of_ofJson h with hget | ⟨items, hget⟩
  · rw [ofJson_of_absent hget] at h
    cases h
    rfl
  · rw [ofJson_of_array hget] at h
    cases h
    rfl

end Read

section Write

variable {f : Fixtures}

/-- The instances come first, and every other member keeps its place. -/
theorem toJson_eq (distinct : f.extra.Distinct) (free : instancesKey ∉ f.extra.keys) :
    f.toJson =
      .obj ⟨(instancesKey, f.instancesJson) :: (f.extra.map PropValue.toJson).entries⟩ := by
  have hkeys : (f.extra.map PropValue.toJson).entries.map (·.1) = f.extra.keys :=
    Keyed.keys_map _ _
  have hnodup : ((Keyed.empty.insert instancesKey f.instancesJson).keys ++
      (f.extra.map PropValue.toJson).entries.map (·.1)).Nodup := by
    rw [hkeys]
    exact List.nodup_cons.2 ⟨free, distinct⟩
  rw [toJson, Keyed.insertAll_of_nodup hnodup]
  rfl

theorem toJson_of_others {members : Keyed Json} (distinct : members.Distinct)
    (hextra : f.extra = (others members).map PropValue.ofJson) :
    f.toJson = .obj ⟨(instancesKey, f.instancesJson) :: (others members).entries⟩ := by
  have hdistinct : f.extra.Distinct := hextra ▸ (distinct_others distinct).map _
  have hfree : instancesKey ∉ f.extra.keys := by
    rw [hextra, Keyed.keys_map]
    exact instancesKey_not_mem_others members
  have hothers : f.extra.map PropValue.toJson = others members := by
    rw [hextra, Keyed.map_map]
    simp [Keyed.map]
  rw [toJson_eq hdistinct hfree, hothers]

/-- Fixtures that were read from a document are written as an equal document, if it lists
instances. -/
theorem toJson_beq {members : Keyed Json} (wellFormed : (Tree.obj members).WellFormed)
    (hread : ofJson (.obj members) = .ok f) (hlist : (members.get? instancesKey).isSome) :
    (f.toJson == .obj members) = true := by
  obtain ⟨distinct, -⟩ := Tree.wellFormed_obj.1 wellFormed
  rcases array_of_ofJson hread with hget | ⟨items, hget⟩
  · simp [hget] at hlist
  · have hinstances : f.instancesJson = .arr items := by
      rw [ofJson_of_array hget] at hread
      cases hread
      simp [instancesJson, Function.comp_def]
    rw [toJson_of_others distinct (extra_of_ofJson hread), hinstances]
    exact Tree.beq_obj_of_perm wellFormed (distinct.perm_of_get? hget)

/-- Fixtures that are written and read again have lost nothing but callbacks and instances of
classes. -/
theorem ofJson_toJson (distinct : f.extra.Distinct) (free : instancesKey ∉ f.extra.keys) :
    ofJson f.toJson = .ok f.plain := by
  have hget : (Keyed.mk ((instancesKey, f.instancesJson) ::
      (f.extra.map PropValue.toJson).entries)).get? instancesKey =
        some (.arr (f.instances.map PropValue.toJson)) := by
    simp [Keyed.get?, instancesJson]
  have hothers : others ⟨(instancesKey, f.instancesJson) ::
      (f.extra.map PropValue.toJson).entries⟩ = f.extra.map PropValue.toJson := by
    refine congrArg Keyed.mk ((List.filter_cons_of_neg (by simp)).trans ?_)
    refine List.filter_eq_self.2 fun e he => ?_
    have hkey : e.1 ∈ f.extra.keys := Keyed.keys_map PropValue.toJson _ ▸ List.mem_map_of_mem he
    simpa using fun h : e.1 = instancesKey => free (h ▸ hkey)
  rw [toJson_eq distinct free, ofJson_of_array hget, hothers]
  simp [plain, Keyed.map_map, Function.comp_def]

end Write

/-- Filling in leaves what is there, and gives every other declared prop its minimal value. -/
theorem get?_fillMissing (overrides : Overrides) (index : UInt64) (props : Props)
    (types : List (String × Descriptor)) (name : String) :
    (fillMissing overrides index props types).get? name = (props.get? name).or
      ((types.lookup name).map fun d => d.minimal overrides [.index index, .key name]) := by
  induction types generalizing props with
  | nil => simp [fillMissing]
  | cons declared rest ih =>
    obtain ⟨key, d⟩ := declared
    have hstep : fillMissing overrides index props ((key, d) :: rest) =
        fillMissing overrides index (if props.contains key then props
          else props.insert key (d.minimal overrides [.index index, .key key])) rest := rfl
    rw [hstep, ih, Keyed.lookup_cons_ite]
    by_cases hname : name = key
    · subst hname
      cases hget : props.get? name <;> simp [Keyed.contains, hget]
    · split <;> simp [hname]

end Fixtures

end FixtureBench
