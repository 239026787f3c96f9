import FixtureBench.Proofs.Descriptor.Overrides
import FixtureBench.Proofs.Fixtures

/-!
# What filling in adds

The props of an instance are the stored ones as they stand, followed by the declared ones that are
missing, in the order of declaration and with their minimal values. Nothing is missing from the
result, so an instance that stores it is left as it is. The minimal value of a missing prop is made
from the overrides at its place and below, and from nothing else.
-/

namespace FixtureBench

namespace Fixtures

/-- The props that an instance stores. One that is no object stores none. -/
def storedProps (stored : PropValue) : Props := stored.asObject?.getD {}

/-- The declared props that are missing, in the order of declaration. -/
def missing (props : Props) (types : List (String × Descriptor)) : List (String × Descriptor) :=
  types.filter fun declared => !props.contains declared.1

def filledIn (overrides : Overrides) (index : UInt64) (declared : String × Descriptor) :
    String × PropValue :=
  (declared.1, declared.2.minimal overrides [.index index, .key declared.1])

def storeProps (f : Fixtures) (index : Nat) (props : Props) : Fixtures :=
  { f with instances := f.instances.set index (.obj props) }

variable {overrides overrides' : Overrides} {index : UInt64} {props : Props}
  {types : List (String × Descriptor)}

theorem missing_cons_of_contains {name : String} (h : props.contains name = true) (d : Descriptor) :
    missing props ((name, d) :: types) = missing props types := by
  simp [missing, h]

theorem missing_cons_of_not_contains {name : String} (h : props.contains name = false)
    (fresh : name ∉ types.map (·.1)) (d : Descriptor) (value : PropValue) :
    missing props ((name, d) :: types) = (name, d) :: missing (props.insert name value) types := by
  have hothers : missing (props.insert name value) types = missing props types := by
    refine List.filter_congr fun declared hdeclared => ?_
    have hne : declared.1 ≠ name := fun heq => fresh (heq ▸ List.mem_map_of_mem hdeclared)
    simp [Keyed.contains, hne]
  rw [hothers]
  simp [missing, h]

/-- Filling in adds what is missing after what is stored. -/
theorem fillMissing_eq (nodup : (types.map (·.1)).Nodup) :
    fillMissing overrides index props types =
      ⟨props.entries ++ (missing props types).map (filledIn overrides index)⟩ := by
  induction types generalizing props with
  | nil => simp [fillMissing, missing]
  | cons declared rest ih =>
    obtain ⟨name, d⟩ := declared
    obtain ⟨fresh, hrest⟩ := List.nodup_cons.1 nodup
    have hstep : fillMissing overrides index props ((name, d) :: rest) =
        fillMissing overrides index (if props.contains name then props
          else props.insert name (d.minimal overrides [.index index, .key name])) rest := rfl
    rw [hstep]
    cases hname : props.contains name with
    | true =>
      rw [if_pos rfl, ih hrest, missing_cons_of_contains hname]
    | false =>
      have habsent : name ∉ props.keys := by
        rw [← Keyed.get?_eq_none_iff]
        simpa [Keyed.contains] using hname
      have hinsert : (props.insert name (d.minimal overrides [.index index, .key name])).entries =
          props.entries ++ [filledIn overrides index (name, d)] :=
        Keyed.insertEntry_of_not_mem habsent _
      rw [if_neg Bool.false_ne_true, ih hrest, hinsert,
        missing_cons_of_not_contains hname fresh d
          (d.minimal overrides [.index index, .key name])]
      simp

theorem missing_fillMissing (overrides : Overrides) (index : UInt64) (props : Props)
    (types : List (String × Descriptor)) :
    missing (fillMissing overrides index props types) types = [] := by
  refine List.filter_eq_nil_iff.2 fun declared hdeclared => ?_
  have hkey : declared.1 ∈ (Keyed.mk types).keys := List.mem_map_of_mem hdeclared
  obtain ⟨d, hd⟩ := Keyed.exists_get?_iff.2 hkey
  have hlookup : types.lookup declared.1 = some d := hd
  simp [Keyed.contains, get?_fillMissing, hlookup]

theorem fillMissing_fillMissing (nodup : (types.map (·.1)).Nodup) :
    fillMissing overrides' index (fillMissing overrides index props types) types =
      fillMissing overrides index props types := by
  rw [fillMissing_eq nodup, missing_fillMissing]
  simp

/-- Overrides that agree at the places of the missing props and below fill in the same values. -/
theorem fillMissing_congr (nodup : (types.map (·.1)).Nodup)
    (h : ∀ place, (∃ declared ∈ missing props types,
      [.index index, .key declared.1] <+: place) → overrides.get? place = overrides'.get? place) :
    fillMissing overrides index props types = fillMissing overrides' index props types := by
  rw [fillMissing_eq nodup, fillMissing_eq nodup]
  refine congrArg (fun filled => Keyed.mk (props.entries ++ filled)) ?_
  refine List.map_congr_left fun declared hdeclared => congrArg (Prod.mk declared.1) ?_
  apply Descriptor.minimal_congr
  intro below
  exact h _ ⟨declared, hdeclared, List.prefix_append _ below⟩

theorem instanceProps_eq {f : Fixtures} {types : Keyed Descriptor} {stored : PropValue}
    (h : f.instances[index.toNat]? = some stored) (overrides : Overrides) :
    f.instanceProps index.toNat types overrides =
      some (fillMissing overrides index (storedProps stored) types.entries) := by
  simp [instanceProps, h, storedProps]

theorem instanceProps_eq_none_iff {f : Fixtures} {index : Nat} {types : Keyed Descriptor}
    {overrides : Overrides} :
    f.instanceProps index types overrides = none ↔ f.instances.length ≤ index := by
  rw [← List.getElem?_eq_none_iff, instanceProps]
  cases f.instances[index]? <;> simp

/-- An instance has props if it is there. They are its stored props as they stand, followed by the
declared ones that are missing, in the order of declaration and with their minimal values. Once they
are stored in the instance, they are its props whatever the overrides are. Other instances make no
difference to them, and neither do overrides of places other than those of missing props and places
below. -/
theorem instanceProps_filledIn (f : Fixtures) (index : UInt64) {types : Keyed Descriptor}
    (distinct : types.Distinct) :
    (∀ overrides, f.instanceProps index.toNat types overrides = none ↔
      f.instances.length ≤ index.toNat) ∧
    ∀ stored, f.instances[index.toNat]? = some stored → ∀ overrides, ∃ props,
      f.instanceProps index.toNat types overrides = some props ∧
      props.entries = (storedProps stored).entries ++
        (missing (storedProps stored) types.entries).map (filledIn overrides index) ∧
      (∀ overrides', (f.storeProps index.toNat props).instanceProps index.toNat types overrides' =
        some props) ∧
      ∀ (f' : Fixtures) (overrides' : Overrides), f'.instances[index.toNat]? = some stored →
        (∀ place, (∃ declared ∈ missing (storedProps stored) types.entries,
          [.index index, .key declared.1] <+: place) →
            overrides'.get? place = overrides.get? place) →
        f'.instanceProps index.toNat types overrides' = some props := by
  refine ⟨fun _ => instanceProps_eq_none_iff, fun stored h overrides => ?_⟩
  refine ⟨_, instanceProps_eq h overrides, ?entries, ?again, ?apart⟩
  case entries => rw [fillMissing_eq distinct]
  case again =>
    intro overrides'
    have hlt : index.toNat < f.instances.length := (List.getElem?_eq_some_iff.1 h).1
    rw [instanceProps_eq (List.getElem?_set_self hlt)]
    exact congrArg some (fillMissing_fillMissing distinct)
  case apart =>
    intro f' overrides' h' hagree
    rw [instanceProps_eq h', fillMissing_congr distinct hagree]

/-- A table has a caption, a number of rows and a list of switches. -/
def tableTypes : Keyed Descriptor :=
  ⟨[("caption", .ofForm (.scalar .string)), ("rows", .typed (.scalar .number) true none),
    ("switches", .typed (.arrayOf (.typed (.scalar .bool) true none)) true none)]⟩

def fiveRows : PropValue := .obj ⟨[("rows", .num (.ofInt64 5))]⟩

/-- The second of two tables stores its rows alone. An override that is meant for the first table
makes no difference to it. -/
theorem instanceProps_filledIn_table :
    let overrides := Overrides.empty.insert [.index 0, .key "caption"] (.str "Prices")
    ∃ props : Props, (Fixtures.mk [.null, fiveRows] {}).instanceProps 1 tableTypes .empty =
        some props ∧
      props.entries = [("rows", .num (.ofInt64 5)), ("caption", .null),
        ("switches", .arr [.bool false])] ∧
      ((Fixtures.mk [.null, fiveRows] {}).storeProps 1 props).instanceProps 1 tableTypes overrides =
        some props ∧
      (Fixtures.mk [.bool true, fiveRows] {}).instanceProps 1 tableTypes overrides =
        some props := by
  intro overrides
  obtain ⟨-, filled⟩ :=
    instanceProps_filledIn ⟨[.null, fiveRows], {}⟩ 1 (by decide : tableTypes.Distinct)
  obtain ⟨props, hprops, hentries, again, apart⟩ := filled fiveRows rfl .empty
  refine ⟨props, hprops, hentries, again overrides, apart _ overrides rfl ?_⟩
  rintro place ⟨declared, -, below, rfl⟩
  simp [overrides, Overrides.get?_insert]

end Fixtures

end FixtureBench
