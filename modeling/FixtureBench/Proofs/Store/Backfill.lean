import FixtureBench.Proofs.Descriptor.Minimal
import FixtureBench.Proofs.Fixtures
import FixtureBench.Proofs.Store.Log

/-!
# Filling in introduces no failures

A program makes its validators in a session and dispatches actions to a bench, which infers the
types of a component with a registry of the session when the component is loaded. If these types
are safe, every prop that an instance lacks is filled in with a value that passes. So the failures
of an instance are those of the props that it stores.
-/

namespace FixtureBench

/-- The failures of the declared props that an instance stores, each checked by itself, in the order
of declaration. An instance that is no object stores nothing. -/
def Component.storedErrors (component : Component) (stored : PropValue) : List PropError :=
  component.propTypes.entries.filterMap fun (name, v) => do
    let value ← (← stored.asObject?).get? name
    match v.checkGuarded ⟨[(name, value)]⟩ name component.displayName with
    | .ok () => none
    | .error error => some error

namespace Session

/-- Programs with a bench that infers with a registry. A program works on its session and dispatches
actions, in any order. -/
inductive Dispatched (ref : RegistryRef) : Session → List Dispatch → Prop where
  | start {s : Session} (reachable : s.Reachable) : Dispatched ref s []
  | work {s s' : Session} {ds : List Dispatch} (before : Dispatched ref s ds) (step : s.Step s') :
      Dispatched ref s' ds
  | dispatch {s : Session} {ds : List Dispatch} (before : Dispatched ref s ds) (a : Action) :
      Dispatched ref s (ds ++ [⟨s.registry ref, a⟩])

variable {ref : RegistryRef} {s s₀ : Session} {ds : List Dispatch} {v : Validator}

theorem Dispatched.reachable (h : s.Dispatched ref ds) : s.Reachable := by
  induction h with
  | start reachable => exact reachable
  | work before step ih => exact .tail ih step
  | dispatch before a ih => exact ih

theorem Dispatched.registry (h : s.Dispatched ref ds) {d : Dispatch} (hd : d ∈ ds) :
    ∃ s₀ : Session, s₀.Reachable ∧ s₀.Later s ∧ d.registry = s₀.registry ref := by
  induction h with
  | start reachable => cases hd
  | work before step ih =>
    obtain ⟨s₀, reachable, later, hregistry⟩ := ih hd
    exact ⟨s₀, reachable, .tail later step, hregistry⟩
  | @dispatch s ds before a ih =>
    rcases List.mem_append.1 hd with hd | hd
    · exact ih hd
    · obtain rfl := List.mem_singleton.1 hd
      exact ⟨s, before.reachable, .refl, rfl⟩

theorem Valid.mem_handles_of_known (hs₀ : s₀.Valid) (hlater : s₀.Later s) (hv : v ∈ s.handles)
    {entry : RegistryEntry} (known : (s₀.registry ref).lookup? v = some entry) :
    v ∈ s₀.handles := by
  obtain ⟨hs, hextends⟩ := hlater.valid_extends hs₀
  obtain ⟨w, hw, hid⟩ := hs₀.known ref v.id entry known
  obtain ⟨p, hp, hvp⟩ := mem_handles.1 hv
  obtain ⟨q, hq, hwq⟩ := mem_handles.1 (hextends.handles hw)
  rw [(hs.apart p hp q hq v hvp w hwq hid.symm).2]
  exact hw

theorem Valid.sourced_of_safe (hs₀ : s₀.Valid) (hlater : s₀.Later s) (hv : v ∈ s.handles)
    (safe : ((s₀.registry ref).infer v).Safe) :
    ((s₀.registry ref).infer v).Sourced (· ∈ s₀.handles) := by
  cases hlookup : (s₀.registry ref).lookup? v with
  | none =>
    rw [Registry.infer_unknown hlookup] at safe
    cases safe
  | some entry =>
    have hmem := hs₀.mem_handles_of_known hlater hv hlookup
    refine hs₀.sourced_infer (fun _ h => h) ?_ hmem
    intro p hp v hhandle _ form hform part hpart
    exact ((hs₀.tests hp hhandle hform).2.2 part hpart).1

theorem Valid.safe_scalar (hs : s.Valid) {lib : Library} (held : lib ∈ s.libraries)
    (patched : lib.registry = some ref) {scalar : Scalar}
    (hv : v ∈ Product.handles ⟨lib.scalar scalar, some (.scalar scalar)⟩) :
    ((s.registry ref).infer v).Safe := by
  have known := (hs.patched lib held ref patched).2 scalar
  rw [hs.infer_product (hs.scalars lib held scalar) rfl known .refl hv]
  cases v.isRequired with
  | false => exact .optional
  | true => exact .scalar

end Session

/-- The types of a loaded component were inferred with the registry of its load. -/
theorem History.types_of {ds : List Dispatch} {now : Selection}
    (selected : (of ds).state.selected = some now) {component : Component}
    (loaded : now.reference = some component) :
    ∃ d ∈ ds, now.types = some (component.inferTypes d.registry) := by
  have hnow := selection_of ds now selected
  have hreference := hnow.reference
  rw [loaded] at hreference
  obtain ⟨load, hlast, rfl⟩ := Option.map_eq_some_iff.1 hreference.symm
  obtain ⟨r, hr, hload⟩ := exists_of_last? _ hlast
  obtain ⟨component, -, rfl⟩ := Option.map_eq_some_iff.1 hload
  refine ⟨r.toDispatch, ?_, by rw [hnow.types, hlast]; rfl⟩
  rw [← dispatched_of ds]
  exact List.mem_map_of_mem ((List.rtakeWhile_suffix _ _).subset hr)

/-- A declared prop of a filled-in instance passes or fails as the stored value does, and passes if
none is stored. -/
theorem Fixtures.checkGuarded_fillMissing {leaf : Validator → Prop} {d : Descriptor}
    (sourced : d.Sourced leaf) (safe : d.Safe) {v : Validator} (source : d.source? = some v)
    {types : Keyed Descriptor} {name : String} (declared : types.get? name = some d)
    (index : UInt64) (stored : Props) (component : String) :
    v.checkGuarded (fillMissing .empty index stored types.entries) name component =
      match stored.get? name with
      | none => .ok ()
      | some value => v.checkGuarded ⟨[(name, value)]⟩ name component := by
  obtain ⟨form, required, tests⟩ := sourced.tests_of_safe safe source
  have hfilled := get?_fillMissing .empty index stored types.entries name
  rw [← Keyed.get?, declared] at hfilled
  cases hstored : stored.get? name with
  | none =>
    rw [hstored] at hfilled
    apply tests.checkGuarded_of_passed
    rw [hfilled]
    exact sourced.check_minimal safe [.index index, .key name] source _
  | some value =>
    rw [hstored] at hfilled
    refine tests.checkGuarded_congr (hfilled.trans ?_) component
    simp [Keyed.get?]

namespace Selection

open Session in
/-- If the types that were inferred at load are safe, the failures of an instance are those of the
props that it stores. The declared validators can be any that the program has made; only those of
libraries with the registry have safe types. -/
theorem instanceErrors_backfilled {ref : RegistryRef} {s : Session} {ds : List Dispatch}
    (program : s.Dispatched ref ds) {now : Selection}
    (selected : (History.of ds).state.selected = some now) {component : Component}
    (loaded : now.reference = some component) (distinct : component.propTypes.Distinct)
    (made : ∀ v ∈ component.propTypes.values, v ∈ s.handles)
    (safe : ∀ types ∈ now.types, ∀ d ∈ types.values, d.Safe) {fixtures : Fixtures}
    (hfixtures : now.fixtures = some fixtures) {i : Nat} {stored : PropValue}
    (hstored : fixtures.instances[i]? = some stored) :
    now.instanceErrors i .empty [] = some (component.storedErrors stored) := by
  obtain ⟨d, hd, htypes⟩ := History.types_of selected loaded
  obtain ⟨s₀, reachable, later, hregistry⟩ := program.registry hd
  rw [hregistry] at htypes
  have hprops : now.instanceProps i .empty [] = some (Fixtures.fillMissing .empty (UInt64.ofNat i)
      (stored.asObject?.getD {}) (component.inferTypes (s₀.registry ref)).entries) := by
    simp [instanceProps, htypes, hfixtures, Fixtures.instanceProps, hstored, logCallbacks]
  rw [instanceErrors, loaded, hprops]
  refine congrArg some (List.filterMap_congr fun e he => ?_)
  have hdeclared : (component.inferTypes (s₀.registry ref)).get? e.1 =
      some ((s₀.registry ref).infer e.2) := by
    rw [Component.inferTypes, Keyed.get?_map, distinct.get?_of_mem he]
    rfl
  have hmem : e.2 ∈ component.propTypes.values := List.mem_map_of_mem he
  have hsafe : ((s₀.registry ref).infer e.2).Safe := by
    refine safe _ htypes _ ?_
    rw [Component.inferTypes, Keyed.values_map]
    exact List.mem_map_of_mem hmem
  have hsourced := reachable.valid.sourced_of_safe later (made e.2 hmem) hsafe
  dsimp only
  rw [Fixtures.checkGuarded_fillMissing hsourced hsafe (Registry.source?_infer e.2) hdeclared]
  cases stored.asObject? with
  | none => rfl
  | some members =>
    rw [Option.getD_some]
    change _ = (members.get? e.1).bind _
    cases members.get? e.1 <;> rfl

end Selection

def Component.spinner (lib : Library) : Component :=
  ⟨"Spinner", ⟨[("size", lib.number.toRequired), ("label", lib.string)]⟩⟩

/-- An instance that stores nothing, and one that stores a number as its label. -/
def Fixtures.spinner : Fixtures := ⟨[.obj {}, .obj ⟨[("label", .num .zero)]⟩], {}⟩

def Dispatch.spinner (registry : Registry) (lib : Library) : List Dispatch :=
  [⟨registry, .selectComponent "spinner"⟩, ⟨registry, .componentLoaded "spinner" (.spinner lib)⟩,
    ⟨registry, .fixturesLoaded "spinner" .spinner⟩]

open Session in
theorem Selection.instanceErrors_backfilled_spinner :
    ∃ (s : Session) (lib : Library) (now : Selection),
      s.Dispatched 0 (Dispatch.spinner (s.registry 0) lib) ∧
      (History.of (Dispatch.spinner (s.registry 0) lib)).state.selected = some now ∧
      now.instanceErrors 0 .empty [] = some [] ∧
      now.instanceErrors 1 .empty [] =
        some [.invalidType "label" "Spinner" "number" "string"] := by
  obtain ⟨reachable, held, patched, -⟩ := openWith_spec wordCheck .empty
  generalize (openWith wordCheck).run .empty = opened at reachable held patched
  obtain ⟨⟨lib, word⟩, s⟩ := opened
  have hs : s.Valid := Reachable.valid reachable
  have program : s.Dispatched 0 (Dispatch.spinner (s.registry 0) lib) :=
    .dispatch (.dispatch (.dispatch (.start reachable) _) _) _
  have number : lib.number.toRequired ∈
      Product.handles ⟨lib.scalar .number, some (.scalar .number)⟩ :=
    List.mem_cons_of_mem _ List.mem_cons_self
  have string : lib.string ∈ Product.handles ⟨lib.scalar .string, some (.scalar .string)⟩ :=
    List.mem_cons_self
  have distinct : (Component.spinner lib).propTypes.Distinct :=
    show ["size", "label"].Nodup by decide
  have made : ∀ v ∈ (Component.spinner lib).propTypes.values, v ∈ s.handles := by
    intro v hv
    rcases List.mem_pair.1 hv with rfl | rfl
    · exact mem_handles.2 ⟨_, hs.scalars lib held .number, number⟩
    · exact mem_handles.2 ⟨_, hs.scalars lib held .string, string⟩
  have safe : ∀ types ∈ some ((Component.spinner lib).inferTypes (s.registry 0)),
      ∀ d ∈ types.values, d.Safe := by
    rintro types ⟨⟩ d hd
    rcases List.mem_pair.1 hd with rfl | rfl
    · exact hs.safe_scalar held patched number
    · exact hs.safe_scalar held patched string
  have backfilled {i : Nat} {stored : PropValue}
      (hstored : Fixtures.spinner.instances[i]? = some stored) :=
    instanceErrors_backfilled program rfl rfl distinct made safe rfl hstored
  obtain ⟨id, hlabel⟩ := hs.eq_optional (hs.scalars lib held .string) rfl
  have hstring : lib.string = .optional (id + 1) id (TypeForm.scalar .string).check :=
    congrArg Product.validator hlabel
  have herrors : (Component.spinner lib).storedErrors (.obj ⟨[("label", .num .zero)]⟩) =
      [.invalidType "label" "Spinner" "number" "string"] := by
    rw [Component.spinner, hstring]
    rfl
  exact ⟨s, lib, _, program, rfl, (backfilled (i := 0) rfl).trans rfl,
    (backfilled (i := 1) rfl).trans (congrArg some herrors)⟩

end FixtureBench
