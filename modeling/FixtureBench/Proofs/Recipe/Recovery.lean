import FixtureBench.Proofs.Descriptor.Equality
import FixtureBench.Proofs.Recipe.Basic

/-!
# Inference recovers recipes

A product of a library that a registry knows stays known by the same form, so its description is
the same in every later session. Following a recipe leaves such a product at every node;
`Recipe.infer_build` collects this over the recipe.
-/

namespace FixtureBench

namespace Recipe

variable {s : Session} {lib : Library} {ref : RegistryRef}

/-- What a patched library makes is a product that its registry knows. -/
theorem make_spec (reachable : s.Reachable) (held : lib ∈ s.libraries)
    (patched : lib.registry = some ref) {form : TypeForm Validator} (wellFormed : form.WellFormed)
    (parts : ∀ v ∈ form.parts, v ∈ s.handles) :
    s.Later ((make lib form).run s).2 ∧
      ⟨((make lib form).run s).1, some form⟩ ∈ ((make lib form).run s).2.products ∧
      ((((make lib form).run s).2.registry ref).lookup? ((make lib form).run s).1).isSome := by
  have composite (h : form.kind.isScalar = false) :
      s.Later ((Session.build lib form).run s).2 := .single (.build held h wellFormed parts)
  have product := reachable.valid.product_build held patched wellFormed parts
  cases form with
  | scalar scalar =>
    have hknown := (reachable.valid.patched lib held ref patched).2 scalar
    exact ⟨.refl, reachable.valid.scalars lib held scalar, hknown⟩
  | _ => exact ⟨composite rfl, product⟩

/-- A recipe was followed: inference returns the description now and later, and the description
equals the descriptor of the recipe. -/
structure Recovered (s : Session) (ref : RegistryRef) (b : Built) : Prop where
  handle : b.handle ∈ s.handles
  inferred : ∀ later, s.Later later → (later.registry ref).infer b.handle = b.description
  described : b.description.beq b.recipe.descriptor = true

theorem Recovered.later {b : Built} (h : Recovered s ref b) (reachable : s.Reachable) {s' : Session}
    (hlater : s.Later s') : Recovered s' ref b where
  handle := (hlater.valid_extends reachable.valid).2.handles h.handle
  inferred _ h' := h.inferred _ (hlater.trans h')
  described := h.described

/-- Following the recipe in any session recovers it. -/
def Recovers (lib : Library) (ref : RegistryRef) (recipe : Recipe) : Prop :=
  ∀ s : Session, s.Reachable → lib ∈ s.libraries → recipe.Ready s →
    s.Later ((recipe.build lib).run s).2 ∧ ((recipe.build lib).run s).1.recipe = recipe ∧
      Recovered ((recipe.build lib).run s).2 ref ((recipe.build lib).run s).1

/-- What following one recipe leaves for the recipes that come after it. -/
theorem Recovers.next {recipe : Recipe} (h : recipe.Recovers lib ref) (reachable : s.Reachable)
    (held : lib ∈ s.libraries) (ready : recipe.Ready s) :
    s.Later ((recipe.build lib).run s).2 ∧ ((recipe.build lib).run s).2.Reachable ∧
      lib ∈ ((recipe.build lib).run s).2.libraries ∧
      (∀ other : Recipe, other.Ready s → other.Ready ((recipe.build lib).run s).2) ∧
      ((recipe.build lib).run s).1.recipe = recipe ∧
      ∀ later, ((recipe.build lib).run s).2.Later later →
        Recovered later ref ((recipe.build lib).run s).1 := by
  obtain ⟨hlater, hrecipe, hrecovered⟩ := h s reachable held ready
  have hextends := (hlater.valid_extends reachable.valid).2
  have reachable' := reachable.later hlater
  exact ⟨hlater, reachable', hextends.libraries lib held, fun _ h => h.of_extends hextends, hrecipe,
    fun _ h => hrecovered.later reachable' h⟩

theorem buildFields_spec {fields : List (String × Recipe)}
    (h : ∀ recipe ∈ fields.map (·.2), recipe.Recovers lib ref) (reachable : s.Reachable)
    (held : lib ∈ s.libraries) (ready : ∀ recipe ∈ fields.map (·.2), recipe.Ready s) :
    s.Later ((buildFields lib fields).run s).2 ∧
      ((buildFields lib fields).run s).1.map (fun e => (e.1, e.2.recipe)) = fields ∧
      ∀ b ∈ ((buildFields lib fields).run s).1.map (·.2),
        Recovered ((buildFields lib fields).run s).2 ref b := by
  induction fields generalizing s with
  | nil => exact ⟨.refl, rfl, fun _ h => nomatch h⟩
  | cons e rest ih =>
    obtain ⟨hlater, reachable', held', hready, hrecipe, hrecovered⟩ :=
      (h e.2 List.mem_cons_self).next reachable held (ready e.2 List.mem_cons_self)
    obtain ⟨hlater', hrecipes, hrest⟩ := ih (fun r hr => h r (List.mem_cons_of_mem _ hr))
      reachable' held' fun r hr => hready r (ready r (List.mem_cons_of_mem _ hr))
    refine ⟨hlater.trans hlater', ?_, ?_⟩
    · exact congrArg₂ List.cons (congrArg (Prod.mk e.1) hrecipe) hrecipes
    · intro b hb
      rcases List.mem_cons.1 hb with rfl | hb
      · exact hrecovered _ hlater'
      · exact hrest b hb

theorem buildList_spec {alternatives : List Recipe}
    (h : ∀ recipe ∈ alternatives, recipe.Recovers lib ref) (reachable : s.Reachable)
    (held : lib ∈ s.libraries) (ready : ∀ recipe ∈ alternatives, recipe.Ready s) :
    s.Later ((buildList lib alternatives).run s).2 ∧
      ((buildList lib alternatives).run s).1.map (·.recipe) = alternatives ∧
      ∀ b ∈ ((buildList lib alternatives).run s).1,
        Recovered ((buildList lib alternatives).run s).2 ref b := by
  induction alternatives generalizing s with
  | nil => exact ⟨.refl, rfl, fun _ h => nomatch h⟩
  | cons recipe rest ih =>
    obtain ⟨hlater, reachable', held', hready, hrecipe, hrecovered⟩ :=
      (h recipe List.mem_cons_self).next reachable held (ready recipe List.mem_cons_self)
    obtain ⟨hlater', hrecipes, hrest⟩ := ih (fun r hr => h r (List.mem_cons_of_mem _ hr))
      reachable' held' fun r hr => hready r (ready r (List.mem_cons_of_mem _ hr))
    refine ⟨hlater.trans hlater', congrArg₂ List.cons hrecipe hrecipes, ?_⟩
    intro b hb
    rcases List.mem_cons.1 hb with rfl | hb
    · exact hrecovered _ hlater'
    · exact hrest b hb

/-- The parts of a form are followed in order, and all of them are recovered in the end. -/
theorem buildForm_spec {form : TypeForm Recipe}
    (h : ∀ recipe ∈ form.parts, recipe.Recovers lib ref) (reachable : s.Reachable)
    (held : lib ∈ s.libraries) (ready : ∀ recipe ∈ form.parts, recipe.Ready s) :
    s.Later ((buildForm lib form).run s).2 ∧
      ((buildForm lib form).run s).1.map (·.recipe) = form ∧
      ∀ b ∈ ((buildForm lib form).run s).1.parts,
        Recovered ((buildForm lib form).run s).2 ref b := by
  have single (recipe : Recipe) (hmem : recipe ∈ form.parts) :=
    h recipe hmem s reachable held (ready recipe hmem)
  cases form with
  | shape fields =>
    obtain ⟨hlater, hrecipes, hrecovered⟩ := buildFields_spec h reachable held ready
    exact ⟨hlater, congrArg (fun entries => TypeForm.shape ⟨entries⟩) hrecipes, hrecovered⟩
  | arrayOf item =>
    obtain ⟨hlater, hrecipe, hrecovered⟩ := single item List.mem_cons_self
    exact ⟨hlater, congrArg TypeForm.arrayOf hrecipe, List.forall_mem_singleton.2 hrecovered⟩
  | objectOf entry =>
    obtain ⟨hlater, hrecipe, hrecovered⟩ := single entry List.mem_cons_self
    exact ⟨hlater, congrArg TypeForm.objectOf hrecipe, List.forall_mem_singleton.2 hrecovered⟩
  | oneOfType alternatives =>
    obtain ⟨hlater, hrecipes, hrecovered⟩ := buildList_spec h reachable held ready
    exact ⟨hlater, congrArg TypeForm.oneOfType hrecipes, hrecovered⟩
  | _ => exact ⟨.refl, rfl, fun _ h => nomatch h⟩

theorem chosen_handle {t : Session} (ht : t.Valid) {made : Validator} {form : TypeForm Validator}
    (product : ⟨made, some form⟩ ∈ t.products) (required : Bool) :
    (if required then made.toRequired else made) ∈ Product.handles ⟨made, some form⟩ ∧
      (if required then made.toRequired else made).isRequired = required := by
  obtain ⟨id, hproduct⟩ := ht.eq_optional product rfl
  obtain rfl : made = .optional (id + 1) id form.check := congrArg Product.validator hproduct
  cases required with
  | false => exact ⟨List.mem_cons_self, rfl⟩
  | true => exact ⟨List.mem_cons_of_mem _ List.mem_cons_self, rfl⟩

/-- Once the parts of a node are recovered, making its validator recovers the node. -/
theorem recovered_node (patched : lib.registry = some ref) {t t' : Session}
    (reachable : t.Reachable) (held : lib ∈ t.libraries) {form : TypeForm Built}
    (literals : ∀ literal ∈ form.literals, literal.WellFormed)
    (parts : ∀ b ∈ form.parts, Recovered t ref b) {made : Validator}
    (hrun : (make lib (form.listed.map Built.handle)).run t = (made, t')) (required : Bool) :
    t.Later t' ∧ Recovered t' ref ⟨.node (form.map Built.recipe) required,
      if required then made.toRequired else made,
      .typed (form.listed.map Built.description) required
        (some (if required then made.toRequired else made))⟩ := by
  have wellFormed : form.listed.WellFormed := TypeForm.wellFormed_listed literals
  have listed (b : Built) (hb : b ∈ form.listed.parts) : Recovered t ref b :=
    parts b (TypeForm.parts_listed hb)
  have handles : ∀ v ∈ (form.listed.map Built.handle).parts, v ∈ t.handles := by
    rw [TypeForm.parts_map]
    exact List.forall_mem_map.2 fun b hb => (listed b hb).handle
  obtain ⟨hlater, product, known⟩ :=
    make_spec reachable held patched (wellFormed.map Built.handle) handles
  rw [hrun] at hlater product known
  have ht' : t'.Valid := (hlater.valid_extends reachable.valid).1
  obtain ⟨hmem, hrequired⟩ := chosen_handle ht' product required
  refine ⟨hlater, Session.mem_handles.2 ⟨_, product, hmem⟩, ?_, ?_⟩
  · intro later hlater'
    rw [ht'.infer_product product rfl known hlater' hmem, hrequired, TypeForm.map_map]
    have hdescriptions : form.listed.map ((later.registry ref).infer ∘ Built.handle) =
        form.listed.map Built.description :=
      TypeForm.map_congr fun b hb => (listed b hb).inferred later (hlater.trans hlater')
    rw [hdescriptions]
  · have hdescriptor : (form.map Built.recipe |>.map descriptor).listed =
        form.listed.map (descriptor ∘ Built.recipe) := by
      rw [TypeForm.map_map, TypeForm.map_listed]
    rw [descriptor_node, hdescriptor]
    exact Descriptor.beq_map wellFormed (fun b hb => (listed b hb).described) required _ none

theorem recovers (patched : lib.registry = some ref) (recipe : Recipe) :
    recipe.Recovers lib ref := by
  induction recipe with
  | leaf v =>
    intro s reachable held ready
    cases ready with
    | leaf made bare handle =>
      refine ⟨.refl, rfl, Session.mem_handles.2 ⟨_, made, handle⟩, ?_, ?_⟩
      · intro later hlater
        obtain ⟨hvalid, hextends⟩ := hlater.valid_extends reachable.valid
        exact hvalid.infer_direct (hextends.products _ made) bare handle
      · exact beq_self_eq_true v.id
  | node form required ih =>
    intro s reachable held ready
    cases ready with
    | node literals parts =>
      obtain ⟨hlater, hform, hparts⟩ := buildForm_spec ih reachable held parts
      have hextends := (hlater.valid_extends reachable.valid).2
      have hliterals : ∀ literal ∈ ((buildForm lib form).run s).1.literals,
          literal.WellFormed := by
        rwa [← TypeForm.literals_map Built.recipe, hform]
      obtain ⟨hlater', hrecovered⟩ := recovered_node patched (reachable.later hlater)
        (hextends.libraries lib held) hliterals hparts rfl required
      rw [hform] at hrecovered
      exact ⟨hlater.trans hlater', rfl, hrecovered⟩

/-- Follow a recipe with a library that records in a registry. What the registry infers from the
validator, then and in every later session, is equal to the descriptor of the recipe, and has the
validator of every node as the source of that node. -/
theorem infer_build (reachable : s.Reachable) (held : lib ∈ s.libraries)
    (patched : lib.registry = some ref) {recipe : Recipe} (ready : recipe.Ready s) {b : Built}
    {s' : Session} (hrun : (recipe.build lib).run s = (b, s')) :
    s.Later s' ∧ ∀ later, s'.Later later →
      (later.registry ref).infer b.handle = b.description ∧
        ((later.registry ref).infer b.handle == recipe.descriptor) = true := by
  obtain ⟨hlater, hrecipe, hrecovered⟩ := recovers patched recipe s reachable held ready
  rw [hrun] at hlater hrecipe hrecovered
  refine ⟨hlater, fun later h => ⟨hrecovered.inferred later h, ?_⟩⟩
  rw [hrecovered.inferred later h, ← hrecipe]
  exact hrecovered.described

/-- A required shape that lists one of its names twice. -/
def card (word : Validator) : Recipe :=
  .node (.shape ⟨[("name", .node (.scalar .string) true),
    ("tags", .node (.arrayOf (.leaf word)) false), ("name", .leaf word)]⟩) true

theorem ready_card {word : Validator} (made : ⟨word, none⟩ ∈ s.products) : (card word).Ready s := by
  have leaf : (Recipe.leaf word).Ready s := .leaf made rfl List.mem_cons_self
  have tags : (Recipe.node (.arrayOf (.leaf word)) false).Ready s :=
    .node (fun _ h => nomatch h) (List.forall_mem_singleton.2 leaf)
  have name : (Recipe.node (.scalar .string) true).Ready s :=
    .node (fun _ h => nomatch h) fun _ h => nomatch h
  refine .node (fun _ h => nomatch h) ?_
  simp [TypeForm.parts, Keyed.values, leaf, tags, name]

def builtCard : Built × Session :=
  let ((lib, word), s) := (Session.openWith wordCheck).run .empty
  ((card word).build lib).run s

theorem infer_build_card :
    ((Session.newLibrary.run builtCard.2).2.registry 0).infer builtCard.1.handle =
        builtCard.1.description ∧
      (((Session.newLibrary.run builtCard.2).2.registry 0).infer builtCard.1.handle ==
        (card ((Session.openWith wordCheck).run .empty).1.2).descriptor) = true := by
  obtain ⟨reachable, held, patched, made, -⟩ := Session.openWith_spec wordCheck .empty
  rw [builtCard]
  generalize (Session.openWith wordCheck).run .empty = opened at reachable held patched made ⊢
  obtain ⟨⟨lib, word⟩, s⟩ := opened
  exact (infer_build reachable held patched (ready_card made) rfl).2 _ (.single (.newLibrary _))

end Recipe

end FixtureBench
