import FixtureBench.Proofs.Choice
import FixtureBench.Proofs.Recipe.Basic

/-!
# Requiring more

A recipe is tightened by marking more of its nodes required, at any depth. The validator of the
tightened recipe passes less, and so does its descriptor. A choice asks its alternatives one after
another, so for validators the leaves must not break off: a tightened alternative may pass a value
that an alternative before it, tightened, no longer passes, and the search must get that far.

`Validator.Relaxes` is what holds between the two validators. It goes from the parts of a form to
the validators of the form (`Validator.Tests.relaxes`), and from there through the two runs that
follow the recipes, whatever the libraries and the sessions are.
-/

namespace FixtureBench

namespace Validator

/-- The check never breaks off. -/
def Total (v : Validator) : Prop := ∀ value ctx, v.checkValue value ctx ≠ .panicked

/-- The first validator never breaks off, and it passes all that the second one passes. -/
structure Relaxes (v w : Validator) : Prop where
  total : v.Total
  passes : ∀ value ctx, w.checkValue value ctx = .passed → v.checkValue value ctx = .passed

end Validator

namespace Verdict

theorem forM_ne_panicked {γ : Type} {items : List γ} {check : γ → Verdict}
    (h : ∀ a ∈ items, check a ≠ .panicked) : items.forM check ≠ Verdict.panicked :=
  (decides_forM items (fun a => (check a).isPassed) fun a ha => ⟨h a ha, rfl⟩).1

theorem forM_mono {γ : Type} {items : List γ} {check strict : γ → Verdict}
    (weaker : ∀ a ∈ items, strict a = .passed → check a = .passed)
    (passed : items.forM strict = Verdict.passed) : items.forM check = Verdict.passed := by
  rw [forM_eq_passed_iff] at passed ⊢
  exact fun a ha => weaker a ha (passed a ha)

end Verdict

namespace TypeForm

theorem checkAny_ne_panicked {alternatives : List Validator} (h : ∀ v ∈ alternatives, v.Total)
    (value : PropValue) (ctx : CheckContext) : checkAny value ctx alternatives ≠ .panicked := by
  induction alternatives with
  | nil => exact (Verdict.decides_rejected _).1
  | cons v rest ih =>
    have hv := h v List.mem_cons_self (some value) ctx
    have hrest := ih fun w hw => h w (List.mem_cons_of_mem v hw)
    rw [checkAny]
    cases hc : v.checkValue (some value) ctx with
    | ok u => exact Verdict.decides_passed.1
    | error e =>
      cases e with
      | rejected error => exact hrest
      | panicked => exact absurd hc hv

theorem check_ne_panicked {form : TypeForm Validator} (h : ∀ part ∈ form.parts, part.Total)
    (value : PropValue) (ctx : CheckContext) : form.check value ctx ≠ .panicked := by
  cases form with
  | scalar s => exact Verdict.decides_ite.1
  | shape fields =>
    cases value with
    | obj members =>
      exact Verdict.forM_ne_panicked fun e he => h e.2 (List.mem_map_of_mem he) _ _
    | _ => exact (Verdict.decides_rejected _).1
  | arrayOf item =>
    cases value with
    | arr items => exact Verdict.forM_ne_panicked fun _ _ => h item List.mem_cons_self _ _
    | _ => exact (Verdict.decides_rejected _).1
  | objectOf entry =>
    cases value with
    | obj members => exact Verdict.forM_ne_panicked fun _ _ => h entry List.mem_cons_self _ _
    | _ => exact (Verdict.decides_rejected _).1
  | instanceOf expected =>
    -- There are no parts, so that any test of parts will do.
    have hdecides : ((instanceOf expected).check value ctx).Decides
        ((instanceOf expected).allows (fun _ _ => false) value) :=
      check_decides (List.forall_mem_nil _) value ctx
    exact hdecides.1
  | oneOf literals => exact Verdict.decides_ite.1
  | oneOfType alternatives => exact checkAny_ne_panicked h value ctx

variable {γ : Type} {f g : γ → Validator}

/-- A search that ends with a tightened alternative ends there at the latest when the alternatives
are relaxed. -/
theorem checkAny_relaxes {alternatives : List γ} (h : ∀ a ∈ alternatives, (f a).Relaxes (g a))
    {value : PropValue} {ctx : CheckContext}
    (passed : checkAny value ctx (alternatives.map g) = .passed) :
    checkAny value ctx (alternatives.map f) = .passed := by
  induction alternatives with
  | nil => exact passed
  | cons a rest ih =>
    have ha := h a List.mem_cons_self
    have hrest := ih fun b hb => h b (List.mem_cons_of_mem a hb)
    rw [List.map_cons, checkAny] at passed ⊢
    cases hf : (f a).checkValue (some value) ctx with
    | ok u => rfl
    | error e =>
      cases e with
      | panicked => exact absurd hf (ha.total (some value) ctx)
      | rejected error =>
        apply hrest
        -- What the relaxed alternative rejects, the tightened one does not pass.
        cases hg : (g a).checkValue (some value) ctx with
        | ok u => cases hf.symm.trans (ha.passes (some value) ctx hg)
        | error e =>
          rw [hg] at passed
          cases e with
          | rejected error => exact passed
          | panicked => cases passed

theorem check_relaxes {form : TypeForm γ} (h : ∀ a ∈ form.parts, (f a).Relaxes (g a))
    {value : PropValue} {ctx : CheckContext} (passed : (form.map g).check value ctx = .passed) :
    (form.map f).check value ctx = .passed := by
  cases form with
  | shape fields =>
    cases value with
    | obj members =>
      have hfields := List.forall_mem_map.1 (Verdict.forM_eq_passed_iff.1 passed)
      refine Verdict.forM_eq_passed_iff.2 (List.forall_mem_map.2 fun e he => ?_)
      exact (h e.2 (List.mem_map_of_mem he)).passes _ _ (hfields e he)
    | _ => exact passed
  | arrayOf item =>
    cases value with
    | arr items =>
      have hitem := (h item List.mem_cons_self).passes
      exact Verdict.forM_mono (fun _ _ => hitem _ _) passed
    | _ => exact passed
  | objectOf entry =>
    cases value with
    | obj members =>
      have hentry := (h entry List.mem_cons_self).passes
      exact Verdict.forM_mono (fun _ _ => hentry _ _) passed
    | _ => exact passed
  | oneOfType alternatives => exact checkAny_relaxes h passed
  | _ => exact passed

end TypeForm

namespace Validator

/-- What a node does not demand with more marks, it does not demand with fewer. -/
theorem optional_of_marked {required required' : Bool} (marked : required = true → required' = true)
    (h : (!required') = true) : (!required) = true := by
  cases required with
  | false => rfl
  | true => simp [marked rfl] at h

/-- A validator of a form relaxes one of the same form if its parts do, unless it is the only one
that demands a value. -/
theorem Tests.relaxes {γ : Type} {f g : γ → Validator} {form : TypeForm γ} {v w : Validator}
    {required required' : Bool} (hv : v.Tests (form.map f) required)
    (hw : w.Tests (form.map g) required') (marked : required = true → required' = true)
    (parts : ∀ a ∈ form.parts, (f a).Relaxes (g a)) : v.Relaxes w where
  total value ctx := by
    rcases PropValue.missing_or_present value with hvalue | ⟨present, hpresent, rfl⟩
    · exact (hv.decides_missing hvalue ctx).1
    · rw [hv.checkValue_some hpresent]
      apply TypeForm.check_ne_panicked
      rw [TypeForm.parts_map]
      exact List.forall_mem_map.2 fun a ha => (parts a ha).total
  passes value ctx passed := by
    rcases PropValue.missing_or_present value with hvalue | ⟨present, hpresent, rfl⟩
    · have hoptional := (hw.decides_missing hvalue ctx).eq_passed_iff.1 passed
      exact (hv.decides_missing hvalue ctx).eq_passed_iff.2 (optional_of_marked marked hoptional)
    · rw [hw.checkValue_some hpresent] at passed
      rw [hv.checkValue_some hpresent]
      exact TypeForm.check_relaxes parts passed

end Validator

theorem Session.Valid.tests_scalar {s : Session} (hs : s.Valid) {lib : Library}
    (held : lib ∈ s.libraries) (scalar : Scalar) :
    (lib.scalar scalar).Tests (.scalar scalar) false := by
  obtain ⟨id, hproduct⟩ := hs.eq_optional (hs.scalars lib held scalar) rfl
  have hscalar : lib.scalar scalar = .optional (id + 1) id (TypeForm.scalar scalar).check :=
    congrArg Product.validator hproduct
  rw [hscalar]
  exact .optional (id + 1) id

namespace Recipe

/-- The second recipe is the first one with more nodes marked required. -/
inductive Tightened : Recipe → Recipe → Prop where
  | leaf (v : Validator) : Tightened (.leaf v) (.leaf v)
  | node (form : TypeForm (Recipe × Recipe)) {required required' : Bool}
      (marked : required = true → required' = true)
      (parts : ∀ pair ∈ form.parts, Tightened pair.1 pair.2) :
      Tightened (.node (form.map Prod.fst) required) (.node (form.map Prod.snd) required')

inductive EachLeaf (P : Validator → Prop) : Recipe → Prop where
  | leaf {v : Validator} (h : P v) : EachLeaf P (.leaf v)
  | node {form : TypeForm Recipe} {required : Bool}
      (parts : ∀ recipe ∈ form.parts, EachLeaf P recipe) : EachLeaf P (.node form required)

/-- The descriptor of a tightened recipe accepts less. -/
theorem Tightened.acceptsMember {recipe strict : Recipe} (h : recipe.Tightened strict)
    {value : Option PropValue} (accepted : strict.descriptor.acceptsMember value = true) :
    recipe.descriptor.acceptsMember value = true := by
  induction h generalizing value with
  | leaf v => exact accepted
  | @node form required required' marked parts ih =>
    rw [descriptor_node, TypeForm.map_map, ← TypeForm.map_listed] at accepted ⊢
    rcases PropValue.missing_or_present value with hvalue | ⟨present, hpresent, rfl⟩
    · rw [Descriptor.acceptsMember_missing hvalue] at accepted ⊢
      exact Validator.optional_of_marked marked accepted
    · rw [Descriptor.acceptsMember_form hpresent, TypeForm.allows_map] at accepted ⊢
      refine TypeForm.allows_mono (fun pair hpair value => ?_) accepted
      exact ih pair (TypeForm.parts_listed hpair)

section Build

variable {lib lib' : Library}

/-- However two recipes are followed with two libraries, the first validator relaxes the second. -/
def BuildsRelaxed (lib lib' : Library) (pair : Recipe × Recipe) : Prop :=
  ∀ s s' : Session, ((pair.1.build lib).run s).1.handle.Relaxes
    ((pair.2.build lib').run s').1.handle

theorem tests_make (scalars : ∀ scalar, (lib.scalar scalar).Tests (.scalar scalar) false)
    (form : TypeForm Validator) (s : Session) : ((make lib form).run s).1.Tests form false := by
  cases form with
  | scalar scalar => exact scalars scalar
  | _ => exact lib.tests_build _ s.workshop

theorem tests_build_node (scalars : ∀ scalar, (lib.scalar scalar).Tests (.scalar scalar) false)
    (form : TypeForm Recipe) (required : Bool) (s : Session) :
    (((node form required).build lib).run s).1.handle.Tests
      (((buildForm lib form).run s).1.listed.map Built.handle) required := by
  have hmade := tests_make scalars (((buildForm lib form).run s).1.listed.map Built.handle)
    ((buildForm lib form).run s).2
  cases required with
  | false => exact hmade
  | true => exact hmade.toRequired

theorem buildFields_relaxes {fields : List (String × Recipe × Recipe)}
    (h : ∀ pair ∈ fields.map (·.2), BuildsRelaxed lib lib' pair) (s s' : Session) :
    ∃ built : List (String × Built × Built),
      ((buildFields lib (fields.map fun e => (e.1, e.2.1))).run s).1 =
        built.map (fun e => (e.1, e.2.1)) ∧
      ((buildFields lib' (fields.map fun e => (e.1, e.2.2))).run s').1 =
        built.map (fun e => (e.1, e.2.2)) ∧
      ∀ b ∈ built.map (·.2), b.1.handle.Relaxes b.2.handle := by
  induction fields generalizing s s' with
  | nil => exact ⟨[], rfl, rfl, List.forall_mem_nil _⟩
  | cons e rest ih =>
    obtain ⟨built, hbuilt, hbuilt', hrest⟩ := ih (fun p hp => h p (List.mem_cons_of_mem _ hp))
      ((e.2.1.build lib).run s).2 ((e.2.2.build lib').run s').2
    refine ⟨(e.1, ((e.2.1.build lib).run s).1, ((e.2.2.build lib').run s').1) :: built, ?_, ?_, ?_⟩
    · exact congrArg (List.cons _) hbuilt
    · exact congrArg (List.cons _) hbuilt'
    · exact List.forall_mem_cons.2 ⟨h e.2 List.mem_cons_self s s', hrest⟩

theorem buildList_relaxes {alternatives : List (Recipe × Recipe)}
    (h : ∀ pair ∈ alternatives, BuildsRelaxed lib lib' pair) (s s' : Session) :
    ∃ built : List (Built × Built),
      ((buildList lib (alternatives.map Prod.fst)).run s).1 = built.map Prod.fst ∧
      ((buildList lib' (alternatives.map Prod.snd)).run s').1 = built.map Prod.snd ∧
      ∀ b ∈ built, b.1.handle.Relaxes b.2.handle := by
  induction alternatives generalizing s s' with
  | nil => exact ⟨[], rfl, rfl, List.forall_mem_nil _⟩
  | cons pair rest ih =>
    obtain ⟨built, hbuilt, hbuilt', hrest⟩ := ih (fun p hp => h p (List.mem_cons_of_mem _ hp))
      ((pair.1.build lib).run s).2 ((pair.2.build lib').run s').2
    refine ⟨(((pair.1.build lib).run s).1, ((pair.2.build lib').run s').1) :: built, ?_, ?_, ?_⟩
    · exact congrArg (List.cons _) hbuilt
    · exact congrArg (List.cons _) hbuilt'
    · exact List.forall_mem_cons.2 ⟨h pair List.mem_cons_self s s', hrest⟩

/-- Two forms that are followed part by part give one form of pairs. -/
theorem buildForm_relaxes {form : TypeForm (Recipe × Recipe)}
    (h : ∀ pair ∈ form.parts, BuildsRelaxed lib lib' pair) (s s' : Session) :
    ∃ built : TypeForm (Built × Built),
      ((buildForm lib (form.map Prod.fst)).run s).1 = built.map Prod.fst ∧
      ((buildForm lib' (form.map Prod.snd)).run s').1 = built.map Prod.snd ∧
      ∀ b ∈ built.parts, b.1.handle.Relaxes b.2.handle := by
  have single (pair : Recipe × Recipe) (hmem : pair ∈ form.parts) := h pair hmem s s'
  cases form with
  | shape fields =>
    obtain ⟨built, hbuilt, hbuilt', hrelaxes⟩ := buildFields_relaxes h s s'
    refine ⟨.shape ⟨built⟩, ?_, ?_, hrelaxes⟩
    · exact congrArg (fun entries => TypeForm.shape ⟨entries⟩) hbuilt
    · exact congrArg (fun entries => TypeForm.shape ⟨entries⟩) hbuilt'
  | arrayOf item =>
    exact ⟨.arrayOf (_, _), rfl, rfl, List.forall_mem_singleton.2 (single item List.mem_cons_self)⟩
  | objectOf entry =>
    exact ⟨.objectOf (_, _), rfl, rfl,
      List.forall_mem_singleton.2 (single entry List.mem_cons_self)⟩
  | oneOfType alternatives =>
    obtain ⟨built, hbuilt, hbuilt', hrelaxes⟩ := buildList_relaxes h s s'
    exact ⟨.oneOfType built, congrArg TypeForm.oneOfType hbuilt,
      congrArg TypeForm.oneOfType hbuilt', hrelaxes⟩
  | scalar scalar => exact ⟨.scalar scalar, rfl, rfl, List.forall_mem_nil _⟩
  | instanceOf expected => exact ⟨.instanceOf expected, rfl, rfl, List.forall_mem_nil _⟩
  | oneOf literals => exact ⟨.oneOf literals, rfl, rfl, List.forall_mem_nil _⟩

/-- A recipe on leaves that never break off gives a validator that relaxes that of the tightened
recipe. -/
theorem Tightened.buildsRelaxed {recipe strict : Recipe} (h : recipe.Tightened strict)
    (scalars : ∀ scalar, (lib.scalar scalar).Tests (.scalar scalar) false)
    (scalars' : ∀ scalar, (lib'.scalar scalar).Tests (.scalar scalar) false)
    (total : recipe.EachLeaf Validator.Total) : BuildsRelaxed lib lib' (recipe, strict) := by
  induction h with
  | leaf v =>
    intro s s'
    cases total with
    | leaf htotal => exact ⟨htotal, fun _ _ passed => passed⟩
  | @node form required required' marked parts ih =>
    intro s s'
    have leaves : ∀ pair ∈ form.parts, pair.1.EachLeaf Validator.Total := by
      cases total with
      | node parts =>
        rw [TypeForm.parts_map] at parts
        exact List.forall_mem_map.1 parts
    obtain ⟨built, hbuilt, hbuilt', hrelaxes⟩ :=
      buildForm_relaxes (fun pair hpair => ih pair hpair (leaves pair hpair)) s s'
    have hv := tests_build_node scalars (form.map Prod.fst) required s
    have hw := tests_build_node scalars' (form.map Prod.snd) required' s'
    rw [hbuilt, ← TypeForm.map_listed, TypeForm.map_map] at hv
    rw [hbuilt', ← TypeForm.map_listed, TypeForm.map_map] at hw
    exact hv.relaxes hw marked fun b hb => hrelaxes b (TypeForm.parts_listed hb)

end Build

/-- Follow a recipe on leaves that never break off, and the recipe with more nodes marked required,
with libraries in use. Whatever passes the validator of the tightened recipe, be it a value or its
absence, passes that of the recipe in the same context, and whatever the descriptor of the tightened
recipe accepts is accepted by that of the recipe. -/
theorem passes_of_tightened {s s' : Session} (reachable : s.Reachable) (reachable' : s'.Reachable)
    {lib lib' : Library} (held : lib ∈ s.libraries) (held' : lib' ∈ s'.libraries)
    {recipe strict : Recipe} (tightened : recipe.Tightened strict)
    (total : recipe.EachLeaf Validator.Total) :
    (∀ value ctx, ((strict.build lib').run s').1.handle.checkValue value ctx = .passed →
      ((recipe.build lib).run s).1.handle.checkValue value ctx = .passed) ∧
    ∀ value, strict.descriptor.accepts value = true → recipe.descriptor.accepts value = true := by
  have hrelaxes := tightened.buildsRelaxed (reachable.valid.tests_scalar held)
    (reachable'.valid.tests_scalar held') total s s'
  exact ⟨hrelaxes.passes, fun _ => tightened.acceptsMember⟩

/-- Users with a name, and a number or a list of words to reach them. With `marked`, the user, the
name and the list are required. -/
def user (word : Validator) (marked : Bool) : Recipe :=
  .node (.shape ⟨[("name", .node (.scalar .string) marked),
    ("contact", .node (.oneOfType [.node (.scalar .number) false,
      .node (.arrayOf (.leaf word)) marked]) false)]⟩) marked

theorem tightened_user (word : Validator) : (user word false).Tightened (user word true) := by
  have name : (node (.scalar .string) false).Tightened (.node (.scalar .string) true) :=
    .node (.scalar .string) (fun _ => rfl) (List.forall_mem_nil _)
  have number : (node (.scalar .number) false).Tightened (.node (.scalar .number) false) :=
    .node (.scalar .number) (fun h => h) (List.forall_mem_nil _)
  have words : (node (.arrayOf (.leaf word)) false).Tightened
      (.node (.arrayOf (.leaf word)) true) :=
    .node (.arrayOf (_, _)) (fun _ => rfl) (List.forall_mem_singleton.2 (.leaf word))
  have contact := Tightened.node (.oneOfType [(_, _), (_, _)]) (fun h : false = true => h)
    (List.forall_mem_cons.2 ⟨number, List.forall_mem_singleton.2 words⟩)
  exact .node (.shape ⟨[("name", _, _), ("contact", _, _)]⟩) (fun _ => rfl)
    (List.forall_mem_cons.2 ⟨name, List.forall_mem_singleton.2 contact⟩)

theorem total_user {word : Validator} (h : word.Total) :
    (user word false).EachLeaf Validator.Total := by
  have scalar (scalar : Scalar) :
      (Recipe.node (.scalar scalar) false).EachLeaf Validator.Total := .node (List.forall_mem_nil _)
  have words : (Recipe.node (.arrayOf (.leaf word)) false).EachLeaf Validator.Total :=
    .node (List.forall_mem_singleton.2 (.leaf h))
  have contact : (Recipe.node (.oneOfType [.node (.scalar .number) false,
      .node (.arrayOf (.leaf word)) false]) false).EachLeaf Validator.Total :=
    .node (List.forall_mem_cons.2 ⟨scalar .number, List.forall_mem_singleton.2 words⟩)
  exact .node (List.forall_mem_cons.2 ⟨scalar .string, List.forall_mem_singleton.2 contact⟩)

def library : Library × Session := Session.newLibrary.run .empty

def word : Validator × Session := (Session.newPair wordCheck).run library.2

def otherLibrary : Library × Session := Session.newLibrary.run word.2

def ada : PropValue := .obj ⟨[("contact", .arr [.str "ada"]), ("name", .str "Ada")]⟩

theorem passes_of_tightened_user :
    (((user word.1 true).build otherLibrary.1).run otherLibrary.2).1.handle.checkValue (some ada)
        ⟨"Card", "user"⟩ = .passed ∧
      (((user word.1 false).build library.1).run word.2).1.handle.checkValue (some ada)
        ⟨"Card", "user"⟩ = .passed ∧
      (user word.1 true).descriptor.accepts ada = true ∧
      (user word.1 false).descriptor.accepts ada = true := by
  have reachable : word.2.Reachable := .tail (.single (.newLibrary .empty)) (.newPair _ wordCheck)
  have reachable' : otherLibrary.2.Reachable := reachable.tail (.newLibrary _)
  have held : library.1 ∈ word.2.libraries := List.mem_cons_self
  have held' : otherLibrary.1 ∈ otherLibrary.2.libraries := List.mem_cons_self
  have total : word.1.Total := (valueOnly_wordCheck 19 18).total
  obtain ⟨passes, accepts⟩ := passes_of_tightened reachable reachable' held held'
    (tightened_user word.1) (total_user total)
  have passed : (((user word.1 true).build otherLibrary.1).run otherLibrary.2).1.handle.checkValue
      (some ada) ⟨"Card", "user"⟩ = .passed := by decide
  have accepted : (user word.1 true).descriptor.accepts ada = true := by decide
  exact ⟨passed, passes _ _ passed, accepted, accepts ada accepted⟩

end Recipe

end FixtureBench
