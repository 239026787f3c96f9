import FixtureBench.Proofs.Recipe.Recovery

/-!
# Demanding a value before or after inference

A validator that a patched library makes is recorded together with its required counterpart, and
both entries stay as they are. So inference from the counterpart gives what inference from the
validator gives after it is made required, with the counterpart as its source, and the source is
what decides.
-/

namespace FixtureBench

namespace Session

variable {s later : Session} {ref : RegistryRef}

/-- A known product is inferred with either handle as the source, and as required by one of them. -/
theorem Valid.infer_toRequired (hs : s.Valid) {v : Validator} {form : TypeForm Validator}
    (product : ⟨v, some form⟩ ∈ s.products) (known : ((s.registry ref).lookup? v).isSome)
    (hlater : s.Later later) :
    (later.registry ref).infer v.toRequired = ((later.registry ref).infer v).toRequired := by
  have hrequired : v.toRequired.isRequired = true := by
    obtain ⟨id, hproduct⟩ := hs.eq_optional product rfl
    obtain rfl : v = .optional (id + 1) id form.check := congrArg Product.validator hproduct
    rfl
  rw [hs.infer_product product rfl known hlater (List.mem_cons_of_mem _ List.mem_cons_self),
    hs.infer_product product rfl known hlater List.mem_cons_self, hrequired]
  rfl

end Session

namespace Recipe

variable {s : Session} {lib : Library} {ref : RegistryRef}

/-- Let a library that records in a registry make a validator, a scalar or one of other validators.
In every later session, inference from its required counterpart gives the inferred descriptor made
required, down to the sources, and that descriptor accepts what the counterpart accepts. -/
theorem infer_make_toRequired (reachable : s.Reachable) (held : lib ∈ s.libraries)
    (patched : lib.registry = some ref) {form : TypeForm Validator} (wellFormed : form.WellFormed)
    (parts : ∀ v ∈ form.parts, v ∈ s.handles) {v : Validator} {s' : Session}
    (hrun : (make lib form).run s = (v, s')) {later : Session} (hlater : s'.Later later) :
    (later.registry ref).infer v.toRequired = ((later.registry ref).infer v).toRequired ∧
      ∀ value, ((later.registry ref).infer v).toRequired.accepts value =
        v.toRequired.acceptsValue value := by
  obtain ⟨hmade, product, known⟩ := make_spec reachable held patched wellFormed parts
  rw [hrun] at hmade product known
  have hvalid := (reachable.later hmade).valid
  have hinfer := hvalid.infer_toRequired product known hlater
  refine ⟨hinfer, fun value => ?_⟩
  rw [← hinfer]
  exact Descriptor.acceptsMember_source (Registry.source?_infer v.toRequired) (some value)

def madeWords : Validator × Session :=
  let ((lib, word), s) := (Session.openWith wordCheck).run .empty
  (make lib (.arrayOf word)).run s

theorem infer_make_toRequired_words :
    ((Session.newLibrary.run madeWords.2).2.registry 0).infer madeWords.1.toRequired =
        (((Session.newLibrary.run madeWords.2).2.registry 0).infer madeWords.1).toRequired ∧
      (((Session.newLibrary.run madeWords.2).2.registry 0).infer madeWords.1).toRequired.accepts
        .null = madeWords.1.toRequired.acceptsValue .null := by
  obtain ⟨reachable, held, patched, made, -⟩ := Session.openWith_spec wordCheck .empty
  rw [madeWords]
  generalize (Session.openWith wordCheck).run .empty = opened at reachable held patched made ⊢
  obtain ⟨⟨lib, word⟩, s⟩ := opened
  have handles := List.forall_mem_singleton.2 (Session.mem_handles.2 ⟨_, made, List.mem_cons_self⟩)
  have wellFormed : (TypeForm.arrayOf word).WellFormed := ⟨List.nodup_nil, List.forall_mem_nil _⟩
  obtain ⟨hinfer, haccepts⟩ := infer_make_toRequired reachable held patched wellFormed handles rfl
    (.single (.newLibrary _))
  exact ⟨hinfer, haccepts .null⟩

end Recipe

end FixtureBench
