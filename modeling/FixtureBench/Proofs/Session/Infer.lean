import FixtureBench.Proofs.Descriptor.Grounded
import FixtureBench.Proofs.Descriptor.Infer
import FixtureBench.Proofs.Session.Steps

/-!
# Inference in a session

A registry that knows a validator knows the form it was made from, and the validators in that form
have smaller identities. So inference comes to an end, and a product of a library is described by
the form it was made from with every part inferred, and by itself as the source.
-/

namespace FixtureBench

namespace Session

variable {s : Session} {ref : RegistryRef} {v : Validator}

/-- A product of a library tests its form, and so does its required counterpart. -/
theorem Valid.tests (hs : s.Valid) {p : Product} (hp : p ∈ s.products) (hv : v ∈ p.handles)
    {form : TypeForm Validator} (hform : p.form? = some form) :
    v.Tests form v.isRequired ∧ form.WellFormed ∧
      ∀ part ∈ form.parts, part ∈ s.handles ∧ part.id < v.id := by
  obtain ⟨wellFormed, id, hvalidator, hparts⟩ := hs.built p hp form hform
  rw [Product.handles, hvalidator, List.mem_pair] at hv
  rcases hv with rfl | rfl
  · exact ⟨.optional _ _, wellFormed, fun part hpart =>
      ⟨(hparts part hpart).1, Nat.lt_succ_of_lt (hparts part hpart).2⟩⟩
  · exact ⟨.required _, wellFormed, hparts⟩

/-- What a registry knows of a validator is how the validator was made. -/
theorem Valid.lookup (hs : s.Valid) (hv : v ∈ s.handles) {entry : RegistryEntry}
    (he : (s.registry ref).lookup? v = some entry) :
    ∃ p ∈ s.products, v ∈ p.handles ∧ p.form? = some entry.form ∧
      entry.required = v.isRequired := by
  obtain ⟨p, hp, hhandle⟩ := mem_handles.1 hv
  rcases hs.recorded ref p hp with ⟨form, hform, hlookup⟩ | hlookup
  · rw [hlookup v hhandle] at he
    cases he
    exact ⟨p, hp, hhandle, hform, rfl⟩
  · rw [hlookup v hhandle] at he
    cases he

/-- Every registry of a session is falling. -/
theorem Valid.falling (hs : s.Valid) (ref : RegistryRef) : (s.registry ref).Falling := by
  intro id entry he part hpart
  obtain ⟨v, hv, rfl⟩ := hs.known ref id entry he
  obtain ⟨p, hp, hhandle, hform, -⟩ := hs.lookup hv he
  obtain ⟨-, -, hparts⟩ := hs.tests hp hhandle hform
  exact (hparts part hpart).2

/-- Inference describes a validator down to leaves in a class of validators, if the class has the
parts of its members too. -/
theorem Valid.sourced_infer (hs : s.Valid) {leaf : Validator → Prop}
    (handles : ∀ v, leaf v → v ∈ s.handles)
    (closed : ∀ p ∈ s.products, ∀ v ∈ p.handles, leaf v → ∀ form, p.form? = some form →
      ∀ part ∈ form.parts, leaf part) (hv : leaf v) :
    ((s.registry ref).infer v).Sourced leaf := by
  -- By induction on the descent itself, which ends since the registry is falling.
  have infers := (hs.falling ref).infers_infer v
  generalize (s.registry ref).infer v = d at infers
  induction infers with
  | unknown missing => exact .bare hv
  | @known v entry he describe parts ih =>
    obtain ⟨p, hp, hhandle, hform, hrequired⟩ := hs.lookup (handles v hv) he
    obtain ⟨tests, wellFormed, -⟩ := hs.tests hp hhandle hform
    have described : ∀ part ∈ entry.form.parts, (describe part).source? = some part := by
      intro part hpart
      rw [← (parts part hpart).infer_eq]
      exact Registry.source?_infer part
    rw [hrequired]
    exact .typed describe tests wellFormed described fun part hpart =>
      ih part hpart (closed p hp v hhandle hv entry.form hform part hpart)

theorem Valid.product_unique (hs : s.Valid) {p q : Product} (hp : p ∈ s.products)
    (hq : q ∈ s.products) (hvp : v ∈ p.handles) (hvq : v ∈ q.handles) : p = q :=
  (hs.apart p hp q hq v hvp v hvq rfl).1

theorem Valid.sourced_infer_builtOn (hs : s.Valid) {leaf : Validator → Prop}
    (hv : s.BuiltOn leaf v) : ((s.registry ref).infer v).Sourced (s.BuiltOn leaf) := by
  refine hs.sourced_infer (fun v hv => hv.mem_handles) ?_ hv
  intro p hp v hhandle hv form hform part hpart
  cases hv with
  | direct made bare accepted handle =>
    obtain rfl := hs.product_unique hp made hhandle handle
    rw [bare] at hform
    cases hform
  | library made formed parts handle =>
    obtain rfl := hs.product_unique hp made hhandle handle
    rw [formed] at hform
    cases hform
    exact parts part hpart

/-- A known product is described by its form in every later session. -/
theorem Valid.infer_product (hs : s.Valid) {p : Product} (hp : p ∈ s.products)
    {form : TypeForm Validator} (hform : p.form? = some form)
    (known : ((s.registry ref).lookup? p.validator).isSome) {later : Session}
    (hlater : s.Later later) (hv : v ∈ p.handles) :
    (later.registry ref).infer v =
      .typed (form.map (later.registry ref).infer) v.isRequired (some v) := by
  obtain ⟨hvalid, hextends⟩ := hlater.valid_extends hs
  obtain ⟨entry, he⟩ := Option.isSome_iff_exists.1 known
  have hp' := hextends.products p hp
  rcases hvalid.recorded ref p hp' with ⟨form', hform', hlookup⟩ | hlookup
  · rw [hform] at hform'
    cases hform'
    exact (hvalid.falling ref).infer_known (hlookup v hv)
  · -- An entry that was there before is still there.
    have hkept := hextends.entries ref _ entry he
    have hgone := hlookup p.validator List.mem_cons_self
    rw [Registry.lookup?, hkept] at hgone
    cases hgone

theorem Valid.infer_direct (hs : s.Valid) {p : Product} (hp : p ∈ s.products)
    (bare : p.form? = none) (hv : v ∈ p.handles) :
    (s.registry ref).infer v = .bare v := by
  rcases hs.recorded ref p hp with ⟨form, hform, -⟩ | hlookup
  · rw [bare] at hform
    cases hform
  · exact Registry.infer_unknown (hlookup v hv)

end Session

/-- The descriptors that programs infer from validators on accepted leaves. -/
def Descriptor.Inferred (leaf : Validator → Prop) (d : Descriptor) : Prop :=
  ∃ s : Session, s.Reachable ∧ ∃ ref v, s.BuiltOn leaf v ∧ (s.registry ref).infer v = d

theorem Descriptor.Inferred.sourced {leaf : Validator → Prop} {d : Descriptor}
    (h : d.Inferred leaf) : d.Sourced fun _ => True := by
  obtain ⟨s, reachable, ref, v, built, rfl⟩ := h
  exact (reachable.valid.sourced_infer_builtOn built).mono fun _ _ => trivial

/-- A check that is not built: words are strings. -/
def wordCheck : TypeCheck := fun value ctx =>
  match value with
  | .str _ => .passed
  | _ => .rejected (ctx.invalidType value "word")

theorem valueOnly_wordCheck (id requiredId : ValidatorId) :
    (Validator.optional id requiredId wordCheck).ValueOnly := by
  refine .of_decides (fun value => value.isNull || Scalar.string.accepts value) fun value ctx => ?_
  cases value with
  | none => exact Verdict.decides_passed
  | some value =>
    cases value with
    | null => exact Verdict.decides_passed
    | str text => exact Verdict.decides_passed
    | _ => exact Verdict.decides_rejected _

namespace Session

def wordList : StateM Session Validator := do
  let (lib, word) ← openWith wordCheck
  build lib (.arrayOf word.toRequired)

theorem wordList_spec :
    (wordList.run empty).2.Reachable ∧
      (wordList.run empty).2.BuiltOn Validator.ValueOnly (wordList.run empty).1 ∧
      ∃ form source, ((wordList.run empty).2.registry 0).infer (wordList.run empty).1 =
        .typed form false source := by
  obtain ⟨reachable, held, patched, made, id, requiredId, hword⟩ := openWith_spec wordCheck empty
  rw [wordList, StateT.run_bind]
  generalize (openWith wordCheck).run empty = opened at reachable held patched made hword ⊢
  obtain ⟨⟨lib, word⟩, s⟩ := opened
  obtain rfl : word = .optional id requiredId wordCheck := hword
  have hs : s.Valid := Reachable.valid reachable
  have wellFormed : (TypeForm.arrayOf (Validator.required requiredId wordCheck)).WellFormed :=
    ⟨List.nodup_nil, fun _ h => nomatch h⟩
  have word : s.BuiltOn Validator.ValueOnly (.required requiredId wordCheck) :=
    .direct made rfl (valueOnly_wordCheck id requiredId) (List.mem_cons_of_mem _ List.mem_cons_self)
  have handles := List.forall_mem_singleton.2 word.mem_handles
  have hstep : s.Step ((build lib (.arrayOf (.required requiredId wordCheck))).run s).2 :=
    .build held rfl wellFormed handles
  obtain ⟨product, known⟩ := hs.product_build held patched wellFormed handles
  have inferred := (hstep.valid_extends hs).1.infer_product product rfl known .refl
    List.mem_cons_self
  exact ⟨.tail reachable hstep,
    hs.builtOn_build lib wellFormed (List.forall_mem_singleton.2 word), _, _, inferred⟩

end Session

namespace Descriptor

def wordList : Descriptor :=
  ((Session.wordList.run .empty).2.registry 0).infer (Session.wordList.run .empty).1

theorem inferred_wordList : wordList.Inferred Validator.ValueOnly :=
  ⟨_, Session.wordList_spec.1, 0, _, Session.wordList_spec.2.1, rfl⟩

end Descriptor

end FixtureBench
