import FixtureBench.Library
import FixtureBench.Proofs.Equality
import FixtureBench.Proofs.Numeric.Rounding
import FixtureBench.Proofs.Validator

/-!
# Choices among literals

A choice accepts the values that are loosely equal to one of its literals. Loose equality is an
equivalence that no order of members disturbs, so a choice accepts its own literals and cannot tell
loosely equal values apart.

Whole numbers are rounded to doubles before they are compared. That decides equality of documents
whose whole numbers are below `2 ^ 53` on one side. From there on different numbers may be rounded
to one double, and then a choice accepts a number that is none of its literals.
-/

namespace FixtureBench

theorem Verdict.Decides.eq_passed_iff {verdict : Verdict} {passes : Bool}
    (h : verdict.Decides passes) : verdict = .passed ↔ passes = true := by
  rw [← h.2]
  cases verdict with
  | ok => exact ⟨fun _ => rfl, fun _ => rfl⟩
  | error => exact ⟨nofun, nofun⟩

namespace Library

variable {lib : Library} {literals : List PropValue} {w : Workshop} {v : Validator}

theorem tests_build (lib : Library) (form : TypeForm Validator) (w : Workshop) :
    Validator.Tests form false ((lib.build form).run w).1 := by
  cases h : lib.registry with
  | none =>
    simp only [build, h]
    exact .optional (w.nextId + 1) w.nextId
  | some ref =>
    simp only [build, h]
    exact .optional (w.nextId + 1) w.nextId

/-- The validators of a choice: the one that a library builds and its required counterpart. -/
def choices (lib : Library) (literals : List PropValue) (w : Workshop) : List Validator :=
  let v := ((lib.oneOf literals).run w).1
  [v, v.toRequired]

theorem tests_of_mem_choices (h : v ∈ lib.choices literals w) :
    ∃ required, v.Tests (.oneOf literals) required := by
  have hbuild := lib.tests_build (.oneOf literals) w
  rcases List.mem_pair.1 h with rfl | rfl
  · exact ⟨false, hbuild⟩
  · exact ⟨true, hbuild.toRequired⟩

/-- A choice accepts what is loosely equal to a literal and rejects all else. -/
theorem choice_decides (h : v ∈ lib.choices literals w) {value : PropValue} (hvalue : value ≠ .null)
    (ctx : CheckContext) :
    (v.checkValue (some value) ctx).Decides (literals.any (·.looseEq value)) := by
  obtain ⟨required, htests⟩ := tests_of_mem_choices h
  rw [htests.checkValue_some hvalue]
  exact Verdict.decides_ite

end Library

namespace PropValue

variable {a b : PropValue}

/-- Loose equality is an equivalence of values that extends equality. Neither depends on the order
of the members of objects. A choice accepts each of its literals but null, and values that are
loosely equal and not null both pass it or are both rejected. -/
theorem looseEq_equivalence :
    (Equivalence fun a b : {value : PropValue // value.WellFormed} => a.1.looseEq b.1 = true) ∧
    (∀ a b : PropValue, a.WellFormed → (a == b) = true → a.looseEq b = true) ∧
    (∀ a b : PropValue, a.WellFormed → b.WellFormed → a.Reordered b →
      ((a == b) = true ∧ a.looseEq b = true) ∧
      ∀ c : PropValue, c.WellFormed → ((a == c) = (b == c) ∧ (c == a) = (c == b)) ∧
        a.looseEq c = b.looseEq c ∧ c.looseEq a = c.looseEq b) ∧
    ∀ (lib : Library) (literals : List PropValue) (w : Workshop),
      (∀ literal ∈ literals, literal.WellFormed) →
      ∀ v ∈ lib.choices literals w, ∀ ctx : CheckContext,
        (∀ literal ∈ literals, literal ≠ .null → v.checkValue (some literal) ctx = .passed) ∧
        ∀ a b : PropValue, a.WellFormed → b.WellFormed → a ≠ .null → b ≠ .null →
          a.looseEq b = true → ∃ passes, (v.checkValue (some a) ctx).Decides passes ∧
            (v.checkValue (some b) ctx).Decides passes := by
  refine ⟨⟨fun a => Tree.looseEq_self a.2, ?symm, ?trans⟩, ?beq, ?order, ?choice⟩
  case symm =>
    intro a b
    exact Tree.eqBy_symm Number.sameValue_equivalence.symm a.2 b.2
  case trans =>
    intro a b c
    exact Tree.eqBy_trans Number.sameValue_equivalence.trans a.2 b.2
  case beq =>
    intro a b ha
    exact Tree.looseEq_of_beq ha
  case order =>
    intro a b ha hb hreordered
    have hbeq : (a == b) = true := hreordered.eqBy Number.beq_equivalence.refl ha
    have hloose := Tree.looseEq_of_beq ha hbeq
    refine ⟨⟨hbeq, hloose⟩, fun c hc => ⟨⟨?_, ?_⟩, ?_, ?_⟩⟩
    · exact Tree.eqBy_congr_left Number.beq_equivalence ha hb hbeq c
    · exact Tree.eqBy_congr_right Number.beq_equivalence ha hb hc hbeq
    · exact Tree.eqBy_congr_left Number.sameValue_equivalence ha hb hloose c
    · exact Tree.eqBy_congr_right Number.sameValue_equivalence ha hb hc hloose
  case choice =>
    intro lib literals w hliterals v hv ctx
    refine ⟨fun literal hmem hnull => ?_, fun a b ha hb hnull hnull' hloose => ?_⟩
    · have hany : literals.any (·.looseEq literal) = true :=
        List.any_eq_true.2 ⟨literal, hmem, Tree.looseEq_self (hliterals literal hmem)⟩
      exact (Library.choice_decides hv hnull ctx).eq_passed_iff.2 hany
    · have hcongr : ∀ literal ∈ literals, literal.looseEq a = literal.looseEq b :=
        fun literal hmem => Tree.eqBy_congr_right Number.sameValue_equivalence ha hb
          (hliterals literal hmem) hloose
      have hsame : literals.any (·.looseEq a) = literals.any (·.looseEq b) :=
        any_eq_of_forall₂ (List.forall₂_same.2 hcongr) fun _ _ _ _ heq => heq
      refine ⟨literals.any (·.looseEq a), Library.choice_decides hv hnull ctx, ?_⟩
      rw [hsame]
      exact Library.choice_decides hv hnull' ctx

/-- The whole number 100 and the double 100.0, as sizes in two orders of members. -/
theorem looseEq_equivalence_size :
    let size : PropValue := .obj ⟨[("size", .num (.ofInt64 100)), ("unit", .null)]⟩
    let swapped : PropValue := .obj ⟨[("unit", .null), ("size", .num (.ofInt64 100))]⟩
    let double : PropValue := .obj ⟨[("unit", .null), ("size", .num (.double .hundred))]⟩
    let lib := (Library.new.run .empty).1
    let v := ((lib.oneOf [.null, size]).run .empty).1
    (size == swapped) = true ∧ size.looseEq double = true ∧
      v.checkValue (some size) .anonymous = .passed ∧
      ∃ passes, (v.checkValue (some size) .anonymous).Decides passes ∧
        (v.checkValue (some double) .anonymous).Decides passes := by
  intro size swapped double lib v
  have hsize : size.WellFormed :=
    Tree.wellFormed_obj.2 ⟨by decide, by simp [Tree.WellFormed]⟩
  have hswapped : swapped.WellFormed :=
    Tree.wellFormed_obj.2 ⟨by decide, by simp [Tree.WellFormed]⟩
  have hdouble : double.WellFormed :=
    Tree.wellFormed_obj.2 ⟨by decide, by simp [Tree.WellFormed]⟩
  have hreordered : size.Reordered swapped :=
    Tree.reordered_obj_of_perm (by decide) (.swap _ _ _)
  have hloose : size.looseEq double = true := by decide +kernel
  have hpresent (members : Keyed PropValue) : Tree.obj members ≠ .null := by simp
  obtain ⟨-, -, order, choice⟩ := looseEq_equivalence
  obtain ⟨own, alike⟩ := choice lib [.null, size] .empty
    (List.forall_mem_cons.2 ⟨by simp [Tree.WellFormed], List.forall_mem_singleton.2 hsize⟩)
    v (List.mem_pair.2 (.inl rfl)) .anonymous
  exact ⟨(order size swapped hsize hswapped hreordered).1.1, hloose,
    own size (List.mem_pair.2 (.inr rfl)) (hpresent _),
    alike size double hsize hdouble (hpresent _) (hpresent _) hloose⟩

end PropValue

namespace Number

/-- A whole number, not a double. -/
def IsWhole : Number → Prop
  | int .. => True
  | double _ => False

/-- A whole number of at most 53 bits. -/
def IsExact : Number → Prop
  | int n _ => n.natAbs < 2 ^ 53
  | double _ => False

/-- Whole numbers that are rounded to one double. -/
def RoundAlike : Number → Number → Prop
  | int m _, int n _ => Binary64.roundInt m = Binary64.roundInt n
  | _, _ => False

variable {m n : Number}

theorem IsWhole.sameValue_iff (hm : m.IsWhole) (hn : n.IsWhole) :
    m.sameValue n = true ↔ m.RoundAlike n := by
  cases m with
  | int i inRange =>
    cases n with
    | int j inRange' => exact sameValue_int inRange inRange'
    | double y => exact hn.elim
  | double x => exact hm.elim

theorem IsWhole.beq_iff (hm : m.IsWhole) : (m == n) = true ↔ m = n := by
  rw [Number.beq_iff, or_iff_left]
  rintro ⟨x, y, rfl, -, -⟩
  exact hm

theorem IsWhole.roundAlike_self (h : n.IsWhole) : n.RoundAlike n := by
  cases n with
  | int i inRange => rfl
  | double x => exact h.elim

theorem RoundAlike.symm (h : m.RoundAlike n) : n.RoundAlike m := by
  cases m with
  | int i inRange =>
    cases n with
    | int j inRange' => exact Eq.symm h
    | double y => exact h.elim
  | double x => exact h.elim

theorem RoundAlike.eq (h : m.RoundAlike n) (hm : m.IsExact) : m = n := by
  cases m with
  | int i inRange =>
    cases n with
    | int j inRange' =>
      obtain rfl := Binary64.eq_of_roundInt_eq hm h
      rfl
    | double y => exact h.elim
  | double x => exact h.elim

end Number

namespace PropValue

variable {a b : PropValue}

theorem looseEq_iff_roundAlike (ha : a.WellFormed) (wholeA : a.EachNumber Number.IsWhole)
    (wholeB : b.EachNumber Number.IsWhole) :
    a.looseEq b = true ↔ a.SameBy Number.RoundAlike b := by
  rw [Tree.looseEq, Tree.eqBy_iff ha]
  constructor
  · exact fun h => h.imp_each wholeA wholeB fun _ _ hm hn => (hm.sameValue_iff hn).1
  · exact fun h => h.imp_each wholeA wholeB fun _ _ hm hn => (hm.sameValue_iff hn).2

theorem beq_iff_reordered (ha : a.WellFormed) (wholeA : a.EachNumber Number.IsWhole)
    (wholeB : b.EachNumber Number.IsWhole) : (a == b) = true ↔ a.Reordered b := by
  refine (Tree.eqBy_iff ha).trans ⟨fun h => ?_, fun h => ?_⟩
  · exact h.imp_each wholeA wholeB fun _ _ hm _ => hm.beq_iff.1
  · exact h.imp_each wholeA wholeB fun _ _ hm _ => hm.beq_iff.2

/-- Numbers of at most 53 bits on one side make loose equality exact. -/
theorem looseEq_eq_beq (ha : a.WellFormed) (wholeA : a.EachNumber Number.IsWhole)
    (wholeB : b.EachNumber Number.IsWhole)
    (exact : a.EachNumber Number.IsExact ∨ b.EachNumber Number.IsExact) :
    a.looseEq b = (a == b) := by
  rw [Bool.eq_iff_iff]
  refine ⟨fun h => ?_, Tree.looseEq_of_beq ha⟩
  rw [looseEq_iff_roundAlike ha wholeA wholeB] at h
  rw [beq_iff_reordered ha wholeA wholeB]
  rcases exact with exactA | exactB
  · exact h.imp_each exactA wholeB fun _ _ hm _ halike => halike.eq hm
  · exact h.imp_each wholeA exactB fun _ _ _ hn halike => (halike.symm.eq hn).symm

theorem any_looseEq_whole {literals : List PropValue} {n : Number}
    (whole : ∀ literal ∈ literals, ∃ m : Number, literal = .num m ∧ m.IsWhole) (hn : n.IsWhole) :
    literals.any (·.looseEq (.num n)) = true ↔
      ∃ m, .num m ∈ literals ∧ m.RoundAlike n := by
  rw [List.any_eq_true]
  constructor
  · rintro ⟨literal, hmem, hloose⟩
    obtain ⟨m, rfl, hm⟩ := whole literal hmem
    exact ⟨m, hmem, (hm.sameValue_iff hn).1 hloose⟩
  · rintro ⟨m, hmem, halike⟩
    obtain ⟨m', heq, hm⟩ := whole _ hmem
    cases heq
    exact ⟨.num m, hmem, (hm.sameValue_iff hn).2 halike⟩

/-- Documents of whole numbers are equal if they are the same up to the order of members, and
loosely equal if they are the same up to that and up to the rounding of their numbers to doubles.
There is no difference if the numbers on one side have at most 53 bits. A choice of whole numbers
accepts the whole numbers that are rounded like a literal; one of at most 53 bits has to be a
literal. -/
theorem looseEq_whole (ha : a.WellFormed) (wholeA : a.EachNumber Number.IsWhole)
    (wholeB : b.EachNumber Number.IsWhole) :
    (a.looseEq b = true ↔ a.SameBy Number.RoundAlike b) ∧
    ((a == b) = true ↔ a.Reordered b) ∧
    (a.EachNumber Number.IsExact ∨ b.EachNumber Number.IsExact → a.looseEq b = (a == b)) ∧
    ∀ (lib : Library) (literals : List PropValue) (w : Workshop),
      (∀ literal ∈ literals, ∃ m : Number, literal = .num m ∧ m.IsWhole) →
      ∀ v ∈ lib.choices literals w, ∀ (n : Number) (ctx : CheckContext), n.IsWhole →
        (v.checkValue (some (.num n)) ctx = .passed ↔
          ∃ m, .num m ∈ literals ∧ m.RoundAlike n) ∧
        (n.IsExact → (v.checkValue (some (.num n)) ctx = .passed ↔ .num n ∈ literals)) := by
  refine ⟨looseEq_iff_roundAlike ha wholeA wholeB, beq_iff_reordered ha wholeA wholeB,
    looseEq_eq_beq ha wholeA wholeB, fun lib literals w whole v hv n ctx hn => ?_⟩
  have hpassed : v.checkValue (some (.num n)) ctx = .passed ↔
      ∃ m, .num m ∈ literals ∧ m.RoundAlike n := by
    have hpresent : Tree.num n ≠ (.null : PropValue) := nofun
    rw [(Library.choice_decides hv hpresent ctx).eq_passed_iff, any_looseEq_whole whole hn]
  refine ⟨hpassed, fun hexact => hpassed.trans ⟨?_, fun hmem => ?_⟩⟩
  · rintro ⟨m, hmem, halike⟩
    rwa [← halike.symm.eq hexact] at hmem
  · exact ⟨n, hmem, hn.roundAlike_self⟩

/-- The first whole numbers that are rounded to one double, and a choice of the second of them. -/
theorem looseEq_whole_neighbours :
    let below : Number := .int 9007199254740991 (by decide)
    let last : Number := .int 9007199254740992 (by decide)
    let next : Number := .int 9007199254740993 (by decide)
    let lib := (Library.new.run .empty).1
    let v := ((lib.oneOf [.num next]).run .empty).1
    Tree.looseEq (.num below : PropValue) (.num next) = (.num below == (.num next : PropValue)) ∧
      v.checkValue (some (.num last)) .anonymous = .passed ∧
      v.checkValue (some (.num below)) .anonymous ≠ .passed := by
  intro below last next lib v
  have hbelow : (Tree.num below : PropValue).WellFormed := by simp [Tree.WellFormed]
  obtain ⟨-, -, hcompare, choice⟩ := looseEq_whole hbelow (.num trivial)
    (.num trivial : (Tree.num next).EachNumber Number.IsWhole)
  have hchoice := choice lib [.num next] .empty
    (List.forall_mem_singleton.2 ⟨next, rfl, trivial⟩) v (List.mem_pair.2 (.inl rfl))
  have hexact : (9007199254740991 : Int).natAbs < 2 ^ 53 := by decide
  have hround : Binary64.roundInt 9007199254740993 = Binary64.roundInt 9007199254740992 := by
    decide +kernel
  refine ⟨hcompare (.inl (.num hexact)), ?_, fun hpassed => ?_⟩
  · exact (hchoice last .anonymous trivial).1.2 ⟨next, List.mem_singleton_self _, hround⟩
  · have hmem := ((hchoice below .anonymous trivial).2 hexact).1 hpassed
    injection List.mem_singleton.1 hmem with hnum
    injection hnum with hint
    exact absurd hint (by decide)

/-- Loose equality and a choice take two different whole numbers for one. -/
theorem neighbour_passes_choice :
    let m : Number := .int 9007199254740992 (by decide)
    let n : Number := .int 9007199254740993 (by decide)
    let lib := (Library.new.run .empty).1
    let v := ((lib.oneOf [.num m]).run .empty).1
    m.IsWhole ∧ n.IsWhole ∧ Tree.looseEq (.num m : PropValue) (.num n) = true ∧
      (.num m == (.num n : PropValue)) = false ∧ Tree.num n ∉ [(.num m : PropValue)] ∧
      v.checkValue (some (.num n)) .anonymous = .passed := by
  intro m n lib v
  have hloose : Tree.looseEq (.num m : PropValue) (.num n) = true := by decide +kernel
  have hapart : (.num m == (.num n : PropValue)) = false := by decide +kernel
  refine ⟨trivial, trivial, hloose, hapart, ?_, ?_⟩
  · intro hmem
    injection List.mem_singleton.1 hmem with hnum
    injection hnum with hint
    exact absurd hint (by decide)
  · have hpresent : Tree.num n ≠ (.null : PropValue) := nofun
    have hv : v ∈ lib.choices [.num m] .empty := List.mem_pair.2 (.inl rfl)
    rw [(Library.choice_decides hv hpresent .anonymous).eq_passed_iff]
    exact List.any_eq_true.2 ⟨.num m, List.mem_singleton_self _, hloose⟩

end PropValue

end FixtureBench
