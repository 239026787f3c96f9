import FixtureBench.Proofs.Agree
import FixtureBench.PropValue

/-!
# Comparing documents

`Tree.SameBy numbers` says that two documents are the same up to the order of object members, with
related numbers in the same places. For well-formed documents both comparisons decide it: `==` for
numbers of one form, `looseEq` for numbers of one value. So the laws of the comparisons are laws of
`SameBy`, and these follow from the laws of the relation between the numbers.
-/

namespace FixtureBench

namespace Double

variable {x y z : Double}

theorem sameValue_self (h : x ≠ .nan) : x.sameValue x = true := by
  cases x with
  | finite x => simp [sameValue, Binary64.sameValue]
  | infinite negative => simp [sameValue]
  | nan => exact absurd rfl h

theorem sameValue_symm (h : x.sameValue y = true) : y.sameValue x = true := by
  cases x with
  | finite x =>
    cases y with
    | finite y => exact Binary64.sameValue_iff.2 (Binary64.sameValue_iff.1 h).symm
    | _ => cases h
  | infinite negative =>
    cases y with
    | infinite negative' => exact beq_iff_eq.2 (beq_iff_eq.1 h).symm
    | _ => cases h
  | nan => cases h

theorem sameValue_trans (h : x.sameValue y = true) (h' : y.sameValue z = true) :
    x.sameValue z = true := by
  cases y with
  | finite y =>
    cases x with
    | finite x =>
      cases z with
      | finite z =>
        exact Binary64.sameValue_iff.2
          ((Binary64.sameValue_iff.1 h).trans (Binary64.sameValue_iff.1 h'))
      | _ => cases h'
    | _ => cases h
  | infinite negative =>
    cases x with
    | infinite negative' =>
      cases z with
      | infinite negative'' => exact beq_iff_eq.2 ((beq_iff_eq.1 h).trans (beq_iff_eq.1 h'))
      | _ => cases h'
    | _ => cases h
  | nan => cases h'

end Double

theorem Binary64.nearest_ne_nan (negative : Bool) (num den : Nat) :
    nearest negative num den ≠ .nan := by
  by_cases h : nearestPattern num den < 2047 * blockSize
  · have hfinite : nearest negative num den = .finite ⟨negative, nearestPattern num den, h⟩ :=
      dif_pos h
    rw [hfinite]
    exact nofun
  · have hinfinite : nearest negative num den = .infinite negative := dif_neg h
    rw [hinfinite]
    exact nofun

namespace Number

theorem toDouble_ne_nan (n : Number) : n.toDouble ≠ .nan := by
  cases n with
  | int n inRange => exact Binary64.nearest_ne_nan _ _ _
  | double x => simp [toDouble]

theorem sameValue_equivalence : Equivalence fun m n : Number => m.sameValue n = true where
  refl n := Double.sameValue_self n.toDouble_ne_nan
  symm h := Double.sameValue_symm h
  trans h h' := Double.sameValue_trans h h'

/-- Numbers are equal if both are whole and identical, or both are doubles of one value. -/
theorem beq_iff {m n : Number} :
    (m == n) = true ↔ m = n ∨ ∃ x y, m = .double x ∧ n = .double y ∧ x.units = y.units := by
  change m.beq n = true ↔ _
  cases m with
  | int i inRange =>
    cases n with
    | int j inRange' => simp [beq]
    | double y => simp [beq]
  | double x =>
    cases n with
    | int j inRange' => simp [beq]
    | double y =>
      simp only [beq, Binary64.sameValue_iff, double.injEq]
      constructor
      · exact fun h => .inr ⟨x, y, rfl, rfl, h⟩
      · rintro (rfl | ⟨x', y', rfl, rfl, h⟩)
        · rfl
        · exact h

theorem beq_equivalence : Equivalence fun m n : Number => (m == n) = true where
  refl n := beq_iff.2 (.inl rfl)
  symm h := by
    rcases beq_iff.1 h with rfl | ⟨x, y, rfl, rfl, hunits⟩
    · exact beq_iff.2 (.inl rfl)
    · exact beq_iff.2 (.inr ⟨y, x, rfl, rfl, hunits.symm⟩)
  trans h h' := by
    rcases beq_iff.1 h with rfl | ⟨x, y, rfl, rfl, hunits⟩
    · exact h'
    · rcases beq_iff.1 h' with rfl | ⟨y', z, hy, rfl, hunits'⟩
      · exact h
      · cases hy
        exact beq_iff.2 (.inr ⟨x, z, rfl, rfl, hunits.trans hunits'⟩)

theorem sameValue_of_beq {m n : Number} (h : (m == n) = true) : m.sameValue n = true := by
  rcases beq_iff.1 h with rfl | ⟨x, y, rfl, rfl, hunits⟩
  · exact sameValue_equivalence.refl m
  · exact Binary64.sameValue_iff.2 hunits

end Number

namespace Tree

variable {ε : Type}

/-- The same document up to the order of object members, with related numbers. -/
inductive SameBy (numbers : Number → Number → Prop) : Tree ε → Tree ε → Prop where
  | null : SameBy numbers .null .null
  | bool (b : Bool) : SameBy numbers (.bool b) (.bool b)
  | num {m n : Number} (h : numbers m n) : SameBy numbers (.num m) (.num n)
  | str (s : String) : SameBy numbers (.str s) (.str s)
  | arr {items others : List (Tree ε)} (h : List.Forall₂ (SameBy numbers) items others) :
      SameBy numbers (.arr items) (.arr others)
  | obj {members others : Keyed (Tree ε)} (keys : members.keys.Perm others.keys)
      (parts : ∀ key a b, members.get? key = some a → others.get? key = some b →
        SameBy numbers a b) : SameBy numbers (.obj members) (.obj others)
  | leaf (e : ε) : SameBy numbers (.leaf e) (.leaf e)

/-- The same document with the members of its objects in another order. -/
def Reordered (a b : Tree ε) : Prop := SameBy (· = ·) a b

inductive EachNumber (P : Number → Prop) : Tree ε → Prop where
  | null : EachNumber P .null
  | bool (b : Bool) : EachNumber P (.bool b)
  | num {n : Number} (h : P n) : EachNumber P (.num n)
  | str (s : String) : EachNumber P (.str s)
  | arr {items : List (Tree ε)} (each : ∀ t ∈ items, EachNumber P t) : EachNumber P (.arr items)
  | obj {members : Keyed (Tree ε)} (each : ∀ t ∈ members.values, EachNumber P t) :
      EachNumber P (.obj members)
  | leaf (e : ε) : EachNumber P (.leaf e)

namespace SameBy

variable {numbers numbers' numbers'' : Number → Number → Prop} {a b c : Tree ε}

theorem of_agree {members others : Keyed (Tree ε)} (h : members.Agree (SameBy numbers) others) :
    SameBy numbers (.obj members) (.obj others) :=
  .obj h.keys fun _ _ _ ha hb => h.members ha hb

theorem agree {members others : Keyed (Tree ε)}
    (h : SameBy numbers (.obj members) (.obj others)) : members.Agree (SameBy numbers) others := by
  cases h with
  | obj keys parts => exact ⟨keys, fun ha hb => parts _ _ _ ha hb⟩

theorem refl (h : ∀ n, numbers n n) (t : Tree ε) : SameBy numbers t t := by
  induction t with
  | num n => exact .num (h n)
  | arr items ih => exact .arr (List.forall₂_same.2 ih)
  | obj members ih => exact of_agree (.refl (List.forall_mem_map.2 ih))
  | _ => constructor

theorem symm (h : SameBy numbers a b) (sym : ∀ m n, numbers m n → numbers' n m) :
    SameBy numbers' b a := by
  induction a generalizing b with
  | arr items ih =>
    cases h with
    | arr h => exact .arr (forall₂_symm h fun t ht _ _ hab => ih t ht hab)
  | obj members ih =>
    cases h with
    | obj keys parts =>
      have h := agree (.obj keys parts)
      exact of_agree (h.symm (List.forall_mem_map.2 fun e he _ _ hab => ih e he hab))
  | num m =>
    cases h with
    | num h => exact .num (sym _ _ h)
  | _ =>
    cases h
    constructor

theorem trans (h : SameBy numbers a b) (h' : SameBy numbers' b c)
    (comp : ∀ l m n, numbers l m → numbers' m n → numbers'' l n) : SameBy numbers'' a c := by
  induction a generalizing b c with
  | arr items ih =>
    cases h with
    | arr h =>
      cases h' with
      | arr h' => exact .arr (forall₂_trans h h' fun t ht _ _ _ _ hab hbc => ih t ht hab hbc)
  | obj members ih =>
    cases h with
    | obj keys parts =>
      cases h' with
      | obj keys' parts' =>
        exact of_agree ((agree (.obj keys parts)).trans (agree (.obj keys' parts'))
          (List.forall_mem_map.2 fun e he _ _ _ _ hab hbc => ih e he hab hbc))
  | num m =>
    cases h with
    | num h =>
      cases h' with
      | num h' => exact .num (comp _ _ _ h h')
  | _ =>
    cases h
    cases h'
    constructor

end SameBy

/-- A document whose numbers have a property is its own copy by numbers that have it. -/
theorem EachNumber.sameBy {P : Number → Prop} {t : Tree ε} (h : t.EachNumber P) :
    t.SameBy (fun m n => m = n ∧ P m) t := by
  induction t with
  | arr items ih =>
    cases h with
    | arr each => exact .arr (List.forall₂_same.2 fun t ht => ih t ht (each t ht))
  | obj members ih =>
    cases h with
    | obj each =>
      exact .of_agree (.refl (List.forall_mem_map.2 fun e he =>
        ih e he (each e.2 (List.mem_map_of_mem he))))
  | num n =>
    cases h with
    | num h => exact .num ⟨rfl, h⟩
  | _ => constructor

/-- Only the relation between the numbers that occur matters. -/
theorem SameBy.imp_each {P Q : Number → Prop} {numbers numbers' : Number → Number → Prop}
    {a b : Tree ε} (h : SameBy numbers a b) (ha : a.EachNumber P) (hb : b.EachNumber Q)
    (weaker : ∀ m n, P m → Q n → numbers m n → numbers' m n) : SameBy numbers' a b := by
  have hleft : SameBy (fun m n => P m ∧ numbers m n) a b := by
    refine ha.sameBy.trans h ?_
    rintro l m n ⟨rfl, hl⟩ hnumbers
    exact ⟨hl, hnumbers⟩
  refine hleft.trans hb.sameBy ?_
  rintro l m n ⟨hl, hnumbers⟩ ⟨rfl, hm⟩
  exact weaker l m hl hm hnumbers

theorem SameBy.imp {numbers numbers' : Number → Number → Prop} {a b : Tree ε}
    (h : SameBy numbers a b) (weaker : ∀ m n, numbers m n → numbers' m n) :
    SameBy numbers' a b :=
  h.trans (.refl (fun _ => rfl) b) fun _ _ _ hnumbers heq => heq ▸ weaker _ _ hnumbers

theorem reordered_obj_of_perm {entries : List (String × Tree ε)} {members : Keyed (Tree ε)}
    (distinct : members.Distinct) (hperm : entries.Perm members.entries) :
    (obj ⟨entries⟩).Reordered (obj members) :=
  .of_agree (.of_perm distinct hperm fun t _ => .refl (fun _ => rfl) t)

section Comparison

variable [BEq ε] {sameNumber : Number → Number → Bool}

theorem eqItemsBy_iff {items others : List (Tree ε)} :
    eqItemsBy sameNumber items others = true ↔
      List.Forall₂ (fun a b => eqBy sameNumber a b = true) items others := by
  induction items generalizing others with
  | nil => cases others <;> simp [eqItemsBy]
  | cons a rest ih => cases others <;> simp [eqItemsBy, ih]

theorem eqEntriesBy_iff {entries : List (String × Tree ε)} {others : Keyed (Tree ε)} :
    eqEntriesBy sameNumber entries others = true ↔
      ∀ e ∈ entries, ∃ b, others.get? e.1 = some b ∧ eqBy sameNumber e.2 b = true := by
  induction entries with
  | nil => simp [eqEntriesBy]
  | cons e rest ih =>
    rw [eqEntriesBy, Bool.and_eq_true, ih, List.forall_mem_cons]
    cases others.get? e.1 <;> simp

theorem eqBy_arr {items others : List (Tree ε)} :
    eqBy sameNumber (.arr items) (.arr others) = true ↔
      List.Forall₂ (fun a b => eqBy sameNumber a b = true) items others := by
  rw [eqBy, eqItemsBy_iff]

theorem eqBy_obj {members others : Keyed (Tree ε)} (distinct : members.Distinct) :
    eqBy sameNumber (.obj members) (.obj others) = true ↔
      members.Agree (fun a b => eqBy sameNumber a b = true) others := by
  obtain ⟨entries⟩ := members
  rw [Keyed.agree_iff distinct, eqBy, Bool.and_eq_true, beq_iff_eq, eqEntriesBy_iff]
  rfl

theorem SameBy.eqBy [ReflBEq ε] {a b : Tree ε} (h : a.WellFormed)
    (hsame : a.SameBy (fun m n => sameNumber m n = true) b) : eqBy sameNumber a b = true := by
  induction a generalizing b with
  | arr items ih =>
    rw [wellFormed_arr] at h
    cases hsame with
    | arr hsame => exact eqBy_arr.2 (forall₂_imp hsame fun t ht _ _ => ih t ht (h t ht))
  | obj members ih =>
    obtain ⟨distinct, parts⟩ := wellFormed_obj.1 h
    cases hsame with
    | obj keys others =>
      exact (eqBy_obj distinct).2 ((agree (.obj keys others)).imp
        (List.forall_mem_map.2 fun e he _ _ => ih e he (parts e he)))
  | num m =>
    cases hsame with
    | num hsame => simpa [Tree.eqBy] using hsame
  | _ =>
    cases hsame
    simp [Tree.eqBy]

/-- The comparison decides whether documents are the same up to the order of members. -/
theorem eqBy_iff [LawfulBEq ε] {a b : Tree ε} (h : a.WellFormed) :
    eqBy sameNumber a b = true ↔ a.SameBy (fun m n => sameNumber m n = true) b := by
  refine ⟨fun heq => ?_, fun hsame => hsame.eqBy h⟩
  induction a generalizing b with
  | arr items ih =>
    rw [wellFormed_arr] at h
    cases b with
    | arr others => exact .arr (forall₂_imp (eqBy_arr.1 heq) fun t ht _ _ => ih t ht (h t ht))
    | _ => simp [eqBy] at heq
  | obj members ih =>
    obtain ⟨distinct, parts⟩ := wellFormed_obj.1 h
    cases b with
    | obj others =>
      exact .of_agree (((eqBy_obj distinct).1 heq).imp
        (List.forall_mem_map.2 fun e he _ _ => ih e he (parts e he)))
    | _ => simp [eqBy] at heq
  | null =>
    cases b with
    | null => exact .null
    | _ => simp [eqBy] at heq
  | bool x =>
    cases b with
    | bool y =>
      obtain rfl : x = y := by simpa [eqBy] using heq
      exact .bool x
    | _ => simp [eqBy] at heq
  | num m =>
    cases b with
    | num n => exact .num (by simpa [eqBy] using heq)
    | _ => simp [eqBy] at heq
  | str text =>
    cases b with
    | str other =>
      obtain rfl : text = other := by simpa [eqBy] using heq
      exact .str text
    | _ => simp [eqBy] at heq
  | leaf e =>
    cases b with
    | leaf e' =>
      obtain rfl : e = e' := by simpa [eqBy] using heq
      exact .leaf e
    | _ => simp [eqBy] at heq

variable [LawfulBEq ε] {a b c : Tree ε}

theorem eqBy_self (number : ∀ n, sameNumber n n = true) (h : a.WellFormed) :
    eqBy sameNumber a a = true := (eqBy_iff h).2 (.refl number a)

theorem eqBy_symm (number : ∀ {m n}, sameNumber m n = true → sameNumber n m = true)
    (ha : a.WellFormed) (hb : b.WellFormed) (h : eqBy sameNumber a b = true) :
    eqBy sameNumber b a = true :=
  (eqBy_iff hb).2 (((eqBy_iff ha).1 h).symm fun _ _ => number)

theorem eqBy_trans
    (number : ∀ {l m n}, sameNumber l m = true → sameNumber m n = true → sameNumber l n = true)
    (ha : a.WellFormed) (hb : b.WellFormed) (h : eqBy sameNumber a b = true)
    (h' : eqBy sameNumber b c = true) : eqBy sameNumber a c = true :=
  (eqBy_iff ha).2 (((eqBy_iff ha).1 h).trans ((eqBy_iff hb).1 h') fun _ _ _ => number)

theorem eqBy_congr_left (number : Equivalence fun m n => sameNumber m n = true)
    (ha : a.WellFormed) (hb : b.WellFormed) (h : eqBy sameNumber a b = true) (c : Tree ε) :
    eqBy sameNumber a c = eqBy sameNumber b c := by
  rw [Bool.eq_iff_iff]
  exact ⟨eqBy_trans number.trans hb ha (eqBy_symm number.symm ha hb h),
    eqBy_trans number.trans ha hb h⟩

theorem eqBy_congr_right (number : Equivalence fun m n => sameNumber m n = true)
    (ha : a.WellFormed) (hb : b.WellFormed) (hc : c.WellFormed) (h : eqBy sameNumber a b = true) :
    eqBy sameNumber c a = eqBy sameNumber c b := by
  rw [Bool.eq_iff_iff]
  exact ⟨fun hca => eqBy_trans number.trans hc ha hca h,
    fun hcb => eqBy_trans number.trans hc hb hcb (eqBy_symm number.symm ha hb h)⟩

theorem looseEq_self (h : a.WellFormed) : a.looseEq a = true :=
  eqBy_self Number.sameValue_equivalence.refl h

theorem looseEq_of_beq (ha : a.WellFormed) (h : (a == b) = true) : a.looseEq b = true :=
  (eqBy_iff ha).2 (((eqBy_iff ha).1 h).imp fun _ _ => Number.sameValue_of_beq)

theorem beq_self (h : a.WellFormed) : (a == a) = true := eqBy_self Number.beq_equivalence.refl h

/-- The order of members makes no difference to a comparison that holds of identical numbers. -/
theorem Reordered.eqBy (number : ∀ n, sameNumber n n = true) (ha : a.WellFormed)
    (h : a.Reordered b) : eqBy sameNumber a b = true :=
  (SameBy.imp h fun m _ heq => heq ▸ number m).eqBy ha

theorem beq_obj_of_perm {entries : List (String × Tree ε)} {members : Keyed (Tree ε)}
    (h : (obj members).WellFormed) (hperm : entries.Perm members.entries) :
    (obj ⟨entries⟩ == obj members) = true := by
  obtain ⟨distinct, parts⟩ := wellFormed_obj.1 h
  have h' : (obj ⟨entries⟩).WellFormed :=
    wellFormed_obj.2 ⟨(hperm.map _).nodup_iff.2 distinct, fun e he => parts e (hperm.mem_iff.1 he)⟩
  exact (reordered_obj_of_perm distinct hperm).eqBy Number.beq_equivalence.refl h'

end Comparison

end Tree

end FixtureBench
