import FixtureBench.Proofs.Random.Token
import FixtureBench.Random.Xoshiro
import Mathlib.Computability.Language

/-!
# The language of a token

Over all sources of randomness, the expansions of a token are the strings of its language. The
language is built from unions, concatenations and powers of languages and mentions no draws.
-/

namespace FixtureBench

/-- What a source of randomness answers to the requests of a draw, one after another. Every answer
lies in the range asked for. -/
abbrev Answers := Nat → (request : Request) → request.Answer

namespace Answers

/-- The answers of the generator in a state, as if it never moved on. -/
def ofXoshiro (g : Xoshiro) : Answers := fun _ request => (g.answer request).1

open Classical in
/-- One answer and later ones. A first request other than the expected one is left to the
generator. -/
noncomputable def cons {request : Request} (answer : request.Answer) (later : Answers) : Answers
  | 0 => Function.update (ofXoshiro (.ofSeed 0) 0) request answer
  | n + 1 => later n

@[simp] theorem cons_zero {request : Request} (answer : request.Answer) (later : Answers) :
    cons answer later 0 request = answer := by
  simp [cons]

end Answers

namespace Draw

variable {α : Type}

/-- The result of a draw that receives these answers. Every request has an answer, so every draw
comes to a result. -/
def follow : Draw α → Answers → α
  | done a, _ => a
  | ask request next, answers => (next (answers 0 request)).follow fun n => answers (n + 1)

theorem canYield_follow (d : Draw α) (answers : Answers) : d.CanYield (d.follow answers) := by
  induction d generalizing answers with
  | done a => exact .done a
  | ask request next ih => exact .ask (answers 0 request) (ih _ _)

theorem exists_follow {d : Draw α} {a : α} (h : d.CanYield a) :
    ∃ answers, d.follow answers = a := by
  induction h with
  | done a => exact ⟨.ofXoshiro (.ofSeed 0), rfl⟩
  | @ask request next a answer _ ih =>
    obtain ⟨later, hlater⟩ := ih
    use .cons answer later
    rw [follow, Answers.cons_zero]
    exact hlater

/-- The results of a draw are what it comes to over all answers. -/
theorem range_follow (d : Draw α) : Set.range d.follow = {a | d.CanYield a} := by
  ext a
  constructor
  · rintro ⟨answers, rfl⟩
    exact d.canYield_follow answers
  · exact exists_follow

end Draw

namespace Token

@[elab_as_elim]
theorem induction {motive : Token → Prop} (text : ∀ s, motive (.text s))
    (oneOf : ∀ alternatives, (∀ token ∈ alternatives, motive token) → motive (.oneOf alternatives))
    (repeated : ∀ times token, motive token → motive (.repeated times token))
    (chars : ∀ first last count, motive (.chars first last count))
    (sequence : ∀ tokens, (∀ token ∈ tokens, motive token) → motive (.sequence tokens))
    (token : Token) : motive token :=
  Token.rec (motive_1 := motive) (motive_2 := fun tokens => ∀ token ∈ tokens, motive token)
    text oneOf repeated chars sequence (by simp) (by simp_all) token

mutual

def language : Token → Language Char
  | text s => {s.toList}
  | oneOf alternatives => if alternatives.isEmpty then 1 else (languages alternatives).sum
  | repeated (a, b) token =>
    {w | ∃ times, min a b ≤ times ∧ times ≤ max a b ∧ w ∈ language token ^ times}
  | chars first last count => {w : List Char | w.length = count ∧ ∀ c ∈ w, InRange first last c}
  | sequence tokens => (languages tokens).prod

def languages : List Token → List (Language Char)
  | [] => []
  | token :: rest => language token :: languages rest

end

theorem languages_eq_map (tokens : List Token) : languages tokens = tokens.map language := by
  induction tokens with
  | nil => rfl
  | cons token rest ih => rw [languages, ih, List.map_cons]

theorem mem_sum {languages : List (Language Char)} {w : List Char} :
    w ∈ languages.sum ↔ ∃ l ∈ languages, w ∈ l := by
  induction languages with
  | nil => simp
  | cons l rest ih => rw [List.sum_cons, Language.mem_add, ih, List.exists_mem_cons_iff]

variable {w : List Char}

theorem canYield_expandAll {tokens : List Token}
    (h : ∀ token ∈ tokens, ∀ w, token.expandChars.CanYield w ↔ w ∈ token.language) :
    (expandAll tokens).CanYield w ↔ w ∈ (tokens.map language).prod := by
  induction tokens generalizing w with
  | nil => rw [expandAll, Draw.canYield_pure, List.map_nil, List.prod_nil, Language.mem_one]
  | cons token rest ih =>
    rw [List.forall_mem_cons] at h
    simp only [expandAll, Draw.canYield_bind, Draw.canYield_pure, h.1, ih h.2, List.map_cons,
      List.prod_cons, Language.mem_mul]
    constructor
    · rintro ⟨first, hfirst, later, hlater, rfl⟩
      exact ⟨first, hfirst, later, hlater, rfl⟩
    · rintro ⟨first, hfirst, later, hlater, rfl⟩
      exact ⟨first, hfirst, later, hlater, rfl⟩

theorem canYield_expandChars_iff {token : Token} :
    token.expandChars.CanYield w ↔ w ∈ token.language := by
  induction token using Token.induction generalizing w with
  | text s =>
    rw [expandChars, Draw.canYield_pure, language]
    exact Iff.rfl
  | oneOf alternatives ih =>
    rw [language, languages_eq_map]
    by_cases hempty : alternatives = []
    -- A choice without alternatives expands to nothing, which is the one word of the unit.
    · subst hempty
      exact Draw.canYield_pure.trans (Language.mem_one w).symm
    · rw [canYield_expandChars_oneOf hempty, if_neg (by simpa using hempty), mem_sum]
      simp only [List.mem_map, exists_exists_and_eq_and]
      exact exists_congr fun token => and_congr_right fun htoken => ih token htoken
  | repeated times token ih =>
    obtain ⟨a, b⟩ := times
    simp only [canYield_expandChars_repeated, ih, language]
    constructor
    · rintro ⟨parts, ⟨hlo, hhi⟩, hparts, hw⟩
      exact ⟨parts.length, hlo, hhi, Language.mem_pow.2 ⟨parts, hw, rfl, hparts⟩⟩
    · rintro ⟨times, hlo, hhi, hpow⟩
      obtain ⟨parts, hw, rfl, hparts⟩ := Language.mem_pow.1 hpow
      exact ⟨parts, ⟨hlo, hhi⟩, hparts, hw⟩
  | chars first last count =>
    simp only [expandChars, Draw.canYield_replicate, canYield_drawChar, language]
    exact Iff.rfl
  | sequence tokens ih =>
    rw [expandChars, language, languages_eq_map]
    exact canYield_expandAll fun token htoken w => ih token htoken

/-- Over all answers to its draws, a token expands to the strings of its language and to no
others. -/
theorem range_follow_expand (token : Token) :
    Set.range token.expand.follow = {text | text.toList ∈ token.language} := by
  rw [Draw.range_follow]
  ext text
  exact canYield_expand.trans canYield_expandChars_iff

end Token

end FixtureBench
