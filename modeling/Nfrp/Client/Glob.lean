import Nfrp.Lib.Wildcard

/-!
# File name patterns of the included configurations

An entry of `includes` may be a pattern.  Its file name part is compared with the names in its
directory by a loop that remembers the latest `*`.  An index into the pattern or the name is
modelled by what is left from it on.
-/

namespace Nfrp.Client

open Lib

/-- The loop of `match_class` from an index on: whether the character was hit, and what follows
the `]`. -/
def matchClassFrom (negate hit first : Bool) (c : Char) : List Char → Option (Bool × List Char)
  | [] => none
  | x :: rest =>
    -- A `]` in the first place is an ordinary character.
    if x = ']' ∧ first = false then some (hit != negate, rest)
    else
      match rest with
      | '-' :: hi :: later =>
        if hi ≠ ']' then matchClassFrom negate (hit || decide (x ≤ c ∧ c ≤ hi)) false c later
        else matchClassFrom negate (hit || decide (x = c)) false c ('-' :: hi :: later)
      | rest => matchClassFrom negate (hit || decide (x = c)) false c rest

/-- `p` is what follows the `[`.  `none` is a class that is not closed. -/
def matchClass (p : List Char) (c : Char) : Option (Bool × List Char) :=
  match p with
  | '^' :: rest => matchClassFrom true false true c rest
  | '!' :: rest => matchClassFrom true false true c rest
  | _ => matchClassFrom false false true c p

/-- Back to the latest `*`, which takes one more character. -/
def globRetry (again : List Char → List Char → Option (List Char × List Char) → Option Bool) :
    Option (List Char × List Char) → Option Bool
  | some (sp, sn) => again sp sn.tail (some (sp, sn.tail))
  | none => some false

/-- The loop of `glob_inner`.  `star` holds the pattern after the latest `*` and the name where it
began.  `none` is a loop of more rounds than `fuel`. -/
def globLoop : Nat → List Char → List Char → Option (List Char × List Char) → Option Bool
  | 0, _, _, _ => none
  | _ + 1, p, [], _ => some (p.dropWhile (· == '*')).isEmpty
  | fuel + 1, [], _ :: _, star => globRetry (globLoop fuel) star
  | fuel + 1, x :: rest, c :: n, star =>
    if x = '*' then
      -- Several stars in a row count as one.
      let rest := rest.dropWhile (· == '*')
      globLoop fuel rest (c :: n) (some (rest, c :: n))
    else if x = '?' then globLoop fuel rest n star
    else if x = '[' then
      match matchClass rest c with
      | some (matched, next) => if matched then globLoop fuel next n star else globRetry (globLoop fuel) star
      | none => if c = '[' then globLoop fuel rest n star else globRetry (globLoop fuel) star
    else if x = c then globLoop fuel rest n star
    else globRetry (globLoop fuel) star

/-- The source's loop counts no rounds: these are enough for it to end. -/
def globInner (p n : List Char) : Option Bool := globLoop (Wildcard.stepBound p.length n) p n none

def globMatch (pattern name : String) : Option Bool := globInner pattern.toList name.toList

inductive ClassItem where
  | single (c : Char)
  | range (lo hi : Char)

def ClassItem.Has (c : Char) : ClassItem → Bool
  | .single x => decide (x = c)
  | .range lo hi => decide (lo ≤ c ∧ c ≤ hi)

structure CharClass where
  negated : Bool
  items : List ClassItem

def CharClass.accepts (cls : CharClass) (c : Char) : Bool := cls.items.any (ClassItem.Has c) != cls.negated

/-- The items up to the closing `]`, and what follows it. -/
def parseItems : Bool → List Char → Option (List ClassItem × List Char)
  | _, [] => none
  | first, x :: rest =>
    if x = ']' ∧ first = false then some ([], rest)
    else
      match rest with
      | '-' :: hi :: later =>
        if hi ≠ ']' then (parseItems false later).map (Prod.map (.range x hi :: ·) id)
        else (parseItems false ('-' :: hi :: later)).map (Prod.map (.single x :: ·) id)
      | rest => (parseItems false rest).map (Prod.map (.single x :: ·) id)

/-- The class after a `[`.  Any of `marks` in the first place turns it into its complement. -/
def parseClass (marks : List Char) (p : List Char) : Option (CharClass × List Char) :=
  match p with
  | [] => none
  | mark :: rest =>
    if mark ∈ marks then (parseItems true rest).map (Prod.map (CharClass.mk true) id)
    else (parseItems true p).map (Prod.map (CharClass.mk false) id)

inductive Matches (marks : List Char) : List Char → List Char → Prop where
  | nil : Matches marks [] []
  | star {p n} (skipped : List Char) : Matches marks p n → Matches marks ('*' :: p) (skipped ++ n)
  | any {p n} (c : Char) : Matches marks p n → Matches marks ('?' :: p) (c :: n)
  | cls {p cls rest c n} : parseClass marks p = some (cls, rest) → cls.accepts c = true →
      Matches marks rest n → Matches marks ('[' :: p) (c :: n)
  | unclosed {p n} : parseClass marks p = none → Matches marks p n → Matches marks ('[' :: p) ('[' :: n)
  | literal {c p n} : c ≠ '*' → c ≠ '?' → c ≠ '[' → Matches marks p n → Matches marks (c :: p) (c :: n)

theorem matchClassFrom_close (negate hit : Bool) (c : Char) (rest : List Char) :
    matchClassFrom negate hit false c (']' :: rest) = some (hit != negate, rest) := by
  unfold matchClassFrom
  exact if_pos ⟨rfl, rfl⟩

theorem parseItems_close (rest : List Char) : parseItems false (']' :: rest) = some ([], rest) := by
  unfold parseItems
  exact if_pos ⟨rfl, rfl⟩

theorem matchClassFrom_eq (negate hit first : Bool) (c : Char) (p : List Char) :
    matchClassFrom negate hit first c p =
      (parseItems first p).map fun found => ((hit || found.1.any (ClassItem.Has c)) != negate, found.2) := by
  induction hit, first, p using matchClassFrom.induct c with
  | case1 hit first => rfl
  | case2 hit first x rest closes =>
    obtain ⟨rfl, rfl⟩ := closes
    simp [matchClassFrom_close, parseItems_close]
  | case3 hit first x opens hi later inside ih =>
    rw [matchClassFrom, parseItems, if_neg opens, if_neg opens, if_pos inside, if_pos inside, ih]
    simp only [Option.map_map, Function.comp_def, Prod.map_fst, Prod.map_snd, List.any_cons, ClassItem.Has, id,
      Bool.or_assoc]
  | case4 hit first x opens hi later inside ih =>
    rw [matchClassFrom, parseItems, if_neg opens, if_neg opens, if_neg inside, if_neg inside, ih]
    simp only [Option.map_map, Function.comp_def, Prod.map_fst, Prod.map_snd, List.any_cons, ClassItem.Has, id,
      Bool.or_assoc]
  | case5 hit first x opens rest single ih =>
    rw [matchClassFrom, parseItems, if_neg opens, if_neg opens, ih]
    · simp only [Option.map_map, Function.comp_def, Prod.map_fst, Prod.map_snd, List.any_cons, ClassItem.Has, id,
        Bool.or_assoc]
    all_goals exact single

theorem matchClass_eq (p : List Char) (c : Char) :
    matchClass p c = (parseClass ['^', '!'] p).map fun found => (found.1.accepts c, found.2) := by
  unfold matchClass
  split
  · simp [parseClass, matchClassFrom_eq, CharClass.accepts, Function.comp_def]
  · simp [parseClass, matchClassFrom_eq, CharClass.accepts, Function.comp_def]
  · rename_i notCaret notMark
    cases p with
    | nil => rfl
    | cons mark rest =>
      have plain : mark ∉ ['^', '!'] := by
        simp only [List.mem_cons, List.not_mem_nil, or_false, not_or]
        exact ⟨fun same => notCaret rest (same ▸ rfl), fun same => notMark rest (same ▸ rfl)⟩
      rw [parseClass, if_neg plain, matchClassFrom_eq]
      simp [CharClass.accepts, Function.comp_def]

theorem parseItems_shorter {first : Bool} {p rest : List Char} {items : List ClassItem}
    (parsed : parseItems first p = some (items, rest)) : rest.length < p.length := by
  induction first, p using parseItems.induct generalizing items with
  | case1 first => cases parsed
  | case2 first x later closes =>
    obtain ⟨rfl, rfl⟩ := closes
    cases (parseItems_close later).symm.trans parsed
    exact Nat.lt_succ_self _
  | case3 first x opens hi later inside ih =>
    rw [parseItems, if_neg opens, if_pos inside] at parsed
    obtain ⟨found, inner, same⟩ := Option.map_eq_some_iff.mp parsed
    cases same
    have shorter := ih inner
    simp only [List.length_cons]
    omega
  | case4 first x opens hi later inside ih =>
    rw [parseItems, if_neg opens, if_neg inside] at parsed
    obtain ⟨found, inner, same⟩ := Option.map_eq_some_iff.mp parsed
    cases same
    exact Nat.lt_succ_of_lt (ih inner)
  | case5 first x opens later single ih =>
    rw [parseItems, if_neg opens] at parsed
    · obtain ⟨found, inner, same⟩ := Option.map_eq_some_iff.mp parsed
      cases same
      exact Nat.lt_succ_of_lt (ih inner)
    all_goals exact single

theorem parseClass_shorter {marks p rest : List Char} {cls : CharClass}
    (parsed : parseClass marks p = some (cls, rest)) : rest.length < p.length := by
  cases p with
  | nil => cases parsed
  | cons mark later =>
    unfold parseClass at parsed
    dsimp only at parsed
    split at parsed
    all_goals
      obtain ⟨found, inner, same⟩ := Option.map_eq_some_iff.mp parsed
      cases same
    · exact Nat.lt_succ_of_lt (parseItems_shorter inner)
    · exact parseItems_shorter inner

def view (marks : List Char) : List Char → Wildcard.View (List Char) Char
  | [] => .done
  | x :: rest =>
    if x = '*' then .star (rest.dropWhile (· == '*'))
    else if x = '?' then .one (fun _ => true) rest
    else if x = '[' then
      match parseClass marks rest with
      | some (cls, next) => .one cls.accepts next
      | none => .one (· == '[') rest
    else .one (x == ·) rest

section View

variable (marks : List Char)

@[simp]
theorem view_star (p : List Char) : view marks ('*' :: p) = .star (p.dropWhile (· == '*')) := rfl

@[simp]
theorem view_any (p : List Char) : view marks ('?' :: p) = .one (fun _ => true) p := rfl

variable {marks}

theorem view_class {p rest : List Char} {cls : CharClass} (parsed : parseClass marks p = some (cls, rest)) :
    view marks ('[' :: p) = .one cls.accepts rest := by
  simp [view, parsed]

theorem view_unclosed {p : List Char} (parsed : parseClass marks p = none) :
    view marks ('[' :: p) = .one (· == '[') p := by
  simp [view, parsed]

theorem view_literal {c : Char} (notStar : c ≠ '*') (notAny : c ≠ '?') (notClass : c ≠ '[') (p : List Char) :
    view marks (c :: p) = .one (c == ·) p := by
  simp [view, notStar, notAny, notClass]

theorem view_cases (marks : List Char) {motive : List Char → Prop} (nil : motive [])
    (star : ∀ p, motive ('*' :: p)) (any : ∀ p, motive ('?' :: p))
    (cls : ∀ p cls rest, parseClass marks p = some (cls, rest) → motive ('[' :: p))
    (unclosed : ∀ p, parseClass marks p = none → motive ('[' :: p))
    (literal : ∀ c p, c ≠ '*' → c ≠ '?' → c ≠ '[' → motive (c :: p)) : ∀ p, motive p
  | [] => nil
  | c :: p => by
      by_cases isStar : c = '*'
      · exact isStar ▸ star p
      by_cases isAny : c = '?'
      · exact isAny ▸ any p
      by_cases isClass : c = '['
      · subst isClass
        cases parsed : parseClass marks p with
        | none => exact unclosed p parsed
        | some found => exact cls p found.1 found.2 parsed
      · exact literal c p isStar isAny isClass

theorem view_star_iff {p rest : List Char} :
    view marks p = .star rest ↔ ∃ q, p = '*' :: q ∧ rest = q.dropWhile (· == '*') := by
  constructor
  · intro sees
    induction p using view_cases marks with
    | nil => cases sees
    | star p =>
      cases sees
      exact ⟨p, rfl, rfl⟩
    | any p => cases sees
    | cls p cls rest parsed => cases (view_class parsed).symm.trans sees
    | unclosed p parsed => cases (view_unclosed parsed).symm.trans sees
    | literal c p notStar notAny notClass => cases (view_literal notStar notAny notClass p).symm.trans sees
  · rintro ⟨q, rfl, rfl⟩
    rfl

theorem view_star_shorter {p rest : List Char} (sees : view marks p = .star rest) : rest.length < p.length := by
  obtain ⟨q, rfl, rfl⟩ := view_star_iff.mp sees
  exact Nat.lt_succ_of_le (List.dropWhile_suffix _).length_le

theorem view_one_shorter {p rest : List Char} {accepts : Char → Bool} (sees : view marks p = .one accepts rest) :
    rest.length < p.length := by
  induction p using view_cases marks with
  | nil => cases sees
  | star p => cases sees
  | any p =>
    cases sees
    exact Nat.lt_succ_self _
  | cls p cls next parsed =>
    cases (view_class parsed).symm.trans sees
    exact Nat.lt_succ_of_lt (parseClass_shorter parsed)
  | unclosed p parsed =>
    cases (view_unclosed parsed).symm.trans sees
    exact Nat.lt_succ_self _
  | literal c p notStar notAny notClass =>
    cases (view_literal notStar notAny notClass p).symm.trans sees
    exact Nat.lt_succ_self _

end View

section Language

variable {marks p n : List Char}

theorem Matches.drop_stars (inside : Matches marks (p.dropWhile (· == '*')) n) : Matches marks p n := by
  induction p with
  | nil => exact inside
  | cons c p ih =>
    rw [List.dropWhile_cons] at inside
    split at inside
    · rename_i isStar
      rw [eq_of_beq isStar]
      exact .star [] (ih inside)
    · exact inside

theorem Matches.one_more (inside : Matches marks ('*' :: p) n) (c : Char) : Matches marks ('*' :: p) (c :: n) := by
  cases inside with
  | star skipped inside => exact .star (c :: skipped) inside
  | literal notStar _ _ _ => exact absurd rfl notStar

theorem matches_of_lang (inside : Wildcard.Lang (view marks) p n) : Matches marks p n := by
  induction inside with
  | @done p sees =>
    induction p using view_cases marks with
    | nil => exact .nil
    | star p => cases sees
    | any p => cases sees
    | cls p cls next parsed => cases (view_class parsed).symm.trans sees
    | unclosed p parsed => cases (view_unclosed parsed).symm.trans sees
    | literal c p notStar notAny notClass => cases (view_literal notStar notAny notClass p).symm.trans sees
  | skip sees _ ih =>
    obtain ⟨q, rfl, rfl⟩ := view_star_iff.mp sees
    exact .star [] ih.drop_stars
  | eat sees _ ih =>
    obtain ⟨q, rfl, rfl⟩ := view_star_iff.mp sees
    exact ih.one_more _
  | @one p accepts rest element n sees accepted _ ih =>
    induction p using view_cases marks with
    | nil => cases sees
    | star p => cases sees
    | any p =>
      cases sees
      exact .any element ih
    | cls p cls next parsed =>
      cases (view_class parsed).symm.trans sees
      exact .cls parsed accepted ih
    | unclosed p parsed =>
      cases (view_unclosed parsed).symm.trans sees
      rw [eq_of_beq accepted]
      exact .unclosed parsed ih
    | literal c p notStar notAny notClass =>
      cases (view_literal notStar notAny notClass p).symm.trans sees
      rw [← eq_of_beq accepted]
      exact .literal notStar notAny notClass ih

theorem lang_drop_stars (inside : Wildcard.Lang (view marks) p n) :
    ∃ skipped later, n = skipped ++ later ∧ Wildcard.Lang (view marks) (p.dropWhile (· == '*')) later := by
  cases p with
  | nil => exact ⟨[], n, rfl, inside⟩
  | cons c p =>
    by_cases isStar : c = '*'
    · subst isStar
      exact (Wildcard.lang_star_iff (view_star marks p)).mp inside
    · refine ⟨[], n, rfl, ?_⟩
      rwa [List.dropWhile_cons_of_neg (by simpa using isStar)]

theorem lang_of_matches (inside : Matches marks p n) : Wildcard.Lang (view marks) p n := by
  induction inside with
  | nil => exact .done rfl
  | @star p n skipped _ ih =>
    obtain ⟨more, later, rfl, left⟩ := lang_drop_stars ih
    apply (Wildcard.lang_star_iff (view_star marks p)).mpr
    exact ⟨skipped ++ more, later, (List.append_assoc skipped more later).symm, left⟩
  | any c _ ih => exact .one (view_any marks _) rfl ih
  | cls parsed accepted _ ih => exact .one (view_class parsed) accepted ih
  | unclosed parsed _ ih => exact .one (view_unclosed parsed) (by simp) ih
  | literal notStar notAny notClass _ ih =>
    exact .one (view_literal notStar notAny notClass _) (by simp) ih

theorem lang_iff_matches : Wildcard.Lang (view marks) p n ↔ Matches marks p n :=
  ⟨matches_of_lang, lang_of_matches⟩

theorem stars_iff_lang_nil : (p.dropWhile (· == '*')).isEmpty = true ↔ Wildcard.Lang (view marks) p [] := by
  rw [lang_iff_matches, List.isEmpty_iff]
  constructor
  · intro onlyStars
    apply Matches.drop_stars
    rw [onlyStars]
    exact .nil
  · intro inside
    generalize empty : ([] : List Char) = n at inside
    induction inside with
    | nil => rfl
    | star skipped _ ih =>
      obtain ⟨rfl, rfl⟩ := List.append_eq_nil_iff.mp empty.symm
      exact ih rfl
    | any _ _ _ | cls _ _ _ _ | unclosed _ _ _ | literal _ _ _ _ _ => cases empty

end Language

theorem globRetry_eq (again : List Char → List Char → Option (List Char × List Char) → Option Bool)
    (star : Option (List Char × List Char)) : globRetry again star = Wildcard.backtrack again star := by
  cases star <;> rfl

theorem globLoop_eq (fuel : Nat) :
    globLoop fuel = Wildcard.search (view ['^', '!']) (fun p => (p.dropWhile (· == '*')).isEmpty) fuel := by
  induction fuel with
  | zero =>
    funext p n star
    rfl
  | succ fuel ih =>
    funext p n star
    cases n with
    | nil => rfl
    | cons c n =>
      induction p using view_cases ['^', '!'] with
      | nil => simp only [globLoop, Wildcard.search, view, globRetry_eq, ih]
      | star p => simp [globLoop, Wildcard.search, ih]
      | any p => simp [globLoop, Wildcard.search, ih]
      | cls p cls next parsed =>
        simp [globLoop, Wildcard.search, view_class parsed, matchClass_eq, parsed, globRetry_eq,
          ih]
      | unclosed p parsed =>
        simp [globLoop, Wildcard.search, view_unclosed parsed, matchClass_eq, parsed, globRetry_eq,
          ih]
      | literal x p notStar notAny notClass =>
        simp [globLoop, Wildcard.search, view_literal notStar notAny notClass, notStar, notAny, notClass,
          globRetry_eq, ih]

theorem globInner_decides (p n : List Char) :
    ∃ answer, globInner p n = some answer ∧ (answer = true ↔ Matches ['^', '!'] p n) := by
  unfold globInner
  rw [globLoop_eq, ← lang_iff_matches]
  apply Wildcard.search_decides
  · exact fun p rest sees => view_star_shorter sees
  · exact fun p accepts rest sees => view_one_shorter sees
  · exact fun p => stars_iff_lang_nil

/-- For every pattern and every name the loop ends, and its answer is whether the name belongs to
the pattern's language. -/
theorem globMatch_iff (pattern name : String) :
    (globMatch pattern name = some true ↔ Matches ['^', '!'] pattern.toList name.toList) ∧
      (globMatch pattern name = some false ↔ ¬ Matches ['^', '!'] pattern.toList name.toList) := by
  obtain ⟨answer, found, correct⟩ := globInner_decides pattern.toList name.toList
  unfold globMatch
  rw [found, ← correct]
  cases answer <;> simp

/-- A `!` in the first place of a class negates it too, so the class `[!a]` leaves out the `a` that
it lists. -/
theorem not_globMatch_exclamation :
    ¬ ∀ pattern name, globMatch pattern name = some true ↔ Matches ['^'] pattern.toList name.toList := by
  intro decides
  have listed : Matches ['^'] "[!a]".toList "a".toList := .cls rfl rfl .nil
  have answered := (decides "[!a]" "a").mpr listed
  have refused : globMatch "[!a]" "a" = some false := by decide
  cases refused.symm.trans answered

end Nfrp.Client
