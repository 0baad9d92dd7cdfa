import Mathlib.Data.List.Basic

namespace Littlelambocoin.Offer

-- A one-character atom: `.` under the `s` flag, or a class `[...]` of listed characters
inductive CharClass
  | dotAll
  | oneOf (chars : List Char)

-- The fragment of ECMAScript patterns that `parseOfferData` uses: a run of pattern
-- characters, a greedy `+` or `*` over a one-character atom, a sequence, a named group.
inductive Pattern
  | text (chars : List Char)
  | plus (atom : CharClass)
  | star (atom : CharClass)
  | seq (first second : Pattern)
  | group (name : String) (body : Pattern)

-- ECMAScript's match state, read from the start index: the text consumed and the named
-- groups captured, in the order the groups closed
structure MatchState where
  consumed : List Char
  groups : List (String × List Char)

namespace CharClass

def test : CharClass → Char → Bool
  | dotAll, _ => true
  | oneOf chars, c => c ∈ chars

@[simp] theorem test_oneOf (chars : List Char) : (oneOf chars).test = (· ∈ chars) := rfl

-- The greedy repeat matcher over one atom tries each longer run before a shorter one
def star (atom : CharClass) : List Char → List (List Char)
  | [] => [[]]
  | c :: rest => if atom.test c then (atom.star rest).map (c :: ·) ++ [[]] else [[]]

def plus (atom : CharClass) : List Char → List (List Char)
  | [] => []
  | c :: rest => if atom.test c then (atom.star rest).map (c :: ·) else []

theorem star_head? (atom : CharClass) (input : List Char) :
    (atom.star input).head? = some (input.takeWhile atom.test) := by
  induction input with
  | nil => rfl
  | cons c rest ih => by_cases h : atom.test c <;> simp [star, h, ih, List.takeWhile_cons]

theorem plus_head? (atom : CharClass) (input : List Char) :
    (atom.plus input).head? =
      if input.takeWhile atom.test = [] then none else some (input.takeWhile atom.test) := by
  cases input with
  | nil => rfl
  | cons c rest =>
      by_cases h : atom.test c
      · simp [plus, h, star_head?, List.takeWhile_cons]
      · simp [plus, h, List.takeWhile_cons]

theorem star_dotAll (input : List Char) :
    dotAll.star input = (List.range (input.length + 1)).reverse.map input.take := by
  induction input with
  | nil => rfl
  | cons c rest ih =>
      rw [List.length_cons, List.range_succ_eq_map, List.reverse_cons]
      simp [star, test, ih, List.map_reverse]

end CharClass

namespace Pattern

-- The matches of a pattern at the start of `input`, in the order in which ECMAScript's
-- backtracking matcher tries them, so that the first one is the match it returns. Without
-- lookbehind or anchors a match at an index depends only on the input from that index on.
def candidates : Pattern → List Char → List MatchState
  | text chars, input => if chars.isPrefixOf input then [⟨chars, []⟩] else []
  | plus atom, input => (atom.plus input).map (⟨·, []⟩)
  | star atom, input => (atom.star input).map (⟨·, []⟩)
  | seq first second, input =>
      (first.candidates input).flatMap fun m =>
        (second.candidates (input.drop m.consumed.length)).map fun m' =>
          ⟨m.consumed ++ m'.consumed, m.groups ++ m'.groups⟩
  | group name body, input =>
      (body.candidates input).map fun m => ⟨m.consumed, m.groups ++ [(name, m.consumed)]⟩

theorem candidates_seq (first second : Pattern) (input : List Char) :
    (seq first second).candidates input =
      (first.candidates input).flatMap fun m =>
        (second.candidates (input.drop m.consumed.length)).map fun m' =>
          ⟨m.consumed ++ m'.consumed, m.groups ++ m'.groups⟩ := rfl

@[simp] theorem candidates_group (name : String) (body : Pattern) (input : List Char) :
    (group name body).candidates input =
      (body.candidates input).map fun m => ⟨m.consumed, m.groups ++ [(name, m.consumed)]⟩ := rfl

-- `RegExpBuiltinExec` without the `g` and `y` flags: the first match at start index 0, 1,
-- ..., up to the length of the input
def exec (pattern : Pattern) : List Char → Option MatchState
  | [] => (pattern.candidates []).head?
  | input@(_ :: rest) =>
      match (pattern.candidates input).head? with
      | some m => some m
      | none => pattern.exec rest

theorem head?_candidates_seq {first second : Pattern} {next : List Char → MatchState}
    (h : ∀ input, (second.candidates input).head? = some (next input)) (input : List Char) :
    ((seq first second).candidates input).head? =
      (first.candidates input).head?.map fun m =>
        ⟨m.consumed ++ (next (input.drop m.consumed.length)).consumed,
          m.groups ++ (next (input.drop m.consumed.length)).groups⟩ := by
  cases hf : first.candidates input with
  | nil => simp [candidates, hf]
  | cons m rest =>
      have hm := h (input.drop m.consumed.length)
      cases hs : second.candidates (input.drop m.consumed.length) with
      | nil => simp [hs] at hm
      | cons m' rest' =>
          simp only [hs, List.head?_cons, Option.some.injEq] at hm
          simp [candidates, hf, hs, hm]

theorem candidates_text_seq_plus (chars : List Char) (atom : CharClass) (input : List Char) :
    ((text chars).seq (plus atom)).candidates input =
      if chars <+: input then (atom.plus (input.drop chars.length)).map fun run => ⟨chars ++ run, []⟩
      else [] := by
  by_cases h : chars <+: input
  · simp [candidates, h, List.isPrefixOf_iff_prefix.2 h]
  · have h' : chars.isPrefixOf input = false := by
      rw [← Bool.not_eq_true, List.isPrefixOf_iff_prefix]; exact h
    simp [candidates, h, h']

end Pattern

end Littlelambocoin.Offer
