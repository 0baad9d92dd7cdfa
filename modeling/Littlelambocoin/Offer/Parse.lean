import Littlelambocoin.Offer.Pattern
import Mathlib.Data.Nat.Find

namespace Littlelambocoin.Offer

open Pattern

-- The bech32 characters of the offer pattern, in the order the source lists them
def bech32Chars : List Char := "qpzry9x8gf2tvdw0s3jn54khce6mua7l".toList

def offerPrefix : List Char := "offer1".toList

@[simp] theorem offerPrefix_length : offerPrefix.length = 6 := rfl

def leadingGroup : Pattern := .group "leading" (.star .dotAll)

def offerGroup : Pattern :=
  .group "offer" (.seq (.text offerPrefix) (.plus (.oneOf bech32Chars)))

def trailingGroup : Pattern := .group "trailing" (.star .dotAll)

-- `/(?<leading>.*)(?<offer>offer1[qpzry9x8gf2tvdw0s3jn54khce6mua7l]+)(?<trailing>.*)/s`
def offerPattern : Pattern := .seq leadingGroup (.seq offerGroup trailingGroup)

-- `data.match(...)` and its groups `offer`, `leading` and `trailing`, `undefined` without a match
def parseOfferData (data : List Char) :
    Option (List Char) × Option (List Char) × Option (List Char) :=
  let found := offerPattern.exec data
  (found.bind (·.groups.lookup "offer"), found.bind (·.groups.lookup "leading"),
    found.bind (·.groups.lookup "trailing"))

-- `s` holds "offer1" followed by a bech32 character at index `k`
def OfferAt (s : List Char) (k : Nat) : Prop :=
  ∃ c rest, s.drop k = offerPrefix ++ c :: rest ∧ c ∈ bech32Chars

-- "offer1" and the longest run of bech32 characters after it, at index `k` of `s`
def offerRun (s : List Char) (k : Nat) : List Char :=
  offerPrefix ++ (s.drop (k + 6)).takeWhile (· ∈ bech32Chars)

def offerGroups (s : List Char) (k : Nat) : List (String × List Char) :=
  [("leading", s.take k), ("offer", offerRun s k), ("trailing", s.drop (k + (offerRun s k).length))]

theorem offerAt_iff (s : List Char) (k : Nat) :
    OfferAt s k ↔ offerPrefix <+: s.drop k ∧
      (s.drop (k + 6)).takeWhile (· ∈ bech32Chars) ≠ [] := by
  constructor
  · rintro ⟨c, rest, hs, hc⟩
    have hd : s.drop (k + 6) = c :: rest := by
      rw [← List.drop_drop, hs]; rfl
    exact ⟨hs ▸ List.prefix_append _ _, by simp [hd, List.takeWhile_cons, hc]⟩
  · rintro ⟨⟨rest, hs⟩, hw⟩
    have hd : s.drop (k + 6) = rest := by
      rw [← List.drop_drop, ← hs]; rfl
    cases rest with
    | nil => simp [hd] at hw
    | cons c rest =>
        by_cases hc : c ∈ bech32Chars
        · exact ⟨c, rest, hs.symm, hc⟩
        · simp [hd, List.takeWhile_cons, hc] at hw

instance (s : List Char) (k : Nat) : Decidable (OfferAt s k) :=
  decidable_of_iff _ (offerAt_iff s k).symm

theorem offerAt_drop (s : List Char) (i k : Nat) : OfferAt (s.drop i) k ↔ OfferAt s (i + k) := by
  simp [OfferAt, List.drop_drop]

theorem trailingGroup_head? (input : List Char) :
    (trailingGroup.candidates input).head? = some ⟨input, [("trailing", input)]⟩ := by
  simp [trailingGroup, candidates, CharClass.star_head?, CharClass.test]

theorem offerGroup_head? (input : List Char) :
    (offerGroup.candidates input).head? =
      if OfferAt input 0 then some ⟨offerRun input 0, [("offer", offerRun input 0)]⟩ else none := by
  have hiff := offerAt_iff input 0
  simp only [List.drop_zero, Nat.zero_add] at hiff
  simp only [offerGroup, candidates_group, candidates_text_seq_plus, offerPrefix_length]
  by_cases hp : offerPrefix <+: input
  · by_cases hw : (input.drop 6).takeWhile (· ∈ bech32Chars) = []
    · have h : ¬OfferAt input 0 := fun h => (hiff.1 h).2 hw
      simp only [if_pos hp, if_neg h, List.head?_map, CharClass.plus_head?, CharClass.test_oneOf,
        if_pos hw, Option.map_none']
    · simp only [if_pos hp, if_pos (hiff.2 ⟨hp, hw⟩), List.head?_map, CharClass.plus_head?,
        CharClass.test_oneOf, if_neg hw, Option.map_some', offerRun, Nat.zero_add, List.nil_append]
  · simp only [if_neg hp, if_neg fun h => hp (hiff.1 h).1, List.map_nil, List.head?_nil]

theorem offerTail_head? (input : List Char) :
    ((offerGroup.seq trailingGroup).candidates input).head? =
      if OfferAt input 0 then
        some ⟨offerRun input 0 ++ input.drop (offerRun input 0).length,
          [("offer", offerRun input 0), ("trailing", input.drop (offerRun input 0).length)]⟩
      else none := by
  rw [head?_candidates_seq trailingGroup_head?, offerGroup_head?]
  split_ifs <;> rfl

theorem leadingGroup_candidates (s : List Char) :
    leadingGroup.candidates s =
      (List.range (s.length + 1)).reverse.map fun k => ⟨s.take k, [("leading", s.take k)]⟩ := by
  simp [leadingGroup, candidates, CharClass.star_dotAll]

theorem drop_length_take (s : List Char) (k : Nat) : s.drop (s.take k).length = s.drop k := by
  rw [List.length_take]
  rcases le_total k s.length with h | h
  · rw [min_eq_left h]
  · rw [min_eq_right h, List.drop_eq_nil_of_le h, List.drop_eq_nil_of_le le_rfl]

theorem offerPattern_head? (s : List Char) :
    (offerPattern.candidates s).head?.map MatchState.groups =
      (List.range (s.length + 1)).reverse.findSome? fun k =>
        if OfferAt s k then some (offerGroups s k) else none := by
  rw [offerPattern, candidates_seq, List.head?_flatMap, leadingGroup_candidates, List.findSome?_map,
    List.map_findSome?]
  congr 1
  funext k
  have hk : OfferAt (s.drop k) 0 ↔ OfferAt s k := by rw [offerAt_drop, Nat.add_zero]
  have hr : offerRun (s.drop k) 0 = offerRun s k := by simp [offerRun, List.drop_drop, Nat.add_comm]
  simp only [Function.comp, List.head?_map, drop_length_take, offerTail_head?, hk, hr]
  split_ifs <;> simp [offerGroups, List.drop_drop]

theorem findSome?_range_reverse {β : Type} (p : Nat → Prop) [DecidablePred p] (g : Nat → β)
    {n k : Nat} (hk : p k) (hkn : k ≤ n) (hlast : ∀ j, p j → j ≤ k) :
    (List.range (n + 1)).reverse.findSome? (fun j => if p j then some (g j) else none) =
      some (g k) := by
  induction n with
  | zero =>
      obtain rfl : k = 0 := by omega
      simp [List.range_succ, hk]
  | succ n ih =>
      rw [List.range_succ, List.reverse_append, List.reverse_singleton, List.singleton_append,
        List.findSome?_cons]
      rcases Nat.lt_or_eq_of_le hkn with h | rfl
      · have hn : ¬p (n + 1) := fun hp => absurd (hlast _ hp) (by omega)
        simp only [if_neg hn]
        exact ih (by omega)
      · simp [hk]

theorem OfferAt.lt_length {s : List Char} {k : Nat} (h : OfferAt s k) : k < s.length := by
  obtain ⟨c, rest, hs, -⟩ := h
  by_contra hk
  simp [List.drop_eq_nil_of_le (Nat.le_of_not_lt hk)] at hs

theorem exists_last_offerAt {s : List Char} (h : ∃ k, OfferAt s k) :
    ∃ k, OfferAt s k ∧ ∀ j, OfferAt s j → j ≤ k := by
  obtain ⟨k, hk⟩ := h
  exact ⟨Nat.findGreatest (OfferAt s) s.length, Nat.findGreatest_spec hk.lt_length.le hk,
    fun j hj => Nat.le_findGreatest hj.lt_length.le hj⟩

theorem offerPattern_head?_of_last {s : List Char} {k : Nat} (hk : OfferAt s k)
    (hlast : ∀ j, OfferAt s j → j ≤ k) :
    (offerPattern.candidates s).head?.map MatchState.groups = some (offerGroups s k) := by
  rw [offerPattern_head?]
  exact findSome?_range_reverse _ _ hk hk.lt_length.le hlast

theorem offerPattern_head?_eq_none_iff (s : List Char) :
    (offerPattern.candidates s).head? = none ↔ ∀ k, ¬OfferAt s k := by
  rw [← Option.map_eq_none', offerPattern_head?, List.findSome?_eq_none_iff]
  constructor
  · intro h k hk
    simpa [hk] using h k (List.mem_reverse.2 (List.mem_range.2 (by have := hk.lt_length; omega)))
  · intro h k _
    simp [h k]

-- No match at index 0 means no offer anywhere, so `exec` finds none further on either
theorem exec_offerPattern (s : List Char) :
    offerPattern.exec s = (offerPattern.candidates s).head? := by
  induction s with
  | nil => rfl
  | cons c rest ih =>
      rw [exec]
      cases h : (offerPattern.candidates (c :: rest)).head? with
      | some m => rfl
      | none =>
          have hnone := (offerPattern_head?_eq_none_iff (c :: rest)).1 h
          rw [ih, offerPattern_head?_eq_none_iff]
          intro k hk
          exact hnone (k + 1) (by rw [Nat.add_comm]; exact (offerAt_drop (c :: rest) 1 k).1 hk)

theorem parseOfferData_of_last {s : List Char} {k : Nat} (hk : OfferAt s k)
    (hlast : ∀ j, OfferAt s j → j ≤ k) :
    parseOfferData s =
      (some (offerRun s k), some (s.take k), some (s.drop (k + (offerRun s k).length))) := by
  have hg := offerPattern_head?_of_last hk hlast
  rw [← exec_offerPattern] at hg
  cases hm : offerPattern.exec s with
  | none => simp [hm] at hg
  | some m =>
      simp only [hm, Option.map_some', Option.some.injEq] at hg
      simp only [parseOfferData, hm, hg, offerGroups, Option.some_bind]
      rfl

theorem parseOfferData_of_not_offerAt {s : List Char} (h : ∀ k, ¬OfferAt s k) :
    parseOfferData s = (none, none, none) := by
  simp [parseOfferData, exec_offerPattern, (offerPattern_head?_eq_none_iff s).2 h]

theorem eq_offerRun_of_parseOfferData {s offer : List Char} (h : (parseOfferData s).1 = some offer) :
    ∃ k, OfferAt s k ∧ (∀ j, OfferAt s j → j ≤ k) ∧ offer = offerRun s k := by
  by_cases hs : ∃ k, OfferAt s k
  · obtain ⟨k, hk, hlast⟩ := exists_last_offerAt hs
    rw [parseOfferData_of_last hk hlast] at h
    exact ⟨k, hk, hlast, (Option.some.inj h).symm⟩
  · simp [parseOfferData_of_not_offerAt (not_exists.1 hs)] at h

theorem eq_offerPrefix_append_of_parseOfferData {s offer : List Char}
    (h : (parseOfferData s).1 = some offer) :
    ∃ w, w ≠ [] ∧ (∀ c ∈ w, c ∈ bech32Chars) ∧ offer = offerPrefix ++ w := by
  obtain ⟨k, hk, -, rfl⟩ := eq_offerRun_of_parseOfferData h
  exact ⟨_, ((offerAt_iff s k).1 hk).2, fun c hc => by simpa using List.mem_takeWhile_imp hc, rfl⟩

-- "offer1" and a non-empty run of bech32 characters: the texts `parseOfferData` returns as offers
def isOffer (text : List Char) : Bool :=
  offerPrefix.isPrefixOf text && !(text.drop 6).isEmpty && (text.drop 6).all (· ∈ bech32Chars)

theorem isOffer_of_parseOfferData {s offer : List Char} (h : (parseOfferData s).1 = some offer) :
    isOffer offer = true := by
  obtain ⟨w, hw, hwb, rfl⟩ := eq_offerPrefix_append_of_parseOfferData h
  have hdrop : (offerPrefix ++ w).drop 6 = w := List.drop_left' offerPrefix_length
  simpa [isOffer, hdrop, hw, List.isPrefixOf_iff_prefix] using hwb

theorem drop_eq_offerPrefix_append {s : List Char} {k : Nat} (hk : OfferAt s k) :
    s.drop k = offerPrefix ++ s.drop (k + 6) := by
  obtain ⟨c, rest, hs, -⟩ := hk
  rw [← List.drop_drop, hs]
  rfl

theorem drop_offerRun_eq_dropWhile (s : List Char) (k : Nat) :
    s.drop (k + (offerRun s k).length) = (s.drop (k + 6)).dropWhile (· ∈ bech32Chars) := by
  calc s.drop (k + (offerRun s k).length)
      = (s.drop (k + 6)).drop ((s.drop (k + 6)).takeWhile (· ∈ bech32Chars)).length := by
        simp [offerRun, List.drop_drop, Nat.add_assoc, Nat.add_comm]
    _ = ((s.drop (k + 6)).takeWhile (· ∈ bech32Chars) ++
          (s.drop (k + 6)).dropWhile (· ∈ bech32Chars)).drop
          ((s.drop (k + 6)).takeWhile (· ∈ bech32Chars)).length := by
        rw [List.takeWhile_append_dropWhile]
    _ = _ := List.drop_left _ _

theorem take_append_offerRun {s : List Char} {k : Nat} (hk : OfferAt s k) :
    s.take k ++ offerRun s k ++ s.drop (k + (offerRun s k).length) = s := by
  rw [drop_offerRun_eq_dropWhile, offerRun, List.append_assoc, List.append_assoc,
    List.takeWhile_append_dropWhile, ← drop_eq_offerPrefix_append hk, List.take_append_drop]

theorem OfferAt.getElem? {s : List Char} {k : Nat} (h : OfferAt s k) : s[k]? = some 'o' := by
  obtain ⟨c, rest, hs, -⟩ := h
  rw [← List.head?_drop, hs]
  rfl

theorem not_offerAt_after {w t : List Char} (hwb : ∀ c ∈ w, c ∈ bech32Chars)
    (ht : ∀ j, ¬OfferAt t j) {d : Nat} (hd : 0 < d) : ¬OfferAt (offerPrefix ++ w ++ t) d := by
  intro h
  have ho := h.getElem?
  rw [List.append_assoc] at ho
  rcases Nat.lt_or_ge d 6 with h6 | h6
  · rw [List.getElem?_append_left (by simpa using h6)] at ho
    have hnot : ∀ d < 6, 0 < d → offerPrefix[d]? ≠ some 'o' := by decide
    exact hnot d h6 hd ho
  · rw [List.getElem?_append_right (by simpa using h6)] at ho
    rcases Nat.lt_or_ge (d - 6) w.length with hw | hw
    · rw [offerPrefix_length, List.getElem?_append_left hw] at ho
      exact absurd (hwb _ (List.getElem?_mem ho)) (by decide)
    · apply ht (d - 6 - w.length)
      have hd' : 6 + w.length + (d - 6 - w.length) = d := by omega
      rw [← @List.drop_left' _ (offerPrefix ++ w) t (6 + w.length) (by simp), offerAt_drop, hd']
      exact h

-- An offer between a text `l` and a text `t` that neither starts an offer nor continues its
-- bech32 run is parsed back into its three parts, whatever `l` holds
theorem parseOfferData_append {l w t : List Char} (hw : w ≠ []) (hwb : ∀ c ∈ w, c ∈ bech32Chars)
    (ht : ∀ j, ¬OfferAt t j) (hts : ∀ c rest, t = c :: rest → c ∉ bech32Chars) :
    parseOfferData (l ++ offerPrefix ++ w ++ t) = (some (offerPrefix ++ w), some l, some t) := by
  have hdrop : (l ++ offerPrefix ++ w ++ t).drop l.length = offerPrefix ++ w ++ t := by simp
  have hk : OfferAt (l ++ offerPrefix ++ w ++ t) l.length := by
    obtain ⟨c, w', rfl⟩ := List.exists_cons_of_ne_nil hw
    exact ⟨c, w' ++ t, by simp [hdrop], hwb c (by simp)⟩
  have hlast : ∀ j, OfferAt (l ++ offerPrefix ++ w ++ t) j → j ≤ l.length := by
    intro j hj
    by_contra hlt
    have hj' := (offerAt_drop _ l.length (j - l.length)).2 (by rwa [Nat.add_sub_cancel' (by omega)])
    rw [hdrop] at hj'
    exact not_offerAt_after hwb ht (by omega) hj'
  have hrun : ((l ++ offerPrefix ++ w ++ t).drop (l.length + 6)).takeWhile (· ∈ bech32Chars) = w := by
    have hd : (l ++ offerPrefix ++ w ++ t).drop (l.length + 6) = w ++ t := by
      rw [← List.drop_drop, hdrop, List.append_assoc]; rfl
    have htw : t.takeWhile (· ∈ bech32Chars) = [] := by
      cases t with
      | nil => rfl
      | cons c rest => simp [hts c rest rfl]
    rw [hd, List.takeWhile_append_of_pos (by simpa using hwb), htw, List.append_nil]
  have htake : (l ++ offerPrefix ++ w ++ t).take l.length = l := by simp [List.append_assoc]
  have hrest : (l ++ offerPrefix ++ w ++ t).drop (l.length + (offerPrefix ++ w).length) = t := by
    rw [← List.drop_drop, hdrop, List.drop_left]
  rw [parseOfferData_of_last hk hlast, offerRun, hrun, htake, hrest]

-- `parseOfferData` finds an offer exactly when the text holds "offer1" and a bech32 character.
-- The offer is the one at the last such index with all the bech32 characters after it, and the
-- leading and trailing texts are the rest, so an offer glued between two texts is parsed back.
theorem parseOfferData_last_offer :
    (∀ s : List Char, ((parseOfferData s).1.isSome ↔ ∃ k, OfferAt s k) ∧
      ∀ k, OfferAt s k → (∀ j, OfferAt s j → j ≤ k) →
        parseOfferData s =
            (some (offerRun s k), some (s.take k), some (s.drop (k + (offerRun s k).length))) ∧
          s.take k ++ offerRun s k ++ s.drop (k + (offerRun s k).length) = s) ∧
    ∀ l w t : List Char, w ≠ [] → (∀ c ∈ w, c ∈ bech32Chars) → (∀ j, ¬OfferAt t j) →
      (∀ c rest, t = c :: rest → c ∉ bech32Chars) →
      parseOfferData (l ++ offerPrefix ++ w ++ t) = (some (offerPrefix ++ w), some l, some t) := by
  refine ⟨fun s => ⟨⟨fun h => ?_, fun h => ?_⟩, fun k hk hlast =>
    ⟨parseOfferData_of_last hk hlast, take_append_offerRun hk⟩⟩,
    fun l w t => parseOfferData_append⟩
  · by_contra hn
    simp [parseOfferData_of_not_offerAt (not_exists.1 hn)] at h
  · obtain ⟨k, hk, hlast⟩ := exists_last_offerAt h
    simp [parseOfferData_of_last hk hlast]

theorem parseOfferData_last_offer_after_label :
    parseOfferData "id: offer1qz\n".toList =
        (some (offerRun "id: offer1qz\n".toList 4), some ("id: offer1qz\n".toList.take 4),
          some ("id: offer1qz\n".toList.drop (4 + (offerRun "id: offer1qz\n".toList 4).length))) ∧
      parseOfferData ("id: ".toList ++ offerPrefix ++ "qz".toList ++ ['\n']) =
        (some (offerPrefix ++ "qz".toList), some "id: ".toList, some ['\n']) := by
  have hlast : ∀ j, OfferAt "id: offer1qz\n".toList j → j ≤ 4 := fun j hj => by
    have hbound : ∀ j < 13, OfferAt "id: offer1qz\n".toList j → j ≤ 4 := by decide
    exact hbound j (by simpa using hj.lt_length) hj
  have hnone : ∀ j, ¬OfferAt ['\n'] j := fun j ⟨c, rest, hs, _⟩ => by
    have := congrArg List.length hs
    simp [offerPrefix] at this
    omega
  exact ⟨((parseOfferData_last_offer.1 _).2 4 (by decide) hlast).1,
    parseOfferData_last_offer.2 _ _ _ (by decide) (by decide) hnone fun c rest h => by
      cases h; decide⟩

-- The offer `parseOfferData` extracts parses back to itself, with nothing before or after it
theorem parseOfferData_offer {s offer : List Char} (h : (parseOfferData s).1 = some offer) :
    parseOfferData offer = (some offer, some [], some []) := by
  obtain ⟨w, hw, hwb, rfl⟩ := eq_offerPrefix_append_of_parseOfferData h
  have hnone : ∀ j, ¬OfferAt [] j := fun j ⟨c, rest, hs, _⟩ => by simp [offerPrefix] at hs
  simpa using parseOfferData_append (l := []) hw hwb hnone fun c rest h => nomatch h

theorem parseOfferData_offer_labelled :
    (parseOfferData "id: offer1qz\n".toList).1 = some "offer1qz".toList ∧
      parseOfferData "offer1qz".toList = (some "offer1qz".toList, some [], some []) :=
  ⟨by decide, parseOfferData_offer (s := "id: offer1qz\n".toList) (by decide)⟩

-- The output is the one split of the text around an offer whose trailing text neither
-- continues the offer's bech32 run nor holds another offer
theorem parseOfferData_eq_some_iff (s offer leading trailing : List Char) :
    parseOfferData s = (some offer, some leading, some trailing) ↔
      s = leading ++ offer ++ trailing ∧
        (∃ w, w ≠ [] ∧ (∀ c ∈ w, c ∈ "qpzry9x8gf2tvdw0s3jn54khce6mua7l".toList) ∧
          offer = "offer1".toList ++ w) ∧
        (∀ c rest, trailing = c :: rest → c ∉ "qpzry9x8gf2tvdw0s3jn54khce6mua7l".toList) ∧
        ∀ j, ¬∃ c rest, trailing.drop j = "offer1".toList ++ c :: rest ∧
          c ∈ "qpzry9x8gf2tvdw0s3jn54khce6mua7l".toList := by
  constructor
  · intro h
    have hoffer := eq_offerPrefix_append_of_parseOfferData (congrArg Prod.fst h)
    obtain ⟨k, hk, hlast, -⟩ := eq_offerRun_of_parseOfferData (congrArg Prod.fst h)
    rw [parseOfferData_of_last hk hlast] at h
    obtain ⟨rfl, rfl, rfl⟩ : offerRun s k = offer ∧ s.take k = leading ∧
        s.drop (k + (offerRun s k).length) = trailing := by simpa using h
    refine ⟨(take_append_offerRun hk).symm, hoffer, fun c rest ht hc => ?_,
      fun j ⟨c, rest, ht, hc⟩ => ?_⟩
    · -- the offer takes every bech32 character after "offer1"
      have hnot := List.head?_dropWhile_not (· ∈ bech32Chars) (s.drop (k + 6))
      rw [← drop_offerRun_eq_dropWhile, ht] at hnot
      have hc' : c ∉ bech32Chars := by simpa using hnot
      exact hc' hc
    · -- an offer in the trailing text would start after the last one
      have hj := hlast _ ((offerAt_drop s _ j).1 ⟨c, rest, ht, hc⟩)
      simp only [offerRun, List.length_append, offerPrefix_length] at hj
      omega
  · rintro ⟨rfl, ⟨w, hw, hwb, rfl⟩, hts, ht⟩
    have h := parseOfferData_append (l := leading) hw hwb ht hts
    rwa [List.append_assoc leading offerPrefix w] at h

end Littlelambocoin.Offer
