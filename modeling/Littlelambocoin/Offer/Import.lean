import Littlelambocoin.Offer.Parse

namespace Littlelambocoin.Offer

-- `response` of `getOfferSummary(offerData)`; its `summary` may be absent
structure OfferSummaryResponse (Summary : Type) where
  summary : Option Summary
  success : Bool
  deriving DecidableEq

-- The argument of `errorDialog`: a message, or an error the file system or the summary call raised
inductive DialogError (Fault : Type)
  | message (text : String)
  | fault (fault : Fault)
  deriving DecidableEq

structure ViewState (Summary : Type) where
  offerData : List Char
  offerSummary : Summary
  offerFilePath : Option String
  imported : Bool
  deriving DecidableEq

-- What `SelectOfferFile` does that can be observed, in order
inductive Effect (Fault Summary : Type)
  | setIsParsing (parsing : Bool)
  | warn (text : String)
  | errorDialog (error : DialogError Fault)
  | navigate (path : String) (state : ViewState Summary)
  deriving DecidableEq

variable {Fault Summary : Type}
  (getOfferSummary : List Char → Except Fault (OfferSummaryResponse Summary))

-- A rejected summary call, or a response without `data` to destructure, raises `Fault`
def parseOfferSummary (rawOfferData : List Char) (offerFilePath : Option String) :
    Except Fault (List (Effect Fault Summary)) :=
  match (parseOfferData rawOfferData).1 with
  | none =>
      pure [.warn "Unable to parse offer data", .errorDialog (.message "Could not parse offer data")]
  | some offerData => do
      let response ← getOfferSummary offerData
      match if response.success then response.summary else none with
      | some offerSummary =>
          pure [.navigate "/dashboard/wallets/offers/view"
            ⟨offerData, offerSummary, offerFilePath, true⟩]
      | none => pure [.errorDialog (.message "Could not parse offer data")]

-- `try { ... } catch (e) { errorDialog(e); }`
def catchToDialog : Except Fault (List (Effect Fault Summary)) → List (Effect Fault Summary)
  | .ok effects => effects
  | .error fault => [.errorDialog (.fault fault)]

variable (stat : String → Except Fault Nat) (readFileSync : String → Except Fault (List Char))

-- The callback of `fs.stat` once it has the file's size
def continueOpen (offerFilePath : String) (size : Nat) : List (Effect Fault Summary) :=
  catchToDialog
    (if size > 1024 * 1024 then pure [.errorDialog (.message "Offer file is too large (> 1MB)")]
    else do
      let offerData ← readFileSync offerFilePath
      parseOfferSummary getOfferSummary offerData (some offerFilePath)) ++
  [.setIsParsing false]

def handleOpen (offerFilePath : String) : List (Effect Fault Summary) :=
  .setIsParsing true ::
    match stat offerFilePath with
    | .error err => [.errorDialog (.fault err)]
    | .ok size => continueOpen getOfferSummary readFileSync offerFilePath size

def handleDrop (acceptedFiles : List String) : List (Effect Fault Summary) :=
  match acceptedFiles with
  | [offerFilePath] => handleOpen getOfferSummary stat readFileSync offerFilePath
  | _ => [.errorDialog (.message "Please drop one offer file at a time")]

-- `offerData` is what the entry dialog returned; the empty text is falsy
def handlePasteOfferData (offerData : Option (List Char)) : List (Effect Fault Summary) :=
  match offerData with
  | some data@(_ :: _) =>
      .setIsParsing true :: catchToDialog (parseOfferSummary getOfferSummary data none) ++
        [.setIsParsing false]
  | _ => []

def handleSelectOfferFile (canceled : Bool) (filePaths : List String) : List (Effect Fault Summary) :=
  match canceled, filePaths with
  | false, offerFilePath :: _ => handleOpen getOfferSummary stat readFileSync offerFilePath
  | _, _ => []

theorem parseOfferSummary_navigate {rawOfferData : List Char} {offerFilePath : Option String}
    {effects : List (Effect Fault Summary)}
    (h : parseOfferSummary getOfferSummary rawOfferData offerFilePath = .ok effects)
    {path : String} {state : ViewState Summary} (hmem : .navigate path state ∈ effects) :
    path = "/dashboard/wallets/offers/view" ∧
      (∃ k, OfferAt rawOfferData k ∧ (∀ j, OfferAt rawOfferData j → j ≤ k) ∧
        state.offerData = offerRun rawOfferData k) ∧
      (∃ response, getOfferSummary state.offerData = .ok response ∧ response.success = true ∧
        response.summary = some state.offerSummary) ∧
      state.offerFilePath = offerFilePath ∧ state.imported = true := by
  unfold parseOfferSummary at h
  split at h
  · cases h; simp at hmem
  · rename_i offerData hparse
    cases hr : getOfferSummary offerData with
    | error fault => simp [hr] at h; cases h
    | ok response =>
        simp only [hr, Except.bind, bind, Except.pure, pure] at h
        split at h <;> rename_i hs <;> cases h <;> simp at hmem
        obtain ⟨rfl, rfl⟩ := hmem
        split at hs
        · exact ⟨rfl, eq_offerRun_of_parseOfferData hparse, ⟨response, hr, by assumption, hs⟩,
            rfl, rfl⟩
        · cases hs

theorem catchToDialog_navigate {attempt : Except Fault (List (Effect Fault Summary))}
    {path : String} {state : ViewState Summary} (hmem : .navigate path state ∈ catchToDialog attempt) :
    ∃ effects, attempt = .ok effects ∧ .navigate path state ∈ effects := by
  cases attempt with
  | error fault => simp [catchToDialog] at hmem
  | ok effects => exact ⟨effects, rfl, hmem⟩

theorem handleOpen_navigate_parse {offerFilePath path : String} {state : ViewState Summary}
    (hmem : .navigate path state ∈ handleOpen getOfferSummary stat readFileSync offerFilePath) :
    ∃ size text effects, stat offerFilePath = .ok size ∧ size ≤ 1024 * 1024 ∧
      readFileSync offerFilePath = .ok text ∧
      parseOfferSummary getOfferSummary text (some offerFilePath) = .ok effects ∧
      .navigate path state ∈ effects := by
  simp only [handleOpen, List.mem_cons, reduceCtorEq, false_or] at hmem
  cases hstat : stat offerFilePath with
  | error err => simp [hstat] at hmem
  | ok size =>
      simp only [hstat, continueOpen, List.mem_append, List.mem_singleton, reduceCtorEq,
        or_false] at hmem
      obtain ⟨effects, hattempt, hmem⟩ := catchToDialog_navigate hmem
      split at hattempt
      · cases hattempt; simp at hmem
      · rename_i hsize
        cases hread : readFileSync offerFilePath with
        | error fault => simp [hread] at hattempt; cases hattempt
        | ok text =>
            simp only [hread, Except.bind, bind] at hattempt
            exact ⟨size, text, effects, rfl, by omega, rfl, hattempt, hmem⟩

-- Opening a file navigates only when `fs.stat` gives at most 1 MiB and the file reads, with
-- the last offer of the file and the summary the call returned for it with `success`
theorem handleOpen_navigate {offerFilePath path : String} {state : ViewState Summary}
    (hmem : .navigate path state ∈ handleOpen getOfferSummary stat readFileSync offerFilePath) :
    ∃ size text, stat offerFilePath = .ok size ∧ size ≤ 1024 * 1024 ∧
      readFileSync offerFilePath = .ok text ∧ path = "/dashboard/wallets/offers/view" ∧
      (∃ k, OfferAt text k ∧ (∀ j, OfferAt text j → j ≤ k) ∧ state.offerData = offerRun text k) ∧
      (∃ response, getOfferSummary state.offerData = .ok response ∧ response.success = true ∧
        response.summary = some state.offerSummary) ∧
      state.offerFilePath = some offerFilePath ∧ state.imported = true := by
  obtain ⟨size, text, effects, hstat, hsize, hread, hparse, hmem⟩ :=
    handleOpen_navigate_parse getOfferSummary stat readFileSync hmem
  exact ⟨size, text, hstat, hsize, hread, parseOfferSummary_navigate getOfferSummary hparse hmem⟩

theorem handleOpen_navigate_single_offer :
    let effects := handleOpen (fun _ => (.ok ⟨some 7, true⟩ : Except Unit (OfferSummaryResponse Nat)))
      (fun _ => .ok 9) (fun _ => .ok " offer1qq\n".toList) "a.offer"
    .navigate "/dashboard/wallets/offers/view" ⟨"offer1qq".toList, 7, some "a.offer", true⟩ ∈ effects ∧
      ∃ k, OfferAt " offer1qq\n".toList k ∧ "offer1qq".toList = offerRun " offer1qq\n".toList k := by
  intro effects
  have hmem : .navigate "/dashboard/wallets/offers/view" ⟨"offer1qq".toList, 7, some "a.offer", true⟩
      ∈ effects := by decide
  obtain ⟨size, text, -, -, htext, -, ⟨k, hk, -, hrun⟩, -⟩ := handleOpen_navigate _ _ _ hmem
  cases htext
  exact ⟨hmem, k, hk, hrun⟩

-- What the user does in `SelectOfferFile`: a drop, or one of the two buttons and its dialog
inductive Action
  | drop (acceptedFiles : List String)
  | pasteOfferData (offerData : Option (List Char))
  | selectOfferFile (canceled : Bool) (filePaths : List String)

def Action.effects : Action → List (Effect Fault Summary)
  | .drop acceptedFiles => handleDrop getOfferSummary stat readFileSync acceptedFiles
  | .pasteOfferData offerData => handlePasteOfferData getOfferSummary offerData
  | .selectOfferFile canceled filePaths =>
      handleSelectOfferFile getOfferSummary stat readFileSync canceled filePaths

theorem Action.navigate_parse {action : Action} {path : String} {state : ViewState Summary}
    (hmem : .navigate path state ∈ action.effects getOfferSummary stat readFileSync) :
    ∃ text offerFilePath effects,
      parseOfferSummary getOfferSummary text offerFilePath = .ok effects ∧
      .navigate path state ∈ effects ∧
      ((offerFilePath = none ∧ action = .pasteOfferData (some text)) ∨
        ∃ file, offerFilePath = some file ∧
          (∃ size, stat file = .ok size ∧ size ≤ 1024 * 1024) ∧ readFileSync file = .ok text ∧
          (action = .drop [file] ∨ ∃ rest, action = .selectOfferFile false (file :: rest))) := by
  have hopen : ∀ {file : String}, .navigate path state ∈ handleOpen getOfferSummary stat readFileSync file →
      ∃ text effects, parseOfferSummary getOfferSummary text (some file) = .ok effects ∧
        .navigate path state ∈ effects ∧
        (∃ size, stat file = .ok size ∧ size ≤ 1024 * 1024) ∧ readFileSync file = .ok text :=
    fun hmem => by
      obtain ⟨size, text, effects, hstat, hsize, hread, hparse, hmem⟩ :=
        handleOpen_navigate_parse getOfferSummary stat readFileSync hmem
      exact ⟨text, effects, hparse, hmem, ⟨size, hstat, hsize⟩, hread⟩
  match action, hmem with
  | .drop [file], hmem =>
      obtain ⟨text, effects, hparse, hmem, hstat, hread⟩ := hopen hmem
      exact ⟨text, some file, effects, hparse, hmem, .inr ⟨file, rfl, hstat, hread, .inl rfl⟩⟩
  | .selectOfferFile false (file :: rest), hmem =>
      obtain ⟨text, effects, hparse, hmem, hstat, hread⟩ := hopen hmem
      exact ⟨text, some file, effects, hparse, hmem,
        .inr ⟨file, rfl, hstat, hread, .inr ⟨rest, rfl⟩⟩⟩
  | .pasteOfferData (some (c :: rest)), hmem =>
      simp only [Action.effects, handlePasteOfferData, List.mem_cons, reduceCtorEq, false_or,
        List.mem_append, List.not_mem_nil, or_false] at hmem
      obtain ⟨effects, hattempt, hmem⟩ := catchToDialog_navigate hmem
      exact ⟨c :: rest, none, effects, hattempt, hmem, .inl ⟨rfl, rfl⟩⟩
  | .drop [], hmem | .drop (_ :: _ :: _), hmem => simp [Action.effects, handleDrop] at hmem
  | .pasteOfferData none, hmem | .pasteOfferData (some []), hmem =>
      simp [Action.effects, handlePasteOfferData] at hmem
  | .selectOfferFile true _, hmem | .selectOfferFile false [], hmem =>
      simp [Action.effects, handleSelectOfferFile] at hmem

-- Whatever the user does, a navigation carries the last offer of the text they supplied, its
-- summary, and the file of at most 1 MiB that a drop or the dialog named (none for a paste)
theorem Action.effects_navigate {action : Action} {path : String} {state : ViewState Summary}
    (hmem : .navigate path state ∈ action.effects getOfferSummary stat readFileSync) :
    path = "/dashboard/wallets/offers/view" ∧ state.imported = true ∧
      (∃ response, getOfferSummary state.offerData = .ok response ∧ response.success = true ∧
        response.summary = some state.offerSummary) ∧
      ∃ text, (∃ k, OfferAt text k ∧ (∀ j, OfferAt text j → j ≤ k) ∧
          state.offerData = offerRun text k) ∧
        ((state.offerFilePath = none ∧ action = .pasteOfferData (some text)) ∨
          ∃ file, state.offerFilePath = some file ∧
            (∃ size, stat file = .ok size ∧ size ≤ 1024 * 1024) ∧ readFileSync file = .ok text ∧
            (action = .drop [file] ∨ ∃ rest, action = .selectOfferFile false (file :: rest))) := by
  obtain ⟨text, offerFilePath, effects, hparse, hmem, hsource⟩ :=
    Action.navigate_parse getOfferSummary stat readFileSync hmem
  obtain ⟨hpath, hlast, hsummary, hfile, himported⟩ :=
    parseOfferSummary_navigate getOfferSummary hparse hmem
  exact ⟨hpath, himported, hsummary, text, hlast, hfile ▸ hsource⟩

theorem effects_navigate_pasted_offer :
    let effects := (Action.pasteOfferData (some "id: offer1qz".toList)).effects
      (fun _ => (.ok ⟨some 7, true⟩ : Except Unit (OfferSummaryResponse Nat)))
      (fun _ => .ok 9) (fun _ => .ok [])
    .navigate "/dashboard/wallets/offers/view" ⟨"offer1qz".toList, 7, none, true⟩ ∈ effects ∧
      ∃ text, (∃ k, OfferAt text k ∧ (∀ j, OfferAt text j → j ≤ k) ∧
          "offer1qz".toList = offerRun text k) ∧ text = "id: offer1qz".toList := by
  intro effects
  have hmem : .navigate "/dashboard/wallets/offers/view" ⟨"offer1qz".toList, 7, none, true⟩
      ∈ effects := by decide
  obtain ⟨-, -, -, text, hlast, hsource⟩ := Action.effects_navigate _ _ _ hmem
  refine ⟨hmem, text, hlast, ?_⟩
  rcases hsource with ⟨-, h⟩ | ⟨file, h, -⟩
  · cases h; rfl
  · cases h

section Summary

variable {getOfferSummary' : List Char → Except Fault (OfferSummaryResponse Summary)}

theorem parseOfferSummary_congr
    (hg : ∀ offer, isOffer offer = true → getOfferSummary offer = getOfferSummary' offer)
    (rawOfferData : List Char) (offerFilePath : Option String) :
    parseOfferSummary getOfferSummary rawOfferData offerFilePath =
      parseOfferSummary getOfferSummary' rawOfferData offerFilePath := by
  unfold parseOfferSummary
  split
  · rfl
  · rename_i offerData hparse
    rw [hg offerData (isOffer_of_parseOfferData hparse)]

-- The summary call only ever sees a well-formed offer: two calls that agree on such texts give
-- the same effects for every action
theorem Action.effects_summary_congr
    (hg : ∀ offer, isOffer offer = true → getOfferSummary offer = getOfferSummary' offer)
    (action : Action) :
    action.effects getOfferSummary stat readFileSync = action.effects getOfferSummary' stat readFileSync := by
  cases action <;> simp only [Action.effects, handleDrop, handlePasteOfferData,
    handleSelectOfferFile, handleOpen, continueOpen, parseOfferSummary_congr getOfferSummary hg]

end Summary

theorem effects_summary_congr_strict :
    let lenient : List Char → Except Unit (OfferSummaryResponse Nat) := fun _ => .ok ⟨some 7, true⟩
    let strict : List Char → Except Unit (OfferSummaryResponse Nat) :=
      fun text => if isOffer text then .ok ⟨some 7, true⟩ else .error ()
    (∀ offer, isOffer offer = true → lenient offer = strict offer) ∧
      (Action.pasteOfferData (some "id: offer1qz".toList)).effects lenient (fun _ => .ok 9)
          (fun _ => .ok []) =
        (Action.pasteOfferData (some "id: offer1qz".toList)).effects strict (fun _ => .ok 9)
          (fun _ => .ok []) := by
  intro lenient strict
  have hg : ∀ offer, isOffer offer = true → lenient offer = strict offer := fun offer h => by
    simp [lenient, strict, h]
  exact ⟨hg, Action.effects_summary_congr lenient _ _ hg _⟩

end Littlelambocoin.Offer
