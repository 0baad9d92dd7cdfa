import Mathlib.Data.List.Infix

namespace Littlelambocoin.Wallet

-- The code points `String.prototype.trim` removes: ECMAScript's WhiteSpace and LineTerminator
def isWhiteSpace (c : Char) : Bool :=
  c.toNat ∈ [0x09, 0x0B, 0x0C, 0x20, 0xA0, 0x1680, 0x202F, 0x205F, 0x3000, 0xFEFF,
    0x0A, 0x0D, 0x2028, 0x2029] || (0x2000 ≤ c.toNat && c.toNat ≤ 0x200A)

-- `String.prototype.trim`
def trim (s : List Char) : List Char :=
  ((s.dropWhile isWhiteSpace).reverse.dropWhile isWhiteSpace).reverse

-- `String.prototype.includes`
def includes (s search : List Char) : Bool := decide (search <:+: s)

structure SendTransactionData where
  address : List Char
  amount : List Char
  fee : List Char
  memo : List Char
  deriving DecidableEq

-- The `queryData` passed to `spendCAT`; `memos` is set only when there is a memo
structure SpendCATRequest (Mojo : Type) where
  walletId : Nat
  address : List Char
  amount : Mojo
  fee : Mojo
  waitForConfirmation : Bool
  memos : Option (List (List Char))
  deriving DecidableEq

variable {Mojo : Type} (walletId : Nat) (synced canSubmit : Bool) (assetId : Option (List Char))
  (retireAddress : Option (List Char)) (isNumeric : List Char → Bool)
  (catToMojo littlelambocoinToMojo : List Char → Mojo)

-- `if (address === 'retire' && retireAddress) address = retireAddress`: the burn address when
-- the currency code gives one
def recipient (address : List Char) : List Char :=
  match address == "retire".toList, retireAddress with
  | true, some retire@(_ :: _) => retire
  | _, _ => address

-- `data.fee.trim() || '0'`: a blank fee is a fee of 0
def feeText (fee : List Char) : List Char :=
  match trim fee with
  | [] => "0".toList
  | fee => fee

-- `handleSubmit` of `WalletCATSend` up to the `spendCAT` call: the error it throws, `none` for
-- an early return, or the request. `retireAddress` is the burn address of the currency code.
def handleSubmit (data : SendTransactionData) : Except String (Option (SpendCATRequest Mojo)) := do
  if !synced then throw "Please finish syncing before making a transaction"
  if !canSubmit then return none
  let amount := trim data.amount
  if !isNumeric amount then throw "Please enter a valid numeric amount"
  let fee := feeText data.fee
  if !isNumeric fee then throw "Please enter a valid numeric fee"
  let address := recipient retireAddress data.address
  if includes address "colour".toList then
    throw "Cannot send littlelambocoin to coloured address. Please enter a littlelambocoin address."
  if includes address "littlelambocoin_addr".toList || includes address "colour_desc".toList then
    throw "Recipient address is not a coloured wallet address. Please enter a coloured wallet address"
  let address ← if address.take 14 == "colour_addr://".toList then do
      if some ((address.drop 14).take 64) != assetId then
        throw "Error the entered address appears to be for a different colour."
      pure (address.drop 79)
    else pure address
  let address := if address.take 12 == "littlelambocoin_addr://".toList then address.drop 12
    else address
  let address := if "0x".toList.isPrefixOf address || "0X".toList.isPrefixOf address then
      address.drop 2
    else address
  let memo := trim data.memo
  return some ⟨walletId, address, catToMojo amount, littlelambocoinToMojo fee, true,
    if memo = [] then none else some [memo]⟩

theorem take_fourteen_beq {address : List Char} (h : includes address "colour".toList = false) :
    (address.take 14 == "colour_addr://".toList) = false := by
  rw [beq_eq_false_iff_ne]
  intro h14
  have hin : "colour".toList <:+: address.take 14 := by rw [h14]; decide
  have hout : ¬"colour".toList <:+: address := by simpa [includes] using h
  exact hout (hin.trans (List.take_prefix 14 address).isInfix)

-- Twelve characters never spell the 23 of "littlelambocoin_addr://"
theorem take_twelve_beq (address : List Char) :
    (address.take 12 == "littlelambocoin_addr://".toList) = false := by
  rw [beq_eq_false_iff_ne]
  intro h
  have := congrArg List.length h
  simp at this
  omega

-- The handler check by check. Neither the `colour_addr://` branch nor the
-- `littlelambocoin_addr://` strip ever runs: the first needs "colour", which was rejected.
theorem handleSubmit_eq (data : SendTransactionData) :
    handleSubmit walletId synced canSubmit assetId retireAddress isNumeric catToMojo
        littlelambocoinToMojo data =
      if !synced then .error "Please finish syncing before making a transaction"
      else if !canSubmit then .ok none
      else if !isNumeric (trim data.amount) then .error "Please enter a valid numeric amount"
      else if !isNumeric (feeText data.fee) then .error "Please enter a valid numeric fee"
      else if includes (recipient retireAddress data.address) "colour".toList then
        .error "Cannot send littlelambocoin to coloured address. Please enter a littlelambocoin address."
      else if includes (recipient retireAddress data.address) "littlelambocoin_addr".toList ||
          includes (recipient retireAddress data.address) "colour_desc".toList then
        .error "Recipient address is not a coloured wallet address. Please enter a coloured wallet address"
      else .ok (some ⟨walletId,
        if "0x".toList.isPrefixOf (recipient retireAddress data.address) ||
            "0X".toList.isPrefixOf (recipient retireAddress data.address) then
          (recipient retireAddress data.address).drop 2
        else recipient retireAddress data.address,
        catToMojo (trim data.amount), littlelambocoinToMojo (feeText data.fee), true,
        if trim data.memo = [] then none else some [trim data.memo]⟩) := by
  unfold handleSubmit
  generalize recipient retireAddress data.address = address
  simp only [take_twelve_beq, Bool.false_eq_true, if_false]
  cases synced; · rfl
  cases canSubmit; · rfl
  cases isNumeric (trim data.amount); · rfl
  cases isNumeric (feeText data.fee); · rfl
  cases hc : includes address "colour".toList; swap; · rfl
  simp only [take_fourteen_beq hc, Bool.false_eq_true, if_false]
  cases includes address "littlelambocoin_addr".toList || includes address "colour_desc".toList <;> rfl

theorem hex_append_drop {address : List Char}
    (h : ("0x".toList.isPrefixOf address || "0X".toList.isPrefixOf address) = true) :
    ∃ hex ∈ ["0x".toList, "0X".toList], hex ++ address.drop 2 = address := by
  simp only [Bool.or_eq_true, List.isPrefixOf_iff_prefix] at h
  rcases h with ⟨rest, rfl⟩ | ⟨rest, rfl⟩
  · exact ⟨"0x".toList, by simp, rfl⟩
  · exact ⟨"0X".toList, by simp, rfl⟩

-- The wallet's asset id never changes what the handler does: the only code that reads it is
-- the check of a `colour_addr://` address, which no address reaches
theorem handleSubmit_assetId (assetId' : Option (List Char)) (data : SendTransactionData) :
    handleSubmit walletId synced canSubmit assetId retireAddress isNumeric catToMojo
        littlelambocoinToMojo data =
      handleSubmit walletId synced canSubmit assetId' retireAddress isNumeric catToMojo
        littlelambocoinToMojo data := by
  rw [handleSubmit_eq, handleSubmit_eq]

-- A request is sent only for a synced wallet with a numeric amount and fee, to the address as
-- entered less at most a leading "0x" or "0X", and never to one holding a marker
theorem handleSubmit_sends {data : SendTransactionData} {request : SpendCATRequest Mojo}
    (h : handleSubmit walletId synced canSubmit assetId retireAddress isNumeric catToMojo
      littlelambocoinToMojo data = .ok (some request)) :
    synced = true ∧ canSubmit = true ∧ isNumeric (trim data.amount) = true ∧
      isNumeric (feeText data.fee) = true ∧ request.amount = catToMojo (trim data.amount) ∧
      request.fee = littlelambocoinToMojo (feeText data.fee) ∧
      (request.address = recipient retireAddress data.address ∨
        ∃ hex ∈ ["0x".toList, "0X".toList],
          hex ++ request.address = recipient retireAddress data.address) ∧
      ∀ marker ∈ ["colour".toList, "littlelambocoin_addr".toList, "colour_desc".toList],
        ¬marker <:+: request.address := by
  rw [handleSubmit_eq] at h
  generalize recipient retireAddress data.address = address at h ⊢
  -- each check that does not stop the handler passes
  obtain ⟨hs, h⟩ := (ite_eq_iff.1 h).resolve_left fun ⟨_, h⟩ => by cases h
  obtain ⟨hc, h⟩ := (ite_eq_iff.1 h).resolve_left fun ⟨_, h⟩ => by cases h
  obtain ⟨ha, h⟩ := (ite_eq_iff.1 h).resolve_left fun ⟨_, h⟩ => by cases h
  obtain ⟨hf, h⟩ := (ite_eq_iff.1 h).resolve_left fun ⟨_, h⟩ => by cases h
  obtain ⟨hcol, h⟩ := (ite_eq_iff.1 h).resolve_left fun ⟨_, h⟩ => by cases h
  obtain ⟨hmark, h⟩ := (ite_eq_iff.1 h).resolve_left fun ⟨_, h⟩ => by cases h
  cases h
  have hno : ∀ marker ∈ ["colour".toList, "littlelambocoin_addr".toList, "colour_desc".toList],
      ¬marker <:+: address := by
    simp only [includes, decide_eq_true_eq, Bool.or_eq_true, not_or] at hcol hmark
    simp only [List.mem_cons, List.not_mem_nil, or_false, forall_eq_or_imp, forall_eq]
    exact ⟨hcol, hmark.1, hmark.2⟩
  refine ⟨by simpa using hs, by simpa using hc, by simpa using ha, by simpa using hf, rfl, rfl, ?_⟩
  by_cases hhex : ("0x".toList.isPrefixOf address || "0X".toList.isPrefixOf address) = true
  · -- the rest after a dropped "0x" is a suffix of the address, so it holds no marker either
    rw [if_pos hhex]
    exact ⟨.inr (hex_append_drop hhex), fun marker hm hin =>
      hno marker hm (hin.trans (List.drop_suffix 2 address).isInfix)⟩
  · rw [if_neg hhex]
    exact ⟨.inl rfl, hno⟩

theorem handleSubmit_sends_hex :
    let data : SendTransactionData := ⟨"0xab12".toList, " 1.5 ".toList, "".toList, "".toList⟩
    let request : SpendCATRequest (List Char) :=
      ⟨7, "ab12".toList, "1.5".toList, "0".toList, true, none⟩
    handleSubmit 7 true true none none (fun _ => true) id id data = .ok (some request) ∧
      (request.address = recipient none data.address ∨
        ∃ hex ∈ ["0x".toList, "0X".toList], hex ++ request.address = recipient none data.address) ∧
      ∀ marker ∈ ["colour".toList, "littlelambocoin_addr".toList, "colour_desc".toList],
        ¬marker <:+: request.address := by
  intro data request
  have h : handleSubmit 7 true true none none (fun _ => true) id id data = .ok (some request) := rfl
  obtain ⟨-, -, -, -, -, -, haddress, hmarkers⟩ :=
    handleSubmit_sends 7 true true none none (fun _ => true) id id h
  exact ⟨h, haddress, hmarkers⟩

end Littlelambocoin.Wallet
