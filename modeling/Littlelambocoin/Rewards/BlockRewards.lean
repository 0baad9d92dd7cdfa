import Mathlib.Tactic.NormNum
import Mathlib.Algebra.Order.Field.Basic
import Mathlib.Tactic.Ring

namespace Littlelambocoin.Rewards

-- `Big` values are exact decimals, and `times` multiplies them exactly, so rationals carry them
def mojoPerLittlelambocoin : ℚ := 1000000000000

def blocksPerYear : Nat := 1681920

def poolReward : ℚ := 0.875

def farmerReward : ℚ := 0.125

-- The schedule both functions of `blockRewards.ts` follow, with the share of a block they pay
def blockReward (share : ℚ) (height : Nat) : ℚ :=
  if height = 0 then mojoPerLittlelambocoin * 21000000 * share
  else if height < 3 * blocksPerYear then mojoPerLittlelambocoin * 2 * share
  else if height < 6 * blocksPerYear then mojoPerLittlelambocoin * 1 * share
  else if height < 9 * blocksPerYear then mojoPerLittlelambocoin * 0.5 * share
  else if height < 12 * blocksPerYear then mojoPerLittlelambocoin * 0.25 * share
  else mojoPerLittlelambocoin * 0.125 * share

def calculatePoolReward (height : Nat) : ℚ := blockReward poolReward height

def calculateBaseFarmerReward (height : Nat) : ℚ := blockReward farmerReward height

def blockCoins (height : Nat) : ℚ :=
  if height = 0 then 21000000
  else if height < 3 * blocksPerYear then 2
  else if height < 6 * blocksPerYear then 1
  else if height < 9 * blocksPerYear then 0.5
  else if height < 12 * blocksPerYear then 0.25
  else 0.125

theorem blockReward_eq (share : ℚ) (height : Nat) :
    blockReward share height = mojoPerLittlelambocoin * blockCoins height * share := by
  simp only [blockReward, blockCoins, apply_ite (fun coins : ℚ => mojoPerLittlelambocoin * coins * share)]

-- The era of a block after the first: the number of three-year spans before it, up to four
def era (height : Nat) : Nat := min 4 (height / (3 * blocksPerYear))

theorem blockCoins_of_pos {height : Nat} (h : 0 < height) :
    blockCoins height = 2 / 2 ^ era height := by
  simp only [blockCoins, era, blocksPerYear, if_neg (Nat.pos_iff_ne_zero.1 h)]
  by_cases h1 : height < 3 * 1681920
  · rw [if_pos h1, show min 4 (height / (3 * 1681920)) = 0 by omega]; norm_num
  rw [if_neg h1]
  by_cases h2 : height < 6 * 1681920
  · rw [if_pos h2, show min 4 (height / (3 * 1681920)) = 1 by omega]; norm_num
  rw [if_neg h2]
  by_cases h3 : height < 9 * 1681920
  · rw [if_pos h3, show min 4 (height / (3 * 1681920)) = 2 by omega]; norm_num
  rw [if_neg h3]
  by_cases h4 : height < 12 * 1681920
  · rw [if_pos h4, show min 4 (height / (3 * 1681920)) = 3 by omega]; norm_num
  rw [if_neg h4, show min 4 (height / (3 * 1681920)) = 4 by omega]
  norm_num

-- After the first block each function pays its share of 2 coins halved once per completed span
-- of three years of blocks, at most four times: the if-chains compute this one formula
theorem calculateRewards_halving {height : Nat} (h : 0 < height) :
    calculatePoolReward height =
        mojoPerLittlelambocoin * (2 / 2 ^ min 4 (height / (3 * blocksPerYear))) * poolReward ∧
      calculateBaseFarmerReward height =
        mojoPerLittlelambocoin * (2 / 2 ^ min 4 (height / (3 * blocksPerYear))) * farmerReward :=
  ⟨by rw [calculatePoolReward, blockReward_eq, blockCoins_of_pos h]; rfl,
    by rw [calculateBaseFarmerReward, blockReward_eq, blockCoins_of_pos h]; rfl⟩

theorem calculateRewards_halving_second_era :
    0 < 3 * blocksPerYear ∧
      calculatePoolReward (3 * blocksPerYear) =
        mojoPerLittlelambocoin * (2 / 2 ^ min 4 (3 * blocksPerYear / (3 * blocksPerYear))) *
          poolReward ∧
      calculateBaseFarmerReward (3 * blocksPerYear) =
        mojoPerLittlelambocoin * (2 / 2 ^ min 4 (3 * blocksPerYear / (3 * blocksPerYear))) *
          farmerReward :=
  ⟨by decide, calculateRewards_halving (by decide)⟩

theorem era_mono {a b : Nat} (hab : a ≤ b) : era a ≤ era b := by
  simp only [era]
  have := Nat.div_le_div_right (c := 3 * blocksPerYear) hab
  omega

theorem blockCoins_antitone {a b : Nat} (ha : 0 < a) (hab : a ≤ b) :
    blockCoins b ≤ blockCoins a := by
  rw [blockCoins_of_pos ha, blockCoins_of_pos (by omega)]
  exact div_le_div_of_nonneg_left (by norm_num) (by positivity)
    (pow_le_pow_right₀ (by norm_num) (era_mono hab))

-- After the first block neither reward ever grows
theorem blockReward_antitone {share : ℚ} (hshare : 0 ≤ share) {a b : Nat} (ha : 0 < a)
    (hab : a ≤ b) : blockReward share b ≤ blockReward share a := by
  rw [blockReward_eq, blockReward_eq]
  exact mul_le_mul_of_nonneg_right
    (mul_le_mul_of_nonneg_left (blockCoins_antitone ha hab) (by norm_num [mojoPerLittlelambocoin]))
    hshare

theorem blockReward_antitone_farmer :
    0 ≤ farmerReward ∧ 0 < 1 ∧ 1 ≤ 12 * blocksPerYear ∧
      calculateBaseFarmerReward (12 * blocksPerYear) ≤ calculateBaseFarmerReward 1 :=
  ⟨by norm_num [farmerReward], by decide, by decide,
    blockReward_antitone (by norm_num [farmerReward]) (by decide) (by decide)⟩

theorem blockReward_eighths_whole (k height : Nat) :
    ∃ mojos : Nat, blockReward (k / 8) height = mojos := by
  have h : ∃ eighth : Nat, mojoPerLittlelambocoin * blockCoins height / 8 = eighth := by
    rcases Nat.eq_zero_or_pos height with rfl | hpos
    · exact ⟨2625000000000000000, by norm_num [blockCoins, mojoPerLittlelambocoin]⟩
    -- an eighth of the coins of era `e` is `250000000000 / 2 ^ e` mojos, for `e ≤ 4`
    refine ⟨250000000000 / 2 ^ era height, ?_⟩
    have he : era height ≤ 4 := min_le_left _ _
    rw [blockCoins_of_pos hpos]
    obtain h | h | h | h | h : era height = 0 ∨ era height = 1 ∨ era height = 2 ∨ era height = 3 ∨
        era height = 4 := by omega
    all_goals rw [h]; norm_num [mojoPerLittlelambocoin]
  obtain ⟨eighth, he⟩ := h
  refine ⟨eighth * k, ?_⟩
  rw [blockReward_eq, Nat.cast_mul, ← he]
  ring

-- The pool's seven eighths and the farmer's eighth of every block are whole mojos
theorem calculateRewards_whole (height : Nat) :
    (∃ mojos : Nat, calculatePoolReward height = mojos) ∧
      ∃ mojos : Nat, calculateBaseFarmerReward height = mojos := by
  constructor
  · simpa [calculatePoolReward, poolReward, show (0.875 : ℚ) = (7 : Nat) / 8 by norm_num]
      using blockReward_eighths_whole 7 height
  · simpa [calculateBaseFarmerReward, farmerReward, show (0.125 : ℚ) = (1 : Nat) / 8 by norm_num]
      using blockReward_eighths_whole 1 height

end Littlelambocoin.Rewards
