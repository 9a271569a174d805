import Mathlib
import Htnd.Protocol.BlockVersion

/-!
The block subsidy (coinbasemanager.go). Before the deflationary phase a block earns a base
subsidy; after it, the subsidy per second of target time is read from a table with one entry per
year, and scaled by the target time of the block's version. The year is counted on one block per
second for the first year; a score past the nocturne hard fork, 43334184, then counts five times,
as if the chain had run at five blocks per second since. Both adjustments run on uint64 before
the start of the deflationary phase is subtracted.

The target times are held in nanoseconds, as a Go `time.Duration` holds them. The two float64
expressions, `31557600 / t.Seconds()` and `float64(s) * t.Seconds()`, are read as integer
quotients: for the configured target times, 1 s, 200 ms and 100 ms, the float result truncates to
the same integer, since each exact quotient is a multiple of a tenth and the rounding error is far
below that.
-/
namespace Coinbase
open GoSemantics Utxo

structure CoinbaseManager where
  subsidyGenesisReward : UInt64
  preDeflationaryPhaseBaseSubsidy : UInt64
  genesisHash : DomainHash
  deflationaryPhaseDaaScore : UInt64
  targetTimePerBlock : List Nat

def subsidyByDeflationaryYearTable : List UInt64 := [
  10000000000, 8164965809, 6666666666, 5443310539, 4444444444, 3628873693, 2962962962,
  2419249128, 1975308641, 1612832752, 1316872427, 1075221834, 877914951, 716814556, 585276634,
  477876371, 390184423, 318584247, 260122948, 212389498, 173415299, 141592998, 115610199,
  94395332, 77073466, 62930221, 51382310, 41953481, 34254873, 27968987, 22836582, 18645991,
  15224388, 12430661, 10149592, 8287107, 6766394, 5524738, 4510929, 3683158, 3007286, 2455439,
  2004857, 1636959, 1336571, 1091306, 891047, 727537, 594031, 485025, 396021, 323350, 264014,
  215566, 176009, 143711, 117339, 95807, 78226, 63871, 52150, 42581, 34767, 28387, 23178, 18924,
  15452, 12616, 10301, 8411, 6867, 5607, 4578, 3738, 3052, 2492, 2034, 1661, 1356, 1107, 904,
  738, 602, 492, 401, 328, 267, 218, 178, 145, 119, 97, 79, 64, 52, 43, 35, 28, 23, 19, 15, 12,
  10, 8, 6, 5, 4, 3, 3, 2, 2, 1, 1, 1, 0
]

def nocturneHfScore : UInt64 := 43334184 - 31557600

/-- `uint64(31557600 / t.Seconds())`, for a target time in nanoseconds. -/
def blocksPerYearOf (targetTime : Nat) : UInt64 :=
  UInt64.ofNat (31557600 * 1000000000 / targetTime)

/-- `uint64(float64(subsidy) * t.Seconds())`, for a target time in nanoseconds. -/
def scaleByTargetTime (subsidy : UInt64) (targetTime : Nat) : UInt64 :=
  UInt64.ofNat (subsidy.toNat * targetTime / 1000000000)

variable (c : CoinbaseManager)

def getDeflationaryPeriodBlockSubsidyFromTable (year : UInt64) (blockVersion : UInt16) :
    Except Panic UInt64 := do
  let year := if year ≥ UInt64.ofNat subsidyByDeflationaryYearTable.length then
    UInt64.ofNat (subsidyByDeflationaryYearTable.length - 1) else year
  let subsidy ← sliceIndex subsidyByDeflationaryYearTable year.toNat
  let targetTime ← sliceIndex c.targetTimePerBlock (blockVersion - 1).toNat
  pure (scaleByTargetTime subsidy targetTime)

def adjustDaaScore (blockDaaScore : UInt64) : UInt64 × UInt64 :=
  -- the first year, on one block per second
  let firstYear : UInt64 × UInt64 :=
    if blockDaaScore ≥ 31557600 then (1, blockDaaScore - 31557600) else (0, blockDaaScore)
  -- past the hard fork the score is bloated to five blocks per second
  if firstYear.2 ≥ nocturneHfScore then (firstYear.1, firstYear.2 + nocturneHfScore * 4)
  else firstYear

def calcDeflationaryPeriodBlockSubsidy (blockDaaScore : UInt64) (blockVersion : UInt16) :
    Except Panic UInt64 := do
  let targetTime ← sliceIndex c.targetTimePerBlock (blockVersion - 1).toNat
  let blocksPerYear := blocksPerYearOf targetTime
  let adjusted := adjustDaaScore blockDaaScore
  if blocksPerYear = 0 then throw .integerDivideByZero
  let yearsSinceDeflationStarted :=
    adjusted.1 + (adjusted.2 - c.deflationaryPhaseDaaScore) / blocksPerYear
  getDeflationaryPeriodBlockSubsidyFromTable c yearsSinceDeflationStarted blockVersion

inductive SubsidyError where
  | notFound (blockHash : DomainHash)
  | panic (p : Panic)

def calcBlockSubsidy (daaScore : DomainHash → Option UInt64) (blockHash : DomainHash)
    (blockVersion : UInt16) : Except SubsidyError UInt64 :=
  if blockHash = c.genesisHash then .ok c.subsidyGenesisReward
  else
    match daaScore blockHash with
    | none => .error (.notFound blockHash)
    | some blockDaaScore =>
      if blockDaaScore < c.deflationaryPhaseDaaScore then .ok c.preDeflationaryPhaseBaseSubsidy
      else (calcDeflationaryPeriodBlockSubsidy c blockDaaScore blockVersion).mapError .panic

/-! ## The table -/

theorem length_subsidyByDeflationaryYearTable : subsidyByDeflationaryYearTable.length = 115 := rfl

set_option maxRecDepth 4000 in
theorem subsidyByDeflationaryYearTable_pairwise :
    (subsidyByDeflationaryYearTable.map UInt64.toNat).Pairwise (· ≥ ·) :=
  List.isChain_iff_pairwise.1 (by decide)

theorem subsidyByDeflationaryYearTable_antitone {i j : Nat} (le : min i 114 ≤ min j 114) :
    (subsidyByDeflationaryYearTable.getD (min j 114) 0).toNat ≤
      (subsidyByDeflationaryYearTable.getD (min i 114) 0).toNat := by
  have inRange : ∀ k, min k 114 < subsidyByDeflationaryYearTable.length := fun k => by
    rw [length_subsidyByDeflationaryYearTable]; omega
  simp only [List.getD_eq_getElem?_getD, List.getElem?_eq_getElem (inRange j),
    List.getElem?_eq_getElem (inRange i), Option.getD_some]
  rcases Nat.lt_or_eq_of_le le with before | same
  · have pairwise := List.pairwise_iff_getElem.1 subsidyByDeflationaryYearTable_pairwise
      (min i 114) (min j 114) (by simpa using inRange i) (by simpa using inRange j) before
    simpa using pairwise
  · simp only [same, le_refl]

theorem toNat_scaleByTargetTime (subsidy : UInt64) {targetTime : Nat}
    (atMostOneSecond : targetTime ≤ 1000000000) :
    (scaleByTargetTime subsidy targetTime).toNat = subsidy.toNat * targetTime / 1000000000 := by
  have scaled : subsidy.toNat * targetTime / 1000000000 ≤ subsidy.toNat :=
    Nat.div_le_of_le_mul (by rw [Nat.mul_comm 1000000000]; exact Nat.mul_le_mul_left _ atMostOneSecond)
  exact UInt64.toNat_ofNat_of_lt' (lt_of_le_of_lt scaled (UInt64.toNat_lt subsidy))

/-! ## The year, read as an integer -/

def adjustedScore (x : Nat) : Nat :=
  let rest := if 31557600 ≤ x then x - 31557600 else x
  if 11776584 ≤ rest then rest + 47106336 else rest

def yearOf (deflationaryPhaseDaaScore blocksPerYear x : Nat) : Nat :=
  (if 31557600 ≤ x then 1 else 0) + (adjustedScore x - deflationaryPhaseDaaScore) / blocksPerYear

theorem adjustDaaScore_toNat {blockDaaScore : UInt64}
    (bounded : blockDaaScore.toNat + 15548736 < 2 ^ 64) :
    (adjustDaaScore blockDaaScore).1.toNat = (if 31557600 ≤ blockDaaScore.toNat then 1 else 0) ∧
      (adjustDaaScore blockDaaScore).2.toNat = adjustedScore blockDaaScore.toNat := by
  have bloat : (nocturneHfScore * 4).toNat = 47106336 := rfl
  obtain ⟨firstYears, firstRest⟩ : (if blockDaaScore ≥ 31557600 then ((1 : UInt64), blockDaaScore - 31557600)
      else (0, blockDaaScore)).1.toNat = (if 31557600 ≤ blockDaaScore.toNat then 1 else 0) ∧
      (if blockDaaScore ≥ 31557600 then ((1 : UInt64), blockDaaScore - 31557600)
      else (0, blockDaaScore)).2.toNat =
        if 31557600 ≤ blockDaaScore.toNat then blockDaaScore.toNat - 31557600 else blockDaaScore.toNat := by
    by_cases firstYear : 31557600 ≤ blockDaaScore.toNat
    · have ge : blockDaaScore ≥ 31557600 := UInt64.le_iff_toNat_le.2 firstYear
      simp only [ge, if_true, firstYear]
      exact ⟨rfl, UInt64.toNat_sub_of_le _ _ ge⟩
    · have lt : ¬ blockDaaScore ≥ 31557600 := fun ge => firstYear (UInt64.le_iff_toNat_le.1 ge)
      simp [lt, firstYear]
  unfold adjustDaaScore adjustedScore
  generalize (if blockDaaScore ≥ 31557600 then ((1 : UInt64), blockDaaScore - 31557600)
    else (0, blockDaaScore)) = firstYear at firstYears firstRest
  rw [← firstRest]
  by_cases bloated : 11776584 ≤ firstYear.2.toNat
  · have ge : firstYear.2 ≥ nocturneHfScore := UInt64.le_iff_toNat_le.2 bloated
    simp only [ge, if_true, bloated]
    refine ⟨firstYears, ?_⟩
    rw [UInt64.toNat_add, bloat]
    exact Nat.mod_eq_of_lt (by split_ifs at firstRest <;> omega)
  · have lt : ¬ firstYear.2 ≥ nocturneHfScore := fun ge => bloated (UInt64.le_iff_toNat_le.1 ge)
    simp only [lt, if_false, bloated]
    exact ⟨firstYears, by trivial⟩

theorem adjustDaaScore_fst_le (blockDaaScore : UInt64) : (adjustDaaScore blockDaaScore).1.toNat ≤ 1 := by
  unfold adjustDaaScore
  dsimp only
  split_ifs <;> simp

theorem adjustDaaScore_lt_iff {deflationaryPhaseDaaScore blockDaaScore : UInt64}
    (startEarly : deflationaryPhaseDaaScore.toNat ≤ 11776584)
    (start : deflationaryPhaseDaaScore ≤ blockDaaScore)
    (bounded : blockDaaScore.toNat + 15548736 < 2 ^ 64) :
    (adjustDaaScore blockDaaScore).2 < deflationaryPhaseDaaScore ↔
      31557600 ≤ blockDaaScore.toNat ∧
        blockDaaScore.toNat < 31557600 + deflationaryPhaseDaaScore.toNat := by
  rw [UInt64.lt_iff_toNat_lt, (adjustDaaScore_toNat bounded).2]
  have started := UInt64.le_iff_toNat_le.1 start
  simp only [adjustedScore]
  split_ifs <;> omega

theorem toNat_blocksPerYearOf {targetTime : Nat} (positive : 0 < targetTime)
    (atMostOneSecond : targetTime ≤ 1000000000) :
    (blocksPerYearOf targetTime).toNat = 31557600 * 1000000000 / targetTime ∧
      31557600 ≤ 31557600 * 1000000000 / targetTime := by
  have atLeast : 31557600 ≤ 31557600 * 1000000000 / targetTime :=
    (Nat.le_div_iff_mul_le positive).2 (Nat.mul_le_mul_left _ atMostOneSecond)
  have fits : 31557600 * 1000000000 / targetTime < 2 ^ 64 :=
    lt_of_le_of_lt (Nat.div_le_self _ _) (by decide)
  exact ⟨UInt64.toNat_ofNat_of_lt' fits, atLeast⟩

theorem toNat_years_of_le {deflationaryPhaseDaaScore blocksPerYear blockDaaScore : UInt64}
    (bounded : blockDaaScore.toNat + 15548736 < 2 ^ 64) (twoOrMore : 2 ≤ blocksPerYear.toNat)
    (counted : deflationaryPhaseDaaScore ≤ (adjustDaaScore blockDaaScore).2) :
    ((adjustDaaScore blockDaaScore).1 +
        ((adjustDaaScore blockDaaScore).2 - deflationaryPhaseDaaScore) / blocksPerYear).toNat =
      yearOf deflationaryPhaseDaaScore.toNat blocksPerYear.toNat blockDaaScore.toNat := by
  obtain ⟨years, score⟩ := adjustDaaScore_toNat bounded
  have quotient : (((adjustDaaScore blockDaaScore).2 - deflationaryPhaseDaaScore) / blocksPerYear).toNat =
      (adjustedScore blockDaaScore.toNat - deflationaryPhaseDaaScore.toNat) / blocksPerYear.toNat := by
    rw [UInt64.toNat_div, UInt64.toNat_sub_of_le _ _ counted, score]
  have halved : (adjustedScore blockDaaScore.toNat - deflationaryPhaseDaaScore.toNat) /
      blocksPerYear.toNat < 2 ^ 63 := by
    have below : adjustedScore blockDaaScore.toNat < 2 ^ 64 := score ▸ UInt64.toNat_lt _
    have := Nat.div_le_div_left twoOrMore (by omega :
      0 < 2) (a := adjustedScore blockDaaScore.toNat - deflationaryPhaseDaaScore.toNat)
    omega
  rw [UInt64.toNat_add, quotient, years, yearOf]
  exact Nat.mod_eq_of_lt (by split_ifs <;> omega)

theorem toNat_years_of_lt {deflationaryPhaseDaaScore blocksPerYear blockDaaScore : UInt64}
    (startEarly : deflationaryPhaseDaaScore.toNat ≤ 11776584)
    (slow : blocksPerYear.toNat ≤ 31557600000000000) (twoOrMore : 2 ≤ blocksPerYear.toNat)
    (wraps : (adjustDaaScore blockDaaScore).2 < deflationaryPhaseDaaScore) :
    115 ≤ ((adjustDaaScore blockDaaScore).1 +
        ((adjustDaaScore blockDaaScore).2 - deflationaryPhaseDaaScore) / blocksPerYear).toNat := by
  have wrapped : ((adjustDaaScore blockDaaScore).2 - deflationaryPhaseDaaScore).toNat =
      2 ^ 64 - deflationaryPhaseDaaScore.toNat + (adjustDaaScore blockDaaScore).2.toNat := by
    rw [UInt64.toNat_sub]
    have := UInt64.lt_iff_toNat_lt.1 wraps
    exact Nat.mod_eq_of_lt (by omega)
  have years := adjustDaaScore_fst_le blockDaaScore
  have quotientBelow := Nat.div_le_div_left twoOrMore (by omega : 0 < 2)
    (a := ((adjustDaaScore blockDaaScore).2 - deflationaryPhaseDaaScore).toNat)
  have below := UInt64.toNat_lt ((adjustDaaScore blockDaaScore).2 - deflationaryPhaseDaaScore)
  have past : 115 ≤ ((adjustDaaScore blockDaaScore).2 - deflationaryPhaseDaaScore).toNat /
      blocksPerYear.toNat :=
    (Nat.le_div_iff_mul_le (by omega)).2 (by rw [wrapped]; omega)
  rw [UInt64.toNat_add, UInt64.toNat_div, Nat.mod_eq_of_lt (by omega)]
  omega

/-! ## The subsidy -/

section
variable {c} {blockVersion : UInt16} {targetTime : Nat}

theorem getDeflationaryPeriodBlockSubsidyFromTable_eq
    (configured : sliceIndex c.targetTimePerBlock (blockVersion - 1).toNat = .ok targetTime)
    (year : UInt64) :
    getDeflationaryPeriodBlockSubsidyFromTable c year blockVersion =
      .ok (scaleByTargetTime (subsidyByDeflationaryYearTable.getD (min year.toNat 114) 0)
        targetTime) := by
  have clamped : (if year ≥ UInt64.ofNat 115 then UInt64.ofNat (115 - 1) else year).toNat =
      min year.toNat 114 := by
    by_cases past : year ≥ UInt64.ofNat 115
    · have beyond : 115 ≤ year.toNat := UInt64.le_iff_toNat_le.1 past
      have last : (UInt64.ofNat (115 - 1)).toNat = 114 := rfl
      rw [if_pos past, last]
      exact (min_eq_right (by omega)).symm
    · have within : year.toNat < 115 := Nat.lt_of_not_le fun beyond =>
        past (UInt64.le_iff_toNat_le.2 beyond)
      rw [if_neg past]
      exact (min_eq_left (by omega)).symm
  have inRange : min year.toNat 114 < subsidyByDeflationaryYearTable.length := by
    rw [length_subsidyByDeflationaryYearTable]; omega
  unfold getDeflationaryPeriodBlockSubsidyFromTable
  rw [length_subsidyByDeflationaryYearTable]
  simp only [clamped, sliceIndex_of_lt inRange, configured, List.getD_eq_getElem?_getD,
    List.getElem?_eq_getElem inRange, Option.getD_some]
  rfl

theorem calcDeflationaryPeriodBlockSubsidy_eq
    (configured : sliceIndex c.targetTimePerBlock (blockVersion - 1).toNat = .ok targetTime)
    (divides : blocksPerYearOf targetTime ≠ 0) (blockDaaScore : UInt64) :
    calcDeflationaryPeriodBlockSubsidy c blockDaaScore blockVersion =
      .ok (scaleByTargetTime (subsidyByDeflationaryYearTable.getD
        (min ((adjustDaaScore blockDaaScore).1 + ((adjustDaaScore blockDaaScore).2 -
          c.deflationaryPhaseDaaScore) / blocksPerYearOf targetTime).toNat 114) 0) targetTime) := by
  unfold calcDeflationaryPeriodBlockSubsidy
  simp only [configured, bind, Except.bind]
  rw [if_neg divides]
  exact getDeflationaryPeriodBlockSubsidyFromTable_eq configured _

end

theorem adjustedScore_mono_below {x1 x2 : Nat} (le : x1 ≤ x2) (firstYear : x2 < 31557600) :
    adjustedScore x1 ≤ adjustedScore x2 := by
  simp only [adjustedScore]
  split_ifs <;> omega

theorem adjustedScore_mono_above {x1 x2 : Nat} (le : x1 ≤ x2) (laterYear : 31557600 ≤ x1) :
    adjustedScore x1 ≤ adjustedScore x2 := by
  simp only [adjustedScore]
  split_ifs <;> omega

theorem adjustedScore_lt_of_lt {x : Nat} (firstYear : x < 31557600) :
    adjustedScore x < 31557600 + 47106336 := by
  simp only [adjustedScore]
  split_ifs <;> omega

theorem yearOf_le_yearOf {deflationaryPhaseDaaScore blocksPerYear x1 x2 : Nat}
    (fast : 2 * 31557600 ≤ blocksPerYear) (le : x1 ≤ x2) :
    yearOf deflationaryPhaseDaaScore blocksPerYear x1 ≤ yearOf deflationaryPhaseDaaScore blocksPerYear x2 := by
  unfold yearOf
  by_cases laterYear : 31557600 ≤ x1
  · have adjusted := adjustedScore_mono_above le laterYear
    rw [if_pos laterYear, if_pos (by omega)]
    exact Nat.add_le_add_left (Nat.div_le_div_right (Nat.sub_le_sub_right adjusted _)) 1
  · by_cases secondYear : 31557600 ≤ x2
    · have below := adjustedScore_lt_of_lt (Nat.lt_of_not_le laterYear)
      have atMostOne : (adjustedScore x1 - deflationaryPhaseDaaScore) / blocksPerYear < 2 :=
        (Nat.div_lt_iff_lt_mul (by omega)).2 (by omega)
      rw [if_neg laterYear, if_pos secondYear, Nat.zero_add]
      exact Nat.le_trans (Nat.le_of_lt_succ atMostOne) (Nat.le_add_right 1 _)
    · have adjusted := adjustedScore_mono_below le (Nat.lt_of_not_le secondYear)
      rw [if_neg laterYear, if_neg secondYear]
      exact Nat.add_le_add_left (Nat.div_le_div_right (Nat.sub_le_sub_right adjusted _)) 0

section
variable {c} {blockVersion : UInt16} {targetTime : Nat}

theorem blocksPerYearOf_ne_zero (positive : 0 < targetTime)
    (atMostOneSecond : targetTime ≤ 1000000000) : blocksPerYearOf targetTime ≠ 0 := by
  intro zero
  obtain ⟨counted, atLeast⟩ := toNat_blocksPerYearOf positive atMostOneSecond
  rw [zero, UInt64.toNat_zero] at counted
  omega

theorem calcDeflationaryPeriodBlockSubsidy_antitone
    (configured : sliceIndex c.targetTimePerBlock (blockVersion - 1).toNat = .ok targetTime)
    (positive : 0 < targetTime) (halfSecond : targetTime ≤ 500000000)
    (startEarly : c.deflationaryPhaseDaaScore.toNat ≤ 11776584) {d1 d2 : UInt64}
    (start : c.deflationaryPhaseDaaScore ≤ d1) (le : d1 ≤ d2)
    (bounded : d2.toNat + 15548736 < 2 ^ 64)
    (outside : ¬ (31557600 ≤ d1.toNat ∧ d1.toNat < 31557600 + c.deflationaryPhaseDaaScore.toNat)) :
    ∃ subsidy1 subsidy2, calcDeflationaryPeriodBlockSubsidy c d1 blockVersion = .ok subsidy1 ∧
      calcDeflationaryPeriodBlockSubsidy c d2 blockVersion = .ok subsidy2 ∧ subsidy2 ≤ subsidy1 := by
  obtain ⟨counted, atLeast⟩ := toNat_blocksPerYearOf positive (by omega)
  have fast : 2 * 31557600 ≤ (blocksPerYearOf targetTime).toNat := by
    rw [counted]; exact (Nat.le_div_iff_mul_le positive).2 (by omega)
  have slow : (blocksPerYearOf targetTime).toNat ≤ 31557600000000000 := by
    rw [counted]; exact Nat.div_le_self _ _
  have later := UInt64.le_iff_toNat_le.1 le
  have counted1 : c.deflationaryPhaseDaaScore ≤ (adjustDaaScore d1).2 := UInt64.not_lt.1 fun wraps =>
    outside ((adjustDaaScore_lt_iff startEarly start (by omega)).1 wraps)
  have divides := blocksPerYearOf_ne_zero positive (by omega)
  rw [calcDeflationaryPeriodBlockSubsidy_eq configured divides,
    calcDeflationaryPeriodBlockSubsidy_eq configured divides]
  refine ⟨_, _, rfl, rfl, UInt64.le_iff_toNat_le.2 ?_⟩
  rw [toNat_scaleByTargetTime _ (by omega), toNat_scaleByTargetTime _ (by omega)]
  refine Nat.div_le_div_right (Nat.mul_le_mul_right _ (subsidyByDeflationaryYearTable_antitone ?_))
  rw [toNat_years_of_le (by omega) (by omega) counted1]
  by_cases wraps2 : (adjustDaaScore d2).2 < c.deflationaryPhaseDaaScore
  · have past := toNat_years_of_lt startEarly slow (by omega) wraps2
    omega
  · rw [toNat_years_of_le bounded (by omega) (UInt64.not_lt.1 wraps2)]
    exact min_le_min_right 114 (yearOf_le_yearOf fast later)

end

/-- The coinbase manager of the main network (params.go, genesis.go): a genesis reward of one
    hoosat, a base subsidy of 278400 hoosat, a deflationary phase from DAA score 360, and target
    times of one second for versions 1 to 4 and 200 ms for versions 5 and 6. -/
def mainnetCoinbaseManager : CoinbaseManager where
  subsidyGenesisReward := 100000000
  preDeflationaryPhaseBaseSubsidy := 1160 * 24 * 10 * 100000000
  genesisHash := ⟨0xc3003a4836c39a7965fc92241a2a2e9504399fe2694ff25276f7ea47dde7a783⟩
  deflationaryPhaseDaaScore := 360
  targetTimePerBlock := [1000000000, 1000000000, 1000000000, 1000000000, 200000000, 200000000]

set_option maxRecDepth 4000 in
/-- Three blocks of the main network, of version 4 by their DAA scores. At 31557599 the score,
    bloated as if past the hard fork, counts two years; at 31557600 the first year is taken off,
    the subtraction of 360 wraps, and the subsidy is 0; at 31557960 the count is one year, and the
    subsidy is above the first one's. -/
theorem calcDeflationaryPeriodBlockSubsidy_wraps_at_first_year :
    Protocol.expectedBlockVersion [17500000, 21821800, 29335426, 43334184] 31557599 = 4 ∧
      Protocol.expectedBlockVersion [17500000, 21821800, 29335426, 43334184] 31557600 = 4 ∧
      Protocol.expectedBlockVersion [17500000, 21821800, 29335426, 43334184] 31557960 = 4 ∧
      (adjustDaaScore 31557600).2 < mainnetCoinbaseManager.deflationaryPhaseDaaScore ∧
      calcDeflationaryPeriodBlockSubsidy mainnetCoinbaseManager 31557599 4 = .ok 6666666666 ∧
      calcDeflationaryPeriodBlockSubsidy mainnetCoinbaseManager 31557600 4 = .ok 0 ∧
      calcDeflationaryPeriodBlockSubsidy mainnetCoinbaseManager 31557960 4 = .ok 8164965809 ∧
      calcBlockSubsidy mainnetCoinbaseManager (fun _ => some 31557600) ⟨1⟩ 4 = .ok 0 :=
  ⟨by decide, by decide, by decide, by decide, rfl, rfl, rfl, rfl⟩

/-- At 200 ms a block, the subsidy at DAA score 40000000, past the first year, is at most the one
    at the start of the deflationary phase. -/
theorem calcDeflationaryPeriodBlockSubsidy_antitone_mainnet :
    ∃ subsidy1 subsidy2, calcDeflationaryPeriodBlockSubsidy mainnetCoinbaseManager 360 5 = .ok subsidy1 ∧
      calcDeflationaryPeriodBlockSubsidy mainnetCoinbaseManager 40000000 5 = .ok subsidy2 ∧
      subsidy2 ≤ subsidy1 :=
  calcDeflationaryPeriodBlockSubsidy_antitone rfl (by decide) (by decide) (by decide) (by decide)
    (by decide) (by decide) (by decide)

end Coinbase
