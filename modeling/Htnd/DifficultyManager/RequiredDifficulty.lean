import Mathlib
import Htnd.Util.Difficulty
import Htnd.GhostdagManager.Ghostdag

/-!
The required difficulty of a block (difficultymanager, blockwindow.go): the average target of a
window of blocks, less the earliest one, scaled by the time the window took against the time it
should have taken, capped at powMax and put in compact form.

The span of timestamps is clamped to at least one millisecond, so the product is never zero,
but the two integer divisions after it are applied to that product and can still bring a small
average target down to zero. Durations are in nanoseconds, as Go's time.Duration; big.Int's Div
is Euclidean division, as Int's is.
-/
namespace DifficultyAdjustment
open Difficulty Bytes GoSemantics Utxo

structure DifficultyBlock where
  timeInMilliseconds : Int64
  bits : UInt32
  hash : DomainHash
  blueWork : Nat
  deriving DecidableEq, Repr

abbrev BlockWindow := List DifficultyBlock

structure DifficultyManager where
  powMax : Int
  difficultyAdjustmentWindowSize : List Nat
  disableDifficultyAdjustment : Bool
  targetTimePerBlock : List Nat
  genesisBits : UInt32
  deriving DecidableEq, Repr

def ghostdagLess (blockA blockB : DifficultyBlock) : Bool :=
  if blockA.blueWork < blockB.blueWork then true
  else if blockB.blueWork < blockA.blueWork then false
  else blockA.hash.value < blockB.hash.value

def maxInt64 (x y : Int64) : Int64 := if x > y then x else y

def minMaxTimestampsStep (window : BlockWindow) (acc : Int64 × Int64 × Nat)
    (entry : DifficultyBlock × Nat) : Except Panic (Int64 × Int64 × Nat) := do
  -- equal timestamps are ordered by ghostdagLess, so that every node removes the same block
  let earlier ←
    if entry.1.timeInMilliseconds < acc.1 then pure true
    else if entry.1.timeInMilliseconds = acc.1 then
      ghostdagLess entry.1 <$> sliceIndex window acc.2.2
    else pure false
  let min := if earlier then entry.1.timeInMilliseconds else acc.1
  let minIndex := if earlier then entry.2 else acc.2.2
  let max := if entry.1.timeInMilliseconds > acc.2.1 then entry.1.timeInMilliseconds else acc.2.1
  pure (min, max, minIndex)

def minMaxTimestamps (window : BlockWindow) : Except Panic (Int64 × Int64 × Nat) :=
  window.zipIdx.foldlM (minMaxTimestampsStep window) (Int64.maxValue, 0, 0)

def remove (window : BlockWindow) (n : Nat) : Except Panic BlockWindow := do
  let last ← sliceIndex window ((window.length : Int) - 1)
  if n < window.length then pure ((window.set n last).take (window.length - 1))
  else throw (.indexOutOfRange n window.length)

/-- averageTarget: the sum of the window's targets divided by its length; big.Int's Div panics
on an empty window. -/
def averageTarget (window : BlockWindow) : Except Panic Int :=
  let averageTarget := window.foldl (fun sum block => sum + compactToBig block.bits) 0
  if window.length = 0 then throw .integerDivideByZero
  else pure (averageTarget / window.length)

def requiredDifficultyFromTargetsWindow (dm : DifficultyManager) (blockVersion : UInt16)
    (targetsWindow : BlockWindow) : Except Panic UInt32 := do
  if dm.disableDifficultyAdjustment then return dm.genesisBits
  -- the window size is read only when the window holds two blocks
  if targetsWindow.length < 2 then return dm.genesisBits
  let windowSize ← sliceIndex dm.difficultyAdjustmentWindowSize (blockVersion - 1).toNat
  if targetsWindow.length < windowSize then return dm.genesisBits
  let (windowMinTimestamp, windowMaxTimeStamp, windowMinIndex) ← minMaxTimestamps targetsWindow
  let targetsWindow ← remove targetsWindow windowMinIndex
  let averageWindowTarget ← averageTarget targetsWindow
  let span := (maxInt64 (windowMaxTimeStamp - windowMinTimestamp) 1).toInt
  let targetTime ← sliceIndex dm.targetTimePerBlock (blockVersion - 1).toNat
  let milliseconds : Int := (targetTime / 1000000 : Nat)
  if milliseconds = 0 then throw .integerDivideByZero
  -- averageTarget has divided by the same length, so it is not zero here
  let newTarget := averageWindowTarget * span / milliseconds / targetsWindow.length
  if newTarget > dm.powMax then return bigToCompact dm.powMax
  return bigToCompact newTarget

def scaledTarget (rest : BlockWindow) (span milliseconds : Int) : Int :=
  (rest.map (compactToBig ·.bits)).sum / rest.length * span / milliseconds / rest.length

structure TimestampBounds (window : BlockWindow) (mn mx : Int64) : Prop where
  min_le : ∀ b ∈ window, mn.toInt ≤ b.timeInMilliseconds.toInt
  min_mem : ∃ b ∈ window, b.timeInMilliseconds = mn
  le_max : ∀ b ∈ window, b.timeInMilliseconds.toInt ≤ mx.toInt
  max_nonneg : 0 ≤ mx.toInt
  max_mem : mx = 0 ∨ ∃ b ∈ window, b.timeInMilliseconds = mx

/-! ## minMaxTimestamps -/

theorem toInt_maxInt64 (x y : Int64) : (maxInt64 x y).toInt = max x.toInt y.toInt := by
  unfold maxInt64
  split
  · rename_i greater
    exact (max_eq_left (le_of_lt (Int64.lt_iff_toInt_lt.1 greater))).symm
  · rename_i notGreater
    exact (max_eq_right (Int.not_lt.1 (fun lt => notGreater (Int64.lt_iff_toInt_lt.2 lt)))).symm

theorem minMaxTimestampsStep_eq {window : BlockWindow} {acc : Int64 × Int64 × Nat}
    (inRange : acc.2.2 < window.length) (entry : DifficultyBlock × Nat) :
    ∃ earlier : Bool,
      (earlier = true → entry.1.timeInMilliseconds.toInt ≤ acc.1.toInt) ∧
      (earlier = false → acc.1.toInt ≤ entry.1.timeInMilliseconds.toInt) ∧
      minMaxTimestampsStep window acc entry =
        .ok (if earlier then entry.1.timeInMilliseconds else acc.1,
          maxInt64 entry.1.timeInMilliseconds acc.2.1, if earlier then entry.2 else acc.2.2) := by
  by_cases earlier : entry.1.timeInMilliseconds < acc.1
  · refine ⟨true, fun _ => le_of_lt (Int64.lt_iff_toInt_lt.1 earlier), by simp, ?_⟩
    simp [minMaxTimestampsStep, earlier, maxInt64]
    rfl
  by_cases same : entry.1.timeInMilliseconds = acc.1
  · refine ⟨ghostdagLess entry.1 window[acc.2.2], fun _ => by rw [same], fun _ => by rw [same], ?_⟩
    simp [minMaxTimestampsStep, same, sliceIndex_of_lt inRange, maxInt64]
  · have later : acc.1.toInt < entry.1.timeInMilliseconds.toInt := by
      have := Int.not_lt.1 (fun lt => earlier (Int64.lt_iff_toInt_lt.2 lt))
      have : acc.1.toInt ≠ entry.1.timeInMilliseconds.toInt :=
        fun eq => same (Int64.toInt_inj.1 eq.symm)
      omega
    refine ⟨false, by simp, fun _ => le_of_lt later, ?_⟩
    simp [minMaxTimestampsStep, earlier, same, maxInt64]
    rfl

structure Scanned (window : BlockWindow) (done : List (DifficultyBlock × Nat))
    (acc : Int64 × Int64 × Nat) : Prop where
  min_le : ∀ e ∈ done, acc.1.toInt ≤ e.1.timeInMilliseconds.toInt
  min_mem : done = [] ∧ acc.1 = Int64.maxValue ∨ ∃ e ∈ done, e.1.timeInMilliseconds = acc.1
  le_max : ∀ e ∈ done, e.1.timeInMilliseconds.toInt ≤ acc.2.1.toInt
  max_nonneg : 0 ≤ acc.2.1.toInt
  max_mem : acc.2.1 = 0 ∨ ∃ e ∈ done, e.1.timeInMilliseconds = acc.2.1
  index_lt : acc.2.2 < window.length

theorem maxInt64_eq_or (x y : Int64) : maxInt64 x y = x ∨ maxInt64 x y = y := by
  unfold maxInt64
  split
  · exact .inl rfl
  · exact .inr rfl

theorem scanned_step {window : BlockWindow} {done : List (DifficultyBlock × Nat)}
    {acc : Int64 × Int64 × Nat} {entry : DifficultyBlock × Nat} (entryLt : entry.2 < window.length)
    (scanned : Scanned window done acc) :
    ∃ acc', minMaxTimestampsStep window acc entry = .ok acc' ∧
      Scanned window (done ++ [entry]) acc' := by
  obtain ⟨earlier, lowers, keeps, step⟩ := minMaxTimestampsStep_eq scanned.index_lt entry
  have raised := toInt_maxInt64 entry.1.timeInMilliseconds acc.2.1
  have newMem : entry ∈ done ++ [entry] := List.mem_append_right _ (List.mem_singleton_self _)
  have leMax : ∀ e ∈ done ++ [entry],
      e.1.timeInMilliseconds.toInt ≤ (maxInt64 entry.1.timeInMilliseconds acc.2.1).toInt := by
    intro e mem
    rcases List.mem_append.1 mem with old | new
    · have := scanned.le_max e old
      omega
    · rw [List.mem_singleton.1 new]
      omega
  have maxNonneg : 0 ≤ (maxInt64 entry.1.timeInMilliseconds acc.2.1).toInt := by
    have := scanned.max_nonneg
    omega
  have maxMem : maxInt64 entry.1.timeInMilliseconds acc.2.1 = 0 ∨
      ∃ e ∈ done ++ [entry], e.1.timeInMilliseconds = maxInt64 entry.1.timeInMilliseconds acc.2.1 := by
    rcases maxInt64_eq_or entry.1.timeInMilliseconds acc.2.1 with new | old
    · exact .inr ⟨entry, newMem, new.symm⟩
    · rw [old]
      rcases scanned.max_mem with zero | ⟨e, mem, reached⟩
      · exact .inl zero
      · exact .inr ⟨e, List.mem_append_left _ mem, reached⟩
  cases earlier with
  | true =>
    rw [if_pos rfl, if_pos rfl] at step
    have lower := lowers rfl
    refine ⟨_, step, ⟨?_, .inr ⟨entry, newMem, rfl⟩, leMax, maxNonneg, maxMem, entryLt⟩⟩
    intro e mem
    rcases List.mem_append.1 mem with old | new
    · exact Int.le_trans lower (scanned.min_le e old)
    · rw [List.mem_singleton.1 new]
  | false =>
    rw [if_neg Bool.false_ne_true, if_neg Bool.false_ne_true] at step
    have upper := keeps rfl
    refine ⟨_, step, ⟨?_, ?_, leMax, maxNonneg, maxMem, scanned.index_lt⟩⟩
    · intro e mem
      rcases List.mem_append.1 mem with old | new
      · exact scanned.min_le e old
      · rw [List.mem_singleton.1 new]
        exact upper
    · rcases scanned.min_mem with ⟨-, start⟩ | ⟨e, mem, reached⟩
      · have top := Int64.toInt_le entry.1.timeInMilliseconds
        rw [start] at upper
        exact .inr ⟨entry, newMem, by rw [start]; exact Int64.toInt_inj.1 (by omega)⟩
      · exact .inr ⟨e, List.mem_append_left _ mem, reached⟩

theorem mem_zipIdx_of_mem {window : BlockWindow} {b : DifficultyBlock} (mem : b ∈ window) :
    ∃ i, (b, i) ∈ window.zipIdx := by
  obtain ⟨i, found⟩ := List.mem_iff_getElem?.1 mem
  exact ⟨i, List.mem_zipIdx_iff_getElem?.2 found⟩

theorem timestampBounds_of_scanned {window : BlockWindow} {acc : Int64 × Int64 × Nat}
    (nonempty : window ≠ []) (scanned : Scanned window window.zipIdx acc) :
    TimestampBounds window acc.1 acc.2.1 := by
  constructor
  · intro b mem
    obtain ⟨i, entry⟩ := mem_zipIdx_of_mem mem
    exact scanned.min_le (b, i) entry
  · rcases scanned.min_mem with ⟨none, -⟩ | ⟨e, mem, reached⟩
    · obtain ⟨b, mem⟩ := List.exists_mem_of_ne_nil window nonempty
      obtain ⟨i, entry⟩ := mem_zipIdx_of_mem mem
      rw [none] at entry
      cases entry
    · exact ⟨e.1, List.fst_mem_of_mem_zipIdx mem, reached⟩
  · intro b mem
    obtain ⟨i, entry⟩ := mem_zipIdx_of_mem mem
    exact scanned.le_max (b, i) entry
  · exact scanned.max_nonneg
  · rcases scanned.max_mem with zero | ⟨e, mem, reached⟩
    · exact .inl zero
    · exact .inr ⟨e.1, List.fst_mem_of_mem_zipIdx mem, reached⟩

theorem minMaxTimestamps_spec {window : BlockWindow} (nonempty : window ≠ []) :
    ∃ mn mx idx, minMaxTimestamps window = .ok (mn, mx, idx) ∧ idx < window.length ∧
      TimestampBounds window mn mx := by
  have start : Scanned window [] (Int64.maxValue, 0, 0) :=
    ⟨by simp, .inl ⟨rfl, rfl⟩, by simp, by decide, .inl rfl, List.length_pos_of_ne_nil nonempty⟩
  obtain ⟨⟨mn, mx, idx⟩, run, scanned⟩ := foldlM_eq_pure window.zipIdx (Scanned window)
    (fun done entry rest acc split holds => scanned_step (by
      have mem : entry ∈ window.zipIdx := by rw [split]; simp
      simpa using List.snd_lt_of_mem_zipIdx mem) holds) start
  exact ⟨mn, mx, idx, run, scanned.index_lt, timestampBounds_of_scanned nonempty scanned⟩

/-! ## remove and averageTarget -/

theorem remove_spec {window : BlockWindow} {n : Nat} (inRange : n < window.length) :
    ∃ rest, remove window n = .ok rest ∧ rest.length + 1 = window.length ∧
      ∀ b ∈ rest, b ∈ window := by
  have last : sliceIndex window ((window.length : Int) - 1) = .ok window[window.length - 1] := by
    rw [show ((window.length : Int) - 1) = ((window.length - 1 : Nat) : Int) by omega]
    exact sliceIndex_of_lt (by omega)
  refine ⟨(window.set n window[window.length - 1]).take (window.length - 1), ?_, ?_, ?_⟩
  · simp [remove, last, inRange]
  · simp only [List.length_take, List.length_set]
    omega
  · intro b mem
    rcases List.mem_or_eq_of_mem_set (List.mem_of_mem_take mem) with old | moved
    · exact old
    · rw [moved]
      exact List.getElem_mem _

theorem foldl_add_target (window : BlockWindow) (start : Int) :
    window.foldl (fun sum block => sum + compactToBig block.bits) start =
      start + (window.map (compactToBig ·.bits)).sum := by
  induction window generalizing start with
  | nil => simp
  | cons block window ih => simp [ih, Int.add_assoc]

theorem averageTarget_eq {window : BlockWindow} (nonempty : window ≠ []) :
    averageTarget window = .ok ((window.map (compactToBig ·.bits)).sum / window.length) := by
  simp [averageTarget, foldl_add_target, nonempty]
  rfl

theorem average_between {window : BlockWindow} {lo hi : Int} (nonempty : window ≠ [])
    (between : ∀ b ∈ window, lo ≤ compactToBig b.bits ∧ compactToBig b.bits ≤ hi) :
    lo ≤ (window.map (compactToBig ·.bits)).sum / window.length ∧
      (window.map (compactToBig ·.bits)).sum / window.length ≤ hi := by
  have count : (0 : Int) < window.length := by exact_mod_cast List.length_pos_of_ne_nil nonempty
  have above := List.card_nsmul_le_sum (window.map (compactToBig ·.bits)) lo
    (by simpa using fun b mem => (between b mem).1)
  have below := List.sum_le_card_nsmul (window.map (compactToBig ·.bits)) hi
    (by simpa using fun b mem => (between b mem).2)
  simp only [List.length_map] at above below
  constructor
  · rw [Int.le_ediv_iff_mul_le count, Int.mul_comm]
    exact above
  · exact Int.ediv_le_of_le_mul count (by rw [Int.mul_comm]; exact below)

/-! ## The required difficulty of a full window -/

section Full
variable {dm : DifficultyManager} {blockVersion : UInt16} {window : BlockWindow}
  {windowSize targetTime : Nat}

theorem requiredDifficultyFromTargetsWindow_of_full
    (adjusting : dm.disableDifficultyAdjustment = false)
    (sized : dm.difficultyAdjustmentWindowSize[(blockVersion - 1).toNat]? = some windowSize)
    (timed : dm.targetTimePerBlock[(blockVersion - 1).toNat]? = some targetTime)
    (slow : 1000000 ≤ targetTime) (long : 2 ≤ window.length) (full : windowSize ≤ window.length) :
    ∃ mn mx rest, TimestampBounds window mn mx ∧ rest.length + 1 = window.length ∧
      (∀ b ∈ rest, b ∈ window) ∧
      requiredDifficultyFromTargetsWindow dm blockVersion window =
        .ok (bigToCompact (min (scaledTarget rest (maxInt64 (mx - mn) 1).toInt
          (targetTime / 1000000 : Nat)) dm.powMax)) := by
  have nonempty : window ≠ [] := List.ne_nil_of_length_pos (by omega)
  obtain ⟨mn, mx, idx, scan, inRange, bounds⟩ := minMaxTimestamps_spec nonempty
  obtain ⟨rest, removed, shorter, within⟩ := remove_spec inRange
  have restNonempty : rest ≠ [] := List.ne_nil_of_length_pos (by omega)
  have milliseconds : (targetTime : Int) / 1000000 ≠ 0 := by
    omega
  refine ⟨mn, mx, rest, bounds, shorter, within, ?_⟩
  simp [requiredDifficultyFromTargetsWindow, adjusting, sliceIndex_of_getElem? sized,
    sliceIndex_of_getElem? timed, scan, removed, averageTarget_eq restNonempty, milliseconds,
    Nat.not_lt.2 long, Nat.not_lt.2 full, bind, Except.bind, pure, Except.pure, scaledTarget,
    min_def]
  split
  · rename_i above
    rw [if_neg (Int.not_le.2 above)]
  · rename_i notOver
    rw [if_pos (Int.not_lt.1 notOver)]

theorem one_le_span (mn mx : Int64) : 1 ≤ (maxInt64 (mx - mn) 1).toInt := by
  rw [toInt_maxInt64]
  exact le_max_right _ _

theorem requiredDifficultyFromTargetsWindow_le_powMax
    (adjusting : dm.disableDifficultyAdjustment = false)
    (sized : dm.difficultyAdjustmentWindowSize[(blockVersion - 1).toNat]? = some windowSize)
    (timed : dm.targetTimePerBlock[(blockVersion - 1).toNat]? = some targetTime)
    (slow : 1000000 ≤ targetTime) (long : 2 ≤ window.length) (full : windowSize ≤ window.length)
    (positive : 0 < dm.powMax) (small : dm.powMax < 256 ^ 253)
    (valid : ∀ b ∈ window, 1 ≤ compactToBig b.bits ∧ compactToBig b.bits ≤ dm.powMax) :
    ∃ bits, requiredDifficultyFromTargetsWindow dm blockVersion window = .ok bits ∧
      0 ≤ compactToBig bits ∧ compactToBig bits ≤ dm.powMax := by
  obtain ⟨mn, mx, rest, -, shorter, within, result⟩ :=
    requiredDifficultyFromTargetsWindow_of_full adjusting sized timed slow long full
  refine ⟨_, result, ?_⟩
  have restNonempty : rest ≠ [] := List.ne_nil_of_length_pos (by omega)
  have average := average_between restNonempty (fun b mem => valid b (within b mem))
  have scaledNonneg : 0 ≤ scaledTarget rest (maxInt64 (mx - mn) 1).toInt
      (targetTime / 1000000 : Nat) := by
    have span := one_le_span mn mx
    unfold scaledTarget
    apply Int.ediv_nonneg (Int.ediv_nonneg (Int.mul_nonneg (by omega) (by omega)) (by omega))
    omega
  have capped := min_le_right (scaledTarget rest (maxInt64 (mx - mn) 1).toInt
    (targetTime / 1000000 : Nat)) dm.powMax
  obtain ⟨nonneg, le, -⟩ := compactToBig_bigToCompact_between
    (le_min scaledNonneg (le_of_lt positive)) (lt_of_le_of_lt capped small)
  exact ⟨nonneg, le.trans capped⟩

/-- A full window of blocks of target 1 and one timestamp, at least 0, gives the compact form 0
once the target time is 2 ms or more: clamping the span to one millisecond does not keep the
divisions after it from rounding down to zero. -/
theorem requiredDifficultyFromTargetsWindow_zero_target
    (adjusting : dm.disableDifficultyAdjustment = false)
    (sized : dm.difficultyAdjustmentWindowSize[(blockVersion - 1).toNat]? = some windowSize)
    (timed : dm.targetTimePerBlock[(blockVersion - 1).toNat]? = some targetTime)
    (slower : 2000000 ≤ targetTime) (capped : 0 ≤ dm.powMax) (block : DifficultyBlock)
    (lowest : compactToBig block.bits = 1) (onTime : 0 ≤ block.timeInMilliseconds.toInt)
    (n : Nat) (long : 2 ≤ n) (full : windowSize ≤ n) :
    requiredDifficultyFromTargetsWindow dm blockVersion (List.replicate n block) = .ok 0 := by
  have longWindow : 2 ≤ (List.replicate n block).length := by simpa using long
  have fullWindow : windowSize ≤ (List.replicate n block).length := by simpa using full
  obtain ⟨mn, mx, rest, bounds, shorter, within, result⟩ :=
    requiredDifficultyFromTargetsWindow_of_full adjusting sized timed (by omega) longWindow
      fullWindow
  have blockMem : block ∈ List.replicate n block := List.mem_replicate.2 ⟨by omega, rfl⟩
  have earliest : mn = block.timeInMilliseconds := by
    obtain ⟨b, mem, reached⟩ := bounds.min_mem
    rw [← reached, List.eq_of_mem_replicate mem]
  have latest : mx = block.timeInMilliseconds := by
    have above := bounds.le_max block blockMem
    rcases bounds.max_mem with zero | ⟨b, mem, reached⟩
    · rw [zero] at above ⊢
      exact Int64.toInt_inj.1 (by simp at above ⊢; omega)
    · rw [← reached, List.eq_of_mem_replicate mem]
  have span : (maxInt64 (mx - mn) 1).toInt = 1 := by
    rw [earliest, latest, Int64.sub_self]
    decide
  have uniform : rest = List.replicate rest.length block :=
    List.eq_replicate_iff.2 ⟨rfl, fun b mem => List.eq_of_mem_replicate (within b mem)⟩
  have sum : (rest.map (compactToBig ·.bits)).sum = rest.length := by
    rw [uniform, List.map_replicate, List.sum_replicate, lowest, List.length_replicate]
    simp
  have restPos : (0 : Int) < rest.length := by simp at shorter; omega
  have zero : scaledTarget rest 1 (targetTime / 1000000 : Nat) = 0 := by
    have belowMillisecond : (1 : Int) / (targetTime / 1000000 : Nat) = 0 :=
      Int.ediv_eq_zero_of_lt (by omega) (by omega)
    unfold scaledTarget
    rw [sum, Int.ediv_self (by omega), Int.one_mul, belowMillisecond, Int.zero_ediv]
  rw [result, span, zero, min_eq_left capped]
  rfl

end Full

def mainnetDifficultyManager : DifficultyManager where
  powMax := 2 ^ 255 - 1
  difficultyAdjustmentWindowSize := [2641, 2641, 2641, 2641, 2640, 2640]
  disableDifficultyAdjustment := false
  targetTimePerBlock := [1000000000, 1000000000, 1000000000, 1000000000, 200000000, 200000000]
  genesisBits := 511705087

def lowestTargetBlock : DifficultyBlock := ⟨1709371763896, 0x01010000, ⟨0⟩, 0⟩

theorem requiredDifficultyFromTargetsWindow_zero_target_mainnet :
    requiredDifficultyFromTargetsWindow mainnetDifficultyManager 4
      (List.replicate 2641 lowestTargetBlock) = .ok 0 :=
  requiredDifficultyFromTargetsWindow_zero_target rfl rfl rfl (by decide) (by decide)
    lowestTargetBlock (by decide) (by decide) 2641 (by decide) (by decide)

/-- The same window gives a valid target: 0, which is at most `powMax`. -/
theorem requiredDifficultyFromTargetsWindow_le_powMax_mainnet :
    ∃ bits, requiredDifficultyFromTargetsWindow mainnetDifficultyManager 4
        (List.replicate 2641 lowestTargetBlock) = .ok bits ∧
      0 ≤ compactToBig bits ∧ compactToBig bits ≤ mainnetDifficultyManager.powMax := by
  have long : 2641 ≤ (List.replicate 2641 lowestTargetBlock).length := (List.length_replicate ..).ge
  have valid : ∀ b ∈ List.replicate 2641 lowestTargetBlock, 1 ≤ compactToBig b.bits ∧
      compactToBig b.bits ≤ mainnetDifficultyManager.powMax := by
    intro b mem
    rw [List.eq_of_mem_replicate mem]
    decide
  exact requiredDifficultyFromTargetsWindow_le_powMax rfl rfl rfl (by decide) (by omega) long
    (by decide) (by decide) valid

end DifficultyAdjustment
