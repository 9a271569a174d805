import Htnd.Utxo.Transaction
import Mathlib.Data.List.Basic

/-!
The compound-transaction rate limiter of the mempool (compound_tx_rate_limiter.go). Per sender
address it keeps the submissions of compound transactions, drops those older than its window
before each use, and limits an address that has `MaxCompoundTxPerAddressPerMinute` left.
Times are nanoseconds; `time.Now()` is the time a call is made at, given to it.

The drop keeps everything from the first submission inside the window on, which is the
window exactly while each address's submissions are in order of time. `recordTransaction`
keeps that order; `recordTransactionAt`, given an unorphaned transaction's arrival time, can
append a submission older than those before it, and such a submission is then counted long
after its window has passed.

`extractSenderAddresses` reads addresses out of scripts with the network's parameters; its
result is given to each call, as the list the range over its map produces.
-/
namespace Mempool
open Utxo

structure CompoundTxConfig where
  compoundTxRateLimitEnabled : Bool
  maxCompoundTxPerAddressPerMinute : UInt64
  compoundTxRateLimitWindowMinutes : UInt64
  compoundTxMinInputsThreshold : UInt64

def defaultCompoundTxConfig : CompoundTxConfig := ⟨true, 10, 1, 21⟩

def maximumStandardTransactionMass : UInt64 := 100000

def minuteNanoseconds : Int := 60000000000

structure CompoundTxSubmission where
  timestamp : Int
  txID : String
  deriving DecidableEq, Repr

abbrev AddressTracker := String → List CompoundTxSubmission

variable (config : CompoundTxConfig)

def isCompoundTransaction (transaction : DomainTransaction) : Bool :=
  if !config.compoundTxRateLimitEnabled then false
  else if config.compoundTxMinInputsThreshold.toNat ≤ transaction.inputs.length then true
  else if maximumStandardTransactionMass / 2 < transaction.mass then true
  else false

def windowCutoff (now : Int) : Int :=
  now - (config.compoundTxRateLimitWindowMinutes.toNat : Int) * minuteNanoseconds

def validIndex (cutoff : Int) : List CompoundTxSubmission → Nat
  | [] => 0
  | submission :: rest => if cutoff < submission.timestamp then 0 else validIndex cutoff rest + 1

def cleanupOldSubmissions (now : Int) (submissions : List CompoundTxSubmission) :
    List CompoundTxSubmission :=
  let index := validIndex (windowCutoff config now) submissions
  if 0 < index then submissions.drop index else submissions

def checkRateLimit (now : Int) (address : String) (tracker : AddressTracker) :
    Bool × AddressTracker :=
  if !config.compoundTxRateLimitEnabled then (true, tracker)
  else
    let submissions := cleanupOldSubmissions config now (tracker address)
    (decide (submissions.length < config.maxCompoundTxPerAddressPerMinute.toNat),
      Function.update tracker address submissions)

def recordSubmission (now timestamp : Int) (txID : String) (tracker : AddressTracker)
    (address : String) : AddressTracker :=
  let submissions := cleanupOldSubmissions config now (tracker address)
  if submissions.any (·.txID == txID) then Function.update tracker address submissions
  else Function.update tracker address (submissions ++ [⟨timestamp, txID⟩])

def recordTransactionAt (now : Int) (transaction : DomainTransaction) (txID : String)
    (timestamp : Int) (addresses : List String) (tracker : AddressTracker) : AddressTracker :=
  if !config.compoundTxRateLimitEnabled || !isCompoundTransaction config transaction then tracker
  else addresses.foldl (recordSubmission config now timestamp txID) tracker

def recordTransaction (now : Int) (transaction : DomainTransaction) (txID : String)
    (addresses : List String) (tracker : AddressTracker) : AddressTracker :=
  recordTransactionAt config now transaction txID now addresses tracker

def rateLimitedAddresses (now : Int) :
    List String → List String × AddressTracker → List String × AddressTracker
  | [], acc => acc
  | address :: rest, (limited, tracker) =>
    let (allowed, tracker) := checkRateLimit config now address tracker
    rateLimitedAddresses now rest (if !allowed then limited ++ [address] else limited, tracker)

def isRateLimited (now : Int) (transaction : DomainTransaction) (addresses : List String)
    (tracker : AddressTracker) : (Bool × List String) × AddressTracker :=
  if !config.compoundTxRateLimitEnabled || !isCompoundTransaction config transaction then
    ((false, []), tracker)
  else
    let (limited, tracker) := rateLimitedAddresses config now addresses ([], tracker)
    ((decide (0 < limited.length), limited), tracker)

/-! ### The cleanup keeps a suffix, which is the window for submissions in order of time -/

def windowCount (now : Int) (tracker : AddressTracker) (address : String) : Nat :=
  ((tracker address).filter fun submission => windowCutoff config now < submission.timestamp).length

def InTimeOrder (submissions : List CompoundTxSubmission) : Prop :=
  submissions.Pairwise fun a b => a.timestamp ≤ b.timestamp

section Cleanup

variable {config}

theorem cleanupOldSubmissions_eq_drop (now : Int) (submissions : List CompoundTxSubmission) :
    cleanupOldSubmissions config now submissions =
      submissions.drop (validIndex (windowCutoff config now) submissions) := by
  dsimp only [cleanupOldSubmissions]
  split
  · rfl
  · rename_i zero
    rw [Nat.eq_zero_of_not_pos zero, List.drop_zero]

variable (config) in
theorem cleanupOldSubmissions_sublist (now : Int) (submissions : List CompoundTxSubmission) :
    (cleanupOldSubmissions config now submissions).Sublist submissions := by
  rw [cleanupOldSubmissions_eq_drop]
  exact List.drop_sublist _ _

theorem drop_validIndex {cutoff : Int} {submissions : List CompoundTxSubmission}
    (ordered : InTimeOrder submissions) :
    submissions.drop (validIndex cutoff submissions) =
      submissions.filter fun submission => cutoff < submission.timestamp := by
  induction submissions with
  | nil => rfl
  | cons submission rest ih =>
    obtain ⟨before, ordered⟩ := List.pairwise_cons.1 ordered
    by_cases inside : cutoff < submission.timestamp
    · rw [validIndex, if_pos inside, List.drop_zero,
        List.filter_cons_of_pos (by simpa using inside),
        List.filter_eq_self.2 fun later mem => by
          simpa using Int.lt_of_lt_of_le inside (before later mem)]
    · rw [validIndex, if_neg inside, List.drop_succ_cons, ih ordered,
        List.filter_cons_of_neg (by simpa using inside)]

theorem cleanupOldSubmissions_of_inTimeOrder {now : Int} {submissions : List CompoundTxSubmission}
    (ordered : InTimeOrder submissions) :
    cleanupOldSubmissions config now submissions =
      submissions.filter fun submission => windowCutoff config now < submission.timestamp := by
  rw [cleanupOldSubmissions_eq_drop, drop_validIndex ordered]

end Cleanup

/-! ### While submissions are stamped when recorded, the limiter counts its window -/

structure TrackerInTimeOrder (clock : Int) (tracker : AddressTracker) : Prop where
  ordered : ∀ address, InTimeOrder (tracker address)
  past : ∀ address, ∀ submission ∈ tracker address, submission.timestamp ≤ clock

namespace TrackerInTimeOrder

variable {config} {clock : Int} {tracker : AddressTracker}

theorem mono (inv : TrackerInTimeOrder clock tracker) {now : Int} (later : clock ≤ now) :
    TrackerInTimeOrder now tracker :=
  ⟨inv.ordered, fun address submission mem =>
    Int.le_trans (inv.past address submission mem) later⟩

theorem update (inv : TrackerInTimeOrder clock tracker) {address : String}
    {submissions : List CompoundTxSubmission} (ordered : InTimeOrder submissions)
    (past : ∀ submission ∈ submissions, submission.timestamp ≤ clock) :
    TrackerInTimeOrder clock (Function.update tracker address submissions) where
  ordered other := by
    rw [Function.update_apply]
    split
    · exact ordered
    · exact inv.ordered other
  past other := by
    rw [Function.update_apply]
    split
    · exact past
    · exact inv.past other

variable (config) in
theorem cleanup (inv : TrackerInTimeOrder clock tracker) (now : Int) (address : String) :
    TrackerInTimeOrder clock
      (Function.update tracker address (cleanupOldSubmissions config now (tracker address))) :=
  have kept := cleanupOldSubmissions_sublist config now (tracker address)
  inv.update (List.Pairwise.sublist kept (inv.ordered address))
    fun submission mem => inv.past address submission (kept.subset mem)

theorem recordSubmission (inv : TrackerInTimeOrder clock tracker) {timestamp : Int}
    (later : clock ≤ timestamp) (now : Int) (txID address : String) :
    TrackerInTimeOrder timestamp (recordSubmission config now timestamp txID tracker address) := by
  have kept := cleanupOldSubmissions_sublist config now (tracker address)
  have past : ∀ submission ∈ cleanupOldSubmissions config now (tracker address),
      submission.timestamp ≤ timestamp :=
    fun submission mem => Int.le_trans (inv.past address submission (kept.subset mem)) later
  dsimp only [Mempool.recordSubmission]
  split
  · exact (inv.cleanup config now address).mono later
  · apply (inv.mono later).update
    · refine List.pairwise_append.2 ⟨List.Pairwise.sublist kept (inv.ordered address),
        List.pairwise_singleton _ _, ?_⟩
      intro submission mem newest newestMem
      rw [List.mem_singleton.1 newestMem]
      exact past submission mem
    · intro submission mem
      rcases List.mem_append.1 mem with old | newest
      · exact past submission old
      · rw [List.mem_singleton.1 newest]

theorem foldl_recordSubmission {timestamp : Int} (now : Int) (txID : String) :
    ∀ (addresses : List String) {clock : Int} {tracker : AddressTracker},
      TrackerInTimeOrder clock tracker → clock ≤ timestamp →
      TrackerInTimeOrder timestamp
        (addresses.foldl (Mempool.recordSubmission config now timestamp txID) tracker)
  | [], _, _, inv, later => inv.mono later
  | address :: rest, _, _, inv, later =>
    foldl_recordSubmission now txID rest (inv.recordSubmission later now txID address)
      (Int.le_refl timestamp)

theorem recordTransactionAt (inv : TrackerInTimeOrder clock tracker) {timestamp : Int}
    (later : clock ≤ timestamp) (now : Int) (transaction : DomainTransaction) (txID : String)
    (addresses : List String) :
    TrackerInTimeOrder timestamp
      (recordTransactionAt config now transaction txID timestamp addresses tracker) := by
  unfold Mempool.recordTransactionAt
  split
  · exact inv.mono later
  · exact foldl_recordSubmission now txID addresses inv later

theorem recordTransaction (inv : TrackerInTimeOrder clock tracker) {now : Int}
    (later : clock ≤ now) (transaction : DomainTransaction) (txID : String)
    (addresses : List String) :
    TrackerInTimeOrder now (recordTransaction config now transaction txID addresses tracker) :=
  inv.recordTransactionAt later now transaction txID addresses

theorem windowCount_cleanup (inv : TrackerInTimeOrder clock tracker) (now : Int)
    (address other : String) :
    windowCount config now
        (Function.update tracker address (cleanupOldSubmissions config now (tracker address)))
        other =
      windowCount config now tracker other := by
  unfold windowCount
  rw [Function.update_apply]
  split
  · rename_i same
    rw [same, cleanupOldSubmissions_of_inTimeOrder (inv.ordered address)]
    simp only [List.filter_filter, Bool.and_self]
  · rfl

end TrackerInTimeOrder

section Check

variable {config} {clock : Int} {tracker : AddressTracker}

theorem checkRateLimit_of_enabled (enabled : config.compoundTxRateLimitEnabled = true)
    (now : Int) (address : String) (tracker : AddressTracker) :
    checkRateLimit config now address tracker =
      (decide ((cleanupOldSubmissions config now (tracker address)).length <
          config.maxCompoundTxPerAddressPerMinute.toNat),
        Function.update tracker address (cleanupOldSubmissions config now (tracker address))) := by
  simp only [checkRateLimit, enabled, Bool.not_true, Bool.false_eq_true, if_false]

theorem rateLimitedAddresses_of_inTimeOrder (enabled : config.compoundTxRateLimitEnabled = true)
    (now : Int) :
    ∀ (addresses limited : List String) {tracker : AddressTracker},
      TrackerInTimeOrder clock tracker →
      (rateLimitedAddresses config now addresses (limited, tracker)).1 =
          limited ++ addresses.filter (fun address =>
            config.maxCompoundTxPerAddressPerMinute.toNat ≤
              windowCount config now tracker address) ∧
        TrackerInTimeOrder clock
          (rateLimitedAddresses config now addresses (limited, tracker)).2 ∧
        ∀ address, windowCount config now (rateLimitedAddresses config now addresses
          (limited, tracker)).2 address = windowCount config now tracker address
  | [], limited, _, inv => ⟨by simp [rateLimitedAddresses], inv, fun _ => rfl⟩
  | address :: rest, limited, tracker, inv => by
    have counted : (cleanupOldSubmissions config now (tracker address)).length =
        windowCount config now tracker address := by
      rw [cleanupOldSubmissions_of_inTimeOrder (inv.ordered address)]
      rfl
    obtain ⟨limitedEq, kept, counts⟩ := rateLimitedAddresses_of_inTimeOrder enabled now rest
      (if !decide (windowCount config now tracker address <
          config.maxCompoundTxPerAddressPerMinute.toNat) then limited ++ [address] else limited)
      (inv.cleanup config now address)
    simp only [inv.windowCount_cleanup] at limitedEq counts
    simp only [rateLimitedAddresses, checkRateLimit_of_enabled enabled, counted]
    refine ⟨?_, kept, counts⟩
    rw [limitedEq]
    by_cases full :
      config.maxCompoundTxPerAddressPerMinute.toNat ≤ windowCount config now tracker address
    · simp [full]
    · simp [full, Nat.lt_of_not_le full]

theorem isRateLimited_of_inTimeOrder (inv : TrackerInTimeOrder clock tracker) (now : Int)
    (transaction : DomainTransaction) (addresses : List String) :
    ((isRateLimited config now transaction addresses tracker).1.1 = true ↔
        isCompoundTransaction config transaction = true ∧ ∃ address ∈ addresses,
          config.maxCompoundTxPerAddressPerMinute.toNat ≤
            windowCount config now tracker address) ∧
      TrackerInTimeOrder clock (isRateLimited config now transaction addresses tracker).2 := by
  unfold isRateLimited
  split
  · rename_i skipped
    refine ⟨?_, inv⟩
    have notCompound : isCompoundTransaction config transaction = false := by
      cases enabled : config.compoundTxRateLimitEnabled
      · simp [isCompoundTransaction, enabled]
      · simpa [enabled] using skipped
    simp [notCompound]
  · rename_i checked
    have enabled : config.compoundTxRateLimitEnabled = true := by simp_all
    have compound : isCompoundTransaction config transaction = true := by simp_all
    obtain ⟨limitedEq, kept, _⟩ :=
      rateLimitedAddresses_of_inTimeOrder enabled now addresses [] inv
    refine ⟨?_, kept⟩
    simp [limitedEq, compound, List.length_pos_iff_exists_mem]

end Check

/-! ### Runs of calls -/

inductive RateLimiterCall where
  | recordTransaction (now : Int) (transaction : DomainTransaction) (txID : String)
      (addresses : List String)
  | recordTransactionAt (now : Int) (transaction : DomainTransaction) (txID : String)
      (timestamp : Int) (addresses : List String)
  | isRateLimited (now : Int) (transaction : DomainTransaction) (addresses : List String)

namespace RateLimiterCall

def now : RateLimiterCall → Int
  | recordTransaction now .. => now
  | recordTransactionAt now .. => now
  | isRateLimited now .. => now

def step (tracker : AddressTracker) : RateLimiterCall → AddressTracker
  | recordTransaction now transaction txID addresses =>
    Mempool.recordTransaction config now transaction txID addresses tracker
  | recordTransactionAt now transaction txID timestamp addresses =>
    Mempool.recordTransactionAt config now transaction txID timestamp addresses tracker
  | isRateLimited now transaction addresses =>
    (Mempool.isRateLimited config now transaction addresses tracker).2

def Stamped (clock : Int) : RateLimiterCall → Prop
  | recordTransaction now .. => clock ≤ now
  | recordTransactionAt now _ _ timestamp _ => clock ≤ timestamp ∧ timestamp ≤ now
  | isRateLimited now .. => clock ≤ now

def StampedRun : Int → List RateLimiterCall → Prop
  | _, [] => True
  | clock, call :: rest => call.Stamped clock ∧ StampedRun call.now rest

variable {config} {clock : Int} {tracker : AddressTracker}

theorem step_inTimeOrder (inv : TrackerInTimeOrder clock tracker) (call : RateLimiterCall)
    (stamped : call.Stamped clock) : TrackerInTimeOrder call.now (call.step config tracker) := by
  cases call with
  | recordTransaction now transaction txID addresses =>
    exact inv.recordTransaction stamped transaction txID addresses
  | recordTransactionAt now transaction txID timestamp addresses =>
    exact (inv.recordTransactionAt stamped.1 now transaction txID addresses).mono stamped.2
  | isRateLimited now transaction addresses =>
    exact ((isRateLimited_of_inTimeOrder inv now transaction addresses).2).mono stamped

def lastTime (clock : Int) (calls : List RateLimiterCall) : Int :=
  (calls.getLast?.map now).getD clock

theorem run_inTimeOrder :
    ∀ (calls : List RateLimiterCall) {clock : Int} {tracker : AddressTracker},
      TrackerInTimeOrder clock tracker → StampedRun clock calls →
      TrackerInTimeOrder (lastTime clock calls) (calls.foldl (step config) tracker)
  | [], _, _, inv, _ => inv
  | call :: rest, _, _, inv, ⟨stamped, stampedRest⟩ => by
    have kept : TrackerInTimeOrder (lastTime call.now rest)
        (rest.foldl (step config) (call.step config _)) :=
      run_inTimeOrder rest (step_inTimeOrder inv call stamped) stampedRest
    cases rest with
    | nil => exact kept
    | cons next rest => exact kept

end RateLimiterCall

theorem trackerInTimeOrder_empty (clock : Int) : TrackerInTimeOrder clock fun _ => [] :=
  ⟨fun _ => List.Pairwise.nil, fun _ _ mem => nomatch mem⟩

def twoPerMinuteConfig : CompoundTxConfig :=
  { defaultCompoundTxConfig with maxCompoundTxPerAddressPerMinute := 2 }

def heavyTransaction : DomainTransaction := ⟨⟨5, by decide⟩, [], [], ⟨[]⟩, 0, 60000⟩

def limiterTime : Int := 10 * minuteNanoseconds

def lateUnorphanCalls : List RateLimiterCall :=
  [.recordTransaction limiterTime heavyTransaction "A" ["addr"],
    .recordTransactionAt limiterTime heavyTransaction "B" 0 ["addr"]]

theorem isRateLimited_counts_expired_submission :
    (lateUnorphanCalls.foldl (RateLimiterCall.step twoPerMinuteConfig) fun _ => []) "addr" =
        [⟨limiterTime, "A"⟩, ⟨0, "B"⟩] ∧
      windowCount twoPerMinuteConfig limiterTime
          (lateUnorphanCalls.foldl (RateLimiterCall.step twoPerMinuteConfig) fun _ => []) "addr" =
        1 ∧
      (isRateLimited twoPerMinuteConfig limiterTime heavyTransaction ["addr"]
          (lateUnorphanCalls.foldl (RateLimiterCall.step twoPerMinuteConfig) fun _ => [])).1.1 =
        true := by
  decide

end Mempool
