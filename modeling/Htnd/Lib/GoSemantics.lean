import Mathlib

/-!
What the Go runtime does that the models need: indexing a slice, which panics out of range,
and a `for` loop, run for at most a given number of turns. A loop that has not left after
every number of turns does not terminate.
-/
namespace GoSemantics

inductive Panic where
  | indexOutOfRange (index : Int) (length : Nat)
  /-- A method called through a nil pointer or a nil interface. -/
  | nilPointerDereference
  /-- An integer division by zero. -/
  | integerDivideByZero
  /-- A slice expression `s[:high]` past the capacity of `s`. -/
  | sliceBoundsOutOfRange (high : Int) (capacity : Nat)
  /-- A call of `panic` with a value whose text is `text`. -/
  | value (text : String)
  deriving DecidableEq, Repr

/-- How a call ends: it returns a value, or it panics. -/
inductive Outcome (α : Type) where
  | returned (value : α)
  | panicked (p : Panic)
  deriving DecidableEq, Repr

variable {α σ ε : Type}

/-- The expression `xs[i]` on a slice. -/
def sliceIndex (xs : List α) (i : Int) : Except Panic α :=
  if h : 0 ≤ i ∧ i.toNat < xs.length then .ok (xs.get ⟨i.toNat, h.2⟩)
  else .error (.indexOutOfRange i xs.length)

@[simp] theorem sliceIndex_zero_cons (x : α) (xs : List α) : sliceIndex (x :: xs) 0 = .ok x := by
  simp [sliceIndex]

theorem sliceIndex_of_lt {xs : List α} {i : Nat} (inRange : i < xs.length) :
    sliceIndex xs i = .ok xs[i] := by
  simp [sliceIndex, inRange]

theorem sliceIndex_of_getElem? {xs : List α} {i : Nat} {a : α} (found : xs[i]? = some a) :
    sliceIndex xs i = .ok a := by
  obtain ⟨inRange, rfl⟩ := List.getElem?_eq_some_iff.1 found
  exact sliceIndex_of_lt inRange

theorem sliceIndex_last_append (init : List α) (x : α) :
    sliceIndex (init ++ [x]) (((init ++ [x]).length : Int) - 1) = .ok x := by
  have index : (((init ++ [x]).length : Int) - 1) = (init.length : Int) := by simp
  rw [index, sliceIndex_of_lt (by simp)]
  simp

/-- The assignment `xs[i] = a` to an element of a slice. -/
def sliceAssign (xs : List α) (i : Int) (a : α) : Except Panic (List α) :=
  if 0 ≤ i ∧ i.toNat < xs.length then .ok (xs.set i.toNat a)
  else .error (.indexOutOfRange i xs.length)

theorem sliceAssign_of_lt {xs : List α} {i : Nat} (inRange : i < xs.length) (a : α) :
    sliceAssign xs i a = .ok (xs.set i a) := by
  simp [sliceAssign, inRange]

/-- The expression `xs[low:]`, which panics past the length of the slice. -/
def sliceFrom (xs : List α) (low : Nat) : Except Panic (List α) :=
  if low ≤ xs.length then .ok (xs.drop low) else .error (.sliceBoundsOutOfRange low xs.length)

theorem sliceFrom_of_le {xs : List α} {low : Nat} (inRange : low ≤ xs.length) :
    sliceFrom xs low = .ok (xs.drop low) := by
  simp [sliceFrom, inRange]

def copySlice (dst : List α) (offset : Nat) (src : List α) : List α :=
  dst.take offset ++ src.take (dst.length - offset) ++ dst.drop (offset + src.length)

theorem copySlice_append (pre mid post src : List α) {offset : Nat} (before : pre.length = offset)
    (fits : mid.length = src.length) :
    copySlice (pre ++ (mid ++ post)) offset src = pre ++ (src ++ post) := by
  subst before
  have room : (pre ++ (mid ++ post)).length - pre.length = src.length + post.length := by
    simp
    omega
  rw [copySlice, List.take_left, room, List.take_of_length_le (by omega), ← fits,
    ← List.length_append, ← List.append_assoc, List.drop_left, List.append_assoc]

theorem exists_append_of_length_eq_add {l : List α} {m n : Nat} (length : l.length = m + n) :
    ∃ a b, l = a ++ b ∧ a.length = m ∧ b.length = n :=
  ⟨l.take m, l.drop m, (List.take_append_drop m l).symm, by simp; omega, by simp; omega⟩

/-- `x << n` on a `uint8`: a count of 8 or more shifts every bit out, where `<<<` on `UInt8`
    takes the count modulo 8. -/
def shiftLeftUInt8 (x n : UInt8) : UInt8 := if n < 8 then x <<< n else 0

/-- `x >> n` on a `uint8`. -/
def shiftRightUInt8 (x n : UInt8) : UInt8 := if n < 8 then x >>> n else 0

theorem toNat_shiftLeftUInt8 {x n : UInt8} (small : n.toNat < 8) :
    (shiftLeftUInt8 x n).toNat = x.toNat * 2 ^ n.toNat % 256 := by
  have below : n < 8 := UInt8.lt_iff_toNat_lt.2 small
  simp [shiftLeftUInt8, below, Nat.shiftLeft_eq, Nat.mod_eq_of_lt small]

theorem toNat_shiftRightUInt8 {x n : UInt8} (small : n.toNat < 8) :
    (shiftRightUInt8 x n).toNat = x.toNat / 2 ^ n.toNat := by
  have below : n < 8 := UInt8.lt_iff_toNat_lt.2 small
  simp [shiftRightUInt8, below, Nat.shiftRight_eq_div_pow, Nat.mod_eq_of_lt small]

def loop (body : σ → Option (Except ε (σ ⊕ α))) : Nat → σ → Option (Except ε α)
  | 0, _ => none
  | fuel + 1, s =>
    match body s with
    | none => none
    | some (.error e) => some (.error e)
    | some (.ok (.inr a)) => some (.ok a)
    | some (.ok (.inl s')) => loop body fuel s'

theorem loop_succ_of_continue {body : σ → Option (Except ε (σ ⊕ α))} {s s' : σ}
    (continues : body s = some (.ok (.inl s'))) (fuel : Nat) :
    loop body (fuel + 1) s = loop body fuel s' := by
  simp [loop, continues]

theorem loop_eq_none_of_invariant {body : σ → Option (Except ε (σ ⊕ α))} (P : σ → Prop)
    (continues : ∀ s, P s → ∃ s', body s = some (.ok (.inl s')) ∧ P s') :
    ∀ fuel s, P s → loop body fuel s = none := by
  intro fuel
  induction fuel with
  | zero => intro s _; rfl
  | succ fuel ih =>
    intro s holds
    obtain ⟨s', next, holds'⟩ := continues s holds
    rw [loop_succ_of_continue next]
    exact ih s' holds'

theorem loop_ok_of_invariant {body : σ → Option (Except ε (σ ⊕ α))} (P : σ → Prop) (Q : α → Prop)
    (leaves : ∀ s a, P s → body s = some (.ok (.inr a)) → Q a)
    (continues : ∀ s s', P s → body s = some (.ok (.inl s')) → P s') :
    ∀ fuel s, P s → ∀ a, loop body fuel s = some (.ok a) → Q a := by
  intro fuel
  induction fuel with
  | zero =>
    intro s _ a ran
    cases ran
  | succ fuel ih =>
    intro s holds a ran
    cases turn : body s with
    | none => simp [loop, turn] at ran
    | some result =>
      rcases result with e | s' | a'
      · simp [loop, turn] at ran
      · rw [loop_succ_of_continue turn] at ran
        exact ih s' (continues s s' holds turn) a ran
      · obtain rfl : a' = a := by simpa [loop, turn] using ran
        exact leaves s a' holds turn

theorem loop_eq_ok_of_bound {body : σ → Option (Except ε (σ ⊕ α))} (P : Nat → σ → Prop)
    (Q : α → Prop) (exhausted : ∀ s, ¬ P 0 s)
    (step : ∀ n s, P (n + 1) s → (∃ a, body s = some (.ok (.inr a)) ∧ Q a) ∨
      ∃ s', body s = some (.ok (.inl s')) ∧ P n s') :
    ∀ fuel s, P fuel s → ∃ a, loop body fuel s = some (.ok a) ∧ Q a := by
  intro fuel
  induction fuel with
  | zero => intro s holds; exact absurd holds (exhausted s)
  | succ fuel ih =>
    intro s holds
    rcases step fuel s holds with ⟨a, exits, satisfies⟩ | ⟨s', continues, holds'⟩
    · exact ⟨a, by simp [loop, exits], satisfies⟩
    · rw [loop_succ_of_continue continues]
      exact ih s' holds'

theorem loop_ends_of_bound {body : σ → Option (Except ε (σ ⊕ α))} (P : Nat → σ → Prop)
    (Q : α → Prop) (E : ε → Prop) (exhausted : ∀ s, ¬ P 0 s)
    (step : ∀ n s, P (n + 1) s → (∃ a, body s = some (.ok (.inr a)) ∧ Q a) ∨
      (∃ e, body s = some (.error e) ∧ E e) ∨ ∃ s', body s = some (.ok (.inl s')) ∧ P n s') :
    ∀ fuel s, P fuel s →
      (∃ a, loop body fuel s = some (.ok a) ∧ Q a) ∨ ∃ e, loop body fuel s = some (.error e) ∧ E e := by
  intro fuel
  induction fuel with
  | zero => intro s holds; exact absurd holds (exhausted s)
  | succ fuel ih =>
    intro s holds
    rcases step fuel s holds with ⟨a, exits, satisfies⟩ | ⟨e, fails, satisfies⟩ | ⟨s', continues, holds'⟩
    · exact Or.inl ⟨a, by simp [loop, exits], satisfies⟩
    · exact Or.inr ⟨e, by simp [loop, fails], satisfies⟩
    · rw [loop_succ_of_continue continues]
      exact ih s' holds'

theorem bind_eq_pure {β : Type} {x : ExceptT ε Option α} {f : α → ExceptT ε Option β} {b : β}
    (run : x >>= f = pure b) : ∃ a, x = pure a ∧ f a = pure b := by
  match x, run with
  | some (.ok a), run => exact ⟨a, rfl, run⟩
  | some (.error _), run => cases run
  | none, run => cases run

theorem pure_inj {a b : α} (same : (pure a : ExceptT ε Option α) = pure b) : a = b := by
  cases same
  rfl

theorem throw_ne_pure {e : ε} {a : α} : (throw e : ExceptT ε Option α) ≠ pure a :=
  fun same => by cases same

theorem exists_eq_pure_of_any_isOk {x : ExceptT ε Option α} (ok : x.run.any Except.isOk = true) :
    ∃ a, x = pure a := by
  rcases x with _ | _ | a
  · cases ok
  · cases ok
  · exact ⟨a, rfl⟩

theorem mapError_eq_pure {ε' : Type} {f : ε → ε'} {x : ExceptT ε Option α} {a : α} :
    (ExceptT.mk (x.run.map (Except.mapError f)) : ExceptT ε' Option α) = pure a ↔ x = pure a := by
  match x with
  | some (.ok b) => exact ⟨fun same => by cases same; rfl, fun same => by cases same; rfl⟩
  | some (.error _) => exact iff_of_false (fun same => by cases same) (fun same => by cases same)
  | none => exact iff_of_false (fun same => by cases same) (fun same => by cases same)

theorem foldl_invariant {f : β → α → β} (l : List α) (P : List α → β → Prop)
    (step : ∀ done a rest b, l = done ++ a :: rest → P done b → P (done ++ [a]) (f b a))
    {init : β} (start : P [] init) : P l (l.foldl f init) := by
  suffices general : ∀ done rest b, l = done ++ rest → P done b → P l (rest.foldl f b) from
    general [] l init rfl start
  intro done rest
  induction rest generalizing done with
  | nil =>
    intro b split holds
    simpa [split] using holds
  | cons a rest ih =>
    intro b split holds
    exact ih (done ++ [a]) (f b a) (by simp [split]) (step done a rest b split holds)

theorem foldlM_eq_pure {m : Type → Type} [Monad m] [LawfulMonad m] {f : β → α → m β}
    (l : List α) (P : List α → β → Prop)
    (step : ∀ done a rest b, l = done ++ a :: rest → P done b → ∃ b', f b a = pure b' ∧ P (done ++ [a]) b')
    {init : β} (start : P [] init) : ∃ b, l.foldlM f init = pure b ∧ P l b := by
  suffices general : ∀ done rest b, l = done ++ rest → P done b →
      ∃ b', rest.foldlM f b = pure b' ∧ P l b' from general [] l init rfl start
  intro done rest
  induction rest generalizing done with
  | nil =>
    intro b split holds
    exact ⟨b, rfl, by simpa [split] using holds⟩
  | cons a rest ih =>
    intro b split holds
    obtain ⟨b', turn, holds'⟩ := step done a rest b split holds
    obtain ⟨result, run, final⟩ := ih (done ++ [a]) b' (by simp [split]) holds'
    exact ⟨result, by simp [List.foldlM_cons, turn, run], final⟩

theorem exists_ok_of_check {x : Option (Except ε α)} {p : α → Bool}
    (passes : (match x with
      | some (.ok a) => p a
      | _ => false) = true) :
    ∃ a, x = some (.ok a) ∧ p a = true := by
  match x, passes with
  | some (.ok a), passes => exact ⟨a, rfl, passes⟩

theorem eq_some_ok_of_bind_toOption {x : Option (Except ε α)} {a : α}
    (found : x.bind Except.toOption = some a) : x = some (.ok a) := by
  obtain ⟨e, rfl, ok⟩ := Option.bind_eq_some_iff.1 found
  cases e with
  | error _ => cases ok
  | ok b => cases ok; rfl

section Channel

/-- The loop that receives one result from each goroutine over a channel and keeps the first
    error; the results arrive in the order the goroutines finish. -/
def firstError (results : List (Option ε)) : Option ε :=
  results.foldl (fun firstErr res => if firstErr.isNone then res else firstErr) none

theorem foldl_firstError_some (results : List (Option ε)) (e : ε) :
    results.foldl (fun firstErr res => if firstErr.isNone then res else firstErr) (some e) =
      some e := by
  induction results with
  | nil => rfl
  | cons _ _ ih => exact ih

@[simp] theorem firstError_nil : firstError ([] : List (Option ε)) = none := rfl

theorem firstError_cons (res : Option ε) (results : List (Option ε)) :
    firstError (res :: results) = res.or (firstError results) := by
  cases res with
  | none => rfl
  | some e => exact foldl_firstError_some results e

theorem mem_of_firstError {results : List (Option ε)} {e : ε} (first : firstError results = some e) :
    some e ∈ results := by
  induction results with
  | nil => cases first
  | cons res results ih =>
    rw [firstError_cons] at first
    cases res with
    | none => exact List.mem_cons_of_mem _ (ih first)
    | some e' =>
      obtain rfl := Option.some.inj first
      exact List.mem_cons_self

theorem firstError_perm {results results' : List (Option ε)} (perm : results.Perm results')
    (agree : ∀ a ∈ results, ∀ b ∈ results, a.isSome → b.isSome → a = b) :
    firstError results = firstError results' := by
  induction perm with
  | nil => rfl
  | cons res _ ih =>
    rw [firstError_cons, firstError_cons, ih fun a am b bm =>
      agree a (List.mem_cons_of_mem _ am) b (List.mem_cons_of_mem _ bm)]
  | swap x y l =>
    rw [firstError_cons, firstError_cons, firstError_cons, firstError_cons]
    cases x with
    | none => rfl
    | some a =>
      cases y with
      | none => rfl
      | some b =>
        have same := agree (some b) List.mem_cons_self (some a)
          (List.mem_cons_of_mem _ List.mem_cons_self) rfl rfl
        rw [same]
  | trans first second ih₁ ih₂ =>
    exact (ih₁ agree).trans (ih₂ fun a am b bm =>
      agree a (first.mem_iff.mpr am) b (first.mem_iff.mpr bm))

end Channel

/-! A method on a pointer receiver that mutates it and returns an error is a computation of
EStateM: the state an error carries is what was written before it. These run lemmas complete the
ones of the core library. -/

@[simp] theorem run_map {β : Type} (f : α → β) (x : EStateM ε σ α) (s : σ) :
    (f <$> x).run s =
      match x.run s with
      | .ok a s => .ok (f a) s
      | .error e s => .error e s := by
  simp only [EStateM.run, Functor.map, EStateM.map]
  cases x s <;> rfl

@[simp] theorem run_throw_any (e : ε) (s : σ) : (throw e : EStateM ε σ α).run s = .error e s := rfl

@[simp] theorem run_liftExcept_ok (a : α) (s : σ) :
    (liftExcept (.ok a : Except ε α) : EStateM ε σ α).run s = .ok a s := rfl

@[simp] theorem run_liftExcept_error (e : ε) (s : σ) :
    (liftExcept (.error e : Except ε α) : EStateM ε σ α).run s = .error e s := rfl

end GoSemantics
