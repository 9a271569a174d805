import Mathlib.Data.List.Basic

/-!
Go's bytes.Reader read with io.ReadFull: the state is the bytes not yet read, and a read of `n`
bytes takes the next `n`, or fails with io.EOF when no byte is left and io.ErrUnexpectedEOF when
some but fewer than `n` are. A decoder is a sequence of such reads and checks.

Each read takes its bytes from the front: a read that succeeds leaves the input as the bytes it
returned followed by the rest, and a read of as many bytes as precede the rest returns them.
The bind lemmas chain these facts through a decoder.
-/
namespace ByteReader

inductive ReadError where
  | eof
  | unexpectedEOF
  /-- a check of the decoder failed, with its message -/
  | invalid (description : String)
  deriving DecidableEq, Repr

abbrev ReadM := StateT (List UInt8) (Except ReadError)

def readFull (n : Nat) : ReadM (List UInt8) := fun input =>
  if n ≤ input.length then .ok (input.take n, input.drop n)
  else if input = [] then .error .eof
  else .error .unexpectedEOF

variable {α β : Type}

theorem readFull_append (bytes rest : List UInt8) :
    readFull bytes.length (bytes ++ rest) = .ok (bytes, rest) := by
  simp [readFull]

theorem readFull_eq_ok {n : Nat} {input bytes rest : List UInt8}
    (read : readFull n input = .ok (bytes, rest)) : input = bytes ++ rest ∧ bytes.length = n := by
  unfold readFull at read
  split at read
  · rename_i enough
    cases read
    exact ⟨(List.take_append_drop n input).symm, List.length_take_of_le enough⟩
  · split at read <;> cases read

theorem bind_eq_ok {x : ReadM α} {f : α → ReadM β} {input rest : List UInt8} {b : β}
    (ran : (x >>= f) input = .ok (b, rest)) :
    ∃ a mid, x input = .ok (a, mid) ∧ f a mid = .ok (b, rest) := by
  change (do let (a, mid) ← x input; f a mid) = _ at ran
  cases first : x input with
  | error e => rw [first] at ran; cases ran
  | ok result =>
    obtain ⟨a, mid⟩ := result
    rw [first] at ran
    exact ⟨a, mid, rfl, ran⟩

theorem bind_of_eq_ok {x : ReadM α} {f : α → ReadM β} {input mid : List UInt8} {a : α}
    (first : x input = .ok (a, mid)) : (x >>= f) input = f a mid := by
  change (do let (a, mid) ← x input; f a mid) = _
  rw [first]
  rfl

@[simp] theorem pure_apply (a : α) (input : List UInt8) :
    (pure a : ReadM α) input = .ok (a, input) := rfl

@[simp] theorem liftM_ok (a : α) (input : List UInt8) :
    (liftM (Except.ok a : Except ReadError α) : ReadM α) input = .ok (a, input) := rfl

theorem liftM_eq_ok {x : Except ReadError α} {input rest : List UInt8} {a : α}
    (lifted : (liftM x : ReadM α) input = .ok (a, rest)) : x = .ok a ∧ rest = input := by
  cases x with
  | error e => cases lifted
  | ok b =>
    cases lifted
    exact ⟨rfl, rfl⟩

theorem run'_eq (x : ReadM α) (input : List UInt8) :
    x.run' input = Prod.fst <$> x input := rfl

theorem run'_eq_ok {x : ReadM α} {input : List UInt8} {a : α} (ran : x.run' input = .ok a) :
    ∃ rest, x input = .ok (a, rest) := by
  rw [run'_eq] at ran
  cases result : x input with
  | error e =>
    rw [result] at ran
    cases ran
  | ok pair =>
    rw [result] at ran
    cases ran
    exact ⟨pair.2, rfl⟩

end ByteReader
