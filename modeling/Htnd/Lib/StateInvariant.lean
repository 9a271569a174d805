import Mathlib.Data.List.Basic

/-!
Invariants of programs in `EStateM`, the state monad whose errors keep the state they were
raised in: a method that changes its receiver and returns an error keeps the changes it made
before it. A program keeps an invariant when, run from a state where the invariant holds, it
ends in one where it holds, whether it returns or raises. The rules below compose such facts
along the program's structure; an invariant of a view of the state is kept by every program
that leaves the view alone.
-/
namespace StateInvariant

variable {ε σ α β γ : Type}

def finalState : EStateM.Result ε σ α → σ
  | .ok _ s => s
  | .error _ s => s

def Keeps (Inv : σ → Prop) (x : EStateM ε σ α) : Prop :=
  ∀ s, Inv s → Inv (finalState (x.run s))

@[simp] theorem finalState_ok (a : α) (s : σ) :
    finalState (.ok a s : EStateM.Result ε σ α) = s := rfl

@[simp] theorem finalState_error (e : ε) (s : σ) :
    finalState (.error e s : EStateM.Result ε σ α) = s := rfl

theorem finalState_bind (x : EStateM ε σ α) (f : α → EStateM ε σ β) (s : σ) :
    finalState ((x >>= f).run s) =
      match x.run s with
      | .ok a s' => finalState ((f a).run s')
      | .error _ s' => s' := by
  rw [EStateM.run_bind]
  cases x.run s <;> rfl

@[simp] theorem finalState_get_bind (f : σ → EStateM ε σ β) (s : σ) :
    finalState ((get >>= f).run s) = finalState ((f s).run s) := rfl

@[simp] theorem finalState_set_bind (s' : σ) (f : PUnit → EStateM ε σ β) (s : σ) :
    finalState ((set s' >>= f).run s) = finalState ((f ⟨⟩).run s') := rfl

@[simp] theorem finalState_modify_bind (g : σ → σ) (f : PUnit → EStateM ε σ β) (s : σ) :
    finalState ((modify g >>= f).run s) = finalState ((f ⟨⟩).run (g s)) := rfl

variable {Inv : σ → Prop}

theorem keeps_pure (a : α) : Keeps Inv (pure a : EStateM ε σ α) :=
  fun _ holds => holds

theorem keeps_throw (e : ε) : Keeps Inv (throw e : EStateM ε σ α) :=
  fun _ holds => holds

theorem keeps_modify {f : σ → σ} (step : ∀ s, Inv s → Inv (f s)) :
    Keeps Inv (modify f : EStateM ε σ PUnit) :=
  step

theorem keeps_bind {x : EStateM ε σ α} {f : α → EStateM ε σ β} (first : Keeps Inv x)
    (rest : ∀ a, Keeps Inv (f a)) : Keeps Inv (x >>= f) := by
  intro s holds
  have after := first s holds
  rw [finalState_bind]
  cases outcome : x.run s with
  | ok a s' =>
    rw [outcome] at after
    exact rest a s' after
  | error e s' =>
    rw [outcome] at after
    exact after

theorem bind_final {x : EStateM ε σ α} {f : α → EStateM ε σ β} {P : σ → Prop} (s : σ)
    (raised : ∀ e t, x.run s = .error e t → P t)
    (returned : ∀ a t, x.run s = .ok a t → P (finalState ((f a).run t))) :
    P (finalState ((x >>= f).run s)) := by
  rw [finalState_bind]
  cases outcome : x.run s with
  | ok a t => exact returned a t outcome
  | error e t => exact raised e t outcome

theorem run_bind_eq_ok {x : EStateM ε σ α} {f : α → EStateM ε σ β} {s s' : σ} {b : β} :
    (x >>= f).run s = .ok b s' ↔ ∃ a t, x.run s = .ok a t ∧ (f a).run t = .ok b s' := by
  rw [EStateM.run_bind]
  cases x.run s <;> simp

theorem keeps_get_bind {f : σ → EStateM ε σ β}
    (rest : ∀ s, Inv s → Inv (finalState ((f s).run s))) : Keeps Inv (get >>= f) := by
  intro s holds
  rw [finalState_bind, EStateM.run_get]
  exact rest s holds

theorem keeps_ite {c : Prop} [Decidable c] {x y : EStateM ε σ α} (yes : Keeps Inv x)
    (no : Keeps Inv y) : Keeps Inv (if c then x else y) := by
  by_cases holds : c
  · rw [if_pos holds]; exact yes
  · rw [if_neg holds]; exact no

theorem keeps_forM {l : List α} {f : α → EStateM ε σ PUnit} (turn : ∀ a ∈ l, Keeps Inv (f a)) :
    Keeps Inv (l.forM f) := by
  induction l with
  | nil => exact keeps_pure _
  | cons a l ih =>
    exact keeps_bind (turn a (by simp)) fun _ => ih fun b mem => turn b (by simp [mem])

theorem forM_run_ok {l : List α} {f : α → EStateM ε σ PUnit} (P : List α → σ → Prop)
    (turn : ∀ done a rest s, done ++ a :: rest = l → P done s →
      ∃ s', (f a).run s = .ok ⟨⟩ s' ∧ P (done ++ [a]) s')
    (s : σ) (start : P [] s) : ∃ s', (l.forM f).run s = .ok ⟨⟩ s' ∧ P l s' := by
  induction l generalizing P s with
  | nil => exact ⟨s, rfl, start⟩
  | cons a l ih =>
    obtain ⟨s₁, first, holds⟩ := turn [] a l s rfl start
    -- the rest of the loop, with the invariant read after `a`
    obtain ⟨s', rest, final⟩ := ih (fun done => P (a :: done))
      (fun done b rest t split holds => turn (a :: done) b rest t (by simp [split]) holds) s₁ holds
    refine ⟨s', ?_, final⟩
    show (f a >>= fun _ => l.forM f).run s = _
    exact run_bind_eq_ok.2 ⟨⟨⟩, s₁, first, rest⟩

theorem keeps_foldlM {l : List α} {f : β → α → EStateM ε σ β}
    (turn : ∀ b, ∀ a ∈ l, Keeps Inv (f b a)) (init : β) : Keeps Inv (l.foldlM f init) := by
  induction l generalizing init with
  | nil => exact keeps_pure _
  | cons a l ih =>
    exact keeps_bind (turn init a (by simp)) fun b => ih (fun b' a' mem => turn b' a' (by simp [mem])) b

theorem keeps_map {x : EStateM ε σ α} (g : α → β) (kept : Keeps Inv x) : Keeps Inv (g <$> x) := by
  intro s holds
  have after := kept s holds
  simp only [Functor.map, EStateM.map, EStateM.run] at after ⊢
  cases outcome : x s with
  | ok a s' => rw [outcome] at after; exact after
  | error e s' => rw [outcome] at after; exact after

theorem keeps_tryCatch {x : EStateM ε σ α} {handle : ε → EStateM ε σ α} (kept : Keeps Inv x)
    (handled : ∀ e, Keeps Inv (handle e)) : Keeps Inv (tryCatch x handle) := by
  intro s holds
  have after : Inv (finalState (x s)) := kept s holds
  show Inv (finalState (EStateM.tryCatch x handle s))
  simp only [EStateM.tryCatch, EStateM.Backtrackable.restore, EStateM.dummyRestore]
  cases outcome : x s with
  | ok a s' => rw [outcome] at after; exact after
  | error e s' => rw [outcome] at after; exact handled e s' after

/-! ### Checks -/

def Checks (Pass : σ → Prop) (x : EStateM ε σ α) : Prop :=
  ∀ s, finalState (x.run s) = s ∧ ∀ a s', x.run s = .ok a s' → Pass s

theorem check_bind_final {Pass : σ → Prop} {x : EStateM ε σ α} {f : α → EStateM ε σ β}
    {P : σ → Prop} (check : Checks Pass x) (s : σ) (failed : P s)
    (passed : ∀ a, Pass s → P (finalState ((f a).run s))) : P (finalState ((x >>= f).run s)) := by
  obtain ⟨same, passes⟩ := check s
  rw [finalState_bind]
  cases outcome : x.run s with
  | ok a s' =>
    rw [outcome, finalState_ok] at same
    subst same
    exact passed a (passes a s' outcome)
  | error e s' =>
    rw [outcome, finalState_error] at same
    rw [same]
    exact failed

/-! ### Errors a program never raises -/

def Avoids (Inv : σ → Prop) (Bad : ε → Prop) (x : EStateM ε σ α) : Prop :=
  ∀ s, Inv s → ∀ e s', x.run s = .error e s' → ¬ Bad e

variable {Bad : ε → Prop}

theorem avoids_pure (a : α) : Avoids Inv Bad (pure a : EStateM ε σ α) := by
  intro s _ e s' raised
  cases raised

theorem avoids_bind {x : EStateM ε σ α} {f : α → EStateM ε σ β} (kept : Keeps Inv x)
    (first : Avoids Inv Bad x) (rest : ∀ a, Avoids Inv Bad (f a)) : Avoids Inv Bad (x >>= f) := by
  intro s holds e s' raised
  have after := kept s holds
  rw [EStateM.run_bind] at raised
  cases outcome : x.run s with
  | ok a t =>
    rw [outcome] at raised after
    exact rest a t after e s' raised
  | error e' t =>
    rw [outcome] at raised
    obtain ⟨rfl, rfl⟩ : e' = e ∧ t = s' := by simpa using raised
    exact first s holds e' t outcome

theorem avoids_get_bind {f : σ → EStateM ε σ β}
    (rest : ∀ s, Inv s → ∀ e s', (f s).run s = .error e s' → ¬ Bad e) :
    Avoids Inv Bad (get >>= f) := by
  intro s holds e s' raised
  rw [EStateM.run_bind, EStateM.run_get] at raised
  exact rest s holds e s' raised

theorem avoids_ite {c : Prop} [Decidable c] {x y : EStateM ε σ α} (yes : Avoids Inv Bad x)
    (no : Avoids Inv Bad y) : Avoids Inv Bad (if c then x else y) := by
  by_cases holds : c
  · rw [if_pos holds]; exact yes
  · rw [if_neg holds]; exact no

theorem avoids_forM {l : List α} {f : α → EStateM ε σ PUnit} (kept : ∀ a ∈ l, Keeps Inv (f a))
    (turn : ∀ a ∈ l, Avoids Inv Bad (f a)) : Avoids Inv Bad (l.forM f) := by
  induction l with
  | nil => exact avoids_pure _
  | cons a l ih =>
    exact avoids_bind (kept a (by simp)) (turn a (by simp)) fun _ =>
      ih (fun b mem => kept b (by simp [mem])) (fun b mem => turn b (by simp [mem]))

theorem keeps_of_view (view : σ → γ) {x : EStateM ε σ α}
    (leaves : ∀ c, Keeps (fun s => view s = c) x)
    (depends : ∀ s s', view s' = view s → Inv s → Inv s') : Keeps Inv x :=
  fun s holds => depends s _ (leaves (view s) s rfl) holds

end StateInvariant
