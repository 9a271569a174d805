import Mathlib.Logic.Function.Basic

/-!
A heap of cells addressed by number and allocated in order: what a model needs where a Go
value is reached through a reference (a map, a slice, a pointer) that two variables may
share. `Frame written h h'` says that `h'` grew from `h` and differs from it only at the
cells `written` names or at cells allocated since; `Keeps` is the frame that writes none of
`h`'s cells.
-/
structure RefHeap (α : Type) where
  size : Nat
  cells : Nat → α

namespace RefHeap

variable {α : Type}

def read (h : RefHeap α) (r : Nat) : α := h.cells r

def write (h : RefHeap α) (r : Nat) (a : α) : RefHeap α :=
  { h with cells := Function.update h.cells r a }

def alloc (h : RefHeap α) (a : α) : Nat × RefHeap α :=
  (h.size, ⟨h.size + 1, Function.update h.cells h.size a⟩)

@[simp] theorem read_write (h : RefHeap α) (r r' : Nat) (a : α) :
    (h.write r a).read r' = if r' = r then a else h.read r' := by
  by_cases same : r' = r
  · subst same; simp [read, write]
  · simp [read, write, same]

@[simp] theorem size_write (h : RefHeap α) (r : Nat) (a : α) : (h.write r a).size = h.size := rfl

@[simp] theorem alloc_fst (h : RefHeap α) (a : α) : (h.alloc a).1 = h.size := rfl

@[simp] theorem size_alloc (h : RefHeap α) (a : α) : (h.alloc a).2.size = h.size + 1 := rfl

@[simp] theorem read_alloc (h : RefHeap α) (a : α) (r : Nat) :
    (h.alloc a).2.read r = if r = h.size then a else h.read r := by
  by_cases same : r = h.size
  · subst same; simp [read, alloc]
  · simp [read, alloc, same]

structure Frame (written : Nat → Prop) (h h' : RefHeap α) : Prop where
  size_le : h.size ≤ h'.size
  read_eq : ∀ r < h.size, ¬ written r → h'.read r = h.read r

abbrev Keeps (h h' : RefHeap α) : Prop := Frame (fun _ => False) h h'

variable {written written' : Nat → Prop} {h h' h'' : RefHeap α}

theorem Frame.refl (written : Nat → Prop) (h : RefHeap α) : Frame written h h :=
  ⟨Nat.le_refl _, fun _ _ _ => rfl⟩

theorem Frame.trans (first : Frame written h h') (second : Frame written h' h'') :
    Frame written h h'' := by
  refine ⟨Nat.le_trans first.size_le second.size_le, fun r allocated untouched => ?_⟩
  rw [second.read_eq r (Nat.lt_of_lt_of_le allocated first.size_le) untouched,
    first.read_eq r allocated untouched]

theorem Frame.mono (frame : Frame written h h') (wider : ∀ r < h.size, written r → written' r) :
    Frame written' h h' :=
  ⟨frame.size_le, fun r allocated untouched =>
    frame.read_eq r allocated fun hit => untouched (wider r allocated hit)⟩

theorem Frame.keeps (frame : Frame written h h') (fresh : ∀ r, written r → h.size ≤ r) :
    Keeps h h' :=
  ⟨frame.size_le, fun r allocated _ =>
    frame.read_eq r allocated fun hit => absurd (fresh r hit) (Nat.not_le.mpr allocated)⟩

theorem frame_write (h : RefHeap α) (r : Nat) (a : α) : Frame (· = r) h (h.write r a) :=
  ⟨Nat.le_refl _, fun r' _ other => by simp [other]⟩

theorem keeps_alloc (h : RefHeap α) (a : α) : Keeps h (h.alloc a).2 :=
  ⟨Nat.le_succ _, fun r allocated _ => by simp [Nat.ne_of_lt allocated]⟩

theorem frame_foldl {β : Type} (f : RefHeap α → β → RefHeap α)
    (turn : ∀ h b, Frame written h (f h b)) (l : List β) (h : RefHeap α) :
    Frame written h (l.foldl f h) := by
  induction l generalizing h with
  | nil => exact Frame.refl written h
  | cons b l ih => exact (turn h b).trans (ih (f h b))

end RefHeap
