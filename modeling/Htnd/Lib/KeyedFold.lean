import Mathlib.Data.Finmap

/- Loops over a hash map, read as left folds over the entries of an association list.
   A loop that visits each entry once and inserts or erases by key does not depend on
   the order of the visit: its effect at one key is stated through `lookup`. -/
namespace KeyedFold

variable {α β γ : Type*} [DecidableEq α]

def insertWhere (p : α → β → Bool) (l : List (Σ _ : α, β)) (m : AList fun _ : α => β) :
    AList fun _ : α => β :=
  l.foldl (fun acc e => if p e.1 e.2 then acc.insert e.1 e.2 else acc) m

def eraseKeys (l : List (Σ _ : α, γ)) (m : AList fun _ : α => β) : AList fun _ : α => β :=
  l.foldl (fun acc e => acc.erase e.1) m

@[simp] theorem insertWhere_nil (p : α → β → Bool) (m : AList fun _ : α => β) :
    insertWhere p [] m = m := rfl

theorem insertWhere_cons (p : α → β → Bool) (e : Σ _ : α, β) (l : List (Σ _ : α, β))
    (m : AList fun _ : α => β) :
    insertWhere p (e :: l) m = insertWhere p l (if p e.1 e.2 then m.insert e.1 e.2 else m) :=
  rfl

theorem lookup_insertWhere (p : α → β → Bool) {l : List (Σ _ : α, β)} (nd : l.NodupKeys)
    (m : AList fun _ : α => β) (a : α) :
    (insertWhere p l m).lookup a = ((l.dlookup a).filter (p a)).or (m.lookup a) := by
  induction l generalizing m with
  | nil => simp
  | cons e l ih =>
    obtain ⟨k, v⟩ := e
    have fresh : k ∉ l.keys := List.notMem_keys_of_nodupKeys_cons nd
    rw [insertWhere_cons, ih (List.nodupKeys_cons.mp nd).2]
    by_cases same : a = k
    · subst a
      have absent : l.dlookup k = none := List.dlookup_eq_none.mpr fresh
      by_cases pass : p k v <;>
        simp [absent, pass, AList.lookup_insert, List.dlookup_cons_eq, Option.filter_some]
    · rw [List.dlookup_cons_ne l ⟨k, v⟩ same]
      split <;> simp [AList.lookup_insert_ne same]

theorem lookup_insertWhere_true {l : List (Σ _ : α, β)} (nd : l.NodupKeys)
    (m : AList fun _ : α => β) (a : α) :
    (insertWhere (fun _ _ => true) l m).lookup a = (l.dlookup a).or (m.lookup a) := by
  rw [lookup_insertWhere _ nd]
  cases l.dlookup a <;> rfl

theorem lookup_eraseKeys (l : List (Σ _ : α, γ)) (m : AList fun _ : α => β) (a : α) :
    (eraseKeys l m).lookup a = if a ∈ l.keys then none else m.lookup a := by
  induction l generalizing m with
  | nil => simp [eraseKeys]
  | cons e l ih =>
    change (eraseKeys l (m.erase e.1)).lookup a = _
    rw [ih]
    by_cases same : a = e.1
    · subst a
      simp [AList.lookup_erase]
    · have keys : a ∈ (e :: l).keys ↔ a ∈ l.keys := by simp [List.keys_cons, same]
      simp only [keys, AList.lookup_erase_ne same]

theorem foldl_insertEither (p : α → β → Bool) (l : List (Σ _ : α, β))
    (r m : AList fun _ : α => β) :
    l.foldl (fun acc e => if p e.1 e.2 then (acc.1.insert e.1 e.2, acc.2)
      else (acc.1, acc.2.insert e.1 e.2)) (r, m) =
      (insertWhere p l r, insertWhere (fun a b => !p a b) l m) := by
  induction l generalizing r m with
  | nil => rfl
  | cons e l ih =>
    simp only [List.foldl_cons, insertWhere_cons]
    by_cases pass : p e.1 e.2 <;> simp [pass, ih]

/-! Lists of entries read by key: a filtered list and two lists one after the other. -/

theorem dlookup_filter (p : α → β → Bool) {l : List (Σ _ : α, β)} (nd : l.NodupKeys) (a : α) :
    (l.filter fun e => p e.1 e.2).dlookup a = (l.dlookup a).filter (p a) := by
  induction l with
  | nil => simp
  | cons e l ih =>
    obtain ⟨k, v⟩ := e
    have rest := ih (List.nodupKeys_cons.mp nd).2
    by_cases same : a = k
    · subst a
      have absent : l.dlookup k = none :=
        List.dlookup_eq_none.mpr (List.notMem_keys_of_nodupKeys_cons nd)
      have filtered : (l.filter fun e => p e.1 e.2).dlookup k = none := by
        rw [rest, absent, Option.filter_none]
      by_cases pass : p k v <;>
        simp [pass, filtered, List.dlookup_cons_eq, Option.filter_some]
    · rw [List.dlookup_cons_ne l ⟨k, v⟩ same, ← rest, List.filter_cons]
      split
      · exact List.dlookup_cons_ne _ _ same
      · rfl

omit [DecidableEq α] in
theorem nodupKeys_append {l₁ l₂ : List (Σ _ : α, β)} (nd₁ : l₁.NodupKeys) (nd₂ : l₂.NodupKeys)
    (disjoint : ∀ a ∈ l₁.keys, a ∉ l₂.keys) : (l₁ ++ l₂).NodupKeys := by
  rw [List.nodupKeys_iff_pairwise, List.pairwise_append]
  refine ⟨List.nodupKeys_iff_pairwise.mp nd₁, List.nodupKeys_iff_pairwise.mp nd₂, ?_⟩
  intro e₁ mem₁ e₂ mem₂ same
  exact disjoint e₁.1 (List.mem_keys_of_mem mem₁) (same ▸ List.mem_keys_of_mem mem₂)

theorem lookup_foldl_erase_keys (l : List α) (m : AList fun _ : α => β) (a : α) :
    (l.foldl (fun acc k => acc.erase k) m).lookup a = if a ∈ l then none else m.lookup a := by
  induction l generalizing m with
  | nil => simp
  | cons k l ih =>
    rw [List.foldl_cons, ih]
    by_cases same : a = k
    · subst same; simp [AList.lookup_erase]
    · by_cases mem : a ∈ l <;> simp [mem, same, AList.lookup_erase_ne same]

theorem lookup_foldl_insert_keys (f : α → β) (l : List α) (m : AList fun _ : α => β) (a : α) :
    (l.foldl (fun acc k => acc.insert k (f k)) m).lookup a =
      if a ∈ l then some (f a) else m.lookup a := by
  induction l generalizing m with
  | nil => simp
  | cons k l ih =>
    rw [List.foldl_cons, ih]
    by_cases same : a = k
    · subst a
      simp
    · by_cases mem : a ∈ l <;> simp [mem, same, AList.lookup_insert_ne same]

theorem lookup_foldl_insert_map (g : β → β) {l : List (Σ _ : α, β)} (nd : l.NodupKeys)
    (m : AList fun _ : α => β) (a : α) :
    (l.foldl (fun acc e => acc.insert e.1 (g e.2)) m).lookup a =
      ((l.dlookup a).map g).or (m.lookup a) := by
  induction l generalizing m with
  | nil => simp
  | cons e l ih =>
    obtain ⟨k, v⟩ := e
    have fresh : k ∉ l.keys := List.notMem_keys_of_nodupKeys_cons nd
    rw [List.foldl_cons, ih (List.nodupKeys_cons.mp nd).2]
    by_cases same : a = k
    · subst a
      simp [List.dlookup_eq_none.mpr fresh, List.dlookup_cons_eq]
    · rw [List.dlookup_cons_ne l ⟨k, v⟩ same, AList.lookup_insert_ne same]

/-! The same loops over a `Finmap`, for sets that are compared as maps. -/

theorem lookup_foldl_erase (l : List (Σ _ : α, γ)) (m : Finmap fun _ : α => β) (a : α) :
    (l.foldl (fun acc e => acc.erase e.1) m).lookup a = if a ∈ l.keys then none else m.lookup a := by
  induction l generalizing m with
  | nil => simp
  | cons e l ih =>
    rw [List.foldl_cons, ih]
    by_cases same : a = e.1
    · subst a
      simp [Finmap.lookup_erase]
    · have keys : a ∈ (e :: l).keys ↔ a ∈ l.keys := by simp [List.keys_cons, same]
      simp only [keys, Finmap.lookup_erase_ne same]

theorem lookup_foldl_insert {l : List (Σ _ : α, β)} (nd : l.NodupKeys)
    (m : Finmap fun _ : α => β) (a : α) :
    (l.foldl (fun acc e => acc.insert e.1 e.2) m).lookup a = (l.dlookup a).or (m.lookup a) := by
  induction l generalizing m with
  | nil => simp
  | cons e l ih =>
    obtain ⟨k, v⟩ := e
    have fresh : k ∉ l.keys := List.notMem_keys_of_nodupKeys_cons nd
    rw [List.foldl_cons, ih (List.nodupKeys_cons.mp nd).2]
    by_cases same : a = k
    · subst a
      simp [List.dlookup_eq_none.mpr fresh, Finmap.lookup_insert, List.dlookup_cons_eq]
    · rw [List.dlookup_cons_ne l ⟨k, v⟩ same, Finmap.lookup_insert_of_ne _ same]

theorem lookup_foldl_erase_map {δ : Type*} (key : δ → α) (l : List δ) (m : Finmap fun _ : α => β)
    (a : α) :
    (l.foldl (fun acc x => acc.erase (key x)) m).lookup a =
      if a ∈ l.map key then none else m.lookup a := by
  induction l generalizing m with
  | nil => simp
  | cons x l ih =>
    rw [List.foldl_cons, ih]
    by_cases same : a = key x
    · subst a
      simp [Finmap.lookup_erase]
    · by_cases mem : a ∈ l.map key <;> simp [mem, same, Finmap.lookup_erase_ne same]

theorem lookup_foldl_insert_of_notMem {l : List (α × β)} (m : Finmap fun _ : α => β) {a : α}
    (absent : a ∉ l.map Prod.fst) :
    (l.foldl (fun acc e => acc.insert e.1 e.2) m).lookup a = m.lookup a := by
  induction l generalizing m with
  | nil => rfl
  | cons e l ih =>
    rw [List.map_cons, List.mem_cons, not_or] at absent
    rw [List.foldl_cons, ih _ absent.2, Finmap.lookup_insert_of_ne _ absent.1]

end KeyedFold
