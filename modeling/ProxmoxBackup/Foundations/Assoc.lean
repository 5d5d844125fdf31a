import Mathlib

/-!
# Association lists read by key

Maps of the repository are modelled two ways: a list of pairs searched front to back
(`List.lookup`, for a `BTreeMap` kept in key order) and Mathlib's `AList` (for a `HashMap`, whose
order nothing may depend on). This module collects what their proofs read off lookups:

* `List.lookup_cons_eq_ite` and `List.lookup_orderedInsert`: the first entry under a key wins,
  and an entry put in its ordered place under a new key changes no other key's lookup;
* `AList.lookup_foldl_insert`: after a list of inserts, a key's lookup is its last insert, else
  the lookup before them;
* `List.lookup_eq_some_of_functional`: in a list that gives a key one value, that value is its
  lookup;
* `AList.eq_empty_iff`: a map is empty when every lookup misses.

Such maps are built by folds, so two rules for folds come first: `List.foldl_invariant` (what
every step keeps holds of the result) and `List.foldl_iff_exists` (a fold whose steps each add
what their item asks for holds what some item asked for, or what held at the start).
-/

namespace List

section Folds

variable {σ α : Type}

/-- What every step of a fold keeps, starting from a state that has it, the result has. -/
theorem foldl_invariant (P : σ → Prop) {step : σ → α → σ} {l : List α}
    (h : ∀ s, ∀ a ∈ l, P s → P (step s a)) {s : σ} (hs : P s) : P (l.foldl step s) := by
  induction l generalizing s with
  | nil => exact hs
  | cons a l ih =>
    exact ih (fun s b hb => h s b (mem_cons_of_mem _ hb)) (h s a (mem_cons_self ..) hs)

/-- A fold whose every step makes `P` hold exactly when its item asks for it (`Q`) or `P` held
before: `P` holds of the result exactly when some item asks for it or it held at the start. -/
theorem foldl_iff_exists (P : σ → Prop) (Q : α → Prop) {step : σ → α → σ} {l : List α}
    (h : ∀ s, ∀ a ∈ l, P (step s a) ↔ Q a ∨ P s) (s : σ) :
    P (l.foldl step s) ↔ (∃ a ∈ l, Q a) ∨ P s := by
  induction l generalizing s with
  | nil => simp
  | cons a l ih =>
    rw [foldl_cons, ih (fun s b hb => h s b (mem_cons_of_mem _ hb)), h s a (mem_cons_self ..)]
    simp only [mem_cons, exists_eq_or_imp]
    rw [or_assoc]
    exact or_left_comm

end Folds

end List

namespace List

variable {α β : Type} [DecidableEq α]

theorem lookup_cons_eq_ite (a k : α) (b : β) (l : List (α × β)) :
    ((k, b) :: l).lookup a = if a = k then some b else l.lookup a := by
  by_cases h : a = k
  · simp [h]
  · simp [List.lookup_cons, beq_false_of_ne h, h]

/-- Inserting an entry under a new key, in order or anywhere, leaves the other keys' lookups. -/
theorem lookup_orderedInsert (r : α × β → α × β → Prop) [DecidableRel r] {k : α} {v : β}
    {l : List (α × β)} (hk : l.lookup k = none) (a : α) :
    (l.orderedInsert r (k, v)).lookup a = if a = k then some v else l.lookup a := by
  induction l with
  | nil => simp [lookup_cons_eq_ite]
  | cons entry l ih =>
    obtain ⟨key, value⟩ := entry
    have hkey : k ≠ key := by
      rintro rfl
      simp at hk
    have hl : l.lookup k = none := by simpa [lookup_cons_eq_ite, hkey] using hk
    by_cases hr : r (k, v) (key, value)
    · simp [orderedInsert, hr, lookup_cons_eq_ite]
    · by_cases ha : a = key
      · subst ha
        simp [orderedInsert, hr, Ne.symm hkey]
      · simp [orderedInsert, hr, lookup_cons_eq_ite, ih hl, ha]

/-- Dropping a key's entries leaves the other keys' lookups. -/
theorem lookup_filter_key_ne (l : List (α × β)) (k a : α) :
    (l.filter fun p => p.1 ≠ k).lookup a = if a = k then none else l.lookup a := by
  induction l with
  | nil => simp
  | cons entry l ih =>
    obtain ⟨key, value⟩ := entry
    by_cases hkey : key = k
    · subst hkey
      rw [List.filter_cons_of_neg (by simp), ih, lookup_cons_eq_ite]
      by_cases ha : a = key <;> simp [ha]
    · rw [List.filter_cons_of_pos (by simpa using hkey), lookup_cons_eq_ite, lookup_cons_eq_ite, ih]
      by_cases ha : a = key
      · subst ha
        simp [hkey]
      · simp [ha]

theorem lookup_eq_none_of_forall {a : α} {l : List (α × β)} (h : ∀ b, (a, b) ∉ l) :
    l.lookup a = none := by
  induction l with
  | nil => rfl
  | cons entry l ih =>
    obtain ⟨key, value⟩ := entry
    have hne : a ≠ key := by
      rintro rfl
      exact h value (mem_cons_self ..)
    rw [lookup_cons_eq_ite, if_neg hne]
    exact ih fun b hb => h b (mem_cons_of_mem _ hb)

theorem mem_of_lookup_eq_some {a : α} {b : β} {l : List (α × β)} (h : l.lookup a = some b) :
    (a, b) ∈ l := by
  induction l with
  | nil => simp at h
  | cons entry l ih =>
    obtain ⟨key, value⟩ := entry
    rw [lookup_cons_eq_ite] at h
    split at h
    · cases h
      simp_all
    · exact mem_cons_of_mem _ (ih h)

/-- A list that gives a key a single value looks it up. -/
theorem lookup_eq_some_of_functional {a : α} {b : β} {l : List (α × β)} (hmem : (a, b) ∈ l)
    (hfun : ∀ b', (a, b') ∈ l → b' = b) : l.lookup a = some b := by
  cases h : l.lookup a with
  | none =>
    induction l with
    | nil => simp at hmem
    | cons entry l ih =>
      obtain ⟨key, value⟩ := entry
      rw [lookup_cons_eq_ite] at h
      split at h
      · cases h
      · rename_i hne
        rcases mem_cons.mp hmem with heq | hmem
        · cases heq
          exact absurd rfl hne
        · exact ih hmem (fun b' hb' => hfun b' (mem_cons_of_mem _ hb')) h
  | some b' => rw [hfun b' (mem_of_lookup_eq_some h)]

theorem isSome_lookup_iff {a : α} {l : List (α × β)} : (l.lookup a).isSome ↔ a ∈ l.map Prod.fst := by
  rw [lookup_isSome_iff, mem_map]
  constructor
  · rintro ⟨p, hp, ha⟩
    exact ⟨p, hp, (beq_iff_eq.mp ha).symm⟩
  · rintro ⟨p, hp, rfl⟩
    exact ⟨p, hp, beq_self_eq_true _⟩

/-- In a list whose keys are all different, the key of an entry looks up its value. -/
theorem lookup_eq_some_of_nodup {a : α} {b : β} {l : List (α × β)}
    (hnodup : (l.map Prod.fst).Nodup) (hmem : (a, b) ∈ l) : l.lookup a = some b :=
  lookup_eq_some_of_functional hmem fun _ hb' =>
    (Prod.mk.inj (inj_on_of_nodup_map hnodup hb' hmem rfl)).2

end List

namespace AList

variable {α : Type} {β : α → Type} [DecidableEq α]

/-- After a list of inserts, a key's lookup is the value of its last insert, else what it was. -/
theorem lookup_foldl_insert {γ : Type} (inserts : List (α × γ)) (m : AList fun _ : α => γ)
    (a : α) :
    (inserts.foldl (fun m p => m.insert p.1 p.2) m).lookup a =
      (inserts.reverse.lookup a).or (m.lookup a) := by
  induction inserts generalizing m with
  | nil => simp
  | cons entry inserts ih =>
    obtain ⟨key, value⟩ := entry
    rw [List.foldl_cons, ih, List.reverse_cons]
    by_cases ha : a = key
    · subst ha
      cases h : inserts.reverse.lookup a <;> simp [List.lookup_append, h]
    · rw [lookup_insert_ne ha, List.lookup_append, List.lookup_cons_eq_ite, if_neg ha]
      cases inserts.reverse.lookup a <;> simp

/-- An entry of a map is a key with the value its lookup gives. -/
theorem exists_mem_entries_iff {γ : Type} {m : AList fun _ : α => γ} {Q : (_ : α) × γ → Prop} :
    (∃ e ∈ m.entries, Q e) ↔ ∃ a b, m.lookup a = some b ∧ Q ⟨a, b⟩ := by
  constructor
  · rintro ⟨⟨a, b⟩, he, hq⟩
    exact ⟨a, b, mem_lookup_iff.mpr he, hq⟩
  · rintro ⟨a, b, hb, hq⟩
    exact ⟨⟨a, b⟩, mem_lookup_iff.mp hb, hq⟩

theorem eq_empty_iff (m : AList β) : m = ∅ ↔ ∀ a, m.lookup a = none := by
  constructor
  · rintro rfl a
    rfl
  · intro h
    apply ext
    cases hm : m.entries with
    | nil => rfl
    | cons s l =>
      have : m.lookup s.1 = some s.2 := by
        rw [← Option.mem_def, mem_lookup_iff, hm]
        exact List.mem_cons_self ..
      simp [h] at this

theorem entries_isEmpty_iff (m : AList β) : m.entries.isEmpty ↔ ∀ a, m.lookup a = none := by
  rw [← eq_empty_iff]
  constructor
  · intro h
    exact ext (List.isEmpty_iff.mp h)
  · rintro rfl
    rfl

end AList
