import Mathlib

/-!
# Scanning for a greatest key

A scan over a list that keeps the first candidate with the greatest key: each element may offer a
candidate with a key, and an offer replaces the kept candidate only when its key is strictly
greater. From an empty start the result is `none` exactly when no element offers anything
(`foldl_step_eq_none`); otherwise it is one of the offers, and its key is at least the key of every
offer (`foldl_step_spec`).
-/

namespace Greatest

variable {α β : Type} (offer : α → Option (β × Nat))

/-- One element of the scan: its offer is kept when nothing is kept yet, or when its key is
strictly greater than the kept one's. -/
def step (acc : Option (β × Nat)) (x : α) : Option (β × Nat) :=
  match offer x with
  | none => acc
  | some c =>
    match acc with
    | none => some c
    | some b => if b.2 < c.2 then some c else acc

variable {offer}

theorem step_of_none {acc : Option (β × Nat)} {x : α} (h : offer x = none) : step offer acc x = acc := by
  simp [step, h]

theorem step_ne_none {acc : Option (β × Nat)} {x : α} {c : β × Nat} (h : offer x = some c) :
    step offer acc x ≠ none := by
  cases acc with
  | none => simp [step, h]
  | some b =>
    simp only [step, h]
    split <;> simp

theorem step_some_ne_none {a : β × Nat} {x : α} : step offer (some a) x ≠ none := by
  cases hx : offer x with
  | none => simp [step, hx]
  | some c => exact step_ne_none hx

/-- What one element leaves: the kept candidate or the element's offer, with a key at least both. -/
theorem step_eq_some {acc : Option (β × Nat)} {x : α} {b : β × Nat} (h : step offer acc x = some b) :
    (acc = some b ∨ offer x = some b) ∧ (∀ a, acc = some a → a.2 ≤ b.2) ∧
      ∀ c, offer x = some c → c.2 ≤ b.2 := by
  unfold step at h
  cases hx : offer x with
  | none =>
    rw [hx] at h
    subst h
    simp
  | some c =>
    rw [hx] at h
    cases acc with
    | none =>
      cases h
      simp
    | some a =>
      dsimp only at h
      split at h
      · cases h
        refine ⟨Or.inr rfl, ?_, by simp⟩
        rintro a' ⟨⟩
        omega
      · cases h
        refine ⟨Or.inl rfl, by simp, ?_⟩
        rintro c' ⟨⟩
        omega

/-- The scan keeps nothing exactly when it started with nothing and no element offers anything. -/
theorem foldl_step_eq_none {l : List α} {acc : Option (β × Nat)} :
    l.foldl (step offer) acc = none ↔ acc = none ∧ ∀ x ∈ l, offer x = none := by
  induction l generalizing acc with
  | nil => simp
  | cons x l ih =>
    rw [List.foldl_cons, ih]
    constructor
    · rintro ⟨hacc, hl⟩
      cases hx : offer x with
      | none =>
        rw [step_of_none hx] at hacc
        exact ⟨hacc, List.forall_mem_cons.2 ⟨hx, hl⟩⟩
      | some c => exact absurd hacc (step_ne_none hx)
    · rintro ⟨rfl, hl⟩
      exact ⟨step_of_none (hl x List.mem_cons_self), fun y hy => hl y (List.mem_cons_of_mem _ hy)⟩

/-- The candidate a scan keeps is the start or an offer of the list, and its key is at least the
start's and every offer's. -/
theorem foldl_step_spec {l : List α} {acc : Option (β × Nat)} {b : β × Nat}
    (h : l.foldl (step offer) acc = some b) :
    (acc = some b ∨ ∃ x ∈ l, offer x = some b) ∧ (∀ a, acc = some a → a.2 ≤ b.2) ∧
      ∀ x ∈ l, ∀ c, offer x = some c → c.2 ≤ b.2 := by
  induction l generalizing acc with
  | nil =>
    cases h
    simp
  | cons x l ih =>
    obtain ⟨hmem, hacc, hl⟩ := ih h
    -- the candidate kept after `x` is itself bounded by `b`, and so are the start and `x`'s offer
    refine ⟨?_, ?_, ?_⟩
    · rcases hmem with hmem | ⟨y, hy, hoffer⟩
      · rcases (step_eq_some hmem).1 with hstart | hx
        · exact Or.inl hstart
        · exact Or.inr ⟨x, List.mem_cons_self, hx⟩
      · exact Or.inr ⟨y, List.mem_cons_of_mem _ hy, hoffer⟩
    · intro a ha
      cases hstep : step offer acc x with
      | none =>
        cases ha
        exact absurd hstep step_some_ne_none
      | some a' => exact Nat.le_trans ((step_eq_some hstep).2.1 a ha) (hacc a' hstep)
    · intro y hy c hc
      rcases List.mem_cons.1 hy with rfl | hy
      · cases hstep : step offer acc y with
        | none => exact absurd hstep (step_ne_none hc)
        | some a' => exact Nat.le_trans ((step_eq_some hstep).2.2 c hc) (hacc a' hstep)
      · exact hl y hy c hc

end Greatest
