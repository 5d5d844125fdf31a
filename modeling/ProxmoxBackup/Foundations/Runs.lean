import Mathlib

/-!
# Runs of a request handler

A service that handles one request at a time is a step function: from a state and a request it
computes the next state and the request's outcome. A run is the state after a list of requests,
handled one after the other; a property of every run holds whatever requests a client sends, in
whatever order.

Properties of runs take two shapes here:
* an invariant of the requests made so far together with the state they reached, kept by every
  step (`run_history_induction`);
* a fact about an earlier request: `Occurred step s hist P` says that some request of `hist` was
  made in a state with property `P` (the state after the requests before it). It stays true as
  the history grows (`Occurred.append`), which is how "when it was made" is said of a state
  reached later.

A state that no request changes is never left again (`run_of_fixed`).
-/

namespace Runs

variable {σ ι ο : Type} (step : σ → ι → σ × ο)

/-- The state after the requests `reqs`, handled one after the other from `s`. -/
def run (s : σ) (reqs : List ι) : σ :=
  reqs.foldl (fun s i => (step s i).1) s

@[simp] theorem run_nil (s : σ) : run step s [] = s := rfl

@[simp] theorem run_cons (s : σ) (i : ι) (reqs : List ι) :
    run step s (i :: reqs) = run step (step s i).1 reqs := rfl

theorem run_append (s : σ) (reqs reqs' : List ι) :
    run step s (reqs ++ reqs') = run step (run step s reqs) reqs' :=
  List.foldl_append

@[simp] theorem run_concat (s : σ) (reqs : List ι) (i : ι) :
    run step s (reqs ++ [i]) = (step (run step s reqs) i).1 := by
  rw [run_append, run_cons, run_nil]

/-- Whether every request of `reqs` succeeds, each in the state the ones before it reached. -/
def allOk (ok : ο → Bool) (s : σ) : List ι → Bool
  | [] => true
  | i :: reqs => ok (step s i).2 && allOk ok (step s i).1 reqs

/-- An invariant of the requests made so far and the state they reached: it holds before any
request, and each request keeps it. -/
theorem run_history_induction {s : σ} (I : List ι → σ → Prop) (h0 : I [] s)
    (hstep : ∀ hist i, I hist (run step s hist) → I (hist ++ [i]) (step (run step s hist) i).1)
    (reqs : List ι) : I reqs (run step s reqs) := by
  induction reqs using List.reverseRecOn with
  | nil => exact h0
  | append_singleton reqs i ih =>
    rw [run_concat]
    exact hstep reqs i ih

/-- A state that no request changes is never left. -/
theorem run_of_fixed {s : σ} (h : ∀ i, (step s i).1 = s) (reqs : List ι) : run step s reqs = s := by
  induction reqs with
  | nil => rfl
  | cons i reqs ih => rw [run_cons, h i, ih]

/-- Some request of `hist` was made in a state where `P` held of it and of the request: the state
after the requests before it. -/
def Occurred (s : σ) (hist : List ι) (P : σ → ι → Prop) : Prop :=
  ∃ pre i post, hist = pre ++ i :: post ∧ P (run step s pre) i

variable {step} {s : σ} {hist : List ι} {P : σ → ι → Prop}

theorem Occurred.append (h : Occurred step s hist P) (i : ι) : Occurred step s (hist ++ [i]) P := by
  obtain ⟨pre, j, post, rfl, hP⟩ := h
  exact ⟨pre, j, post ++ [i], by simp, hP⟩

/-- The request just made occurred in the state the history reached. -/
theorem occurred_concat {i : ι} (h : P (run step s hist) i) : Occurred step s (hist ++ [i]) P :=
  ⟨hist, i, [], rfl, h⟩

/-- The request that occurred is one of the history's, made in some state. -/
theorem Occurred.exists_mem (h : Occurred step s hist P) : ∃ i ∈ hist, ∃ s', P s' i := by
  obtain ⟨pre, i, post, rfl, hP⟩ := h
  exact ⟨i, by simp, _, hP⟩

end Runs
