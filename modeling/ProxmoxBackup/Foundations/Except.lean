import Mathlib

/-!
# Peeling `Except` computations

The fallible code of the repository returns `Result<T, Error>`, modelled as `Except ε α` and
written with `do` blocks. Proofs about such a block never unfold `bind`: a successful run is
taken apart with `bind_eq_ok` (which value the first computation produced), and a run whose
first computation is known is advanced with `ok_bind`.
-/

namespace Except

universe u v

variable {ε : Type u} {α β : Type v}

@[simp] theorem ok_bind (a : α) (f : α → Except ε β) : (Except.ok a >>= f) = f a := rfl

@[simp] theorem error_bind (e : ε) (f : α → Except ε β) : (Except.error e >>= f) = .error e := rfl

@[simp] theorem pure_eq_ok (a : α) : (pure a : Except ε α) = .ok a := rfl

@[simp] theorem throw_eq_error (e : ε) : (throw e : Except ε α) = .error e := rfl

@[simp] theorem map_ok_eq (f : α → β) (a : α) : Except.map f (.ok a : Except ε α) = .ok (f a) :=
  rfl

@[simp] theorem map_error_eq (f : α → β) (e : ε) :
    Except.map f (.error e : Except ε α) = .error e := rfl

/-- A successful bind is a successful first computation followed by a successful second one. -/
theorem bind_eq_ok {x : Except ε α} {f : α → Except ε β} {b : β} :
    (x >>= f) = .ok b ↔ ∃ a, x = .ok a ∧ f a = .ok b := by
  cases x with
  | error e => simp
  | ok a => simp

/-- A successful map is a successful computation whose value is mapped. -/
theorem map_eq_ok {f : α → β} {x : Except ε α} {b : β} :
    x.map f = .ok b ↔ ∃ a, x = .ok a ∧ f a = b := by
  cases x with
  | error e => simp
  | ok a => simp

/-- A fold whose every step succeeds, whatever the state, is the fold of the results. -/
theorem foldlM_eq_ok {σ : Type} {l : List α} {f : σ → α → Except ε σ} {g : σ → α → σ}
    (h : ∀ s, ∀ x ∈ l, f s x = .ok (g s x)) (s : σ) : l.foldlM f s = .ok (l.foldl g s) := by
  induction l generalizing s with
  | nil => rfl
  | cons x l ih =>
    rw [List.foldlM_cons, h s x (List.mem_cons_self ..), ok_bind, List.foldl_cons]
    exact ih (fun s y hy => h s y (List.mem_cons_of_mem _ hy)) _

/-- `if cond { bail!(msg) }`. -/
def bailIf (cond : Bool) (msg : ε) : Except ε Unit := if cond then .error msg else .ok ()

@[simp] theorem bailIf_eq_ok {cond : Bool} {msg : ε} {u : Unit} :
    bailIf cond msg = .ok u ↔ cond = false := by
  cases cond <;> simp [bailIf]

/-- A stream of results (a list of them) holds no `Err` exactly when it is a stream of `Ok`
values. -/
theorem exists_eq_map_ok_iff {items : List (Except ε α)} :
    (∃ xs : List α, items = xs.map .ok) ↔ ∀ e, .error e ∉ items := by
  induction items with
  | nil => simp
  | cons x items ih =>
    cases x with
    | error e =>
      refine iff_of_false ?_ fun h => h e List.mem_cons_self
      rintro ⟨xs, hxs⟩
      cases xs <;> simp at hxs
    | ok a =>
      constructor
      · rintro ⟨xs, hxs⟩ e he
        obtain ⟨b, xs, rfl, -, rfl⟩ := List.map_eq_cons_iff.mp hxs.symm
        simp at he
      · intro h
        obtain ⟨xs, rfl⟩ := ih.mpr fun e he => h e (List.mem_cons_of_mem _ he)
        exact ⟨a :: xs, rfl⟩

end Except

/-! A computation that can fail and can also abort (a panic) is an `ExceptT ε Option`; its `do`
blocks lift `Except` and `Option` computations into it. -/

namespace ExceptT

variable {ε α : Type}

@[simp] theorem run_liftM_except (x : Except ε α) : (liftM x : ExceptT ε Option α).run = some x :=
  rfl

@[simp] theorem run_liftM_option (x : Option α) :
    (liftM x : ExceptT ε Option α).run = x.map .ok := by
  cases x <;> rfl

@[simp] theorem liftM_ok_bind {β : Type} (a : α) (f : α → ExceptT ε Option β) :
    ((liftM (Except.ok a : Except ε α) : ExceptT ε Option α) >>= f) = f a := rfl

@[simp] theorem liftM_some_bind {β : Type} (a : α) (f : α → ExceptT ε Option β) :
    ((liftM (some a) : ExceptT ε Option α) >>= f) = f a := rfl

@[simp] theorem run_liftM_error_bind {β : Type} (e : ε) (f : α → ExceptT ε Option β) :
    ((liftM (Except.error e : Except ε α) : ExceptT ε Option α) >>= f).run = some (.error e) := rfl

@[simp] theorem run_liftM_none_bind {β : Type} (f : α → ExceptT ε Option β) :
    ((liftM (none : Option α) : ExceptT ε Option α) >>= f).run = none := rfl

/-- A lifted `Option` step that did not panic produced a value, and the rest ran from it. -/
theorem run_liftM_bind_eq_some {β : Type} {o : Option α} {f : α → ExceptT ε Option β}
    {r : Except ε β} :
    ((liftM o : ExceptT ε Option α) >>= f).run = some r ↔ ∃ a, o = some a ∧ (f a).run = some r := by
  cases o <;> simp [ExceptT.run_bind]

/-- A computation that aborts makes the whole bind abort. -/
theorem run_bind_of_none {β : Type} {x : ExceptT ε Option α} (hx : x.run = none)
    (f : α → ExceptT ε Option β) : (x >>= f).run = none := by
  rw [ExceptT.run_bind, hx]
  rfl

end ExceptT

/-! A `&mut self` method that returns a `Result` is an `EStateM` computation: an error keeps the
state the method had reached. Core's `EStateM.run_throw` is stated for `PUnit` only. -/

namespace EStateM

@[simp] theorem run_throw_error {ε σ α : Type} (e : ε) (s : σ) :
    (throw e : EStateM ε σ α).run s = .error e s := rfl

end EStateM
