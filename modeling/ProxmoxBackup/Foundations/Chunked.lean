import Mathlib

/-!
# Feeding a stream transformer in pieces

A stream transformer (a cipher context, a compressor) takes its input in calls of any size and
writes some output for each call. A buffered copy loop feeds it `data` in pieces of at most `n`
elements, so that each call's output fits a buffer of fixed size, and collects what it writes.

For a transformer that is `Additive` (two calls one after the other do what one call on the
concatenated input does) the loop does what a single call on all of the data does
(`feedLoop_eq_update`). Every piece the loop feeds is at most `n` long, so the loop over a
transformer that fails only on longer inputs is the loop over one that does not
(`feedLoop_congr`), and the loop over a transformer that never aborts never aborts
(`feedLoop_liftExcept`).
-/

namespace Chunked

variable {m : Type → Type} [Monad m] {σ α β : Type}

/-- Where the piece that starts at `start` stops: `n` further on, cut back to the end of the
data. -/
def pieceEnd (n : Nat) (data : List α) (start : Nat) : Nat :=
  if start + n > data.length then data.length else start + n

theorem pieceEnd_le_length (n : Nat) (data : List α) (start : Nat) :
    pieceEnd n data start ≤ data.length := by
  unfold pieceEnd
  split <;> omega

/-- Feed `data[start..]` to `update` in pieces `data[start..stop]` with `stop = pieceEnd`,
adding each call's output to `out`, until a piece would be empty. -/
def feedLoop (update : σ → List α → m (σ × List β)) (n : Nat) (data : List α) (start : Nat)
    (s : σ) (out : List β) : m (σ × List β) :=
  if _h : pieceEnd n data start > start then do
    let (s', o) ← update s (data.extract start (pieceEnd n data start))
    feedLoop update n data (pieceEnd n data start) s' (out ++ o)
  else pure (s, out)
termination_by data.length - start
decreasing_by
  have := pieceEnd_le_length n data start
  omega

/-- A transformer that takes its input in any pieces alike: the empty piece writes nothing, and
two pieces one after the other write what their concatenation writes. -/
structure Additive (update : σ → List α → m (σ × List β)) : Prop where
  nil : ∀ s, update s [] = pure (s, [])
  append : ∀ s a b, update s (a ++ b) = (do
    let (s₁, o₁) ← update s a
    let (s₂, o₂) ← update s₁ b
    pure (s₂, o₁ ++ o₂))

theorem drop_eq_extract_append {data : List α} {start stop : Nat} (h : start ≤ stop) :
    data.drop start = data.extract start stop ++ data.drop stop := by
  rw [List.extract_eq_take_drop]
  nth_rewrite 1 [← List.take_append_drop (stop - start) (data.drop start)]
  rw [List.drop_drop, Nat.add_sub_cancel' h]

section Lawful

variable [LawfulMonad m]

/-- The loop of an additive transformer is one call on the rest of the data. -/
theorem feedLoop_eq_update {update : σ → List α → m (σ × List β)} (hadd : Additive update)
    {n : Nat} (hn : 0 < n) (data : List α) (start : Nat) (s : σ) (out : List β) :
    feedLoop update n data start s out =
      (fun r => (r.1, out ++ r.2)) <$> update s (data.drop start) := by
  fun_induction feedLoop update n data start s out with
  | case1 start s out h ih =>
    -- the piece and the rest of the data are one call by additivity
    rw [drop_eq_extract_append (Nat.le_of_lt h), hadd.append, map_bind]
    refine bind_congr fun ⟨s', o⟩ => ?_
    dsimp only
    rw [ih, map_bind]
    simp
  | case2 start s out h =>
    have hend : data.length ≤ start := by
      unfold pieceEnd at h
      split at h <;> omega
    simp [List.drop_eq_nil_of_le hend, hadd.nil]

end Lawful

/-- The loop only ever calls the transformer on pieces of at most `n` elements. -/
theorem feedLoop_congr {update update' : σ → List α → m (σ × List β)} {n : Nat}
    (h : ∀ s piece, piece.length ≤ n → update s piece = update' s piece) (data : List α)
    (start : Nat) (s : σ) (out : List β) :
    feedLoop update n data start s out = feedLoop update' n data start s out := by
  fun_induction feedLoop update n data start s out with
  | case1 start s out hpos ih =>
    have hlen : (data.extract start (pieceEnd n data start)).length ≤ n := by
      simp only [List.extract_eq_take_drop, List.length_take, List.length_drop]
      unfold pieceEnd
      split <;> omega
    rw [feedLoop, dif_pos hpos, h _ _ hlen]
    exact bind_congr fun r => ih r.1 r.2
  | case2 start s out hpos =>
    rw [feedLoop, dif_neg hpos]

/-- The loop over an `Except` transformer, lifted to computations that may also abort, is the
lifted loop: it never aborts. -/
theorem feedLoop_liftExcept {ε : Type} (update : σ → List α → Except ε (σ × List β)) (n : Nat)
    (data : List α) (start : Nat) (s : σ) (out : List β) :
    feedLoop (m := ExceptT ε Option) (fun s a => ExceptT.mk (some (update s a))) n data start s
      out = ExceptT.mk (some (feedLoop update n data start s out)) := by
  fun_induction feedLoop update n data start s out with
  | case1 start s out hpos ih =>
    rw [feedLoop, dif_pos hpos]
    simp only [bind, ExceptT.bind, ExceptT.mk, Except.bind, Option.bind]
    rcases update s (data.extract start (pieceEnd n data start)) with e | ⟨s', o⟩
    · rfl
    · exact ih s' o
  | case2 start s out hpos =>
    rw [feedLoop, dif_neg hpos]
    rfl

end Chunked
