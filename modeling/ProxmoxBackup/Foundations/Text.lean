import Mathlib

/-!
# Lines and fields of text

Configuration files of the repository are lines of fields: `str::lines` cuts the text, and
`str::split(c)` cuts a line at a separator. Both are modelled on the characters of the text,
`str::split` as `List.splitOn`.

* `List.not_mem_of_mem_splitOn`: no piece holds the separator; `List.splitOn_intercalate`
  (Mathlib) reads joined pieces back, and `List.flatMap_cons_eq_intercalate` writes pieces each
  after a separator as joined ones.
* `Text.lines_flatten`: the lines of a text written one line after another, each followed by `\n`,
  are those lines, when none holds a `\n` or ends with `\r`.
-/

namespace List

variable {α : Type}

theorem flatten_map_append_singleton (c : α) (ls : List (List α)) :
    (ls.map (· ++ [c])).flatten = [c].intercalate (ls ++ [[]]) := by
  induction ls with
  | nil => rfl
  | cons l ls ih =>
    obtain ⟨x, xs, hx⟩ := exists_cons_of_ne_nil (show ls ++ [[]] ≠ [] by simp)
    rw [map_cons, flatten_cons, ih, cons_append, hx, intercalate_cons_cons]

theorem intercalate_cons_eq_append_intercalate_nil (sep l : List α) (ls : List (List α)) :
    sep.intercalate (l :: ls) = l ++ sep.intercalate ([] :: ls) := by
  cases ls with
  | nil => simp
  | cons l' ls => simp [intercalate_cons_cons]

theorem mem_of_mem_intercalate {sep : List α} {ls : List (List α)} {c : α}
    (h : c ∈ sep.intercalate ls) : c ∈ sep ∨ ∃ l ∈ ls, c ∈ l := by
  induction ls with
  | nil => simp at h
  | cons l ls ih =>
    rw [intercalate_cons_eq_append_intercalate_nil, mem_append] at h
    rcases h with h | h
    · exact .inr ⟨l, mem_cons_self .., h⟩
    · cases ls with
      | nil => simp at h
      | cons l' ls =>
        rw [intercalate_cons_cons, nil_append, mem_append] at h
        rcases h with h | h
        · exact .inl h
        · rcases ih h with h | ⟨l'', hl'', h⟩
          · exact .inl h
          · exact .inr ⟨l'', mem_cons_of_mem _ hl'', h⟩

theorem mem_intercalate_of_mem {sep : List α} {ls : List (List α)} {l : List α} (hl : l ∈ ls)
    {c : α} (hc : c ∈ l) : c ∈ sep.intercalate ls := by
  induction ls with
  | nil => simp at hl
  | cons l' ls ih =>
    rw [intercalate_cons_eq_append_intercalate_nil, mem_append]
    rcases mem_cons.mp hl with rfl | hl
    · exact .inl hc
    · cases ls with
      | nil => simp at hl
      | cons l'' ls =>
        rw [intercalate_cons_cons, nil_append, mem_append]
        exact .inr (.inr (ih hl))

/-- Items each written after a separator are the items joined by it, after an empty first
one. -/
theorem flatMap_cons_eq_intercalate (sep : α) (ls : List (List α)) :
    ls.flatMap (sep :: ·) = [sep].intercalate ([] :: ls) := by
  induction ls with
  | nil => rfl
  | cons l ls ih =>
    rw [flatMap_cons, ih, intercalate_cons_cons, intercalate_cons_eq_append_intercalate_nil [sep] l]
    simp

/-- A fold over numbered items that reads only the items is the fold over the items. -/
theorem foldl_zipIdx_fst {σ : Type} (f : σ → α → σ) (l : List α) (k : Nat) (s : σ) :
    (l.zipIdx k).foldl (fun s entry => f s entry.1) s = l.foldl f s := by
  induction l generalizing k s with
  | nil => rfl
  | cons a l ih => exact ih (k + 1) (f s a)

variable [BEq α] [LawfulBEq α]

theorem not_mem_of_mem_splitOn {c : α} {l piece : List α} (h : piece ∈ l.splitOn c) :
    c ∉ piece := by
  induction l generalizing piece with
  | nil =>
    rw [splitOn_nil, mem_singleton] at h
    simp [h]
  | cons x l ih =>
    rw [splitOn, splitOnP_cons_eq_if_modifyHead] at h
    split at h
    · rcases mem_cons.mp h with rfl | h
      · simp
      · exact ih h
    · rename_i hx
      obtain ⟨first, rest, hsplit⟩ := exists_cons_of_ne_nil (splitOnP_ne_nil (· == c) l)
      rw [hsplit, modifyHead_cons, mem_cons] at h
      have hfirst : first ∈ l.splitOn c := by
        rw [splitOn, hsplit]
        exact mem_cons_self ..
      rcases h with rfl | h
      · have hxc : x ≠ c := by simpa using hx
        simp [hxc.symm, ih hfirst]
      · exact ih (by rw [splitOn, hsplit]; exact mem_cons_of_mem _ h)

/-- The items of a piece are items of the list it was cut from. -/
theorem mem_of_mem_splitOn {c : α} {l piece : List α} (h : piece ∈ l.splitOn c) {x : α}
    (hx : x ∈ piece) : x ∈ l := by
  have hjoin : [c].intercalate (l.splitOn c) = l := intercalate_splitOn c
  rw [← hjoin]
  exact mem_intercalate_of_mem h hx

end List

namespace Text

/-- A `\r` that ends a line read by `str::lines` is dropped with the `\n` after it. -/
def stripCarriageReturn (line : List Char) : List Char :=
  if line.getLast? = some '\r' then line.dropLast else line

/-- `str::lines` on the characters of a string: the pieces between `\n`s, each without a `\r`
that ends it, and no empty piece after a final `\n`; a last piece without `\n` keeps its `\r`. -/
def lines (text : List Char) : List (List Char) :=
  let pieces := text.splitOn '\n'
  pieces.dropLast.map stripCarriageReturn ++
    (if pieces.getLast?.getD [] = [] then [] else [pieces.getLast?.getD []])

theorem lines_flatten {ls : List (List Char)} (hnl : ∀ l ∈ ls, '\n' ∉ l)
    (hcr : ∀ l ∈ ls, l.getLast? ≠ some '\r') :
    lines (ls.map (· ++ ['\n'])).flatten = ls := by
  have hsplit : (ls.map (· ++ ['\n'])).flatten.splitOn '\n' = ls ++ [[]] := by
    rw [List.flatten_map_append_singleton]
    apply List.splitOn_intercalate
    · intro l hl
      rcases List.mem_append.mp hl with hl | hl
      · exact hnl l hl
      · simp_all
    · simp
  have hstrip : ls.map stripCarriageReturn = ls := by
    refine (List.map_congr_left fun l hl => ?_).trans (List.map_id ls)
    simp [stripCarriageReturn, hcr l hl]
  simp [lines, hsplit, hstrip]

end Text
