import Mathlib.Data.List.Basic
import ProxmoxBackup.Foundations.LittleEndian

/-!
# Slices read as readers

A byte slice read through `read_exact` (and the `read_be_value` and `read_exact_allocated` built
on it) hands out its next items and keeps the rest (`readSlice`); a slice that is too short is the
error of `read_exact`. `&l[..len]` panics past the end of `l` (`sliceTo`, `none`), and
`chunks_exact(n)` cuts a slice into pieces of `n` items, drops a shorter rest, and panics for
`n = 0` (`chunksExact`). `str::trim_matches` is `trimMatches` on the characters of a string.
Big-endian numbers (`from_be_bytes`, `to_be_bytes`) are the little-endian ones read backwards.

* `readSlice_append`: reading from a slice that starts with given items returns them.
* `chunksOf_flatten_append`: the pieces of equal-length lists laid end to end, followed by fewer
  items than a piece, are those lists.
* `BigEndian.ofBytes_toBytes_of_lt`: the round trip of a number of `k` bytes.
-/

namespace Slice

variable {α : Type}

/-- The message of the error `read_exact` returns on a slice that is too short. -/
def unexpectedEof : String := "failed to fill whole buffer"

/-- `read_exact` of `n` items on a slice: the items and the rest of the slice. -/
def readSlice (n : Nat) (reader : List α) : Except String (List α × List α) :=
  if n ≤ reader.length then .ok (reader.take n, reader.drop n) else .error unexpectedEof

theorem readSlice_eq_ok {n : Nat} {reader xs rest : List α} :
    readSlice n reader = .ok (xs, rest) ↔ n ≤ reader.length ∧ xs = reader.take n ∧ rest = reader.drop n := by
  unfold readSlice
  split
  · simp [*, eq_comm]
  · simp only [reduceCtorEq, false_iff, not_and]
    omega

theorem length_of_readSlice_eq_ok {n : Nat} {reader xs rest : List α}
    (h : readSlice n reader = .ok (xs, rest)) : xs.length = n ∧ rest.length + n = reader.length := by
  obtain ⟨hn, rfl, rfl⟩ := readSlice_eq_ok.mp h
  simp only [List.length_take, List.length_drop]
  omega

theorem readSlice_append (xs rest : List α) : readSlice xs.length (xs ++ rest) = .ok (xs, rest) := by
  simp [readSlice]

/-- `&l[..len]`; `none` is its panic past the end of `l`. -/
def sliceTo (len : Nat) (l : List α) : Option (List α) :=
  if len ≤ l.length then some (l.take len) else none

/-- The pieces of `chunks_exact(n)` for a positive `n`. -/
def chunksOf (n : Nat) (hn : 0 < n) (l : List α) : List (List α) :=
  if n ≤ l.length then l.take n :: chunksOf n hn (l.drop n) else []
termination_by l.length
decreasing_by simp only [List.length_drop]; omega

/-- `slice::chunks_exact(n)`; `none` is its panic for `n = 0`. -/
def chunksExact (n : Nat) (l : List α) : Option (List (List α)) :=
  if hn : 0 < n then some (chunksOf n hn l) else none

theorem chunksOf_flatten_append {n : Nat} (hn : 0 < n) {xs : List (List α)} {rest : List α}
    (hxs : ∀ x ∈ xs, x.length = n) (hrest : rest.length < n) :
    chunksOf n hn (xs.flatten ++ rest) = xs := by
  induction xs with
  | nil =>
    rw [chunksOf, if_neg (by simpa using hrest)]
  | cons x xs ih =>
    have hx := hxs x List.mem_cons_self
    rw [chunksOf, if_pos (by simp; omega), List.flatten_cons, List.append_assoc,
      List.take_left' hx, List.drop_left' hx, ih fun y hy => hxs y (List.mem_cons_of_mem _ hy)]

/-- `str::trim_matches(p)` on the characters of a string: without the items `p` holds of, at
either end. -/
def trimMatches (p : α → Bool) (l : List α) : List α :=
  ((l.dropWhile p).reverse.dropWhile p).reverse

end Slice

namespace BigEndian

/-- `to_be_bytes`: the `k` low bytes of `n`, most significant first. -/
def toBytes (k n : Nat) : List UInt8 := (LittleEndian.toBytes k n).reverse

/-- `from_be_bytes`: the number whose bytes, most significant first, are `bytes`. -/
def ofBytes (bytes : List UInt8) : Nat := LittleEndian.ofBytes bytes.reverse

@[simp] theorem length_toBytes (k n : Nat) : (toBytes k n).length = k := by
  simp [toBytes]

theorem ofBytes_toBytes_of_lt {k n : Nat} (h : n < 256 ^ k) : ofBytes (toBytes k n) = n := by
  rw [ofBytes, toBytes, List.reverse_reverse, LittleEndian.ofBytes_toBytes_of_lt h]

end BigEndian
