import Mathlib

/-!
# Reading a stream in pieces

The read loops of `std::io::Read` and of `proxmox_io::ReadExt` over any reader, and what they
return from a reader that *streams* a list (`Streams`): every read returns the next part of what
is left, of at most the length asked for, and a nonempty part when something is left and a
positive length is asked for. Such a reader may return less than asked for (a block reader stops
at the end of its block), but the loops do not see the difference:

* `fill_eq`: reading until `need` items are read or a read returns nothing returns the next
  `need` items, or all that is left;
* `readExactOrEof_eq`, `readExact_eq`: `read_exact_or_eof` and `read_exact` return the next `len`
  items when there are that many, `None` (resp. an error) at the end, and an unexpected-EOF
  error when fewer are left.

A list read as a slice (`Read for &[u8]`) streams itself (`streams_sliceRead`), so on it the two
loops take the next items (`readExact_sliceRead`, `readExactOrEof_sliceRead`).
-/

namespace ByteRead

/-- The kinds of `std::io::Error` that callers of a reader tell apart. -/
inductive IoError where
  | unexpectedEof
  | other (msg : String)
  deriving DecidableEq, Repr

variable {σ α : Type} (read : σ → Nat → Except IoError (σ × List α))

/-- The loop of `read_exact` and `read_exact_or_eof`: read until `need` items are read or a read
returns nothing. -/
def fill (s : σ) (need : Nat) : Except IoError (σ × List α) :=
  match read s need with
  | .error e => .error e
  | .ok (s, out) =>
    if _h : out.length = 0 ∨ need ≤ out.length then .ok (s, out)
    else
      match fill s (need - out.length) with
      | .error e => .error e
      | .ok (s, more) => .ok (s, out ++ more)
termination_by need
decreasing_by omega

/-- `ReadExt::read_exact_or_eof` of `proxmox_io`: `None` when the first read returns nothing, the
`len` items read, or an unexpected-EOF error when a later read returns nothing. -/
def readExactOrEof (s : σ) (len : Nat) : Except IoError (σ × Option (List α)) :=
  match fill read s len with
  | .error e => .error e
  | .ok (s, data) =>
    if data.isEmpty then .ok (s, none)
    else if data.length = len then .ok (s, some data)
    else .error .unexpectedEof

/-- `Read::read_exact`, and `ReadExt::read_exact_allocated`: nothing is read for length `0`. -/
def readExact (s : σ) (len : Nat) : Except IoError (σ × List α) :=
  if len = 0 then .ok (s, [])
  else
    match fill read s len with
    | .error e => .error e
    | .ok (s, data) => if data.length = len then .ok (s, data) else .error .unexpectedEof

/-- `Read for &[u8]`: a read takes what is asked for, or what is left. -/
def sliceRead (rest : List α) (len : Nat) : Except IoError (List α × List α) :=
  .ok (rest.drop len, rest.take len)

/-- A reader streams what `left` says is left in each state: every read succeeds and returns the
next `n` items, at most as many as asked for and at least one when something is left and a
positive length is asked for, and the rest is then left. -/
def Streams (left : σ → List α → Prop) : Prop :=
  ∀ s rest len, left s rest → ∃ s' n, read s len = .ok (s', rest.take n) ∧ n ≤ len ∧
    (0 < len → rest ≠ [] → 0 < n) ∧ left s' (rest.drop n)

theorem streams_sliceRead : Streams (sliceRead (α := α)) fun s rest => s = rest := by
  rintro s rest len rfl
  refine ⟨s.drop len, len, rfl, Nat.le_refl _, fun h _ => h, rfl⟩

variable {read} {left : σ → List α → Prop}

theorem fill_eq_of_read {s s' : σ} {need : Nat} {out : List α} (h : read s need = .ok (s', out))
    (hdone : out.length = 0 ∨ need ≤ out.length) : fill read s need = .ok (s', out) := by
  rw [fill, h]
  dsimp only
  rw [dif_pos hdone]

theorem fill_eq_of_read_cont {s s' : σ} {need : Nat} {out : List α} (h : read s need = .ok (s', out))
    (hmore : ¬(out.length = 0 ∨ need ≤ out.length)) :
    fill read s need = match fill read s' (need - out.length) with
      | .error e => .error e
      | .ok (s, more) => .ok (s, out ++ more) := by
  rw [fill, h]
  dsimp only
  rw [dif_neg hmore]

/-- A reader that returns the next `n` items returns the next `min n rest.length` of them. -/
theorem take_drop_min_length (rest : List α) (n : Nat) :
    rest.take n = rest.take (min n rest.length) ∧ rest.drop n = rest.drop (min n rest.length) := by
  rcases Nat.le_total n rest.length with hle | hle
  · rw [Nat.min_eq_left hle]
    exact ⟨rfl, rfl⟩
  · rw [Nat.min_eq_right hle, List.take_of_length_le hle, List.take_length, List.drop_of_length_le hle,
      List.drop_length]
    exact ⟨rfl, rfl⟩

/-- From a streaming reader, the loop returns the next `need` items, or all that is left. -/
theorem fill_eq (hs : Streams read left) :
    ∀ (need : Nat) (s : σ) (rest : List α), left s rest →
      ∃ s', fill read s need = .ok (s', rest.take need) ∧ left s' (rest.drop need) := by
  intro need
  induction need using Nat.strongRecOn with
  | ind need ih =>
    intro s rest hleft
    obtain ⟨s₁, n, hread, hn, hpos, hleft₁⟩ := hs s rest need hleft
    -- the read returned the next `m` items
    obtain ⟨htake, hdrop⟩ := take_drop_min_length rest n
    have hlen : (rest.take n).length = min n rest.length := List.length_take
    set m := min n rest.length with hm
    rw [htake] at hread
    rw [hdrop] at hleft₁
    by_cases hdone : (rest.take m).length = 0 ∨ need ≤ (rest.take m).length
    · -- it returned nothing, so nothing is left or nothing was asked for, or it returned all
      have hcases : m = need ∨ rest = [] := by
        rw [← htake, hlen] at hdone
        by_cases hnil : rest = []
        · exact Or.inr hnil
        · have hrest : 0 < rest.length := List.length_pos_iff.2 hnil
          rcases Nat.eq_zero_or_pos need with hneed | hneed
          · omega
          · have := hpos hneed hnil
            omega
      have hsame : rest.take m = rest.take need ∧ rest.drop m = rest.drop need := by
        rcases hcases with hmn | rfl
        · rw [hmn]
          exact ⟨rfl, rfl⟩
        · simp
      refine ⟨s₁, ?_, hsame.2 ▸ hleft₁⟩
      rw [fill_eq_of_read hread hdone, hsame.1]
    · -- it returned part of what was asked for; the loop reads the rest of it
      have hm' : (rest.take m).length = m := by
        rw [← htake, hlen]
      rw [hm'] at hdone
      obtain ⟨s', hfill, hleft'⟩ := ih (need - m) (by omega) s₁ (rest.drop m) hleft₁
      refine ⟨s', ?_, ?_⟩
      · rw [fill_eq_of_read_cont hread (by rwa [hm']), hm', hfill]
        dsimp only
        rw [← List.take_add, Nat.add_sub_cancel' (by omega)]
      · rwa [List.drop_drop, Nat.add_sub_cancel' (by omega)] at hleft'

/-- From a streaming reader, `read_exact_or_eof` returns `None` at the end, the next `len` items
when there are that many, and an unexpected-EOF error when fewer are left. -/
theorem readExactOrEof_eq (hs : Streams read left) {s : σ} {rest : List α} (hleft : left s rest)
    {len : Nat} (hlen : 0 < len) :
    (rest = [] ∧ ∃ s', readExactOrEof read s len = .ok (s', none) ∧ left s' []) ∨
      (len ≤ rest.length ∧ ∃ s', readExactOrEof read s len = .ok (s', some (rest.take len)) ∧
        left s' (rest.drop len)) ∨
      (rest ≠ [] ∧ rest.length < len ∧ readExactOrEof read s len = .error .unexpectedEof) := by
  obtain ⟨s', hfill, hleft'⟩ := fill_eq hs len s rest hleft
  unfold readExactOrEof
  rw [hfill]
  by_cases hnil : rest = []
  · subst hnil
    exact Or.inl ⟨rfl, s', by simp, by simpa using hleft'⟩
  · have hne := hnil
    have hnonempty : (rest.take len).isEmpty = false := by
      cases rest with
      | nil => exact absurd rfl hne
      | cons x xs =>
        obtain ⟨k, rfl⟩ := Nat.exists_eq_succ_of_ne_zero (Nat.pos_iff_ne_zero.1 hlen)
        rfl
    by_cases hle : len ≤ rest.length
    · refine Or.inr (Or.inl ⟨hle, s', ?_, hleft'⟩)
      simp [hnonempty, List.length_take, Nat.min_eq_left hle]
    · refine Or.inr (Or.inr ⟨hne, by omega, ?_⟩)
      have : (rest.take len).length ≠ len := by
        simp only [List.length_take]
        omega
      simp only [hnonempty, Bool.false_eq_true, if_false]
      rw [if_neg this]

/-- From a streaming reader, `read_exact` returns the next `len` items when there are that many,
and an unexpected-EOF error when fewer are left. -/
theorem readExact_eq (hs : Streams read left) {s : σ} {rest : List α} (hleft : left s rest)
    (len : Nat) :
    (len ≤ rest.length ∧ ∃ s', readExact read s len = .ok (s', rest.take len) ∧
        left s' (rest.drop len)) ∨
      (rest.length < len ∧ readExact read s len = .error .unexpectedEof) := by
  unfold readExact
  by_cases hzero : len = 0
  · subst hzero
    exact Or.inl ⟨Nat.zero_le _, s, by simp, by simpa using hleft⟩
  · obtain ⟨s', hfill, hleft'⟩ := fill_eq hs len s rest hleft
    rw [if_neg hzero, hfill]
    by_cases hle : len ≤ rest.length
    · refine Or.inl ⟨hle, s', ?_, hleft'⟩
      simp [List.length_take, Nat.min_eq_left hle]
    · refine Or.inr ⟨by omega, ?_⟩
      have : (rest.take len).length ≠ len := by
        simp only [List.length_take]
        omega
      dsimp only
      rw [if_neg this]

/-- `read_exact` on a slice: the next `len` items, or an unexpected end when fewer are left. -/
theorem readExact_sliceRead (rest : List α) (len : Nat) :
    readExact sliceRead rest len =
      if len ≤ rest.length then .ok (rest.drop len, rest.take len) else .error .unexpectedEof := by
  rcases readExact_eq streams_sliceRead (rfl : rest = rest) len with
    ⟨hle, s', hread, rfl⟩ | ⟨hlt, hread⟩
  · rw [hread, if_pos hle]
  · rw [hread, if_neg (Nat.not_le.2 hlt)]

/-- `read_exact_or_eof` on a slice: `None` at its end, else the next `len` items, or an unexpected
end when fewer are left. -/
theorem readExactOrEof_sliceRead (rest : List α) {len : Nat} (hlen : 0 < len) :
    readExactOrEof sliceRead rest len =
      if rest = [] then .ok ([], none)
      else if len ≤ rest.length then .ok (rest.drop len, some (rest.take len))
      else .error .unexpectedEof := by
  rcases readExactOrEof_eq streams_sliceRead (rfl : rest = rest) hlen with
    ⟨rfl, s', hread, rfl⟩ | ⟨hle, s', hread, rfl⟩ | ⟨hne, hlt, hread⟩
  · rw [hread, if_pos rfl]
  · have hne : rest ≠ [] := by
      rintro rfl
      simp at hle
      omega
    rw [hread, if_neg hne, if_pos hle]
  · rw [hread, if_neg hne, if_neg (Nat.not_le.2 hlt)]

/-- A read of `read_exact_or_eof` that returned items took at least one from the slice. -/
theorem length_lt_of_readExactOrEof_sliceRead {rest rest' items : List α} {len : Nat} (hlen : 0 < len)
    (h : readExactOrEof sliceRead rest len = .ok (rest', some items)) : rest'.length < rest.length := by
  rw [readExactOrEof_sliceRead rest hlen] at h
  split_ifs at h with hnil hle
  · cases h
  · cases h
    have hpos : 0 < rest.length := List.length_pos_iff.2 hnil
    simp only [List.length_drop]
    omega

end ByteRead
