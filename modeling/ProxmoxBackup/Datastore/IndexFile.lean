import Mathlib

/-!
# The most used chunks of an index (`pbs-datastore/src/index.rs`)

`IndexFile::find_most_used_chunks` counts the digests of an index in a `HashMap`, then walks
the map and keeps the digests used more than once in a vector sorted by count, inserting each at
the position `binary_search_by_key` gives and popping the last element whenever the vector grows
beyond `max`. The order in which the map is walked is the `HashMap`'s; the model takes it as a
parameter.

* `findMostUsedChunks_spec`: in any order of the walk, at most `max` digests are returned, each
  with its exact number of uses, and each used more than once.
* `findMostUsedChunks_least_used`: the vector is sorted by increasing count, so `pop` drops the
  most used entry: every digest used more than once that is left out is used at least as often
  as every digest returned.
* `findMostUsedChunks_drops_most_used`: with `max = 1`, a digest used three times is left out
  for one used twice, in either order of the walk.
-/

namespace ProxmoxBackup.IndexFile

variable {D : Type} [DecidableEq D]

/-- The counting loop: `*map.entry(digest).or_insert(0) += 1` for the digest of every slot. -/
def countUses (index : List D) : AList (fun _ : D => Nat) :=
  index.foldl (fun map digest => map.insert digest ((map.lookup digest).getD 0 + 1)) ∅

/-- `binary_search_by_key(&count, |&(_digest, count)| count)` on a vector sorted by count, as an
insertion point: the first position whose count is not below `count`. That is the `Err`
position; on `Ok` it is one of the positions the search may return. -/
def insertPos (mostUsed : List (D × Nat)) (count : Nat) : Nat :=
  (mostUsed.takeWhile fun entry => entry.2 < count).length

/-- One round of the loop for a count above one: insert at the search position, then `pop` if
the vector has grown beyond `max`. -/
def insertEntry (max : Nat) (mostUsed : List (D × Nat)) (entry : D × Nat) : List (D × Nat) :=
  let mostUsed := mostUsed.insertIdx (insertPos mostUsed entry.2) entry
  if mostUsed.length > max then mostUsed.dropLast else mostUsed

/-- The selection loop over the counts, in the order the map is walked. -/
def selectLoop (max : Nat) : List (D × Nat) → List (D × Nat) → List (D × Nat)
  | mostUsed, [] => mostUsed
  | mostUsed, (digest, count) :: entries =>
    if count ≤ 1 then selectLoop max mostUsed entries
    else selectLoop max (insertEntry max mostUsed (digest, count)) entries

/-- `IndexFile::find_most_used_chunks` on the digests of the index's slots. `order` is the order
in which the `HashMap` of counts is walked; the result is the final map's entries. -/
def findMostUsedChunks (index : List D) (max : Nat)
    (order : List (D × Nat) → List (D × Nat)) : List (D × Nat) :=
  selectLoop max [] (order ((countUses index).entries.map fun entry => (entry.1, entry.2)))

/-! ## The counts -/

/-- Every digest of the index is counted with its number of uses, and no other. -/
theorem lookup_countUses (index : List D) (digest : D) :
    (countUses index).lookup digest = if digest ∈ index then some (index.count digest) else none := by
  unfold countUses
  -- the fold from a map that counts a prefix `pre`
  suffices h : ∀ (pre : List D) (map : AList (fun _ : D => Nat)),
      (∀ d, map.lookup d = if d ∈ pre then some (pre.count d) else none) →
      (index.foldl (fun map digest => map.insert digest ((map.lookup digest).getD 0 + 1)) map).lookup
        digest = if digest ∈ pre ++ index then some ((pre ++ index).count digest) else none by
    simpa using h [] ∅ (by simp)
  induction index with
  | nil =>
    intro pre map hmap
    simpa using hmap digest
  | cons d rest ih =>
    intro pre map hmap
    have := ih (pre ++ [d]) (map.insert d ((map.lookup d).getD 0 + 1)) (fun d' => ?_)
    · simpa using this
    · by_cases hd : d' = d
      · subst hd
        rw [AList.lookup_insert, hmap]
        by_cases hin : d' ∈ pre
        · simp [hin, List.count_append]
        · simp [hin, List.count_append, List.count_eq_zero.mpr hin]
      · rw [AList.lookup_insert_ne hd, hmap]
        simp [List.count_append, hd, List.count_eq_zero.mpr (show d' ∉ [d] by simpa using hd)]

theorem mem_countUses {index : List D} {entry : D × Nat}
    (h : entry ∈ (countUses index).entries.map fun e => (e.1, e.2)) :
    entry.2 = index.count entry.1 := by
  obtain ⟨e, he, rfl⟩ := List.mem_map.mp h
  have hlookup := (AList.mem_lookup_iff).mpr he
  rw [lookup_countUses] at hlookup
  split at hlookup
  · exact (Option.some.inj hlookup).symm
  · cases hlookup

/-! ## The selection loop -/

omit [DecidableEq D] in
theorem insertPos_le (mostUsed : List (D × Nat)) (count : Nat) :
    insertPos mostUsed count ≤ mostUsed.length :=
  (List.takeWhile_prefix _).length_le

omit [DecidableEq D] in
/-- The loop keeps at most `max` entries, each from the vector it started with or from the
counts walked, used more than once. -/
theorem selectLoop_spec (max : Nat) (entries : List (D × Nat)) :
    ∀ mostUsed : List (D × Nat), mostUsed.length ≤ max →
      (selectLoop max mostUsed entries).length ≤ max ∧
      ∀ x ∈ selectLoop max mostUsed entries, x ∈ mostUsed ∨ (x ∈ entries ∧ 1 < x.2) := by
  induction entries with
  | nil =>
    intro mostUsed hlen
    exact ⟨hlen, fun x hx => .inl hx⟩
  | cons entry entries ih =>
    intro mostUsed hlen
    obtain ⟨digest, count⟩ := entry
    unfold selectLoop
    split
    · obtain ⟨hlen', hmem⟩ := ih mostUsed hlen
      refine ⟨hlen', fun x hx => ?_⟩
      rcases hmem x hx with h | ⟨h, hcount⟩
      · exact .inl h
      · exact .inr ⟨List.mem_cons_of_mem _ h, hcount⟩
    · next hcount =>
      unfold insertEntry
      dsimp only
      -- the insertion grows the vector by one, the `pop` takes it back to `max`
      have hins : (mostUsed.insertIdx (insertPos mostUsed count) (digest, count)).length =
          mostUsed.length + 1 := List.length_insertIdx_of_le_length (insertPos_le _ _) _
      have hpopped : ∀ l : List (D × Nat), l.length = mostUsed.length + 1 →
          (if l.length > max then l.dropLast else l).length ≤ max := by
        intro l hl
        split
        · rw [List.length_dropLast]
          omega
        · omega
      obtain ⟨hlen', hmem⟩ := ih _ (hpopped _ hins)
      refine ⟨hlen', fun x hx => ?_⟩
      rcases hmem x hx with h | ⟨h, hcount'⟩
      · have h' : x ∈ mostUsed.insertIdx (insertPos mostUsed count) (digest, count) := by
          split at h
          · exact List.dropLast_subset _ h
          · exact h
        rw [List.mem_insertIdx (insertPos_le _ _)] at h'
        rcases h' with rfl | h'
        · exact .inr ⟨List.mem_cons_self, by omega⟩
        · exact .inl h'
      · exact .inr ⟨List.mem_cons_of_mem _ h, hcount'⟩

/-- In any order of the walk, `find_most_used_chunks` returns at most `max` digests, each with
its exact number of uses in the index, and each used more than once. -/
theorem findMostUsedChunks_spec (index : List D) (max : Nat)
    {order : List (D × Nat) → List (D × Nat)} (horder : ∀ l, (order l).Perm l) :
    (findMostUsedChunks index max order).length ≤ max ∧
      ∀ x ∈ findMostUsedChunks index max order, 1 < x.2 ∧ x.2 = index.count x.1 := by
  obtain ⟨hlen, hmem⟩ := selectLoop_spec max (order ((countUses index).entries.map
    fun entry => (entry.1, entry.2))) [] (Nat.zero_le _)
  refine ⟨hlen, fun x hx => ?_⟩
  rcases hmem x hx with h | ⟨h, hcount⟩
  · cases h
  · exact ⟨hcount, mem_countUses ((horder _).mem_iff.mp h)⟩

/-! ## What the loop keeps

The vector stays sorted by increasing count, so the `pop` after an insertion removes an entry
used at least as often as every entry it leaves: nothing the loop drops is used less than
anything it keeps. -/

/-- Sorted by increasing count, the order `binary_search_by_key` expects. -/
def SortedByCount (l : List (D × Nat)) : Prop := l.Pairwise fun a b => a.2 ≤ b.2

omit [DecidableEq D] in
theorem insertPos_cons (x : D × Nat) (xs : List (D × Nat)) (count : Nat) :
    insertPos (x :: xs) count = if x.2 < count then insertPos xs count + 1 else 0 := by
  unfold insertPos
  by_cases h : x.2 < count <;> simp [h]

omit [DecidableEq D] in
/-- Inserting at the search position keeps the vector sorted. -/
theorem SortedByCount.insertIdx {l : List (D × Nat)} (hl : SortedByCount l) (e : D × Nat) :
    SortedByCount (l.insertIdx (insertPos l e.2) e) := by
  induction l with
  | nil => simp [SortedByCount, insertPos]
  | cons x xs ih =>
    unfold SortedByCount at hl ih ⊢
    rw [List.pairwise_cons] at hl
    rw [insertPos_cons]
    split
    · next hlt =>
      rw [List.insertIdx_succ_cons]
      refine List.pairwise_cons.mpr ⟨fun y hy => ?_, ih hl.2⟩
      rcases (List.mem_insertIdx (insertPos_le _ _)).mp hy with rfl | hy
      · exact le_of_lt hlt
      · exact hl.1 y hy
    · next hge =>
      rw [List.insertIdx_zero]
      refine List.pairwise_cons.mpr ⟨fun y hy => ?_, List.pairwise_cons.mpr hl⟩
      rcases List.mem_cons.mp hy with rfl | hy
      · omega
      · exact le_trans (by omega) (hl.1 y hy)

/-- The loop's vector against the entries popped so far. -/
structure Kept (max : Nat) (mostUsed popped : List (D × Nat)) : Prop where
  sorted : SortedByCount mostUsed
  length_le : mostUsed.length ≤ max
  full : popped ≠ [] → mostUsed.length = max
  le_popped : ∀ k ∈ mostUsed, ∀ p ∈ popped, k.2 ≤ p.2

omit [DecidableEq D] in
/-- One round keeps the invariant: the popped entry is the last of the sorted vector, and every
entry the round started with stays in the vector or is popped. -/
theorem Kept.insertEntry {max : Nat} {mostUsed popped : List (D × Nat)}
    (h : Kept max mostUsed popped) (e : D × Nat) :
    ∃ popped', Kept max (insertEntry max mostUsed e) popped' ∧
      ∀ x, x ∈ mostUsed ∨ x ∈ popped ∨ x = e → x ∈ insertEntry max mostUsed e ∨ x ∈ popped' := by
  set m := mostUsed.insertIdx (insertPos mostUsed e.2) e
  have hperm : m.Perm (e :: mostUsed) := List.perm_insertIdx _ _ (insertPos_le _ _)
  have hsorted : SortedByCount m := h.sorted.insertIdx e
  have hlen : m.length = mostUsed.length + 1 := hperm.length_eq
  have hmem : ∀ x, x ∈ mostUsed ∨ x = e → x ∈ m := fun x hx =>
    hperm.mem_iff.mpr (List.mem_cons.mpr (hx.symm.imp id id))
  have hdef : IndexFile.insertEntry max mostUsed e = if m.length > max then m.dropLast else m := rfl
  rw [hdef]
  split
  · next hover =>
    -- the `pop`: `m` is its front followed by its largest entry `p`
    have hne : m ≠ [] := List.ne_nil_of_length_pos (by omega)
    set p := m.getLast hne
    have hsplit : m.dropLast ++ [p] = m := List.dropLast_append_getLast hne
    have hparts := hsorted
    rw [SortedByCount, ← hsplit, List.pairwise_append] at hparts
    obtain ⟨hfront, -, hlast⟩ := hparts
    have hle_p : ∀ k ∈ m.dropLast, k.2 ≤ p.2 := fun k hk => hlast k hk p (List.mem_singleton_self p)
    -- every popped entry is used at least as often as the whole front
    have hpopped : ∀ k ∈ m.dropLast, ∀ q ∈ popped, k.2 ≤ q.2 := by
      intro k hk q hq
      have hpm : p ∈ m := List.getLast_mem hne
      rcases List.mem_cons.mp (hperm.mem_iff.mp hpm) with hpe | hp
      · have hfront_perm : m.dropLast.Perm mostUsed := by
          have h1 : (m.dropLast ++ [p]).Perm (e :: mostUsed) := by rw [hsplit]; exact hperm
          have h2 : (p :: m.dropLast).Perm (e :: mostUsed) :=
            (@List.perm_append_comm _ [p] m.dropLast).trans h1
          rw [hpe] at h2
          exact h2.cons_inv
        exact h.le_popped k (hfront_perm.mem_iff.mp hk) q hq
      · exact le_trans (hle_p k hk) (h.le_popped p hp q hq)
    have hfront_or_p : ∀ x ∈ m, x ∈ m.dropLast ∨ x ∈ p :: popped := by
      intro x hx
      rw [← hsplit, List.mem_append, List.mem_singleton] at hx
      rcases hx with hx | rfl
      · exact .inl hx
      · exact .inr List.mem_cons_self
    have hlen_le := h.length_le
    refine ⟨p :: popped, ⟨hfront, ?_, fun _ => ?_, ?_⟩, ?_⟩
    · rw [List.length_dropLast]
      omega
    · rw [List.length_dropLast]
      omega
    · intro k hk q hq
      rcases List.mem_cons.mp hq with rfl | hq
      · exact hle_p k hk
      · exact hpopped k hk q hq
    · intro x hx
      rcases hx with hx | hx | hx
      · exact hfront_or_p x (hmem x (.inl hx))
      · exact .inr (List.mem_cons_of_mem _ hx)
      · exact hfront_or_p x (hmem x (.inr hx))
  · next hfit =>
    -- no `pop`: then nothing was popped before either, or the vector would be full
    have hnil : popped = [] := by
      by_contra hne
      have := h.full hne
      omega
    subst hnil
    refine ⟨[], ⟨hsorted, by omega, fun hne => absurd rfl hne, by simp⟩, fun x hx => ?_⟩
    rcases hx with hx | hx | hx
    · exact .inl (hmem x (.inl hx))
    · cases hx
    · exact .inl (hmem x (.inr hx))

omit [DecidableEq D] in
/-- The whole loop keeps the invariant, and every entry walked with a count above one ends in the
vector or popped. -/
theorem Kept.selectLoop {max : Nat} (entries : List (D × Nat)) :
    ∀ {mostUsed popped : List (D × Nat)}, Kept max mostUsed popped →
      ∃ popped', Kept max (selectLoop max mostUsed entries) popped' ∧
        ∀ x, x ∈ mostUsed ∨ x ∈ popped ∨ (x ∈ entries ∧ 1 < x.2) →
          x ∈ selectLoop max mostUsed entries ∨ x ∈ popped' := by
  induction entries with
  | nil =>
    intro mostUsed popped h
    refine ⟨popped, h, fun x hx => ?_⟩
    rcases hx with hx | hx | ⟨hx, _⟩
    · exact .inl hx
    · exact .inr hx
    · cases hx
  | cons entry entries ih =>
    intro mostUsed popped h
    obtain ⟨digest, count⟩ := entry
    unfold IndexFile.selectLoop
    split
    · next hcount =>
      obtain ⟨popped', hkept, hcov⟩ := ih h
      refine ⟨popped', hkept, fun x hx => hcov x ?_⟩
      rcases hx with hx | hx | ⟨hx, hc⟩
      · exact .inl hx
      · exact .inr (.inl hx)
      · rcases List.mem_cons.mp hx with rfl | hx
        · dsimp only at hc
          omega
        · exact .inr (.inr ⟨hx, hc⟩)
    · obtain ⟨popped₁, hkept₁, hcov₁⟩ := h.insertEntry (digest, count)
      obtain ⟨popped₂, hkept₂, hcov₂⟩ := ih hkept₁
      refine ⟨popped₂, hkept₂, fun x hx => hcov₂ x ?_⟩
      -- an entry of this round goes through `insertEntry`, a later one waits for its round
      have hround : (x ∈ mostUsed ∨ x ∈ popped ∨ x = (digest, count)) ∨ (x ∈ entries ∧ 1 < x.2) := by
        rcases hx with hx | hx | ⟨hx, hc⟩
        · exact .inl (.inl hx)
        · exact .inl (.inr (.inl hx))
        · rcases List.mem_cons.mp hx with rfl | hx
          · exact .inl (.inr (.inr rfl))
          · exact .inr ⟨hx, hc⟩
      rcases hround with hround | hround
      · exact (hcov₁ x hround).elim .inl (fun hp => .inr (.inl hp))
      · exact .inr (.inr hround)

/-- What `find_most_used_chunks` does return, in any order of the walk: a digest used more than
once that is left out is used at least as often as every digest returned. -/
theorem findMostUsedChunks_least_used (index : List D) (max : Nat)
    {order : List (D × Nat) → List (D × Nat)} (horder : ∀ l, (order l).Perm l) {digest : D}
    (hused : 1 < index.count digest) (hout : ∀ x ∈ findMostUsedChunks index max order, x.1 ≠ digest) :
    ∀ x ∈ findMostUsedChunks index max order, x.2 ≤ index.count digest := by
  have hstart : Kept max [] ([] : List (D × Nat)) :=
    ⟨List.Pairwise.nil, Nat.zero_le _, fun hne => absurd rfl hne, by simp⟩
  obtain ⟨popped, hkept, hcov⟩ := hstart.selectLoop
    (order ((countUses index).entries.map fun entry => (entry.1, entry.2)))
  -- the digest's own entry among the counts walked
  have hentry : (digest, index.count digest) ∈
      order ((countUses index).entries.map fun entry => (entry.1, entry.2)) := by
    rw [(horder _).mem_iff, List.mem_map]
    refine ⟨⟨digest, index.count digest⟩, AList.mem_lookup_iff.mp ?_, rfl⟩
    rw [lookup_countUses, if_pos (List.count_pos_iff.mp (by omega))]
    rfl
  rcases hcov _ (.inr (.inr ⟨hentry, hused⟩)) with hin | hpopped
  · exact absurd rfl (hout _ hin)
  · intro x hx
    exact hkept.le_popped x hx _ hpopped

/-- An index whose digest `0` is used three times and digest `1` twice: the counts are walked in
one of two orders, and with `max = 1` both return digest `1` alone. -/
theorem findMostUsedChunks_drops_most_used :
    (countUses [0, 0, 0, 1, 1]).entries.map (fun entry => (entry.1, entry.2)) = [(1, 2), (0, 3)] ∧
      findMostUsedChunks [0, 0, 0, 1, 1] 1 id = [(1, 2)] ∧
      findMostUsedChunks [0, 0, 0, 1, 1] 1 List.reverse = [(1, 2)] := by
  refine ⟨?_, ?_, ?_⟩ <;> decide +kernel

end ProxmoxBackup.IndexFile
