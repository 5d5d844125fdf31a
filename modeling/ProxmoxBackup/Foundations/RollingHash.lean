import Mathlib

/-!
# Rotations of words and the cyclic rolling hash

A cyclic polynomial rolling hash (Buzhash) over a window of items maps each item to a word of
`w` bits; the hash of a window is the exclusive or of the items' words, the word of the item with
`k` items after it rotated left by `k` (`windowHash`, `windowHash_eq_foldr_mapIdx`).

* `windowHash_roll`: moving a window by one item rotates the hash by one, removes the oldest
  word and adds the new one. The oldest word was rotated once per item of the window, so when the
  width divides the window length it is removed by an exclusive or with its plain word.

The rotation lemmas of `BitVec` they rest on are proved bit by bit from
`getLsbD_rotateLeft_of_lt`.
-/

namespace BitVec

variable {w : Nat}

/-- The bit a rotation by less than the width reads. -/
theorem getLsbD_rotateLeft_of_lt {x : BitVec w} {r i : Nat} (hr : r < w) (hi : i < w) :
    (x.rotateLeft r).getLsbD i = x.getLsbD (if i < r then w - r + i else i - r) := by
  rw [getLsbD_rotateLeft, Nat.mod_eq_of_lt hr]
  split <;> simp [*]

theorem rotateLeft_xor (x y : BitVec w) (r : Nat) :
    (x ^^^ y).rotateLeft r = x.rotateLeft r ^^^ y.rotateLeft r := by
  apply eq_of_getLsbD_eq
  intro i hi
  simp only [getLsbD_rotateLeft, getLsbD_xor]
  cases decide (i < r % w) <;> simp [hi]

@[simp] theorem zero_rotateLeft (r : Nat) : (0#w).rotateLeft r = 0#w := by
  apply eq_of_getLsbD_eq
  intro i _
  simp only [getLsbD_rotateLeft, getLsbD_zero]
  cases decide (i < r % w) <;> simp

@[simp] theorem rotateLeft_zero (x : BitVec w) : x.rotateLeft 0 = x := by
  apply eq_of_getLsbD_eq
  intro i hi
  simp [hi]

theorem rotateLeft_rotateLeft_of_lt (x : BitVec w) {a b : Nat} (ha : a < w) (hb : b < w) :
    (x.rotateLeft a).rotateLeft b = x.rotateLeft (a + b) := by
  -- the rotation by `a + b` is one by less than the width
  obtain ⟨c, hc, hcw, hcab⟩ : ∃ c, (a + b) % w = c ∧ c < w ∧ (c = a + b ∨ c + w = a + b) := by
    by_cases hab : a + b < w
    · exact ⟨a + b, Nat.mod_eq_of_lt hab, hab, .inl rfl⟩
    · refine ⟨a + b - w, ?_, by omega, .inr (by omega)⟩
      rw [Nat.mod_eq_sub_mod (by omega), Nat.mod_eq_of_lt (by omega)]
  rw [← rotateLeft_mod_eq_rotateLeft (r := a + b), hc]
  apply eq_of_getLsbD_eq
  intro i hi
  rw [getLsbD_rotateLeft_of_lt hb hi, getLsbD_rotateLeft_of_lt ha (by split <;> omega),
    getLsbD_rotateLeft_of_lt hcw hi]
  congr 1
  split_ifs <;> omega

theorem rotateLeft_rotateLeft (x : BitVec w) (r s : Nat) :
    (x.rotateLeft r).rotateLeft s = x.rotateLeft (r + s) := by
  rcases Nat.eq_zero_or_pos w with rfl | hw
  · exact Subsingleton.elim _ _
  rw [← rotateLeft_mod_eq_rotateLeft (r := r), ← rotateLeft_mod_eq_rotateLeft (r := s),
    rotateLeft_rotateLeft_of_lt x (Nat.mod_lt _ hw) (Nat.mod_lt _ hw),
    ← rotateLeft_mod_eq_rotateLeft (r := r + s), Nat.add_mod]
  exact rotateLeft_mod_eq_rotateLeft.symm

/-- A rotation by a multiple of the width is the identity. -/
theorem rotateLeft_of_dvd (x : BitVec w) {n : Nat} (h : w ∣ n) : x.rotateLeft n = x := by
  rw [← rotateLeft_mod_eq_rotateLeft, Nat.mod_eq_zero_of_dvd h, rotateLeft_zero]

end BitVec

namespace RollingHash

variable {α : Type} {w : Nat} (table : α → BitVec w)

/-- The hash of a window, oldest item first: each item's word rotated left by the number of
items after it. -/
def windowHash : List α → BitVec w
  | [] => 0#w
  | b :: bs => (table b).rotateLeft bs.length ^^^ windowHash bs

@[simp] theorem windowHash_nil : windowHash table [] = 0#w := rfl

@[simp] theorem windowHash_cons (b : α) (bs : List α) :
    windowHash table (b :: bs) = (table b).rotateLeft bs.length ^^^ windowHash table bs := rfl

/-- The hash as one exclusive or over the positions of the window: the word of the item at
position `i` of `n` rotated left by `n - 1 - i`. -/
theorem windowHash_eq_foldr_mapIdx (bs : List α) :
    windowHash table bs =
      (bs.mapIdx fun i b => (table b).rotateLeft (bs.length - 1 - i)).foldr (· ^^^ ·) 0#w := by
  induction bs with
  | nil => rfl
  | cons b bs ih =>
    rw [windowHash_cons, ih, List.mapIdx_cons, List.foldr_cons]
    congr 2
    -- the positions after the first are shifted by one
    congr 1
    funext i x
    congr 1
    simp only [List.length_cons]
    omega

/-- Adding an item rotates the hash by one and adds the item's word. -/
theorem windowHash_concat (bs : List α) (e : α) :
    windowHash table (bs ++ [e]) = (windowHash table bs).rotateLeft 1 ^^^ table e := by
  induction bs with
  | nil => simp
  | cons b bs ih =>
    rw [List.cons_append, windowHash_cons, ih, windowHash_cons, BitVec.rotateLeft_xor,
      BitVec.rotateLeft_rotateLeft, List.length_append, List.length_singleton, BitVec.xor_assoc]

/-- Moving a full window by one item. The oldest item's word, rotated once per item of the
window, is back in place when the width divides the window length, so an exclusive or with the
plain word removes it. -/
theorem windowHash_roll (b e : α) (bs : List α) (hn : w ∣ bs.length + 1) :
    (windowHash table (b :: bs)).rotateLeft 1 ^^^ table b ^^^ table e =
      windowHash table (bs ++ [e]) := by
  have hold : ((table b).rotateLeft bs.length).rotateLeft 1 = table b := by
    rw [BitVec.rotateLeft_rotateLeft, BitVec.rotateLeft_of_dvd _ hn]
  calc (windowHash table (b :: bs)).rotateLeft 1 ^^^ table b ^^^ table e
      = table b ^^^ table b ^^^ (windowHash table bs).rotateLeft 1 ^^^ table e := by
        rw [windowHash_cons, BitVec.rotateLeft_xor, hold, BitVec.xor_assoc (table b),
          BitVec.xor_comm ((windowHash table bs).rotateLeft 1) (table b), ← BitVec.xor_assoc]
    _ = windowHash table (bs ++ [e]) := by
        rw [BitVec.xor_self, BitVec.zero_xor, windowHash_concat]

end RollingHash
