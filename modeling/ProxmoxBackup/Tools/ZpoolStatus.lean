import Mathlib.Data.List.GetD
import Mathlib.Data.Nat.Find
import ProxmoxBackup.Foundations.Json
import ProxmoxBackup.Foundations.Except

/-!
# The vdev tree of `zpool status` (`src/src/tools/disks/zpool_status.rs`)

`indented_list_to_tree` turns a list of items with indentation levels into a JSON tree in one pass,
with an explicit stack of the entries of the open ancestors of the current item. An item's parent
is the nearest preceding item of smaller level (`parentOf`); the node of an item is its object
with `children` set to the nodes of its children, when it has any, and `leaf` set to whether it
has none (`treeNode`).

* `goUp_closedEntry`, `goUp_error`: the loop that goes back up the stack stops at the ancestor of
  the new item's level, and fails exactly when there is none.
* `addItem_push`, `addItem_sibling`, `addItem_broken`: one item keeps the stack equal to the
  entries of the ancestors of the last item (`stateAt`).
* `indented_list_to_tree_builds_tree`: the function fails exactly on a broken indentation, and
  otherwise returns the root of the tree of the parent relation.
* `indented_list_to_tree_keeps_leaf_children`: a leaf keeps a `children` member of its own object.
-/

namespace ProxmoxBackup.ZpoolStatus

open Json

/-! ## The code -/

/-- `StackItem`: a node, its level, and the finished children of its parent before it. -/
structure StackItem where
  node : List (String × Value)
  level : Nat
  childrenOfParent : List Value

/-- The initial `cur`: an empty map at level 0, below every item. -/
def StackItem.root : StackItem := ⟨[], 0, []⟩

/-- One pop of the stack: the current node becomes the last of the children of its parent, which
become the parent's `children`; the parent is no leaf, and becomes current. -/
def closeInto (cur parent : StackItem) : StackItem :=
  { parent with
    node := insert (insert parent.node "children" (.array (cur.childrenOfParent ++ [.object cur.node])))
      "leaf" (.bool false) }

/-- The loop `while vdev_level < cur.level` of `indented_list_to_tree`. -/
def goUp (vdevLevel : Nat) : StackItem → List StackItem → ExceptT String Option (StackItem × List StackItem)
  | cur, stack =>
    if vdevLevel < cur.level then
      match stack with
      -- `stack.pop().unwrap()` on an empty stack panics
      | [] => ExceptT.mk none
      | parent :: stack =>
        if vdevLevel > (closeInto cur parent).level then throw "broken indentation between levels"
        else goUp vdevLevel (closeInto cur parent) stack
    else pure (cur, stack)

/-- The body of the `for` loop of `indented_list_to_tree`, on `cur` and the stack. Levels are
below `u64::MAX`, so `1 + node_level` does not overflow. -/
def addItem {T : Type} (toNode : T → Value × Nat) (state : StackItem × List StackItem) (item : T) :
    ExceptT String Option (StackItem × List StackItem) := do
  let (node, nodeLevel) := toNode item
  let vdevLevel := 1 + nodeLevel
  let node ← match node with
    | .object map => pure map
    | _ => throw "to_node returned wrong type"
  let node := insert node "leaf" (.bool true)
  let (cur, stack) ← goUp vdevLevel state.1 state.2
  if vdevLevel > cur.level then
    -- indented further: the current entry is pushed, and the item starts a new level
    pure (⟨node, vdevLevel, []⟩, cur :: stack)
  else
    pure ({ cur with node := node, childrenOfParent := cur.childrenOfParent ++ [.object cur.node] }, stack)

/-- The loop `while !stack.is_empty()` that closes the remaining entries. -/
def closeAll : StackItem → List StackItem → StackItem
  | cur, [] => cur
  | cur, parent :: stack => closeAll (closeInto cur parent) stack

/-- `indented_list_to_tree`. -/
def indentedListToTree {T : Type} (toNode : T → Value × Nat) (items : List T) :
    ExceptT String Option Value := do
  let (cur, stack) ← items.foldlM (addItem toNode) (StackItem.root, [])
  pure (.object (closeAll cur stack).node)

/-! ## The tree an indented list describes -/

section Spec

variable (ls : List Nat)

/-- The last position before `i` whose level is below `l`. -/
def nearestBelow (l : Nat) : Nat → Option Nat
  | 0 => none
  | j + 1 => if ls.getD j 0 < l then some j else nearestBelow l j

/-- The parent of item `i`: the nearest preceding item of smaller level; `none` is the root. -/
def parentOf (i : Nat) : Option Nat :=
  nearestBelow ls (ls.getD i 0) i

/-- The children of `p` among the items before position `x`, in input order. -/
def kidsBelow (p : Option Nat) (x : Nat) : List Nat :=
  (List.range x).filter fun j => parentOf ls j = p

/-- The children of `p`, in input order. -/
def kidsOf (p : Option Nat) : List Nat :=
  kidsBelow ls p ls.length

/-- A broken indentation at item `i`: it is less indented than the item before it, and no
preceding item of its level has only deeper items after it. -/
def BrokenAt (i : Nat) : Prop :=
  0 < i ∧ i < ls.length ∧ ls.getD i 0 < ls.getD (i - 1) 0 ∧
    ¬ ∃ j < i, ls.getD j 0 = ls.getD i 0 ∧ ∀ k, j < k → k < i → ls.getD i 0 < ls.getD k 0

variable {ls}

/-- What `nearestBelow` finds: a position before `i` of level below `l`, with no such position
after it. -/
theorem nearestBelow_spec {l i j : Nat} (h : nearestBelow ls l i = some j) :
    j < i ∧ ls.getD j 0 < l ∧ ∀ k, j < k → k < i → l ≤ ls.getD k 0 := by
  induction i with
  | zero => cases h
  | succ i ih =>
    rw [nearestBelow] at h
    split at h
    · rename_i hi
      cases h
      exact ⟨Nat.lt_succ_self _, hi, fun k hk hk' => by omega⟩
    · rename_i hi
      obtain ⟨hj, hlt, hle⟩ := ih h
      refine ⟨Nat.lt_succ_of_lt hj, hlt, fun k hk hk' => ?_⟩
      rcases Nat.lt_succ_iff_lt_or_eq.1 hk' with hk' | rfl
      · exact hle k hk hk'
      · exact Nat.le_of_not_lt hi

/-- A position of level below `l` before `i` bounds what `nearestBelow` finds from below. -/
theorem nearestBelow_ge {l i j : Nat} (hj : j < i) (hlt : ls.getD j 0 < l) :
    ∃ p, nearestBelow ls l i = some p ∧ j ≤ p := by
  induction i with
  | zero => omega
  | succ i ih =>
    rw [nearestBelow]
    split
    · exact ⟨i, rfl, Nat.le_of_lt_succ hj⟩
    · rename_i hi
      rcases Nat.lt_succ_iff_lt_or_eq.1 hj with hj | rfl
      · exact ih hj
      · exact absurd hlt hi

/-- Positions of level at least `l` between `a` and `i` are skipped. -/
theorem nearestBelow_skip {l a i : Nat} (hai : a ≤ i) (h : ∀ k, a ≤ k → k < i → l ≤ ls.getD k 0) :
    nearestBelow ls l i = nearestBelow ls l a := by
  induction i with
  | zero => rw [Nat.le_zero.1 hai]
  | succ i ih =>
    rcases Nat.lt_succ_iff_lt_or_eq.1 (Nat.lt_succ_of_le hai) with hai | rfl
    · rw [nearestBelow, if_neg (Nat.not_lt.2 (h i (Nat.le_of_lt_succ hai) (Nat.lt_succ_self i)))]
      exact ih (Nat.le_of_lt_succ hai) fun k hk hk' => h k hk (Nat.lt_succ_of_lt hk')
    · rfl

theorem parentOf_lt {i j : Nat} (h : parentOf ls i = some j) : j < i :=
  (nearestBelow_spec h).1

/-- Past the last item there are no children: the level there is 0. -/
theorem parentOf_of_length_le {k : Nat} (hk : ls.length ≤ k) : parentOf ls k = none := by
  rw [parentOf, List.getD_eq_default _ _ hk]
  cases h : nearestBelow ls 0 k with
  | none => rfl
  | some j => exact absurd (nearestBelow_spec h).2.1 (Nat.not_lt_zero _)

/-- An item deeper than the one before it is its child. -/
theorem parentOf_succ_of_lt {k : Nat} (h : ls.getD k 0 < ls.getD (k + 1) 0) :
    parentOf ls (k + 1) = some k := by
  rw [parentOf, nearestBelow, if_pos h]

/-- An earlier item of smaller level bounds the parent from below. -/
theorem parentOf_ge {c k : Nat} (hck : c < k) (hlt : ls.getD c 0 < ls.getD k 0) :
    ∃ q, parentOf ls k = some q ∧ c ≤ q :=
  nearestBelow_ge hck hlt

/-- An item `x` after `c` and not deeper than it ends the children of `c`. -/
theorem parentOf_ne_of_le {c x k : Nat} (hcx : c < x) (hxk : x ≤ k) (hle : ls.getD x 0 ≤ ls.getD c 0) :
    parentOf ls k ≠ some c := by
  intro h
  obtain ⟨-, hlt, hbetween⟩ := nearestBelow_spec h
  rcases Nat.lt_or_eq_of_le hxk with hxk | rfl
  · have := hbetween x hcx hxk
    omega
  · omega

/-- An item whose items since the earlier item `a` of its level are all deeper has the parent
of `a`. -/
theorem parentOf_eq_of_level_eq {a m : Nat} (ham : a < m) (heq : ls.getD a 0 = ls.getD m 0)
    (hdeeper : ∀ k, a < k → k < m → ls.getD m 0 < ls.getD k 0) : parentOf ls m = parentOf ls a := by
  rw [parentOf, parentOf, heq]
  refine nearestBelow_skip (Nat.le_of_lt ham) fun k hk hk' => ?_
  rcases Nat.lt_or_eq_of_le hk with hk | rfl
  · exact Nat.le_of_lt (hdeeper k hk hk')
  · exact Nat.le_of_eq heq.symm

theorem kidsBelow_zero (p : Option Nat) : kidsBelow ls p 0 = [] := rfl

/-- Children come after their parent. -/
theorem kidsBelow_eq_nil_of_le {c x : Nat} (hx : x ≤ c + 1) : kidsBelow ls (some c) x = [] := by
  refine List.filter_eq_nil_iff.2 fun j hj hpj => ?_
  have := parentOf_lt (of_decide_eq_true hpj)
  have := List.mem_range.1 hj
  omega

theorem kidsBelow_succ (p : Option Nat) (x : Nat) :
    kidsBelow ls p (x + 1) = kidsBelow ls p x ++ if parentOf ls x = p then [x] else [] := by
  simp only [kidsBelow, List.range_succ, List.filter_append, List.filter_cons, List.filter_nil,
    decide_eq_true_eq]

/-- No children of `p` between `x` and `y`: the children before `y` are those before `x`. -/
theorem kidsBelow_eq_of_forall {p : Option Nat} {x y : Nat} (hxy : x ≤ y)
    (h : ∀ k, x ≤ k → k < y → parentOf ls k ≠ p) : kidsBelow ls p y = kidsBelow ls p x := by
  induction y with
  | zero => rw [Nat.le_zero.1 hxy]
  | succ y ih =>
    rcases Nat.lt_succ_iff_lt_or_eq.1 (Nat.lt_succ_of_le hxy) with hxy | rfl
    · rw [kidsBelow_succ, if_neg (h y (Nat.le_of_lt_succ hxy) (Nat.lt_succ_self y)), List.append_nil]
      exact ih (Nat.le_of_lt_succ hxy) fun k hk hk' => h k hk (Nat.lt_succ_of_lt hk')
    · rfl

/-- The children of an item `c` with none from position `x` on are its children before `x`. -/
theorem kidsOf_some_eq_kidsBelow {c x : Nat} (h : ∀ k, x ≤ k → k < ls.length → parentOf ls k ≠ some c) :
    kidsOf ls (some c) = kidsBelow ls (some c) x := by
  rcases Nat.le_total x ls.length with hx | hx
  · exact kidsBelow_eq_of_forall hx h
  · refine (kidsBelow_eq_of_forall hx fun k hk _ => ?_).symm
    rw [parentOf_of_length_le hk]
    exact Option.some_ne_none c ∘ Eq.symm

theorem lt_length_of_mem_kidsOf {p : Option Nat} {j : Nat} (h : j ∈ kidsOf ls p) : j < ls.length := by
  simp only [kidsOf, kidsBelow, List.mem_filter, List.mem_range] at h
  exact h.1

theorem lt_of_mem_kidsOf {i j : Nat} (h : j ∈ kidsOf ls (some i)) : i < j := by
  simp only [kidsOf, kidsBelow, List.mem_filter, List.mem_range, decide_eq_true_eq] at h
  exact parentOf_lt h.2

/-- The parent of an item `c` whose items after it before `m` are all deeper is shallower than
all of them too. -/
theorem deeper_of_parentOf {c p m : Nat} (hp : parentOf ls c = some p)
    (hdeeper : ∀ k, c < k → k < m → ls.getD c 0 < ls.getD k 0) :
    ∀ k, p < k → k < m → ls.getD p 0 < ls.getD k 0 := by
  obtain ⟨-, hpc_lt, hbetween⟩ := nearestBelow_spec hp
  intro k hk hkm
  rcases Nat.lt_or_ge k c with hkc | hkc
  · have := hbetween k hk hkc
    omega
  · rcases Nat.lt_or_eq_of_le hkc with hkc | rfl
    · have := hdeeper k hkc hkm
      omega
    · exact hpc_lt

/-- The items after `c` before `m`, all deeper than `c`, are no children of the parent of `c`. -/
theorem parentOf_ne_of_deeper {c p m k : Nat} (hp : parentOf ls c = some p)
    (hdeeper : ∀ k, c < k → k < m → ls.getD c 0 < ls.getD k 0) (hk : c < k) (hkm : k < m) :
    parentOf ls k ≠ some p := by
  obtain ⟨q, hq, hcq⟩ := parentOf_ge hk (hdeeper k hk hkm)
  have := parentOf_lt hp
  rw [hq]
  intro hqp
  cases hqp
  omega

/-- An item `c` whose items after it before `m` are all deeper, when its parent `p` has no
children from `m` on, is the last child of `p`. -/
theorem kidsOf_parentOf {c p m : Nat} (hp : parentOf ls c = some p)
    (hdeeper : ∀ k, c < k → k < m → ls.getD c 0 < ls.getD k 0)
    (hend : ∀ k, m ≤ k → parentOf ls k ≠ some p) :
    kidsOf ls (some p) = kidsBelow ls (some p) c ++ [c] := by
  rw [kidsOf_some_eq_kidsBelow (x := c + 1), kidsBelow_succ, if_pos hp]
  intro k hk _
  rcases Nat.lt_or_ge k m with hkm | hkm
  · exact parentOf_ne_of_deeper hp hdeeper hk hkm
  · exact hend k hkm

variable (ls) in
/-- Item `a` is item `c` or an ancestor of it: every item after `a` up to `c` is deeper. -/
def IsAncestorOrSelf (c a : Nat) : Prop :=
  a ≤ c ∧ ∀ k, a < k → k ≤ c → ls.getD a 0 < ls.getD k 0

theorem isAncestorOrSelf_refl (c : Nat) : IsAncestorOrSelf ls c c :=
  ⟨Nat.le_refl c, fun _ hk hk' => absurd hk (Nat.not_lt.2 hk')⟩

/-- The parent of `c` is an ancestor of `c`, and so are the ancestors of the parent. -/
theorem IsAncestorOrSelf.of_parentOf {c p a : Nat} (hp : parentOf ls c = some p)
    (ha : IsAncestorOrSelf ls p a) : IsAncestorOrSelf ls c a := by
  obtain ⟨hpc, hlt, hbetween⟩ := nearestBelow_spec hp
  have hap : ls.getD a 0 ≤ ls.getD p 0 := by
    rcases Nat.lt_or_eq_of_le ha.1 with h | rfl
    · exact Nat.le_of_lt (ha.2 p h (Nat.le_refl p))
    · exact Nat.le_refl _
  refine ⟨Nat.le_trans ha.1 (Nat.le_of_lt hpc), fun k hk hkc => ?_⟩
  rcases Nat.lt_or_ge p k with hpk | hkp
  · rcases Nat.lt_or_eq_of_le hkc with hkc | rfl
    · have := hbetween k hpk hkc
      omega
    · omega
  · exact ha.2 k hk hkp

/-- A proper ancestor `a` of `c` is an ancestor of the parent of `c`. -/
theorem IsAncestorOrSelf.parentOf {c a : Nat} (ha : IsAncestorOrSelf ls c a) (hac : a < c) :
    ∃ p, parentOf ls c = some p ∧ IsAncestorOrSelf ls p a := by
  obtain ⟨p, hp, hap⟩ := parentOf_ge hac (ha.2 c hac (Nat.le_refl c))
  exact ⟨p, hp, hap, fun k hk hkp => ha.2 k hk (Nat.le_trans hkp (Nat.le_of_lt (parentOf_lt hp)))⟩

/-- The node of an item: its object, with `children` set to the nodes of its children when it
has any, and `leaf` set to whether it has none. -/
def withChildren (m : List (String × Value)) (children : List Value) : List (String × Value) :=
  insert (if children.isEmpty then m else insert m "children" (.array children)) "leaf"
    (.bool children.isEmpty)

theorem get_withChildren_children (m : List (String × Value)) (children : List Value) :
    get (withChildren m children) "children" =
      if children.isEmpty then get m "children" else some (.array children) := by
  have hkey : "children" ≠ "leaf" := by decide
  cases children with
  | nil => simp [withChildren, get_insert_of_ne _ hkey]
  | cons c cs => simp [withChildren, get_insert_of_ne _ hkey]

theorem get_withChildren_leaf (m : List (String × Value)) (children : List Value) :
    get (withChildren m children) "leaf" = some (.bool children.isEmpty) :=
  get_insert_self _ _ _

theorem get_withChildren_of_ne (m : List (String × Value)) (children : List Value) {k : String}
    (hc : k ≠ "children") (hl : k ≠ "leaf") : get (withChildren m children) k = get m k := by
  rw [withChildren, get_insert_of_ne _ hl]
  split
  · rfl
  · exact get_insert_of_ne _ hc

variable (ls) in
/-- The node of item `i`, with the objects `os` of the items. -/
def treeNode (os : List (List (String × Value))) (i : Nat) : Value :=
  .object (withChildren (os.getD i []) ((kidsOf ls (some i)).attach.map fun j => treeNode os j.1))
termination_by ls.length - i
decreasing_by
  have h₁ := lt_of_mem_kidsOf j.2
  have h₂ := lt_length_of_mem_kidsOf j.2
  omega

theorem treeNode_eq (os : List (List (String × Value))) (i : Nat) :
    treeNode ls os i = .object (withChildren (os.getD i []) ((kidsOf ls (some i)).map (treeNode ls os))) := by
  rw [treeNode]
  simp

end Spec

/-! ## The stack of the ancestors of the last item -/

section Stack

variable (ls : List Nat) (os : List (List (String × Value)))

/-- The stack entry of item `c` while it is open: its object marked as a leaf, its level, and the
nodes of the children of its parent before it. -/
def openEntry (c : Nat) : StackItem :=
  ⟨insert (os.getD c []) "leaf" (.bool true), 1 + ls.getD c 0, (kidsBelow ls (parentOf ls c) c).map (treeNode ls os)⟩

/-- The entry of item `c` once it is finished: its node is that of `treeNode`. -/
def closedEntry (c : Nat) : StackItem :=
  { openEntry ls os c with node := withChildren (os.getD c []) ((kidsOf ls (some c)).map (treeNode ls os)) }

/-- The stack under the entry of item `c`: the entries of its ancestors, nearest first, then the
root. -/
def ancestors (c : Nat) : List StackItem :=
  match hp : parentOf ls c with
  | none => [StackItem.root]
  | some p =>
    have := parentOf_lt hp
    openEntry ls os p :: ancestors p
termination_by c

/-- `cur` and the stack after the first `m` items. -/
def stateAt : Nat → StackItem × List StackItem
  | 0 => (StackItem.root, [])
  | m + 1 => (openEntry ls os m, ancestors ls os m)

variable {ls os}

theorem ancestors_of_none {c : Nat} (h : parentOf ls c = none) : ancestors ls os c = [StackItem.root] := by
  rw [ancestors]
  split <;> simp_all

theorem ancestors_of_some {c p : Nat} (h : parentOf ls c = some p) :
    ancestors ls os c = openEntry ls os p :: ancestors ls os p := by
  rw [ancestors]
  split <;> simp_all

theorem ancestors_congr {c c' : Nat} (h : parentOf ls c = parentOf ls c') :
    ancestors ls os c = ancestors ls os c' := by
  cases hp : parentOf ls c' with
  | none => rw [ancestors_of_none (h.trans hp), ancestors_of_none hp]
  | some p => rw [ancestors_of_some (h.trans hp), ancestors_of_some hp]

theorem closedEntry_eq_openEntry {c : Nat} (h : kidsOf ls (some c) = []) :
    closedEntry ls os c = openEntry ls os c := by
  simp [closedEntry, openEntry, withChildren, h]

/-- Closing item `c`, the last child of its parent `p`, into the entry of `p` finishes `p`. -/
theorem closeInto_closedEntry {c p : Nat} (hp : parentOf ls c = some p)
    (hkids : kidsOf ls (some p) = kidsBelow ls (some p) c ++ [c]) :
    closeInto (closedEntry ls os c) (openEntry ls os p) = closedEntry ls os p := by
  have hnode : Value.object (withChildren (os.getD c []) ((kidsOf ls (some c)).map (treeNode ls os))) =
      treeNode ls os c :=
    (treeNode_eq os c).symm
  have hkey : "children" ≠ "leaf" := by decide
  have hne : ((kidsBelow ls (some p) c).map (treeNode ls os) ++ [treeNode ls os c]).isEmpty = false := by
    simp
  simp only [closeInto, closedEntry, openEntry, hp, hkids, hnode, List.map_append, List.map_cons,
    List.map_nil]
  simp only [withChildren, hne, Bool.false_eq_true, ↓reduceIte]
  rw [insert_insert_of_ne _ _ _ _ hkey]

/-- A level not below the current one: the loop does not go up. -/
theorem goUp_of_not_lt {v : Nat} {cur : StackItem} (stack : List StackItem) (h : ¬ v < cur.level) :
    goUp v cur stack = pure (cur, stack) := by
  rw [goUp.eq_def]
  dsimp only
  rw [if_neg h]

/-- Going up from the finished item `c`, when the items after it before the new item `m` are all
deeper: the loop stops at the ancestor `a` of `c` that has the level of `m`. -/
theorem goUp_closedEntry {m : Nat} (c : Nat) {a : Nat} (hcm : c < m)
    (hdeeper : ∀ k, c < k → k < m → ls.getD c 0 < ls.getD k 0) (ha : IsAncestorOrSelf ls c a)
    (hlevel : ls.getD a 0 = ls.getD m 0) :
    goUp (1 + ls.getD m 0) (closedEntry ls os c) (ancestors ls os c) =
      pure (closedEntry ls os a, ancestors ls os a) := by
  induction c using Nat.strongRecOn with
  | ind c ih =>
    rcases Nat.lt_or_eq_of_le ha.1 with hac | rfl
    · obtain ⟨p, hp, hpa⟩ := ha.parentOf hac
      have hpc := parentOf_lt hp
      have hpm : ls.getD m 0 ≤ ls.getD p 0 := by
        rcases Nat.lt_or_eq_of_le hpa.1 with h | h
        · exact hlevel ▸ Nat.le_of_lt (hpa.2 p h (Nat.le_refl p))
        · exact Nat.le_of_eq (by rw [← hlevel, h])
      -- `c` is the last child of `p`: `m` is not deeper than `p`, so it ends `p`
      have hkids := kidsOf_parentOf hp hdeeper fun k hkm =>
        parentOf_ne_of_le (Nat.lt_trans hpc hcm) hkm hpm
      have hup : 1 + ls.getD m 0 < (closedEntry ls os c).level := by
        have := ha.2 c hac (Nat.le_refl c)
        simp only [closedEntry, openEntry]
        omega
      have hstay : ¬ 1 + ls.getD m 0 > (closedEntry ls os p).level := by
        simp only [closedEntry, openEntry]
        omega
      rw [ancestors_of_some hp, goUp, if_pos hup]
      simp only [closeInto_closedEntry hp hkids]
      rw [if_neg hstay]
      exact ih p hpc (Nat.lt_trans hpc hcm) (deeper_of_parentOf hp hdeeper) hpa
    · have hstay : ¬ 1 + ls.getD m 0 < (closedEntry ls os a).level := by
        simp only [closedEntry, openEntry]
        omega
      exact goUp_of_not_lt _ hstay

/-- Going up to a level that no ancestor of `c` has: the loop fails. -/
theorem goUp_error {m : Nat} (c : Nat) (cur : StackItem) (hcur : cur.level = 1 + ls.getD c 0)
    (hlt : ls.getD m 0 < ls.getD c 0)
    (hnone : ¬ ∃ a, IsAncestorOrSelf ls c a ∧ ls.getD a 0 = ls.getD m 0) :
    goUp (1 + ls.getD m 0) cur (ancestors ls os c) = throw "broken indentation between levels" := by
  induction c using Nat.strongRecOn generalizing cur with
  | ind c ih =>
    cases hp : parentOf ls c with
    | none =>
      -- the root is at level 0, below every item
      have hroot : (closeInto cur StackItem.root).level = 0 := rfl
      rw [ancestors_of_none hp, goUp, if_pos (by omega), if_pos (by omega)]
    | some p =>
      rw [ancestors_of_some hp, goUp, if_pos (by omega)]
      have hlevel : (closeInto cur (openEntry ls os p)).level = 1 + ls.getD p 0 := rfl
      by_cases hdeeper : ls.getD m 0 < ls.getD p 0
      · rw [if_neg (by omega)]
        exact ih p (parentOf_lt hp) _ hlevel hdeeper fun ⟨a, ha, hla⟩ => hnone ⟨a, ha.of_parentOf hp, hla⟩
      · have hne : ls.getD p 0 ≠ ls.getD m 0 :=
          fun h => hnone ⟨p, (isAncestorOrSelf_refl p).of_parentOf hp, h⟩
        rw [if_pos (by omega)]

end Stack

/-! ## One item -/

section Loop

variable {T : Type} (toNode : T → Value × Nat)

/-- The body of the loop on an item that `to_node` maps to an object. -/
theorem addItem_of_object (state : StackItem × List StackItem) {item : T} {obj : List (String × Value)}
    {l : Nat} (h : toNode item = (.object obj, l)) :
    addItem toNode state item = goUp (1 + l) state.1 state.2 >>= fun s =>
      if 1 + l > s.1.level then pure (⟨insert obj "leaf" (.bool true), 1 + l, []⟩, s.1 :: s.2)
      else pure ({ s.1 with
        node := insert obj "leaf" (.bool true)
        childrenOfParent := s.1.childrenOfParent ++ [.object s.1.node] }, s.2) := by
  simp only [addItem, h]
  rfl

variable {ls : List Nat} {os : List (List (String × Value))} {item : T}

/-- The first item is pushed over the root. -/
theorem addItem_first (h : toNode item = (.object (os.getD 0 []), ls.getD 0 0)) :
    addItem toNode (stateAt ls os 0) item = pure (stateAt ls os 1) := by
  have hp : parentOf ls 0 = none := rfl
  have hpush : 1 + ls.getD 0 0 > StackItem.root.level := by
    simp only [StackItem.root]
    omega
  rw [addItem_of_object toNode _ h, stateAt, goUp_of_not_lt _ (Nat.not_lt_zero _), pure_bind,
    if_pos hpush, stateAt, ancestors_of_none hp]
  simp [openEntry, hp, kidsBelow_zero]

/-- An item deeper than the one before it is pushed. -/
theorem addItem_push {k : Nat} (h : toNode item = (.object (os.getD (k + 1) []), ls.getD (k + 1) 0))
    (hlt : ls.getD k 0 < ls.getD (k + 1) 0) :
    addItem toNode (stateAt ls os (k + 1)) item = pure (stateAt ls os (k + 2)) := by
  have hp := parentOf_succ_of_lt hlt
  have hstay : ¬ 1 + ls.getD (k + 1) 0 < (openEntry ls os k).level := by
    simp only [openEntry]
    omega
  have hpush : 1 + ls.getD (k + 1) 0 > (openEntry ls os k).level := by
    simp only [openEntry]
    omega
  rw [addItem_of_object toNode _ h, stateAt, goUp_of_not_lt _ hstay, pure_bind, if_pos hpush, stateAt,
    ancestors_of_some hp]
  simp [openEntry, hp, kidsBelow_eq_nil_of_le (Nat.le_refl (k + 1))]

/-- An item that has the level of an ancestor `a` of the item before it becomes the next sibling
of `a`. -/
theorem addItem_sibling {k a : Nat} (h : toNode item = (.object (os.getD (k + 1) []), ls.getD (k + 1) 0))
    (ha : IsAncestorOrSelf ls k a) (hlevel : ls.getD a 0 = ls.getD (k + 1) 0) :
    addItem toNode (stateAt ls os (k + 1)) item = pure (stateAt ls os (k + 2)) := by
  have hak : ls.getD (k + 1) 0 ≤ ls.getD k 0 := by
    rcases Nat.lt_or_eq_of_le ha.1 with hak | rfl
    · exact hlevel ▸ Nat.le_of_lt (ha.2 k hak (Nat.le_refl k))
    · exact Nat.le_of_eq hlevel.symm
  -- item `k` has no children: the new item ends it
  have hclosed : closedEntry ls os k = openEntry ls os k := by
    refine closedEntry_eq_openEntry ?_
    rw [kidsOf_some_eq_kidsBelow (x := k + 1) fun j hj _ => parentOf_ne_of_le (Nat.lt_succ_self k) hj hak,
      kidsBelow_eq_nil_of_le (Nat.le_refl (k + 1))]
  have hdeeper : ∀ j, a < j → j < k + 1 → ls.getD (k + 1) 0 < ls.getD j 0 :=
    fun j hj hjk => hlevel ▸ ha.2 j hj (Nat.le_of_lt_succ hjk)
  have hparent := parentOf_eq_of_level_eq (Nat.lt_succ_of_le ha.1) hlevel hdeeper
  -- the children of the parent of `a` before the new item end with `a`
  have hkids : kidsBelow ls (parentOf ls a) (k + 1) = kidsBelow ls (parentOf ls a) a ++ [a] := by
    rw [kidsBelow_eq_of_forall (Nat.succ_le_succ ha.1), kidsBelow_succ, if_pos rfl]
    intro j hj hjk
    obtain ⟨q, hq, haq⟩ := parentOf_ge hj (hlevel ▸ hdeeper j hj hjk)
    rw [hq]
    cases hpa : parentOf ls a with
    | none => exact Option.some_ne_none q
    | some r =>
      have := parentOf_lt hpa
      intro hqr
      cases hqr
      omega
  have hstay : ¬ 1 + ls.getD (k + 1) 0 > (closedEntry ls os a).level := by
    simp only [closedEntry, openEntry]
    omega
  rw [addItem_of_object toNode _ h, stateAt, ← hclosed,
    goUp_closedEntry k (Nat.lt_succ_self k) (fun j hj hjk => absurd hjk (by omega)) ha hlevel, pure_bind,
    if_neg hstay, stateAt, ancestors_congr hparent]
  simp only [closedEntry, openEntry, hparent, hkids, hlevel, treeNode_eq, List.map_append, List.map_cons,
    List.map_nil]

/-- An item less indented than the item before it, at a level no ancestor of that item has:
the loop fails. -/
theorem addItem_broken {k : Nat} (h : toNode item = (.object (os.getD (k + 1) []), ls.getD (k + 1) 0))
    (hlt : ls.getD (k + 1) 0 < ls.getD k 0)
    (hnone : ¬ ∃ a, IsAncestorOrSelf ls k a ∧ ls.getD a 0 = ls.getD (k + 1) 0) :
    addItem toNode (stateAt ls os (k + 1)) item = throw "broken indentation between levels" := by
  rw [addItem_of_object toNode _ h, stateAt, goUp_error k (openEntry ls os k) rfl hlt hnone]
  rfl

end Loop

/-! ## The whole list -/

section Run

variable {ls : List Nat} {os : List (List (String × Value))}

/-- A broken indentation, as the loop sees it: the new item is less indented than the item
before it, and no ancestor of that item has its level. -/
theorem brokenAt_succ_iff {k : Nat} (hk : k + 1 < ls.length) :
    BrokenAt ls (k + 1) ↔ ls.getD (k + 1) 0 < ls.getD k 0 ∧
      ¬ ∃ a, IsAncestorOrSelf ls k a ∧ ls.getD a 0 = ls.getD (k + 1) 0 := by
  have hanc : (∃ j < k + 1, ls.getD j 0 = ls.getD (k + 1) 0 ∧
      ∀ i, j < i → i < k + 1 → ls.getD (k + 1) 0 < ls.getD i 0) ↔
      ∃ a, IsAncestorOrSelf ls k a ∧ ls.getD a 0 = ls.getD (k + 1) 0 := by
    constructor
    · rintro ⟨j, hj, hlevel, hdeeper⟩
      exact ⟨j, ⟨Nat.le_of_lt_succ hj, fun i hi hik => hlevel ▸ hdeeper i hi (Nat.lt_succ_of_le hik)⟩, hlevel⟩
    · rintro ⟨a, ha, hlevel⟩
      exact ⟨a, Nat.lt_succ_of_le ha.1, hlevel, fun i hi hik => hlevel ▸ ha.2 i hi (Nat.le_of_lt_succ hik)⟩
  simp only [BrokenAt, Nat.add_sub_cancel, hanc]
  exact ⟨fun h => h.2.2, fun h => ⟨Nat.succ_pos k, hk, h⟩⟩

/-- Closing the finished item `c`, all of whose later items are deeper, and its ancestors gives
the root, whose `children` are the nodes of the items without a parent. -/
theorem closeAll_closedEntry (c : Nat) (hc : c < ls.length)
    (hdeeper : ∀ k, c < k → k < ls.length → ls.getD c 0 < ls.getD k 0) :
    closeAll (closedEntry ls os c) (ancestors ls os c) =
      ⟨insert (insert [] "children" (.array ((kidsOf ls none).map (treeNode ls os)))) "leaf" (.bool false),
        0, []⟩ := by
  induction c using Nat.strongRecOn with
  | ind c ih =>
    cases hp : parentOf ls c with
    | none =>
      -- `c` is the last item without a parent
      have hkids : kidsOf ls none = kidsBelow ls none c ++ [c] := by
        rw [kidsOf, kidsBelow_eq_of_forall hc, kidsBelow_succ, if_pos hp]
        intro k hk hkn
        obtain ⟨q, hq, -⟩ := parentOf_ge hk (hdeeper k hk hkn)
        rw [hq]
        exact Option.some_ne_none q
      rw [ancestors_of_none hp, closeAll, closeAll, hkids]
      simp only [closeInto, closedEntry, openEntry, hp, StackItem.root, List.map_append, List.map_cons,
        List.map_nil, treeNode_eq]
    | some p =>
      have hkids := kidsOf_parentOf hp hdeeper fun k hk => by rw [parentOf_of_length_le hk]; simp
      rw [ancestors_of_some hp, closeAll, closeInto_closedEntry hp hkids]
      exact ih p (parentOf_lt hp) (Nat.lt_trans (parentOf_lt hp) hc) (deeper_of_parentOf hp hdeeper)

variable {T : Type} {items : List T} {obj : T → List (String × Value)} {lvl : T → Nat}

variable (obj lvl) in
theorem toNode_getElem {m : Nat} (hm : m < items.length) :
    (fun t => (Value.object (obj t), lvl t)) items[m] =
      (.object ((items.map obj).getD m []), (items.map lvl).getD m 0) := by
  simp [List.getD_eq_getElem?_getD, hm]

/-- The loop over the first `m` items, none broken, leaves the entries of the last of them and
of its ancestors. -/
theorem foldlM_take {m : Nat} (hm : m ≤ items.length) (hok : ∀ i < m, ¬ BrokenAt (items.map lvl) i) :
    (items.take m).foldlM (addItem fun t => (.object (obj t), lvl t)) (StackItem.root, []) =
      pure (stateAt (items.map lvl) (items.map obj) m) := by
  induction m with
  | zero => rfl
  | succ m ih =>
    have hm' : m < items.length := hm
    rw [List.take_add_one, List.getElem?_eq_getElem hm', Option.toList_some, List.foldlM_append,
      ih (Nat.le_of_lt hm') fun i hi => hok i (Nat.lt_succ_of_lt hi), pure_bind, List.foldlM_cons]
    simp only [List.foldlM_nil, bind_pure]
    have hnode := toNode_getElem obj lvl hm'
    -- the three ways an item that is not broken continues the stack
    cases m with
    | zero => exact addItem_first _ hnode
    | succ k =>
      have hk : k + 1 < (items.map lvl).length := by rw [List.length_map]; exact hm'
      by_cases hlt : (items.map lvl).getD k 0 < (items.map lvl).getD (k + 1) 0
      · exact addItem_push _ hnode hlt
      · have hnb := hok (k + 1) (Nat.lt_succ_self _)
        rw [brokenAt_succ_iff hk] at hnb
        rcases Nat.lt_or_eq_of_le (Nat.le_of_not_lt hlt) with hlt' | heq
        · obtain ⟨a, ha, hlevel⟩ := Classical.not_not.1 fun h => hnb ⟨hlt', h⟩
          exact addItem_sibling _ hnode ha hlevel
        · exact addItem_sibling _ hnode (isAncestorOrSelf_refl k) heq.symm

/-- The loop fails at the first broken item. -/
theorem foldlM_of_brokenAt {i : Nat} (hi : BrokenAt (items.map lvl) i)
    (hfirst : ∀ j < i, ¬ BrokenAt (items.map lvl) j) :
    items.foldlM (addItem fun t => (.object (obj t), lvl t)) (StackItem.root, []) =
      throw "broken indentation between levels" := by
  have hpos := hi.1
  have hlen := hi.2.1
  cases i with
  | zero => exact absurd hpos (Nat.lt_irrefl 0)
  | succ k =>
  have hk : k + 1 < items.length := by rwa [List.length_map] at hlen
  have hnode := toNode_getElem obj lvl hk
  obtain ⟨hlt, hnone⟩ := (brokenAt_succ_iff hlen).1 hi
  rw [← List.take_append_drop (k + 1) items, List.foldlM_append,
    foldlM_take (Nat.le_of_lt hk) hfirst, pure_bind, List.drop_eq_getElem_cons hk, List.foldlM_cons,
    addItem_broken (fun t => (Value.object (obj t), lvl t)) hnode hlt hnone]
  rfl

end Run

/-- `indented_list_to_tree` over items that `to_node` maps to objects without a `children` member
of their own: it fails with the message of a broken indentation exactly when some item is broken.
Otherwise it returns the root, an empty object when there are no items, whose `children` are the
nodes of the items without a parent, in input order; the node of each item has the nodes of its
children as `children`, in input order, when it has any, `leaf` set to whether it has none, and
the other members of its object. -/
theorem indented_list_to_tree_builds_tree {T : Type} (items : List T) (obj : T → List (String × Value))
    (lvl : T → Nat) (hobj : ∀ t ∈ items, get (obj t) "children" = none) :
    ((indentedListToTree (fun t => (.object (obj t), lvl t)) items).run =
        some (.error "broken indentation between levels") ↔ ∃ i, BrokenAt (items.map lvl) i) ∧
    ((¬ ∃ i, BrokenAt (items.map lvl) i) →
      ∃ root, (indentedListToTree (fun t => (.object (obj t), lvl t)) items).run = some (.ok (.object root)) ∧
        (items = [] → root = []) ∧
        (items ≠ [] → get root "children" =
            some (.array ((kidsOf (items.map lvl) none).map (treeNode (items.map lvl) (items.map obj)))) ∧
          get root "leaf" = some (.bool false)) ∧
        ∀ i (hi : i < items.length), ∃ m, treeNode (items.map lvl) (items.map obj) i = .object m ∧
          get m "children" = (if kidsOf (items.map lvl) (some i) = [] then none else
            some (.array ((kidsOf (items.map lvl) (some i)).map (treeNode (items.map lvl) (items.map obj))))) ∧
          get m "leaf" = some (.bool (kidsOf (items.map lvl) (some i)).isEmpty) ∧
          ∀ k, k ≠ "children" → k ≠ "leaf" → get m k = get (obj items[i]) k) := by
  have hlen : (items.map lvl).length = items.length := List.length_map _
  -- without a broken item the loop runs through and the remaining entries are closed
  have hrun : (¬ ∃ i, BrokenAt (items.map lvl) i) →
      (indentedListToTree (fun t => (.object (obj t), lvl t)) items).run =
        some (.ok (.object (closeAll (stateAt (items.map lvl) (items.map obj) items.length).1
          (stateAt (items.map lvl) (items.map obj) items.length).2).node)) := by
    intro hok
    have hfold : (items.take items.length).foldlM (addItem fun t => (.object (obj t), lvl t))
        (StackItem.root, []) = pure (stateAt (items.map lvl) (items.map obj) items.length) :=
      foldlM_take (Nat.le_refl items.length) fun i _ hi => hok ⟨i, hi⟩
    rw [List.take_length] at hfold
    simp only [indentedListToTree, hfold, pure_bind]
    rfl
  refine ⟨⟨fun herr => ?_, fun hbroken => ?_⟩, fun hok => ?_⟩
  · by_contra hok
    rw [hrun hok] at herr
    cases herr
  · -- the loop fails at the first broken item
    classical
    rw [indentedListToTree, foldlM_of_brokenAt (Nat.find_spec hbroken) fun j hj => Nat.find_min hbroken hj]
    rfl
  · refine ⟨_, hrun hok, fun hnil => by subst hnil; rfl, fun hne => ?_, fun i hi => ?_⟩
    · obtain ⟨k, hk⟩ := Nat.exists_eq_succ_of_ne_zero (mt List.length_eq_zero_iff.1 hne)
      -- the last item has no children, and no item comes after it
      have hkn : k < (items.map lvl).length := by omega
      have hclosed : closedEntry (items.map lvl) (items.map obj) k = openEntry (items.map lvl) (items.map obj) k := by
        refine closedEntry_eq_openEntry ?_
        rw [kidsOf_some_eq_kidsBelow (x := k + 1) fun j hj hjn => by omega,
          kidsBelow_eq_nil_of_le (Nat.le_refl (k + 1))]
      have hroot : closeAll (closedEntry (items.map lvl) (items.map obj) k)
          (ancestors (items.map lvl) (items.map obj) k) = _ :=
        closeAll_closedEntry k hkn fun j hj hjn => by omega
      have hkey : "children" ≠ "leaf" := by decide
      rw [hk, stateAt, ← hclosed, hroot]
      exact ⟨by rw [get_insert_of_ne _ hkey, get_insert_self], get_insert_self _ _ _⟩
    · have hobj_i : (items.map obj).getD i [] = obj items[i] := by
        simp [List.getD_eq_getElem?_getD, hi]
      refine ⟨_, treeNode_eq _ i, ?_, ?_, fun k hc hl => ?_⟩
      · rw [get_withChildren_children, hobj_i, hobj _ (List.getElem_mem hi)]
        by_cases hnil : kidsOf (items.map lvl) (some i) = []
        · simp [hnil]
        · simp [hnil]
      · rw [get_withChildren_leaf, List.isEmpty_map]
      · rw [get_withChildren_of_ne _ _ hc hl, hobj_i]

theorem indented_list_to_tree_builds_tree_nested :
    (∀ t ∈ [0, 1, 1], get ([] : List (String × Value)) "children" = none) ∧
    (((indentedListToTree (fun t : Nat => (.object [], t)) [0, 1, 1]).run =
        some (.error "broken indentation between levels") ↔ ∃ i, BrokenAt ([0, 1, 1].map id) i) ∧
    ((¬ ∃ i, BrokenAt ([0, 1, 1].map id) i) →
      ∃ root, (indentedListToTree (fun t : Nat => (.object [], t)) [0, 1, 1]).run = some (.ok (.object root)) ∧
        ([0, 1, 1] = ([] : List Nat) → root = []) ∧
        ([0, 1, 1] ≠ ([] : List Nat) → get root "children" =
            some (.array ((kidsOf ([0, 1, 1].map id) none).map
              (treeNode ([0, 1, 1].map id) ([0, 1, 1].map fun _ => [])))) ∧
          get root "leaf" = some (.bool false)) ∧
        ∀ i (_ : i < [0, 1, 1].length), ∃ m,
          treeNode ([0, 1, 1].map id) ([0, 1, 1].map fun _ => []) i = .object m ∧
          get m "children" = (if kidsOf ([0, 1, 1].map id) (some i) = [] then none else
            some (.array ((kidsOf ([0, 1, 1].map id) (some i)).map
              (treeNode ([0, 1, 1].map id) ([0, 1, 1].map fun _ => []))))) ∧
          get m "leaf" = some (.bool (kidsOf ([0, 1, 1].map id) (some i)).isEmpty) ∧
          ∀ k, k ≠ "children" → k ≠ "leaf" → get m k = get [] k)) :=
  ⟨fun _ _ => rfl, indented_list_to_tree_builds_tree [0, 1, 1] (fun _ => []) id fun _ _ => rfl⟩

/-- A leaf keeps a `children` member of its own object: the node of the single item of level 0
whose object is `{"children": [null]}` has that member, though no item follows, and is a leaf. -/
theorem indented_list_to_tree_keeps_leaf_children :
    (indentedListToTree (fun (_ : Unit) => (.object [("children", .array [.null])], 0)) [()]).run =
      some (.ok (.object [("leaf", .bool false),
        ("children", .array [.object [("leaf", .bool true), ("children", .array [.null])]])])) := by
  rfl

end ProxmoxBackup.ZpoolStatus
