import Mathlib

/-!
# Doubly linked lists laid out in a heap

A doubly linked list lives in memory as nodes, each with a link to the node before it and one
to the node after it, null at the two ends. This module describes such a layout through the
links alone: `Links π` gives, at each allocated address, the pair of links of its node, and
`Linked links head tail ps` says that the distinct addresses `ps` form the list from `head` to
`tail`, each linked to its neighbours `before ps p` and `after ps p`.

The pointer surgery of a list is written with two writes, `setNext` and `setPrev` (a write
through a null link does nothing, as the guarded writes of list code do), and comes in two
shapes:

* `unlink`: the neighbours of a node joined around it; the list loses that node
  (`Linked.unlink`, with the head and the tail moved when the node was at an end);
* `push`: a new node linked in front of the head (`Linked.push`).
-/

namespace LinkedHeap

section Neighbours

variable {α : Type*} [DecidableEq α]

/-! ## Neighbours in a list -/

/-- The element after `a` in `l`. -/
def after : List α → α → Option α
  | x :: y :: rest, a => if x = a then some y else after (y :: rest) a
  | _, _ => none

/-- The element before `a` in `l`. -/
def before : List α → α → Option α
  | x :: y :: rest, a => if y = a then some x else before (y :: rest) a
  | _, _ => none

@[simp] theorem after_nil (a : α) : after [] a = none := rfl

@[simp] theorem before_nil (a : α) : before [] a = none := rfl

theorem after_cons (x : α) (l : List α) (a : α) :
    after (x :: l) a = if x = a then l.head? else after l a := by
  cases l with
  | nil => simp [after]
  | cons y rest => rfl

theorem before_cons (x : α) (l : List α) (a : α) :
    before (x :: l) a = if l.head? = some a then some x else before l a := by
  cases l with
  | nil => simp [before]
  | cons y rest => simp [before]

theorem mem_of_after_eq_some {l : List α} {a b : α} (h : after l a = some b) : a ∈ l ∧ b ∈ l := by
  induction l with
  | nil => simp at h
  | cons x l ih =>
    rw [after_cons] at h
    split at h
    · next hxa =>
      subst hxa
      exact ⟨List.mem_cons_self, List.mem_cons_of_mem _ (List.mem_of_mem_head? h)⟩
    · obtain ⟨ha, hb⟩ := ih h
      exact ⟨List.mem_cons_of_mem _ ha, List.mem_cons_of_mem _ hb⟩

theorem mem_of_before_eq_some {l : List α} {a b : α} (h : before l a = some b) :
    a ∈ l ∧ b ∈ l := by
  induction l with
  | nil => simp at h
  | cons x l ih =>
    rw [before_cons] at h
    split at h
    · next hx =>
      cases h
      exact ⟨List.mem_cons_of_mem _ (List.mem_of_mem_head? hx), List.mem_cons_self⟩
    · obtain ⟨ha, hb⟩ := ih h
      exact ⟨List.mem_cons_of_mem _ ha, List.mem_cons_of_mem _ hb⟩

theorem before_eq_none_of_not_mem {l : List α} {a : α} (h : a ∉ l) : before l a = none := by
  cases hb : before l a with
  | none => rfl
  | some b => exact absurd (mem_of_before_eq_some hb).1 h

variable {l : List α}

omit [DecidableEq α] in
theorem head?_ne_of_not_mem {a : α} (h : a ∉ l) : l.head? ≠ some a :=
  fun hh => h (List.mem_of_mem_head? hh)

/-- Nothing comes before the head. -/
theorem before_eq_none_of_head (hl : l.Nodup) {a : α} (h : l.head? = some a) :
    before l a = none := by
  cases l with
  | nil => rfl
  | cons x l =>
    simp only [List.head?_cons, Option.some.injEq] at h
    subst h
    rw [List.nodup_cons] at hl
    rw [before_cons, if_neg (head?_ne_of_not_mem hl.1), before_eq_none_of_not_mem hl.1]

/-- In a list without repetitions, `b` follows `a` exactly when `a` precedes `b`. -/
theorem after_eq_some_iff (hl : l.Nodup) {a b : α} : after l a = some b ↔ before l b = some a := by
  induction l with
  | nil => simp
  | cons x l ih =>
    rw [List.nodup_cons] at hl
    rw [after_cons, before_cons]
    by_cases hxa : x = a
    · subst hxa
      -- `x` is not in `l`, so nothing in `l` comes after it
      have hnot : before l b ≠ some x := fun h => hl.1 (mem_of_before_eq_some h).2
      by_cases hb : l.head? = some b <;> simp [hb, hnot]
    · by_cases hb : l.head? = some b
      · -- `b` heads `l`, so it follows nothing in `l`
        have hnone := before_eq_none_of_head hl.2 hb
        simp only [hxa, if_false, hb, if_true, Option.some.injEq, ih hl.2, hnone]
        simp
      · simp [hxa, hb, ih hl.2]

theorem before_eq_none_iff (hl : l.Nodup) {a : α} (ha : a ∈ l) :
    before l a = none ↔ l.head? = some a := by
  induction l with
  | nil => simp at ha
  | cons x l ih =>
    rw [List.nodup_cons] at hl
    rw [before_cons]
    rcases List.mem_cons.mp ha with rfl | ha'
    · simp [head?_ne_of_not_mem hl.1, before_eq_none_of_not_mem hl.1]
    · have hxa : x ≠ a := fun h => hl.1 (h ▸ ha')
      by_cases hb : l.head? = some a
      · simp [hb, hxa]
      · simp [hb, ih hl.2 ha', hxa]

theorem after_eq_none_iff (hl : l.Nodup) {a : α} (ha : a ∈ l) :
    after l a = none ↔ l.getLast? = some a := by
  induction l with
  | nil => simp at ha
  | cons x l ih =>
    rw [List.nodup_cons] at hl
    rw [after_cons, List.getLast?_cons]
    rcases List.mem_cons.mp ha with rfl | ha'
    · -- `a` heads the list: it is last exactly when the rest is empty
      cases l with
      | nil => simp
      | cons y rest =>
        have hlast : (y :: rest).getLast? ≠ some a :=
          fun h => hl.1 (List.mem_of_mem_getLast? h)
        simp only [if_true, List.head?_cons, reduceCtorEq, false_iff]
        cases hy : (y :: rest).getLast? with
        | none => simp at hy
        | some z => simp only [Option.getD_some, Option.some.injEq]; rintro rfl; exact hlast hy
    · have hxa : x ≠ a := fun h => hl.1 (h ▸ ha')
      have hne : l.getLast? ≠ none := by
        rw [Ne, List.getLast?_eq_none_iff]; rintro rfl; simp at ha'
      obtain ⟨z, hz⟩ := Option.ne_none_iff_exists'.mp hne
      simp only [hxa, if_false, ih hl.2 ha', hz, Option.getD_some]

/-- Two elements cannot each come right after the other. -/
theorem not_after_cycle (hl : l.Nodup) {a b : α} (hab : after l a = some b)
    (hba : after l b = some a) : False := by
  induction l with
  | nil => simp at hab
  | cons x l ih =>
    rw [List.nodup_cons] at hl
    rw [after_cons] at hab hba
    by_cases hxa : x = a
    · subst hxa
      rw [if_pos rfl] at hab
      have hb : b ∈ l := List.mem_of_mem_head? hab
      have hxb : x ≠ b := fun h => hl.1 (h ▸ hb)
      rw [if_neg hxb] at hba
      exact hl.1 (mem_of_after_eq_some hba).2
    · rw [if_neg hxa] at hab
      have hxb : x ≠ b := fun h => hl.1 (h ▸ (mem_of_after_eq_some hab).2)
      rw [if_neg hxb] at hba
      exact ih hl.2 hab hba

/-- The two neighbours of an element are different. -/
theorem before_ne_after (hl : l.Nodup) {a b : α} (hb : before l a = some b) :
    after l a ≠ some b :=
  fun ha => not_after_cycle hl ha ((after_eq_some_iff hl).mpr hb)

theorem head?_erase (hl : l.Nodup) (p : α) :
    (l.erase p).head? = if l.head? = some p then after l p else l.head? := by
  cases l with
  | nil => simp
  | cons x l =>
    by_cases hxp : x = p
    · subst hxp
      simp [after_cons]
    · simp [hxp]

theorem after_erase (hl : l.Nodup) {p q : α} (hq : q ≠ p) :
    after (l.erase p) q = if after l q = some p then after l p else after l q := by
  induction l with
  | nil => simp
  | cons x l ih =>
    rw [List.nodup_cons] at hl
    by_cases hxp : x = p
    · subst hxp
      -- erasing the head: `x` follows nothing in `l`
      have hnot : after l q ≠ some x := fun h => hl.1 (mem_of_after_eq_some h).2
      simp [after_cons, Ne.symm hq, hnot]
    · rw [List.erase_cons, if_neg (by simpa using hxp), after_cons, after_cons, after_cons,
        if_neg hxp]
      by_cases hxq : x = q
      · simp only [hxq, if_true, head?_erase hl.2]
      · simp only [hxq, if_false, ih hl.2]

theorem before_erase (hl : l.Nodup) {p q : α} (hq : q ≠ p) :
    before (l.erase p) q = if before l q = some p then before l p else before l q := by
  induction l with
  | nil => simp
  | cons x l ih =>
    rw [List.nodup_cons] at hl
    by_cases hxp : x = p
    · subst hxp
      rw [List.erase_cons_head, before_cons, before_cons, if_neg (head?_ne_of_not_mem hl.1),
        before_eq_none_of_not_mem hl.1]
      by_cases hb : l.head? = some q
      · simp [hb, before_eq_none_of_head hl.2 hb]
      · have hnot : before l q ≠ some x := fun h => hl.1 (mem_of_before_eq_some h).2
        simp [hb, hnot]
    · rw [List.erase_cons, if_neg (by simpa using hxp), before_cons, before_cons, before_cons,
        head?_erase hl.2]
      by_cases hb : l.head? = some q
      · simp [hb, hq, hxp]
      · by_cases hp : l.head? = some p ∧ after l p = some q
        · -- `q` moves up to the head: `x` comes before it
          obtain ⟨hp, hpq⟩ := hp
          have hqp : before l q = some p := (after_eq_some_iff hl.2).mp hpq
          simp [hp, hpq, hqp, Ne.symm hq]
        · rw [ih hl.2]
          by_cases hqp : before l q = some p
          · have hnp : l.head? ≠ some p := fun h => hp ⟨h, (after_eq_some_iff hl.2).mpr hqp⟩
            simp [hb, hqp, hnp]
          · have : ¬ (l.head? = some p ∧ after l p = some q) := hp
            by_cases hlp : l.head? = some p <;> simp_all

theorem getLast?_erase (hl : l.Nodup) (p : α) :
    (l.erase p).getLast? = if l.getLast? = some p then before l p else l.getLast? := by
  induction l with
  | nil => simp
  | cons x l ih =>
    rw [List.nodup_cons] at hl
    by_cases hxp : x = p
    · subst hxp
      rw [List.erase_cons_head, before_cons, if_neg (head?_ne_of_not_mem hl.1),
        before_eq_none_of_not_mem hl.1]
      cases hl' : l.getLast? with
      | none => simp [List.getLast?_eq_none_iff.mp hl']
      | some z =>
        have hzx : z ≠ x := fun h => hl.1 (h ▸ List.mem_of_mem_getLast? hl')
        simp [List.getLast?_cons, hl', hzx]
    · rw [List.erase_cons, if_neg (by simpa using hxp), List.getLast?_cons, List.getLast?_cons,
        before_cons]
      by_cases hpl : p ∈ l
      · rw [ih hl.2]
        have hne : l.getLast? ≠ none := by
          rw [Ne, List.getLast?_eq_none_iff]; rintro rfl; simp at hpl
        obtain ⟨z, hz⟩ := Option.ne_none_iff_exists'.mp hne
        by_cases hzp : z = p
        · subst hzp
          -- `p` is last: the new last is whatever came before it
          cases hb : before l z with
          | none =>
            have hhead := (before_eq_none_iff hl.2 hpl).mp hb
            simp [hz, hhead]
          | some y =>
            have hhead : l.head? ≠ some z := fun h => by
              rw [before_eq_none_of_head hl.2 h] at hb; simp at hb
            simp [hz, hhead]
        · simp [hz, hzp]
      · rw [List.erase_of_not_mem hpl]
        have : (l.getLast?.getD x) ≠ p := by
          cases hz : l.getLast? with
          | none => simpa using hxp
          | some z => exact fun h => hpl (by simp at h; exact h ▸ List.mem_of_mem_getLast? hz)
        simp [this]

omit [DecidableEq α] in
/-- In a list of two elements or more without repetitions, the first is not the last. -/
theorem head?_ne_of_getLast? (hl : l.Nodup) (hlen : 2 ≤ l.length) {t : α}
    (ht : l.getLast? = some t) : l.head? ≠ some t := by
  match l, hlen with
  | x :: y :: rest, _ =>
    rw [List.getLast?_cons_cons] at ht
    rw [List.nodup_cons] at hl
    simp only [List.head?_cons, ne_eq, Option.some.injEq]
    rintro rfl
    exact hl.1 (List.mem_of_mem_getLast? ht)

/-- Erasing the last element drops it. -/
theorem erase_eq_dropLast (hl : l.Nodup) {t : α} (ht : l.getLast? = some t) :
    l.erase t = l.dropLast := by
  induction l with
  | nil => simp at ht
  | cons x l ih =>
    rw [List.nodup_cons] at hl
    cases l with
    | nil =>
      simp only [List.getLast?_singleton, Option.some.injEq] at ht
      simp [ht]
    | cons y rest =>
      rw [List.getLast?_cons_cons] at ht
      have hxt : x ≠ t := fun h => hl.1 (h ▸ List.mem_of_mem_getLast? ht)
      rw [List.erase_cons_tail (by simpa using hxt), ih hl.2 ht, List.dropLast_cons_cons]

end Neighbours

/-! ## Lists in a heap -/

section Heap

variable {π : Type*} [DecidableEq π]

/-- The links of a heap of list nodes: at each allocated address, the link to the node before
and the link to the node after. -/
abbrev Links (π : Type*) := π → Option (Option π × Option π)

/-- `(*q).next = x`, for a node `q` that may be null. -/
def setNext (links : Links π) (q x : Option π) : Links π := fun r =>
  if q = some r then (links r).map fun l => (l.1, x) else links r

/-- `(*q).prev = x`, for a node `q` that may be null. -/
def setPrev (links : Links π) (q x : Option π) : Links π := fun r =>
  if q = some r then (links r).map fun l => (x, l.2) else links r

/-- The neighbours `prev` and `next` of a node joined around it. -/
def unlink (links : Links π) (prev next : Option π) : Links π :=
  setPrev (setNext links prev next) next prev

/-- A node `p` linked in front of the node `head`. -/
def push (links : Links π) (p : π) (head : Option π) : Links π :=
  setPrev (Function.update links p (some (none, head))) head (some p)

@[simp] theorem setNext_none (links : Links π) (x : Option π) : setNext links none x = links := by
  funext r
  simp [setNext]

@[simp] theorem setPrev_none (links : Links π) (x : Option π) : setPrev links none x = links := by
  funext r
  simp [setPrev]

/-- `ps`, from `head` to `tail`, is laid out as a doubly linked list: its addresses are distinct
and each holds a node linked to its neighbours in `ps`. -/
structure Linked (links : Links π) (head tail : Option π) (ps : List π) : Prop where
  nodup : ps.Nodup
  head_eq : head = ps.head?
  tail_eq : tail = ps.getLast?
  links_eq : ∀ p ∈ ps, links p = some (before ps p, after ps p)

variable {links links' : Links π} {head tail : Option π} {ps : List π}

theorem Linked.nil (links : Links π) : Linked links none none [] :=
  ⟨List.nodup_nil, rfl, rfl, by simp⟩

/-- Only the links of the list's own nodes matter. -/
theorem Linked.congr (h : Linked links head tail ps) (heq : ∀ p ∈ ps, links' p = links p) :
    Linked links' head tail ps :=
  ⟨h.nodup, h.head_eq, h.tail_eq, fun p hp => (heq p hp).trans (h.links_eq p hp)⟩

theorem Linked.mem_of_head (h : Linked links head tail ps) {p : π} (hp : head = some p) :
    p ∈ ps :=
  List.mem_of_mem_head? (h.head_eq ▸ hp)

/-- The head moves on unlinking `p` exactly when nothing comes before `p`. -/
theorem Linked.head_unlink (h : Linked links head tail ps) {p : π} (hp : p ∈ ps) :
    (if head = some p then after ps p else head) =
      if (before ps p).isSome then head else after ps p := by
  rw [h.head_eq]
  by_cases hb : before ps p = none
  · rw [(before_eq_none_iff h.nodup hp).mp hb, hb]
    simp
  · have hhead : ps.head? ≠ some p := fun hh => hb ((before_eq_none_iff h.nodup hp).mpr hh)
    simp [hhead, Option.isSome_iff_ne_none.mpr hb]

/-- The tail moves on unlinking `p` exactly when nothing comes after `p`. -/
theorem Linked.tail_unlink (h : Linked links head tail ps) {p : π} (hp : p ∈ ps) :
    (if tail = some p then before ps p else tail) =
      if (after ps p).isSome then tail else before ps p := by
  rw [h.tail_eq]
  by_cases ha : after ps p = none
  · rw [(after_eq_none_iff h.nodup hp).mp ha, ha]
    simp
  · have htail : ps.getLast? ≠ some p := fun hh => ha ((after_eq_none_iff h.nodup hp).mpr hh)
    simp [htail, Option.isSome_iff_ne_none.mpr ha]

/-- Unlinking a node of the list removes it from the list; the head and the tail move to its
neighbours when it was at an end. -/
theorem Linked.unlink (h : Linked links head tail ps) (p : π) :
    Linked (unlink links (before ps p) (after ps p))
      (if head = some p then after ps p else head)
      (if tail = some p then before ps p else tail) (ps.erase p) := by
  refine ⟨h.nodup.erase p, ?_, ?_, ?_⟩
  · rw [h.head_eq, head?_erase h.nodup]
  · rw [h.tail_eq, getLast?_erase h.nodup]
  · intro q hq
    obtain ⟨hqp, hq⟩ := (h.nodup.mem_erase_iff).mp hq
    -- `q` is the node after `p` exactly when `p` is the node before `q`, and the other way
    have hnext : after ps p = some q ↔ before ps q = some p := after_eq_some_iff h.nodup
    have hprev : before ps p = some q ↔ after ps q = some p := (after_eq_some_iff h.nodup).symm
    rw [before_erase h.nodup hqp, after_erase h.nodup hqp]
    simp only [LinkedHeap.unlink, setPrev, setNext, h.links_eq q hq, hnext, hprev]
    by_cases hb : before ps q = some p <;> by_cases ha : after ps q = some p
    · exact absurd (hb ▸ ha) (before_ne_after h.nodup hb)
    all_goals simp [ha, hb]

/-- Pushing a new node in front of the head adds it to the front of the list. -/
theorem Linked.push (h : Linked links head tail ps) {p : π} (hp : p ∉ ps) :
    Linked (push links p head) (some p) (if tail = none then some p else tail) (p :: ps) := by
  refine ⟨List.nodup_cons.mpr ⟨hp, h.nodup⟩, rfl, ?_, ?_⟩
  · rw [h.tail_eq, List.getLast?_cons]
    cases ps.getLast? <;> simp
  · intro q hq
    rw [before_cons, after_cons, ← h.head_eq]
    rcases List.mem_cons.mp hq with rfl | hq
    · have hhead : head ≠ some q := fun hh => hp (h.mem_of_head hh)
      simp [LinkedHeap.push, setPrev, hhead, before_eq_none_of_not_mem hp]
    · have hqp : q ≠ p := fun hh => hp (hh ▸ hq)
      by_cases hhead : head = some q
      · simp [LinkedHeap.push, setPrev, hhead, hqp, Ne.symm hqp, h.links_eq q hq]
      · simp [LinkedHeap.push, setPrev, hhead, hqp, Ne.symm hqp, h.links_eq q hq]

end Heap

end LinkedHeap
