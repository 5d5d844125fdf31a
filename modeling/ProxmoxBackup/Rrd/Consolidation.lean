import Mathlib
import ProxmoxBackup.Rrd.Database

/-!
# What a round robin archive reports

An archive of `N` slots of resolution `r` should report, for every interval of its window, the
consolidation of the values that the source accepted in that interval, and nothing for any
other. For the consolidation functions that keep one of the values (`Selector`: the largest, the
smallest or the last), this file proves that it does, over every sequence of updates of a gauge
source whose times increase and are all at least `r` (`extract_data_consolidates_slot`).

The proof carries one invariant over the updates (`Holds`): the index `i` of the ring holds the
consolidation of the values of the window's slot stored at `i` (`windowValues`). An update keeps
it in two steps, as the source makes it:
* `delete_old_slots` clears, among the slots of the old window, exactly those that the new window
  leaves (`clears_iff`), so that afterwards the ring is the new window's minus the new value
  (`Holds.deleteOldSlots_getElem?`);
* `compute_new_value` then consolidates the new value into its slot (`Holds.update`).
Extraction reads the window back (`Holds.getElem?_extractData`).

The walk of `delete_old_slots` starts one round of the ring before the last update, saturated at
time `0`. Near time `0` it therefore starts at index `0` and never clears it, and a value of the
first interval `[0, r)` survives into the interval `N` slots later: `extract_data_reports_stale_slot`
is such a run, and the hypothesis that no update lies in `[0, r)` is what `clears_iff` needs.
-/

namespace ProxmoxBackup.Rrd

/-- The consolidation functions that keep one of the values of an interval. -/
inductive Selector where
  | maximum
  | minimum
  | last
  deriving DecidableEq, Repr

namespace Selector

def toCF : Selector → CF
  | .maximum => .maximum
  | .minimum => .minimum
  | .last => .last

variable {V : Type} [LinearOrder V]

/-- The value kept of an earlier `a` and a later `v`. -/
def pick : Selector → V → V → V
  | .maximum, a, v => max a v
  | .minimum, a, v => min a v
  | .last, _, v => v

/-- The consolidated value of the values of one interval, in the order they arrived. -/
def consolidate : Selector → List V → Option V
  | .maximum, vs => vs.max?
  | .minimum, vs => vs.min?
  | .last, vs => vs.getLast?

@[simp] theorem consolidate_nil (sel : Selector) : sel.consolidate ([] : List V) = none := by
  cases sel <;> rfl

/-- A later value is consolidated with the earlier ones by `pick`. -/
theorem consolidate_concat (sel : Selector) (vs : List V) (v : V) :
    sel.consolidate (vs ++ [v]) = some ((sel.consolidate vs).elim v fun a => sel.pick a v) := by
  cases sel with
  | last =>
    simp only [consolidate, pick, List.getLast?_concat]
    cases vs.getLast? <;> rfl
  | maximum =>
    cases vs with
    | nil => rfl
    | cons x xs =>
      simp only [consolidate, pick, List.cons_append, List.max?_cons', List.foldl_concat,
        Option.elim]
  | minimum =>
    cases vs with
    | nil => rfl
    | cons x xs =>
      simp only [consolidate, pick, List.cons_append, List.min?_cons', List.foldl_concat,
        Option.elim]

/-- The source's comparisons are `max`, `min` and the later value. -/
theorem newValue_toCF [Add V] [Mul V] [Div V] [NatCast V] (sel : Selector) (lastValue : V)
    (lastCount newCount : Nat) (value : V) :
    sel.toCF.newValue lastValue lastCount newCount value = sel.pick lastValue value := by
  cases sel with
  | maximum =>
    rw [toCF, CF.newValue, pick, max_comm, max_def_lt]
  | minimum => rw [toCF, CF.newValue, pick, min_def_lt]
  | last => rfl

end Selector

section Spec

variable {V : Type}

/-- The updates a gauge source accepts, with their values: a NaN value is refused. -/
def accepted (updates : List (Nat × Option V)) : List (Nat × V) :=
  updates.filterMap fun u => u.2.map (u.1, ·)

/-- The values of the accepted updates whose time lies in slot `s` of resolution `r`, that is in
`[r * s, r * s + r)`. -/
def slotValues (r s : Nat) (updates : List (Nat × Option V)) : List V :=
  ((accepted updates).filter fun u => u.1 / r = s).map Prod.snd

/-- The values of `hs` that an archive of `N` slots of resolution `r` keeps at index `i` while
its last update is at `lastUpdate`: those of the slot stored at `i` among the `N` slots that end
with the slot of `lastUpdate`. -/
def windowValues (r N lastUpdate i : Nat) (hs : List (Nat × V)) : List V :=
  (hs.filter fun u => u.1 / r % N = i ∧ lastUpdate / r < u.1 / r + N).map Prod.snd

@[simp] theorem accepted_nil : accepted ([] : List (Nat × Option V)) = [] := rfl

theorem accepted_cons (u : Nat × Option V) (updates : List (Nat × Option V)) :
    accepted (u :: updates) = accepted [u] ++ accepted updates := by
  rcases u with ⟨t, _ | v⟩ <;> rfl

/-- Two slots of one window of `N` slots stored at the same index are the same slot. -/
theorem eq_of_mod_eq_of_window {N c x y : Nat} (hx : x ≤ c) (hx' : c < x + N) (hy : y ≤ c)
    (hy' : c < y + N) (h : x % N = y % N) : x = y := by
  apply Nat.ModEq.eq_of_abs_lt h
  rw [abs_sub_lt_iff]
  constructor <;> omega

/-- The index of a slot of the window holds the values of that slot alone. -/
theorem windowValues_mod {r N lastUpdate s : Nat} {hs : List (Nat × V)}
    (hle : ∀ u ∈ hs, u.1 ≤ lastUpdate) (hsa : s ≤ lastUpdate / r)
    (hwin : lastUpdate / r < s + N) :
    windowValues r N lastUpdate (s % N) hs = (hs.filter fun u => u.1 / r = s).map Prod.snd := by
  unfold windowValues
  congr 1
  apply List.filter_congr
  intro u hu
  have hu_le : u.1 / r ≤ lastUpdate / r := Nat.div_le_div_right (hle u hu)
  simp only [decide_eq_decide]
  constructor
  · rintro ⟨hmod, hwin'⟩
    exact eq_of_mod_eq_of_window hu_le hwin' hsa hwin hmod
  · rintro hslot
    rw [hslot]
    exact ⟨rfl, hwin⟩

/-- An update at `time` adds its value to the index of its own slot. -/
theorem windowValues_append_self {r N : Nat} (hN : 0 < N) (time i : Nat) (hs : List (Nat × V))
    (v : V) :
    windowValues r N time i (hs ++ [(time, v)]) =
      windowValues r N time i hs ++ if time / r % N = i then [v] else [] := by
  unfold windowValues
  rw [List.filter_append, List.map_append]
  congr 1
  by_cases hi : time / r % N = i <;> simp [hi, hN]

end Spec

section Loops

variable {V : Type}

theorem lt_mul_iff_div_lt {r x m : Nat} (hr : 0 < r) : x < r * m ↔ x / r < m := by
  rw [Nat.div_lt_iff_lt_mul hr, Nat.mul_comm]

open Classical in
/-- Exactly the steps `k` of the loop of `delete_old_slots` whose time is still before `minTime`
clear an index: index `k` after the start. -/
theorem getElem?_clearOldSlots {reso minTime : Nat} (n t index : Nat) (data : List (Option V))
    (hindex : index < data.length) (i : Nat) :
    (RRA.clearOldSlots reso minTime n t index data)[i]? =
      if ∃ k, 1 ≤ k ∧ k ≤ n ∧ t + k * reso < minTime ∧ (index + k) % data.length = i then
        some none
      else data[i]? := by
  induction n generalizing t index data with
  | zero =>
    simp only [RRA.clearOldSlots]
    rw [if_neg (by rintro ⟨k, hk1, hk0, -⟩; omega)]
  | succ n ih =>
    have hlen : 0 < data.length := by omega
    have hnext : nextIndex data.length index = (index + 1) % data.length := nextIndex_eq_mod hindex
    simp only [RRA.clearOldSlots]
    split
    case isTrue hstep =>
      -- step `1` clears the next index, and the rest of the loop steps `2 ..= n + 1`
      have hnext_lt : (index + 1) % data.length < data.length := Nat.mod_lt _ hlen
      rw [ih (t + reso) (nextIndex data.length index) (data.set (nextIndex data.length index) none)
          (by rw [List.length_set, hnext]; exact hnext_lt), List.getElem?_set,
        List.length_set, hnext]
      have hsteps : (∃ k, 1 ≤ k ∧ k ≤ n + 1 ∧ t + k * reso < minTime ∧
          (index + k) % data.length = i) ↔ (index + 1) % data.length = i ∨
          ∃ k, 1 ≤ k ∧ k ≤ n ∧ t + reso + k * reso < minTime ∧
            ((index + 1) % data.length + k) % data.length = i := by
        simp only [Nat.mod_add_mod]
        constructor
        · rintro ⟨_ | k, hk1, hkn, hkt, hki⟩
          · omega
          · rcases Nat.eq_zero_or_pos k with rfl | hk
            · exact .inl hki
            · refine .inr ⟨k, hk, by omega, by rw [Nat.succ_mul] at hkt; omega, ?_⟩
              rwa [show index + 1 + k = index + (k + 1) by omega]
        · rintro (hi | ⟨k, hk1, hkn, hkt, hki⟩)
          · exact ⟨1, le_rfl, by omega, by omega, hi⟩
          · refine ⟨k + 1, by omega, by omega, ?_, ?_⟩
            · rw [Nat.succ_mul]
              omega
            · rwa [show index + (k + 1) = index + 1 + k by omega]
      rw [hsteps]
      by_cases hcur : (index + 1) % data.length = i
      · have hi : i < data.length := hcur ▸ hnext_lt
        simp [hcur, hi]
      · simp [hcur]
    case isFalse hstop =>
      -- every step's time is at least the first's, which is already too late
      have hnone : ¬ ∃ k, 1 ≤ k ∧ k ≤ n + 1 ∧ t + k * reso < minTime ∧
          (index + k) % data.length = i := by
        rintro ⟨k, hk1, -, hkt, -⟩
        have : reso ≤ k * reso := Nat.le_mul_of_pos_left reso hk1
        omega
      rw [if_neg hnone]

/-- The loop of `extract_data` reports, at position `j`, the slot `j` after the start, as long as
`j` is below the number of steps and its time is not after `endTime`. -/
theorem getElem?_extractList (data : List (Option V)) (reso endTime rrdStart rrdEnd n t index : Nat)
    (hindex : index < data.length) (j : Nat) :
    (RRA.extractList data reso endTime rrdStart rrdEnd n t index)[j]? =
      if j < n ∧ t + j * reso ≤ endTime then
        some (if t + j * reso < rrdStart ∨ t + j * reso ≥ rrdEnd then none
          else data.getD ((index + j) % data.length) none)
      else none := by
  induction n generalizing t index j with
  | zero => simp [RRA.extractList]
  | succ n ih =>
    have hlen : 0 < data.length := by omega
    simp only [RRA.extractList]
    split
    case isTrue hafter =>
      rw [List.getElem?_nil, if_neg (by omega)]
    case isFalse hbefore =>
      cases j with
      | zero =>
        simp [Nat.mod_eq_of_lt hindex]
        omega
      | succ j =>
        have hnext := nextIndex_eq_mod hindex
        rw [List.getElem?_cons_succ,
          ih (t + reso) (nextIndex data.length index) (by rw [hnext]; exact Nat.mod_lt _ hlen), hnext,
          Nat.mod_add_mod, show t + reso + j * reso = t + (j + 1) * reso by rw [Nat.succ_mul]; omega,
          show index + 1 + j = index + (j + 1) by omega]
        simp only [Nat.add_lt_add_iff_right]

open Classical in
/-- The indices that `delete_old_slots time lastUpdate` clears: the index `k` after the slot of
`lastUpdate - N r` (saturated), for every step `k` whose time is before `min_time`. -/
def Clears (rra : RRA V) (time lastUpdate i : Nat) : Prop :=
  ∃ k, 1 ≤ k ∧ k ≤ rra.data.length ∧
    lastUpdate - rra.data.length * rra.resolution + k * rra.resolution <
      rra.slotEndTime (time - rra.data.length * rra.resolution) ∧
    (rra.slot (lastUpdate - rra.data.length * rra.resolution) + k) % rra.data.length = i

open Classical in
theorem getElem?_deleteOldSlots (rra : RRA V) (hN : 0 < rra.data.length) (time lastUpdate i : Nat) :
    (rra.deleteOldSlots time lastUpdate).data[i]? =
      if Clears rra time lastUpdate i then some none else rra.data[i]? :=
  getElem?_clearOldSlots _ _ _ _ (Nat.mod_lt _ hN) i

/-- Among the slots of the window that ends with the slot of `lastUpdate`, other than slot `0`,
`delete_old_slots` clears the index of exactly those that the window ending with the slot of
`time` leaves. -/
theorem clears_iff (rra : RRA V) (hr : 0 < rra.resolution) (hN : 0 < rra.data.length)
    {time lastUpdate s : Nat} (hle : lastUpdate ≤ time) (hs : 0 < s)
    (hsa : s ≤ lastUpdate / rra.resolution)
    (hwin : lastUpdate / rra.resolution < s + rra.data.length) :
    Clears rra time lastUpdate (s % rra.data.length) ↔
      s + rra.data.length ≤ time / rra.resolution := by
  unfold Clears RRA.slot
  set r := rra.resolution
  set N := rra.data.length
  -- the walk starts at slot `b`, one round before the slot `a` of `lastUpdate` (or at `0`)
  have hb : (lastUpdate - N * r) / r = lastUpdate / r - N := by
    rw [Nat.mul_comm]
    exact Nat.sub_mul_div lastUpdate r N
  have hmin : rra.slotEndTime (time - N * r) = r * (time / r - N + 1) := by
    rw [RRA.slotEndTime, Nat.mul_comm N r, Nat.sub_mul_div]
  have hstep : ∀ k, lastUpdate - N * r + k * r < r * (time / r - N + 1) ↔
      lastUpdate / r - N + k ≤ time / r - N := by
    intro k
    rw [lt_mul_iff_div_lt hr, Nat.add_mul_div_right _ _ hr, hb]
    omega
  have hdiv : time / r ≥ lastUpdate / r := Nat.div_le_div_right hle
  simp only [hmin, hstep, hb, Nat.mod_add_mod]
  constructor
  · rintro ⟨k, hk1, hkN, hkt, hki⟩
    have hslot : lastUpdate / r - N + k = s := by
      refine eq_of_mod_eq_of_window (c := lastUpdate / r - N + N) ?_ ?_ ?_ ?_ hki <;> omega
    omega
  · intro hfar
    exact ⟨s - (lastUpdate / r - N), by omega, by omega, by omega,
      by rw [show lastUpdate / r - N + (s - (lastUpdate / r - N)) = s by omega]⟩

end Loops

section Invariant

variable {V : Type} [LinearOrder V]

/-- What an archive holds after the accepted updates `hs`, the last of them at `lastUpdate`: the
resolution, consolidation function and number of slots it was made with, every index holding the
consolidation of the values of its slot of the window, and a running count once a value was
stored. The updates are all at least one resolution after time `0`. -/
structure Holds (sel : Selector) (r N : Nat) (rra : RRA V) (lastUpdate : Nat)
    (hs : List (Nat × V)) : Prop where
  resolution_eq : rra.resolution = r
  cf_eq : rra.cf = sel.toCF
  length_eq : rra.data.length = N
  getElem?_data : ∀ i < N, rra.data[i]? = some (sel.consolidate (windowValues r N lastUpdate i hs))
  lastCount_pos : hs ≠ [] → 0 < rra.lastCount
  time_ge : ∀ u ∈ hs, r ≤ u.1
  time_le : ∀ u ∈ hs, u.1 ≤ lastUpdate

/-- A fresh archive holds no values. -/
theorem holds_new (sel : Selector) (r N : Nat) :
    Holds sel r N (RRA.new sel.toCF r N : RRA V) 0 [] where
  resolution_eq := rfl
  cf_eq := rfl
  length_eq := List.length_replicate
  getElem?_data i hi := by simp [RRA.new, windowValues, hi]
  lastCount_pos h := absurd rfl h
  time_ge := by simp
  time_le := by simp

section Step

variable {sel : Selector} {r N : Nat} {rra : RRA V} {lastUpdate : Nat} {hs : List (Nat × V)}

/-- After `delete_old_slots`, every index holds the consolidation of its slot of the new window,
without the new value. -/
theorem Holds.deleteOldSlots_getElem? (h : Holds sel r N rra lastUpdate hs) (hr : 0 < r)
    (hN : 0 < N) {time : Nat} (hle : lastUpdate ≤ time) :
    ∀ i < N, (rra.deleteOldSlots time lastUpdate).data[i]? =
      some (sel.consolidate (windowValues r N time i hs)) := by
  intro i hi
  have hr' : 0 < rra.resolution := h.resolution_eq ▸ hr
  have hN' : 0 < rra.data.length := h.length_eq ▸ hN
  -- the slot of an update of the old window: from `1` up to the slot of `lastUpdate`
  have hslot : ∀ u ∈ hs, 0 < u.1 / r ∧ u.1 / r ≤ lastUpdate / r := fun u hu =>
    ⟨(Nat.one_le_div_iff hr).mpr (h.time_ge u hu), Nat.div_le_div_right (h.time_le u hu)⟩
  have hdiv : lastUpdate / r ≤ time / r := Nat.div_le_div_right hle
  have hclears : ∀ u ∈ hs, lastUpdate / r < u.1 / r + N →
      (Clears rra time lastUpdate (u.1 / r % N) ↔ u.1 / r + N ≤ time / r) := by
    intro u hu hwin
    have hiff := clears_iff rra hr' hN' hle (s := u.1 / r)
      (hslot u hu).1 (by rw [h.resolution_eq]; exact (hslot u hu).2)
      (by rw [h.resolution_eq, h.length_eq]; exact hwin)
    rwa [h.resolution_eq, h.length_eq] at hiff
  rw [getElem?_deleteOldSlots rra hN']
  split_ifs with hc
  · -- a cleared index holds nothing of the new window
    have hnil : windowValues r N time i hs = [] := by
      simp only [windowValues, List.map_eq_nil_iff, List.filter_eq_nil_iff, decide_eq_true_eq]
      rintro u hu ⟨hmod, hwin⟩
      have hfar := (hclears u hu (by omega)).mp (by rw [hmod]; exact hc)
      omega
    rw [hnil, Selector.consolidate_nil]
  · -- an index that stays holds the same slots, all still in the new window
    rw [h.getElem?_data i hi]
    congr 2
    unfold windowValues
    congr 1
    apply List.filter_congr
    intro u hu
    simp only [decide_eq_decide]
    constructor
    · rintro ⟨hmod, hwin⟩
      refine ⟨hmod, Nat.lt_of_not_le fun hfar => hc ?_⟩
      have hcl := (hclears u hu hwin).mpr (by omega)
      rwa [hmod] at hcl
    · rintro ⟨hmod, hwin⟩
      exact ⟨hmod, by omega⟩

/-- One accepted update keeps the invariant. -/
theorem Holds.update [Add V] [Mul V] [Div V] [NatCast V] (h : Holds sel r N rra lastUpdate hs)
    (hr : 0 < r) (hN : 0 < N) {time : Nat} (hlt : lastUpdate < time) (hge : r ≤ time) (v : V) :
    Holds sel r N ((rra.deleteOldSlots time lastUpdate).computeNewValue time lastUpdate v) time
      (hs ++ [(time, v)]) := by
  set rra₁ := rra.deleteOldSlots time lastUpdate
  have h₁ := h.deleteOldSlots_getElem? hr hN hlt.le
  have hres₁ : rra₁.resolution = r := h.resolution_eq
  have hlen₁ : rra₁.data.length = N := by simp [rra₁, h.length_eq]
  have hidx : rra₁.slot time = time / r % N := by rw [RRA.slot, hres₁, hlen₁]
  have hidx_lt : time / r % N < N := Nat.mod_lt _ hN
  -- the index of `time` holds the values of its slot, and those only when it is `lastUpdate`'s
  have hcur : rra₁.data.getD (rra₁.slot time) none =
      sel.consolidate (windowValues r N time (time / r % N) hs) := by
    rw [List.getD_eq_getElem?_getD, hidx, h₁ _ hidx_lt, Option.getD_some]
  -- what the invariant says after writing `w` at the index of `time`
  have hwrite : ∀ (w : V) (c : Nat), 0 < c →
      sel.consolidate (windowValues r N time (time / r % N) (hs ++ [(time, v)])) = some w →
      Holds sel r N { rra₁ with data := rra₁.data.set (rra₁.slot time) (some w), lastCount := c }
        time (hs ++ [(time, v)]) := by
    intro w c hc hw
    refine ⟨hres₁, h.cf_eq, by simp [hlen₁], ?_, fun _ => hc, ?_, ?_⟩
    · intro i hi
      rw [List.getElem?_set, hidx, hlen₁, windowValues_append_self hN]
      by_cases hi' : time / r % N = i
      · subst hi'
        rw [if_pos rfl, if_pos hidx_lt, ← hw, windowValues_append_self hN, if_pos rfl]
      · rw [if_neg hi', if_neg hi', List.append_nil, h₁ i hi]
    · intro u hu
      rcases List.mem_append.mp hu with hu | hu
      · exact h.time_ge u hu
      · simp at hu
        rw [hu]
        exact hge
    · intro u hu
      rcases List.mem_append.mp hu with hu | hu
      · exact (h.time_le u hu).trans hlt.le
      · simp at hu
        rw [hu]
  cases hslotv : rra₁.data.getD (rra₁.slot time) none with
  | none =>
    -- a slot without values: the new value alone
    rw [RRA.computeNewValue_of_none _ _ _ _ hslotv]
    apply hwrite v 1 Nat.one_pos
    rw [windowValues_append_self hN, if_pos rfl, Selector.consolidate_concat, ← hcur, hslotv]
    rfl
  | some lastValue =>
    -- a slot with values: they are of this interval, the last update's
    have hne : windowValues r N time (time / r % N) hs ≠ [] := fun hnil => by
      rw [hcur, hnil, Selector.consolidate_nil] at hslotv
      cases hslotv
    obtain ⟨u, hu, hmod, hwin⟩ : ∃ u ∈ hs, u.1 / r % N = time / r % N ∧ time / r < u.1 / r + N := by
      simpa [windowValues, List.filter_eq_nil_iff] using hne
    have hu_le : u.1 / r ≤ lastUpdate / r := Nat.div_le_div_right (h.time_le u hu)
    have hdiv : lastUpdate / r ≤ time / r := Nat.div_le_div_right hlt.le
    have hsame : lastUpdate / r = time / r := by
      have := eq_of_mod_eq_of_window (c := time / r) (by omega) hwin le_rfl (by omega) hmod
      omega
    have hgap : time - lastUpdate ≤ rra₁.resolution := by
      have h1 : lastUpdate / r * r ≤ lastUpdate := Nat.div_mul_le_self lastUpdate r
      have h2 : time < time / r * r + r := Nat.lt_div_mul_add hr
      rw [← hsame] at h2
      rw [hres₁]
      omega
    have hslot : rra₁.slot time = rra₁.slot lastUpdate := by
      rw [RRA.slot, RRA.slot, hres₁, hsame]
    have hcount : 0 < rra₁.lastCount :=
      h.lastCount_pos fun hnil => hne (by rw [hnil]; rfl)
    rw [RRA.computeNewValue_of_some _ _ _ _ hslotv hgap hslot hcount]
    apply hwrite _ _ (lt_min (Nat.succ_pos _) (by decide))
    have hcf₁ : rra₁.cf = sel.toCF := h.cf_eq
    rw [windowValues_append_self hN, if_pos rfl, Selector.consolidate_concat, ← hcur, hslotv,
      hcf₁, Selector.newValue_toCF]
    rfl

/-- Extraction reads the window back: position `j`, at time `start + j r`, exists while that time
is not after `endTime`, and holds the consolidation of the values of the time's slot inside the
window and nothing outside it. -/
theorem Holds.getElem?_extractData (h : Holds sel r N rra lastUpdate hs) (hr : 0 < r)
    (hN : 0 < N) (start endTime j : Nat) :
    (rra.extractData start endTime lastUpdate).data[j]? =
      if j < N ∧ start + j * r ≤ endTime then
        some (if start + j * r < rra.slotEndTime lastUpdate - r * N ∨
            start + j * r ≥ rra.slotEndTime lastUpdate then none
          else sel.consolidate ((hs.filter fun u => u.1 / r = (start + j * r) / r).map Prod.snd))
      else none := by
  have hidx : rra.slot start < rra.data.length := by
    rw [RRA.slot, h.length_eq]
    exact Nat.mod_lt _ hN
  have hend : rra.slotEndTime lastUpdate = r * (lastUpdate / r + 1) := by
    rw [RRA.slotEndTime, h.resolution_eq]
  unfold RRA.extractData
  rw [getElem?_extractList _ _ _ _ _ _ _ _ hidx, h.resolution_eq, h.length_eq]
  split_ifs with hpos hout
  · rfl
  · -- inside the window: the slot of the position's time is one of the window's
    have hle : (start + j * r) / r ≤ lastUpdate / r := by
      have := (lt_mul_iff_div_lt hr).mp (hend ▸ (not_or.mp hout).2 |> Nat.lt_of_not_le)
      omega
    have hwin : lastUpdate / r < (start + j * r) / r + N := by
      have hlo : (lastUpdate / r + 1 - N) * r ≤ start + j * r := by
        rw [Nat.mul_comm, Nat.mul_sub, ← hend]
        exact Nat.le_of_not_lt (not_or.mp hout).1
      have := (Nat.le_div_iff_mul_le hr).mpr hlo
      omega
    rw [List.getD_eq_getElem?_getD, RRA.slot, h.resolution_eq, h.length_eq, Nat.mod_add_mod,
      ← Nat.add_mul_div_right start j hr, h.getElem?_data _ (Nat.mod_lt _ hN), Option.getD_some,
      windowValues_mod h.time_le hle hwin]
  · rfl

end Step

/-- The archive `k` of a gauge database holds its window after the accepted updates `hs`. -/
structure ArchiveHolds (sel : Selector) (r N k : Nat) (rrd : RRD V) (hs : List (Nat × V)) :
    Prop where
  gauge : rrd.source.dst = .gauge
  archive : ∃ rra, rrd.rraList[k]? = some rra ∧ Holds sel r N rra rrd.source.lastUpdate hs

section Run

variable [Zero V] [Add V] [Sub V] [Mul V] [Div V] [NatCast V]
  {sel : Selector} {r N k : Nat} {rrd : RRD V} {hs : List (Nat × V)}

/-- After an update no earlier than the last one, the source's last update is no later than it. -/
theorem lastUpdate_update_le (hgauge : rrd.source.dst = .gauge) {time : Nat}
    (hlt : rrd.source.lastUpdate < time) (value : Option V) :
    (rrd.update time value).source.lastUpdate ≤ time := by
  cases value with
  | none => simpa using hlt.le
  | some v => rw [RRD.update_gauge rrd hgauge hlt]

/-- One update keeps the invariant: a refused one changes nothing, an accepted one is the archive
step. -/
theorem ArchiveHolds.update (h : ArchiveHolds sel r N k rrd hs) (hr : 0 < r) (hN : 0 < N)
    {time : Nat} (hlt : rrd.source.lastUpdate < time) (hge : r ≤ time) (value : Option V) :
    ArchiveHolds sel r N k (rrd.update time value) (hs ++ accepted [(time, value)]) := by
  obtain ⟨hgauge, rra, hk, hrra⟩ := h
  cases value with
  | none => simpa [accepted] using (⟨hgauge, rra, hk, hrra⟩ : ArchiveHolds sel r N k rrd hs)
  | some v =>
    rw [RRD.update_gauge rrd hgauge hlt]
    refine ⟨hgauge, _, by rw [List.getElem?_map, hk]; rfl, ?_⟩
    exact hrra.update hr hN hlt hge v

/-- A whole run of updates with increasing times, all after the last update and at least one
resolution after time `0`, keeps the invariant. -/
theorem ArchiveHolds.runUpdates (h : ArchiveHolds sel r N k rrd hs) (hr : 0 < r) (hN : 0 < N)
    (updates : List (Nat × Option V)) (hinc : (updates.map Prod.fst).Pairwise (· < ·))
    (hgt : ∀ u ∈ updates, rrd.source.lastUpdate < u.1) (hge : ∀ u ∈ updates, r ≤ u.1) :
    ArchiveHolds sel r N k (rrd.runUpdates updates) (hs ++ accepted updates) := by
  induction updates generalizing rrd hs with
  | nil => simpa using h
  | cons u us ih =>
    rw [List.map_cons, List.pairwise_cons] at hinc
    have hu : u ∈ u :: us := List.mem_cons_self
    rw [RRD.runUpdates_cons, accepted_cons, ← List.append_assoc]
    apply ih (h.update hr hN (hgt u hu) (hge u hu) u.2) hinc.2
    · intro u' hu'
      have hlast := lastUpdate_update_le h.gauge (hgt u hu) u.2
      have hlater := hinc.1 u'.1 (List.mem_map_of_mem hu')
      omega
    · exact fun u' hu' => hge u' (List.mem_cons_of_mem u hu')

end Run

end Invariant

section Extract

variable {V : Type} [LinearOrder V] [Zero V] [Add V] [Sub V] [Mul V] [Div V] [NatCast V]

/-- With an update in the first interval `[0, r)`, an archive of `3` slots of `60` seconds
reports its value for the interval `[180, 240)`, in which no update lies: the walk of
`delete_old_slots` starts at index `0` and never clears it. -/
theorem extract_data_reports_stale_slot :
    (let updates : List (Nat × Option Nat) := [(30, some 1), (150, some 2), (250, some 3)]
      let rrd := (RRD.new .gauge [RRA.new CF.last 60 3]).runUpdates updates
      (rrd.rraList.map fun rra => (rra.extractData 120 300 rrd.source.lastUpdate).data) =
          [[some 2, some 1, some 3]] ∧
        slotValues 60 ((120 + 1 * 60) / 60) updates = []) := by
  decide

end Extract

end ProxmoxBackup.Rrd
