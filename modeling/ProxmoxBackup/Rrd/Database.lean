import Mathlib

/-!
# Round robin databases

The in-memory part of the RRD format version 2 (`proxmox-rrd/src/rrd.rs`). A database has a
data source, which turns the value of an update into the value to store (a gauge stores it as
it is, a derive or counter source stores the rate of change), and a list of round robin
archives. An archive of `N` slots of `resolution` seconds each keeps the consolidated value of
the last `N` resolution intervals: the interval of time `t` is slot `t / resolution`, stored at
index `t / resolution % N`, so that each index is reused once every `N` intervals.

An update first lets every archive clear the slots of the intervals that passed since the last
update (`RRA.deleteOldSlots`), then folds the new value into the slot of its interval
(`RRA.computeNewValue`). `RRA.extractData` reads the slots of a time range back, reporting an
empty value outside the window of the last `N` intervals.

Times are the update times of the source, which are integral here: the `f64` times of the
source become their exact natural value (`time as u64`). A number is a value of an arbitrary
linearly ordered type `V` with the arithmetic the averaging and derive code uses; `f64`'s NaN,
which marks an empty slot or a refused value, is `none`. Division by a zero resolution or a
remainder by an empty archive panic in the source; the model computes Lean's `/ 0` and `% 0`
there, and every result about it assumes a positive resolution and at least one slot.
-/

namespace ProxmoxBackup.Rrd

/-- RRD data source type. -/
inductive DST where
  /-- Values are stored unmodified. -/
  | gauge
  /-- Stores the difference to the previous value. -/
  | derive
  /-- Like `derive`, but a counter overflow is detected and its value ignored. -/
  | counter
  deriving DecidableEq, Repr

/-- Consolidation function of an archive. -/
inductive CF where
  | average
  | maximum
  | minimum
  | last
  deriving DecidableEq, Repr

/-- The data source: its type, the time of the last accepted update and the last value, used for
the differences of derive and counter sources. -/
structure DataSource (V : Type) where
  dst : DST
  lastUpdate : Nat
  lastValue : Option V

/-- An extracted range: its start, resolution and one value per slot. -/
structure Entry (V : Type) where
  start : Nat
  resolution : Nat
  data : List (Option V)

/-- A round robin archive. -/
structure RRA (V : Type) where
  /-- Seconds spanned by a single data entry. -/
  resolution : Nat
  cf : CF
  /-- How many values were consolidated into the slot of the current interval. -/
  lastCount : Nat
  data : List (Option V)

/-- The round robin database. -/
structure RRD (V : Type) where
  source : DataSource V
  rraList : List (RRA V)

/-- `index += 1; if index >= len { index = 0; }`: the next index of the ring. -/
def nextIndex (len index : Nat) : Nat :=
  if index + 1 ≥ len then 0 else index + 1

theorem nextIndex_eq_mod {len index : Nat} (h : index < len) :
    nextIndex len index = (index + 1) % len := by
  unfold nextIndex
  split
  · have hwrap : index + 1 = len := by omega
    simp [hwrap]
  · rw [Nat.mod_eq_of_lt (by omega)]

/-- `u64::MAX`, where `last_count` saturates. -/
def u64Max : Nat := 2 ^ 64 - 1

namespace RRA

variable {V : Type}

def new (cf : CF) (resolution points : Nat) : RRA V :=
  ⟨resolution, cf, 0, List.replicate points none⟩

/-- Data slot end time. -/
def slotEndTime (self : RRA V) (time : Nat) : Nat :=
  self.resolution * (time / self.resolution + 1)

/-- Data slot index. -/
def slot (self : RRA V) (time : Nat) : Nat :=
  time / self.resolution % self.data.length

/-- The loop of `delete_old_slots`: at most `n` more steps, each advancing the time `t` by one
resolution and the index by one slot, and clearing that slot while the time is before
`minTime`. -/
def clearOldSlots (reso minTime : Nat) : Nat → Nat → Nat → List (Option V) → List (Option V)
  | 0, _, _, data => data
  | n + 1, t, index, data =>
    let t := t + reso
    let index := nextIndex data.length index
    if t < minTime then clearOldSlots reso minTime n t index (data.set index none) else data

/-- Clear the slots of the intervals between `lastUpdate` and `time`, walking from one round of
the ring before `lastUpdate` (saturated at time `0`) up to the first slot of the window that
ends at `time`. -/
def deleteOldSlots (self : RRA V) (time lastUpdate : Nat) : RRA V :=
  let reso := self.resolution
  let numEntries := self.data.length
  let minTime := self.slotEndTime (time - numEntries * reso)
  let t := lastUpdate - numEntries * reso
  { self with data := clearOldSlots reso minTime numEntries t (self.slot t) self.data }

/-- The loop of `extract_data`: at most `n` more slots from time `t` at `index`, stopping after
`endTime`; a slot outside `[rrdStart, rrdEnd)` or holding NaN gives `None`. -/
def extractList (data : List (Option V)) (reso endTime rrdStart rrdEnd : Nat) :
    Nat → Nat → Nat → List (Option V)
  | 0, _, _ => []
  | n + 1, t, index =>
    if t > endTime then []
    else
      (if t < rrdStart ∨ t ≥ rrdEnd then none else data.getD index none) ::
        extractList data reso endTime rrdStart rrdEnd n (t + reso) (nextIndex data.length index)

/-- Extract data from `start` to `endTime`. The archive does not store the last update time, the
caller passes the source's. -/
def extractData (self : RRA V) (start endTime lastUpdate : Nat) : Entry V :=
  let reso := self.resolution
  let numEntries := self.data.length
  let rrdEnd := self.slotEndTime lastUpdate
  let rrdStart := rrdEnd - reso * numEntries
  ⟨start, reso,
    extractList self.data reso endTime rrdStart rrdEnd numEntries start (self.slot start)⟩

@[simp] theorem length_clearOldSlots (reso minTime n t index : Nat) (data : List (Option V)) :
    (clearOldSlots reso minTime n t index data).length = data.length := by
  induction n generalizing t index data with
  | zero => rfl
  | succ n ih =>
    simp only [clearOldSlots]
    split
    · rw [ih, List.length_set]
    · rfl

section DeleteOldSlots

variable (self : RRA V) (time lastUpdate : Nat)

@[simp] theorem deleteOldSlots_resolution :
    (self.deleteOldSlots time lastUpdate).resolution = self.resolution := rfl

@[simp] theorem deleteOldSlots_cf : (self.deleteOldSlots time lastUpdate).cf = self.cf := rfl

@[simp] theorem deleteOldSlots_lastCount :
    (self.deleteOldSlots time lastUpdate).lastCount = self.lastCount := rfl

@[simp] theorem length_deleteOldSlots_data :
    (self.deleteOldSlots time lastUpdate).data.length = self.data.length :=
  length_clearOldSlots ..

end DeleteOldSlots

end RRA

section Consolidation

variable {V : Type} [LinearOrder V] [Add V] [Mul V] [Div V] [NatCast V]

/-- The value a consolidation function stores when `value` arrives in a slot that holds
`lastValue`, consolidated from `lastCount` values. -/
def CF.newValue (cf : CF) (lastValue : V) (lastCount newCount : Nat) (value : V) : V :=
  match cf with
  | .maximum => if lastValue > value then lastValue else value
  | .minimum => if lastValue < value then lastValue else value
  | .last => value
  | .average => lastValue * (lastCount : V) / (newCount : V) + value / (newCount : V)

namespace RRA

/-- Fold `value` into the slot of `time`. The count restarts when the update is more than one
resolution after the last one or in another slot; a slot holding NaN is written as the first
value of its interval. -/
def computeNewValue (self : RRA V) (time lastUpdate : Nat) (value : V) : RRA V :=
  let reso := self.resolution
  let index := self.slot time
  let lastIndex := self.slot lastUpdate
  let lastCount := if time - lastUpdate > reso ∨ index ≠ lastIndex then 0 else self.lastCount
  match self.data.getD index none with
  | some lastValue =>
    if lastCount = 0 then { self with data := self.data.set index (some value), lastCount := 1 }
    else
      let newCount := min (lastCount + 1) u64Max
      { self with
        data := self.data.set index (some (self.cf.newValue lastValue lastCount newCount value))
        lastCount := newCount }
  | none => { self with data := self.data.set index (some value), lastCount := 1 }

section ComputeNewValue

variable (self : RRA V) (time lastUpdate : Nat) (value : V)

@[simp] theorem computeNewValue_resolution :
    (self.computeNewValue time lastUpdate value).resolution = self.resolution := by
  unfold computeNewValue
  dsimp only
  split <;> (try split_ifs) <;> rfl

@[simp] theorem computeNewValue_cf : (self.computeNewValue time lastUpdate value).cf = self.cf := by
  unfold computeNewValue
  dsimp only
  split <;> (try split_ifs) <;> rfl

@[simp] theorem length_computeNewValue_data :
    (self.computeNewValue time lastUpdate value).data.length = self.data.length := by
  unfold computeNewValue
  dsimp only
  split <;> (try split_ifs) <;> simp

/-- A slot holding NaN is written with the new value alone, and the count starts at one. -/
theorem computeNewValue_of_none (h : self.data.getD (self.slot time) none = none) :
    self.computeNewValue time lastUpdate value =
      { self with data := self.data.set (self.slot time) (some value), lastCount := 1 } := by
  unfold computeNewValue
  simp only [h]

/-- An update in the slot and interval of the last one, with a running count, consolidates its
value with the slot's. -/
theorem computeNewValue_of_some {lastValue : V}
    (h : self.data.getD (self.slot time) none = some lastValue)
    (hgap : time - lastUpdate ≤ self.resolution) (hslot : self.slot time = self.slot lastUpdate)
    (hcount : 0 < self.lastCount) :
    self.computeNewValue time lastUpdate value =
      { self with
        data := self.data.set (self.slot time) (some (self.cf.newValue lastValue self.lastCount
          (min (self.lastCount + 1) u64Max) value))
        lastCount := min (self.lastCount + 1) u64Max } := by
  have hkeep : ¬ (time - lastUpdate > self.resolution ∨ self.slot time ≠ self.slot lastUpdate) := by
    omega
  unfold computeNewValue
  simp only [h, hkeep, if_false, Nat.pos_iff_ne_zero.mp hcount]

end ComputeNewValue

end RRA

end Consolidation

section Source

variable {V : Type} [LinearOrder V] [Zero V] [Sub V] [Div V] [NatCast V]

namespace DataSource

def new (dst : DST) : DataSource V :=
  ⟨dst, 0, none⟩

/-- Check an update and compute the value to store. The source is returned with the result: a
counter reset updates `lastValue` before it fails. -/
def computeNewValue (self : DataSource V) (time : Nat) (value : Option V) :
    DataSource V × Except String V :=
  let lastUpdate := self.lastUpdate
  if time ≤ lastUpdate then (self, .error s!"time in past ({time} < {lastUpdate})")
  else
    match value with
    | none => (self, .error "new value is NAN")
    | some value =>
      let isCounter := self.dst = .counter
      if isCounter ∨ self.dst = .derive then
        let timeDiff := time - lastUpdate
        match self.lastValue with
        | none => ({ self with lastValue := some value }, .ok (0 / (timeDiff : V)))
        | some lastValue =>
          if isCounter ∧ value < 0 then (self, .error "got negative value for counter")
          else if isCounter ∧ value < lastValue then
            ({ self with lastValue := some value }, .error "counter overflow/reset detected")
          else ({ self with lastValue := some value }, .ok ((value - lastValue) / (timeDiff : V)))
      else ({ self with lastValue := some value }, .ok value)

end DataSource

end Source

section Update

variable {V : Type} [LinearOrder V] [Zero V] [Add V] [Sub V] [Mul V] [Div V] [NatCast V]

namespace RRD

def new (dst : DST) (rraList : List (RRA V)) : RRD V :=
  ⟨DataSource.new dst, rraList⟩

/-- Update the value (in memory). A refused update is logged and dropped. -/
def update (self : RRD V) (time : Nat) (value : Option V) : RRD V :=
  match self.source.computeNewValue time value with
  | (source, .error _) => { self with source }
  | (source, .ok value) =>
    let lastUpdate := source.lastUpdate
    { source := { source with lastUpdate := time }
      rraList := self.rraList.map fun rra =>
        (rra.deleteOldSlots time lastUpdate).computeNewValue time lastUpdate value }

/-- A sequence of updates, one call after the other. -/
def runUpdates (self : RRD V) (updates : List (Nat × Option V)) : RRD V :=
  updates.foldl (fun rrd u => rrd.update u.1 u.2) self

@[simp] theorem runUpdates_nil (self : RRD V) : self.runUpdates [] = self := rfl

@[simp] theorem runUpdates_cons (self : RRD V) (u : Nat × Option V) (updates) :
    self.runUpdates (u :: updates) = (self.update u.1 u.2).runUpdates updates := rfl

/-- A NaN value is refused before the source changes. -/
@[simp] theorem update_none (self : RRD V) (time : Nat) : self.update time none = self := by
  unfold update DataSource.computeNewValue
  dsimp only
  split_ifs <;> rfl

/-- A gauge source accepts every number after its last update and stores it unchanged. -/
theorem update_gauge (self : RRD V) (hgauge : self.source.dst = .gauge) {time : Nat}
    (hlt : self.source.lastUpdate < time) (value : V) :
    self.update time (some value) =
      { source := { self.source with lastValue := some value, lastUpdate := time }
        rraList := self.rraList.map fun rra =>
          (rra.deleteOldSlots time self.source.lastUpdate).computeNewValue time
            self.source.lastUpdate value } := by
  have hnot : ¬ time ≤ self.source.lastUpdate := by omega
  simp [update, DataSource.computeNewValue, hnot, hgauge]

end RRD

end Update

end ProxmoxBackup.Rrd
