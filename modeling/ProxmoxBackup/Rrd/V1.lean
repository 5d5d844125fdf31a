import ProxmoxBackup.Rrd.Database
import ProxmoxBackup.Foundations.Checked
import ProxmoxBackup.Foundations.LittleEndian
import ProxmoxBackup.Foundations.Except

/-!
# The RRD format version 1 and its conversion (`proxmox-rrd/src/rrd_v1.rs`)

A version 1 file is the memory image of `RRDv1`: a magic number and ten archives of 70 slots
each (hour, day, week, month and year, averages and maxima). `to_rrd_v2` converts it into a
version 2 database: each v1 archive's slots are read out as a time range (`extract_data`),
stretched to the finer resolution of the new archive by linear interpolation
(`extrapolate_data`), and written into the new archives (`RRA::insert_data`).

An archive of `reso` seconds per slot stores the interval `k` (the time `k * reso`) at index
`k % 70`. `extract_data` reads the 70 slots of the window `[rra_end - 70 reso, rra_end)` that
ends at the start `rra_end` of the current interval, beginning at the index of the window's first
interval. That index is the current interval's own: 70 intervals apart, the two share it.

* `extractData_of_storesSlots`: for an archive whose ring holds the values of the 70 intervals
  up to the current one (`StoresSlots`), the extracted list is the current interval's value
  followed by the values of the 69 intervals before it. The window's first interval is not
  reported, and its position carries the current interval's value.
* `extractData_eq_none_iff`: the panics of `extract_data` in a build with overflow checks: a
  zero resolution (a division by zero, in every build), `70 * reso` beyond `u64`, or a last
  update less than 70 intervals after time 0.

Values are those of the version 2 model: `f64` with NaN as `none`, over an arbitrary type `V`
with the arithmetic the interpolation uses, and times are the `u64` values of the `f64` times.
A file's bytes decode to a value through `f64`, a parameter, and to a time through `asU64` (the
`as u64` of the `f64` with those bits).
-/

namespace ProxmoxBackup.Rrd

/-- `RRD_DATA_ENTRIES`. -/
def rrdDataEntries : Nat := 70

/-- `PROXMOX_RRD_MAGIC_1_0`. -/
def proxmoxRrdMagic : List UInt8 := [206, 46, 26, 212, 172, 158, 5, 186]

/-- `RRAFlags::DST_DERIVE`. -/
def dstDeriveFlag : UInt64 := 2

/-- `RRAFlags::DST_COUNTER`. -/
def dstCounterFlag : UInt64 := 4

/-- `RRAv1`, with the fields the conversion reads (`last_count` and `counter_value` are not
read). -/
structure RRAv1 (V : Type) where
  flags : UInt64
  resolution : Nat
  lastUpdate : Nat
  data : Vector (Option V) rrdDataEntries

/-- `RRDv1` after its magic number. -/
structure RRDv1 (V : Type) where
  hourAvg : RRAv1 V
  hourMax : RRAv1 V
  dayAvg : RRAv1 V
  dayMax : RRAv1 V
  weekAvg : RRAv1 V
  weekMax : RRAv1 V
  monthAvg : RRAv1 V
  monthMax : RRAv1 V
  yearAvg : RRAv1 V
  yearMax : RRAv1 V

/-! ## Reading a file -/

/-- `size_of::<RRAv1>()`: five fields of eight bytes, then the slots. -/
def rraV1Size : Nat := 8 * (5 + rrdDataEntries)

/-- `size_of::<RRDv1>()`. -/
def rrdV1Size : Nat := 8 + 10 * rraV1Size

/-- The little-endian `u64` at `offset`. -/
def u64At (bytes : List UInt8) (offset : Nat) : Nat :=
  LittleEndian.ofBytes ((bytes.drop offset).take 8)

variable {V : Type}

/-- An `RRAv1` in memory: `flags`, `resolution`, `last_update`, `last_count` and
`counter_value`, then the slots. -/
def RRAv1.ofBytes (f64 : UInt64 → Option V) (asU64 : UInt64 → Nat) (bytes : List UInt8) :
    RRAv1 V where
  flags := UInt64.ofNat (u64At bytes 0)
  resolution := u64At bytes 8
  lastUpdate := asU64 (UInt64.ofNat (u64At bytes 16))
  data := Vector.ofFn fun i => f64 (UInt64.ofNat (u64At bytes (40 + 8 * i)))

/-- `RRDv1::from_raw`: a file of the right size with the magic number is copied into the
struct. -/
def RRDv1.fromRaw (f64 : UInt64 → Option V) (asU64 : UInt64 → Nat) (raw : List UInt8) :
    Except String (RRDv1 V) :=
  let len := raw.length
  if len ≠ rrdV1Size then throw s!"wrong data size ({len} != {rrdV1Size})"
  else if raw.take 8 ≠ proxmoxRrdMagic then throw "wrong magic number"
  else
    let rra (i : Nat) : RRAv1 V := RRAv1.ofBytes f64 asU64 (raw.drop (8 + i * rraV1Size))
    pure ⟨rra 0, rra 1, rra 2, rra 3, rra 4, rra 5, rra 6, rra 7, rra 8, rra 9⟩

/-! ## Reading an archive's window -/

theorem get_ofFn {α : Type} {n : Nat} (f : Fin n → α) (i : Fin n) : (Vector.ofFn f).get i = f i := by
  simp only [Vector.get, Vector.toArray_ofFn, Array.getElem_ofFn]
  rfl

namespace RRAv1

/-- `index = (index + 1) % RRD_DATA_ENTRIES`. -/
def nextSlot (index : Fin rrdDataEntries) : Fin rrdDataEntries :=
  ⟨(index + 1) % rrdDataEntries, Nat.mod_lt _ (by decide)⟩

/-- The loop of `extract_data`: `n` more slots from `index` on. The time `t` the source advances
alongside is never read. -/
def extractSlots (data : Vector (Option V) rrdDataEntries) :
    Nat → Fin rrdDataEntries → List (Option V)
  | 0, _ => []
  | n + 1, index => data.get index :: extractSlots data n (nextSlot index)

/-- `RRAv1::extract_data`: the start of the window, the resolution and the window's slots;
`none` where the arithmetic panics. `reso * (last_update / reso)` cannot overflow, being at most
`last_update`. -/
def extractData (self : RRAv1 V) : Option (Nat × Nat × List (Option V)) := do
  let reso := self.resolution
  let rraEnd := reso * (← Checked.div self.lastUpdate reso)
  let rraStart ← Checked.sub rraEnd (← Checked.mul 64 reso rrdDataEntries)
  -- the second division cannot panic: `reso` passed the first
  let index : Fin rrdDataEntries := ⟨rraStart / reso % rrdDataEntries, Nat.mod_lt _ (by decide)⟩
  pure (rraStart, reso, extractSlots self.data rrdDataEntries index)

end RRAv1

/-! ## Converting to version 2 -/

section Extrapolate

variable [Add V] [Sub V] [Mul V] [Div V] [NatCast V]

/-- The `factor` values that `extrapolate_data` writes for a slot holding `v` whose next slot
holds `v1`. -/
def extrapolateSlot (factor : Nat) : Option V → Option V → List (Option V)
  | some v, some v1 =>
    let diff := (v1 - v) / (factor : V)
    (List.range factor).map fun (j : Nat) => some (v + diff * (j : V))
  | some v, none => some v :: List.replicate (factor - 1) none
  | none, some v1 => List.replicate (factor - 1) none ++ [some v1]
  | none, none => List.replicate factor none

/-- `extrapolate_data`: every slot stretched to `factor` slots, interpolated towards the next
slot (the last slot towards the first). -/
def extrapolateData (start reso factor : Nat) (data : List (Option V)) :
    Nat × Nat × List (Option V) :=
  (start, reso / factor, (List.range data.length).flatMap fun i =>
    let next := if i + 1 ≥ data.length then 0 else i + 1
    extrapolateSlot factor (data.getD i none) (data.getD next none))

end Extrapolate

namespace RRA

/-- The loop of `insert_data`: every value is written at `index`, and the index moves on one
slot. -/
def insertLoop : Nat → List (Option V) → List (Option V) → List (Option V)
  | _, [], slots => slots
  | index, item :: items, slots =>
    let slots := match item with
      | some v => slots.set index (some v)
      | none => slots
    insertLoop (nextIndex slots.length index) items slots

/-- `RRA::insert_data`. -/
def insertData (self : RRA V) (start resolution : Nat) (data : List (Option V)) :
    Except String (RRA V) :=
  if resolution ≠ self.resolution then throw "inser_data failed: got wrong resolution"
  else pure { self with data := insertLoop (self.slot start) data self.data }

end RRA

section Convert

variable [Add V] [Sub V] [Mul V] [Div V] [NatCast V]

/-- One archive of `to_rrd_v2`: the v1 archive's window, stretched by `factor` when one is
given, written into `rra`. -/
def mergeArchive (rra : RRA V) (src : RRAv1 V) (factor : Option Nat) :
    ExceptT String Option (RRA V) := do
  let (start, reso, data) ← liftM src.extractData
  let (start, reso, data) := match factor with
    | some factor => extrapolateData start reso factor data
    | none => (start, reso, data)
  liftM (rra.insertData start reso data)

/-- The data source type named by `hour_avg`'s flags. -/
def dstOfFlags (flags : UInt64) : DST :=
  if flags &&& dstCounterFlag = dstCounterFlag then .counter
  else if flags &&& dstDeriveFlag = dstDeriveFlag then .derive
  else .gauge

/-- `RRDv1::to_rrd_v2`. -/
def RRDv1.toRrdV2 (self : RRDv1 V) : ExceptT String Option (RRD V) := do
  let dayAvg ← mergeArchive (RRA.new .average 60 1440) self.dayAvg (some 30)
  let dayAvg ← mergeArchive dayAvg self.hourAvg none
  let dayMax ← mergeArchive (RRA.new .maximum 60 1440) self.dayMax (some 30)
  let dayMax ← mergeArchive dayMax self.hourMax none
  let monthAvg ← mergeArchive (RRA.new .average (30 * 60) 1440) self.monthAvg (some 24)
  let monthAvg ← mergeArchive monthAvg self.weekAvg (some 6)
  let monthAvg ← mergeArchive monthAvg self.dayAvg none
  let monthMax ← mergeArchive (RRA.new .maximum (30 * 60) 1440) self.monthMax (some 24)
  let monthMax ← mergeArchive monthMax self.weekMax (some 6)
  let monthMax ← mergeArchive monthMax self.dayMax none
  let yearAvg ← mergeArchive (RRA.new .average (6 * 3600) 1440) self.yearAvg (some 28)
  let yearMax ← mergeArchive (RRA.new .maximum (6 * 3600) 1440) self.yearMax (some 28)
  let decadeAvg ← mergeArchive (RRA.new .average (7 * 86400) 570) self.yearAvg none
  let decadeMax ← mergeArchive (RRA.new .maximum (7 * 86400) 570) self.yearMax none
  let source : DataSource V :=
    { dst := dstOfFlags self.hourAvg.flags, lastUpdate := self.hourAvg.lastUpdate,
      lastValue := none }
  pure ⟨source, [dayAvg, dayMax, monthAvg, monthMax, yearAvg, yearMax, decadeAvg, decadeMax]⟩

end Convert

/-! ## What `extract_data` reads -/

namespace RRAv1

theorem extractSlots_eq (data : Vector (Option V) rrdDataEntries) (n : Nat)
    (index : Fin rrdDataEntries) :
    extractSlots data n index =
      (List.range n).map fun i =>
        data.get ⟨(index + i) % rrdDataEntries, Nat.mod_lt _ (by decide)⟩ := by
  induction n generalizing index with
  | zero => rfl
  | succ n ih =>
    rw [extractSlots, ih, List.range_succ_eq_map, List.map_cons, List.map_map]
    congr 1
    · -- the first slot read is `index` itself
      congr 1
      ext
      simp [Nat.mod_eq_of_lt index.isLt]
    · refine List.map_congr_left fun i _ => ?_
      congr 1
      ext
      simp only [nextSlot, rrdDataEntries]
      omega

/-- The panics of `extract_data`. -/
theorem extractData_eq_none_iff {self : RRAv1 V} :
    self.extractData = none ↔ self.resolution = 0 ∨
      2 ^ 64 ≤ self.resolution * rrdDataEntries ∨
      self.lastUpdate / self.resolution < rrdDataEntries := by
  unfold extractData
  by_cases h0 : self.resolution = 0
  · simp [h0]
  · have hle : self.resolution * rrdDataEntries ≤ self.resolution * (self.lastUpdate / self.resolution) ↔
        rrdDataEntries ≤ self.lastUpdate / self.resolution :=
      Nat.mul_le_mul_left_iff (Nat.pos_of_ne_zero h0)
    simp only [Checked.div, h0, if_false, Option.bind_eq_bind, Option.bind_some, Checked.mul,
      Checked.sub]
    by_cases hm : self.resolution * rrdDataEntries < 2 ^ 64
    · rw [if_pos hm, Option.bind_some]
      by_cases hs : rrdDataEntries ≤ self.lastUpdate / self.resolution
      · rw [if_pos (hle.mpr hs), Option.bind_some]
        simp only [reduceCtorEq, false_or, false_iff, not_or, not_le, not_lt]
        exact ⟨hm, hs⟩
      · rw [if_neg (mt hle.mp hs), Option.bind_none]
        exact iff_of_true rfl (.inr (.inr (Nat.lt_of_not_le hs)))
    · rw [if_neg hm, Option.bind_none]
      exact iff_of_true rfl (.inr (.inl (Nat.le_of_not_lt hm)))

theorem get_eq_of_val_eq {data : Vector (Option V) rrdDataEntries} {a b : Nat}
    (ha : a < rrdDataEntries) (hb : b < rrdDataEntries) (h : a = b) :
    data.get ⟨a, ha⟩ = data.get ⟨b, hb⟩ := by
  subst h
  rfl

/-- Without a panic, the window starts 70 intervals before the current interval `cur`, and its
`i`-th slot is read at the index `(cur + i) % 70`. -/
theorem extractData_eq_some {self : RRAv1 V} (hpos : 0 < self.resolution)
    (hmul : self.resolution * rrdDataEntries < 2 ^ 64)
    (hcur : rrdDataEntries ≤ self.lastUpdate / self.resolution) :
    self.extractData =
      some (self.resolution * (self.lastUpdate / self.resolution - rrdDataEntries),
        self.resolution, (List.range rrdDataEntries).map fun i =>
          self.data.get ⟨(self.lastUpdate / self.resolution + i) % rrdDataEntries,
            Nat.mod_lt _ (by decide)⟩) := by
  have hle : self.resolution * rrdDataEntries ≤
      self.resolution * (self.lastUpdate / self.resolution) := Nat.mul_le_mul_left _ hcur
  have hstart : self.resolution * (self.lastUpdate / self.resolution) -
      self.resolution * rrdDataEntries =
      self.resolution * (self.lastUpdate / self.resolution - rrdDataEntries) :=
    (Nat.mul_sub _ _ _).symm
  have hidx : self.resolution * (self.lastUpdate / self.resolution - rrdDataEntries) /
      self.resolution = self.lastUpdate / self.resolution - rrdDataEntries :=
    Nat.mul_div_cancel_left _ hpos
  unfold extractData
  simp only [Checked.div, Nat.pos_iff_ne_zero.mp hpos, if_false, Option.bind_eq_bind,
    Option.bind_some, Checked.mul, Checked.sub]
  rw [if_pos hmul, Option.bind_some, if_pos hle, Option.bind_some, hstart, extractSlots_eq]
  simp only [Option.pure_def, Option.some.injEq, Prod.mk.injEq, true_and]
  refine List.map_congr_left fun i _ => get_eq_of_val_eq _ _ ?_
  simp only [hidx]
  simp only [rrdDataEntries] at hcur ⊢
  omega

/-- A v1 archive whose ring holds, at index `k % 70`, the value `recorded k` of the interval `k`,
for each of the 70 intervals up to the current one: one value per interval, at the index
`extract_data` reads it from. -/
def StoresSlots (self : RRAv1 V) (recorded : Nat → Option V) : Prop :=
  ∀ k, self.lastUpdate / self.resolution < k + rrdDataEntries →
    k ≤ self.lastUpdate / self.resolution →
    self.data.get ⟨k % rrdDataEntries, Nat.mod_lt _ (by decide)⟩ = recorded k

/-- What `extract_data` returns from an archive that holds the last 70 intervals: the current
interval's value first, then the 69 intervals before it in order. The first interval of the
window, `cur - 70`, whose start the result names, is not reported. -/
theorem extractData_of_storesSlots {self : RRAv1 V} {recorded : Nat → Option V}
    (h : self.StoresSlots recorded) (hpos : 0 < self.resolution)
    (hmul : self.resolution * rrdDataEntries < 2 ^ 64)
    (hcur : rrdDataEntries ≤ self.lastUpdate / self.resolution) :
    self.extractData =
      some (self.resolution * (self.lastUpdate / self.resolution - rrdDataEntries),
        self.resolution, recorded (self.lastUpdate / self.resolution) ::
          (List.range (rrdDataEntries - 1)).map fun i =>
            recorded (self.lastUpdate / self.resolution - (rrdDataEntries - 1) + i)) := by
  have h70 : rrdDataEntries = 70 := rfl
  have hrange : List.range rrdDataEntries = 0 :: (List.range (rrdDataEntries - 1)).map Nat.succ :=
    @List.range_succ_eq_map 69
  rw [extractData_eq_some hpos hmul hcur, hrange, List.map_cons, List.map_map]
  simp only [Option.some.injEq, Prod.mk.injEq, true_and, List.cons.injEq]
  refine ⟨?_, ?_⟩
  · -- position 0 is read at the current interval's own index
    refine (get_eq_of_val_eq _ _ ?_).trans (h _ (by omega) le_rfl)
    simp
  · -- position `i + 1` is the interval `cur - 69 + i`
    refine List.map_congr_left fun i hi => ?_
    have hi : i < 69 := by simpa [h70] using hi
    refine (get_eq_of_val_eq _ _ ?_).trans (h _ (by omega) (by omega))
    simp only [rrdDataEntries] at hcur ⊢
    omega

end RRAv1

/-! ## Panics of the conversion -/

theorem ofBytes_replicate_zero (n : Nat) : LittleEndian.ofBytes (List.replicate n 0) = 0 := by
  induction n with
  | zero => rfl
  | succ n ih => simp [List.replicate_succ, LittleEndian.ofBytes, ih]

/-- `from_raw` accepts the magic number followed by zero bytes, and every archive of that file
has resolution 0. -/
theorem fromRaw_zeroFile (f64 : UInt64 → Option V) (asU64 : UInt64 → Nat) :
    ∃ rrd, RRDv1.fromRaw f64 asU64 (proxmoxRrdMagic ++ List.replicate (10 * rraV1Size) 0) =
      .ok rrd ∧ rrd.dayAvg.resolution = 0 := by
  have hlen : (proxmoxRrdMagic ++ List.replicate (10 * rraV1Size) 0).length = rrdV1Size := by
    simp only [List.length_append, List.length_replicate, proxmoxRrdMagic, List.length_cons,
      List.length_nil, rrdV1Size, Nat.add_comm]
  have hmagic : (proxmoxRrdMagic ++ List.replicate (10 * rraV1Size) 0).take 8 =
      proxmoxRrdMagic := by
    simp [proxmoxRrdMagic]
  refine ⟨_, by simp only [RRDv1.fromRaw, hlen, hmagic, ne_eq, not_true_eq_false, if_false]; rfl, ?_⟩
  simp [RRAv1.ofBytes, u64At, proxmoxRrdMagic, List.drop_replicate, List.take_replicate,
    ofBytes_replicate_zero]

section Convert

variable [Add V] [Sub V] [Mul V] [Div V] [NatCast V]

theorem mergeArchive_of_extractData_none {rra : RRA V} {src : RRAv1 V}
    (h : src.extractData = none) (factor : Option Nat) :
    (mergeArchive rra src factor).run = none := by
  simp [mergeArchive, ExceptT.run_bind, h]

/-- `to_rrd_v2` reads `day_avg` first: a panic there is a panic of the conversion. -/
theorem toRrdV2_of_dayAvg_none {self : RRDv1 V} (h : self.dayAvg.extractData = none) :
    self.toRrdV2.run = none := by
  unfold RRDv1.toRrdV2
  rw [ExceptT.run_bind, mergeArchive_of_extractData_none h]
  rfl

/-- `to_rrd_v2` panics on a file that `from_raw` accepts, and `extract_data` puts the current
interval's value at the oldest position. The file is the magic number followed by zero bytes:
every archive has resolution 0, and the first `extract_data` divides by it. The archive has
one-minute slots and was last updated at time 6000, in interval 100; its ring holds a value `x`
recorded for that interval and nothing else, the layout `StoresSlots` describes. Its window
starts at time 1800, in interval 30, which holds no value, yet position 0 of the result is `x`. -/
theorem to_rrd_v2_panics_and_extract_data_misplaces_current_slot (f64 : UInt64 → Option V)
    (asU64 : UInt64 → Nat) (x : V) :
    (∃ rrd, RRDv1.fromRaw f64 asU64 (proxmoxRrdMagic ++ List.replicate (10 * rraV1Size) 0) =
      .ok rrd ∧ rrd.toRrdV2.run = none) ∧
    let rra : RRAv1 V := ⟨0, 60, 6000, Vector.ofFn fun i => if i.val = 30 then some x else none⟩
    let recorded : Nat → Option V := fun k => if k = 100 then some x else none
    rra.StoresSlots recorded ∧ recorded (1800 / 60) = none ∧
      rra.extractData = some (1800, 60, some x :: List.replicate 69 none) := by
  refine ⟨?_, ?_⟩
  · obtain ⟨rrd, hraw, hres⟩ := fromRaw_zeroFile f64 asU64
    exact ⟨rrd, hraw, toRrdV2_of_dayAvg_none (RRAv1.extractData_eq_none_iff.mpr (.inl hres))⟩
  · intro rra recorded
    -- interval `k` of the last 70 is at index 30 exactly when it is the current one
    have hstores : rra.StoresSlots recorded := by
      intro k hlo hhi
      have hlo : 30 < k := by
        simp only [rra, rrdDataEntries] at hlo
        omega
      have hhi : k ≤ 100 := by simpa [rra] using hhi
      simp only [rra, recorded, get_ofFn]
      by_cases hk : k = 100
      · subst hk
        rfl
      · have hidx : k % rrdDataEntries ≠ 30 := by
          simp only [rrdDataEntries]
          omega
        simp [hk, hidx]
    have hrest : (List.range (rrdDataEntries - 1)).map
        (fun i => recorded (6000 / 60 - (rrdDataEntries - 1) + i)) = List.replicate 69 none := by
      rw [List.map_congr_left (g := fun _ => none) fun i hi => ?_, List.map_const']
      · simp [rrdDataEntries]
      · have hi : i < 69 := by simpa [rrdDataEntries] using hi
        simp only [recorded, rrdDataEntries]
        rw [if_neg (by omega)]
    refine ⟨hstores, rfl, ?_⟩
    rw [RRAv1.extractData_of_storesSlots hstores (by simp [rra]) (by simp [rra, rrdDataEntries])
      (by simp [rra, rrdDataEntries])]
    simp only [rra] at hrest ⊢
    rw [hrest]
    rfl

end Convert

end ProxmoxBackup.Rrd
