import Mathlib
import ProxmoxBackup.Server.BackupEnvironment

/-!
# What a backup session stores

Over every sequence of requests of a session, in any order and with any arguments
(`closed_indexes_hold_known_chunks`):
* a successfully closed dynamic index holds only chunks that an append request listed at the
  offset where the entry before ends, while they were known (uploaded and registered, or
  registered from the previous backup), each entry ending the size it was known with later
  (`DynEntriesOk`);
* a slot of a successfully closed fixed index holds a chunk that an append put there while it was
  known, or what the index was created with: the zero digest of a new image, or the previous
  backup's chunk of an incremental one (`FixSlotsOk`);
* a successful finish needs that no writer is open and that a file was stored, and after it no
  request changes the session any more.

A close compares only counts, sizes and a checksum the client computes
(`fixedWriterClose_of_complete`), so the close of a fixed index that is not incremental does not
find a slot that no chunk was appended to: `fixedWriterClose_keeps_zero_slot` is a session that
fills one slot of two twice and closes.

The proof carries an invariant of the requests made so far and the state they reached
(`SessionInv`, kept by `SessionInv.step`). Every request keeps each open writer as it was, up to
its statistics (`DynKept`, `FixKept`), except the requests that create writers, which add empty
ones, and the appends, whose loops extend one writer by what was known when they were made
(`appendChunks_dynamic`, `appendChunks_fixed`).
-/

namespace ProxmoxBackup.Backup

open SharedBackupState

/-! ## The entries of a dynamic index -/

/-- Where entry `k` of a dynamic index starts: where the entry before it ends. -/
def startOf (entries : List (Nat × Vector UInt8 32)) : Nat → Nat
  | 0 => 0
  | k + 1 => (entries[k]?.map Prod.fst).getD 0

/-- Where the last entry ends: the size of the archive so far. -/
def endOf (entries : List (Nat × Vector UInt8 32)) : Nat :=
  startOf entries entries.length

theorem startOf_append_of_le {entries : List (Nat × Vector UInt8 32)} (more) {k : Nat}
    (hk : k ≤ entries.length) : startOf (entries ++ more) k = startOf entries k := by
  cases k with
  | zero => rfl
  | succ k => simp [startOf, List.getElem?_append_left (show k < entries.length by omega)]

@[simp] theorem endOf_concat (entries : List (Nat × Vector UInt8 32)) (e : Nat × Vector UInt8 32) :
    endOf (entries ++ [e]) = e.1 := by
  simp [endOf, startOf]

@[simp] theorem endOf_nil : endOf [] = 0 := rfl

/-- The entries `new` extend `old`, and each added entry has property `P` with where it
starts. -/
def Extends (P : Nat × Vector UInt8 32 → Nat → Prop) (old new : List (Nat × Vector UInt8 32)) :
    Prop :=
  old <+: new ∧ ∀ k e, old.length ≤ k → new[k]? = some e → P e (startOf new k)

namespace Extends

variable {P Q : Nat × Vector UInt8 32 → Nat → Prop} {l₁ l₂ l₃ : List (Nat × Vector UInt8 32)}

theorem refl (P : Nat × Vector UInt8 32 → Nat → Prop) (l : List (Nat × Vector UInt8 32)) :
    Extends P l l :=
  ⟨List.prefix_refl l, fun k e hk he => by rw [List.getElem?_eq_none hk] at he; cases he⟩

theorem trans (h₁ : Extends P l₁ l₂) (h₂ : Extends P l₂ l₃) : Extends P l₁ l₃ := by
  refine ⟨h₁.1.trans h₂.1, fun k e hk he => ?_⟩
  obtain ⟨more, rfl⟩ := h₂.1
  by_cases hk₂ : k < l₂.length
  · -- an entry of `l₂`: it starts in `l₃` where it starts in `l₂`
    rw [List.getElem?_append_left hk₂] at he
    rw [startOf_append_of_le more hk₂.le]
    exact h₁.2 k e hk he
  · exact h₂.2 k e (by omega) he

theorem mono (h : Extends P l₁ l₂) (hPQ : ∀ e n, P e n → Q e n) : Extends Q l₁ l₂ :=
  ⟨h.1, fun k e hk he => hPQ e _ (h.2 k e hk he)⟩

/-- Appending an entry that ends `size` after the last one. -/
theorem concat {digest : Vector UInt8 32} {size : Nat} (l : List (Nat × Vector UInt8 32))
    (h : P (endOf l + size, digest) (endOf l)) : Extends P l (l ++ [(endOf l + size, digest)]) := by
  refine ⟨List.prefix_append l _, fun k e hk he => ?_⟩
  have hk' : k = l.length := by
    have := (List.getElem?_eq_some_iff.mp he).1
    simp at this
    omega
  subst hk'
  simp only [List.getElem?_concat_length, Option.some.injEq] at he
  subst he
  rw [startOf_append_of_le _ le_rfl]
  exact h

/-- An entry of `l₁` keeps its place and its start in `l₂`. -/
theorem getElem?_of_lt (h : Extends P l₁ l₂) {k : Nat} (hk : k < l₁.length) :
    l₂[k]? = l₁[k]? ∧ startOf l₂ k = startOf l₁ k := by
  obtain ⟨more, rfl⟩ := h.1
  exact ⟨List.getElem?_append_left hk, startOf_append_of_le more hk.le⟩

end Extends

/-! ## What each request does to the open writers -/

/-- Every dynamic writer of `s'` is one of `s`, with the same index and offset. -/
def DynKept (s s' : SharedBackupState) : Prop :=
  ∀ wid data', s'.dynamicWriters.lookup wid = some data' →
    ∃ data, s.dynamicWriters.lookup wid = some data ∧ data'.index = data.index ∧
      data'.offset = data.offset

/-- Every fixed writer of `s'` is one of `s`, with the same index. -/
def FixKept (s s' : SharedBackupState) : Prop :=
  ∀ wid data', s'.fixedWriters.lookup wid = some data' →
    ∃ data, s.fixedWriters.lookup wid = some data ∧ data'.index = data.index ∧
      data'.incremental = data.incremental

section Kept

variable {s : SharedBackupState}

theorem dynKept_of_eq {s' : SharedBackupState} (h : s'.dynamicWriters = s.dynamicWriters) :
    DynKept s s' := fun _ data' hd => ⟨data', h ▸ hd, rfl, rfl⟩

theorem fixKept_of_eq {s' : SharedBackupState} (h : s'.fixedWriters = s.fixedWriters) :
    FixKept s s' := fun _ data' hd => ⟨data', h ▸ hd, rfl, rfl⟩

/-- Putting back a writer with its index and offset unchanged keeps the writers. -/
theorem dynKept_insert {wid : Nat} {data data' : DynamicWriterState}
    (h : s.dynamicWriters.lookup wid = some data) (s' : SharedBackupState)
    (hs' : s'.dynamicWriters = s.dynamicWriters.insert wid data') (hindex : data'.index = data.index)
    (hoffset : data'.offset = data.offset) : DynKept s s' := by
  intro w d hd
  rw [hs'] at hd
  by_cases hw : w = wid
  · subst hw
    rw [AList.lookup_insert] at hd
    cases hd
    exact ⟨data, h, hindex, hoffset⟩
  · rw [AList.lookup_insert_ne hw] at hd
    exact ⟨d, hd, rfl, rfl⟩

theorem fixKept_insert {wid : Nat} {data data' : FixedWriterState}
    (h : s.fixedWriters.lookup wid = some data) (s' : SharedBackupState)
    (hs' : s'.fixedWriters = s.fixedWriters.insert wid data') (hindex : data'.index = data.index)
    (hinc : data'.incremental = data.incremental) : FixKept s s' := by
  intro w d hd
  rw [hs'] at hd
  by_cases hw : w = wid
  · subst hw
    rw [AList.lookup_insert] at hd
    cases hd
    exact ⟨data, h, hindex, hinc⟩
  · rw [AList.lookup_insert_ne hw] at hd
    exact ⟨d, hd, rfl, rfl⟩

theorem dynKept_erase (wid : Nat) (s' : SharedBackupState)
    (hs' : s'.dynamicWriters = s.dynamicWriters.erase wid) : DynKept s s' := by
  intro w d hd
  rw [hs'] at hd
  by_cases hw : w = wid
  · subst hw
    rw [AList.lookup_erase] at hd
    cases hd
  · exact ⟨d, by rwa [AList.lookup_erase_ne hw] at hd, rfl, rfl⟩

theorem fixKept_erase (wid : Nat) (s' : SharedBackupState)
    (hs' : s'.fixedWriters = s.fixedWriters.erase wid) : FixKept s s' := by
  intro w d hd
  rw [hs'] at hd
  by_cases hw : w = wid
  · subst hw
    rw [AList.lookup_erase] at hd
    cases hd
  · exact ⟨d, by rwa [AList.lookup_erase_ne hw] at hd, rfl, rfl⟩

theorem DynKept.trans {s₁ s₂ : SharedBackupState} (h₁ : DynKept s s₁) (h₂ : DynKept s₁ s₂) :
    DynKept s s₂ := by
  intro wid d₂ hd₂
  obtain ⟨d₁, hd₁, hi₁, ho₁⟩ := h₂ wid d₂ hd₂
  obtain ⟨d, hd, hi, ho⟩ := h₁ wid d₁ hd₁
  exact ⟨d, hd, hi₁.trans hi, ho₁.trans ho⟩

theorem FixKept.trans {s₁ s₂ : SharedBackupState} (h₁ : FixKept s s₁) (h₂ : FixKept s₁ s₂) :
    FixKept s s₂ := by
  intro wid d₂ hd₂
  obtain ⟨d₁, hd₁, hi₁, hinc₁⟩ := h₂ wid d₂ hd₂
  obtain ⟨d, hd, hi, hinc⟩ := h₁ wid d₁ hd₁
  exact ⟨d, hd, hi₁.trans hi, hinc₁.trans hinc⟩

end Kept

/-- Copying the previous backup's slots into a new index makes the index those slots. -/
theorem foldlM_addDigest (l : List (Vector UInt8 32)) (k : Nat) {w w' : FixedIndexWriter}
    {digests : List (Vector UInt8 32)} (hw : w.index = some digests)
    (h : (l.zipIdx k).foldlM (fun w entry => w.addDigest entry.2 entry.1) w = .ok w') :
    ∃ digests', w'.index = some digests' ∧ digests'.length = digests.length ∧
      ∀ i, digests'[i]? = if k ≤ i ∧ i < k + l.length then l[i - k]? else digests[i]? := by
  induction l generalizing k w digests with
  | nil =>
    cases h
    exact ⟨digests, hw, rfl, fun i => by simp⟩
  | cons x l ih =>
    rw [List.zipIdx_cons, List.foldlM_cons] at h
    cases hadd : w.addDigest k x with
    | error e => rw [hadd] at h; cases h
    | ok w₁ =>
      rw [hadd] at h
      -- the first slot is written, then the others by induction
      have hk : k < w.indexLength := by
        unfold FixedIndexWriter.addDigest at hadd
        split_ifs at hadd
        omega
      obtain ⟨w₂, hw₂, hindex, -⟩ := FixedIndexWriter.addDigest_of_lt hw hk x
      rw [hadd] at hw₂
      cases hw₂
      obtain ⟨digests', h', hlen, hget⟩ := ih (k + 1) hindex h
      refine ⟨digests', h', by rw [hlen, List.length_set], fun i => ?_⟩
      rw [hget i, List.getElem?_set]
      by_cases hi : i = k
      · subst hi
        have hlt : i < digests.length := by
          rw [w.length_index digests (by rw [hw]; rfl)]
          exact hk
        simp [hlt]
      · by_cases hin : k + 1 ≤ i ∧ i < k + 1 + l.length
        · rw [if_pos hin, if_pos ⟨by omega, by simp; omega⟩,
            show i - k = (i - (k + 1)) + 1 by omega, List.getElem?_cons_succ]
        · rw [if_neg hin, if_neg (Ne.symm hi), if_neg (by simp; omega)]

theorem cloneDataFrom_index {w w' : FixedIndexWriter} {digests reader : List (Vector UInt8 32)}
    (hw : w.index = some digests) (h : w.cloneDataFrom reader = .ok w') :
    w'.index = some reader := by
  unfold FixedIndexWriter.cloneDataFrom at h
  split_ifs at h with hlen
  obtain ⟨digests', h', hlen', hget⟩ := foldlM_addDigest reader 0 hw h
  rw [h']
  congr 1
  apply List.ext_getElem?
  intro i
  have hdl : digests.length = reader.length := by
    rw [w.length_index digests (by rw [hw]; rfl)]
    omega
  rw [hget i]
  split_ifs with hi
  · simp
  · rw [List.getElem?_eq_none (by omega), List.getElem?_eq_none (by omega)]

section Requests

variable (s : SharedBackupState)

theorem registerChunk_kept (digest : Vector UInt8 32) (length : Nat) :
    DynKept s (s.registerChunk digest length).1 ∧ FixKept s (s.registerChunk digest length).1 := by
  unfold registerChunk
  split <;> exact ⟨dynKept_of_eq rfl, fixKept_of_eq rfl⟩

theorem registerDynamicChunk_kept (wid : Nat) (digest : Vector UInt8 32)
    (size compressedSize : Nat) (isDuplicate : Bool) :
    DynKept s (s.registerDynamicChunk wid digest size compressedSize isDuplicate).1 ∧
      FixKept s (s.registerDynamicChunk wid digest size compressedSize isDuplicate).1 := by
  unfold registerDynamicChunk
  split
  · exact ⟨dynKept_of_eq rfl, fixKept_of_eq rfl⟩
  · split
    · exact ⟨dynKept_of_eq rfl, fixKept_of_eq rfl⟩
    · rename_i data hdata
      exact ⟨dynKept_insert hdata _ rfl rfl rfl, fixKept_of_eq rfl⟩

theorem registerFixedChunk_kept (wid : Nat) (digest : Vector UInt8 32)
    (size compressedSize : Nat) (isDuplicate : Bool) :
    DynKept s (s.registerFixedChunk wid digest size compressedSize isDuplicate).1 ∧
      FixKept s (s.registerFixedChunk wid digest size compressedSize isDuplicate).1 := by
  unfold registerFixedChunk
  split
  · exact ⟨dynKept_of_eq rfl, fixKept_of_eq rfl⟩
  · split
    · exact ⟨dynKept_of_eq rfl, fixKept_of_eq rfl⟩
    · rename_i data hdata
      dsimp only
      split_ifs <;> first
        | exact ⟨dynKept_of_eq rfl, fixKept_of_eq rfl⟩
        | exact ⟨dynKept_of_eq rfl, fixKept_insert hdata _ rfl rfl rfl⟩

theorem dynamicWriterClose_kept (sha256 : List UInt8 → Vector UInt8 32) (wid chunkCount size : Nat)
    (csum : Vector UInt8 32) :
    DynKept s (s.dynamicWriterClose sha256 wid chunkCount size csum).1 ∧
      FixKept s (s.dynamicWriterClose sha256 wid chunkCount size csum).1 := by
  unfold dynamicWriterClose
  split
  · exact ⟨dynKept_of_eq rfl, fixKept_of_eq rfl⟩
  · split
    · exact ⟨dynKept_of_eq rfl, fixKept_of_eq rfl⟩
    · dsimp only
      split_ifs <;> (try split) <;> (try split_ifs) <;>
        exact ⟨dynKept_erase wid _ rfl, fixKept_of_eq rfl⟩

theorem fixedWriterClose_kept (sha256 : List UInt8 → Vector UInt8 32) (wid chunkCount size : Nat)
    (csum : Vector UInt8 32) :
    DynKept s (s.fixedWriterClose sha256 wid chunkCount size csum).1 ∧
      FixKept s (s.fixedWriterClose sha256 wid chunkCount size csum).1 := by
  unfold fixedWriterClose
  split
  · exact ⟨dynKept_of_eq rfl, fixKept_of_eq rfl⟩
  · split
    · exact ⟨dynKept_of_eq rfl, fixKept_of_eq rfl⟩
    · dsimp only
      split_ifs <;> (try split) <;> (try split_ifs) <;>
        exact ⟨dynKept_of_eq rfl, fixKept_erase wid _ rfl⟩

theorem finishBackup_kept (storage : Except String Unit) :
    DynKept s (s.finishBackup storage).1 ∧ FixKept s (s.finishBackup storage).1 := by
  unfold finishBackup
  split_ifs <;> (try split) <;> exact ⟨dynKept_of_eq rfl, fixKept_of_eq rfl⟩

end Requests

/-! ## Appending chunks -/

/-- An open dynamic writer, whose offset is where its last entry ends. -/
def DynOpen (data : DynamicWriterState) : Prop :=
  data.index.closed = false ∧ data.offset = endOf data.index.entries

/-- Entry `e`, starting at `start`, was listed at that offset by the request's list `l`, and its
digest is known in `known` with the size from `start` to the end of `e`. -/
def Listed (known : AList (fun _ : Vector UInt8 32 => Nat)) (l : List (Vector UInt8 32 × Nat))
    (e : Nat × Vector UInt8 32) (start : Nat) : Prop :=
  ∃ size, (e.2, start) ∈ l ∧ known.lookup e.2 = some size ∧ e.1 = start + size

/-- Appending to an open dynamic writer either fails and changes nothing, or adds the entry
ending `size` after `offset`, where the writer's last entry ended. -/
theorem dynamicWriterAppendChunk_cases (s : SharedBackupState) (wid offset size : Nat)
    (digest : Vector UInt8 32)
    (hopen : ∀ data, s.dynamicWriters.lookup wid = some data → data.index.closed = false) :
    (∃ e, s.dynamicWriterAppendChunk wid offset size digest = (s, .error e)) ∨
    ∃ data, s.dynamicWriters.lookup wid = some data ∧ data.offset = offset ∧
      s.dynamicWriterAppendChunk wid offset size digest =
        ({ s with dynamicWriters := (s.dynamicWriters.insert wid
            { data with offset := data.offset + size, chunkCount := data.chunkCount + 1,
                        index := { data.index with
                                   entries := data.index.entries ++ [(data.offset + size, digest)] } }) },
          .ok ()) := by
  unfold dynamicWriterAppendChunk
  split_ifs with hfin
  · exact .inl ⟨_, rfl⟩
  split
  · exact .inl ⟨_, rfl⟩
  rename_i data hdata
  split_ifs with hoff
  · exact .inl ⟨_, rfl⟩
  refine .inr ⟨data, hdata, not_not.mp hoff, ?_⟩
  dsimp only
  rw [DynamicIndexWriter.addChunk_of_open (hopen data hdata)]

/-- What the loop of `dynamic_append` over the listed chunks `l` does from `s` to `s'`: it changes
only the dynamic writers, only writer `wid` of them, and extends that one's entries by chunks
known in `known` at their listed offsets, keeping it open. -/
def DynAppended (wid : Nat) (known : AList (fun _ : Vector UInt8 32 => Nat))
    (l : List (Vector UInt8 32 × Nat)) (s s' : SharedBackupState) : Prop :=
  (∃ dw, s' = { s with dynamicWriters := dw }) ∧
  (∀ w, w ≠ wid → s'.dynamicWriters.lookup w = s.dynamicWriters.lookup w) ∧
  ∀ data', s'.dynamicWriters.lookup wid = some data' →
    ∃ data, s.dynamicWriters.lookup wid = some data ∧ DynOpen data' ∧
      Extends (Listed known l) data.index.entries data'.index.entries

namespace DynAppended

variable {wid : Nat} {known : AList (fun _ : Vector UInt8 32 => Nat)}
  {l : List (Vector UInt8 32 × Nat)} {s s₁ s₂ : SharedBackupState}

theorem refl (hok : ∀ data, s.dynamicWriters.lookup wid = some data → DynOpen data) :
    DynAppended wid known l s s :=
  ⟨⟨s.dynamicWriters, rfl⟩, fun _ _ => rfl, fun data' h => ⟨data', h, hok data' h, Extends.refl _ _⟩⟩

theorem trans (h₁ : DynAppended wid known l s s₁) (h₂ : DynAppended wid known l s₁ s₂) :
    DynAppended wid known l s s₂ := by
  obtain ⟨⟨dw₁, rfl⟩, hother₁, hwid₁⟩ := h₁
  obtain ⟨⟨dw₂, rfl⟩, hother₂, hwid₂⟩ := h₂
  refine ⟨⟨dw₂, rfl⟩, fun w hw => (hother₂ w hw).trans (hother₁ w hw), fun data₂ hd₂ => ?_⟩
  obtain ⟨data₁, hd₁, hopen₂, hext₂⟩ := hwid₂ data₂ hd₂
  obtain ⟨data, hd, -, hext₁⟩ := hwid₁ data₁ hd₁
  exact ⟨data, hd, hopen₂, hext₁.trans hext₂⟩

theorem mono {l' : List (Vector UInt8 32 × Nat)} (h : DynAppended wid known l s s')
    (hl : ∀ x ∈ l, x ∈ l') : DynAppended wid known l' s s' := by
  obtain ⟨hframe, hother, hwid⟩ := h
  refine ⟨hframe, hother, fun data' hd' => ?_⟩
  obtain ⟨data, hd, hopen, hext⟩ := hwid data' hd'
  refine ⟨data, hd, hopen, hext.mono fun e n ⟨size, hmem, hsize, he⟩ => ⟨size, hl _ hmem, hsize, he⟩⟩

end DynAppended

/-- The loop of `dynamic_append`: each listed chunk is appended while known, at its offset. -/
theorem appendChunks_dynamic (wid : Nat) (l : List (Vector UInt8 32 × Nat)) (s : SharedBackupState)
    (hok : ∀ data, s.dynamicWriters.lookup wid = some data → DynOpen data) :
    DynAppended wid s.knownChunks l s (appendChunks dynamicWriterAppendChunk s wid l).1 := by
  induction l generalizing s with
  | nil => exact DynAppended.refl hok
  | cons entry rest ih =>
    obtain ⟨digest, offset⟩ := entry
    unfold appendChunks lookupChunk
    split
    · exact DynAppended.refl hok
    rename_i size hsize
    rcases dynamicWriterAppendChunk_cases s wid offset size digest (fun d h => (hok d h).1) with
      ⟨e, he⟩ | ⟨data, hdata, hoffset, happ⟩
    · rw [he]
      exact DynAppended.refl hok
    rw [happ]
    dsimp only
    -- one chunk appended, then the rest of the loop from there
    have hfirst : DynAppended wid s.knownChunks ((digest, offset) :: rest) s
        { s with dynamicWriters := (s.dynamicWriters.insert wid
            { data with offset := data.offset + size, chunkCount := data.chunkCount + 1,
                        index := { data.index with
                                   entries := data.index.entries ++ [(data.offset + size, digest)] } }) } := by
      refine ⟨⟨_, rfl⟩, fun w hw => AList.lookup_insert_ne hw, fun data' hd' => ?_⟩
      rw [AList.lookup_insert, Option.some.injEq] at hd'
      subst hd'
      have hend : data.offset = endOf data.index.entries := (hok data hdata).2
      refine ⟨data, hdata, ⟨(hok data hdata).1, by simp⟩, ?_⟩
      rw [hend]
      exact Extends.concat _ ⟨size, by simp [← hend, hoffset], hsize, rfl⟩
    refine hfirst.trans ((ih _ fun d hd => ?_).mono fun x hx => List.mem_cons_of_mem _ hx)
    rw [AList.lookup_insert, Option.some.injEq] at hd
    subst hd
    exact ⟨(hok data hdata).1, by simp⟩

/-- Slot `i` of a fixed index holds `d` because the request's list `l` had `d` at an offset that
puts it in slot `i` of `w`, and `d` was known in `known` with the size that alignment used. -/
def AlignedIn (known : AList (fun _ : Vector UInt8 32 => Nat)) (l : List (Vector UInt8 32 × Nat))
    (w : FixedIndexWriter) (i : Nat) (d : Vector UInt8 32) : Prop :=
  ∃ off size, (d, off) ∈ l ∧ known.lookup d = some size ∧ w.checkChunkAlignment (off + size) size = .ok i

/-- The fixed writer `data'` is `data` with some slots set to chunks of `l` known in `known`. -/
def SlotsFrom (known : AList (fun _ : Vector UInt8 32 => Nat)) (l : List (Vector UInt8 32 × Nat))
    (data data' : FixedWriterState) : Prop :=
  data'.incremental = data.incremental ∧ data'.index.chunkSize = data.index.chunkSize ∧
    data'.index.size = data.index.size ∧
    ∀ digests, data.index.index = some digests → ∃ digests', data'.index.index = some digests' ∧
      ∀ i d, digests'[i]? = some d → digests[i]? = some d ∨ AlignedIn known l data.index i d

namespace SlotsFrom

variable {known : AList (fun _ : Vector UInt8 32 => Nat)} {l : List (Vector UInt8 32 × Nat)}
  {data data' data₁ data₂ : FixedWriterState}

/-- A writer whose index is unchanged keeps its slots. -/
theorem of_index (hindex : data'.index = data.index) (hinc : data'.incremental = data.incremental) :
    SlotsFrom known l data data' := by
  refine ⟨hinc, by rw [hindex], by rw [hindex], fun digests h => ⟨digests, by rw [hindex, h], ?_⟩⟩
  exact fun i d hd => .inl hd

theorem trans (h₁ : SlotsFrom known l data data₁) (h₂ : SlotsFrom known l data₁ data₂) :
    SlotsFrom known l data data₂ := by
  obtain ⟨hinc₁, hcs₁, hsize₁, hslots₁⟩ := h₁
  obtain ⟨hinc₂, hcs₂, hsize₂, hslots₂⟩ := h₂
  refine ⟨hinc₂.trans hinc₁, hcs₂.trans hcs₁, hsize₂.trans hsize₁, fun digests h => ?_⟩
  obtain ⟨digests₁, h₁, hget₁⟩ := hslots₁ digests h
  obtain ⟨digests₂, h₂, hget₂⟩ := hslots₂ digests₁ h₁
  refine ⟨digests₂, h₂, fun i d hd => ?_⟩
  rcases hget₂ i d hd with hd₁ | ⟨off, size, hmem, hsize, halign⟩
  · exact hget₁ i d hd₁
  · -- a chunk aligned in the later writer is aligned in the earlier one, of the same geometry
    rw [FixedIndexWriter.checkChunkAlignment_congr hcs₁ hsize₁] at halign
    exact .inr ⟨off, size, hmem, hsize, halign⟩

theorem mono {l' : List (Vector UInt8 32 × Nat)} (h : SlotsFrom known l data data')
    (hl : ∀ x ∈ l, x ∈ l') : SlotsFrom known l' data data' := by
  obtain ⟨hinc, hcs, hsize, hslots⟩ := h
  refine ⟨hinc, hcs, hsize, fun digests hd => ?_⟩
  obtain ⟨digests', hd', hget⟩ := hslots digests hd
  refine ⟨digests', hd', fun i d hi => (hget i d hi).imp_right ?_⟩
  rintro ⟨off, size, hmem, hknown, halign⟩
  exact ⟨off, size, hl _ hmem, hknown, halign⟩

end SlotsFrom

/-- What the loop of `fixed_append` over the listed chunks `l` does from `s` to `s'`: it changes
only the fixed writers, only writer `wid` of them, and sets that one's slots to known chunks of
`l`. -/
def FixAppended (wid : Nat) (known : AList (fun _ : Vector UInt8 32 => Nat))
    (l : List (Vector UInt8 32 × Nat)) (s s' : SharedBackupState) : Prop :=
  (∃ fw, s' = { s with fixedWriters := fw }) ∧
  (∀ w, w ≠ wid → s'.fixedWriters.lookup w = s.fixedWriters.lookup w) ∧
  ∀ data', s'.fixedWriters.lookup wid = some data' →
    ∃ data, s.fixedWriters.lookup wid = some data ∧ SlotsFrom known l data data'

namespace FixAppended

variable {wid : Nat} {known : AList (fun _ : Vector UInt8 32 => Nat)}
  {l : List (Vector UInt8 32 × Nat)} {s s₁ s₂ : SharedBackupState}

theorem refl : FixAppended wid known l s s :=
  ⟨⟨s.fixedWriters, rfl⟩, fun _ _ => rfl, fun data' h => ⟨data', h, SlotsFrom.of_index rfl rfl⟩⟩

theorem trans (h₁ : FixAppended wid known l s s₁) (h₂ : FixAppended wid known l s₁ s₂) :
    FixAppended wid known l s s₂ := by
  obtain ⟨⟨fw₁, rfl⟩, hother₁, hwid₁⟩ := h₁
  obtain ⟨⟨fw₂, rfl⟩, hother₂, hwid₂⟩ := h₂
  refine ⟨⟨fw₂, rfl⟩, fun w hw => (hother₂ w hw).trans (hother₁ w hw), fun data₂ hd₂ => ?_⟩
  obtain ⟨data₁, hd₁, hslots₂⟩ := hwid₂ data₂ hd₂
  obtain ⟨data, hd, hslots₁⟩ := hwid₁ data₁ hd₁
  exact ⟨data, hd, hslots₁.trans hslots₂⟩

theorem mono {l' : List (Vector UInt8 32 × Nat)} (h : FixAppended wid known l s s')
    (hl : ∀ x ∈ l, x ∈ l') : FixAppended wid known l' s s' := by
  obtain ⟨hframe, hother, hwid⟩ := h
  refine ⟨hframe, hother, fun data' hd' => ?_⟩
  obtain ⟨data, hd, hslots⟩ := hwid data' hd'
  exact ⟨data, hd, hslots.mono hl⟩

/-- Putting back writer `wid` with slots from `l`. -/
theorem insert {data data' : FixedWriterState} (hdata : s.fixedWriters.lookup wid = some data)
    (h : SlotsFrom known l data data') :
    FixAppended wid known l s { s with fixedWriters := s.fixedWriters.insert wid data' } := by
  refine ⟨⟨_, rfl⟩, fun w hw => AList.lookup_insert_ne hw, fun d hd => ?_⟩
  rw [AList.lookup_insert, Option.some.injEq] at hd
  subst hd
  exact ⟨data, hdata, h⟩

end FixAppended

/-- One chunk appended to a fixed writer, whether or not the append succeeds. -/
theorem fixedWriterAppendChunk_appended (s : SharedBackupState) (wid offset size : Nat)
    (digest : Vector UInt8 32) (hsize : s.knownChunks.lookup digest = some size) :
    FixAppended wid s.knownChunks [(digest, offset)] s
      (s.fixedWriterAppendChunk wid offset size digest).1 := by
  unfold fixedWriterAppendChunk
  split_ifs
  · exact FixAppended.refl
  split
  · exact FixAppended.refl
  rename_i data hdata
  split
  · exact FixAppended.refl
  rename_i idx halign
  dsimp only
  split
  · -- the slot is out of range or the file unmapped: only the count changes
    exact FixAppended.insert hdata (SlotsFrom.of_index rfl rfl)
  rename_i w hw
  obtain ⟨digests, hdigests, hw', hcs, hsz⟩ := FixedIndexWriter.addDigest_eq_ok hw
  refine FixAppended.insert hdata ⟨rfl, hcs, hsz, fun digests₀ h₀ => ?_⟩
  rw [hdigests, Option.some.injEq] at h₀
  subst h₀
  refine ⟨_, hw', fun i d hd => ?_⟩
  rw [List.getElem?_set] at hd
  split_ifs at hd with hi
  · -- the slot written: the appended chunk, at its offset
    subst hi
    simp only [Option.some.injEq] at hd
    subst hd
    exact .inr ⟨offset, size, List.mem_singleton_self _, hsize, halign⟩
  · exact .inl hd

/-- The loop of `fixed_append`: each slot it sets gets a listed chunk known when it was
appended. -/
theorem appendChunks_fixed (wid : Nat) (l : List (Vector UInt8 32 × Nat)) (s : SharedBackupState) :
    FixAppended wid s.knownChunks l s (appendChunks fixedWriterAppendChunk s wid l).1 := by
  induction l generalizing s with
  | nil => exact FixAppended.refl
  | cons entry rest ih =>
    obtain ⟨digest, offset⟩ := entry
    unfold appendChunks lookupChunk
    split
    · exact FixAppended.refl
    rename_i size hsize
    have hfirst : FixAppended wid s.knownChunks ((digest, offset) :: rest) s
        (s.fixedWriterAppendChunk wid offset size digest).1 :=
      (fixedWriterAppendChunk_appended s wid offset size digest hsize).mono (by simp)
    generalize s.fixedWriterAppendChunk wid offset size digest = r at hfirst ⊢
    obtain ⟨s₁, e | ⟨⟩⟩ := r
    · exact hfirst
    -- the known chunks are those of `s` all along the loop
    have hknown : s₁.knownChunks = s.knownChunks := by
      obtain ⟨⟨fw, rfl⟩, -, -⟩ := hfirst
      rfl
    have hrest := ih s₁
    rw [hknown] at hrest
    exact hfirst.trans (hrest.mono fun x hx => List.mem_cons_of_mem _ hx)

/-! ## Creating writers -/

/-- Creating a dynamic index either fails and changes nothing, or adds an empty open writer under
the next id. -/
theorem createDynamicIndex_cases (s : SharedBackupState) (name : String) :
    (s.createDynamicIndex name).1 = s ∨
    ∃ data, s.finished = false ∧ (s.createDynamicIndex name).1 =
        { s with uidCounter := s.uidCounter + 1,
                 dynamicWriters := s.dynamicWriters.insert (s.uidCounter + 1) data } ∧
      data.index.entries = [] ∧ DynOpen data := by
  unfold createDynamicIndex registerDynamicWriter
  split_ifs with hext hfin <;> first
    | exact .inl rfl
    | exact .inr ⟨_, Bool.eq_false_iff.mpr hfin, rfl, rfl, rfl, rfl⟩

/-- Creating a fixed index either fails and changes nothing, or adds under the next id a writer
with the zero digest in every slot, or with the previous backup's slots when it is
incremental. -/
theorem createFixedIndex_cases (s : SharedBackupState) (name : String) (size : Nat)
    (base : Option (List (Vector UInt8 32))) :
    (s.createFixedIndex name size base).1 = s ∨
    ∃ data digests, s.finished = false ∧ (s.createFixedIndex name size base).1 =
        { s with uidCounter := s.uidCounter + 1,
                 fixedWriters := s.fixedWriters.insert (s.uidCounter + 1) data } ∧
      data.incremental = base.isSome ∧ data.index.index = some digests ∧
      (base = none → ∀ d ∈ digests, d = zeroDigest) ∧ (∀ b, base = some b → digests = b) := by
  unfold createFixedIndex
  split_ifs with hext
  swap
  · exact .inl rfl
  split
  · exact .inl rfl
  rename_i writer hwriter
  have hzero : writer.index = some (List.replicate writer.indexLength zeroDigest) := by
    unfold FixedIndexWriter.create at hwriter
    dsimp only at hwriter
    split_ifs at hwriter
    cases hwriter
    rfl
  cases base with
  | none =>
    dsimp only
    unfold registerFixedWriter
    split_ifs with hfin
    · exact .inl rfl
    · exact .inr ⟨_, _, Bool.eq_false_iff.mpr hfin, rfl, rfl, hzero,
        fun _ d hd => List.eq_of_mem_replicate hd,
        fun _ h => by cases h⟩
  | some b =>
    dsimp only
    split
    · exact .inl rfl
    rename_i cloned hcloned
    unfold registerFixedWriter
    split_ifs with hfin
    · exact .inl rfl
    · refine .inr ⟨_, _, Bool.eq_false_iff.mpr hfin, rfl, rfl, cloneDataFrom_index hzero hcloned,
        ?_, ?_⟩
      · intro h
        cases h
      · intro b' hb'
        cases hb'
        rfl

/-! ## The invariant of a session -/

/-- Request `c`, made in state `s`, appended to dynamic writer `wid` a list naming `digest` at
`offset`, and `digest` was known then with `size`. -/
def AppendedDyn (wid offset : Nat) (digest : Vector UInt8 32) (size : Nat) (s : SharedBackupState)
    (c : Call) : Prop :=
  ∃ ds os, c = .dynamicAppend wid ds os ∧ (digest, offset) ∈ ds.zip os ∧
    s.knownChunks.lookup digest = some size

/-- Request `c`, made in state `s`, appended to fixed writer `wid` a list naming `d` at an offset
that puts it in slot `i`, and `d` was known then. -/
def AppendedFix (wid i : Nat) (d : Vector UInt8 32) (s : SharedBackupState) (c : Call) : Prop :=
  ∃ ds os data, c = .fixedAppend wid ds os ∧ s.fixedWriters.lookup wid = some data ∧
    AlignedIn s.knownChunks (ds.zip os) data.index i d

/-- Request `c`, made in state `s`, created fixed writer `wid` from a previous index whose slot
`i` is `d`. -/
def ClonedFix (wid i : Nat) (d : Vector UInt8 32) (s : SharedBackupState) (c : Call) : Prop :=
  ∃ name size base, c = .createFixedIndex name size (some base) ∧ s.uidCounter + 1 = wid ∧
    base[i]? = some d

variable (sha256 : List UInt8 → Vector UInt8 32)

/-- The entries of dynamic writer `wid` after the requests `hist`: each ends the size its digest
was known with after the entry before it, and was appended at that offset while known. -/
def DynEntriesOk (hist : List Call) (wid : Nat) (entries : List (Nat × Vector UInt8 32)) : Prop :=
  ∀ k e, entries[k]? = some e → ∃ size, e.1 = startOf entries k + size ∧
    Runs.Occurred (step sha256) SharedBackupState.new hist (AppendedDyn wid (startOf entries k) e.2 size)

/-- The slots of fixed writer `wid` after the requests `hist`: each holds a chunk appended to it
while known, or what the writer was created with (the zero digest, or the previous index's
slot when it is incremental). -/
def FixSlotsOk (hist : List Call) (wid : Nat) (incremental : Bool)
    (digests : List (Vector UInt8 32)) : Prop :=
  ∀ i d, digests[i]? = some d →
    Runs.Occurred (step sha256) SharedBackupState.new hist (AppendedFix wid i d) ∨
    (incremental = false ∧ d = zeroDigest) ∨
    (incremental = true ∧ Runs.Occurred (step sha256) SharedBackupState.new hist (ClonedFix wid i d))

/-- What holds of the open writers after the requests `hist`, in the state `s` they reached. -/
structure SessionInv (hist : List Call) (s : SharedBackupState) : Prop where
  dyn : ∀ wid data, s.dynamicWriters.lookup wid = some data →
    DynOpen data ∧ DynEntriesOk sha256 hist wid data.index.entries
  fix : ∀ wid data, s.fixedWriters.lookup wid = some data →
    ∃ digests, data.index.index = some digests ∧ FixSlotsOk sha256 hist wid data.incremental digests

variable {sha256}

theorem DynEntriesOk.append {hist : List Call} {wid : Nat} {entries : List (Nat × Vector UInt8 32)}
    (h : DynEntriesOk sha256 hist wid entries) (c : Call) :
    DynEntriesOk sha256 (hist ++ [c]) wid entries := by
  intro k e he
  obtain ⟨size, hend, hocc⟩ := h k e he
  exact ⟨size, hend, hocc.append c⟩

theorem FixSlotsOk.append {hist : List Call} {wid : Nat} {incremental : Bool}
    {digests : List (Vector UInt8 32)} (h : FixSlotsOk sha256 hist wid incremental digests)
    (c : Call) : FixSlotsOk sha256 (hist ++ [c]) wid incremental digests := by
  intro i d hd
  rcases h i d hd with happ | hzero | ⟨hinc, hcl⟩
  · exact .inl (happ.append c)
  · exact .inr (.inl hzero)
  · exact .inr (.inr ⟨hinc, hcl.append c⟩)

/-- A new session has no writers. -/
theorem sessionInv_new : SessionInv sha256 [] SharedBackupState.new := by
  constructor
  · intro wid data h
    simp [SharedBackupState.new] at h
  · intro wid data h
    simp [SharedBackupState.new] at h

section Step

variable {hist : List Call} {s s' : SharedBackupState}

theorem SessionInv.dyn_kept (h : SessionInv sha256 hist s) (c : Call) (hdyn : DynKept s s') :
    ∀ wid data', s'.dynamicWriters.lookup wid = some data' →
      DynOpen data' ∧ DynEntriesOk sha256 (hist ++ [c]) wid data'.index.entries := by
  intro wid data' hd'
  obtain ⟨data, hd, hindex, hoffset⟩ := hdyn wid data' hd'
  obtain ⟨⟨hclosed, hend⟩, hentries⟩ := h.dyn wid data hd
  refine ⟨⟨by rw [hindex]; exact hclosed, by rw [hindex, hoffset]; exact hend⟩, ?_⟩
  rw [hindex]
  exact hentries.append c

theorem SessionInv.fix_kept (h : SessionInv sha256 hist s) (c : Call) (hfix : FixKept s s') :
    ∀ wid data', s'.fixedWriters.lookup wid = some data' →
      ∃ digests, data'.index.index = some digests ∧
        FixSlotsOk sha256 (hist ++ [c]) wid data'.incremental digests := by
  intro wid data' hd'
  obtain ⟨data, hd, hindex, hinc⟩ := hfix wid data' hd'
  obtain ⟨digests, hdigests, hslots⟩ := h.fix wid data hd
  refine ⟨digests, by rw [hindex]; exact hdigests, ?_⟩
  rw [hinc]
  exact hslots.append c

/-- A request that keeps every open writer keeps the invariant. -/
theorem SessionInv.kept (h : SessionInv sha256 hist s) (c : Call) (hdyn : DynKept s s')
    (hfix : FixKept s s') : SessionInv sha256 (hist ++ [c]) s' :=
  ⟨h.dyn_kept c hdyn, h.fix_kept c hfix⟩

theorem SessionInv.createDynamicIndex (h : SessionInv sha256 hist s) (name : String) :
    SessionInv sha256 (hist ++ [.createDynamicIndex name]) (s.createDynamicIndex name).1 := by
  rcases createDynamicIndex_cases s name with hs | ⟨data, -, hs, hentries, hopen⟩
  · rw [hs]
    exact h.kept _ (dynKept_of_eq rfl) (fixKept_of_eq rfl)
  rw [hs]
  refine ⟨fun wid data' hd' => ?_, h.fix_kept _ (fixKept_of_eq rfl)⟩
  by_cases hw : wid = s.uidCounter + 1
  · -- the new writer, with no entries
    subst hw
    rw [AList.lookup_insert, Option.some.injEq] at hd'
    subst hd'
    refine ⟨hopen, fun k e he => ?_⟩
    rw [hentries] at he
    cases he
  · rw [AList.lookup_insert_ne hw] at hd'
    exact h.dyn_kept _ (dynKept_of_eq rfl) wid data' hd'

theorem SessionInv.createFixedIndex (h : SessionInv sha256 hist (run sha256 hist)) (name : String)
    (size : Nat) (base : Option (List (Vector UInt8 32))) :
    SessionInv sha256 (hist ++ [.createFixedIndex name size base])
      ((run sha256 hist).createFixedIndex name size base).1 := by
  rcases createFixedIndex_cases (run sha256 hist) name size base with
    hs | ⟨data, digests, -, hs, hinc, hindex, hnone, hsome⟩
  · rw [hs]
    exact h.kept _ (dynKept_of_eq rfl) (fixKept_of_eq rfl)
  rw [hs]
  refine ⟨h.dyn_kept _ (dynKept_of_eq rfl), fun wid data' hd' => ?_⟩
  by_cases hw : wid = (run sha256 hist).uidCounter + 1
  · -- the new writer: zero slots, or the previous backup's
    subst hw
    rw [AList.lookup_insert, Option.some.injEq] at hd'
    subst hd'
    refine ⟨digests, hindex, fun i d hd => ?_⟩
    cases base with
    | none => exact .inr (.inl ⟨hinc, hnone rfl d (List.mem_of_getElem? hd)⟩)
    | some b =>
      rw [hsome b rfl] at hd
      exact .inr (.inr ⟨hinc, Runs.occurred_concat ⟨name, size, b, rfl, rfl, hd⟩⟩)
  · rw [AList.lookup_insert_ne hw] at hd'
    exact h.fix_kept _ (fixKept_of_eq rfl) wid data' hd'

theorem SessionInv.dynamicAppend (h : SessionInv sha256 hist (run sha256 hist)) (wid : Nat)
    (ds : List (Vector UInt8 32)) (os : List Nat) :
    SessionInv sha256 (hist ++ [.dynamicAppend wid ds os])
      ((run sha256 hist).dynamicAppend wid ds os).1 := by
  unfold SharedBackupState.dynamicAppend appendRequest
  split_ifs
  · exact h.kept _ (dynKept_of_eq rfl) (fixKept_of_eq rfl)
  obtain ⟨⟨dw, hdw⟩, hother, hwid⟩ :=
    appendChunks_dynamic wid (ds.zip os) (run sha256 hist) fun d hd => (h.dyn wid d hd).1
  refine ⟨fun w data' hd' => ?_, h.fix_kept _ (fixKept_of_eq (by rw [hdw]))⟩
  by_cases hw : w = wid
  · subst hw
    obtain ⟨data, hd, hopen', hext⟩ := hwid data' hd'
    obtain ⟨-, hentries⟩ := h.dyn w data hd
    refine ⟨hopen', fun k e he => ?_⟩
    by_cases hk : k < data.index.entries.length
    · -- an entry the writer had: as it was
      obtain ⟨hget, hstart⟩ := hext.getElem?_of_lt hk
      rw [hget] at he
      rw [hstart]
      exact (hentries.append _) k e he
    · -- an entry this request appended, listed at its start and known then
      obtain ⟨size, hmem, hsize, hend⟩ := hext.2 k e (by omega) he
      exact ⟨size, hend, Runs.occurred_concat ⟨ds, os, rfl, hmem, hsize⟩⟩
  · rw [hother w hw] at hd'
    exact h.dyn_kept _ (dynKept_of_eq rfl) w data' hd'

theorem SessionInv.fixedAppend (h : SessionInv sha256 hist (run sha256 hist)) (wid : Nat)
    (ds : List (Vector UInt8 32)) (os : List Nat) :
    SessionInv sha256 (hist ++ [.fixedAppend wid ds os])
      ((run sha256 hist).fixedAppend wid ds os).1 := by
  unfold SharedBackupState.fixedAppend appendRequest
  split_ifs
  · exact h.kept _ (dynKept_of_eq rfl) (fixKept_of_eq rfl)
  obtain ⟨⟨fw, hfw⟩, hother, hwid⟩ := appendChunks_fixed wid (ds.zip os) (run sha256 hist)
  refine ⟨h.dyn_kept _ (dynKept_of_eq (by rw [hfw])), fun w data' hd' => ?_⟩
  by_cases hw : w = wid
  · subst hw
    obtain ⟨data, hd, hinc, -, -, hslots⟩ := hwid data' hd'
    obtain ⟨digests, hdigests, hok⟩ := h.fix w data hd
    obtain ⟨digests', hdigests', hget⟩ := hslots digests hdigests
    refine ⟨digests', hdigests', fun i d hi => ?_⟩
    rcases hget i d hi with hold | halign
    · rw [hinc]
      exact (hok.append _) i d hold
    · exact .inl (Runs.occurred_concat ⟨ds, os, data, rfl, hd, halign⟩)
  · rw [hother w hw] at hd'
    exact h.fix_kept _ (fixKept_of_eq rfl) w data' hd'

/-- Every request keeps the invariant. -/
theorem SessionInv.step (h : SessionInv sha256 hist (run sha256 hist)) (c : Call) :
    SessionInv sha256 (hist ++ [c]) (step sha256 (run sha256 hist) c).1 := by
  cases c with
  | createDynamicIndex name => exact h.createDynamicIndex name
  | createFixedIndex name size base => exact h.createFixedIndex name size base
  | registerChunk digest length =>
    obtain ⟨hdyn, hfix⟩ := registerChunk_kept (run sha256 hist) digest length
    exact h.kept _ hdyn hfix
  | registerDynamicChunk wid digest size compressedSize isDuplicate =>
    obtain ⟨hdyn, hfix⟩ :=
      registerDynamicChunk_kept (run sha256 hist) wid digest size compressedSize isDuplicate
    exact h.kept _ hdyn hfix
  | registerFixedChunk wid digest size compressedSize isDuplicate =>
    obtain ⟨hdyn, hfix⟩ :=
      registerFixedChunk_kept (run sha256 hist) wid digest size compressedSize isDuplicate
    exact h.kept _ hdyn hfix
  | dynamicAppend wid ds os => exact h.dynamicAppend wid ds os
  | fixedAppend wid ds os => exact h.fixedAppend wid ds os
  | dynamicWriterClose wid chunkCount size csum =>
    obtain ⟨hdyn, hfix⟩ := dynamicWriterClose_kept (run sha256 hist) sha256 wid chunkCount size csum
    exact h.kept _ hdyn hfix
  | fixedWriterClose wid chunkCount size csum =>
    obtain ⟨hdyn, hfix⟩ := fixedWriterClose_kept (run sha256 hist) sha256 wid chunkCount size csum
    exact h.kept _ hdyn hfix
  | finishBackup storage =>
    obtain ⟨hdyn, hfix⟩ := finishBackup_kept (run sha256 hist) storage
    exact h.kept _ hdyn hfix

end Step

/-- The invariant holds after every sequence of requests. -/
theorem sessionInv_run (calls : List Call) : SessionInv sha256 calls (run sha256 calls) :=
  Runs.run_history_induction (step sha256) (fun hist s => SessionInv sha256 hist s) sessionInv_new
    (fun _ c h => h.step c) calls

/-! ## Closing writers and finishing -/

section Close

variable (s : SharedBackupState) (sha256 : List UInt8 → Vector UInt8 32)

/-- A successful close of a dynamic writer closes an open writer whose offset is the size the
client gave. -/
theorem dynamicWriterClose_eq_ok {wid chunkCount size : Nat} {csum : Vector UInt8 32}
    (h : (s.dynamicWriterClose sha256 wid chunkCount size csum).2 = .ok ()) :
    ∃ data, s.dynamicWriters.lookup wid = some data ∧ data.chunkCount = chunkCount ∧
      data.offset = size := by
  unfold dynamicWriterClose at h
  split_ifs at h
  split at h
  · cases h
  rename_i data hdata
  dsimp only at h
  split_ifs at h with hcount hoffset
  exact ⟨data, hdata, not_not.mp hcount, not_not.mp hoffset⟩

/-- A successful close of a fixed writer closes an open writer, whose slots are those of its
index. -/
theorem fixedWriterClose_eq_ok {wid chunkCount size : Nat} {csum : Vector UInt8 32}
    (h : (s.fixedWriterClose sha256 wid chunkCount size csum).2 = .ok ()) :
    ∃ data, s.fixedWriters.lookup wid = some data ∧ data.chunkCount = chunkCount := by
  unfold fixedWriterClose at h
  split_ifs at h
  split at h
  · cases h
  rename_i data hdata
  dsimp only at h
  split_ifs at h with hcount
  exact ⟨data, hdata, not_not.mp hcount⟩

/-- The close of a fixed writer checks only counts, the size and the checksum: a writer that got
as many chunks as its index has slots closes with its own size and the checksum of its slots,
whatever the slots hold. -/
theorem fixedWriterClose_of_complete {wid : Nat} {data : FixedWriterState}
    {digests : List (Vector UInt8 32)} (hfin : s.finished = false)
    (hd : s.fixedWriters.lookup wid = some data) (hidx : data.index.index = some digests)
    (hcount : data.chunkCount = data.index.indexLength) :
    (s.fixedWriterClose sha256 wid data.chunkCount data.size
      (sha256 (digests.flatMap Vector.toList))).2 = .ok () := by
  unfold fixedWriterClose FixedIndexWriter.close
  simp [hfin, hd, hidx, hcount]

/-- A successful finish needs no open writer and a stored file, and marks the backup
finished. -/
theorem finishBackup_eq_ok {storage : Except String Unit} (h : (s.finishBackup storage).2 = .ok ()) :
    s.dynamicWriters.entries = [] ∧ s.fixedWriters.entries = [] ∧ 0 < s.fileCounter ∧
      (s.finishBackup storage).1 = { s with finished := true } := by
  unfold finishBackup at h ⊢
  split_ifs at h ⊢ with hfin hopen hfiles
  cases storage with
  | error e => cases h
  | ok u =>
    rw [not_or, not_not, not_not] at hopen
    exact ⟨hopen.1, hopen.2, Nat.pos_of_ne_zero hfiles, rfl⟩

end Close

/-- The loop of an append on a finished backup fails at its first chunk, or has none. -/
theorem appendChunks_of_finished (appendChunk : SharedBackupState → Nat → Nat → Nat →
      Vector UInt8 32 → SharedBackupState × Except String Unit) (s : SharedBackupState) (wid : Nat)
    (happ : ∀ offset size digest, (appendChunk s wid offset size digest).1 = s)
    (l : List (Vector UInt8 32 × Nat)) : (appendChunks appendChunk s wid l).1 = s := by
  induction l with
  | nil => rfl
  | cons entry rest ih =>
    obtain ⟨digest, offset⟩ := entry
    unfold appendChunks
    split
    · rfl
    rename_i size hsize
    have hs := happ offset size digest
    generalize appendChunk s wid offset size digest = r at hs ⊢
    obtain ⟨s₁, e | ⟨⟩⟩ := r
    · exact hs
    · dsimp only at hs ⊢
      subst hs
      exact ih

/-- No request changes a finished backup. -/
theorem step_of_finished (sha256 : List UInt8 → Vector UInt8 32) {s : SharedBackupState}
    (hfin : s.finished = true) (c : Call) : (step sha256 s c).1 = s := by
  cases c with
  | createDynamicIndex name =>
    show (s.createDynamicIndex name).1 = s
    rcases createDynamicIndex_cases s name with hs | ⟨data, hnot, -⟩
    · exact hs
    · rw [hfin] at hnot
      cases hnot
  | createFixedIndex name size base =>
    show (s.createFixedIndex name size base).1 = s
    rcases createFixedIndex_cases s name size base with hs | ⟨data, digests, hnot, -⟩
    · exact hs
    · rw [hfin] at hnot
      cases hnot
  | dynamicAppend wid ds os =>
    show (s.dynamicAppend wid ds os).1 = s
    unfold SharedBackupState.dynamicAppend appendRequest
    split_ifs
    · rfl
    · exact appendChunks_of_finished _ s wid
        (fun _ _ _ => by unfold dynamicWriterAppendChunk; simp [hfin]) _
  | fixedAppend wid ds os =>
    show (s.fixedAppend wid ds os).1 = s
    unfold SharedBackupState.fixedAppend appendRequest
    split_ifs
    · rfl
    · exact appendChunks_of_finished _ s wid
        (fun _ _ _ => by unfold fixedWriterAppendChunk; simp [hfin]) _
  | registerChunk digest length =>
    show (s.registerChunk digest length).1 = s
    rw [registerChunk, if_pos hfin]
  | registerDynamicChunk wid digest size compressedSize isDuplicate =>
    show (s.registerDynamicChunk wid digest size compressedSize isDuplicate).1 = s
    rw [registerDynamicChunk, if_pos hfin]
  | registerFixedChunk wid digest size compressedSize isDuplicate =>
    show (s.registerFixedChunk wid digest size compressedSize isDuplicate).1 = s
    rw [registerFixedChunk, if_pos hfin]
  | dynamicWriterClose wid chunkCount size csum =>
    show (s.dynamicWriterClose sha256 wid chunkCount size csum).1 = s
    rw [dynamicWriterClose, if_pos hfin]
  | fixedWriterClose wid chunkCount size csum =>
    show (s.fixedWriterClose sha256 wid chunkCount size csum).1 = s
    rw [fixedWriterClose, if_pos hfin]
  | finishBackup storage =>
    show (s.finishBackup storage).1 = s
    unfold finishBackup
    rw [if_pos hfin]

/-! ## What a session stores -/

theorem run_concat (sha256 : List UInt8 → Vector UInt8 32) (hist : List Call) (c : Call) :
    run sha256 (hist ++ [c]) = (step sha256 (run sha256 hist) c).1 :=
  Runs.run_concat _ _ _ _

theorem run_append (sha256 : List UInt8 → Vector UInt8 32) (hist more : List Call) :
    run sha256 (hist ++ more) = Runs.run (step sha256) (run sha256 hist) more :=
  Runs.run_append _ _ _ _

theorem closed_indexes_hold_known_chunks (sha256 : List UInt8 → Vector UInt8 32) (hist : List Call) :
    (∀ wid chunkCount size csum,
      (step sha256 (run sha256 hist) (.dynamicWriterClose wid chunkCount size csum)).2 = .ok () →
      ∃ data, (run sha256 hist).dynamicWriters.lookup wid = some data ∧
        endOf data.index.entries = size ∧ DynEntriesOk sha256 hist wid data.index.entries) ∧
    (∀ wid chunkCount size csum,
      (step sha256 (run sha256 hist) (.fixedWriterClose wid chunkCount size csum)).2 = .ok () →
      ∃ data digests, (run sha256 hist).fixedWriters.lookup wid = some data ∧
        data.index.index = some digests ∧ FixSlotsOk sha256 hist wid data.incremental digests) ∧
    (∀ storage, (step sha256 (run sha256 hist) (.finishBackup storage)).2 = .ok () →
      (run sha256 hist).dynamicWriters.entries = [] ∧ (run sha256 hist).fixedWriters.entries = [] ∧
        0 < (run sha256 hist).fileCounter ∧
        ∀ more, run sha256 (hist ++ .finishBackup storage :: more) =
          run sha256 (hist ++ [.finishBackup storage])) := by
  have hinv : SessionInv sha256 hist (run sha256 hist) := sessionInv_run hist
  refine ⟨fun wid chunkCount size csum h => ?_, fun wid chunkCount size csum h => ?_,
    fun storage h => ?_⟩
  · -- the closed writer was open, its offset where its last entry ends
    rw [step] at h
    obtain ⟨data, hd, -, hoffset⟩ := dynamicWriterClose_eq_ok (run sha256 hist) sha256 h
    obtain ⟨⟨-, hend⟩, hentries⟩ := hinv.dyn wid data hd
    exact ⟨data, hd, by rw [← hend, hoffset], hentries⟩
  · rw [step] at h
    obtain ⟨data, hd, -⟩ := fixedWriterClose_eq_ok (run sha256 hist) sha256 h
    obtain ⟨digests, hdigests, hslots⟩ := hinv.fix wid data hd
    exact ⟨data, digests, hd, hdigests, hslots⟩
  · -- once finished, the state is one that no request changes
    rw [step] at h
    obtain ⟨hdyn, hfix, hfiles, hfin⟩ := finishBackup_eq_ok (run sha256 hist) h
    refine ⟨hdyn, hfix, hfiles, fun more => ?_⟩
    have hfinished : (run sha256 (hist ++ [.finishBackup storage])).finished = true := by
      rw [run_concat, step, hfin]
    rw [show hist ++ .finishBackup storage :: more = (hist ++ [.finishBackup storage]) ++ more by
      simp, run_append]
    exact Runs.run_of_fixed _ (step_of_finished sha256 hfinished) more

theorem closed_indexes_hold_known_chunks_one_chunk :
    ∃ data, (run (fun _ => zeroDigest) [.createDynamicIndex "root.pxar.didx",
        .registerChunk (Vector.replicate 32 1) 5,
        .dynamicAppend 1 [Vector.replicate 32 1] [0]]).dynamicWriters.lookup 1 = some data ∧
      endOf data.index.entries = 5 ∧
      DynEntriesOk (fun _ => zeroDigest) [.createDynamicIndex "root.pxar.didx",
        .registerChunk (Vector.replicate 32 1) 5,
        .dynamicAppend 1 [Vector.replicate 32 1] [0]] 1 data.index.entries :=
  (closed_indexes_hold_known_chunks (fun _ => zeroDigest) [.createDynamicIndex "root.pxar.didx",
      .registerChunk (Vector.replicate 32 1) 5,
      .dynamicAppend 1 [Vector.replicate 32 1] [0]]).1 1 1 5 zeroDigest (by decide +kernel)

/-- A session that writes one slot of a two-slot image twice: the chunk count matches the number
of slots. -/
def zeroSlotSession : List Call :=
  [.createFixedIndex "disk.img.fidx" (2 * fixedChunkSize) none,
    .registerChunk (Vector.replicate 32 1) fixedChunkSize,
    .fixedAppend 1 [Vector.replicate 32 1, Vector.replicate 32 1] [0, 0]]

/-- Whatever the checksum function, the close of the image succeeds, and its second slot keeps
the zero digest, though no append of the session put a chunk there. -/
theorem zeroSlotSession_closes (sha256 : List UInt8 → Vector UInt8 32) :
    (step sha256 (run sha256 zeroSlotSession) (.fixedWriterClose 1 2 (2 * fixedChunkSize)
        (sha256 ((Vector.replicate 32 1).toList ++ zeroDigest.toList)))).2 = .ok () ∧
    ∃ data digests, (run sha256 zeroSlotSession).fixedWriters.lookup 1 = some data ∧
      data.incremental = false ∧ data.index.index = some digests ∧ digests[1]? = some zeroDigest ∧
      ¬ ∃ d, Runs.Occurred (step sha256) SharedBackupState.new zeroSlotSession (AppendedFix 1 1 d) := by
  -- the session has no close, so its state does not depend on the checksum function
  have hrun : run sha256 zeroSlotSession = run (fun _ => zeroDigest) zeroSlotSession := rfl
  have hfin : (run sha256 zeroSlotSession).finished = false := by
    rw [hrun]
    decide +kernel
  have hindex : ((run sha256 zeroSlotSession).fixedWriters.lookup 1).map (fun d => d.index.index) =
      some (some [Vector.replicate 32 1, zeroDigest]) := by
    rw [hrun]
    decide +kernel
  have hcounts : ((run sha256 zeroSlotSession).fixedWriters.lookup 1).map
      (fun d => ((d.chunkCount, d.index.indexLength, d.size, d.incremental) : Nat × Nat × Nat × Bool)) =
      some (2, 2, 2 * fixedChunkSize, false) := by
    rw [hrun]
    decide +kernel
  obtain ⟨data, hd, hidx⟩ := Option.map_eq_some_iff.mp hindex
  rw [hd, Option.map_some, Option.some.injEq, Prod.mk.injEq, Prod.mk.injEq, Prod.mk.injEq] at hcounts
  obtain ⟨hcount, hlen, hsize, hinc⟩ := hcounts
  refine ⟨?_, data, _, hd, hinc, hidx, rfl, ?_⟩
  · have hclose := fixedWriterClose_of_complete _ sha256 hfin hd hidx (by rw [hcount, hlen])
    rw [hcount, hsize] at hclose
    simpa [step] using hclose
  · -- the one append lists the chunk twice at offset zero, which is the first slot
    rintro ⟨d, hocc⟩
    obtain ⟨c, hc, s', ds, os, w, rfl, -, off, size, hmem, -, halign⟩ := hocc.exists_mem
    simp only [zeroSlotSession, List.mem_cons, reduceCtorEq, Call.fixedAppend.injEq,
      List.not_mem_nil, or_false, false_or] at hc
    obtain ⟨-, rfl, rfl⟩ := hc
    have hoff : off = 0 := by
      simp at hmem
      exact hmem.2
    subst hoff
    rw [Nat.zero_add] at halign
    exact absurd (FixedIndexWriter.checkChunkAlignment_self halign) (by decide)

/-- The session with a checksum of the bytes' sum. -/
theorem fixedWriterClose_keeps_zero_slot :
    (step (fun bytes => Vector.replicate 32 bytes.sum)
        (run (fun bytes => Vector.replicate 32 bytes.sum) zeroSlotSession)
        (.fixedWriterClose 1 2 (2 * fixedChunkSize)
          (Vector.replicate 32 ((Vector.replicate 32 1).toList ++ zeroDigest.toList).sum))).2 =
      .ok () ∧
    ∃ data digests,
      (run (fun bytes => Vector.replicate 32 bytes.sum) zeroSlotSession).fixedWriters.lookup 1 =
        some data ∧
      data.incremental = false ∧ data.index.index = some digests ∧ digests[1]? = some zeroDigest ∧
      ¬ ∃ d, Runs.Occurred (step fun bytes => Vector.replicate 32 bytes.sum) SharedBackupState.new
        zeroSlotSession (AppendedFix 1 1 d) :=
  zeroSlotSession_closes fun bytes => Vector.replicate 32 bytes.sum

end ProxmoxBackup.Backup
