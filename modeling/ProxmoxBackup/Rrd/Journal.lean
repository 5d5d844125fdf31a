import ProxmoxBackup.Rrd.Database
import ProxmoxBackup.Foundations.Except

/-!
# The RRD journal (`proxmox-rrd/src/cache/journal.rs`, `cache.rs`)

Before an update reaches an RRD file, the cache appends it to a journal, one line per update:
the time, the value, the data source type as its number and the file's relative path,
separated by colons (`append_journal_entry`). `apply_journal_lines` replays the journal: it
reads it line by line, parses each line (`JournalEntry::from_str`) and applies the update,
skipping with a warning every line it cannot parse.

The text of an `f64` (`Display` and `FromStr`) is a parameter, `F64Text`; what the journal
relies on is `F64Text.Lawful`: the text of a finite value has no colon and no whitespace, and
reads back as the value. Strings are lists of characters.

* `fromStr_journalEntryLine`: a line written for a gauge or derive update reads back as that
  update, and a line written for a counter update is rejected: the writer stores the counter
  type as `2`, which the reader does not accept.
* `applyJournalLines_journal`: replaying a journal applies its gauge and derive updates in
  order, and none of its counter updates.
-/

namespace ProxmoxBackup.Rrd

/-- `dst as u8`. -/
def DST.toU8 : DST → Nat
  | .gauge => 0
  | .derive => 1
  | .counter => 2

/-- `char::is_whitespace`: the characters of Unicode's `White_Space`. -/
def isWhitespace (c : Char) : Bool :=
  let n := c.toNat
  (9 ≤ n && n ≤ 13) || n == 32 || n == 0x85 || n == 0xA0 || n == 0x1680 ||
    (0x2000 ≤ n && n ≤ 0x200A) || n == 0x2028 || n == 0x2029 || n == 0x202F || n == 0x205F ||
    n == 0x3000

/-- `str::trim`. -/
def trim (s : List Char) : List Char :=
  ((s.dropWhile isWhitespace).reverse.dropWhile isWhitespace).reverse

/-- The text before the first `:` and the text after it. -/
def splitOnce : List Char → Option (List Char × List Char)
  | [] => none
  | c :: cs => if c = ':' then some ([], cs) else (splitOnce cs).map fun (b, a) => (c :: b, a)

/-- `str::splitn(n, ':')`: at most `n` pieces, the last one the rest of the text. -/
def splitN : Nat → List Char → List (List Char)
  | 0, _ => []
  | 1, s => [s]
  | n + 2, s =>
    match splitOnce s with
    | some (before, after) => before :: splitN (n + 1) after
    | none => [s]

/-- The value of a non-empty string of decimal digits. -/
def decimalValue (digits : List Char) : Option Nat :=
  if digits.isEmpty || !digits.all Char.isDigit then none
  else some (digits.foldl (fun acc c => 10 * acc + (c.toNat - 48)) 0)

/-- `u8::from_str`: an optional `+` and decimal digits, of a value at most 255. -/
def parseU8 (s : List Char) : Option Nat :=
  let digits := match s with
    | '+' :: rest => rest
    | _ => s
  (decimalValue digits).filter fun n => n ≤ 255

/-- The text of an `f64`: `Display` and `FromStr`. -/
structure F64Text (F : Type) where
  display : F → List Char
  parse : List Char → Option F

/-- What the journal relies on, for the values that `finite` admits: their text has no colon and
no whitespace, and reads back as the value. Rust's `Display` of a finite `f64` is a decimal
number without exponent, the shortest that reads back as the same value. -/
structure F64Text.Lawful {F : Type} (text : F64Text F) (finite : F → Prop) : Prop where
  colon_not_mem : ∀ x, finite x → ':' ∉ text.display x
  not_whitespace : ∀ x, finite x → ∀ c ∈ text.display x, isWhitespace c = false
  parse_display : ∀ x, finite x → text.parse (text.display x) = some x

/-- `JournalEntry`. -/
structure JournalEntry (F : Type) where
  time : F
  value : F
  dst : DST
  relPath : List Char

variable {F : Type} (text : F64Text F)

/-- The line of `append_journal_entry`:
`format!("{}:{}:{}:{}\n", time, value, dst as u8, rel_path)`. -/
def journalEntryLine (time value : F) (dst : DST) (relPath : List Char) : List Char :=
  text.display time ++ ':' ::
    (text.display value ++ ':' :: (Nat.toDigits 10 dst.toU8 ++ ':' :: (relPath ++ ['\n'])))

/-- `JournalState::append_journal_entry`, on the journal's content. -/
def appendJournalEntry (journal : List Char) (time value : F) (dst : DST) (relPath : List Char) :
    List Char :=
  journal ++ journalEntryLine text time value dst relPath

/-- `JournalEntry::from_str`. -/
def JournalEntry.fromStr (line : List Char) : Except String (JournalEntry F) := do
  let line := trim line
  let parts := splitN 4 line
  if parts.length ≠ 4 then throw "wrong numper of components"
  let time ← match text.parse (parts.getD 0 []) with
    | some time => pure time
    | none => throw "unable to parse time"
  let value ← match text.parse (parts.getD 1 []) with
    | some value => pure value
    | none => throw "unable to parse value"
  let dst ← match parseU8 (parts.getD 2 []) with
    | some dst => pure dst
    | none => throw "unable to parse data source type"
  let dst ← match dst with
    | 0 => pure DST.gauge
    | 1 => pure DST.derive
    | _ => throw s!"got strange value for data source type '{dst}'"
  pure ⟨time, value, dst, parts.getD 3 []⟩

/-- `BufReader::read_line`: the text up to and with the first newline, and the rest. -/
def readLine : List Char → List Char × List Char
  | [] => ([], [])
  | c :: cs =>
    if c = '\n' then (['\n'], cs)
    else
      let (line, rest) := readLine cs
      (c :: line, rest)

theorem length_readLine_snd_lt : ∀ {s : List Char}, s ≠ [] → (readLine s).2.length < s.length
  | [], h => absurd rfl h
  | c :: cs, _ => by
    unfold readLine
    split
    · simp
    · by_cases hcs : cs = []
      · subst hcs
        simp [readLine]
      · have := length_readLine_snd_lt hcs
        simp only [List.length_cons]
        omega

/-- The lines that the loop of `apply_journal_lines` reads, up to the read of length 0. -/
def readLines (journal : List Char) : List (List Char) :=
  if _h : journal = [] then [] else (readLine journal).1 :: readLines (readLine journal).2
termination_by journal.length
decreasing_by exact length_readLine_snd_lt _h

/-- The loop of `apply_journal_lines` over the lines read: a line that parses is applied by
`update` (`RRDMap::update`, whose error ends the replay), a line that does not is skipped. The
line counter also counts the final read of length 0. -/
def applyLines {σ : Type} (update : σ → JournalEntry F → Except String σ) :
    σ → Nat → List (List Char) → Except String (σ × Nat)
  | state, linenr, [] => pure (state, linenr + 1)
  | state, linenr, line :: lines =>
    match JournalEntry.fromStr text line with
    | .error _ => applyLines update state (linenr + 1) lines
    | .ok entry => do
      let state ← update state entry
      applyLines update state (linenr + 1) lines

/-- `apply_journal_lines`. -/
def applyJournalLines {σ : Type} (update : σ → JournalEntry F → Except String σ) (state : σ)
    (journal : List Char) : Except String (σ × Nat) :=
  applyLines text update state 0 (readLines journal)

/-! ## Reading a line back -/

theorem splitOnce_append {a : List Char} (h : ':' ∉ a) (b : List Char) :
    splitOnce (a ++ ':' :: b) = some (a, b) := by
  induction a with
  | nil => simp [splitOnce]
  | cons c a ih =>
    have hc : c ≠ ':' := fun hc => h (hc ▸ List.mem_cons_self)
    simp [splitOnce, hc, ih fun ha => h (List.mem_cons_of_mem _ ha)]

theorem splitN_append (n : Nat) {a : List Char} (h : ':' ∉ a) (b : List Char) :
    splitN (n + 2) (a ++ ':' :: b) = a :: splitN (n + 1) b := by
  simp [splitN, splitOnce_append h]

theorem head?_append_colon (a r : List Char) : (a ++ ':' :: r).head? = some (a.headD ':') := by
  cases a <;> rfl

theorem getLast?_append_colon (a r : List Char) :
    (a ++ ':' :: r).getLast? = some (r.getLastD ':') := by
  rw [List.getLast?_append, List.getLast?_cons, Option.some_or, List.getLastD_eq_getLast?]

theorem getLastD_append_colon (a r : List Char) : (a ++ ':' :: r).getLastD ':' = r.getLastD ':' := by
  rw [List.getLastD_eq_getLast?, getLast?_append_colon, Option.getD_some]

/-- A line whose first and last characters are not whitespace is its own text without the
newline. -/
theorem trim_append_newline {s : List Char} (hhead : ∀ c ∈ s.head?, isWhitespace c = false)
    (hlast : ∀ c ∈ s.getLast?, isWhitespace c = false) : trim (s ++ ['\n']) = s := by
  rcases List.eq_nil_or_concat s with rfl | ⟨l, x, rfl⟩
  · rfl
  · rw [List.concat_eq_append] at hhead hlast ⊢
    have hx : isWhitespace x = false := hlast x (by simp)
    have hfront : (l ++ [x] ++ ['\n']).dropWhile isWhitespace = l ++ [x] ++ ['\n'] := by
      rcases l with _ | ⟨y, l⟩
      · simp [hx]
      · exact List.dropWhile_cons_of_neg (by simpa using hhead y (by simp))
    have hback : ((l ++ [x] ++ ['\n']).reverse).dropWhile isWhitespace = (l ++ [x]).reverse := by
      simp [hx, show isWhitespace '\n' = true from rfl]
    rw [trim, hfront, hback, List.reverse_reverse]

theorem parseU8_digits (dst : DST) : parseU8 (Nat.toDigits 10 dst.toU8) = some dst.toU8 := by
  cases dst <;> decide

theorem colon_not_mem_digits (dst : DST) : ':' ∉ Nat.toDigits 10 dst.toU8 := by
  cases dst <;> decide

/-- What a journal line needs to read back: finite numbers, and a path without a newline whose
last character is not whitespace. -/
def JournalEntry.Writable (finite : F → Prop) (e : JournalEntry F) : Prop :=
  finite e.time ∧ finite e.value ∧ '\n' ∉ e.relPath ∧
    ∀ c ∈ e.relPath.getLast?, isWhitespace c = false

/-- The text of a journal line, before its newline. -/
theorem journalEntryLine_eq (time value : F) (dst : DST) (relPath : List Char) :
    journalEntryLine text time value dst relPath =
      (text.display time ++ ':' :: (text.display value ++ ':' ::
        (Nat.toDigits 10 dst.toU8 ++ ':' :: relPath))) ++ ['\n'] := by
  simp [journalEntryLine]

/-- A line written for a gauge or derive update reads back as the update; a line written for a
counter update does not read back at all. -/
theorem fromStr_journalEntryLine {finite : F → Prop} (htext : text.Lawful finite)
    {e : JournalEntry F} (he : e.Writable finite) :
    JournalEntry.fromStr text (journalEntryLine text e.time e.value e.dst e.relPath) =
      if e.dst = .counter then .error "got strange value for data source type '2'" else .ok e := by
  obtain ⟨time, value, dst, relPath⟩ := e
  obtain ⟨htime, hvalue, -, hpath⟩ := he
  have hhead : ∀ c ∈ (text.display time ++ ':' :: (text.display value ++ ':' ::
      (Nat.toDigits 10 dst.toU8 ++ ':' :: relPath))).head?, isWhitespace c = false := by
    rw [head?_append_colon]
    rintro c ⟨⟩
    cases hd : text.display time with
    | nil => rfl
    | cons d ds => exact htext.not_whitespace _ htime _ (by simp [hd])
  have hlast : ∀ c ∈ (text.display time ++ ':' :: (text.display value ++ ':' ::
      (Nat.toDigits 10 dst.toU8 ++ ':' :: relPath))).getLast?, isWhitespace c = false := by
    rw [getLast?_append_colon, getLastD_append_colon, getLastD_append_colon,
      List.getLastD_eq_getLast?]
    rintro c ⟨⟩
    cases hl : relPath.getLast? with
    | none => rfl
    | some c => exact hpath c hl
  have hsplit : splitN 4 (text.display time ++ ':' :: (text.display value ++ ':' ::
      (Nat.toDigits 10 dst.toU8 ++ ':' :: relPath))) =
      [text.display time, text.display value, Nat.toDigits 10 dst.toU8, relPath] := by
    rw [splitN_append 2 (htext.colon_not_mem _ htime), splitN_append 1
      (htext.colon_not_mem _ hvalue), splitN_append 0 (colon_not_mem_digits dst)]
    rfl
  rw [journalEntryLine_eq, JournalEntry.fromStr, trim_append_newline hhead hlast, hsplit]
  simp only [List.length_cons, List.length_nil, List.getD_cons_zero, List.getD_cons_succ,
    htext.parse_display _ htime, htext.parse_display _ hvalue, parseU8_digits]
  cases dst <;> rfl

/-! ## Replaying a journal -/

theorem readLine_append {s : List Char} (h : '\n' ∉ s) (rest : List Char) :
    readLine (s ++ '\n' :: rest) = (s ++ ['\n'], rest) := by
  induction s with
  | nil => simp [readLine]
  | cons c s ih =>
    have hc : c ≠ '\n' := fun hc => h (hc ▸ List.mem_cons_self)
    simp [readLine, hc, ih fun hs => h (List.mem_cons_of_mem _ hs)]

theorem readLines_nil : readLines [] = [] := by
  rw [readLines, dif_pos rfl]

theorem readLines_append {s : List Char} (h : '\n' ∉ s) (rest : List Char) :
    readLines (s ++ '\n' :: rest) = (s ++ ['\n']) :: readLines rest := by
  rw [readLines, dif_neg (by simp), readLine_append h]

/-- The journal after appending entries in order. -/
theorem foldl_appendJournalEntry (entries : List (JournalEntry F)) (journal : List Char) :
    entries.foldl (fun j e => appendJournalEntry text j e.time e.value e.dst e.relPath) journal =
      journal ++ entries.flatMap fun e => journalEntryLine text e.time e.value e.dst e.relPath := by
  induction entries generalizing journal with
  | nil => simp
  | cons e entries ih =>
    rw [List.foldl_cons, ih, appendJournalEntry, List.flatMap_cons, List.append_assoc]

section Replay

variable {finite : F → Prop} (htext : text.Lawful finite)
include htext

theorem newline_not_mem_line {e : JournalEntry F} (he : e.Writable finite) :
    '\n' ∉ text.display e.time ++ ':' :: (text.display e.value ++ ':' ::
      (Nat.toDigits 10 e.dst.toU8 ++ ':' :: e.relPath)) := by
  obtain ⟨htime, hvalue, hpath, -⟩ := he
  have hdisplay : ∀ x, finite x → '\n' ∉ text.display x := fun x hx hmem =>
    absurd (htext.not_whitespace x hx _ hmem) (by decide)
  have hdigits : '\n' ∉ Nat.toDigits 10 e.dst.toU8 := by
    cases e.dst <;> decide
  simp only [List.mem_append, List.mem_cons, not_or]
  exact ⟨hdisplay _ htime, by decide, hdisplay _ hvalue, by decide, hdigits, by decide, hpath⟩

/-- The journal's lines are the lines of its entries. -/
theorem readLines_journal {entries : List (JournalEntry F)} (he : ∀ e ∈ entries, e.Writable finite) :
    readLines (entries.flatMap fun e => journalEntryLine text e.time e.value e.dst e.relPath) =
      entries.map fun e => journalEntryLine text e.time e.value e.dst e.relPath := by
  induction entries with
  | nil => exact readLines_nil
  | cons e entries ih =>
    have hline := journalEntryLine_eq text e.time e.value e.dst e.relPath
    rw [List.flatMap_cons, List.map_cons, hline, List.append_assoc, List.singleton_append,
      readLines_append (newline_not_mem_line text htext (he e List.mem_cons_self)),
      ih fun e' h => he e' (List.mem_cons_of_mem _ h)]

/-- The loop over the lines of entries applies the gauge and derive updates in order. -/
theorem applyLines_journal {σ : Type} (update : σ → JournalEntry F → Except String σ)
    {entries : List (JournalEntry F)} (he : ∀ e ∈ entries, e.Writable finite) (state : σ)
    (linenr : Nat) :
    applyLines text update state linenr
        (entries.map fun e => journalEntryLine text e.time e.value e.dst e.relPath) =
      ((entries.filter fun e => e.dst ≠ .counter).foldlM update state).map
        fun s => (s, linenr + entries.length + 1) := by
  induction entries generalizing state linenr with
  | nil => rfl
  | cons e entries ih =>
    have he' : ∀ e ∈ entries, e.Writable finite := fun e' h => he e' (List.mem_cons_of_mem _ h)
    have hcount : linenr + 1 + entries.length + 1 = linenr + (entries.length + 1) + 1 := by omega
    rw [List.map_cons, applyLines, fromStr_journalEntryLine text htext (he e List.mem_cons_self),
      List.length_cons, ← hcount]
    by_cases hc : e.dst = .counter
    · simp only [hc, if_true, List.filter_cons, ne_eq, not_true_eq_false, decide_false,
        Bool.false_eq_true, if_false]
      exact ih he' state (linenr + 1)
    · simp only [hc, if_false, List.filter_cons, ne_eq, not_false_eq_true, decide_true, if_true,
        List.foldlM_cons]
      cases hu : update state e with
      | error err => rfl
      | ok s => exact ih he' s (linenr + 1)

/-- Replaying a journal written entry by entry applies its gauge and derive updates in order,
and drops its counter updates. -/
theorem applyJournalLines_journal {σ : Type} (update : σ → JournalEntry F → Except String σ)
    {entries : List (JournalEntry F)} (he : ∀ e ∈ entries, e.Writable finite) (state : σ) :
    applyJournalLines text update state
        (entries.foldl (fun j e => appendJournalEntry text j e.time e.value e.dst e.relPath) []) =
      ((entries.filter fun e => e.dst ≠ .counter).foldlM update state).map
        fun s => (s, entries.length + 1) := by
  rw [foldl_appendJournalEntry, List.nil_append, applyJournalLines, readLines_journal text htext he,
    applyLines_journal text htext update he, Nat.zero_add]

end Replay

/-- The text of the `f64` values that are integers: `Display` writes them without a fraction,
with a `-` when negative, and `FromStr` reads that text back. -/
def integralText : F64Text Int where
  display n := (if n < 0 then ['-'] else []) ++ Nat.toDigits 10 n.natAbs
  parse
    | '-' :: digits => (decimalValue digits).map fun n => -(n : Int)
    | digits => (decimalValue digits).map fun n => (n : Int)

/-- A counter update at time 1700000000 with value 5 for `host/node1`: its journal line is
rejected, and replaying the journal holding that line applies nothing. -/
theorem journal_drops_counter_update {σ : Type} (update : σ → JournalEntry Int → Except String σ)
    (state : σ) :
    JournalEntry.fromStr integralText (journalEntryLine integralText 1700000000 5 .counter
        ['h', 'o', 's', 't', '/', 'n', 'o', 'd', 'e', '1']) =
      .error "got strange value for data source type '2'" ∧
    applyJournalLines integralText update state (appendJournalEntry integralText [] 1700000000 5
        .counter ['h', 'o', 's', 't', '/', 'n', 'o', 'd', 'e', '1']) = .ok (state, 2) := by
  -- the digits are spelt out since `∀ c ∈ l` over characters is not decided by enumeration
  have hdigits : Nat.toDigits 10 1700000000 = ['1', '7', '0', '0', '0', '0', '0', '0', '0', '0'] ∧
      Nat.toDigits 10 5 = ['5'] := ⟨rfl, rfl⟩
  have htext : integralText.Lawful fun x => x = 1700000000 ∨ x = 5 :=
    ⟨by rintro x (rfl | rfl) <;> decide,
      by rintro x (rfl | rfl) <;> simp [integralText, isWhitespace, hdigits],
      by rintro x (rfl | rfl) <;> rfl⟩
  have he : ∀ e ∈ [(⟨1700000000, 5, .counter, ['h', 'o', 's', 't', '/', 'n', 'o', 'd', 'e', '1']⟩ :
      JournalEntry Int)], e.Writable fun x => x = 1700000000 ∨ x = 5 := by
    simp only [List.mem_singleton, forall_eq]
    exact ⟨.inl rfl, .inr rfl, by simp, by simp [isWhitespace]⟩
  refine ⟨(fromStr_journalEntryLine integralText htext (he _ List.mem_cons_self)).trans (if_pos rfl),
    ?_⟩
  exact applyJournalLines_journal integralText htext update he state

end ProxmoxBackup.Rrd
