import TaskTimer.Log.File
import TaskTimer.Proofs.Files.Tree
import TaskTimer.Proofs.Log.Entry

/-!
# Log files

Entries are put behind whatever a log holds. They are read back, in their order and behind the
entries that were there, unless the last line of the log was not finished: the first entry is then
written into that line, and both are lost.

* `FileTree.logAt`: what is read from a log.
* `FileTree.Holds`, `FileTree.HasLog`: what a log holds, when it is looked at and when it is opened.
* `Logger.write_ok`: what a logger does when it writes an entry.
* `Logged`: entries that loggers write. `Logged.hasLog`: what the log holds then.
* **`log_keeps_entries`**: exactly when no entry is lost, and what is left otherwise.
-/

namespace TaskTimer

namespace FileTree

/-- The tree with the directory of what is at a path. -/
def withDirectory? (t : FileTree) (path : String) : Option FileTree :=
  match Path.parent? path with
  | none => some t
  | some directory => t.makeDirectories directory

/-- What is read from the log at a path. -/
def logAt (t : FileTree) (path : String) : Except LogError (List LogEntry) :=
  ((readLogFile path : StateM FileTree _) t).1

/-- The text of the log at a path. A log that is missing holds no text. -/
inductive Holds (t : FileTree) (path : String) : List Char → Prop
  | file {text : List Char} (bytes : t.read path = .ok (Utf8.encode text)) : Holds t path text
  | missing (nothing : t.absolute? path = none) : Holds t path []

/-- The log at a path holds a text, and does not change when its directory is made. The path of a
missing log may lead through a directory that is missing too and back out of it; such a path must
not lead to another file once that directory is there. -/
structure HasLog (t : FileTree) (path : String) (text : List Char) : Prop where
  now : t.Holds path text
  opened : ∀ t', t.withDirectory? path = some t' → t'.Holds path text

example : ({ root := "/home" } : FileTree).HasLog "logs/e.jsonl" [] where
  now := .missing (by decide)
  opened t' h := by
    have hmade : ({ root := "/home" } : FileTree).withDirectory? "logs/e.jsonl" =
        some { root := "/home", nodes := [(["logs"], .directory)] } := by decide
    rw [hmade] at h
    cases h
    exact .missing (by decide)

variable {t t' : FileTree} {path : String} {text : List Char}

theorem withDirectory?_extends (h : t.withDirectory? path = some t') : t.Extends t' := by
  unfold withDirectory? at h
  split at h
  · cases h
    exact .refl _
  · exact makeDirectories_extends h

theorem hasLog_of_read (h : t.read path = .ok (Utf8.encode text)) : t.HasLog path text :=
  ⟨.file h, fun _ h' => .file ((withDirectory?_extends h').read h)⟩

theorem absolute?_ne_none {bytes : List UInt8} (h : t.read path = .ok bytes) :
    t.absolute? path ≠ none := by
  obtain ⟨place, hplace, -⟩ := read_eq_ok_iff.1 h
  simp [absolute?, hplace]

theorem logAt_eq (t : FileTree) (path : String) :
    t.logAt path =
      if (t.absolute? path).isNone then .ok []
      else
        match t.read path with
        | .error _ => .error (.unreadable path)
        | .ok content => (readLog content).elim (.error (.unreadable path)) .ok := by
  unfold logAt readLogFile
  rw [run_bind, run_canonical?]
  dsimp only
  split
  · rfl
  · rw [run_bind, run_readFile]
    cases t.read path with
    | error e => rfl
    | ok content => cases h : readLog content <;> simp only [h] <;> rfl

theorem Holds.logAt (h : t.Holds path text) : t.logAt path = .ok (entriesOf text) := by
  rw [logAt_eq]
  cases h with
  | file bytes =>
    have hlog : readLog (Utf8.encode text) = some (entriesOf text) := by
      rw [readLog, Utf8.decode?_encode]
      rfl
    rw [if_neg (by simpa using absolute?_ne_none bytes), bytes]
    simp only [hlog, Option.elim_some]
  | missing nothing => rw [nothing, entriesOf_nil]; rfl

/-- **What is put behind the bytes of a log is put behind its text.** -/
theorem Holds.edit (h : t.Holds path text) {more : List Char}
    (hedit : t.edit path (· ++ Utf8.encode more) = some t') : t'.HasLog path (text ++ more) := by
  apply hasLog_of_read
  rw [Utf8.encode_append]
  cases h with
  | file bytes =>
    rcases read_edit hedit with ⟨bytes', hold, hnew⟩ | ⟨hmissing, -⟩
    · rw [bytes] at hold
      cases hold
      exact hnew
    · obtain ⟨place, hplace, -⟩ := read_eq_ok_iff.1 bytes
      rw [hplace] at hmissing
      cases hmissing
  | missing nothing =>
    rcases read_edit hedit with ⟨bytes', hold, -⟩ | ⟨-, hnew⟩
    · exact absurd nothing (absolute?_ne_none hold)
    · exact hnew

end FileTree

/-! ## What a logger does -/

namespace Logger

variable {t t' : FileTree} {l l' : Logger}

theorem run_append (l : Logger) (bytes : List UInt8) (t : FileTree) :
    (l.append bytes : StateM FileTree _) t =
      match t.edit l.path (· ++ bytes) with
      | some t' => (.ok (), t')
      | none => (.error (.closed l.path), t) := by
  refine (FileTree.run_attempt (fun t => t.edit l.path (· ++ bytes)) _ t).trans ?_
  cases t.edit l.path (· ++ bytes) <;> rfl

theorem run_openLog (l : Logger) (t : FileTree) :
    (l.openLog : StateM FileTree _) t =
      match t.withDirectory? l.path with
      | some t' => (l.append [] : StateM FileTree _) t'
      | none => (.error .noDirectory, t) := by
  unfold openLog FileTree.withDirectory?
  cases Path.parent? l.path with
  | none => rfl
  | some directory =>
    refine (FileTree.run_attempt (fun t => t.makeDirectories directory) _ t).trans ?_
    simp only
    cases t.makeDirectories directory <;> rfl

theorem run_write (l : Logger) (e : LogEntry) (t : FileTree) :
    (l.write e : StateM FileTree _) t =
      if l.isOpen then
        let (written, t) := (l.append e.bytes : StateM FileTree _) t
        ((l, written), t)
      else
        match (l.openLog : StateM FileTree _) t with
        | (.error error, t) => ((l, .error error), t)
        | (.ok (), t) =>
          let (written, t) := (l.append e.bytes : StateM FileTree _) t
          (({ l with isOpen := true }, written), t) := by
  unfold write
  split
  · rfl
  · refine (FileTree.run_bind _ _ t).trans ?_
    rcases (l.openLog : StateM FileTree _) t with ⟨_ | _, t'⟩ <;> rfl

theorem append_ok {bytes : List UInt8}
    (h : (l.append bytes : StateM FileTree _) t = (.ok (), t')) :
    t.edit l.path (· ++ bytes) = some t' := by
  rw [run_append] at h
  split at h
  · next hedit =>
    cases h
    exact hedit
  · cases h

theorem openLog_ok (h : (l.openLog : StateM FileTree _) t = (.ok (), t')) :
    ∃ t₁, t.withDirectory? l.path = some t₁ ∧ t₁.edit l.path (· ++ []) = some t' := by
  rw [run_openLog] at h
  split at h
  · next t₁ hdirectory => exact ⟨t₁, hdirectory, append_ok h⟩
  · cases h

/-- **An entry that is written is put behind the bytes of the log.** -/
theorem write_ok {e : LogEntry} (h : (l.write e : StateM FileTree _) t = ((l', .ok ()), t')) :
    t.edit l.path (· ++ e.bytes) = some t' ∨
      ∃ t₁ t₂, t.withDirectory? l.path = some t₁ ∧ t₁.edit l.path (· ++ []) = some t₂ ∧
        t₂.edit l.path (· ++ e.bytes) = some t' := by
  rw [run_write] at h
  split at h
  · left
    cases hwritten : (l.append e.bytes : StateM FileTree _) t with
    | mk written t₁ =>
      rw [hwritten] at h
      cases h
      exact append_ok hwritten
  · right
    split at h
    · cases h
    · next t₂ hopened =>
      obtain ⟨t₁, hdirectory, hedit⟩ := openLog_ok hopened
      cases hwritten : (l.append e.bytes : StateM FileTree _) t₂ with
      | mk written t₃ =>
        rw [hwritten] at h
        cases h
        exact ⟨t₁, t₂, hdirectory, hedit, append_ok hwritten⟩

theorem write_hasLog {e : LogEntry} {text : List Char} (hlog : t.HasLog l.path text)
    (h : (l.write e : StateM FileTree _) t = ((l', .ok ()), t')) :
    t'.HasLog l.path (text ++ logText [e]) := by
  have hempty : ([] : List UInt8) = Utf8.encode [] := Utf8.encode_nil.symm
  rcases write_ok h with hedit | ⟨t₁, t₂, hdirectory, hopened, hedit⟩
  · rw [e.bytes_eq] at hedit
    exact hlog.now.edit hedit
  · rw [e.bytes_eq] at hedit
    rw [hempty] at hopened
    have hlog₂ := (hlog.opened t₁ hdirectory).edit hopened
    rw [List.append_nil] at hlog₂
    exact hlog₂.now.edit hedit

end Logger

/-! ## Logs -/

/-- Entries that loggers with the given path write one after the other, each with success. Every
logger may be new or have written before. -/
inductive Logged (path : String) : FileTree → List LogEntry → FileTree → Prop
  | nothing (t : FileTree) : Logged path t [] t
  | entry {t t₁ t' : FileTree} {l l' : Logger} {e : LogEntry} {es : List LogEntry}
      (of_path : l.path = path)
      (written : (l.write e : StateM FileTree _) t = ((l', .ok ()), t₁))
      (later : Logged path t₁ es t') : Logged path t (e :: es) t'

section Logged

variable {t t' : FileTree} {path : String} {text : List Char} {es : List LogEntry}

theorem Logged.hasLog (h : Logged path t es t') (hlog : t.HasLog path text) :
    t'.HasLog path (text ++ logText es) := by
  induction h generalizing text with
  | nothing t => rwa [logText, List.flatMap_nil, List.append_nil]
  | @entry t t₁ t' l l' e es of_path written later ih =>
    subst of_path
    have hrest := ih (Logger.write_hasLog hlog written)
    rwa [List.append_assoc, ← logText_append] at hrest

/-- The last line of the text has its line feed, or it is blank. -/
def IsFinished (text : List Char) : Prop := (unfinished text).all JsonToken.isSpace = true

instance (text : List Char) : Decidable (IsFinished text) :=
  inferInstanceAs (Decidable (_ = true))

theorem entriesOf_of_isFinished (h : IsFinished text) :
    entriesOf text = entriesOf (finished text) := by
  have hblank : LogEntry.ofLine? (unfinished text) = none := by
    have hspaces := Json.read_spaces h []
    rw [List.append_nil] at hspaces
    rw [LogEntry.ofLine?, hspaces, Json.read, JsonToken.read_nil]
    rfl
  conv => lhs; rw [← finished_append_unfinished text]
  rw [entriesOf_finished_append, entriesOf_unfinished (feed_not_mem_unfinished text), hblank,
    Option.toList_none, List.append_nil]

theorem length_entriesOf_finished_le (text : List Char) :
    (entriesOf (finished text)).length ≤ (entriesOf text).length := by
  conv => rhs; rw [← finished_append_unfinished text]
  rw [entriesOf_finished_append, List.length_append]
  exact Nat.le_add_right _ _

end Logged

/-! ## A log in a tree of its own -/

/-- A tree with nothing but a file with these bytes in it. -/
def loneFile (bytes : List UInt8) : FileTree where
  root := "/home"
  nodes := [(["e.jsonl"], .file bytes)]

theorem find?_loneFile (bytes : List UInt8) :
    (loneFile bytes).find? ["e.jsonl"] = some (.file bytes) := rfl

theorem resolve_loneFile (bytes : List UInt8) :
    (loneFile bytes).resolve "e.jsonl" = .ok ["e.jsonl"] := by
  have hbelow : ({ root := "/home" } : FileTree).partsBelow? "e.jsonl" = some ["e.jsonl"] := by
    decide
  have hparts : (loneFile bytes).partsBelow? "e.jsonl" = some ["e.jsonl"] := hbelow
  have hwalk : (loneFile bytes).walk [] ["e.jsonl"] =
      if ((loneFile bytes).find? ["e.jsonl"]).isNone then .error .missing else .ok ["e.jsonl"] :=
    FileTree.walk_name (FileTree.find?_nil _) (by decide)
  rw [FileTree.resolve, hparts]
  simp only [hwalk, find?_loneFile]
  rfl

theorem edit_loneFile (bytes more : List UInt8) :
    (loneFile bytes).edit "e.jsonl" (· ++ more) = some (loneFile (bytes ++ more)) := by
  rw [FileTree.edit, resolve_loneFile]
  simp only [find?_loneFile]
  simp [FileTree.set, loneFile]

theorem read_loneFile (bytes : List UInt8) : (loneFile bytes).read "e.jsonl" = .ok bytes :=
  FileTree.read_eq_ok_iff.2 ⟨["e.jsonl"], resolve_loneFile bytes, find?_loneFile bytes⟩

/-- A tree with nothing but a log in it. -/
def onlyLog (text : List Char) : FileTree := loneFile (Utf8.encode text)

theorem hasLog_onlyLog (text : List Char) : (onlyLog text).HasLog "e.jsonl" text :=
  FileTree.hasLog_of_read (read_loneFile _)

theorem edit_onlyLog (text more : List Char) :
    (onlyLog text).edit "e.jsonl" (· ++ Utf8.encode more) = some (onlyLog (text ++ more)) := by
  have h := edit_loneFile (Utf8.encode text) (Utf8.encode more)
  rwa [← Utf8.encode_append] at h

theorem write_onlyLog (text : List Char) (e : LogEntry) :
    (({ path := "e.jsonl" } : Logger).write e : StateM FileTree _) (onlyLog text) =
      (({ path := "e.jsonl", isOpen := true }, .ok ()), onlyLog (text ++ logText [e])) := by
  have hparent : Path.parent? "e.jsonl" = none := by decide
  have hdirectory : (onlyLog text).withDirectory? "e.jsonl" = some (onlyLog text) := by
    rw [FileTree.withDirectory?, hparent]
  have hopen : (onlyLog text).edit "e.jsonl" (· ++ []) = some (onlyLog text) := by
    have h := edit_loneFile (Utf8.encode text) []
    rwa [List.append_nil] at h
  have hedit : (onlyLog text).edit "e.jsonl" (· ++ e.bytes) =
      some (onlyLog (text ++ logText [e])) := by
    rw [e.bytes_eq]
    exact edit_onlyLog text (logText [e])
  simp only [Logger.run_write, Logger.run_openLog, Logger.run_append, hdirectory, hopen, hedit]
  rfl

theorem logged_onlyLog (text : List Char) (es : List LogEntry) :
    Logged "e.jsonl" (onlyLog text) es (onlyLog (text ++ logText es)) := by
  induction es generalizing text with
  | nil => simpa [logText] using Logged.nothing (onlyLog text)
  | cons e es ih =>
    refine .entry rfl (write_onlyLog text e) ?_
    have hlater := ih (text ++ logText [e])
    rwa [List.append_assoc, ← logText_append] at hlater

/-- An instant in a leap second. -/
def lateInstant : Timestamp := ⟨⟨2016, 12, 31⟩, 23, 59, 60, 500000000⟩

theorem isValid_lateInstant : lateInstant.IsValid := by
  constructor <;> decide

/-! ## What is read back -/

/-- **Entries that are written into a log are read back** behind the entries that were there,
exactly if the last line of the log was finished. -/
theorem log_keeps_entries {t t' : FileTree} {path : String} {text : List Char}
    {es : List LogEntry} (hlog : t.HasLog path text) (logged : Logged path t es t')
    (valid : ∀ e ∈ es, e.timestamp.IsValid) :
    ∃ old, t.logAt path = .ok old ∧
      (t'.logAt path = .ok (old ++ es) ↔ es = [] ∨ IsFinished text) ∧
      (es ≠ [] → ¬ IsFinished text →
        t'.logAt path = .ok (entriesOf (finished text) ++ es.tail)) := by
  have hnew : t'.logAt path = .ok (entriesOf (text ++ logText es)) :=
    (logged.hasLog hlog).now.logAt
  refine ⟨entriesOf text, hlog.now.logAt, ?_⟩
  rw [hnew]
  cases es with
  | nil => simp [logText]
  | cons e es =>
    rw [entriesOf_append text valid]
    by_cases hfinished : IsFinished text
    · have hblank : (unfinished text).all JsonToken.isSpace = true := hfinished
      simp [hfinished, hblank, entriesOf_of_isFinished hfinished]
    · have hline : (unfinished text).all JsonToken.isSpace = false := Bool.eq_false_iff.2 hfinished
      -- one entry more would have to be read than there are lines
      have hlost : entriesOf (finished text) ++ es ≠ entriesOf text ++ e :: es := by
        intro h
        have hlength := congrArg List.length h
        have := length_entriesOf_finished_le text
        simp only [List.length_append, List.length_cons] at hlength
        omega
      simp [hfinished, hline, hlost]

theorem log_keeps_entries_behind_line :
    ∃ old t, Logged "e.jsonl" (onlyLog "cut off\n".toList)
        [⟨lateInstant, .finish "eggs"⟩, ⟨lateInstant, .finish "tea"⟩] t ∧
      (onlyLog "cut off\n".toList).logAt "e.jsonl" = .ok old ∧
      t.logAt "e.jsonl" =
        .ok (old ++ [⟨lateInstant, .finish "eggs"⟩, ⟨lateInstant, .finish "tea"⟩]) := by
  have hlogged := logged_onlyLog "cut off\n".toList
    [⟨lateInstant, .finish "eggs"⟩, ⟨lateInstant, .finish "tea"⟩]
  obtain ⟨old, hold, hkept, -⟩ :=
    log_keeps_entries (hasLog_onlyLog _) hlogged (by simp [isValid_lateInstant])
  exact ⟨old, _, hlogged, hold, hkept.2 (.inr (by decide))⟩

/-- Behind a line that was cut off, the entry is lost. -/
theorem first_entry_lost :
    lateInstant.IsValid ∧ (onlyLog "cut off".toList).HasLog "e.jsonl" "cut off".toList ∧
      ∃ t, Logged "e.jsonl" (onlyLog "cut off".toList) [⟨lateInstant, .finish "eggs"⟩] t ∧
        ∃ old, (onlyLog "cut off".toList).logAt "e.jsonl" = .ok old ∧
          t.logAt "e.jsonl" ≠ .ok (old ++ [⟨lateInstant, .finish "eggs"⟩]) := by
  have hlog := hasLog_onlyLog "cut off".toList
  have hlogged := logged_onlyLog "cut off".toList [⟨lateInstant, .finish "eggs"⟩]
  have hempty : entriesOf "cut off".toList = [] := by
    have htokens : JsonToken.read "cut off".toList = none :=
      JsonToken.read_cons_none (c := 'c') (by decide) rfl
    rw [entriesOf_unfinished (by decide), LogEntry.ofLine?, Json.read, htokens]
    rfl
  have hlost : entriesOf ("cut off".toList ++ logText [⟨lateInstant, .finish "eggs"⟩]) = [] := by
    have hfinished : finished "cut off".toList = [] := by decide
    have hline : (unfinished "cut off".toList).all JsonToken.isSpace = false := by decide
    rw [entriesOf_append _ (by simp [isValid_lateInstant]), hfinished, hline, entriesOf_nil]
    rfl
  refine ⟨isValid_lateInstant, hlog, _, hlogged, [], ?_, ?_⟩
  · rw [hlog.now.logAt, hempty]
  · rw [(hlogged.hasLog hlog).now.logAt, hlost]
    simp

end TaskTimer
