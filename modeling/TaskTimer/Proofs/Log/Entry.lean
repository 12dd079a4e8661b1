import Mathlib.Data.List.DropRight
import TaskTimer.Log.Entry
import TaskTimer.Proofs.Json.Behind
import TaskTimer.Proofs.Log.Timestamp
import TaskTimer.Proofs.Notice.Stream

/-!
# The entries of a log

* `LogEntry.ofLine?_behind`: an entry is read back from its line, with nothing but blanks in front.
* `logText`, `entriesOf`: entries as text, and the entries of a text.
* `finished`, `unfinished`: a text up to its last line feed, and what follows it.
* **`entriesOf_append`**: entries that are put behind a text.
-/

namespace TaskTimer

open JsonToken (isSpace)

namespace LogEntry

/-! ## The line of an entry -/

theorem isPlain_toJson (e : LogEntry) : e.toJson.IsPlain := by
  refine Json.isPlain_ofMembers ?_
  simp [Json.isPlain_ofString, e.notice.isPlain_toJson]

/-- **The object of an entry is read as the entry.** -/
theorem ofJson?_toJson {e : LogEntry} (he : e.timestamp.IsValid) : ofJson? e.toJson = some e := by
  have hnotice : Notice.ofJson? (Json.room - 1) e.notice.toJson = some e.notice :=
    e.notice.ofJson?_toJson (by decide)
  simp [toJson, Json.ofMembers, ofJson?, Json.only?, Json.valuesOf, ofParts?, Json.text?_ofString,
    Timestamp.ofText?_text he, hnotice]

theorem ofLine?_line {e : LogEntry} (he : e.timestamp.IsValid) : ofLine? e.line = some e := by
  rw [ofLine?, line, Json.read_compact e.isPlain_toJson, Option.bind_some, ofJson?_toJson he]

theorem not_mem_line (e : LogEntry) {c : Char} (hc : c.toNat < 0x20) : c ∉ e.line := fun hmem =>
  absurd (Json.space_le_of_mem_compact e.isPlain_toJson hmem) (Nat.not_le.2 hc)

theorem line_ne_nil (e : LogEntry) : e.line ≠ [] := List.cons_ne_nil _ _

theorem exists_line_eq (e : LogEntry) :
    ∃ behind, e.line = '{' :: '"' :: behind ∧ JsonToken.read behind = none := by
  refine ⟨_, rfl, ?_⟩
  exact JsonToken.read_cons_none (c := 't') (by decide) rfl

/-- **The line of an entry behind other characters is no entry**, unless these are blanks. -/
theorem ofLine?_behind {e : LogEntry} (he : e.timestamp.IsValid) (u : List Char) :
    ofLine? (u ++ e.line) = if u.all isSpace then some e else none := by
  split
  · next hu => rw [ofLine?, Json.read_spaces hu, ← ofLine?, ofLine?_line he]
  · next hu =>
    obtain ⟨behind, hline, hbehind⟩ := e.exists_line_eq
    have hread : Json.read (u ++ e.line) = none :=
      Json.read_behind e.isPlain_toJson hline hbehind (Bool.eq_false_iff.2 hu)
    rw [ofLine?, hread, Option.bind_none]

end LogEntry

/-! ## Texts -/

/-- Entries as they are written. -/
def logText (es : List LogEntry) : List Char := es.flatMap fun e => e.line ++ ['\n']

theorem logText_cons (e : LogEntry) (es : List LogEntry) :
    logText (e :: es) = e.line ++ '\n' :: logText es := by
  rw [logText, List.flatMap_cons, List.append_assoc]
  rfl

theorem logText_append (es ds : List LogEntry) : logText (es ++ ds) = logText es ++ logText ds :=
  List.flatMap_append

theorem LogEntry.bytes_eq (e : LogEntry) : e.bytes = Utf8.encode (logText [e]) := by
  rw [bytes, logText_cons]
  rfl

/-- The entries of a text. -/
def entriesOf (text : List Char) : List LogEntry := (textLines text).filterMap LogEntry.ofLine?

theorem entriesOf_nil : entriesOf [] = [] := by
  rw [entriesOf, textLines, lines_nil]
  rfl

/-- A text up to its last line feed. -/
def finished (text : List Char) : List Char := text.rdropWhile (· != '\n')

/-- What follows the last line feed of a text. -/
def unfinished (text : List Char) : List Char := text.rtakeWhile (· != '\n')

theorem finished_append_unfinished (text : List Char) : finished text ++ unfinished text = text :=
  List.rdropWhile_append_rtakeWhile

theorem feed_not_mem_unfinished (text : List Char) : '\n' ∉ unfinished text := fun h => by
  simpa using List.mem_rtakeWhile_imp h

theorem entriesOf_finished_append (text rest : List Char) :
    entriesOf (finished text ++ rest) = entriesOf (finished text) ++ entriesOf rest := by
  by_cases hne : finished text = []
  · rw [hne, List.nil_append, entriesOf_nil, List.nil_append]
  · have hlast : (finished text).getLast hne = '\n' := by
      have hfeed := List.rdropWhile_last_not _ _ hne
      rwa [bne_iff_ne, not_not] at hfeed
    rw [← List.dropLast_concat_getLast hne, hlast, List.append_assoc, List.singleton_append,
      entriesOf, textLines, lines_append_feed, List.filterMap_append]
    rfl

theorem entriesOf_unfinished {u : List Char} (hu : '\n' ∉ u) :
    entriesOf u = (LogEntry.ofLine? u).toList := by
  by_cases hne : u = []
  · rw [hne, entriesOf_nil, LogEntry.ofLine?, Json.read, JsonToken.read_nil]
    rfl
  · rw [entriesOf, textLines, lines_of_not_mem hu hne]
    cases h : LogEntry.ofLine? u <;> simp [h]

/-- A line with an entry behind other characters. -/
theorem entriesOf_behind {u : List Char} (hu : '\n' ∉ u) {e : LogEntry} (he : e.timestamp.IsValid)
    (rest : List Char) :
    entriesOf (u ++ (e.line ++ '\n' :: rest)) =
      (if u.all isSpace then [e] else []) ++ entriesOf rest := by
  have hfeed : '\n' ∉ u ++ e.line := by
    rw [List.mem_append, not_or]
    exact ⟨hu, e.not_mem_line (by decide)⟩
  have hreturn : dropReturn '\r' (u ++ e.line) = u ++ e.line :=
    dropReturn_append (e.not_mem_line (by decide)) e.line_ne_nil u
  rw [← List.append_assoc, entriesOf, textLines, lines_append hfeed, hreturn, List.filterMap_cons,
    LogEntry.ofLine?_behind he]
  cases u.all isSpace <;> rfl

/-- **Entries are read back from their text.** -/
theorem entriesOf_logText {es : List LogEntry} (valid : ∀ e ∈ es, e.timestamp.IsValid) :
    entriesOf (logText es) = es := by
  induction es with
  | nil => exact entriesOf_nil
  | cons e es ih =>
    have hes := ih fun d hd => valid d (List.mem_cons_of_mem e hd)
    have he := valid e List.mem_cons_self
    have hline := entriesOf_behind (u := []) List.not_mem_nil he (logText es)
    rw [logText_cons]
    rw [List.nil_append] at hline
    rw [hline, hes]
    rfl

/-- **Entries behind a text are read back**, but for the first one if the last line of the text is
not finished. -/
theorem entriesOf_append (text : List Char) {e : LogEntry} {es : List LogEntry}
    (valid : ∀ d ∈ e :: es, d.timestamp.IsValid) :
    entriesOf (text ++ logText (e :: es)) =
      entriesOf (finished text) ++ ((if (unfinished text).all isSpace then [e] else []) ++ es) := by
  have he := valid e List.mem_cons_self
  have hes := entriesOf_logText fun d hd => valid d (List.mem_cons_of_mem e hd)
  conv => lhs; rw [← finished_append_unfinished text]
  rw [List.append_assoc, entriesOf_finished_append, logText_cons,
    entriesOf_behind (feed_not_mem_unfinished text) he, hes]

end TaskTimer
