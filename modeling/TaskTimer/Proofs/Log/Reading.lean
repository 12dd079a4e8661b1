import TaskTimer.Proofs.Json.Line
import TaskTimer.Proofs.Log.File

/-!
# What is read from a log

Lines without an entry are passed over when a log is read, as long as they are texts. A line that is
no text makes the whole log unreadable.

* `LogEntry.ofBytes?`: the entry of a line. `LogEntry.ofBytes?_line`, **`LogEntry.ofBytes?_take`**:
  an entry that was written, and one that is cut off.
* `readLog_eq`: the entries of all lines, if every line is a text.
* **`log_is_read_unless_garbled`**: exactly what is read from a log.
* `entry_lost_with_torn_line`: entries that are not read.
-/

namespace TaskTimer

open Utf8 (encode decode? isText)

namespace LogEntry

/-- The entry of a line of bytes. -/
def ofBytes? : List UInt8 → Option LogEntry := Json.decoded? ofJson?

theorem ofBytes?_line {e : LogEntry} (he : e.timestamp.IsValid) :
    ofBytes? (encode e.line) = some e :=
  (Json.decoded?_compact _ e.isPlain_toJson).trans (ofJson?_toJson he)

/-- **An entry that is cut off is not read.** -/
theorem ofBytes?_take (e : LogEntry) {cut : ℕ} (hcut : cut < (encode e.line).length) :
    ofBytes? ((encode e.line).take cut) = none :=
  Json.decoded?_missing _ (.torn e.isPlain_toJson nofun hcut)

end LogEntry

/-- **The entries of all lines are read if every line is a text**, and none otherwise. -/
theorem readLog_eq (content : List UInt8) :
    readLog content =
      if (byteLines content).all isText then
        some ((byteLines content).filterMap LogEntry.ofBytes?)
      else none := by
  rw [all_isText_byteLines]
  cases htext : decode? content with
  | none => simp [readLog, isText, htext]
  | some text =>
    obtain rfl := Utf8.decode?_eq_some_iff.1 htext
    have hentries := filterMap_byteLines_encode LogEntry.ofLine? text
    rw [readLog, htext, if_pos (Utf8.isText_encode text), Option.map_some, ← hentries]
    rw [LogEntry.ofBytes?, funext (Json.decoded?_eq _)]
    rfl

theorem FileTree.logAt_of_read {t : FileTree} {path : String} {content : List UInt8}
    (held : t.read path = .ok content) :
    t.logAt path =
      if (byteLines content).all isText then
        .ok ((byteLines content).filterMap LogEntry.ofBytes?)
      else .error (.unreadable path) := by
  have hthere : ¬ (t.absolute? path).isNone = true := by
    rw [Option.isNone_iff_eq_none]
    exact FileTree.absolute?_ne_none held
  rw [FileTree.logAt_eq, if_neg hthere, held]
  simp only [readLog_eq]
  split <;> rfl

/-- **A log is read line by line, if every line is a text.** Otherwise nothing of it is read. -/
theorem log_is_read_unless_garbled {t : FileTree} {path : String} {content : List UInt8}
    (held : t.read path = .ok content) :
    (∀ ls, WritesLines 0x0A 0x0D ls content ↔ byteLines content = ls) ∧
      t.logAt path =
        (if (byteLines content).all isText then
          .ok ((byteLines content).filterMap LogEntry.ofBytes?)
        else .error (.unreadable path)) ∧
      (∀ line, Json.Missing line → LogEntry.ofBytes? line = none) ∧
      (∀ (e : LogEntry) (cut : ℕ), cut < (encode e.line).length →
        LogEntry.ofBytes? ((encode e.line).take cut) = none) ∧
      ∀ e : LogEntry, e.timestamp.IsValid → LogEntry.ofBytes? (encode e.line) = some e := by
  refine ⟨fun ls => byteLines_eq_iff.symm, FileTree.logAt_of_read held, ?_, ?_, ?_⟩
  · exact fun line => Json.decoded?_missing _
  · exact LogEntry.ofBytes?_take
  · exact fun e => LogEntry.ofBytes?_line

/-- The entry behind a line without one is read. -/
theorem log_is_read_unless_garbled_cut_off :
    let entry : LogEntry := ⟨lateInstant, .finish "eggs"⟩
    let content := encode "cut off".toList ++ 0x0A :: entry.bytes
    (loneFile content).read "e.jsonl" = .ok content ∧
      (loneFile content).logAt "e.jsonl" = .ok [entry] := by
  intro entry content
  obtain ⟨hlines, hlog, hmissing, -, hentry⟩ := log_is_read_unless_garbled (read_loneFile content)
  refine ⟨read_loneFile content, ?_⟩
  have hlast := Json.byteLines_compact entry.isPlain_toJson []
  rw [List.append_nil, byteLines_eq_iff.2 .nil] at hlast
  have hcontent : byteLines content = [encode "cut off".toList, encode entry.line] :=
    (hlines _).1 (.feed (by decide) (by decide) (byteLines_eq_iff.1 hlast))
  have htokens : JsonToken.read "cut off".toList = none :=
    JsonToken.read_cons_none (c := 'c') (by decide) rfl
  have hnothing : LogEntry.ofBytes? (encode "cut off".toList) = none := by
    refine hmissing _ (.malformed ?_)
    rw [Json.read, htokens]
    rfl
  have htexts : (byteLines content).all isText = true := by
    rw [hcontent, List.all_cons, List.all_cons, Utf8.isText_encode, Utf8.isText_encode]
    rfl
  rw [hlog, if_pos htexts, hcontent, List.filterMap_cons_none hnothing,
    List.filterMap_cons_some (hentry entry isValid_lateInstant), List.filterMap_nil]

/-- The line behind the entry is torn inside a character. -/
theorem entry_lost_with_torn_line :
    let entry : LogEntry := ⟨lateInstant, .finish "eggs"⟩
    let torn := (encode (LogEntry.line ⟨lateInstant, .finish "ä"⟩)).take 70
    let content := entry.bytes ++ torn
    (byteLines content).filterMap LogEntry.ofBytes? = [entry] ∧
      (loneFile content).read "e.jsonl" = .ok content ∧
      (loneFile content).logAt "e.jsonl" = .error (.unreadable "e.jsonl") := by
  intro entry torn content
  have hgarbled : isText torn = false :=
    (Utf8.isText_take_encode _ 70).trans (by decide)
  have hfeed : 0x0A ∉ torn := fun hmem =>
    Json.not_mem_encode_compact (LogEntry.isPlain_toJson _) (c := '\n') (by decide)
      (List.mem_of_mem_take hmem)
  have hne : torn ≠ [] := by
    intro hnil
    rw [hnil, ← Utf8.encode_nil, Utf8.isText_encode] at hgarbled
    cases hgarbled
  have hcontent : byteLines content = [encode entry.line, torn] := by
    have hlast : byteLines torn = [torn] := lines_of_not_mem hfeed hne
    rw [← hlast]
    exact Json.byteLines_compact entry.isPlain_toJson torn
  have hnothing : LogEntry.ofBytes? torn = none := Json.decoded?_missing _ (.garbled hgarbled)
  refine ⟨?_, read_loneFile content, ?_⟩
  · rw [hcontent, List.filterMap_cons_some (LogEntry.ofBytes?_line isValid_lateInstant),
      List.filterMap_cons_none hnothing, List.filterMap_nil]
  · rw [FileTree.logAt_of_read (read_loneFile content), hcontent]
    simp [hgarbled]

end TaskTimer
