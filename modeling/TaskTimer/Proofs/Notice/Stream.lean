import TaskTimer.Notice.Stream
import TaskTimer.Proofs.Json.Line

/-!
# Streams of notices

A listener gets back what a sink sends, and from a stream that is torn off everything that has
arrived whole.

* `Notice.ofJson?_toJson`, `Notice.ofBytes?_line`, `Notice.ofBytes?_take`: the object of a notice,
  its line, and a line that is cut. `Notice.byteLines_append`: a notice stays on one line of bytes.
* `nextNotice?_garbled`, `nextNotice?_text`: what the first line comes to.
* `listen_append`, `listen_torn_line`: a listener gets a whole line, or a part of one.
* `streamText`: the characters that a sink sends.
* **`stream_reads_back`**: a stream, and a stream that is torn off anywhere.
-/

namespace TaskTimer

namespace Json

theorem le_ofDigitChars (digits : List Char) (m : ℕ) : m ≤ Nat.ofDigitChars 10 digits m := by
  induction digits generalizing m with
  | nil => exact Nat.le_refl m
  | cons d digits ih =>
    rw [Nat.ofDigitChars_cons]
    have := ih (10 * m + (d.toNat - '0'.toNat))
    omega

theorem significand_eq {digits : List Char} {m : ℕ}
    (h : Nat.ofDigitChars 10 digits m < UInt64.size) :
    Numeral.significand m digits = (Nat.ofDigitChars 10 digits m, 0) := by
  induction digits generalizing m with
  | nil => rfl
  | cons d digits ih =>
    have hlonger : Nat.ofDigitChars 10 [d] m < UInt64.size := (le_ofDigitChars digits _).trans_lt h
    rw [Numeral.significand, if_pos hlonger]
    exact ih h

theorem isFinite_ofNat {n : ℕ} (h : n < UInt64.size) : (Numeral.ofNat n).isFinite = true := by
  have hn : Nat.ofDigitChars 10 (showDecimal n) 0 = n := readDecimal_showDecimal n
  have hwhole : Numeral.significand 0 (showDecimal n) = (n, 0) := by
    rw [significand_eq (hn.trans_lt h), hn]
  simp [Numeral.isFinite, Numeral.ofNat, hwhole]

theorem text?_ofString (s : String) : (ofString s).text? = some s := rfl

theorem optionalText?_ofString? (s : Option String) : (ofString? s).optionalText? = some s := by
  cases s <;> rfl

theorem uint64?_ofNat (d : UInt64) : (ofNat d.toNat).uint64? = some d := by
  have hd : d.toNat < UInt64.size := d.toNat_lt
  simp [ofNat, uint64?, Numeral.natural?, Numeral.ofNat, readDecimal_showDecimal, hd]

end Json

namespace Notice

open Json (isFinite_ofNat text?_ofString optionalText?_ofString? uint64?_ofNat)

/-! ## The object of a notice -/

theorem isKept_toJson (n : Notice) {room : ℕ} (hroom : 1 < room) : n.toJson.isKept room = true := by
  cases n with
  | interval remaining duration label symbol content =>
    cases symbol <;>
      simp [toJson, Json.ofMembers, Json.isKept, Json.membersAreKept, Json.ofString, Json.ofNat,
        Json.ofString?, hroom, isFinite_ofNat remaining.toNat_lt, isFinite_ofNat duration.toNat_lt]
  | step label symbol content =>
    cases symbol <;>
      simp [toJson, Json.ofMembers, Json.isKept, Json.membersAreKept, Json.ofString,
        Json.ofString?, hroom]
  | finish content =>
    simp [toJson, Json.ofMembers, Json.isKept, Json.membersAreKept, Json.ofString, hroom]

/-- **The object of a notice is read as the notice.** -/
theorem ofJson?_toJson (n : Notice) {room : ℕ} (hroom : 1 < room) :
    ofJson? room n.toJson = some n := by
  unfold ofJson?
  rw [if_pos (isKept_toJson n hroom)]
  cases n with
  | interval =>
    simp [toJson, Json.ofMembers, ofMembers?, Json.only?, Json.valuesOf, ofParts?, text?_ofString,
      optionalText?_ofString?, uint64?_ofNat]
  | step =>
    simp [toJson, Json.ofMembers, ofMembers?, Json.only?, Json.valuesOf, ofParts?, text?_ofString,
      optionalText?_ofString?]
  | finish =>
    simp [toJson, Json.ofMembers, ofMembers?, Json.only?, Json.valuesOf, ofParts?, text?_ofString]

theorem isPlain_toJson (n : Notice) : n.toJson.IsPlain := by
  cases n <;> refine Json.isPlain_ofMembers ?_ <;>
    simp [Json.isPlain_ofString, Json.isPlain_ofNat, Json.isPlain_ofString?]

/-! ## The line of a notice -/

/-- The notice of a line of bytes. -/
def ofBytes? : List UInt8 → Option Notice := Json.decoded? (ofJson? Json.room)

theorem ofBytes?_line (n : Notice) : ofBytes? (Utf8.encode n.line) = some n :=
  (Json.decoded?_compact _ n.isPlain_toJson).trans (ofJson?_toJson n (by decide))

theorem ofBytes?_take (n : Notice) {cut : ℕ} (hcut : cut < (Utf8.encode n.line).length) :
    ofBytes? ((Utf8.encode n.line).take cut) = none := by
  have hnumber : ∀ k, n.toJson ≠ .num k := by cases n <;> exact nofun
  exact Json.decoded?_missing _ (.torn n.isPlain_toJson hnumber hcut)

theorem bytes_eq (n : Notice) : n.bytes = Utf8.encode n.line ++ [0x0A] := by
  rw [bytes, Utf8.encode_append]
  rfl

theorem byteLines_append (n : Notice) (rest : List UInt8) :
    byteLines (n.bytes ++ rest) = Utf8.encode n.line :: byteLines rest :=
  Json.byteLines_compact n.isPlain_toJson rest

end Notice

/-! ## What a listener makes of a line -/

section Lines

variable {l : List UInt8}

theorem nextNotice?_garbled (garbled : Utf8.isText l = false) (ls : List (List UInt8)) :
    nextNotice? (l :: ls) = (.error .unreadable, ls) := by
  rw [Utf8.isText, Option.isSome_eq_false_iff, Option.isNone_iff_eq_none] at garbled
  simp only [nextNotice?, garbled]

theorem nextNotice?_text (isText : Utf8.isText l = true) (ls : List (List UInt8)) :
    nextNotice? (l :: ls) =
      match Notice.ofBytes? l with
      | some n => (.ok (some n), ls)
      | none => nextNotice? ls := by
  obtain ⟨text, htext⟩ := Option.isSome_iff_exists.1 isText
  have hnotice : Notice.ofBytes? l = Notice.ofLine? text := by
    rw [Notice.ofBytes?, Json.decoded?_eq, htext, Option.bind_some, Notice.ofLine?]
  simp only [nextNotice?, htext, hnotice]
  split
  · next blank => rw [Notice.ofLine?, Json.read_blank blank, Option.bind_none]
  · rfl

theorem listenLines_nil : listenLines [] = {} := by rw [listenLines_eq, nextNotice?]

theorem listenLines_garbled (garbled : Utf8.isText l = false) (ls : List (List UInt8)) :
    listenLines (l :: ls) = { error := some .unreadable } := by
  rw [listenLines_eq, nextNotice?_garbled garbled]

theorem listenLines_text (isText : Utf8.isText l = true) (ls : List (List UInt8)) :
    listenLines (l :: ls) =
      { listenLines ls with
        notices := (Notice.ofBytes? l).toList ++ (listenLines ls).notices } := by
  rw [listenLines_eq, nextNotice?_text isText]
  cases Notice.ofBytes? l with
  | some n => rfl
  | none => exact (listenLines_eq ls).symm

end Lines

@[simp] theorem listen_nil : listen [] = {} := by
  rw [listen, byteLines, lines_nil, listenLines_nil]

theorem listen_append (n : Notice) (rest : List UInt8) :
    listen (n.bytes ++ rest) =
      { listen rest with notices := n :: (listen rest).notices } := by
  rw [listen, n.byteLines_append, listenLines_text (Utf8.isText_encode _), n.ofBytes?_line]
  rfl

theorem listen_unfinished {bytes : List UInt8} (hfeed : 0x0A ∉ bytes) :
    listen bytes = listenLines [bytes] := by
  by_cases hne : bytes = []
  · have hnothing : Notice.ofBytes? (Utf8.encode []) = none :=
      Json.decoded?_missing _ (.blank rfl)
    rw [hne, listen_nil, ← Utf8.encode_nil, listenLines_text (Utf8.isText_encode []), hnothing,
      listenLines_nil]
    rfl
  · rw [listen, byteLines, lines_of_not_mem hfeed hne]

theorem listen_torn_line (n : Notice) {cut : ℕ} (hcut : cut ≤ (Utf8.encode n.line).length) :
    listen ((Utf8.encode n.line).take cut) =
      { notices := if cut = (Utf8.encode n.line).length then [n] else []
        error := if Utf8.splits n.line cut then some .unreadable else none } := by
  have hfeed : 0x0A ∉ (Utf8.encode n.line).take cut := fun h =>
    Json.not_mem_encode_compact n.isPlain_toJson (c := '\n') (by decide) (List.mem_of_mem_take h)
  have htext := Utf8.isText_take_encode n.line cut
  rw [listen_unfinished hfeed]
  by_cases hwhole : cut = (Utf8.encode n.line).length
  · have hsplits : Utf8.splits n.line cut = false := by
      rwa [hwhole, List.take_length, Utf8.isText_encode, ← hwhole, eq_comm, Bool.not_eq_true'] at htext
    rw [if_pos hwhole, hsplits, hwhole, List.take_length, listenLines_text (Utf8.isText_encode _),
      n.ofBytes?_line, listenLines_nil]
    rfl
  · rw [if_neg hwhole]
    cases hsplits : Utf8.splits n.line cut with
    | true =>
      rw [hsplits] at htext
      rw [listenLines_garbled htext]
      rfl
    | false =>
      rw [hsplits] at htext
      rw [listenLines_text htext, n.ofBytes?_take (Nat.lt_of_le_of_ne hcut hwhole),
        listenLines_nil]
      rfl

/-! ## Streams -/

/-- The characters that a sink sends. -/
def streamText (ns : List Notice) : List Char := ns.flatMap fun n => n.line ++ ['\n']

theorem streamOf_cons (n : Notice) (ns : List Notice) :
    streamOf (n :: ns) = n.bytes ++ streamOf ns := List.flatMap_cons

theorem streamText_cons (n : Notice) (ns : List Notice) :
    streamText (n :: ns) = n.line ++ ['\n'] ++ streamText ns := List.flatMap_cons

theorem listen_streamOf (ns : List Notice) : listen (streamOf ns) = { notices := ns } := by
  induction ns with
  | nil => exact listen_nil
  | cons n ns ih => rw [streamOf_cons, listen_append, ih]

/-- The number of bytes up to the end of the line at a place, its line feed not counted. -/
def lineEnd (ns : List Notice) (i : Fin ns.length) : ℕ :=
  (streamOf (ns.take i)).length + (Utf8.encode ns[i].line).length

theorem lineEnd_zero (n : Notice) (ns : List Notice) :
    lineEnd (n :: ns) 0 = (Utf8.encode n.line).length := by
  simp [lineEnd, streamOf]

theorem lineEnd_succ (n : Notice) (ns : List Notice) (i : Fin ns.length) :
    lineEnd (n :: ns) i.succ = n.bytes.length + lineEnd ns i := by
  simp [lineEnd, streamOf_cons, Nat.add_assoc]

/-- **A stream reads back as the notices that were sent**, and one that is torn off as those of
which the whole line has arrived. -/
theorem stream_reads_back (ns : List Notice) :
    listen (streamOf ns) = { notices := ns } ∧
      ∀ cut, ∃ k,
        listen ((streamOf ns).take cut) =
          { notices := ns.take k
            error := if Utf8.splits (streamText ns) cut then some .unreadable else none } ∧
        ∀ i : Fin ns.length, i < k ↔ lineEnd ns i ≤ cut := by
  refine ⟨listen_streamOf ns, fun cut => ?_⟩
  induction ns generalizing cut with
  | nil => exact ⟨0, by simp [streamOf, streamText, Utf8.splits], fun i => i.elim0⟩
  | cons n ns ih =>
    have hlength : n.bytes.length = (Utf8.encode n.line).length + 1 := by simp [n.bytes_eq]
    by_cases hcut : cut ≤ (Utf8.encode n.line).length
    · -- the first line is torn, or lacks its line feed
      refine ⟨if cut = (Utf8.encode n.line).length then 1 else 0, ?_, fun i => ?_⟩
      · rw [streamOf_cons, n.bytes_eq, List.append_assoc, List.take_append_of_le_length hcut,
          listen_torn_line n hcut, streamText_cons, List.append_assoc,
          Utf8.splits_append_left hcut]
        split <;> rfl
      · cases i using Fin.cases with
        | zero =>
          rw [lineEnd_zero]
          split <;> simp <;> omega
        | succ i =>
          rw [lineEnd_succ, Fin.val_succ]
          split <;> omega
    · -- the first line has arrived with its line feed, the rest of the stream is torn
      obtain ⟨more, rfl⟩ := Nat.exists_eq_add_of_le (show n.bytes.length ≤ cut by omega)
      obtain ⟨k, hlisten, harrived⟩ := ih more
      refine ⟨k + 1, ?_, fun i => ?_⟩
      · rw [streamOf_cons, List.take_length_add_append, listen_append, hlisten, streamText_cons,
          Notice.bytes, Utf8.splits_append]
        rfl
      · cases i using Fin.cases with
        | zero =>
          rw [lineEnd_zero]
          simp
          omega
        | succ i =>
          rw [lineEnd_succ, Fin.val_succ, Nat.add_lt_add_iff_right, Nat.add_le_add_iff_left]
          exact harrived i

end TaskTimer
