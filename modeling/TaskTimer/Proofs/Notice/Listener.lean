import TaskTimer.Proofs.Notice.Stream

/-!
# What a connection passes over

A connection hands out one notice after the other. It passes over lines that hold none, as long as
they are texts, and answers an error to a line that is no text. The lines behind can still be read,
but a listener gives up at the error.

* `Notice.StatedBy`: what an object has to hold. `Notice.Missing`: lines without a notice.
* `answers`: what is answered to repeated calls. `answerTo`: what a line gives rise to.
* `answers_eq`, `listenLines_eq_takeWhile`: all answers, and what a listener takes of them.
* **`every_line_is_answered`**: exactly what is answered, and which notices a listener gets.
* `garbled_line_is_answered`: an error between two notices.
-/

namespace TaskTimer

open Utf8 (encode isText)

namespace Notice

/-! ## Lines without a notice -/

/-- The parts that the object of a notice has to hold besides the kind. -/
def required : Notice → List String
  | .interval .. => ["remaining", "duration", "step", "content"]
  | .step .. => ["step", "content"]
  | .finish .. => ["content"]

/-- The parts that may be left out. -/
def optional : Notice → List String
  | .interval .. | .step .. => ["symbol"]
  | .finish .. => []

theorem parts_eq_of_kind {n m : Notice} (h : n.kind = m.kind) :
    n.required = m.required ∧ n.optional = m.optional := by
  cases n <;> cases m <;> first | exact ⟨rfl, rfl⟩ | simp [kind] at h

/-- The kind that an object names. -/
def kindOf? (members : List (Quoted × Json)) : Option String :=
  (Json.only? "type" members).bind Json.text?

theorem length_valuesOf {key : String} {members : List (Quoted × Json)} {v : Json}
    (h : Json.only? key members = some v) : (Json.valuesOf key members).length = 1 := by
  unfold Json.only? at h
  split at h
  · next hvalues => rw [hvalues, List.length_singleton]
  · cases h

theorem length_symbols {members : List (Quoted × Json)} {v : Json}
    (h : (if (Json.valuesOf "symbol" members).isEmpty then some .null
      else Json.only? "symbol" members) = some v) :
    (Json.valuesOf "symbol" members).length ≤ 1 := by
  split at h
  · next hnil => simp [List.isEmpty_iff.1 hnil]
  · exact (length_valuesOf h).le

/-- The members name the kind of the notice and hold its parts. -/
structure StatedBy (n : Notice) (members : List (Quoted × Json)) : Prop where
  kind : kindOf? members = some n.kind
  required : ∀ key ∈ n.required, (Json.valuesOf key members).length = 1
  optional : ∀ key ∈ n.optional, (Json.valuesOf key members).length ≤ 1

/-- **An object that holds a notice names its kind, and holds every part once.** -/
theorem statedBy_of_ofMembers? {members : List (Quoted × Json)} {n : Notice}
    (h : ofMembers? members = some n) : n.StatedBy members := by
  obtain ⟨v, hv, h⟩ := Option.bind_eq_some_iff.1 h
  obtain ⟨kind, hkind, h⟩ := Option.bind_eq_some_iff.1 h
  have hkind : kindOf? members = some kind := by rw [kindOf?, hv, Option.bind_some, hkind]
  dsimp only at h
  generalize hchoice : (if (Json.valuesOf "symbol" members).isEmpty then some Json.null
    else Json.only? "symbol" members) = symbol at h
  have hsymbol {v : Json} (hv : symbol = some v) : (Json.valuesOf "symbol" members).length ≤ 1 :=
    length_symbols (hchoice.trans hv)
  unfold ofParts? at h
  split at h <;> simp only [Option.bind_eq_bind, Option.bind_eq_some_iff, Option.pure_def,
    Option.some.injEq, reduceCtorEq] at h
  · obtain ⟨_, hr, _, -, _, hd, _, -, _, hl, _, -, _, hs, _, -, _, hc, _, -, rfl⟩ := h
    refine ⟨hkind, ?_, ?_⟩
    · simp [required, length_valuesOf hr, length_valuesOf hd, length_valuesOf hl,
        length_valuesOf hc]
    · simp [optional, hsymbol hs]
  · obtain ⟨_, hl, _, -, _, hs, _, -, _, hc, _, -, rfl⟩ := h
    refine ⟨hkind, ?_, ?_⟩
    · simp [required, length_valuesOf hl, length_valuesOf hc]
    · simp [optional, hsymbol hs]
  · obtain ⟨_, hc, _, -, rfl⟩ := h
    refine ⟨hkind, ?_, ?_⟩
    · simp [required, length_valuesOf hc]
    · simp [optional]

theorem statedBy_of_ofBytes? {line : List UInt8} {members : List (Quoted × Json)} {n : Notice}
    (object : Json.ofBytes? line = some (.obj members)) (h : ofBytes? line = some n) :
    n.StatedBy members := by
  rw [ofBytes?, Json.decoded?, object, Option.bind_some, ofJson?, Option.ite_none_right_eq_some] at h
  exact statedBy_of_ofMembers? h.2

/-- Lines without a notice. -/
inductive Missing : List UInt8 → Prop
  /-- The line holds no value. -/
  | value {line : List UInt8} (h : Json.Missing line) : Missing line
  /-- The object names no kind, or one that does not exist. -/
  | kind {line : List UInt8} {members : List (Quoted × Json)}
      (object : Json.ofBytes? line = some (.obj members))
      (unknown : ∀ n : Notice, kindOf? members ≠ some n.kind) : Missing line
  /-- A part that the kind needs is left out. -/
  | part {line : List UInt8} {members : List (Quoted × Json)} {n : Notice} {key : String}
      (object : Json.ofBytes? line = some (.obj members)) (named : kindOf? members = some n.kind)
      (needed : key ∈ n.required) (nothing : Json.valuesOf key members = []) : Missing line
  /-- A part that the kind knows is there twice. -/
  | twice {line : List UInt8} {members : List (Quoted × Json)} {n : Notice} {key : String}
      (object : Json.ofBytes? line = some (.obj members)) (named : kindOf? members = some n.kind)
      (known : key ∈ n.required ++ n.optional)
      (twice : 1 < (Json.valuesOf key members).length) : Missing line

theorem Missing.ofBytes?_eq_none {line : List UInt8} (h : Missing line) : ofBytes? line = none := by
  rw [Option.eq_none_iff_forall_ne_some]
  intro m hm
  cases h with
  | value h =>
    rw [ofBytes?, Json.decoded?_missing _ h] at hm
    cases hm
  | kind object unknown => exact unknown m (statedBy_of_ofBytes? object hm).kind
  | @part members n key object named needed nothing =>
    have hm := statedBy_of_ofBytes? object hm
    have hsame := parts_eq_of_kind (Option.some.inj (named.symm.trans hm.kind))
    have hlength := hm.required key (hsame.1 ▸ needed)
    rw [nothing] at hlength
    cases hlength
  | @twice members n key object named known twice =>
    have hm := statedBy_of_ofBytes? object hm
    have hsame := parts_eq_of_kind (Option.some.inj (named.symm.trans hm.kind))
    rw [hsame.1, hsame.2, List.mem_append] at known
    have hlength : (Json.valuesOf key members).length ≤ 1 :=
      known.elim (fun h => (hm.required key h).le) (hm.optional key)
    exact absurd twice (Nat.not_lt.2 hlength)

end Notice

/-! ## One notice after the other -/

/-- What a connection answers to the first `n` calls. -/
def answers : ℕ → List (List UInt8) → List (Except ListenError (Option Notice))
  | 0, _ => []
  | n + 1, ls => (nextNotice? ls).1 :: answers n (nextNotice? ls).2

/-- The answer that a line gives rise to. -/
def answerTo (line : List UInt8) : Option (Except ListenError Notice) :=
  if isText line then (Notice.ofBytes? line).map .ok else some (.error .unreadable)

section Answers

variable (n : ℕ) (l : List UInt8) (ls : List (List UInt8))

theorem nextNotice?_cons : nextNotice? (l :: ls) =
    match answerTo l with
    | some answer => (answer.map some, ls)
    | none => nextNotice? ls := by
  rw [answerTo]
  cases htext : isText l with
  | false => exact nextNotice?_garbled htext ls
  | true =>
    rw [nextNotice?_text htext]
    cases Notice.ofBytes? l <;> rfl

/-- **The answers are those of the lines, in order, and then nothing.** -/
theorem answers_eq : answers n ls =
    ((ls.filterMap answerTo).map (Except.map some) ++ List.replicate n (Except.ok none)).take n := by
  induction n generalizing ls with
  | zero => rfl
  | succ n ih =>
    -- a call takes lines as long as they give rise to no answer
    induction ls with
    | nil =>
      rw [answers, nextNotice?, ih]
      simp [List.replicate_succ]
    | cons l ls ih_lines =>
      rw [answers, nextNotice?_cons, List.filterMap_cons]
      cases answerTo l with
      | none => exact ih_lines
      | some answer =>
        have htake : ∀ later : List (Except ListenError (Option Notice)),
            (later ++ List.replicate (n + 1) (Except.ok none)).take n =
              (later ++ List.replicate n (Except.ok none)).take n := by
          intro later
          rw [List.replicate_succ', ← List.append_assoc, List.take_append_of_le_length (by simp)]
        rw [ih, List.map_cons, List.cons_append, List.take_succ_cons, htake]

theorem notices_answerTo :
    (ls.filterMap answerTo).filterMap Except.toOption = ls.filterMap Notice.ofBytes? := by
  have hline (l : List UInt8) : (answerTo l).bind Except.toOption = Notice.ofBytes? l := by
    rw [answerTo]
    split
    · cases Notice.ofBytes? l <;> rfl
    · next garbled =>
      exact (Json.decoded?_missing _ (.garbled (Bool.eq_false_iff.2 garbled))).symm
  rw [List.filterMap_filterMap]
  exact congrArg (ls.filterMap ·) (funext hline)

/-- There is an error among the answers exactly when some line is no text. -/
theorem all_isOk_answerTo : (ls.filterMap answerTo).all Except.isOk = ls.all isText := by
  induction ls with
  | nil => rfl
  | cons l ls ih =>
    rw [List.filterMap_cons, List.all_cons, ← ih, answerTo]
    cases isText l <;> cases Notice.ofBytes? l <;> rfl

end Answers

/-- **A listener gets the notices in front of the first line that is no text.** -/
theorem listenLines_eq_takeWhile (ls : List (List UInt8)) :
    listenLines ls =
      { notices := (ls.takeWhile isText).filterMap Notice.ofBytes?
        error := if ls.all isText then none else some .unreadable } := by
  induction ls with
  | nil => exact listenLines_nil
  | cons l ls ih =>
    cases htext : isText l with
    | false =>
      rw [listenLines_garbled htext]
      simp [htext]
    | true =>
      rw [listenLines_text htext, ih]
      cases hnotice : Notice.ofBytes? l <;> simp [htext, hnotice]

/-- **Every line is answered on its own**, by its notice, by an error if it is no text, or not at
all. A listener gives up at the first error. -/
theorem every_line_is_answered (bytes : List UInt8) :
    let lines := byteLines bytes
    (∀ ls, WritesLines 0x0A 0x0D ls bytes ↔ lines = ls) ∧
      (∀ n, answers n lines = ((lines.filterMap answerTo).map (Except.map some) ++
        List.replicate n (Except.ok none)).take n) ∧
      (lines.filterMap answerTo).filterMap Except.toOption = lines.filterMap Notice.ofBytes? ∧
      (lines.filterMap answerTo).all Except.isOk = lines.all isText ∧
      listen bytes =
        { notices := (lines.takeWhile isText).filterMap Notice.ofBytes?
          error := if lines.all isText then none else some .unreadable } ∧
      (∀ line, Notice.Missing line → Notice.ofBytes? line = none) ∧
      ∀ n : Notice, Notice.ofBytes? (encode n.line) = some n := by
  intro lines
  refine ⟨fun ls => byteLines_eq_iff.symm, fun n => answers_eq n lines, notices_answerTo lines,
    all_isOk_answerTo lines, listenLines_eq_takeWhile lines, ?_, Notice.ofBytes?_line⟩
  exact fun line h => h.ofBytes?_eq_none

/-- The line between two notices is no text. -/
theorem garbled_line_is_answered :
    let bytes := (Notice.finish "tea").bytes ++ [0xFF, 0x0A] ++ (Notice.finish "eggs").bytes
    (byteLines bytes).filterMap Notice.ofBytes? = [.finish "tea", .finish "eggs"] ∧
      answers 4 (byteLines bytes) =
        [.ok (some (.finish "tea")), .error .unreadable, .ok (some (.finish "eggs")), .ok none] ∧
      listen bytes = { notices := [.finish "tea"], error := some .unreadable } := by
  intro bytes
  have hgarbled : isText [0xFF] = false := by decide +kernel
  have hnothing : Notice.ofBytes? [0xFF] = none :=
    (Notice.Missing.value (.garbled hgarbled)).ofBytes?_eq_none
  have hlines : byteLines bytes =
      [encode (Notice.finish "tea").line, [0xFF], encode (Notice.finish "eggs").line] := by
    have hrest : byteLines ([0xFF, 0x0A] ++ (Notice.finish "eggs").bytes) =
        [0xFF] :: byteLines (Notice.finish "eggs").bytes :=
      lines_append (show (0x0A : UInt8) ∉ [0xFF] by decide) _
    have hlast := (Notice.finish "eggs").byteLines_append []
    rw [List.append_nil] at hlast
    rw [show bytes = (Notice.finish "tea").bytes ++ ([0xFF, 0x0A] ++ (Notice.finish "eggs").bytes)
      from List.append_assoc _ _ _, Notice.byteLines_append, hrest, hlast, byteLines, lines_nil]
  have htext (n : Notice) : isText (encode n.line) = true := Utf8.isText_encode _
  refine ⟨?_, ?_, ?_⟩
  · rw [hlines]
    simp [Notice.ofBytes?_line, hnothing]
  · rw [hlines, answers_eq]
    simp [answerTo, htext, hgarbled, Notice.ofBytes?_line, Except.map]
  · rw [listen, hlines, listenLines_eq_takeWhile]
    simp [htext, hgarbled, Notice.ofBytes?_line]

end TaskTimer
