import TaskTimer.Files.Watcher
import TaskTimer.Proofs.Files.Tree
import TaskTimer.Proofs.Lists

/-!
# What a watcher sends

A watcher looks at its document again and again while the files change, and while those who take the
changes come and go. A look that fails leaves no trace, so that the next one makes up for it.

* `FileTree.textAt?`: the text that is found at a path.
* `Look`, `Watcher.look`: a look at the document and its circumstances.
* `Watcher.Course`: the courses that a look can take. `Watcher.answer_look`: what it answers.
* `Watcher.after`, `Watcher.sent`, `Watcher.succeeded`: what comes of a sequence of looks.
* `Watcher.lastText_after`: the watcher knows what was sent last.
* **`Watcher.changes_are_sent_once`**: what is sent, and what every look comes to.
-/

namespace TaskTimer

/-- The text at a path, if it can be read. Where nothing is, the text is empty. -/
def FileTree.textAt? (t : FileTree) (path : String) : Option String :=
  match t.read path with
  | .ok bytes => (Utf8.decode? bytes).map .ofList
  | .error .missing => some ""
  | .error .unreadable => none

theorem Reading.text?_readText (path : String) (t : FileTree) :
    (Reading.ofResult ((readText path : StateM FileTree _) t).1).text? = t.textAt? path := by
  rw [readText, FileTree.run_bind, FileTree.run_readFile, FileTree.textAt?]
  cases t.read path with
  | error e => cases e <;> rfl
  | ok bytes => cases h : Utf8.decode? bytes <;> simp only [h] <;> rfl

/-- The circumstances of a look at a document: the files as they are, and whether somebody takes the
changes. -/
structure Look where
  tree : FileTree
  isOpen : Bool

namespace Watcher

/-! ## One look -/

/-- The watcher looks at its document. -/
def look (w : Watcher) (l : Look) : Outcome :=
  w.check (.ofResult ((readText w.path : StateM FileTree _) l.tree).1) l.isOpen

/-- The courses that a look can take. -/
inductive Course (w : Watcher) (l : Look) : Outcome → Prop
  /-- What is there cannot be read. -/
  | unreadable (nothing : l.tree.textAt? w.path = none) :
      Course w l ⟨w, .error (.unreadable w.path), none⟩
  /-- The text is the one that was sent last. -/
  | same {text : String} (read : l.tree.textAt? w.path = some text)
      (same : w.lastText = some text) : Course w l ⟨w, .ok false, none⟩
  /-- The text is another one, and it is taken. -/
  | sent {text : String} (read : l.tree.textAt? w.path = some text)
      (new : w.lastText ≠ some text) (isOpen : l.isOpen = true) :
      Course w l ⟨{ w with lastText := some text }, .ok true, some ⟨w.document, text⟩⟩
  /-- The text is another one, but nobody takes it. -/
  | refused {text : String} (read : l.tree.textAt? w.path = some text)
      (new : w.lastText ≠ some text) (closed : l.isOpen = false) :
      Course w l ⟨w, .error .closed, none⟩

/-- **Every look takes one of the courses.** -/
theorem course_look (w : Watcher) (l : Look) : w.Course l (w.look l) := by
  rw [look, check, Reading.text?_readText]
  cases read : l.tree.textAt? w.path with
  | none => exact .unreadable read
  | some text =>
    by_cases same : w.lastText = some text
    · simp only [if_pos same]
      exact .same read same
    · simp only [if_neg same]
      cases isOpen : l.isOpen with
      | true => exact .sent read same isOpen
      | false => exact .refused read same isOpen

/-- A look answers whether the text is new, and fails when nothing is read or taken. -/
theorem answer_look (w : Watcher) (l : Look) :
    let outcome := w.look l
    match outcome.answer with
    | .ok flag => ∃ text, l.tree.textAt? w.path = some text ∧
        (w.lastText = some text ∨ l.isOpen = true) ∧ (flag = true ↔ w.lastText ≠ some text) ∧
        outcome.sent = (if flag then some ⟨w.document, text⟩ else none) ∧
        outcome.watcher.lastText = some text
    | .error e => outcome.watcher = w ∧ outcome.sent = none ∧
        (e = .unreadable w.path ∧ l.tree.textAt? w.path = none ∨
          e = .closed ∧ l.isOpen = false ∧
            ∃ text, l.tree.textAt? w.path = some text ∧ w.lastText ≠ some text) := by
  intro outcome
  have course : w.Course l outcome := w.course_look l
  clear_value outcome
  cases course with
  | unreadable nothing => exact ⟨rfl, rfl, .inl ⟨rfl, nothing⟩⟩
  | same read same =>
    exact ⟨_, read, .inl same, ⟨nofun, fun new => absurd same new⟩, rfl, same⟩
  | sent read new isOpen => exact ⟨_, read, .inr isOpen, ⟨fun _ => new, fun _ => rfl⟩, rfl, rfl⟩
  | refused read new closed => exact ⟨rfl, rfl, .inr ⟨rfl, closed, _, read, new⟩⟩

/-! ## Many looks -/

/-- The watcher after a sequence of looks. -/
def after : Watcher → List Look → Watcher
  | w, [] => w
  | w, l :: ls => after (w.look l).watcher ls

/-- All that a sequence of looks sends, in order. -/
def sent : Watcher → List Look → List Change
  | _, [] => []
  | w, l :: ls => (w.look l).sent.toList ++ sent (w.look l).watcher ls

/-- The looks of a sequence that do not fail. -/
def succeeded : Watcher → List Look → List Look
  | _, [] => []
  | w, l :: ls =>
    match (w.look l).answer with
    | .ok _ => l :: succeeded (w.look l).watcher ls
    | .error _ => succeeded (w.look l).watcher ls

variable (w : Watcher) (ls : List Look)

theorem after_concat (l : Look) : w.after (ls ++ [l]) = ((w.after ls).look l).watcher := by
  induction ls generalizing w with
  | nil => rfl
  | cons l' ls ih => rw [List.cons_append, after, ih, after]

theorem sent_concat (l : Look) :
    w.sent (ls ++ [l]) = w.sent ls ++ ((w.after ls).look l).sent.toList := by
  induction ls generalizing w with
  | nil => simp [sent, after]
  | cons l' ls ih => rw [List.cons_append, sent, ih, sent, after, List.append_assoc]

theorem document_look (l : Look) :
    (w.look l).watcher.path = w.path ∧ (w.look l).watcher.document = w.document := by
  have course := w.course_look l
  generalize w.look l = result at course
  cases course <;> exact ⟨rfl, rfl⟩

theorem document_after : (w.after ls).path = w.path ∧ (w.after ls).document = w.document := by
  induction ls generalizing w with
  | nil => exact ⟨rfl, rfl⟩
  | cons l ls ih =>
    obtain ⟨hpath, hdocument⟩ := w.document_look l
    obtain ⟨hpath', hdocument'⟩ := ih (w.look l).watcher
    exact ⟨hpath'.trans hpath, hdocument'.trans hdocument⟩

/-- **The watcher knows what was sent last.** -/
theorem lastText_after :
    (w.after ls).lastText = ((w.sent ls).map (·.text)).getLast?.or w.lastText := by
  induction ls generalizing w with
  | nil => rfl
  | cons l ls ih =>
    have course := w.course_look l
    rw [after, sent, ih, List.map_append, List.getLast?_append, Option.or_assoc]
    generalize w.look l = result at course
    cases course <;> rfl

theorem sent_eq_map : w.sent ls = ((w.sent ls).map (·.text)).map (Change.mk w.document) := by
  induction ls generalizing w with
  | nil => rfl
  | cons l ls ih =>
    have course := w.course_look l
    rw [sent, List.map_append, List.map_append, ← (w.document_look l).2, ← ih]
    generalize w.look l = result at course
    cases course <;> rfl

/-- **Texts are sent if they do not repeat the one before.** -/
theorem texts_sent :
    w.lastText.toList ++ (w.sent ls).map (·.text) =
      (w.lastText.toList ++
        (w.succeeded ls).filterMap (·.tree.textAt? w.path)).destutter (· ≠ ·) := by
  induction ls generalizing w with
  | nil => cases h : w.lastText <;> simp [sent, succeeded]
  | cons l ls ih =>
    have course := w.course_look l
    have later := ih (w.look l).watcher
    rw [(w.document_look l).1] at later
    rw [sent, succeeded]
    generalize w.look l = result at course later
    cases course with
    -- a look that fails is on neither side
    | unreadable | refused => exact later
    | same read same =>
      change _ = (w.lastText.toList ++ (l :: w.succeeded ls).filterMap _).destutter _
      rw [List.filterMap_cons_some (f := fun l : Look => l.tree.textAt? w.path) read,
        destutter_toList_append_cons, if_pos same]
      exact later
    | @sent text read new =>
      change _ = (w.lastText.toList ++
        (l :: succeeded { w with lastText := some text } ls).filterMap _).destutter _
      rw [List.filterMap_cons_some (f := fun l : Look => l.tree.textAt? w.path) read,
        destutter_toList_append_cons, if_neg new]
      exact congrArg (w.lastText.toList ++ ·) later

/-- **Looks that fail leave no trace.** -/
theorem succeeded_eq :
    w.after (w.succeeded ls) = w.after ls ∧ w.sent (w.succeeded ls) = w.sent ls := by
  induction ls generalizing w with
  | nil => exact ⟨rfl, rfl⟩
  | cons l ls ih =>
    obtain ⟨hafter, hsent⟩ := ih (w.look l).watcher
    have course := w.course_look l
    rw [succeeded, after, sent, ← hafter, ← hsent]
    generalize hlook : w.look l = outcome at course
    cases course with
    | unreadable | refused => exact ⟨rfl, rfl⟩
    | same | sent =>
      simp only
      rw [after, sent, hlook]
      exact ⟨rfl, rfl⟩

/-- **A watcher sends every change that it sees once**, and says so. A look that fails sends nothing
and leaves no trace. -/
theorem changes_are_sent_once (path document : String) (looks : List Look) (l : Look) :
    let w : Watcher := { path := path, document := document }
    let last := ((w.sent looks).map (·.text)).getLast?
    let outcome := (w.after looks).look l
    w.sent looks =
        (((w.succeeded looks).filterMap (·.tree.textAt? path)).destutter (· ≠ ·)).map
          (Change.mk document) ∧
      w.after (w.succeeded looks) = w.after looks ∧ w.sent (w.succeeded looks) = w.sent looks ∧
      w.after (looks ++ [l]) = outcome.watcher ∧
      w.sent (looks ++ [l]) = w.sent looks ++ outcome.sent.toList ∧
      match outcome.answer with
      | .ok flag => ∃ text, l.tree.textAt? path = some text ∧
          (last = some text ∨ l.isOpen = true) ∧ (flag = true ↔ last ≠ some text) ∧
          outcome.sent = (if flag then some ⟨document, text⟩ else none) ∧
          ((w.sent (looks ++ [l])).map (·.text)).getLast? = some text
      | .error e => outcome.watcher = w.after looks ∧ outcome.sent = none ∧
          (e = .unreadable path ∧ l.tree.textAt? path = none ∨
            e = .closed ∧ l.isOpen = false ∧
              ∃ text, l.tree.textAt? path = some text ∧ last ≠ some text) := by
  intro w last outcome
  obtain ⟨hafter, hsent⟩ := w.succeeded_eq looks
  have hconcat : w.after (looks ++ [l]) = outcome.watcher := w.after_concat looks l
  refine ⟨?_, hafter, hsent, hconcat, w.sent_concat looks l, ?_⟩
  · have htexts := w.texts_sent looks
    rw [Option.toList_none, List.nil_append, List.nil_append] at htexts
    rw [← htexts]
    exact w.sent_eq_map looks
  · have hlast : ∀ ls, ((w.sent ls).map (·.text)).getLast? = (w.after ls).lastText := fun ls => by
      rw [lastText_after, Option.or_none]
    obtain ⟨hpath, hdocument⟩ := w.document_after looks
    have answer := (w.after looks).answer_look l
    simp only [hpath, hdocument, ← hlast looks] at answer
    rw [hlast (looks ++ [l]), hconcat]
    exact answer

end Watcher

end TaskTimer
