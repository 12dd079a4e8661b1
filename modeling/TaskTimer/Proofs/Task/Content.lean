import TaskTimer.Plan.Layout
import TaskTimer.Proofs.Notation.Spacing
import TaskTimer.Task.Declaration

/-!
# The content of a declaration

Two declarations are told apart by their notation as it is written, never by the nodes it stands
for. That is sound because the notation that a declaration keeps determines its nodes.

* `parse_reads_alike`: how texts with the same words are read.
* `TaskLine.Holds`, `scan_eq_some_iff`: a document declares the timer that its first task line holds.
* `Declaration.IsScanned`: a declaration that some document makes.
* `Declaration.IsScanned.parse_rawSyntax`: the notation that is kept writes the nodes.
* `Declaration.IsScanned.nodes_eq`: declarations with the same content have the same nodes.
* **`squeezed_notation_determines_timer`**: all of it in one statement.
-/

namespace TaskTimer

theorem parse_reads_alike {x y : String} (h : words x.toList = words y.toList) :
    (∃ nodes, parse x = .ok nodes ∧ parse y = .ok nodes) ∨
      ∃ e f, parse x = .error e ∧ parse y = .error f ∧ e.kind = f.kind := by
  have key := parse_congr_words h
  cases hx : parse x with
  | ok nodes =>
    rw [hx] at key
    exact .inl ⟨nodes, rfl, mapError_eq_ok_iff.1 key.symm⟩
  | error e =>
    rw [hx] at key
    obtain ⟨f, hy, hkind⟩ := mapError_eq_error_iff.1 key.symm
    exact .inr ⟨e, f, rfl, hy, hkind.symm⟩

theorem parse_eq_ok_of_words {x y : String} {nodes : List Node}
    (h : words x.toList = words y.toList) (hy : parse y = .ok nodes) : parse x = .ok nodes := by
  rcases parse_reads_alike h with ⟨nodes', hx, hy'⟩ | ⟨e, f, -, hy', -⟩
  · rw [hx, ← hy', hy]
  · rw [hy] at hy'
    cases hy'

/-! ## Scanned declarations -/

/-- The declaration was found in some document. -/
def Declaration.IsScanned (d : Declaration) : Prop := ∃ text document, scan text document = some d

/-- The brackets of the line write these nodes, and a countdown is among them. -/
structure TaskLine.Holds (l : TaskLine) (nodes : List Node) : Prop where
  reads : parse (.ofList l.body) = .ok nodes
  counts : leafCount nodes ≠ 0

theorem TaskLine.holds_nodesOrNone {l : TaskLine}
    (h : leafCount (nodesOrNone (.ofList l.body)) ≠ 0) :
    l.Holds (nodesOrNone (.ofList l.body)) := by
  refine ⟨?_, h⟩
  cases hparse : parse (.ofList l.body) with
  | ok nodes => rw [nodesOrNone_of_ok hparse]
  | error e =>
    rw [nodesOrNone_of_error hparse] at h
    exact absurd rfl h

/-- A document declares the timer that its first task line holds. -/
theorem scan_eq_some_iff {text document : String} {d : Declaration} :
    scan text document = some d ↔ ∃ i task nodes, firstTaskLine text = some (i, task) ∧
      task.Holds nodes ∧ d = task.declaration document i nodes := by
  constructor
  · intro h
    rw [scan] at h
    split at h
    · cases h
    · rename_i i task hline
      dsimp only at h
      split at h
      · cases h
      · rename_i hcounts
        cases h
        exact ⟨i, task, _, hline, TaskLine.holds_nodesOrNone hcounts, rfl⟩
  · rintro ⟨i, task, nodes, hline, holds, rfl⟩
    rw [scan, hline]
    simp only [nodesOrNone_of_ok holds.reads]
    exact if_neg holds.counts

theorem scan_document {text document : String} {d : Declaration}
    (h : scan text document = some d) : d.document = document := by
  obtain ⟨i, task, nodes, -, -, rfl⟩ := scan_eq_some_iff.1 h
  rfl

namespace Declaration

variable {a b : Declaration}

/-- **The notation that a declaration keeps writes its nodes.** -/
theorem IsScanned.parse_rawSyntax (ha : a.IsScanned) : parse a.rawSyntax = .ok a.nodes := by
  obtain ⟨text, document, h⟩ := ha
  obtain ⟨i, task, nodes, -, holds, rfl⟩ := scan_eq_some_iff.1 h
  refine parse_eq_ok_of_words ?_ holds.reads
  rw [TaskLine.declaration, String.toList_ofList, String.toList_ofList, words_squeeze]

theorem IsScanned.leafCount_ne_zero (ha : a.IsScanned) : leafCount a.nodes ≠ 0 := by
  obtain ⟨text, document, h⟩ := ha
  obtain ⟨i, task, nodes, -, holds, rfl⟩ := scan_eq_some_iff.1 h
  exact holds.counts

theorem sameContent_iff : a.sameContent b = true ↔
    a.document = b.document ∧ a.rawSyntax = b.rawSyntax ∧ a.label = b.label := by
  rw [sameContent, Bool.and_eq_true, Bool.and_eq_true, beq_iff_eq, beq_iff_eq, beq_iff_eq,
    and_assoc]

theorem sameContent_refl (a : Declaration) : a.sameContent a = true :=
  sameContent_iff.2 ⟨rfl, rfl, rfl⟩

theorem sameContent_symm (h : a.sameContent b = true) : b.sameContent a = true := by
  obtain ⟨hdocument, hraw, hlabel⟩ := sameContent_iff.1 h
  exact sameContent_iff.2 ⟨hdocument.symm, hraw.symm, hlabel.symm⟩

theorem sameContent_trans {c : Declaration} (h : a.sameContent b = true)
    (h' : b.sameContent c = true) : a.sameContent c = true := by
  obtain ⟨hdocument, hraw, hlabel⟩ := sameContent_iff.1 h
  obtain ⟨hdocument', hraw', hlabel'⟩ := sameContent_iff.1 h'
  exact sameContent_iff.2 ⟨hdocument.trans hdocument', hraw.trans hraw', hlabel.trans hlabel'⟩

/-- **Scanned declarations with the same content have the same nodes.** -/
theorem IsScanned.nodes_eq (ha : a.IsScanned) (hb : b.IsScanned) (h : a.sameContent b = true) :
    a.nodes = b.nodes := by
  have hraw : a.rawSyntax = b.rawSyntax := (sameContent_iff.1 h).2.1
  have hparse := ha.parse_rawSyntax
  rw [hraw, hb.parse_rawSyntax] at hparse
  exact (Except.ok.inj hparse).symm

end Declaration

/-- **The squeezed notation determines the timer**, its nodes and its plans. -/
theorem squeezed_notation_determines_timer :
    (∀ x y : String, squeeze x.toList = squeeze y.toList →
      (∃ nodes, parse x = .ok nodes ∧ parse y = .ok nodes) ∨
        ∃ e f, parse x = .error e ∧ parse y = .error f ∧ e.kind = f.kind) ∧
    (∀ text document d, scan text document = some d → parse d.rawSyntax = .ok d.nodes) ∧
    (∀ a b : Declaration, a.IsScanned → b.IsScanned → a.sameContent b = true →
      a.nodes = b.nodes ∧ ∀ cap, Plan.layout cap a.nodes = Plan.layout cap b.nodes) := by
  refine ⟨fun x y h => parse_reads_alike (words_eq_of_squeeze_eq h), fun text document d h => ?_,
    fun a b ha hb h => ?_⟩
  · exact Declaration.IsScanned.parse_rawSyntax ⟨text, document, h⟩
  · have hnodes := ha.nodes_eq hb h
    exact ⟨hnodes, fun cap => by rw [hnodes]⟩

/-- Blanks in other places and of another kind, and a hyphen. -/
theorem squeezed_notation_determines_timer_blanks :
    (∃ nodes, parse "1s  (2s)3" = .ok nodes ∧ parse " 1s\t(2s)3" = .ok nodes) ∧
      ∃ a b, scan "[1s  (2s)3] tea" "doc" = some a ∧ scan "\n[-1s (2s)3 ] tea" "doc" = some b ∧
        a.sameContent b = true ∧ parse a.rawSyntax = .ok a.nodes ∧ a.nodes = b.nodes := by
  obtain ⟨alike, keeps, same⟩ := squeezed_notation_determines_timer
  refine ⟨?_, ?_⟩
  · have hsqueeze : squeeze "1s  (2s)3".toList = squeeze " 1s\t(2s)3".toList := by decide +kernel
    rcases alike "1s  (2s)3" " 1s\t(2s)3" hsqueeze with h | ⟨e, -, he, -⟩
    · exact h
    · have hok : (parse "1s  (2s)3").isOk = true := by decide +kernel
      rw [he] at hok
      cases hok
  · let a : Declaration :=
      ⟨"doc", 0, 0, false, "1s (2s)3", [.leaf 1 none, .group [.leaf 2 none] 3], "tea"⟩
    let b : Declaration := { a with line := 1, paused := true }
    have ha : scan "[1s  (2s)3] tea" "doc" = some a := by decide +kernel
    have hb : scan "\n[-1s (2s)3 ] tea" "doc" = some b := by decide +kernel
    have hab : a.sameContent b = true := by decide +kernel
    exact ⟨a, b, ha, hb, hab, keeps _ _ a ha, (same a b ⟨_, _, ha⟩ ⟨_, _, hb⟩ hab).1⟩

end TaskTimer
