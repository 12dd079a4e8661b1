import TaskTimer.Files.Tree
import TaskTimer.Proofs.Lists

/-!
# Trees of files that change

Directories are only ever added, so what could be read stays as it was, and bytes that are put
behind those of a file are read behind them.

* `find?_set`: what is at a place after something was put somewhere.
* `Extends`: everything in a tree is in the other one too, at the same place.
* `Alike`: the directories are the same, and so are the places where nothing is.
* `Extends.walk_append`, `Alike.walk`: where paths lead in a tree that has changed.
* `makeWay_extends`, `makeDirectories_extends`: directories that are made.
* `Edited`: what can happen when a file is written. **`read_edit`**: what is read from it then.
* `run_bind`, `run_attempt`: computations on a tree, step by step.
-/

namespace TaskTimer

namespace FileTree

variable {t t' : FileTree} {place : List String}

/-! ## Looking after a change -/

theorem find?_nil (t : FileTree) : t.find? [] = some .directory := rfl

/-- **The node is at its place, and everything else is where it was.** -/
theorem find?_set (t : FileTree) (hplace : place ≠ []) (node : FileNode) (p : List String) :
    (t.set place node).find? p = if p = place then some node else t.find? p := by
  have hlookup : (t.set place node).nodes.lookup p =
      if p = place then some node else t.nodes.lookup p := lookup_replaced t.nodes place p node
  cases p with
  | nil => rw [find?_nil, find?_nil, if_neg (Ne.symm hplace)]
  | cons name p => exact hlookup

/-! ## Trees with more in them -/

/-- Everything in the tree is in the other one too, at the same place. -/
structure Extends (t t' : FileTree) : Prop where
  root : t'.root = t.root
  find? : ∀ {place node}, t.find? place = some node → t'.find? place = some node

theorem Extends.refl (t : FileTree) : t.Extends t := ⟨rfl, fun h => h⟩

theorem Extends.trans {t'' : FileTree} (h : t.Extends t') (h' : t'.Extends t'') :
    t.Extends t'' := ⟨h'.root.trans h.root, fun hp => h'.find? (h.find? hp)⟩

theorem extends_set (hnone : t.find? place = none) (node : FileNode) :
    t.Extends (t.set place node) := by
  have hplace : place ≠ [] := by
    rintro rfl
    cases hnone
  refine ⟨rfl, fun {p n} hp => ?_⟩
  rw [find?_set t hplace, if_neg, hp]
  rintro rfl
  rw [hnone] at hp
  cases hp

theorem Extends.partsBelow? (h : t.Extends t') (path : String) :
    t'.partsBelow? path = t.partsBelow? path := by
  rw [FileTree.partsBelow?, FileTree.partsBelow?, h.root]

/-! ## Where paths lead -/

/-- **A path leads to the same place in a tree with more in it.** -/
theorem Extends.walk_append (h : t.Extends t') {parts place' : List String}
    (hwalk : t.walk place parts = .ok place') (more : List String) :
    t'.walk place (parts ++ more) = t'.walk place' more := by
  fun_induction FileTree.walk t place parts with
  | case1 place =>
    cases hwalk
    rfl
  | case2 | case3 | case5 | case7 => cases hwalk
  | case4 place part parts hplace hstay ih =>
    rw [List.cons_append, FileTree.walk, h.find? hplace]
    simpa only [if_pos hstay] using ih hwalk
  | case6 place parts hplace hbelow hstay ih =>
    rw [List.cons_append, FileTree.walk, h.find? hplace]
    simpa only [if_neg hstay, if_neg hbelow, if_true] using ih hwalk
  | case8 place part parts hplace hstay hup node hnode ih =>
    rw [List.cons_append, FileTree.walk, h.find? hplace]
    simpa only [if_neg hstay, if_neg hup, h.find? hnode] using ih hwalk

theorem Extends.resolve (h : t.Extends t') {path : String} (hpath : t.resolve path = .ok place) :
    t'.resolve path = .ok place := by
  rw [FileTree.resolve, h.partsBelow?]
  rw [FileTree.resolve] at hpath
  split at hpath
  · cases hpath
  · have hwalk := h.walk_append hpath []
    rwa [List.append_nil, FileTree.walk] at hwalk

theorem walk_name (hplace : t.find? place = some .directory) {name : String}
    (hname : Path.isName name = true) :
    t.walk place [name] =
      if (t.find? (place ++ [name])).isNone then .error .missing else .ok (place ++ [name]) := by
  simp only [Path.isName, Bool.and_eq_true, bne_iff_ne, ne_eq] at hname
  obtain ⟨⟨hempty, hdot⟩, hup⟩ := hname
  rw [FileTree.walk, hplace]
  simp only [hempty, hdot, hup, decide_false, Bool.or_self, Bool.false_eq_true, if_false]
  cases t.find? (place ++ [name]) <;> rfl

/-! ## What changes keep -/

/-- The places of the directories are the same, and so are those where nothing is. -/
structure Alike (t t' : FileTree) : Prop where
  root : t'.root = t.root
  directory : ∀ p, t'.find? p = some .directory ↔ t.find? p = some .directory
  nothing : ∀ p, t'.find? p = none ↔ t.find? p = none

theorem Alike.exists_file (h : t.Alike t') {bytes : List UInt8}
    (hplace : t.find? place = some (.file bytes)) :
    ∃ bytes', t'.find? place = some (.file bytes') := by
  have hnothing := h.nothing place
  have hdirectory := h.directory place
  cases hplace' : t'.find? place with
  | none => simp [hplace, hplace'] at hnothing
  | some node =>
    cases node with
    | file bytes' => exact ⟨bytes', rfl⟩
    | directory => simp [hplace, hplace'] at hdirectory

theorem Alike.walk (h : t.Alike t') (place parts : List String) :
    t'.walk place parts = t.walk place parts := by
  fun_induction FileTree.walk t place parts with
  | case1 place => rfl
  | case2 place part parts hplace => rw [FileTree.walk, (h.nothing place).2 hplace]
  | case3 place part parts bytes hplace =>
    obtain ⟨bytes', hplace'⟩ := h.exists_file hplace
    rw [FileTree.walk, hplace']
  | case4 place part parts hplace hstay ih =>
    rw [FileTree.walk, (h.directory place).2 hplace]
    simpa only [if_pos hstay] using ih
  | case5 place parts hplace hbelow hstay =>
    rw [FileTree.walk, (h.directory place).2 hplace]
    simp only [if_neg hstay, if_pos hbelow, if_true]
  | case6 place parts hplace hbelow hstay ih =>
    rw [FileTree.walk, (h.directory place).2 hplace]
    simpa only [if_neg hstay, if_neg hbelow, if_true] using ih
  | case7 place part parts hplace hstay hup hnode =>
    rw [FileTree.walk, (h.directory place).2 hplace]
    simp only [if_neg hstay, if_neg hup, (h.nothing _).2 hnode]
  | case8 place part parts hplace hstay hup node hnode ih =>
    rw [FileTree.walk, (h.directory place).2 hplace]
    cases hnode' : t'.find? (place ++ [part]) with
    | none => rw [(h.nothing _).1 hnode'] at hnode; cases hnode
    | some node' => simpa only [if_neg hstay, if_neg hup] using ih

theorem Alike.resolve (h : t.Alike t') (path : String) : t'.resolve path = t.resolve path := by
  rw [FileTree.resolve, FileTree.resolve, FileTree.partsBelow?, FileTree.partsBelow?, h.root]
  split
  · rfl
  · exact h.walk [] _

theorem alike_set {bytes : List UInt8} (hplace : t.find? place = some (.file bytes))
    (bytes' : List UInt8) : t.Alike (t.set place (.file bytes')) := by
  have hne : place ≠ [] := by
    rintro rfl
    cases hplace
  refine ⟨rfl, fun p => ?_, fun p => ?_⟩
  all_goals
    rw [find?_set t hne]
    by_cases hp : p = place
    · simp [hp, hplace]
    · rw [if_neg hp]

/-! ## Directories that are made -/

theorem makeWay_extends {parts : List String} (h : t.makeWay place parts = some t') :
    t.Extends t' := by
  fun_induction FileTree.makeWay t place parts with
  | case1 t place hplace =>
    cases h
    exact .refl _
  | case2 | case4 | case8 => cases h
  | case3 t place part parts hplace hstay ih => exact ih h
  | case5 t place parts hplace hbelow hstay ih => exact ih h
  | case6 t place part parts hplace hstay hup here hnone ih =>
    exact (extends_set (Option.isNone_iff_eq_none.1 hnone) .directory).trans (ih h)
  | case7 t place part parts hplace hstay hup here hsome ih => exact ih h

theorem makeDirectories_extends {path : String} (h : t.makeDirectories path = some t') :
    t.Extends t' := by
  obtain ⟨parts, -, h⟩ := Option.bind_eq_some_iff.1 h
  exact makeWay_extends h

/-! ## Files that are read and written -/

theorem read_eq_ok_iff {path : String} {bytes : List UInt8} :
    t.read path = .ok bytes ↔
      ∃ place, t.resolve path = .ok place ∧ t.find? place = some (.file bytes) := by
  rw [read]
  cases t.resolve path with
  | error e => simp [bind, Except.bind]
  | ok place =>
    cases h : t.find? place with
    | none => simp [bind, Except.bind, h]
    | some node => cases node <;> simp [bind, Except.bind, h]

theorem Extends.read (h : t.Extends t') {path : String} {bytes : List UInt8}
    (hread : t.read path = .ok bytes) : t'.read path = .ok bytes := by
  obtain ⟨place, hresolve, hplace⟩ := read_eq_ok_iff.1 hread
  exact read_eq_ok_iff.2 ⟨place, h.resolve hresolve, h.find? hplace⟩

/-- What can happen when a file is changed: its bytes are, or it is made in its directory. -/
inductive Edited (t : FileTree) (path : String) (change : List UInt8 → List UInt8) :
    FileTree → Prop
  | changed {place : List String} {bytes : List UInt8} (there : t.resolve path = .ok place)
      (file : t.find? place = some (.file bytes)) :
      Edited t path change (t.set place (.file (change bytes)))
  | made {parts : List String} {name : String} {place : List String}
      (missing : t.resolve path = .error .missing)
      (path_eq : t.partsBelow? path = some (parts ++ [name])) (isName : Path.isName name = true)
      (there : t.walk [] parts = .ok place) (directory : t.find? place = some .directory) :
      Edited t path change (t.set (place ++ [name]) (.file (change [])))

theorem edited {path : String} {change : List UInt8 → List UInt8}
    (h : t.edit path change = some t') : Edited t path change t' := by
  unfold edit at h
  split at h
  · next place there =>
    split at h
    · next bytes file =>
      cases h
      exact .changed there file
    · cases h
  · cases h
  · next missing =>
    obtain ⟨parts, hparts, h⟩ := Option.bind_eq_some_iff.1 h
    obtain ⟨name, hlast, h⟩ := Option.bind_eq_some_iff.1 h
    split at h
    · next isName =>
      split at h
      · next place there =>
        split at h
        · next directory =>
          cases h
          refine .made missing ?_ isName there directory
          rw [hparts, List.dropLast_append_getLast? name hlast]
        · cases h
      · cases h
    · cases h

theorem find?_eq_none_of_missing {path : String} {parts : List String} {name : String}
    (missing : t.resolve path = .error .missing)
    (path_eq : t.partsBelow? path = some (parts ++ [name])) (isName : Path.isName name = true)
    (there : t.walk [] parts = .ok place) (directory : t.find? place = some .directory) :
    t.find? (place ++ [name]) = none := by
  rw [resolve, path_eq] at missing
  simp only [(Extends.refl t).walk_append there, walk_name directory isName] at missing
  split at missing
  · next hnone => exact Option.isNone_iff_eq_none.1 hnone
  · cases missing

/-- **A file that is written holds the changed bytes.** -/
theorem read_edit {path : String} {change : List UInt8 → List UInt8}
    (h : t.edit path change = some t') :
    (∃ bytes, t.read path = .ok bytes ∧ t'.read path = .ok (change bytes)) ∨
      t.resolve path = .error .missing ∧ t'.read path = .ok (change []) := by
  cases edited h with
  | @changed place bytes there file =>
    have hne : place ≠ [] := by
      rintro rfl
      cases file
    refine .inl ⟨bytes, read_eq_ok_iff.2 ⟨place, there, file⟩, read_eq_ok_iff.2 ⟨place, ?_, ?_⟩⟩
    · rw [(alike_set file _).resolve, there]
    · rw [find?_set t hne, if_pos rfl]
  | @made parts name place missing path_eq isName there directory =>
    have hnone := find?_eq_none_of_missing missing path_eq isName there directory
    have hextends := extends_set hnone (.file (change []))
    have hfile : (t.set (place ++ [name]) (.file (change []))).find? (place ++ [name]) =
        some (.file (change [])) := by
      rw [find?_set t (by simp), if_pos rfl]
    refine .inr ⟨missing, read_eq_ok_iff.2 ⟨place ++ [name], ?_, hfile⟩⟩
    rw [resolve, hextends.partsBelow?, path_eq]
    simp only [hextends.walk_append there, walk_name (hextends.find? directory) isName, hfile]
    rfl

/-! ## Computations -/

theorem run_bind {α β : Type} (act : StateM FileTree α) (next : α → StateM FileTree β)
    (t : FileTree) : (act >>= next) t = next (act t).1 (act t).2 := rfl

theorem run_attempt {α : Type} (change : FileTree → Option FileTree)
    (next : Bool → StateM FileTree α) (t : FileTree) :
    (attempt change >>= next) t =
      match change t with
      | some t' => next true t'
      | none => next false t := by
  change StateT.bind (attempt change) next t = _
  cases h : change t <;> simp [StateT.bind, attempt, h] <;> rfl

theorem run_readFile (path : String) (t : FileTree) :
    (readFile path : StateM FileTree _) t = (t.read path, t) := rfl

theorem run_canonical? (path : String) (t : FileTree) :
    (canonical? path : StateM FileTree _) t = (t.absolute? path, t) := rfl

end FileTree

end TaskTimer
