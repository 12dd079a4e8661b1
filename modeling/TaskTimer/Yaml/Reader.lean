import TaskTimer.Yaml.Basic
import TaskTimer.Yaml.Scalar

/-!
# Reading YAML

A text is read lexeme by lexeme beside the collections that are still open. The column in which a
lexeme starts tells which blocks go on and which have ended. Tags, anchors, directives, scalars in
blocks and keys that are collections are not supported; a text with one of them is refused.

* `Cursor`, `Lexeme`: a position, and what stands there.
* `Frame`, `Reader`: an open collection, and the state of the reader.
* `Yaml.read`: the value of a text with at most one document.
-/

namespace TaskTimer.Yaml

/-! ## Lexemes -/

/-- A position in a text. -/
structure Cursor where
  rest : List Char
  column : Nat := 0
  /-- A key or a dash may come next. -/
  fresh : Bool := true
  deriving DecidableEq, Repr

/-- The least part of a text with a meaning of its own. -/
inductive Lexeme where
  | finish
  | documentStart
  | documentEnd
  | dash
  | comma
  | openList
  | closeList
  | openMap
  | closeMap
  | scalar (s : Scalar)
  /-- A scalar with the colon behind it. -/
  | key (s : Scalar)
  deriving DecidableEq, Repr

/-- The position of the next lexeme, behind blanks, line breaks and comments. Outside brackets a tab
does not indent. -/
def skip (inFlow : Bool) : Bool → Nat → Bool → List Char → Cursor
  | _, column, fresh, [] => { rest := [], column := column, fresh := fresh }
  | inComment, column, fresh, c :: cs =>
    if isBreak c then skip inFlow false 0 (fresh || !inFlow) cs
    else if inComment then skip inFlow true (column + 1) fresh cs
    else if c == ' ' || (c == '\t' && (inFlow || !fresh)) then
      skip inFlow false (column + 1) fresh cs
    else if c == '#' then skip inFlow true (column + 1) fresh cs
    else { rest := c :: cs, column := column, fresh := fresh }

/-- The greatest length of a key. -/
def maxKeyLength : Nat := 1024

/-- The cursor behind a lexeme. -/
def Cursor.behind (c : Cursor) (rest : List Char) (fresh : Bool) : Cursor :=
  let passed := c.rest.take (c.rest.length - rest.length)
  { rest := rest, column := columnAfter c.column passed, fresh := fresh }

/-- A scalar that ends where `rest` starts, which is a key if a colon follows in the same line. -/
def scalarOrKey (inFlow : Bool) (c : Cursor) (s : Scalar) (rest : List Char) (crossed : Bool) :
    Lexeme × Cursor :=
  let length := c.rest.length - rest.length
  match rest.dropWhile isSpace with
  | ':' :: afterColon =>
    if c.fresh && !crossed && length ≤ maxKeyLength && (inFlow || startsWithGap afterColon) then
      (.key s, c.behind afterColon false)
    else (.scalar s, c.behind rest crossed)
  | _ => (.scalar s, c.behind rest crossed)

/-- The character cannot start a scalar without quotation marks. -/
def isReserved (c : Char) : Bool :=
  c ∈ ['-', '?', ':', ',', '[', ']', '{', '}', '#', '&', '*', '!', '|', '>', '\x27', '"', '%', '@',
    '\x60']

/-- A scalar without quotation marks may start here. -/
def startsPlain (inFlow : Bool) : List Char → Bool
  | [] => false
  | c :: cs =>
    if c == '-' then !startsWithGap cs
    else if c == '?' || c == ':' then !inFlow && !startsWithGap cs
    else !isGap c && !isReserved c

/-- The dash of a list item comes first. -/
def startsWithDash : List Char → Bool
  | '-' :: cs => startsWithGap cs
  | _ => false

/-- The lexeme at a cursor, and the cursor behind it. -/
def Cursor.lexeme (c : Cursor) (inFlow : Bool) (limit : Nat) : Option (Lexeme × Cursor) :=
  match c.rest with
  | [] => some (.finish, c)
  | d :: cs =>
    if c.column == 0 && startsWithMark c.rest then
      some (if d == '-' then .documentStart else .documentEnd, c.behind (cs.drop 2) false)
    else if d == '[' then some (.openList, c.behind cs true)
    else if d == ']' then some (.closeList, c.behind cs false)
    else if d == '{' then some (.openMap, c.behind cs true)
    else if d == '}' then some (.closeMap, c.behind cs false)
    else if d == ',' then some (.comma, c.behind cs true)
    else if startsWithDash c.rest then some (.dash, c.behind cs true)
    else if d == '"' || d == '\x27' then
      (readQuoted (d == '"') cs).map fun (text, rest) =>
        let passed := c.rest.take (c.rest.length - rest.length)
        scalarOrKey inFlow c ⟨.ofList text, false⟩ rest (passed.any isBreak)
    else if startsPlain inFlow c.rest then
      (readPlain inFlow limit c.column c.rest).map fun s =>
        scalarOrKey inFlow c ⟨.ofList s.text, true⟩ s.rest s.crossed
    else none

/-! ## Open collections -/

/-- A collection that is still open, with its items in reverse order. -/
inductive Frame where
  /-- A map in a block, and the key whose value comes next. -/
  | blockMap (column : Nat) (entries : List (Yaml × Yaml)) (key : Option Yaml)
  /-- A list in a block, or right below a key of the same column. The item behind the last dash may
  still come. -/
  | blockList (column : Nat) (belowKey : Bool) (items : List Yaml) (waiting : Bool)
  /-- A map between brackets. An entry may come next, or the value of a key. -/
  | flowMap (entries : List (Yaml × Yaml)) (key : Option Yaml) (ready : Bool)
  /-- A list between brackets. -/
  | flowList (items : List Yaml) (ready : Bool)
  /-- A map of one entry as an item of a list between brackets. -/
  | pair (key : Yaml)
  deriving Repr

/-- The state of a reader. -/
structure Reader where
  /-- The open collections, innermost first. -/
  frames : List Frame := []
  /-- The value of the document. -/
  root : Option Yaml := none
  /-- The start of the document has been marked. -/
  started : Bool := false
  /-- The end of the document has been marked. -/
  ended : Bool := false
  deriving Repr

namespace Reader

/-- The innermost collection is written between brackets. -/
def inFlow (r : Reader) : Bool :=
  match r.frames with
  | .flowMap .. :: _ | .flowList .. :: _ | .pair .. :: _ => true
  | _ => false

/-- The column of the innermost block, or of the one around the brackets. -/
def indent? (r : Reader) : Option Nat :=
  r.frames.findSome? fun
    | .blockMap column .. | .blockList column .. => some column
    | _ => none

/-- Puts a value where the reader expects one. -/
def place (r : Reader) (v : Yaml) : Option Reader :=
  match r.frames with
  | [] => if r.root.isSome || r.ended then none else some { r with root := some v }
  | .blockMap column entries (some k) :: fs =>
    some { r with frames := .blockMap column ((k, v) :: entries) none :: fs }
  | .blockList column belowKey items true :: fs =>
    some { r with frames := .blockList column belowKey (v :: items) false :: fs }
  | .flowMap entries (some k) _ :: fs =>
    some { r with frames := .flowMap ((k, v) :: entries) none false :: fs }
  | .flowMap entries none true :: fs =>
    some { r with frames := .flowMap ((v, nothing) :: entries) none false :: fs }
  | .flowList items true :: fs => some { r with frames := .flowList (v :: items) false :: fs }
  | .pair k :: .flowList items _ :: fs =>
    some { r with frames := .flowList (.map [(k, v)] :: items) false :: fs }
  | _ => none

/-- Opens a collection. -/
def push (r : Reader) (f : Frame) : Reader := { r with frames := f :: r.frames }

/-- Where a value was expected and none came, nothing is written. -/
def settle (r : Reader) : Option Reader :=
  match r.frames with
  | .blockMap _ _ (some _) :: _ | .blockList _ _ _ true :: _ | .flowMap _ (some _) _ :: _
  | .pair _ :: _ => r.place nothing
  | _ => some r

/-- Ends the innermost block. -/
def endBlock (r : Reader) : Option Reader := do
  let r ← r.settle
  match r.frames with
  | .blockMap _ entries _ :: fs => place { r with frames := fs } (.map entries.reverse)
  | .blockList _ _ items _ :: fs => place { r with frames := fs } (.list items.reverse)
  | _ => none

/-- Ends up to `n` blocks, as long as the innermost one `ends`. -/
def endBlocks (ends : Frame → Bool) : Nat → Reader → Option Reader
  | 0, r => some r
  | n + 1, r =>
    match r.frames with
    | [] => some r
    | f :: _ => if ends f then r.endBlock.bind (endBlocks ends n) else some r

/-- Ends the blocks to the right of a column, and a list below a key in the column unless a dash
comes next. -/
def dedent (r : Reader) (column : Nat) (dash : Bool) : Option Reader :=
  let ends : Frame → Bool
    | .blockMap c .. => column < c
    | .blockList c belowKey .. => column < c || (column == c && belowKey && !dash)
    | _ => false
  endBlocks ends r.frames.length r

/-- Ends all blocks. Brackets must not be open. -/
def endDocument (r : Reader) : Option Reader := do
  let r ← endBlocks (fun _ => true) r.frames.length r
  if r.frames.isEmpty then some r else none

/-! ## Lexemes one by one -/

/-- A dash starts an item of the list in its column. -/
def acceptDash (r : Reader) (column : Nat) : Option Reader :=
  match r.frames with
  | .blockList c belowKey items waiting :: fs =>
    if c < column then
      if waiting then some (r.push (.blockList column false [] true)) else none
    else
      let items := if waiting then nothing :: items else items
      some { r with frames := .blockList c belowKey items true :: fs }
  | .blockMap c _ key :: _ =>
    if key.isSome then some (r.push (.blockList column (column == c) [] true)) else none
  | [] => some (r.push (.blockList column false [] true))
  | _ => none

/-- A key outside brackets starts an entry of the map in its column. -/
def acceptBlockKey (r : Reader) (column : Nat) (k : Yaml) : Option Reader :=
  if r.indent?.all (· < column) then some (r.push (.blockMap column [] (some k)))
  else do
    let r ← r.settle
    match r.frames with
    | .blockMap c entries none :: fs =>
      some { r with frames := .blockMap c entries (some k) :: fs }
    | _ => none

/-- A key between brackets. -/
def acceptFlowKey (r : Reader) (k : Yaml) : Option Reader :=
  match r.frames with
  | .flowMap entries none true :: fs =>
    some { r with frames := .flowMap entries (some k) true :: fs }
  | .flowList _ true :: _ => some (r.push (.pair k))
  | _ => none

/-- A comma between brackets. -/
def acceptComma (r : Reader) : Option Reader := do
  let r ← r.settle
  match r.frames with
  | .flowMap entries none false :: fs => some { r with frames := .flowMap entries none true :: fs }
  | .flowList items false :: fs => some { r with frames := .flowList items true :: fs }
  | _ => none

/-- A closing bracket. -/
def acceptClose (r : Reader) (isMap : Bool) : Option Reader := do
  let r ← r.settle
  match r.frames, isMap with
  | .flowMap entries _ _ :: fs, true => place { r with frames := fs } (.map entries.reverse)
  | .flowList items _ :: fs, false => place { r with frames := fs } (.list items.reverse)
  | _, _ => none

/-- Takes the next lexeme, which stands in a column. In the column of an open block only keys and
dashes go on with it. -/
def accept (r : Reader) (l : Lexeme) (column : Nat) (fresh : Bool) : Option Reader :=
  let inFlow := r.inFlow
  let misplaced := !inFlow && fresh && r.indent? == some column
  match l with
  | .finish => r.endDocument
  | .documentStart => do
    let r ← r.endDocument
    if r.started || r.root.isSome then none else some { r with started := true }
  | .documentEnd => do
    let r ← r.endDocument
    if r.started || r.root.isSome then some { r with started := true, ended := true } else none
  | .dash => if inFlow || !fresh then none else r.acceptDash column
  | .key s => if inFlow then r.acceptFlowKey (.scalar s) else r.acceptBlockKey column (.scalar s)
  | .scalar s => if misplaced then none else r.place (.scalar s)
  | .openList => if misplaced then none else some (r.push (.flowList [] true))
  | .openMap => if misplaced then none else some (r.push (.flowMap [] none true))
  | .closeList => r.acceptClose false
  | .closeMap => r.acceptClose true
  | .comma => r.acceptComma

/-- Reads from a cursor to the end of the text. -/
def run (r : Reader) (c : Cursor) : Option Reader := do
  let here := skip r.inFlow false c.column c.fresh c.rest
  let r ← if r.inFlow then some r else r.dedent here.column (startsWithDash here.rest)
  let (l, after) ← here.lexeme r.inFlow (r.indent?.elim 0 (· + 1))
  let r ← r.accept l here.column here.fresh
  if after.rest.length < c.rest.length then r.run after
  else if l = .finish then some r
  else none
termination_by c.rest.length

end Reader

/-! ## Texts -/

/-- The text with a line feed for every other break that stands for one. -/
def unifyBreaks : List Char → List Char
  | '\r' :: '\n' :: cs => '\n' :: unifyBreaks cs
  | c :: cs => (if c == '\r' || c == '\u0085' then '\n' else c) :: unifyBreaks cs
  | [] => []

/-- The character may occur in a text. -/
def isPrintable (c : Char) : Bool :=
  let n := c.toNat
  n == 0x09 || n == 0x0A || n == 0x0D || (0x20 ≤ n && n ≤ 0x7E) || n == 0x85 ||
    (0xA0 ≤ n && n ≤ 0xFFFD) || 0x10000 ≤ n

/-- The value of a text. A text without a document stands for nothing. -/
def read (text : List Char) : Option Yaml :=
  let text := if text.head? == some '\uFEFF' then text.drop 1 else text
  if text.all isPrintable then
    (Reader.run {} { rest := unifyBreaks text }).map fun r => r.root.getD nothing
  else none

end TaskTimer.Yaml
