/-
  Placement/Toml/Document.lean
  ============================
  **Reading TOML documents.**

  A document is read line by line: a header says which table grows from there on, and a
  line with a key adds one value to it.  Values may nest up to a fixed depth.
-/
import Placement.Toml.Literal

namespace Placement

namespace Toml

/-- Values nest, and keys have parts, up to fewer than this. -/
def maxDepth : Nat := 80

/-! ### Keys -/

def isBare (c : Char) : Bool := c.isAlphanum || c = '_' || c = '-'

def simpleKey : Reader String
  | '"' :: cs => (basicString cs).map fun (s, cs) => (String.ofList s, cs)
  | '\'' :: cs => (literalString cs).map fun (s, cs) => (String.ofList s, cs)
  | cs =>
    let bare := cs.takeWhile isBare
    if bare = [] then none else some (String.ofList bare, cs.dropWhile isBare)

/-- The parts of a key with points between them, for at most `fuel` parts. -/
def keyParts : (fuel : Nat) → Reader (List String)
  | 0, _ => none
  | fuel + 1, cs => do
    let (part, cs) ← simpleKey (skipBlanks cs)
    match skipBlanks cs with
    | '.' :: cs => (keyParts fuel cs).map fun (parts, cs) => (part :: parts, cs)
    | cs => some ([part], cs)

/-- A key with blanks around it: all parts but the last, and the last. -/
def key : Reader (List String × String) := fun cs => do
  let (parts, cs) ← keyParts (maxDepth - 1) cs
  let last ← parts.getLast?
  return ((parts.dropLast, last), cs)

/-! ### Values -/

/-- The values of an array up to its end, for at most `fuel` of them. -/
def arrayItems (item : Reader Node) : (fuel : Nat) → Reader (List Node)
  | 0, _ => none
  | fuel + 1, cs =>
    match skipFiller cs with
    | ']' :: cs => some ([], cs)
    | cs => do
      let (node, cs) ← item cs
      match skipFiller cs with
      | ',' :: cs => (arrayItems item fuel cs).map fun (nodes, cs) => (node :: nodes, cs)
      | ']' :: cs => some ([node], cs)
      | _ => none

/-- The pairs of a table in braces up to its end, added to `entries`, for at most `fuel`
    of them. -/
def inlinePairs (item : Reader Node) : (fuel : Nat) → Entries → Reader Entries
  | 0, _, _ => none
  | fuel + 1, entries, cs => do
    let ((path, last), cs) ← key cs
    let cs ← mark? '=' cs
    let (node, cs) ← item (skipBlanks cs)
    let entries ← entries.addValue path last node .header
    match skipBlanks cs with
    | ',' :: cs => inlinePairs item fuel entries cs
    | '}' :: cs => some (entries, cs)
    | _ => none

/-- A value that nests at most to the given depth. -/
def value : (depth : Nat) → Reader Node
  | depth + 1, '[' :: cs =>
    (arrayItems (value depth) (cs.length + 1) cs).map fun (items, cs) => (.array items, cs)
  | depth + 1, '{' :: cs =>
    match skipBlanks cs with
    | '}' :: cs => some (.inlineTable [], cs)
    | cs =>
      (inlinePairs (value depth) (cs.length + 1) [] cs).map fun (entries, cs) =>
        (.inlineTable entries, cs)
  | _, cs => scalar cs

/-! ### Lines -/

/-- A document in the making. -/
structure Draft where
  root : Entries
  /-- The header of the table that is growing. -/
  current : List String

/-- One line that is not empty. -/
def line (draft : Draft) : Reader Draft
  | '[' :: '[' :: cs => do
    let ((path, last), cs) ← key cs
    let cs ← mark? ']' cs
    let cs ← mark? ']' cs
    let cs ← restOfLine? cs
    let root ← draft.root.openElement path last
    return (⟨root, path ++ [last]⟩, cs)
  | '[' :: cs => do
    let ((path, last), cs) ← key cs
    let cs ← mark? ']' cs
    let cs ← restOfLine? cs
    let root ← draft.root.openTable path last
    return (⟨root, path ++ [last]⟩, cs)
  | cs => do
    let ((path, last), cs) ← key cs
    let cs ← mark? '=' cs
    let (node, cs) ← value (maxDepth - 1) (skipBlanks cs)
    let cs ← restOfLine? cs
    let root ← draft.root.addAlong .passage (Entries.addValue path last node) draft.current .header
    return ({ draft with root }, cs)

/-- All lines, for at most `fuel` of them. -/
def lines : (fuel : Nat) → Draft → List Char → Option Entries
  | 0, _, _ => none
  | fuel + 1, draft, cs =>
    match skipFiller cs with
    | [] => some draft.root
    | cs =>
      match restOfLine? cs with
      | some [] => some draft.root
      | _ => do
        let (draft, cs) ← line draft cs
        lines fuel draft cs

/-- The table that a document stands for, if it is one.  A byte order mark in front of it
    is skipped. -/
def parse? (document : String) : Option Entries :=
  let cs := match document.toList with
    | '\uFEFF' :: cs => cs
    | cs => cs
  lines (cs.length + 1) ⟨[], []⟩ cs

end Toml

end Placement
