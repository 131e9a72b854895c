import Arith.Toml.Scalar

/-!
# TOML documents

A document is read statement by statement into one table. Beside the table it is kept which tables
have been defined for good and which values are closed, since a later statement may extend the
former only in part and the latter not at all.
-/

namespace Arith.Toml

/-- Why a text is not read. -/
inductive Refusal where
  | malformed
  | integerTooLong
deriving DecidableEq

/-- What a reader has found; a text that it finds nothing in is malformed. -/
def required {α : Type} (found : Option α) : Except Refusal α :=
  match found with
  | some a => .ok a
  | none => .error .malformed

/-! ## Tables within tables -/

/-- Changes the table that a key leads to, making tables on the way where there are none. Lists of
tables are entered at their last table if `throughLists` is set; any other value is in the way. -/
def alter? (throughLists : Bool) (f : Table → Option Table) : Key → Table → Option Table
  | [], t => f t
  | part :: key, t =>
    match t.get? part with
    | none => (alter? throughLists f key []).map fun sub => t.put part (.table sub)
    | some (.table sub) => (alter? throughLists f key sub).map fun sub => t.put part (.table sub)
    | some (.list items) =>
      match throughLists, items.getLast? with
      | true, some (.table sub) =>
        (alter? throughLists f key sub).map fun sub =>
          t.put part (.list (items.dropLast ++ [.table sub]))
      | _, _ => none
    | some _ => none

/-- Adds a new key to a table. -/
def define? (name : String) (value : Datum) (t : Table) : Option Table :=
  match t.get? name with
  | some _ => none
  | none => some (t.put name value)

/-- Adds an empty table to a list of tables, or starts one. -/
def appendTable? (name : String) (t : Table) : Option Table :=
  match t.get? name with
  | some (.list items) => some (t.put name (.list (items ++ [.table []])))
  | some _ => none
  | none => some (t.put name (.list [.table []]))

/-- Lists and tables written inline are closed as soon as they are read. -/
def isClosed : Datum → Bool
  | .list _ => true
  | .table _ => true
  | _ => false

/-! ## Values -/

/-- Adds an entry to an inline table. An entry below an inline value that is already in the table, as
`closed` tells, is refused. -/
def extendInline? (closed : List Key) (key : Key) (value : Datum) (t : Table) : Option Table :=
  if closed.any (·.isPrefixOf key) then none
  else alter? false (define? (key.getLastD "") value) key.dropLast t

mutual

def value : Nat → List Char → Except Refusal (Datum × List Char)
  | 0, _ => .error .malformed
  | fuel + 1, cs =>
    match cs with
    | '[' :: cs => do
      match ← required (skipFiller? cs) with
      | ']' :: rest => .ok (.list [], rest)
      | rest =>
        let (items, rest) ← items fuel rest
        .ok (.list items, rest)
    | '\x7b' :: cs =>
      match skipSpace cs with
      | '\x7d' :: rest => .ok (.table [], rest)
      | rest => do
        let (t, rest) ← entries fuel [] [] rest
        .ok (.table t, rest)
    | cs => if isTooLong cs then .error .integerTooLong else required (scalar? cs)

/-- The items of a list up to its closing bracket; a comma may follow the last. -/
def items : Nat → List Char → Except Refusal (List Datum × List Char)
  | 0, _ => .error .malformed
  | fuel + 1, cs => do
    let (item, rest) ← value fuel cs
    match ← required (skipFiller? rest) with
    | ']' :: rest => .ok ([item], rest)
    | ',' :: rest =>
      match ← required (skipFiller? rest) with
      | ']' :: rest => .ok ([item], rest)
      | rest =>
        let (items, rest) ← items fuel rest
        .ok (item :: items, rest)
    | _ => .error .malformed

/-- The entries of an inline table up to its closing brace. -/
def entries : Nat → List Key → Table → List Char → Except Refusal (Table × List Char)
  | 0, _, _, _ => .error .malformed
  | fuel + 1, closed, t, cs => do
    let (key, rest) ← required (key? cs)
    let '=' :: rest := rest | .error .malformed
    let (value, rest) ← value fuel (skipSpace rest)
    let t ← required (extendInline? closed key value t)
    match skipSpace rest with
    | '\x7d' :: rest => .ok (t, rest)
    | ',' :: rest =>
      entries fuel (if isClosed value then key :: closed else closed) t (skipSpace rest)
    | _ => .error .malformed

end

/-! ## Statements -/

/-- A document as far as it has been read: its table, the key in the last header, the tables that are
defined, the keys that will be when the next header comes, and the closed values. -/
structure Document where
  root : Table
  header : Key
  defined : List Key
  dottedKeys : List Key
  closed : List Key

namespace Document

def empty : Document := ⟨[], [], [], [], []⟩

def isDefined (d : Document) (key : Key) : Bool := d.defined.contains key

/-- Whether a key lies at or below a closed value. -/
def isClosed (d : Document) (key : Key) : Bool := d.closed.any (·.isPrefixOf key)

/-- Comes to a new header: the tables that dotted keys made can no longer be opened. -/
def settle (d : Document) : Document :=
  { d with defined := d.dottedKeys ++ d.defined, dottedKeys := [] }

/-- Opens a table by its header. -/
def openTable? (d : Document) (key : Key) : Option Document := do
  if d.isDefined key || d.isClosed key then none
  let root ← alter? true some key d.root
  some { d with root, header := key, defined := key :: d.defined }

/-- Opens a new table at the end of a list. What was known of the tables below the list is forgotten,
since it was about the table before. -/
def openItem? (d : Document) (key : Key) : Option Document := do
  if d.isClosed key then none
  let root ← alter? true (appendTable? (key.getLastD "")) key.dropLast d.root
  let outside := fun known : Key => !key.isPrefixOf known
  some { d with
    root
    header := key
    defined := key :: d.defined.filter outside
    closed := d.closed.filter outside }

/-- The keys of the tables that a dotted key passes through, below the header. -/
def passed (d : Document) (key : Key) : List Key :=
  (List.range (key.length - 1)).map fun n => d.header ++ key.take (n + 1)

/-- Gives a key below the header its value. -/
def assign? (d : Document) (key : Key) (value : Datum) : Option Document := do
  let passed := d.passed key
  let parent := d.header ++ key.dropLast
  if passed.any d.isDefined || d.isClosed parent then none
  let root ← alter? true (define? (key.getLastD "") value) parent d.root
  some { d with
    root
    dottedKeys := passed ++ d.dottedKeys
    closed := if Toml.isClosed value then (d.header ++ key) :: d.closed else d.closed }

/-- Reads one statement; the text starts with it. -/
def statement (d : Document) (cs : List Char) : Except Refusal (Document × List Char) :=
  match cs with
  | '[' :: '[' :: cs => do
    let (key, rest) ← required (key? (skipSpace cs))
    let d ← required (d.settle.openItem? key)
    let ']' :: ']' :: rest := rest | .error .malformed
    .ok (d, rest)
  | '[' :: cs => do
    let (key, rest) ← required (key? (skipSpace cs))
    let d ← required (d.settle.openTable? key)
    let ']' :: rest := rest | .error .malformed
    .ok (d, rest)
  | cs => do
    let (key, rest) ← required (key? cs)
    let '=' :: rest := rest | .error .malformed
    let (value, rest) ← value (rest.length + 1) (skipSpace rest)
    let d ← required (d.assign? key value)
    .ok (d, rest)

/-- Reads line by line; each line holds at most one statement and a comment. -/
def lines : Nat → Document → List Char → Except Refusal Document
  | 0, _, _ => .error .malformed
  | fuel + 1, d, cs => do
    let (d, rest) ← match skipSpace cs with
      | [] => .ok (d, [])
      | '\n' :: rest => .ok (d, '\n' :: rest)
      | '#' :: rest => .ok (d, '#' :: rest)
      | rest => d.statement rest
    match ← required (skipComment? (skipSpace rest)) with
    | [] => .ok d
    | '\n' :: rest => lines fuel d rest
    | _ => .error .malformed

end Document

def parse (source : String) : Except Refusal Table :=
  let cs := joinLineEnds source.toList
  (Document.lines (cs.length + 1) .empty cs).map Document.root

end Arith.Toml
