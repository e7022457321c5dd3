import DateFields.Numeral.Basic

/-!
# TOML tables

Values, and the tables that the lines of a document fill.  A table remembers how it came about,
because that decides what may still be added to it.

* `Toml.Table.assign` — a value under a dotted key;
* `Toml.Table.addSection` — the lines under a header, `[a.b]` or `[[a.b]]`.

Both fail when they would define something twice.
-/

namespace DateFields.Toml

/-- How a table came about. -/
inductive Form where
  /-- Between braces, or by a header that names it. -/
  | written
  /-- By a header that names a table inside it. -/
  | implied
  /-- By a dotted key that goes through it. -/
  | dotted
  deriving DecidableEq, Repr

/-- A value of a document. -/
inductive Value where
  /-- A string. -/
  | string (s : String)
  /-- An integer. -/
  | integer (n : Int)
  /-- A number that is no integer, infinities and the like included. -/
  | float
  /-- A truth value. -/
  | boolean (b : Bool)
  /-- A date, a time, or both. -/
  | moment
  /-- A list between brackets. -/
  | array (items : List Value)
  /-- A table; a table between braces is closed to everything outside them. -/
  | table (form : Form) (closed : Bool) (fields : List (String × Value))
  /-- The tables of a header in double brackets, in order. -/
  | tables (elements : List (List (String × Value)))
  deriving Inhabited

/-- The fields of a table. -/
abbrev Fields := List (String × Value)

/-- A table that is open to additions. -/
structure Table where
  /-- How it came about. -/
  form : Form
  /-- What is in it. -/
  fields : Fields

/-- An open table as a value. -/
def Table.value (t : Table) : Value := .table t.form false t.fields

/-- The fields with another value under a key, or with a new key. -/
def Fields.put (key : String) (v : Value) : Fields → Fields
  | [] => [(key, v)]
  | (k, w) :: rest => if k = key then (k, v) :: rest else (k, w) :: Fields.put key v rest

namespace Table

/-- A table with another value under a key. -/
def put (t : Table) (key : String) (v : Value) : Table := { t with fields := t.fields.put key v }

/-- Change the table that a path of keys leads to.  Tables that are missing on the way come about
in the given form.  A dotted key goes only through tables that no header and no braces define. -/
def change (form : Form) (f : Table → Option Table) : List String → Table → Option Table
  | [], t => f t
  | key :: path, t =>
    match t.fields.lookup key with
    | none => do return t.put key (← change form f path ⟨form, []⟩).value
    | some (.table inner false fields) =>
      if form = .dotted && inner = .written then none
      else do return t.put key (← change form f path ⟨inner, fields⟩).value
    | some (.tables elements) =>
      match elements.getLast? with
      | none => none
      | some last => do
        let last ← change form f path ⟨.written, last⟩
        return t.put key (.tables (elements.dropLast ++ [last.fields]))
    | some _ => none

/-- Put a value under a new key of a table that the way there leads to: through dotted keys to a
table that dotted keys made, and without any to one that they did not make. -/
def insertNew (straight : Bool) (key : String) (v : Value) (t : Table) : Option Table :=
  if straight == decide (t.form = .dotted) then none
  else match t.fields.lookup key with
    | none => some (t.put key v)
    | some _ => none

/-- A value under a dotted key, told by the keys on the way and the last one. -/
def assign (t : Table) (path : List String) (key : String) (v : Value) : Option Table :=
  change .dotted (insertNew path.isEmpty key v) path t

/-- Values under dotted keys, in order. -/
def assignAll (t : Table) (lines : List (List String × String × Value)) : Option Table :=
  lines.foldlM (fun t l => t.assign l.1 l.2.1 l.2.2) t

/-- The table that braces enclose. -/
def between (lines : List (List String × String × Value)) : Option Value :=
  ((⟨.written, []⟩ : Table).assignAll lines).map fun t => .table .written true t.fields

/-- The lines under a header in single brackets.  The table may be there already when headers of
tables inside it came first. -/
def addTable (path : List String) (key : String) (lines : List (List String × String × Value))
    (root : Table) : Option Table :=
  root |> change .implied (fun t => do
    let known ← match t.fields.lookup key with
      | none => some []
      | some (.table .implied false fields) => some fields
      | some _ => none
    return t.put key (← (⟨.written, known⟩ : Table).assignAll lines).value) path

/-- The lines under a header in double brackets: one more table in the list of that name. -/
def addElement (path : List String) (key : String) (lines : List (List String × String × Value))
    (root : Table) : Option Table :=
  root |> change .implied (fun t => do
    let known ← match t.fields.lookup key with
      | none => some []
      | some (.tables elements) => some elements
      | some _ => none
    let element ← (⟨.written, []⟩ : Table).assignAll lines
    return t.put key (.tables (known ++ [element.fields]))) path

end Table

end DateFields.Toml
