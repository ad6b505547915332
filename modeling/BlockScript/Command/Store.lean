/-
  BlockScript — files as a command sees them.

  A path is the names on the way to a file; `.` and repeated slashes are left
  out of it, `..` is kept.  A store holds the texts of files by their paths,
  the relative ones under a common directory.  Names lead to a file only
  through directories that exist, and never out of the common directory.

  * `Path`: a path, `Path.of` of a text, `Path.text` as shown;
  * `Store.resolve?`: where a path leads;
  * `Store.get?`, `Store.put`: the texts of files;
  * `Store.changes`: the files of one store that are new or different in
    another.
-/
namespace BlockScript

/-! ## Paths -/

/-- A path: its root, which is empty for a relative path, and its names. -/
structure Path where
  root : String
  names : List String
  deriving DecidableEq

/-- The pieces of a text between slashes, given the characters of the current
    one in reverse order. -/
def splitSlashes (current : List Char) : List Char → List String
  | [] => [String.ofList current.reverse]
  | '/' :: rest => String.ofList current.reverse :: splitSlashes [] rest
  | c :: rest => splitSlashes (c :: current) rest

/-- The root of a path: two slashes in front stay, more or fewer count as
    one. -/
def rootOf : List Char → String
  | '/' :: '/' :: '/' :: _ => "/"
  | '/' :: '/' :: _ => "//"
  | '/' :: _ => "/"
  | _ => ""

/-- The path that a text names. -/
def Path.of (s : String) : Path :=
  ⟨rootOf s.toList, (splitSlashes [] s.toList).filter fun name => name ≠ "" && name ≠ "."⟩

/-- A path as it is shown. -/
def Path.text (p : Path) : String :=
  if p.root = "" && p.names.isEmpty then "." else p.root ++ String.intercalate "/" p.names

/-- Names with an ending added to the last one. -/
def addEnding (ending : String) : List String → List String
  | [] => []
  | [name] => [name ++ ending]
  | name :: rest => name :: addEnding ending rest

/-- A path with an ending added to its last name. -/
def Path.withEnding (p : Path) (ending : String) : Path :=
  { p with names := addEnding ending p.names }

/-! ## Stores -/

/-- The texts of files, by their paths. -/
abbrev Store := List (Path × String)

/-- The text of the file with a path. -/
def Store.find? (path : Path) : Store → Option String
  | [] => none
  | (p, text) :: rest => if p = path then some text else Store.find? path rest

/-- Give the file with a path a text. -/
def Store.put (path : Path) (text : String) : Store → Store
  | [] => [(path, text)]
  | (p, t) :: rest => if p = path then (p, text) :: rest else (p, t) :: Store.put path text rest

/-- Whether names lead to a directory: the common one, or one on the way to a
    file. -/
def Store.isDirectory (store : Store) (names : List String) : Bool :=
  names.isEmpty || store.any fun (p, _) =>
    p.root = "" && names.isPrefixOf p.names && p.names ≠ names

/-- Where names lead from a directory on. -/
def Store.walk? (store : Store) (here : List String) : List String → Option (List String)
  | [] => some here
  | name :: rest =>
    if !store.isDirectory here then none
    else if name = ".." then
      if here.isEmpty then none else store.walk? here.dropLast rest
    else store.walk? (here ++ [name]) rest

/-- Where a path leads: to the file that has it, or else, if it is relative, to
    where its names lead. -/
def Store.resolve? (store : Store) (path : Path) : Option Path :=
  if (store.find? path).isSome then some path
  else if path.root = "" then (store.walk? [] path.names).map (Path.mk "")
  else none

/-- The place and the text of the file that a path leads to. -/
def Store.get? (store : Store) (path : Path) : Option (Path × String) := do
  let place ← store.resolve? path
  let text ← store.find? place
  return (place, text)

/-- The files that are new or different after a change, with their paths, in
    the order of these. -/
def Store.changes (before after : Store) : List (String × String) :=
  let changed := after.filter fun (path, text) => before.find? path ≠ some text
  (changed.map fun (path, text) => (path.text, text)).mergeSort fun a b => decide (a.1 ≤ b.1)

end BlockScript
