/-
  BlockScript — programs as JSON documents.

  A node is an object with a `type` field that names its construct and one
  field for each of its parts; an absent node is null.  A program is an object
  of type `Program` whose `body` lists its statements.

  * `Value.toJson`, `Node.toJson`, `programToJson`: writing programs;
  * `DraftValue.document`, `Draft.document`, `programDocument`: the same for
    drafts, whose data a document holds as they are;
  * `DraftValue.load`, `Draft.load`, `loadDrafts`: reading.  Parts are read in
    the order in which they are written, other fields are ignored, and the first
    part that cannot be read is reported (`LoadError`);
  * `loadValue`, `loadProgram`: reading what has strings for all its texts.
-/
import BlockScript.Draft
import BlockScript.Number.Numeral

namespace BlockScript

/-! ## Writing -/

/-- A value as an object. -/
def Value.toJson : Value → Json
  | .number x => .obj [("kind", .str "Number"), ("value", .float x)]
  | .boolean b => .obj [("kind", .str "Boolean"), ("value", .bool b)]
  | .string s => .obj [("kind", .str "String"), ("value", .str s)]
  | .null => .obj [("kind", .str "Null")]

mutual

/-- A node as an object. -/
def Node.toJson : Node → Json
  | .literal v => .obj [("type", .str "Literal"), ("value", v.toJson)]
  | .var x => .obj [("type", .str "Variable"), ("name", .str x)]
  | .unary op e => .obj [("type", .str "UnaryOp"), ("op", .str op), ("operand", e.toJson)]
  | .binary op l r =>
    .obj [("type", .str "BinaryOp"), ("op", .str op), ("left", l.toJson), ("right", r.toJson)]
  | .expr e => .obj [("type", .str "ExprStmt"), ("expr", e.toJson)]
  | .assign x e => .obj [("type", .str "Assign"), ("name", .str x), ("value", e.toJson)]
  | .print e => .obj [("type", .str "PrintStmt"), ("expr", e.toJson)]
  | .cond c t e => .obj [("type", .str "IfStmt"), ("condition", c.toJson),
      ("then_branch", t.toJson), ("else_branch", e.toJson)]
  | .loop c b => .obj [("type", .str "WhileStmt"), ("condition", c.toJson), ("body", b.toJson)]
  | .block ss => .obj [("type", .str "Block"), ("statements", .arr (nodesToJson ss))]
  | .absent => .null

/-- The nodes of a list as objects. -/
def nodesToJson : List Node → List Json
  | [] => []
  | s :: rest => s.toJson :: nodesToJson rest

end

/-- A program as a document. -/
def programToJson (program : List Node) : Json :=
  .obj [("type", .str "Program"), ("body", .arr (nodesToJson program))]

/-! ## Writing drafts -/

/-- An object with a tag and parts. -/
def tagged (tag word : String) (parts : List (String × Raw)) : Raw :=
  .obj ((.of tag, .str (.of word)) :: parts.map fun (key, v) => (.of key, v))

/-- A value as an object. -/
def DraftValue.document : DraftValue → Raw
  | .number x => tagged "kind" "Number" [("value", .float x)]
  | .boolean b => tagged "kind" "Boolean" [("value", .bool b)]
  | .string content => tagged "kind" "String" [("value", content)]
  | .null => tagged "kind" "Null" []

mutual

/-- A draft as an object. -/
def Draft.document : Draft → Raw
  | .literal v => tagged "type" "Literal" [("value", v.document)]
  | .var x => tagged "type" "Variable" [("name", x)]
  | .unary op e => tagged "type" "UnaryOp" [("op", op), ("operand", e.document)]
  | .binary op l r =>
    tagged "type" "BinaryOp" [("op", op), ("left", l.document), ("right", r.document)]
  | .expr e => tagged "type" "ExprStmt" [("expr", e.document)]
  | .assign x e => tagged "type" "Assign" [("name", x), ("value", e.document)]
  | .print e => tagged "type" "PrintStmt" [("expr", e.document)]
  | .cond c t e => tagged "type" "IfStmt"
      [("condition", c.document), ("then_branch", t.document), ("else_branch", e.document)]
  | .loop c b => tagged "type" "WhileStmt" [("condition", c.document), ("body", b.document)]
  | .block ss => tagged "type" "Block" [("statements", .arr (documents ss))]
  | .absent => .null

/-- The drafts of a list as objects. -/
def documents : List Draft → List Raw
  | [] => []
  | s :: rest => s.document :: documents rest

end

/-- A list of drafts as a document. -/
def programDocument (program : List Draft) : Raw :=
  tagged "type" "Program" [("body", .arr (documents program))]

/-! ## Reading -/

/-- Why a document is not a program. -/
inductive LoadError where
  /-- the document is not an object of type `Program` -/
  | notProgram
  /-- a node is neither null nor an object -/
  | notNode
  | unknownNode (type : Raw)
  | missingField (key : String)
  /-- statements are given by something that has no elements -/
  | notIterable (given : Raw)
  /-- a literal's value is not an object -/
  | notValue (given : Raw)
  | unknownValue (kind : Raw)
  /-- a number is given by a text that writes none -/
  | notNumeral (given : Text)
  /-- a number is given by something else than a number or a text -/
  | notNumber (given : Raw)
  /-- a number is given by an integer beyond every floating-point number -/
  | integerTooLarge

/-- The wording of a reason. -/
def LoadError.message : LoadError → String
  | .notProgram => "expected a Program object"
  | .notNode => "Invalid AST object"
  | .unknownNode t => "Unknown AST node type: " ++ t.display
  | .missingField key => quoted key
  | .notIterable v => "'" ++ v.typeName ++ "' object is not iterable"
  | .notValue v => "'" ++ v.typeName ++ "' object has no attribute 'get'"
  | .unknownValue k => "Unknown value kind: " ++ k.display
  | .notNumeral s => "could not convert string to float: " ++ s.quoted
  | .notNumber v =>
    "float() argument must be a string or a real number, not '" ++ v.typeName ++ "'"
  | .integerTooLarge => "int too large to convert to float"

/-- A field that has to be there. -/
def needField (key : String) (fields : List (Text × Raw)) : Except LoadError Raw :=
  match lookupField (.of key) fields with
  | some v => .ok v
  | none => .error (.missingField key)

/-- A field that stands for null where it is missing. -/
def optionalField (key : String) (fields : List (Text × Raw)) : Raw :=
  (lookupField (.of key) fields).getD .null

/-- The floating-point number nearest to an integer, if there is one. -/
def floatOfInteger? (n : Int) : Option Float :=
  let magnitude := Float.ofScientific n.natAbs false 0
  if magnitude.isInf then none else some (if n < 0 then -magnitude else magnitude)

/-- The number that a value gives: itself, one or zero for a truth value, or
    what a text writes. -/
def loadNumber : Raw → Except LoadError Float
  | .int n => match floatOfInteger? n with
    | some x => .ok x
    | none => .error .integerTooLarge
  | .float x => .ok x
  | .bool b => .ok (if b then 1.0 else 0.0)
  | .str s => match s.string?.bind readNumber? with
    | some x => .ok x
    | none => .error (.notNumeral s)
  | v => .error (.notNumber v)

/-- The value that an object describes. -/
def DraftValue.load : Raw → Except LoadError DraftValue
  | .obj fields =>
    let kind := optionalField "kind" fields
    match kind.word? with
    | some "Number" => do
      let v ← needField "value" fields
      return .number (← loadNumber v)
    | some "Boolean" => do
      let v ← needField "value" fields
      return .boolean v.isTruthy
    | some "String" => do
      return .string (← needField "value" fields)
    | some "Null" => .ok .null
    | _ => .error (.unknownValue kind)
  | v => .error (.notValue v)

mutual

/-- The tree that a value describes. -/
def Draft.load (v : Raw) : Except LoadError Draft :=
  match v with
  | .null => .ok .absent
  | .obj fields =>
    let type := optionalField "type" fields
    match type.word? with
    | some "Block" => do
      return .block (← loadListAt "statements" fields)
    | some "IfStmt" => do
      let c ← loadAt "condition" fields
      let t ← loadAt "then_branch" fields
      match lookupField (.of "else_branch") fields with
      | some _ => return .cond c t (← loadAt "else_branch" fields)
      | none => return .cond c t .absent
    | some "WhileStmt" => do
      let c ← loadAt "condition" fields
      return .loop c (← loadAt "body" fields)
    | some "PrintStmt" => do
      return .print (← loadAt "expr" fields)
    | some "ExprStmt" => do
      return .expr (← loadAt "expr" fields)
    | some "Assign" => do
      let x ← needField "name" fields
      return .assign x (← loadAt "value" fields)
    | some "BinaryOp" => do
      let op ← needField "op" fields
      let l ← loadAt "left" fields
      return .binary op l (← loadAt "right" fields)
    | some "UnaryOp" => do
      let op ← needField "op" fields
      return .unary op (← loadAt "operand" fields)
    | some "Literal" => do
      let v ← needField "value" fields
      return .literal (← DraftValue.load v)
    | some "Variable" => do
      return .var (← needField "name" fields)
    | _ => .error (.unknownNode type)
  | _ => .error .notNode
termination_by sizeOf v

/-- The tree that a field describes. -/
def loadAt (key : String) (fields : List (Text × Raw)) : Except LoadError Draft :=
  match h : lookupField (.of key) fields with
  | some v =>
    have := sizeOf_lt_of_lookupField h
    Draft.load v
  | none => .error (.missingField key)
termination_by sizeOf fields

/-- The trees that a field lists. -/
def loadListAt (key : String) (fields : List (Text × Raw)) : Except LoadError (List Draft) :=
  match h : lookupField (.of key) fields with
  | some (.arr items) =>
    have := sizeOf_lt_of_lookupField h
    loadList items
  | some (.str s) => if s.isEmpty then .ok [] else .error .notNode
  | some (.obj parts) => if parts.isEmpty then .ok [] else .error .notNode
  | some v => .error (.notIterable v)
  | none => .error (.missingField key)
termination_by sizeOf fields
decreasing_by
  simp only [Datum.arr.sizeOf_spec] at this
  omega

/-- The trees that the items of a list describe. -/
def loadList (items : List Raw) : Except LoadError (List Draft) :=
  match items with
  | [] => .ok []
  | v :: rest => do
    let s ← Draft.load v
    return s :: (← loadList rest)
termination_by sizeOf items

end

/-- The trees that a document describes. -/
def loadDrafts : Raw → Except LoadError (List Draft)
  | .obj fields => match (optionalField "type" fields).word? with
    | some "Program" => loadListAt "body" fields
    | _ => .error .notProgram
  | _ => .error .notProgram

/-! ## Reading programs -/

/-- The value of a program that a document describes.  One with a text that is no
    string describes a draft (`DraftValue.load`), but no such value. -/
def loadValue (document : Json) : Except LoadError Value :=
  match DraftValue.load document.raw with
  | .error e => .error e
  | .ok v => match v.value? with
    | some v => .ok v
    | none => .error (.notValue document.raw)

/-- The program that a document describes.  One with a name, an operator or a text
    that is no string describes drafts (`loadDrafts`), but no program. -/
def loadProgram (document : Json) : Except LoadError (List Node) :=
  match loadDrafts document.raw with
  | .error e => .error e
  | .ok program => match nodes? program with
    | some program => .ok program
    | none => .error .notProgram

end BlockScript
