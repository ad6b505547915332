/-
  BlockScript — environments.

  An environment is a stack of scopes that bind names to values.  The
  outermost scope is the global one, which is never left.  Assigning a name
  changes the innermost binding that it has, and only a name without any gets
  a new one, in the innermost scope.

  * `Scope`, `Env`: bindings, and scopes from the innermost to the global one;
  * `Env.get?`, `Env.set`, `Env.isDefined`: variables;
  * `Env.enter`, `Env.exit?`, `Env.depth`: scopes.
-/
import BlockScript.Value

namespace BlockScript

/-! ## Scopes -/

/-- The bindings of one scope, at most one for a name. -/
abbrev Scope := List (String × Value)

/-- The value of a name. -/
def Scope.get? (name : String) : Scope → Option Value
  | [] => none
  | (x, v) :: rest => if x = name then some v else Scope.get? name rest

/-- Whether a name is bound. -/
def Scope.binds (s : Scope) (name : String) : Bool :=
  (s.get? name).isSome

/-- Bind a name, in the place of its binding if it has one. -/
def Scope.put (name : String) (value : Value) : Scope → Scope
  | [] => [(name, value)]
  | (x, v) :: rest => if x = name then (x, value) :: rest else (x, v) :: Scope.put name value rest

/-- The bindings in the order of their names. -/
def Scope.sorted (s : Scope) : Scope :=
  s.mergeSort fun a b => decide (a.1 ≤ b.1)

/-! ## Environments -/

/-- A stack of scopes, which is never empty. -/
structure Env where
  innermost : Scope
  /-- the scopes around the innermost one, outwards; the last one is global -/
  outer : List Scope

/-- The environment with an empty global scope. -/
def Env.empty : Env := ⟨[], []⟩

/-- The scopes from the innermost to the global one. -/
def Env.scopes (env : Env) : List Scope :=
  env.innermost :: env.outer

/-- The number of scopes. -/
def Env.depth (env : Env) : Nat :=
  env.outer.length + 1

/-- A new innermost scope. -/
def Env.enter (env : Env) : Env :=
  ⟨[], env.innermost :: env.outer⟩

/-- Leave the innermost scope, unless it is the global one. -/
def Env.exit? (env : Env) : Option Env :=
  match env.outer with
  | [] => none
  | s :: rest => some ⟨s, rest⟩

/-- The value of a name in the innermost scope that binds it. -/
def lookupIn (name : String) : List Scope → Option Value
  | [] => none
  | s :: rest => match s.get? name with
    | some v => some v
    | none => lookupIn name rest

/-- The value of a name. -/
def Env.get? (env : Env) (name : String) : Option Value :=
  lookupIn name env.scopes

/-- Whether a name has a value. -/
def Env.isDefined (env : Env) (name : String) : Bool :=
  env.scopes.any fun s => s.binds name

/-- Change the value of a name in the innermost scope that binds it. -/
def replaceIn? (name : String) (value : Value) : List Scope → Option (List Scope)
  | [] => none
  | s :: rest =>
    if s.binds name then some (s.put name value :: rest)
    else (replaceIn? name value rest).map (s :: ·)

/-- Give a name a value. -/
def Env.set (env : Env) (name : String) (value : Value) : Env :=
  if env.innermost.binds name then { env with innermost := env.innermost.put name value }
  else match replaceIn? name value env.outer with
    | some outer => { env with outer := outer }
    | none => { env with innermost := env.innermost.put name value }

/-- The bindings of all scopes from the global one inwards, each in the order
    of its names. -/
def Env.listing (env : Env) : List Scope :=
  (env.scopes.map Scope.sorted).reverse

end BlockScript
