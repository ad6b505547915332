/-
  BlockScript — the types of expressions.

  Whether an operator fits its operands hangs on their types, and so does the
  type of what it gives.  Only a division by zero hangs on more.  So the types
  of the variables tell the type of an expression, or why it has no value, as
  long as nothing is divided by zero.

  * `ValueType`, `unaryType`, `binaryType`: types, and what the operators do
    with them;
  * `typeIn`: the type of an expression, given the types of the names;
  * `Typed`, `eval_typed`: the value of an expression has this type;
  * `DividesByZero`, `eval_arithmetic`: where an arithmetic error comes from;
  * `Fault.Alike`, `eval_type_determined`: both, for environments with the same
    types.
-/
import BlockScript.Proofs.Scopes

namespace BlockScript

/-! ## Types -/

/-- The types of values. -/
inductive ValueType where
  | number
  | boolean
  | string
  | null
  deriving DecidableEq

/-- The type of a value. -/
def Value.type : Value → ValueType
  | .number _ => .number
  | .boolean _ => .boolean
  | .string _ => .string
  | .null => .null

/-- The name of a type. -/
def ValueType.name : ValueType → String
  | .number => "Number"
  | .boolean => "Boolean"
  | .string => "String"
  | .null => "Null"

theorem Value.isString_iff (v : Value) : v.isString = true ↔ v.type = .string := by
  cases v <;> simp [Value.isString, Value.type]

theorem Value.typeName_eq (v : Value) : v.typeName = v.type.name := by
  cases v <;> rfl

theorem ValueType.name_injective : Function.Injective ValueType.name := by
  intro a b h
  cases a <;> cases b <;> first | rfl | exact absurd h (by decide)

theorem Value.typeName_inj {v w : Value} : v.typeName = w.typeName ↔ v.type = w.type := by
  rw [v.typeName_eq, w.typeName_eq, ValueType.name_injective.eq_iff]

/-- Why types give none: a name that has no value, an operator that does not
    fit, or a tree that is no expression. -/
inductive Misfit where
  | undefined
  | mismatch
  | misplaced

/-- What a fault of an expression tells of its types. -/
def Fault.misfit? : Fault → Option Misfit
  | .undefinedVariable _ => some .undefined
  | .unaryMismatch _ _ | .binaryMismatch _ _ _ => some .mismatch
  | .notExpression _ => some .misplaced
  | _ => none

/-! ## Operators -/

/-- The type that a prefix operator gives. -/
def unaryType (op : String) (t : ValueType) : Except Misfit ValueType :=
  if op = "-" ∧ t = .number ∨ op = "!" ∧ t = .boolean then .ok t else .error .mismatch

/-- The operators that give numbers for numbers. -/
def arithmeticOps : List String := ["+", "-", "*", "/", "%"]

/-- The operators that compare numbers. -/
def relationOps : List String := ["==", "!=", "<", ">", "<=", ">="]

/-- The operators on truth values. -/
def logicalOps : List String := ["&&", "||", "==", "!="]

/-- The type that an operator between two values gives. -/
def binaryType (op : String) : ValueType → ValueType → Except Misfit ValueType
  | .number, .number =>
    if op ∈ arithmeticOps then .ok .number
    else if op ∈ relationOps then .ok .boolean
    else .error .mismatch
  | .boolean, .boolean => if op ∈ logicalOps then .ok .boolean else .error .mismatch
  | a, b => if op = "+" ∧ (a = .string ∨ b = .string) then .ok .string else .error .mismatch

/-- The type of an expression, given the types of the names. -/
def typeIn (types : String → Option ValueType) : Node → Except Misfit ValueType
  | .literal v => .ok v.type
  | .var x => match types x with
    | some t => .ok t
    | none => .error .undefined
  | .unary op e => do
    let t ← typeIn types e
    unaryType op t
  | .binary op l r => do
    let a ← typeIn types l
    let b ← typeIn types r
    binaryType op a b
  | _ => .error .misplaced

/-! ## Values have their types -/

/-- An outcome is what the types tell, or an arithmetic error, of which they
    tell nothing. -/
inductive Typed : Except Misfit ValueType → Except Fault Value → Prop where
  | ok (v : Value) : Typed (.ok v.type) (.ok v)
  | error {m : Misfit} {f : Fault} (h : f.misfit? = some m) : Typed (.error m) (.error f)
  | arithmetic {t : Except Misfit ValueType} {f : Fault} (h : f.kind? = some .arithmetic) :
      Typed t (.error f)

theorem Typed.bind {t : Except Misfit ValueType} {r : Except Fault Value}
    {g : ValueType → Except Misfit ValueType} {k : Value → Except Fault Value} (h : Typed t r)
    (hk : ∀ v, Typed (g v.type) (k v)) : Typed (t >>= g) (r >>= k) := by
  cases h with
  | ok v => exact hk v
  | error h => exact .error h
  | arithmetic h => exact .arithmetic h

theorem applyUnary_typed (op : String) (v : Value) :
    Typed (unaryType op v.type) (applyUnary op v) := by
  cases v with
  | number x =>
    by_cases hop : op = "-"
    · simpa [unaryType, applyUnary, Value.type, hop] using Typed.ok (.number (-x))
    · simpa [unaryType, applyUnary, Value.type, hop] using Typed.error rfl
  | boolean b =>
    by_cases hop : op = "!"
    · simpa [unaryType, applyUnary, Value.type, hop] using Typed.ok (.boolean !b)
    · simpa [unaryType, applyUnary, Value.type, hop] using Typed.error rfl
  | string s => simpa [unaryType, applyUnary, Value.type] using Typed.error rfl
  | null => simpa [unaryType, applyUnary, Value.type] using Typed.error rfl

/-- The quotient and the remainder of two numbers exist unless the divisor is
    zero. -/
theorem applyNumeric?_arithmetic {op : String} (h : op ∈ arithmeticOps) (x y : Float) :
    (∃ z, applyNumeric? op x y = some (.ok (.number z))) ∨
      (y == 0.0) = true ∧
        (op = "/" ∧ applyNumeric? op x y = some (.error .divisionByZero) ∨
          op = "%" ∧ applyNumeric? op x y = some (.error .moduloByZero)) := by
  simp only [arithmeticOps, List.mem_cons, List.not_mem_nil, or_false] at h
  rcases h with rfl | rfl | rfl | rfl | rfl
  · exact Or.inl ⟨x + y, rfl⟩
  · exact Or.inl ⟨x - y, rfl⟩
  · exact Or.inl ⟨x * y, rfl⟩
  · by_cases hy : (y == 0.0) = true
    · exact Or.inr ⟨hy, Or.inl ⟨rfl, by simp [applyNumeric?, hy]⟩⟩
    · exact Or.inl ⟨x / y, by simp [applyNumeric?, hy]⟩
  · by_cases hy : (y == 0.0) = true
    · exact Or.inr ⟨hy, Or.inr ⟨rfl, by simp [applyNumeric?, hy]⟩⟩
    · cases hr : remainder? x y with
      | none => exact absurd (eq_zero_of_remainder?_eq_none hr) hy
      | some r => exact Or.inl ⟨r, by simp [applyNumeric?, hy, hr]⟩

theorem applyNumeric?_relation {op : String} (h : op ∈ relationOps) (x y : Float) :
    ∃ b, applyNumeric? op x y = some (.ok (.boolean b)) := by
  simp only [relationOps, List.mem_cons, List.not_mem_nil, or_false] at h
  rcases h with rfl | rfl | rfl | rfl | rfl | rfl <;> exact ⟨_, rfl⟩

theorem applyNumeric?_eq_none {op : String} (h : op ∉ arithmeticOps) (h' : op ∉ relationOps)
    (x y : Float) : applyNumeric? op x y = none := by
  unfold applyNumeric?
  split <;> first | rfl | exact absurd (by decide) h | exact absurd (by decide) h'

theorem applyLogical?_isSome (op : String) (p q : Bool) :
    (applyLogical? op p q).isSome = true ↔ op ∈ logicalOps := by
  unfold applyLogical?
  split <;> simp_all [logicalOps]

theorem applyBinary_typed_numbers (op : String) (x y : Float) :
    Typed (binaryType op .number .number) (applyBinary op (.number x) (.number y)) := by
  rw [binaryType, applyBinary]
  by_cases ha : op ∈ arithmeticOps
  · rw [if_pos ha]
    rcases applyNumeric?_arithmetic ha x y with ⟨z, hz⟩ | ⟨-, ⟨-, hz⟩ | ⟨-, hz⟩⟩ <;> rw [hz]
    · exact .ok (.number z)
    · exact .arithmetic rfl
    · exact .arithmetic rfl
  · rw [if_neg ha]
    by_cases hr : op ∈ relationOps
    · obtain ⟨b, hb⟩ := applyNumeric?_relation hr x y
      rw [if_pos hr, hb]
      exact .ok (.boolean b)
    · rw [if_neg hr, applyNumeric?_eq_none ha hr]
      exact .error rfl

theorem applyBinary_typed_booleans (op : String) (p q : Bool) :
    Typed (binaryType op .boolean .boolean) (applyBinary op (.boolean p) (.boolean q)) := by
  have hop := applyLogical?_isSome op p q
  rw [binaryType, applyBinary]
  cases hr : applyLogical? op p q with
  | some r =>
    rw [hr] at hop
    rw [if_pos (hop.1 rfl)]
    exact .ok (.boolean r)
  | none =>
    rw [hr] at hop
    rw [if_neg (mt hop.2 Bool.false_ne_true)]
    exact .error rfl

/-- Only a text can be joined with something else. -/
theorem joined_typed (op : String) (a b : Value) :
    Typed
      (if op = "+" ∧ (a.type = .string ∨ b.type = .string) then .ok .string else .error .mismatch)
      (if op = "+" && (a.isString || b.isString) then .ok (.string (a.joined ++ b.joined))
        else .error (.binaryMismatch op a b)) := by
  have hiff : (op = "+" && (a.isString || b.isString)) = true ↔
      op = "+" ∧ (a.type = .string ∨ b.type = .string) := by
    simp [Value.isString_iff]
  by_cases hj : op = "+" ∧ (a.type = .string ∨ b.type = .string)
  · rw [if_pos hj, if_pos (hiff.2 hj)]
    exact .ok (.string _)
  · rw [if_neg hj, if_neg (mt hiff.1 hj)]
    exact .error rfl

theorem applyBinary_typed (op : String) (a b : Value) :
    Typed (binaryType op a.type b.type) (applyBinary op a b) := by
  have hj := joined_typed op a b
  cases a <;> cases b
  case number.number x y => exact applyBinary_typed_numbers op x y
  case boolean.boolean p q => exact applyBinary_typed_booleans op p q
  all_goals exact hj

/-- The types of the variables of an environment. -/
def Env.types (env : Env) (x : String) : Option ValueType := (env.get? x).map Value.type

/-- The value of an expression has the type that the types of the variables
    tell, or there is none for the reason that they tell. -/
theorem eval_typed (env : Env) (e : Node) : Typed (typeIn env.types e) (eval env e) := by
  fun_induction eval env e with
  | case1 v => exact .ok v
  | case2 x v hx =>
    rw [typeIn, Env.types, hx]
    exact .ok v
  | case3 x hx =>
    rw [typeIn, Env.types, hx]
    exact .error rfl
  | case4 op e ih => exact ih.bind (applyUnary_typed op)
  | case5 op l r ihl ihr => exact ihl.bind fun a => ihr.bind fun b => applyBinary_typed op a b
  | case6 node =>
    rw [typeIn]
    · exact .error rfl
    all_goals assumption

/-! ## Arithmetic errors -/

/-- An arithmetic error of an operator is a division of numbers by zero. -/
theorem applyBinary_arithmetic {op : String} {a b : Value} {f : Fault}
    (h : applyBinary op a b = .error f) (hf : f.kind? = some .arithmetic) :
    (op = "/" ∨ op = "%") ∧ ∃ x y, a = .number x ∧ b = .number y ∧ (y == 0.0) = true := by
  unfold applyBinary at h
  split at h
  · rename_i x y
    by_cases ha : op ∈ arithmeticOps
    · rcases applyNumeric?_arithmetic ha x y with ⟨z, hz⟩ | ⟨hy, hz⟩
      · simp [hz] at h
      · exact ⟨hz.imp And.left And.left, x, y, rfl, rfl, hy⟩
    · by_cases hr : op ∈ relationOps
      · obtain ⟨b, hb⟩ := applyNumeric?_relation hr x y
        simp [hb] at h
      · rw [applyNumeric?_eq_none ha hr] at h
        cases h
        cases hf
  · split at h <;> cases h
    cases hf
  · split at h <;> cases h
    cases hf

/-- A tree is another one, or an operand somewhere in it. -/
inductive Operand (part : Node) : Node → Prop where
  | self : Operand part part
  | unary {op : String} {e : Node} (h : Operand part e) : Operand part (.unary op e)
  | left {op : String} {l r : Node} (h : Operand part l) : Operand part (.binary op l r)
  | right {op : String} {l r : Node} (h : Operand part r) : Operand part (.binary op l r)

/-- A division of two numbers, or a remainder, in which the second one is
    zero. -/
inductive DividesByZero (env : Env) : Node → Prop where
  | intro {op : String} {l r : Node} {x y : Float} (hop : op = "/" ∨ op = "%")
      (hl : eval env l = .ok (.number x)) (hr : eval env r = .ok (.number y))
      (hy : (y == 0.0) = true) : DividesByZero env (.binary op l r)

/-- An arithmetic error of an expression is one of a division by zero in it. -/
theorem eval_arithmetic {env : Env} {f : Fault} (hf : f.kind? = some .arithmetic) :
    ∀ {e : Node}, eval env e = .error f →
      ∃ part, Operand part e ∧ DividesByZero env part ∧ eval env part = .error f
  | .literal v, h => by cases h
  | .var x, h => by
    rw [eval] at h
    split at h <;> cases h
    cases hf
  | .unary op e, h => by
    rcases bind_eq_error h with he | ⟨v, -, ho⟩
    · obtain ⟨part, hp, hd⟩ := eval_arithmetic hf he
      exact ⟨part, .unary hp, hd⟩
    · cases applyUnary_error ho
      cases hf
  | .binary op l r, h => by
    rcases bind_eq_error h with hl | ⟨a, hl, hb⟩
    · obtain ⟨part, hp, hd⟩ := eval_arithmetic hf hl
      exact ⟨part, .left hp, hd⟩
    · rcases bind_eq_error hb with hr | ⟨b, hr, ho⟩
      · obtain ⟨part, hp, hd⟩ := eval_arithmetic hf hr
        exact ⟨part, .right hp, hd⟩
      · obtain ⟨hop, x, y, rfl, rfl, hy⟩ := applyBinary_arithmetic ho hf
        exact ⟨_, .self, .intro hop hl hr hy, h⟩
  | .expr _, h | .assign _ _, h | .print _, h | .cond _ _ _, h | .loop _ _, h | .block _, h
  | .absent, h => by
    cases h
    cases hf

/-! ## Environments of the same types -/

/-- Two faults are both about a name, both about types, or both about a tree
    that is no expression. -/
inductive Fault.Alike : Fault → Fault → Prop where
  | name {f f' : Fault} (h : f.kind? = some .name) (h' : f'.kind? = some .name) : Alike f f'
  | type {f f' : Fault} (h : f.kind? = some .type) (h' : f'.kind? = some .type) : Alike f f'
  | misplaced (kind kind' : String) : Alike (.notExpression kind) (.notExpression kind')

theorem Fault.alike_of_misfit? {f f' : Fault} {m : Misfit} (h : f.misfit? = some m)
    (h' : f'.misfit? = some m) : f.Alike f' := by
  cases f <;> cases h <;> cases f' <;> cases h'
  case undefinedVariable => exact .name rfl rfl
  case notExpression => exact .misplaced _ _
  all_goals exact .type rfl rfl

/-- Two outcomes of the same types are alike unless one of them is an
    arithmetic error. -/
theorem Typed.alike {t : Except Misfit ValueType} {r r' : Except Fault Value} (h : Typed t r)
    (h' : Typed t r') (hr : ∀ f, r = .error f → f.kind? ≠ some .arithmetic)
    (hr' : ∀ f, r' = .error f → f.kind? ≠ some .arithmetic) :
    (∃ v v', r = .ok v ∧ r' = .ok v' ∧ v.typeName = v'.typeName) ∨
      ∃ f f', r = .error f ∧ r' = .error f' ∧ f.Alike f' := by
  cases h with
  | arithmetic hf => exact absurd hf (hr _ rfl)
  | ok v =>
    generalize ht : Except.ok v.type = t at h'
    cases h' with
    | ok v' => exact Or.inl ⟨v, v', rfl, rfl, Value.typeName_inj.2 (Except.ok.inj ht)⟩
    | error _ => cases ht
    | arithmetic hf => exact absurd hf (hr' _ rfl)
  | error hm =>
    cases h' with
    | error hm' => exact Or.inr ⟨_, _, rfl, rfl, Fault.alike_of_misfit? hm hm'⟩
    | arithmetic hf => exact absurd hf (hr' _ rfl)

theorem Env.types_eq {env env' : Env}
    (h : ∀ x, (env.get? x).map Value.typeName = (env'.get? x).map Value.typeName) :
    env.types = env'.types := by
  funext x
  have hx := h x
  rw [Env.types, Env.types]
  cases hv : env.get? x <;> cases hw : env'.get? x <;> rw [hv, hw] at hx
  case some.some v w => exact congrArg some (Value.typeName_inj.1 (Option.some.inj hx))
  all_goals first | rfl | cases hx

/-- **The types of the variables determine the type of an expression.**  In two
    environments that define the same names with values of the same types, an
    expression that makes no arithmetic error has values of one type, or fails
    in both in the same way; and an arithmetic error is always one of a
    division by zero. -/
theorem eval_type_determined (e : Node) :
    (∀ env env' : Env,
      (∀ x, (env.get? x).map Value.typeName = (env'.get? x).map Value.typeName) →
      (∀ f, eval env e = .error f → f.kind? ≠ some .arithmetic) →
      (∀ f, eval env' e = .error f → f.kind? ≠ some .arithmetic) →
      (∃ v v', eval env e = .ok v ∧ eval env' e = .ok v' ∧ v.typeName = v'.typeName) ∨
        ∃ f f', eval env e = .error f ∧ eval env' e = .error f' ∧ f.Alike f') ∧
    ∀ env f, eval env e = .error f → f.kind? = some .arithmetic →
      ∃ part, Operand part e ∧ DividesByZero env part ∧ eval env part = .error f := by
  refine ⟨?_, fun env f h hf => eval_arithmetic hf h⟩
  intro env env' ht hr hr'
  have h := eval_typed env e
  rw [Env.types_eq ht] at h
  exact h.alike (eval_typed env' e) hr hr'

/-- A quotient behind a text. -/
def labelledQuotient : Node := .binary "+" (.var "label") (.binary "/" (.var "x") (.var "y"))

/-- An environment with a text in one scope and two numbers in another. -/
def quotientEnv (label : String) (x y : Float) : Env :=
  ⟨[("label", .string label)], [[("x", .number x), ("y", .number y)]]⟩

theorem eval_labelledQuotient (label : String) (x y : Float) :
    eval (quotientEnv label x y) labelledQuotient =
      if y == 0.0 then .error .divisionByZero
      else .ok (.string (label ++ (Value.number (x / y)).joined)) := by
  show applyBinary "/" (.number x) (.number y) >>= applyBinary "+" (.string label) = _
  cases h : y == 0.0 <;> simp [applyBinary, applyNumeric?, h] <;> rfl

theorem quotientEnv_types (label label' : String) (x y x' y' : Float) (z : String) :
    ((quotientEnv label x y).get? z).map Value.typeName =
      ((quotientEnv label' x' y').get? z).map Value.typeName := by
  simp only [quotientEnv, Env.get?, Env.scopes, lookupIn, Scope.get?]
  by_cases hl : "label" = z
  · simp [hl, Value.typeName]
  · by_cases hx : "x" = z
    · simp [hl, hx, Value.typeName]
    · by_cases hy : "y" = z <;> simp [hl, hx, hy, Value.typeName]

/-- Quotients by different numbers behind different texts, and one by zero. -/
theorem eval_type_determined_labelledQuotient :
    (∃ v v', eval (quotientEnv "half" 7.0 2.0) labelledQuotient = .ok v ∧
      eval (quotientEnv "" 1.0 4.0) labelledQuotient = .ok v' ∧ v.typeName = v'.typeName) ∧
    ∃ part, Operand part labelledQuotient ∧ DividesByZero (quotientEnv "none" 7.0 0.0) part ∧
      eval (quotientEnv "none" 7.0 0.0) part = .error .divisionByZero := by
  have htwo := eval_labelledQuotient "half" 7.0 2.0
  rw [if_neg (by decide +kernel)] at htwo
  have hfour := eval_labelledQuotient "" 1.0 4.0
  rw [if_neg (by decide +kernel)] at hfour
  have hnone := eval_labelledQuotient "none" 7.0 0.0
  rw [if_pos (by decide +kernel)] at hnone
  obtain ⟨htypes, hzero⟩ := eval_type_determined labelledQuotient
  refine ⟨?_, hzero _ _ hnone rfl⟩
  rcases htypes _ _ (quotientEnv_types _ _ _ _ _ _) (fun f hf => by cases htwo.symm.trans hf)
    (fun f hf => by cases hfour.symm.trans hf) with h | ⟨f, f', hf, -⟩
  · exact h
  · cases htwo.symm.trans hf

end BlockScript
