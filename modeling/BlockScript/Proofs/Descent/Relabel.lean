/-
  BlockScript — recursive descent on tokens that are written otherwise.

  Of a token, reading uses the kind and the text, and of a number only whether
  its text can be read and what it writes.  So tokens may be replaced one by
  one, their places and the texts of unreadable numbers: reading goes the same
  way and refuses the token in the same place, up to an unreadable number that
  has got another text.

  * `Relabels f`: `f` keeps all that reading uses;
  * `Follows f`: two outcomes, the second one on replaced tokens;
  * `Blind f r`: the reader `r` goes the same way on replaced tokens;
  * `program_blind`: recursive descent does;
  * `program_expects_none`: on the tokens of a derivation, and an end token,
    nothing else is ever expected.
-/
import BlockScript.Proofs.Descent.Viable

namespace BlockScript.Descent

open Grammar

variable {α β : Type}

/-! ## Replaced tokens -/

/-- The change of a token keeps its kind, and its text unless it is an
    unreadable number. -/
structure Relabels (f : Token → Token) : Prop where
  kind (t : Token) : (f t).kind = t.kind
  text (t : Token) (h : t.kind = .number → (readNumber? t.text).isSome) : (f t).text = t.text
  /-- the token that stands for the end of a list -/
  fallback : f (Token.eof ⟨0, 0⟩) = Token.eof ⟨0, 0⟩

/-- A failure with its tokens replaced. -/
def relabelError (f : Token → Token) : ParseError → ParseError
  | .expectedSymbol text t => .expectedSymbol text (f t)
  | .expectedExpression t => .expectedExpression (f t)
  | .nestedTooDeeply t => .nestedTooDeeply (f t)
  | .malformedNumber t => .malformedNumber (f t)
  | .unexpectedToken lexeme p => .unexpectedToken lexeme p
  | .unexpectedEnd => .unexpectedEnd
  | .unexpectedInput p => .unexpectedInput p
  | .treeTooDeep => .treeTooDeep

/-- The second outcome is the first one on replaced tokens.  Once the first one
    is the refusal of a number that has got another text, nothing is said. -/
inductive Follows (f : Token → Token) :
    Except Refusal (α × List Token) → Except Refusal (α × List Token) → Prop where
  | ok (a : α) (rest : List Token) : Follows f (.ok (a, rest)) (.ok (a, rest.map f))
  | error (e : ParseError) (rest : List Token) :
      Follows f (.error ⟨e, rest⟩) (.error ⟨relabelError f e, rest.map f⟩)
  | malformed {t : Token} (h : (f t).text ≠ t.text) (rest : List Token)
      (other : Except Refusal (α × List Token)) :
      Follows f (.error ⟨.malformedNumber t, rest⟩) other

theorem Follows.of_error {f : Token → Token} {g : Refusal} {o : Except Refusal (α × List Token)}
    (h : Follows f (.error g) o) :
    (∃ t, g.error = .malformedNumber t) ∨
      ∃ g', o = .error g' ∧ g'.error = relabelError f g.error := by
  cases h with
  | error e rest => exact Or.inr ⟨_, rfl, rfl⟩
  | malformed h rest other => exact Or.inl ⟨_, rfl⟩

/-- The reader goes the same way on replaced tokens. -/
def Blind (f : Token → Token) (r : Reader α) : Prop :=
  ∀ ts, Follows f (r ts) (r (ts.map f))

theorem Blind.bind {f : Token → Token} {x : Reader α} {k : α → Reader β} (hx : Blind f x)
    (hk : ∀ a, Blind f (k a)) : Blind f (x >>= k) := by
  intro ts
  rw [bind_eq, bind_eq]
  have h := hx ts
  generalize x ts = first, x (ts.map f) = second at h
  cases h with
  | ok a rest => exact hk a rest
  | error e rest => exact .error e rest
  | malformed h rest other => exact .malformed h rest _

theorem pure_blind (f : Token → Token) (a : α) : Blind f (pure a : Reader α) :=
  fun ts => .ok a ts

section Relabels

variable {f : Token → Token} (hf : Relabels f)
include hf

theorem Relabels.is {kind : TokenKind} (hk : kind ≠ .number) (text : String) (t : Token) :
    (f t).is kind text = t.is kind text := by
  simp only [Token.is, hf.kind]
  by_cases ht : t.kind = kind
  · rw [hf.text t fun hn => absurd (ht.symm.trans hn) hk]
  · simp [ht]

theorem Relabels.opens (ops : List String) (t : Token) :
    (decide ((f t).kind = .operator) && ops.contains (f t).text) =
      (decide (t.kind = .operator) && ops.contains t.text) := by
  rw [hf.kind]
  by_cases hk : t.kind = .operator
  · rw [hf.text t fun hn => by rw [hk] at hn; cases hn]
  · simp [hk]

theorem Relabels.next (ts : List Token) : next (ts.map f) = f (next ts) := by
  cases ts with
  | nil => exact hf.fallback.symm
  | cons t ts => rfl

/-! ## Single tokens -/

theorem peek_blind {k : Token → Reader β}
    (hk : ∀ ts, Follows f (k (Descent.next ts) ts) (k (f (Descent.next ts)) (ts.map f))) :
    Blind f (peek >>= k) := by
  intro ts
  rw [bind_eq, bind_eq]
  simp only [peek, hf.next]
  exact hk ts

theorem symbol_blind (text : String) : Blind f (symbol text) := by
  intro ts
  simp only [symbol, hf.next, hf.is (show TokenKind.symbol ≠ .number by decide), ← List.map_tail]
  split
  · exact .ok () ts.tail
  · exact .error (.expectedSymbol text (Descent.next ts)) ts

theorem accept_blind (kind : TokenKind) (text : String) (hk : kind ≠ .number) :
    Blind f (accept kind text) := by
  intro ts
  simp only [accept, hf.next, hf.is hk, ← List.map_tail]
  split
  · exact .ok true ts.tail
  · exact .ok false ts

theorem acceptOperator_blind (ops : List String) : Blind f (acceptOperator ops) := by
  intro ts
  simp only [acceptOperator, hf.next, hf.opens, ← List.map_tail]
  split
  · rename_i hop
    simp only [Bool.and_eq_true, decide_eq_true_eq] at hop
    rw [hf.text _ fun hn => by rw [hop.1] at hn; cases hn]
    exact .ok (some (Descent.next ts).text) ts.tail
  · exact .ok none ts

end Relabels

/-! ## Loops -/

section Loops

variable {f : Token → Token} (hf : Relabels f)
include hf

theorem chainFrom_blind {ops : List String} {operand : Reader Node} (h : Blind f operand)
    (fuel : Nat) (left : Node) : Blind f (chainFrom ops operand fuel left) := by
  induction fuel generalizing left with
  | zero => exact pure_blind f left
  | succ fuel ih =>
    refine (acceptOperator_blind hf ops).bind fun op => ?_
    cases op with
    | none => exact pure_blind f left
    | some op => exact h.bind fun right => ih (.binary op left right)

theorem chain_blind {ops : List String} {operand : Reader Node} (h : Blind f operand) :
    Blind f (chain ops operand) := by
  rw [chain_eq]
  refine h.bind fun left ts => ?_
  rw [chainLoop, chainLoop, List.length_map]
  exact chainFrom_blind hf h ts.length left ts

theorem expressionOver_blind {operand : Reader Node} (h : Blind f operand) :
    Blind f (expressionOver operand) :=
  chain_blind hf (chain_blind hf (chain_blind hf (chain_blind hf h)))

theorem manyUntil_blind {stop : Token → Bool} (hstop : ∀ t, stop (f t) = stop t)
    {item : Reader α} (h : Blind f item) (fuel : Nat) : Blind f (manyUntil stop item fuel) := by
  induction fuel with
  | zero => exact pure_blind f []
  | succ fuel ih =>
    refine peek_blind hf fun ts => ?_
    simp only [hstop]
    split
    · exact pure_blind f [] ts
    · exact (h.bind fun first => ih.bind fun others => pure_blind f (first :: others)) ts

theorem manyLoop_blind {stop : Token → Bool} (hstop : ∀ t, stop (f t) = stop t)
    {item : Reader α} (h : Blind f item) : Blind f (manyLoop stop item) := by
  intro ts
  rw [manyLoop, manyLoop, List.length_map]
  exact manyUntil_blind hf hstop h ts.length ts

/-! ## Expressions -/

theorem atom_blind : Blind f atom := by
  refine peek_blind hf fun ts => ?_
  -- the text of a token that is no number is kept
  have htext : (next ts).kind ≠ .number → (f (next ts)).text = (next ts).text :=
    fun hk => hf.text _ fun hn => absurd hn hk
  simp only [hf.kind]
  cases hk : (next ts).kind with
  | number =>
    simp only [bind_eq, take, hf.next, ← List.map_tail]
    cases hx : readNumber? (next ts).text with
    | some x =>
      rw [hf.text _ fun _ => by rw [hx]; rfl, hx]
      exact .ok (Node.literal (.number x)) ts.tail
    | none =>
      by_cases hsame : (f (next ts)).text = (next ts).text
      · rw [hsame, hx]
        exact .error (.malformedNumber (next ts)) ts.tail
      · exact .malformed hsame ts.tail _
  | string =>
    simp only [bind_eq, take, hf.next, ← List.map_tail, htext (by simp [hk])]
    exact .ok (Node.literal (.string (next ts).text)) ts.tail
  | identifier =>
    simp only [bind_eq, take, hf.next, ← List.map_tail, htext (by simp [hk])]
    exact .ok (Node.var (next ts).text) ts.tail
  | keyword =>
    simp only [htext (by simp [hk])]
    split
    · simp only [bind_eq, take, hf.next, ← List.map_tail, htext (by simp [hk])]
      exact .ok (Node.literal (.boolean ((next ts).text = "true"))) ts.tail
    · exact .error (.expectedExpression (next ts)) ts
  | operator | symbol | endOfInput => exact .error (.expectedExpression (next ts)) ts

/-- A token is taken and refused. -/
theorem take_tooDeep_blind (ts : List Token) :
    Follows f ((take >>= fun t => (refuse (.nestedTooDeeply t) : Reader α)) ts)
      ((take >>= fun t => (refuse (.nestedTooDeeply t) : Reader α)) (ts.map f)) := by
  simp only [bind_eq, take, hf.next, ← List.map_tail]
  exact .error (.nestedTooDeeply (next ts)) ts.tail

theorem operand_blind (n : Nat) : Blind f (operand n) := by
  induction n with
  | zero =>
    rw [operand]
    refine peek_blind hf fun ts => ?_
    simp only [hf.opens, hf.is (show TokenKind.symbol ≠ .number by decide)]
    split
    · exact take_tooDeep_blind hf ts
    · split
      · exact take_tooDeep_blind hf ts
      · exact atom_blind hf ts
  | succ n ih =>
    rw [operand]
    refine peek_blind hf fun ts => ?_
    simp only [hf.opens, hf.is (show TokenKind.symbol ≠ .number by decide)]
    split
    · rename_i hop
      simp only [Bool.and_eq_true, decide_eq_true_eq] at hop
      have htext : (f (next ts)).text = (next ts).text :=
        hf.text _ fun hn => by rw [hop.1] at hn; cases hn
      simp only [bind_eq, take, hf.next, ← List.map_tail, htext]
      have hrest := (ih.bind fun e => pure_blind f (Node.unary (next ts).text e)) ts.tail
      rwa [bind_eq, bind_eq] at hrest
    · split
      · have hrest := ((expressionOver_blind hf ih).bind fun e =>
          (symbol_blind hf ")").bind fun _ => pure_blind f e) ts.tail
        rw [bind_eq, bind_eq]
        simp only [take, ← List.map_tail]
        exact hrest
      · exact atom_blind hf ts

theorem expression_blind (n : Nat) : Blind f (expression n) :=
  expressionOver_blind hf (operand_blind hf n)

/-! ## Statements -/

section

variable {expression statement : Reader Node} (he : Blind f expression) (hs : Blind f statement)

include he in
theorem before_symbol_blind (text : String) (g : Node → Node) :
    Blind f (expression >>= fun e => symbol text >>= fun _ => pure (g e)) :=
  he.bind fun e => (symbol_blind hf text).bind fun _ => pure_blind f (g e)

include he in
theorem condition_blind : Blind f (condition expression) :=
  (symbol_blind hf "(").bind fun _ => before_symbol_blind hf he ")" id

include he hs in
theorem branch_blind : Blind f (branch expression statement) := by
  refine (condition_blind hf he).bind fun c => hs.bind fun t => ?_
  refine (accept_blind hf .keyword "else" (by decide)).bind fun alt => ?_
  cases alt with
  | true => exact hs.bind fun e => pure_blind f _
  | false => exact pure_blind f _

include he hs in
theorem loop_blind : Blind f (loop expression statement) :=
  (condition_blind hf he).bind fun _ => hs.bind fun _ => pure_blind f _

include hs in
theorem block_blind : Blind f (block statement) := by
  have hstop : ∀ t, endsBlock (f t) = endsBlock t := by
    intro t
    simp only [endsBlock, Token.isEnd, hf.kind, hf.is (show TokenKind.symbol ≠ .number by decide)]
  rw [block_eq]
  exact (manyLoop_blind hf hstop hs).bind fun body => (symbol_blind hf "\x7d").bind fun _ =>
    (accept_blind hf .symbol ";" (by decide)).bind fun _ => pure_blind f (Node.block body)

include he hs in
theorem compoundStatement_blind : Blind f (compoundStatement expression statement) := by
  refine (accept_blind hf .keyword "if" (by decide)).bind fun isBranch => ?_
  cases isBranch with
  | true => exact branch_blind hf he hs
  | false =>
    refine (accept_blind hf .keyword "while" (by decide)).bind fun isLoop => ?_
    cases isLoop with
    | true => exact loop_blind hf he hs
    | false => exact (symbol_blind hf "\x7b").bind fun _ => block_blind hf hs

theorem startsAssignment_map (ts : List Token) :
    startsAssignment (ts.map f) = startsAssignment ts := by
  match ts with
  | [] => rfl
  | [_] => rfl
  | s :: t :: _ =>
    simp only [List.map_cons, startsAssignment, hf.kind,
      hf.is (show TokenKind.symbol ≠ .number by decide)]

include he in
theorem simpleStatement_blind : Blind f (simpleStatement expression) := by
  refine (accept_blind hf .keyword "print" (by decide)).bind fun isPrint => ?_
  cases isPrint with
  | true => exact before_symbol_blind hf he ";" .print
  | false =>
    intro ts
    show Follows f ((if startsAssignment ts then _ else _ : Reader Node) ts)
      ((if startsAssignment (ts.map f) then _ else _ : Reader Node) (ts.map f))
    rw [startsAssignment_map hf]
    split
    · rename_i hassign
      have hname : (next ts).kind = .identifier := by
        obtain ⟨x, eq, us, rfl, hx, -⟩ := eq_of_startsAssignment hassign
        exact hx
      have htext : (f (next ts)).text = (next ts).text :=
        hf.text _ fun hn => by rw [hname] at hn; cases hn
      have hrest := ((symbol_blind hf "=").bind fun _ =>
        before_symbol_blind hf he ";" (.assign (next ts).text)) ts.tail
      rw [bind_eq, bind_eq]
      simp only [take, hf.next, ← List.map_tail, htext]
      exact hrest
    · exact before_symbol_blind hf he ";" .expr ts

end

theorem statement_blind (n : Nat) : Blind f (statement n) := by
  have hopen : ∀ t, opensCompound (f t) = opensCompound t := by
    intro t
    simp only [opensCompound, hf.is (show TokenKind.symbol ≠ .number by decide),
      hf.is (show TokenKind.keyword ≠ .number by decide)]
  induction n with
  | zero =>
    rw [statement]
    refine peek_blind hf fun ts => ?_
    simp only [hopen]
    split
    · exact .error (.nestedTooDeeply (next ts)) ts
    · exact simpleStatement_blind hf (expression_blind hf 0) ts
  | succ n ih =>
    rw [statement]
    refine peek_blind hf fun ts => ?_
    simp only [hopen]
    split
    · exact compoundStatement_blind hf (expression_blind hf n) ih ts
    · exact simpleStatement_blind hf (expression_blind hf (n + 1)) ts

/-- **Recursive descent goes the same way on replaced tokens.** -/
theorem program_blind : Blind f program := by
  have hstop : ∀ t : Token, (f t).isEnd = t.isEnd := by
    intro t
    simp only [Token.isEnd, hf.kind]
  exact manyLoop_blind hf hstop (statement_blind hf maxNesting)

end Loops

/-! ## Derivations -/

section Derivations

variable {f : Token → Token} (hf : Relabels f)
include hf

/-- A token of a given text, replaced. -/
def Relabels.terminal {kind : TokenKind} {text : String} (hk : kind ≠ .number)
    (t : Terminal kind text) : Terminal kind text :=
  ⟨f t.1, by rw [hf.kind, t.2.1], by
    rw [hf.text _ fun hn => absurd (t.2.1.symm.trans hn) hk, t.2.2]⟩

/-- An operator, replaced. -/
def Relabels.operator {ops : List String} (op : Operator ops) : Operator ops :=
  ⟨f op.1, by rw [hf.kind, op.2.1], by
    rw [hf.text _ fun hn => by rw [op.2.1] at hn; cases hn]
    exact op.2.2⟩

theorem Relabels.isAtomToken {t : Token} (h : IsAtomToken t) : IsAtomToken (f t) := by
  simp only [IsAtomToken, hf.kind]
  rcases h with hk | hk | hk | ⟨hk, htext⟩
  · exact Or.inl hk
  · exact Or.inr (Or.inl hk)
  · exact Or.inr (Or.inr (Or.inl hk))
  · rw [hf.text t fun hn => by rw [hk] at hn; cases hn]
    exact Or.inr (Or.inr (Or.inr ⟨hk, htext⟩))

/-- What is derived is derived of replaced tokens too. -/
theorem exists_relabel_expr : {k : Nat} → (e : Expr k) →
    ∃ e' : Expr k, e'.yield = e.yield.map f
  | _, .atom t h => ⟨.atom (f t) (hf.isAtomToken h), rfl⟩
  | _, .unary op e => by
    obtain ⟨e', he⟩ := exists_relabel_expr e
    exact ⟨.unary (hf.operator op) e', by simp [Expr.yield, he, Relabels.operator]⟩
  | _, .group l e r => by
    obtain ⟨e', he⟩ := exists_relabel_expr e
    exact ⟨.group (hf.terminal (by decide) l) e' (hf.terminal (by decide) r),
      by simp [Expr.yield, he, Relabels.terminal]⟩
  | _, .tighter e => by
    obtain ⟨e', he⟩ := exists_relabel_expr e
    exact ⟨.tighter e', he⟩
  | _, .binary l op r => by
    obtain ⟨l', hl⟩ := exists_relabel_expr l
    obtain ⟨r', hr⟩ := exists_relabel_expr r
    exact ⟨.binary l' (hf.operator op) r', by simp [Expr.yield, hl, hr, Relabels.operator]⟩

theorem exists_relabel_test (c : Test) : ∃ c' : Test, c'.yield = c.yield.map f := by
  obtain ⟨e', he⟩ := exists_relabel_expr hf c.e
  exact ⟨⟨hf.terminal (by decide) c.l, e', hf.terminal (by decide) c.r⟩,
    by simp [Test.yield, he, Relabels.terminal]⟩

end Derivations

mutual

theorem exists_relabel_stmt {f : Token → Token} (hf : Relabels f) : {b : Bool} → (s : Stmt b) →
    ∃ s' : Stmt b, s'.yield = s.yield.map f
  | _, .expr e semi => by
    obtain ⟨e', he⟩ := exists_relabel_expr hf e
    exact ⟨.expr e' (hf.terminal (by decide) semi), by simp [Stmt.yield, he, Relabels.terminal]⟩
  | _, .assign x eq e semi => by
    obtain ⟨e', he⟩ := exists_relabel_expr hf e
    exact ⟨.assign ⟨f x.1, (hf.kind x.1).trans x.2⟩ (hf.terminal (by decide) eq) e'
      (hf.terminal (by decide) semi), by simp [Stmt.yield, he, Relabels.terminal]⟩
  | _, .print word e semi => by
    obtain ⟨e', he⟩ := exists_relabel_expr hf e
    exact ⟨.print (hf.terminal (by decide) word) e' (hf.terminal (by decide) semi),
      by simp [Stmt.yield, he, Relabels.terminal]⟩
  | _, .branch word c body => by
    obtain ⟨c', hc⟩ := exists_relabel_test hf c
    obtain ⟨body', hbody⟩ := exists_relabel_stmt hf body
    exact ⟨.branch (hf.terminal (by decide) word) c' body',
      by simp [Stmt.yield, hc, hbody, Relabels.terminal]⟩
  | _, .branchElse word c body alt other => by
    obtain ⟨c', hc⟩ := exists_relabel_test hf c
    obtain ⟨body', hbody⟩ := exists_relabel_stmt hf body
    obtain ⟨other', hother⟩ := exists_relabel_stmt hf other
    exact ⟨.branchElse (hf.terminal (by decide) word) c' body' (hf.terminal (by decide) alt)
      other', by simp [Stmt.yield, hc, hbody, hother, Relabels.terminal]⟩
  | _, .loop word c body => by
    obtain ⟨c', hc⟩ := exists_relabel_test hf c
    obtain ⟨body', hbody⟩ := exists_relabel_stmt hf body
    exact ⟨.loop (hf.terminal (by decide) word) c' body',
      by simp [Stmt.yield, hc, hbody, Relabels.terminal]⟩
  | _, .block l body r semi => by
    obtain ⟨body', hbody⟩ := exists_relabel_stmts hf body
    refine ⟨.block (hf.terminal (by decide) l) body' (hf.terminal (by decide) r)
      (semi.map (hf.terminal (by decide))), ?_⟩
    cases semi <;> simp [Stmt.yield, hbody, Relabels.terminal]

theorem exists_relabel_stmts {f : Token → Token} (hf : Relabels f) : (ss : Stmts) →
    ∃ ss' : Stmts, ss'.yield = ss.yield.map f
  | .nil => ⟨.nil, by simp [Stmts.yield]⟩
  | .cons s rest => by
    obtain ⟨s', hs⟩ := exists_relabel_stmt hf s
    obtain ⟨rest', hrest⟩ := exists_relabel_stmts hf rest
    exact ⟨.cons s' rest', by simp [Stmts.yield, hs, hrest]⟩

end


/-! ## Unreadable numbers -/

/-- A token, with the text of a number replaced if it cannot be read. -/
def legible (t : Token) : Token :=
  if t.kind = .number ∧ readNumber? t.text = none then { t with text := "0" } else t

theorem legible_kind (t : Token) : (legible t).kind = t.kind := by
  unfold legible
  split <;> rfl

theorem legible_of_readable {t : Token} (h : t.kind = .number → (readNumber? t.text).isSome) :
    legible t = t := by
  refine if_neg fun ⟨hk, hnone⟩ => ?_
  have hsome := h hk
  rw [hnone] at hsome
  cases hsome

theorem legible_relabels : Relabels legible where
  kind := legible_kind
  text t h := by rw [legible_of_readable h]
  fallback := legible_of_readable fun hk => by cases hk

theorem readable_legible (ts : List Token) : Readable (ts.map legible) := by
  intro t ht hk
  obtain ⟨s, -, rfl⟩ := List.mem_map.1 ht
  by_cases hs : s.kind = .number ∧ readNumber? s.text = none
  · have hzero : (readNumber? "0").isSome = true := by decide
    rwa [legible, if_pos hs]
  · rw [legible_kind] at hk
    rw [legible, if_neg hs]
    cases hx : readNumber? s.text with
    | none => exact absurd ⟨hk, hx⟩ hs
    | some x => rfl

/-- On the tokens of a derivation whose numbers have all become readable,
    recursive descent refuses only the nesting. -/
theorem program_legible_error (d : Stmts) {rest : List Token} (hend : (next rest).isEnd = true)
    {g : Refusal} (h : program ((d.yield ++ rest).map legible) = .error g) :
    ∃ t, g.error = .nestedTooDeeply t := by
  obtain ⟨d', hyield⟩ := exists_relabel_stmts legible_relabels d
  have hread : Readable d'.yield := hyield ▸ readable_legible d.yield
  have hend' : (next (rest.map legible)).isEnd = true := by
    rw [legible_relabels.next, Token.isEnd, legible_kind]
    exact hend
  have hreading := program_reading d' hread hend'
  rw [List.map_append, ← hyield] at h
  rcases Nat.lt_or_ge maxNesting d'.nesting with hdeep | hdeep
  · obtain ⟨t, rest', ht⟩ := hreading.tooDeep hdeep
    cases ht.symm.trans h
    exact ⟨t, rfl⟩
  · cases (hreading.ok hdeep).symm.trans h

/-- **On the tokens of a derivation nothing else is expected**: recursive
    descent refuses only their nesting, or a number. -/
theorem program_expects_none (d : Stmts) {rest : List Token} (hend : (next rest).isEnd = true)
    {g : Refusal} (h : program (d.yield ++ rest) = .error g) :
    (∃ t, g.error = .nestedTooDeeply t) ∨ ∃ t, g.error = .malformedNumber t := by
  have hfollows := program_blind legible_relabels (d.yield ++ rest)
  rw [h] at hfollows
  rcases hfollows.of_error with hmalformed | ⟨g', hg', herror⟩
  · exact Or.inr hmalformed
  · obtain ⟨t, ht⟩ := program_legible_error d hend hg'
    rw [ht] at herror
    cases he : g.error with
    | nestedTooDeeply s => exact Or.inl ⟨s, rfl⟩
    | malformedNumber s => exact Or.inr ⟨s, rfl⟩
    | _ => rw [he] at herror; cases herror

end BlockScript.Descent
