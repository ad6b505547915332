/-
  BlockScript — what the grammar derives, recursive descent accepts.

  On the tokens of a derivation, with anything after them that does not go on
  with it, a reader gives the tree of the derivation if the levels of nesting
  that it was given are enough, and otherwise refuses for the depth alone.
  The texts of numbers are taken to be readable.

  * `expression_reading`, `statement_reading`, `program_reading`.
-/
import BlockScript.Descent.Statement
import BlockScript.Proofs.Descent.Reader
import BlockScript.Proofs.Descent.Sound
import BlockScript.Proofs.Grammar.Shape

namespace BlockScript.Descent

open Grammar

/-! ## Expressions -/

/-- The reader reads all expressions over `k` levels of operators for which
    `n` levels of nesting are enough. -/
def ReadsExpr (k n : Nat) (r : Reader Node) : Prop :=
  ∀ (d : Expr k) (rest : List Token), Readable d.yield → Stops k rest →
    Reading r n d.nesting (d.yield ++ rest) d.tree rest

theorem Reading.congr {α : Type} {r r' : Reader α} {n d : Nat} {ts rest : List Token} {a : α}
    (h : Reading r n d ts a rest) (he : r' ts = r ts) : Reading r' n d ts a rest where
  ok hd := he.trans (h.ok hd)
  tooDeep hd := by
    obtain ⟨t, rest', ht⟩ := h.tooDeep hd
    exact ⟨t, rest', he.trans ht⟩

/-- One level deeper: a reader that runs another one with a level less. -/
theorem Reading.deeper {α : Type} {r r' : Reader α} {n d : Nat} {ts ts' rest : List Token} {a : α}
    (h : Reading r n d ts a rest) (he : r' ts' = r ts) : Reading r' (n + 1) (d + 1) ts' a rest where
  ok hd := he.trans (h.ok (by omega))
  tooDeep hd := by
    obtain ⟨t, rest', ht⟩ := h.tooDeep (by omega)
    exact ⟨t, rest', he.trans ht⟩

/-- With no level left, anything that nests is too deep. -/
theorem Reading.of_tooDeep {α : Type} {r : Reader α} {d : Nat} {ts rest rest' : List Token}
    {a : α} {t : Token} (h : r ts = .error ⟨.nestedTooDeeply t, rest'⟩) :
    Reading r 0 (d + 1) ts a rest :=
  ⟨fun hd => absurd hd (by omega), fun _ => ⟨t, rest', h⟩⟩

theorem not_isOperator_next {k : Nat} {rest : List Token} (h : Stops (k + 1) rest) :
    ¬ IsOperator (levelOps k) (next rest) := by
  cases rest with
  | nil => exact fun hop => absurd hop.1 (by decide)
  | cons t rest => exact h t rfl k (by omega)

/-- The largest nesting of the operands of links. -/
def linksNesting {k : Nat} (links : List (Link k)) : Nat :=
  links.foldr (fun link m => max link.2.nesting m) 0

theorem nesting_extend {k : Nat} (l : Expr (k + 1)) (links : List (Link k)) :
    (l.extend links).nesting = max l.nesting (linksNesting links) := by
  induction links generalizing l with
  | nil => simp [Expr.extend, linksNesting]
  | cons link links ih =>
    have h := ih (.binary l link.1 link.2)
    simp only [Expr.extend, List.foldl_cons, linksNesting, List.foldr_cons, Expr.nesting] at h ⊢
    omega

theorem chainFrom_reading {k n : Nat} {operand : Reader Node} (h : ReadsExpr k n operand)
    (links : List (Link k)) {l : Expr (k + 1)} {fuel : Nat} {rest : List Token}
    (hfuel : (linksYield links ++ rest).length ≤ fuel) (hread : Readable (linksYield links))
    (hstop : Stops (k + 1) rest) :
    Reading (chainFrom (levelOps k) operand fuel l.tree) n (linksNesting links)
      (linksYield links ++ rest) (l.extend links).tree rest := by
  induction links generalizing l fuel with
  | nil =>
    cases fuel with
    | zero => exact .of_ok rfl
    | succ fuel =>
      exact .bind_ok (acceptOperator_of_not (not_isOperator_next hstop)) (.of_ok rfl)
  | cons link links ih =>
    obtain ⟨op, r⟩ := link
    simp only [linksYield_cons, List.cons_append, List.append_assoc, List.length_cons,
      List.length_append] at hfuel ⊢
    rw [linksYield_cons, readable_cons (by simp [op.2.1]), readable_append] at hread
    cases fuel with
    | zero => omega
    | succ fuel =>
      refine .bind_ok (acceptOperator_cons op _) ((h r _ hread.1 (hstop.links links)).bind ?_)
      exact ih (l := .binary l op r) (by rw [List.length_append]; omega) hread.2

theorem chain_reading {k n : Nat} {operand : Reader Node} (h : ReadsExpr k n operand) :
    ReadsExpr (k + 1) n (chain (levelOps k) operand) := by
  intro d rest hread hstop
  obtain ⟨e, links, rfl⟩ := d.exists_links
  rw [Expr.yield_extend, readable_append] at hread
  rw [Expr.yield_extend, nesting_extend, List.append_assoc]
  refine (h e _ hread.1 (hstop.links links)).bind (.bind_ok rfl ?_)
  exact chainFrom_reading h links (l := .tighter e) (Nat.le_refl _) hread.2 hstop

theorem expressionOver_reading {n : Nat} {operand : Reader Node} (h : ReadsExpr 0 n operand) :
    ReadsExpr 4 n (expressionOver operand) :=
  chain_reading (chain_reading (chain_reading (chain_reading h)))

theorem atom_cons {t : Token} (h : IsAtomToken t) (hread : Readable [t]) (rest : List Token) :
    atom (t :: rest) = .ok (atomTree t, rest) := by
  have hx : t.kind = .number → ∃ x, readNumber? t.text = some x :=
    fun hk => Option.isSome_iff_exists.1 (hread t (List.mem_singleton_self t) hk)
  rw [atom, bind_eq]
  rcases h with hk | hk | hk | ⟨hk, htext⟩
  · obtain ⟨x, hx⟩ := hx hk
    simp only [peek, next, hk, atomTree, hx]
    rw [bind_eq]
    simp only [take, next, hx]
    rfl
  · simp only [peek, next, hk, atomTree]
    rfl
  · simp only [peek, next, hk, atomTree]
    rfl
  · have hif : (decide (t.text = "true") || decide (t.text = "false")) = true := by simpa using htext
    simp only [peek, next, hk, atomTree, hif, if_true]
    rfl

/-- A number token is taken, and then read. -/
theorem atom_number {t : Token} (hkind : t.kind = .number) (rest : List Token) :
    atom (t :: rest) = match readNumber? t.text with
      | some x => .ok (.literal (.number x), rest)
      | none => .error ⟨.malformedNumber t, rest⟩ := by
  rw [atom, bind_eq]
  simp only [peek, next, hkind]
  rw [bind_eq]
  simp only [take, next, List.tail_cons]
  cases readNumber? t.text <;> rfl

/-- A token that is no atom is refused where it stands. -/
theorem atom_of_not {t : Token} (h : ¬ IsAtomToken t) (rest : List Token) :
    atom (t :: rest) = .error ⟨.expectedExpression t, t :: rest⟩ := by
  rw [atom, bind_eq]
  simp only [IsAtomToken, not_or, not_and] at h
  cases hk : t.kind with
  | number | string | identifier => simp [hk] at h
  | keyword =>
    simp only [peek, next, hk, h.2.2.2 hk]
    rfl
  | operator | symbol | endOfInput =>
    simp only [peek, next, hk]
    rfl

theorem operand_of_not {t : Token} (hop : ¬ IsOperator prefixOps t)
    (hl : ¬ (t.kind = .symbol ∧ t.text = "(")) (n : Nat) (rest : List Token) :
    operand n (t :: rest) = atom (t :: rest) := by
  have hop : (decide (t.kind = .operator) && unaryOps.contains t.text) = false := by
    rw [Bool.eq_false_iff]
    intro h
    simp only [Bool.and_eq_true, decide_eq_true_eq, List.contains_iff_mem] at h
    exact hop h
  rw [← Token.is_iff] at hl
  rw [operand, bind_eq]
  simp only [peek, next, hop, hl, Bool.false_eq_true, if_false]

theorem operand_atom {t : Token} (h : IsAtomToken t) (n : Nat) (rest : List Token) :
    operand n (t :: rest) = atom (t :: rest) :=
  operand_of_not (fun hop => h.kind_ne_operator hop.1) (fun hl => h.kind_ne_symbol hl.1) n rest

theorem operand_unary (op : Operator prefixOps) (n : Nat) (rest : List Token) :
    operand (n + 1) (op.1 :: rest) = (operand n >>= fun e => pure (.unary op.1.text e)) rest := by
  have hop : (decide (op.1.kind = .operator) && unaryOps.contains op.1.text) = true := by
    simp only [Bool.and_eq_true, decide_eq_true_eq, List.contains_iff_mem]
    exact op.2
  rw [operand, bind_eq]
  simp only [peek, next, hop, if_true]
  rfl

theorem operand_unary_zero (op : Operator prefixOps) (rest : List Token) :
    operand 0 (op.1 :: rest) = .error ⟨.nestedTooDeeply op.1, rest⟩ := by
  have hop : (decide (op.1.kind = .operator) && unaryOps.contains op.1.text) = true := by
    simp only [Bool.and_eq_true, decide_eq_true_eq, List.contains_iff_mem]
    exact op.2
  rw [operand, bind_eq]
  simp only [peek, next, hop, if_true]
  rfl

theorem operand_group (l : Terminal .symbol "(") (n : Nat) (rest : List Token) :
    operand (n + 1) (l.1 :: rest) =
      (expressionOver (operand n) >>= fun e => symbol ")" >>= fun _ => pure e) rest := by
  rw [operand, bind_eq]
  simp only [peek, next, l.2.1, is_of_terminal l, reduceCtorEq, decide_false, Bool.false_and,
    Bool.false_eq_true, if_false, if_true]
  rfl

theorem operand_group_zero (l : Terminal .symbol "(") (rest : List Token) :
    operand 0 (l.1 :: rest) = .error ⟨.nestedTooDeeply l.1, rest⟩ := by
  rw [operand, bind_eq]
  simp only [peek, next, l.2.1, is_of_terminal l, reduceCtorEq, decide_false, Bool.false_and,
    Bool.false_eq_true, if_false, if_true]
  rfl

theorem operand_reading (n : Nat) : ReadsExpr 0 n (operand n) := by
  induction n with
  | zero =>
    intro d rest hread hstop
    cases d with
    | atom t h => exact .of_ok ((operand_atom h 0 rest).trans (atom_cons h hread rest))
    | unary op e => exact .of_tooDeep (operand_unary_zero op _)
    | group l e r => exact .of_tooDeep (operand_group_zero l _)
  | succ n ih =>
    intro d rest hread hstop
    cases d with
    | atom t h => exact .of_ok ((operand_atom h (n + 1) rest).trans (atom_cons h hread rest))
    | unary op e =>
      rw [Expr.readable_unary] at hread
      exact ((ih e rest hread hstop).then_ok rfl).deeper (operand_unary op n _)
    | group l e r =>
      rw [Expr.readable_group] at hread
      have hinner := expressionOver_reading ih e (r.1 :: rest) hread
        (stops_cons_of_kind (by simp [r.2.1]))
      have hclose := hinner.bind (f := fun e => symbol ")" >>= fun _ => pure e)
        (.bind_ok (symbol_cons r rest) (.of_ok rfl))
      rw [Nat.max_zero] at hclose
      rw [Expr.yield, List.cons_append, List.append_assoc, List.singleton_append]
      exact hclose.deeper (operand_group l n _)

theorem expression_reading (n : Nat) : ReadsExpr 4 n (expression n) :=
  expressionOver_reading (operand_reading n)

/-! ## The form of a statement -/

theorem startsAssignment_expr {k : Nat} (e : Expr k) (semi : Terminal .symbol ";")
    (rest : List Token) : startsAssignment (e.yield ++ semi.1 :: rest) = false := by
  unfold startsAssignment
  split
  · next x t ts h =>
    have hname := e.not_assigned h
    rw [← Token.is_iff] at hname
    simpa using hname
  · rfl

theorem accept_print_of_startsExpr {t : Token} (h : StartsExpr t) (rest : List Token) :
    accept .keyword "print" (t :: rest) = .ok (false, t :: rest) := by
  refine accept_of_not fun hp => ?_
  simp only [StartsExpr, IsAtomToken, IsOperator, next] at h hp
  grind

theorem not_next_else {b : Bool} {rest : List Token} (h : Leaves b rest) (hb : b = true) :
    ¬ ((next rest).kind = .keyword ∧ (next rest).text = "else") := by
  cases rest with
  | nil => exact fun h => absurd h.1 (by decide)
  | cons t rest => exact (h t rfl).2 hb

theorem not_next_semicolon {b : Bool} {rest : List Token} (h : Leaves b rest) :
    ¬ ((next rest).kind = .symbol ∧ (next rest).text = ";") := by
  cases rest with
  | nil => exact fun h => absurd h.1 (by decide)
  | cons t rest => exact (h t rfl).1

theorem opensCompound_of_terminal {t : Token} {kind : TokenKind} {text : String}
    (h : t.kind = kind ∧ t.text = text)
    (hopen : (kind = .keyword ∧ (text = "if" ∨ text = "while")) ∨
      (kind = .symbol ∧ text = "\x7b")) : opensCompound t = true := by
  simp only [opensCompound, Token.is]
  grind

theorem not_opensCompound {t : Token}
    (h : StartsExpr t ∨ (t.kind = .keyword ∧ t.text = "print")) : opensCompound t = false := by
  simp only [StartsExpr, IsAtomToken, IsOperator] at h
  simp only [opensCompound, Token.is]
  grind

theorem statement_compound {t : Token} (h : opensCompound t = true) (n : Nat)
    (ts : List Token) :
    statement (n + 1) (t :: ts) =
      compoundStatement (expression n) (statement n) (t :: ts) := by
  rw [statement, bind_eq]
  simp only [peek, next, h, if_true]

theorem statement_compound_zero {t : Token} (h : opensCompound t = true) (ts : List Token) :
    statement 0 (t :: ts) = .error ⟨.nestedTooDeeply t, t :: ts⟩ := by
  rw [statement, bind_eq]
  simp only [peek, next, h, if_true]
  rfl

theorem statement_simple {t : Token} (h : opensCompound t = false) (n : Nat)
    (ts : List Token) :
    statement n (t :: ts) = simpleStatement (expression n) (t :: ts) := by
  rw [statement, bind_eq]
  simp only [peek, next, h, Bool.false_eq_true, if_false]

theorem statement_if (word : Terminal .keyword "if") (n : Nat) (ts : List Token) :
    statement (n + 1) (word.1 :: ts) = branch (expression n) (statement n) ts := by
  rw [statement_compound (opensCompound_of_terminal word.2 (by simp)), compoundStatement,
    bind_eq, accept_cons word]
  rfl

theorem statement_while (word : Terminal .keyword "while") (n : Nat) (ts : List Token) :
    statement (n + 1) (word.1 :: ts) = loop (expression n) (statement n) ts := by
  have hif : accept .keyword "if" (word.1 :: ts) = .ok (false, word.1 :: ts) :=
    accept_of_not (by simp [next, word.2.2])
  rw [statement_compound (opensCompound_of_terminal word.2 (by simp)), compoundStatement,
    bind_eq, hif]
  show (accept .keyword "while" >>= _) _ = _
  rw [bind_eq, accept_cons word]
  rfl

theorem statement_block (l : Terminal .symbol "\x7b") (n : Nat) (ts : List Token) :
    statement (n + 1) (l.1 :: ts) = block (statement n) ts := by
  have hword : ∀ text, accept .keyword text (l.1 :: ts) = .ok (false, l.1 :: ts) :=
    fun text => accept_of_not (by simp [next, l.2.1])
  rw [statement_compound (opensCompound_of_terminal l.2 (by simp)), compoundStatement,
    bind_eq, hword]
  show (accept .keyword "while" >>= _) _ = _
  rw [bind_eq, hword]
  show (symbol "\x7b" >>= _) _ = _
  rw [bind_eq, symbol_cons l]

/-! ## Statements -/

/-- The reader reads all statements for which `n` levels of nesting are
    enough. -/
def ReadsStmt (n : Nat) (r : Reader Node) : Prop :=
  ∀ {b : Bool} (s : Stmt b) (rest : List Token), Readable s.yield → Leaves b rest →
    Reading r n s.nesting (s.yield ++ rest) s.tree rest

/-- An expression and a symbol after it. -/
theorem ReadsExpr.before_symbol {n : Nat} {r : Reader Node} (h : ReadsExpr 4 n r) (e : Expr 4)
    {text : String} (s : Terminal .symbol text) (f : Node → Node) (rest : List Token)
    (hread : Readable e.yield) :
    Reading (r >>= fun e => symbol text >>= fun _ => pure (f e)) n e.nesting
      (e.yield ++ s.1 :: rest) (f e.tree) rest := by
  have hinner := h e (s.1 :: rest) hread (stops_cons_of_kind (by simp [s.2.1]))
  refine hinner.then_ok ?_
  rw [bind_eq, symbol_cons s rest]
  rfl

theorem condition_reading {n : Nat} {r : Reader Node} (h : ReadsExpr 4 n r) (c : Test)
    (rest : List Token) (hread : Readable c.e.yield) :
    Reading (condition r) n c.e.nesting (c.yield ++ rest) c.e.tree rest := by
  rw [Test.yield, List.cons_append, List.append_assoc]
  exact .bind_ok (symbol_cons c.l _) (h.before_symbol c.e c.r id rest hread)

theorem print_reading (n : Nat) (word : Terminal .keyword "print") (e : Expr 4)
    (semi : Terminal .symbol ";") (rest : List Token)
    (hread : Readable (Stmt.print word e semi).yield) :
    Reading (statement n) n e.nesting ((Stmt.print word e semi).yield ++ rest)
      (.print e.tree) rest := by
  rw [Stmt.readable_print] at hread
  rw [Stmt.yield, List.cons_append, List.append_assoc]
  refine .congr ?_ (statement_simple (not_opensCompound (Or.inr word.2)) n _)
  exact .bind_ok (accept_cons word _)
    ((expression_reading n).before_symbol e semi .print rest hread)

theorem assign_reading (n : Nat) (x : {t : Token // t.kind = .identifier})
    (eq : Terminal .symbol "=") (e : Expr 4) (semi : Terminal .symbol ";") (rest : List Token)
    (hread : Readable (Stmt.assign x eq e semi).yield) :
    Reading (statement n) n e.nesting ((Stmt.assign x eq e semi).yield ++ rest)
      (.assign x.1.text e.tree) rest := by
  rw [Stmt.readable_assign] at hread
  rw [Stmt.yield, List.cons_append, List.cons_append, List.append_assoc]
  have hname : StartsExpr x.1 := Or.inl (Or.inr (Or.inr (Or.inl x.2)))
  have hassign : startsAssignment (x.1 :: eq.1 :: (e.yield ++ ([semi.1] ++ rest))) = true := by
    simp [startsAssignment, x.2, is_of_terminal eq]
  refine .congr ?_ (statement_simple (not_opensCompound (Or.inl hname)) n _)
  refine .bind_ok (accept_print_of_startsExpr hname _) ?_
  refine .bind_ok (f := fun ts => if startsAssignment ts then _ else _) rfl ?_
  rw [if_pos hassign]
  refine .bind_ok rfl (.bind_ok (symbol_cons eq _) ?_)
  exact (expression_reading n).before_symbol e semi (.assign x.1.text) rest hread

theorem exprStatement_reading (n : Nat) (e : Expr 4) (semi : Terminal .symbol ";")
    (rest : List Token) (hread : Readable (Stmt.expr e semi).yield) :
    Reading (statement n) n e.nesting ((Stmt.expr e semi).yield ++ rest) (.expr e.tree) rest := by
  obtain ⟨t, ts, hy, ht⟩ := e.yield_eq_cons
  rw [Stmt.readable_expr] at hread
  rw [Stmt.yield, List.append_assoc, List.singleton_append]
  have hsimple := statement_simple (not_opensCompound (Or.inl ht)) n (ts ++ semi.1 :: rest)
  have hprint := accept_print_of_startsExpr ht (ts ++ semi.1 :: rest)
  rw [← List.cons_append, ← hy] at hprint hsimple
  refine .congr ?_ hsimple
  refine .bind_ok hprint (.bind_ok (f := fun ts => if startsAssignment ts then _ else _) rfl ?_)
  rw [if_neg (by rw [startsAssignment_expr]; decide)]
  exact (expression_reading n).before_symbol e semi .expr rest hread

section
variable {n : Nat} {expression statement : Reader Node} (he : ReadsExpr 4 n expression)
  (hs : ReadsStmt n statement)

include he hs in
theorem branch_reading {b : Bool} (word : Terminal .keyword "if") (c : Test) (body : Stmt b)
    (rest : List Token) (hread : Readable (Stmt.branch word c body).yield)
    (hrest : Leaves true rest) :
    Reading (branch expression statement) n (max c.e.nesting body.nesting)
      (c.yield ++ (body.yield ++ rest)) (.cond c.e.tree body.tree .absent) rest := by
  rw [Stmt.readable_branch] at hread
  refine (condition_reading he c _ hread.1).bind ((hs body rest hread.2 hrest.weaken).then_ok ?_)
  rw [bind_eq, accept_of_not (not_next_else hrest rfl)]
  rfl

include he hs in
theorem branchElse_reading {b : Bool} (word : Terminal .keyword "if") (c : Test)
    (body : Stmt false) (alt : Terminal .keyword "else") (other : Stmt b) (rest : List Token)
    (hread : Readable (Stmt.branchElse word c body alt other).yield) (hrest : Leaves b rest) :
    Reading (branch expression statement) n (max c.e.nesting (max body.nesting other.nesting))
      (c.yield ++ (body.yield ++ alt.1 :: (other.yield ++ rest)))
      (.cond c.e.tree body.tree other.tree) rest := by
  rw [Stmt.readable_branchElse] at hread
  obtain ⟨hc, hbody, hother⟩ := hread
  refine (condition_reading he c _ hc).bind
    ((hs body _ hbody (leaves_cons_else alt.2.1)).bind ?_)
  exact .bind_ok (accept_cons alt _) ((hs other rest hother hrest).then_ok rfl)

include he hs in
theorem loop_reading {b : Bool} (word : Terminal .keyword "while") (c : Test) (body : Stmt b)
    (rest : List Token) (hread : Readable (Stmt.loop word c body).yield)
    (hrest : Leaves b rest) :
    Reading (loop expression statement) n (max c.e.nesting body.nesting)
      (c.yield ++ (body.yield ++ rest)) (.loop c.e.tree body.tree) rest := by
  rw [Stmt.readable_loop] at hread
  exact (condition_reading he c _ hread.1).bind ((hs body rest hread.2 hrest).then_ok rfl)

include hs in
/-- Statements in a row, up to a token that stops them. -/
theorem manyUntil_reading {stop : Token → Bool} (hstart : ∀ t, StartsStmt t → stop t = false)
    {rest : List Token} (hclose : Closes rest) (hstop : stop (next rest) = true) :
    (ss : Stmts) → (fuel : Nat) → (ss.yield ++ rest).length ≤ fuel → Readable ss.yield →
      Reading (manyUntil stop statement fuel) n ss.nesting (ss.yield ++ rest) ss.trees rest
  | .nil, 0, _, _ => .of_ok rfl
  | .nil, fuel + 1, _, _ => by
    rw [manyUntil, Stmts.yield, List.nil_append]
    refine .bind_ok (f := fun t => if stop t then _ else _) rfl ?_
    rw [if_pos hstop]
    exact .of_ok rfl
  | .cons s ss, fuel, hfuel, hread => by
    obtain ⟨t, ts, hy, ht⟩ := s.yield_eq_cons
    rw [Stmts.readable_cons] at hread
    rw [Stmts.yield, List.append_assoc] at hfuel ⊢
    cases fuel with
    | zero => simp [hy] at hfuel
    | succ fuel =>
      have hlen : (ss.yield ++ rest).length ≤ fuel := by
        rw [hy, List.length_append, List.length_cons] at hfuel
        omega
      rw [manyUntil]
      refine .bind_ok (f := fun t => if stop t then _ else _) rfl ?_
      rw [if_neg (by rw [hy]; simp [next, hstart t ht])]
      exact (hs s _ hread.1 (ss.leaves hclose)).bind
        ((manyUntil_reading hstart hclose hstop ss fuel hlen hread.2).then_ok rfl)

include hs in
theorem block_reading (l : Terminal .symbol "\x7b") (body : Stmts) (r : Terminal .symbol "\x7d")
    (semi : Option (Terminal .symbol ";")) (rest : List Token)
    (hread : Readable (Stmt.block l body r semi).yield) (hrest : Leaves false rest) :
    Reading (block statement) n body.nesting
      (body.yield ++ r.1 :: ((semi.map (·.1)).toList ++ rest)) (.block body.trees) rest := by
  rw [Stmt.readable_block] at hread
  have hstart : ∀ t, StartsStmt t → endsBlock t = false := by
    intro t ht
    simp only [StartsStmt, StartsExpr, IsAtomToken, IsOperator] at ht
    simp only [endsBlock, Token.is, Token.isEnd]
    grind
  have hclose : ∀ us, Closes (r.1 :: us) := by
    intro us t ht
    cases ht
    exact Or.inl r.2
  have hstop : ∀ us, endsBlock (next (r.1 :: us)) = true := by
    intro us
    simp [endsBlock, next, is_of_terminal r]
  refine .bind_ok rfl ?_
  refine (manyUntil_reading hs hstart (hclose _) (hstop _) body _ (Nat.le_refl _)
    hread).then_ok ?_
  rw [bind_eq, symbol_cons r]
  cases semi with
  | none =>
    show (accept .symbol ";" >>= fun _ => pure (Node.block body.trees)) rest = _
    rw [bind_eq, accept_of_not (not_next_semicolon hrest)]
    rfl
  | some semi =>
    show (accept .symbol ";" >>= fun _ => pure (Node.block body.trees)) (semi.1 :: rest) = _
    rw [bind_eq, accept_cons semi rest]
    rfl

end

theorem statement_reading (n : Nat) : ReadsStmt n (statement n) := by
  induction n with
  | zero =>
    intro b s rest hread hrest
    cases s with
    | branch word c body =>
      exact .of_tooDeep (statement_compound_zero (opensCompound_of_terminal word.2 (by simp)) _)
    | branchElse word c body alt other =>
      exact .of_tooDeep (statement_compound_zero (opensCompound_of_terminal word.2 (by simp)) _)
    | loop word c body =>
      exact .of_tooDeep (statement_compound_zero (opensCompound_of_terminal word.2 (by simp)) _)
    | block l body r semi =>
      exact .of_tooDeep (statement_compound_zero (opensCompound_of_terminal l.2 (by simp)) _)
    | expr e semi => exact exprStatement_reading 0 e semi rest hread
    | assign x eq e semi => exact assign_reading 0 x eq e semi rest hread
    | print word e semi => exact print_reading 0 word e semi rest hread
  | succ n ih =>
    intro b s rest hread hrest
    cases s with
    | branch word c body =>
      rw [Stmt.yield, List.cons_append, List.append_assoc]
      exact (branch_reading (expression_reading n) ih word c body rest hread hrest).deeper
        (statement_if word n _)
    | branchElse word c body alt other =>
      rw [Stmt.yield, List.cons_append, List.append_assoc, List.append_assoc, List.cons_append]
      exact (branchElse_reading (expression_reading n) ih word c body alt other rest hread
        hrest).deeper (statement_if word n _)
    | loop word c body =>
      rw [Stmt.yield, List.cons_append, List.append_assoc]
      exact (loop_reading (expression_reading n) ih word c body rest hread hrest).deeper
        (statement_while word n _)
    | block l body r semi =>
      rw [Stmt.yield, List.cons_append, List.append_assoc, List.cons_append]
      exact (block_reading ih l body r semi rest hread hrest).deeper (statement_block l n _)
    | expr e semi => exact exprStatement_reading (n + 1) e semi rest hread
    | assign x eq e semi => exact assign_reading (n + 1) x eq e semi rest hread
    | print word e semi => exact print_reading (n + 1) word e semi rest hread

/-- **What the grammar derives, recursive descent accepts**, or it refuses for
    the depth. -/
theorem program_reading (ss : Stmts) {rest : List Token} (hread : Readable ss.yield)
    (hend : (next rest).isEnd = true) :
    Reading program maxNesting ss.nesting (ss.yield ++ rest) ss.trees rest := by
  have hclose : Closes rest := by
    intro t ht
    obtain ⟨us, rfl⟩ := List.head?_eq_some_iff.1 ht
    exact Or.inr (of_decide_eq_true hend)
  exact .bind_ok rfl (manyUntil_reading (statement_reading maxNesting)
    (fun _ ht => ht.not_isEnd) hclose hend ss _ (Nat.le_refl _) hread)

end BlockScript.Descent
