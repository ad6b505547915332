/-
  BlockScript — recursive descent refuses no token too late.

  When a reader refuses a token, the tokens in front of it are the beginning of
  something that the reader accepts: they can be completed, without nesting any
  deeper than they do already.

  * `ExprTokens`, `StmtTokens`, `StmtsTokens`: the tokens that are accepted as
    an expression, a statement, or statements in a row;
  * `FailsIn L r ts`: where `r` refuses a token of `ts`, the tokens in front of
    it begin tokens of `L`;
  * `expression_fails`, `statement_fails`, `program_fails`.
-/
import BlockScript.Proofs.Descent.Complete
import BlockScript.Proofs.Descent.Lookahead

namespace BlockScript.Descent

open Grammar

variable {α β : Type}

/-! ## Completions -/

/-- The tokens begin tokens of which `L` holds. -/
def Viable (L : List Token → Prop) (ts : List Token) : Prop :=
  ∃ more, L (ts ++ more)

theorem Viable.of_mem {L : List Token → Prop} {ts : List Token} (h : L ts) : Viable L ts :=
  ⟨[], by rwa [List.append_nil]⟩

/-- The tokens of an expression over `k` levels of operators that nests at most
    `n` levels. -/
def ExprTokens (k n : Nat) (ts : List Token) : Prop :=
  ∃ d : Expr k, d.yield = ts ∧ Readable ts ∧ d.nesting ≤ n

/-- The tokens of a condition. -/
def TestTokens (n : Nat) (ts : List Token) : Prop :=
  ∃ c : Test, c.yield = ts ∧ Readable c.e.yield ∧ c.e.nesting ≤ n

/-- The tokens of a statement that nests at most `n` levels. -/
def StmtTokens (n : Nat) (ts : List Token) : Prop :=
  ∃ (b : Bool) (s : Stmt b), s.yield = ts ∧ Readable ts ∧ s.nesting ≤ n

/-- The tokens of statements in a row that nest at most `n` levels. -/
def StmtsTokens (n : Nat) (ts : List Token) : Prop :=
  ∃ ss : Stmts, ss.yield = ts ∧ Readable ts ∧ ss.nesting ≤ n

/-- A symbol to complete tokens with. -/
def someSymbol (text : String) : Terminal .symbol text :=
  ⟨⟨.symbol, text, ⟨0, 0⟩⟩, rfl, rfl⟩

/-- An expression to complete tokens with. -/
def someExpr : (k : Nat) → Expr k
  | 0 => .atom ⟨.identifier, "x", ⟨0, 0⟩⟩ (Or.inr (Or.inr (Or.inl rfl)))
  | k + 1 => .tighter (someExpr k)

theorem exprTokens_some (n : Nat) : ∀ k, ExprTokens k n (someExpr k).yield
  | 0 => ⟨someExpr 0, rfl, by simp [someExpr, Expr.yield, Readable], Nat.zero_le n⟩
  | k + 1 => by
    obtain ⟨-, -, hread, -⟩ := exprTokens_some n k
    have hnest : ∀ j, (someExpr j).nesting = 0 := by
      intro j
      induction j with
      | zero => rfl
      | succ j ih => exact ih
    exact ⟨someExpr (k + 1), rfl, hread, by rw [hnest]; exact Nat.zero_le n⟩

theorem ExprTokens.semicolon {n : Nat} {ts : List Token} (h : ExprTokens 4 n ts)
    (semi : Terminal .symbol ";") : StmtTokens n (ts ++ [semi.1]) := by
  obtain ⟨d, rfl, hread, hnest⟩ := h
  exact ⟨false, .expr d semi, rfl, (Stmt.readable_expr d semi).2 hread, hnest⟩

theorem stmtTokens_some (n : Nat) :
    StmtTokens n ((someExpr 4).yield ++ [(someSymbol ";").1]) :=
  (exprTokens_some n 4).semicolon (someSymbol ";")

/-! ## Refusals -/

/-- Where the reader refuses a token of `ts`, it names that token, and the
    tokens in front of it begin tokens of `L`. -/
def FailsIn (L : List Token → Prop) (r : Reader α) (ts : List Token) : Prop :=
  ∀ ⦃f⦄, r ts = .error f → ∃ taken, ts = taken ++ f.onwards ∧
    f.error.token? = some (next f.onwards) ∧ Viable L taken

theorem FailsIn.of_ok {L : List Token → Prop} {r : Reader α} {ts rest : List Token} {a : α}
    (h : r ts = .ok (a, rest)) : FailsIn L r ts := by
  intro f hf
  rw [h] at hf
  cases hf

/-- The first token is refused. -/
theorem FailsIn.of_refused {L : List Token → Prop} {r : Reader α} {ts : List Token} {f : Refusal}
    (h : r ts = .error f) (ho : f.onwards = ts) (ht : f.error.token? = some (next ts))
    (hL : Viable L []) : FailsIn L r ts := by
  intro g hg
  rw [h] at hg
  cases hg
  exact ⟨[], by rw [ho]; rfl, by rw [ho, ht], hL⟩

/-- Tokens that begin tokens of `L` begin tokens of `M`, if those of `L` do. -/
theorem FailsIn.weaken {L M : List Token → Prop} {r : Reader α} {ts : List Token}
    (h : FailsIn L r ts) (hLM : ∀ us, L us → Viable M us) : FailsIn M r ts := by
  intro f hf
  obtain ⟨taken, hts, ht, more, hL⟩ := h hf
  obtain ⟨more', hM⟩ := hLM _ hL
  exact ⟨taken, hts, ht, more ++ more', by rwa [← List.append_assoc]⟩

/-- A reader that goes on after `taken` has been read. -/
theorem FailsIn.after {L : List Token → Prop} {r r' : Reader α} {ts : List Token}
    (taken : List Token) (he : r (taken ++ ts) = r' ts) (h : FailsIn (fun us => L (taken ++ us)) r' ts) :
    FailsIn L r (taken ++ ts) := by
  intro f hf
  rw [he] at hf
  obtain ⟨taken', rfl, ht, more, hL⟩ := h hf
  exact ⟨taken ++ taken', by rw [List.append_assoc], ht, more, by rwa [List.append_assoc]⟩

/-- A reader that goes on after another one: the first one refuses a token, or
    the second one does after what the first one took. -/
theorem FailsIn.bind {L M : List Token → Prop} {x : Reader α} {g : α → Reader β}
    {ts : List Token} (hx : FailsIn M x ts) (hML : ∀ us, M us → Viable L us)
    (hg : ∀ a rest, x ts = .ok (a, rest) →
      ∃ taken, ts = taken ++ rest ∧ FailsIn (fun us => L (taken ++ us)) (g a) rest) :
    FailsIn L (x >>= g) ts := by
  intro f hf
  rcases bind_eq_error_iff.1 hf with hf' | ⟨a, rest, ha, -⟩
  · exact hx.weaken hML hf'
  · obtain ⟨taken, rfl, h⟩ := hg a rest ha
    exact FailsIn.after taken (by rw [bind_eq, ha]) h hf

theorem FailsIn.then_pure {L : List Token → Prop} {x : Reader α} {g : α → β} {ts : List Token}
    (h : FailsIn L x ts) : FailsIn L (x >>= fun a => pure (g a)) ts := by
  intro f hf
  rcases bind_eq_error_iff.1 hf with hf' | ⟨a, rest, -, hp⟩
  · exact h hf'
  · cases hp

/-- A reader that has seen the next token. -/
theorem FailsIn.peek {L : List Token → Prop} {g : Token → Reader α} {ts : List Token}
    (h : FailsIn L (g (next ts)) ts) : FailsIn L (Descent.peek >>= g) ts :=
  h

/-- A reader that has taken the next token. -/
theorem FailsIn.take {L : List Token → Prop} {g : Token → Reader α} {t : Token}
    {ts : List Token} (h : FailsIn (fun us => L (t :: us)) (g t) ts) :
    FailsIn L (Descent.take >>= g) (t :: ts) :=
  FailsIn.after [t] rfl h

/-- A symbol that must come, and what comes after it. -/
theorem FailsIn.symbol {L : List Token → Prop} {text : String} {g : Unit → Reader α}
    {ts : List Token} (hnil : Viable L [])
    (hg : ∀ (s : Terminal .symbol text) rest, ts = s.1 :: rest →
      FailsIn (fun us => L (s.1 :: us)) (g ()) rest) :
    FailsIn L (Descent.symbol text >>= g) ts := by
  have hsymbol : FailsIn L (Descent.symbol text) ts := by
    by_cases ht : (next ts).is .symbol text = true
    · have hok : Descent.symbol text ts = .ok ((), ts.tail) := by
        simp only [Descent.symbol, ht, if_true]
      exact .of_ok hok
    · refine .of_refused (f := ⟨.expectedSymbol text (next ts), ts⟩) ?_ rfl rfl hnil
      simp only [Descent.symbol, ht]
      rfl
  refine FailsIn.bind hsymbol (fun us h => .of_mem h) fun u rest hu => ?_
  obtain ⟨s, rfl⟩ := symbol_eq_ok hu
  exact ⟨[s.1], rfl, hg s rest rfl⟩

/-- A token that may come, and what comes after it or instead of it. -/
theorem FailsIn.accept {L : List Token → Prop} {kind : TokenKind} {text : String}
    {g : Bool → Reader α} {ts : List Token} (hk : kind ≠ .endOfInput)
    (htrue : ∀ (t : Terminal kind text) rest, ts = t.1 :: rest →
      FailsIn (fun us => L (t.1 :: us)) (g true) rest)
    (hfalse : FailsIn L (g false) ts) : FailsIn L (Descent.accept kind text >>= g) ts := by
  by_cases ht : (next ts).kind = kind ∧ (next ts).text = text
  · obtain ⟨t, rest, rfl⟩ : ∃ t rest, ts = t :: rest :=
      ⟨_, _, eq_next_cons (by rw [ht.1]; exact hk)⟩
    have hcons := accept_cons ⟨t, ht⟩ rest
    exact FailsIn.after [t] (by rw [bind_eq, List.singleton_append, hcons])
      (htrue ⟨t, ht⟩ rest rfl)
  · exact FailsIn.after [] (by rw [bind_eq, List.nil_append, accept_of_not ht]) hfalse

/-- An operator that may come, and what comes after it or instead of it. -/
theorem FailsIn.acceptOperator {L : List Token → Prop} {ops : List String}
    {g : Option String → Reader α} {ts : List Token}
    (hsome : ∀ (op : Operator ops) rest, ts = op.1 :: rest →
      FailsIn (fun us => L (op.1 :: us)) (g (some op.1.text)) rest)
    (hnone : FailsIn L (g none) ts) : FailsIn L (Descent.acceptOperator ops >>= g) ts := by
  by_cases ht : IsOperator ops (next ts)
  · obtain ⟨t, rest, rfl⟩ : ∃ t rest, ts = t :: rest := ⟨_, _, eq_next_cons (by simp [ht.1])⟩
    have hcons := acceptOperator_cons ⟨t, ht⟩ rest
    exact FailsIn.after [t] (by rw [bind_eq, List.singleton_append, hcons])
      (hsome ⟨t, ht⟩ rest rfl)
  · exact FailsIn.after [] (by rw [bind_eq, List.nil_append, acceptOperator_of_not ht])
      hnone

/-! ## Expressions -/

/-- The reader refuses tokens where an expression over `k` levels of operators
    and `n` levels of nesting has begun. -/
def FailsExpr (k n : Nat) (r : Reader Node) : Prop :=
  ∀ ts, FailsIn (ExprTokens k n) r ts

/-- Nothing is missing in front of a token that could have been an operand. -/
theorem viable_expr (k n : Nat) : Viable (ExprTokens k n) [] :=
  ⟨_, exprTokens_some n k⟩

section Chain

variable {k n : Nat} {operand : Reader Node} (ht : TakesExpr k n operand)
  (hf : FailsExpr k n operand)
include ht hf

theorem chainFrom_fails {fuel : Nat} {l : Expr (k + 1)} (hl : Readable l.yield)
    (hn : l.nesting ≤ n) (ts : List Token) :
    FailsIn (fun us => ExprTokens (k + 1) n (l.yield ++ us))
      (chainFrom (levelOps k) operand fuel l.tree) ts := by
  induction fuel generalizing l ts with
  | zero => exact .of_ok (a := l.tree) rfl
  | succ fuel ih =>
    rw [chainFrom]
    refine FailsIn.acceptOperator (fun op mid _ => ?_) (.of_ok (a := l.tree) rfl)
    have join : ∀ r : Expr k, Readable r.yield → r.nesting ≤ n →
        Readable (Expr.binary l op r).yield ∧ (Expr.binary l op r).nesting ≤ n :=
      fun r hread hnest =>
        ⟨(Expr.readable_binary l op r).2 ⟨hl, hread⟩, Nat.max_le.2 ⟨hn, hnest⟩⟩
    refine FailsIn.bind (hf mid) (fun us hus => ?_) fun right rest hr => ?_
    · obtain ⟨r, rfl, hread, hnest⟩ := hus
      exact .of_mem ⟨.binary l op r, rfl, join r hread hnest⟩
    · obtain ⟨r, rfl, hread, hnest, rfl⟩ := ht hr
      obtain ⟨hread', hnest'⟩ := join r hread hnest
      refine ⟨r.yield, rfl, (ih (l := .binary l op r) hread' hnest' rest).weaken fun us hus => ?_⟩
      refine .of_mem ?_
      simpa only [Expr.yield, List.append_assoc, List.cons_append] using hus

theorem chain_fails : FailsExpr (k + 1) n (chain (levelOps k) operand) := by
  intro ts
  refine FailsIn.bind (hf ts) (fun us hus => ?_) fun left mid hl => ?_
  · obtain ⟨d, rfl, hread, hnest⟩ := hus
    exact .of_mem ⟨.tighter d, rfl, hread, hnest⟩
  · obtain ⟨d, rfl, hread, hnest, rfl⟩ := ht hl
    exact ⟨d.yield, rfl, chainFrom_fails ht hf (l := .tighter d) hread hnest mid⟩

/-- An expression and a symbol after it. -/
theorem before_symbol_fails {L : List Token → Prop} (text : String) (g : Node → Node)
    (hL : ∀ us (s : Terminal .symbol text), ExprTokens k n us → L (us ++ [s.1]))
    (ts : List Token) :
    FailsIn L (operand >>= fun e => symbol text >>= fun _ => pure (g e)) ts := by
  refine FailsIn.bind (hf ts) (fun us hus => ⟨_, hL us (someSymbol text) hus⟩)
    fun e mid he => ?_
  obtain ⟨d, rfl, hread, hnest, rfl⟩ := ht he
  refine ⟨d.yield, rfl, FailsIn.symbol ?_ fun s rest _ => .of_ok (a := g d.tree) rfl⟩
  exact ⟨[(someSymbol text).1], hL _ _ ⟨d, rfl, hread, hnest⟩⟩

end Chain

theorem expressionOver_fails {n : Nat} {operand : Reader Node} (ht : TakesExpr 0 n operand)
    (hf : FailsExpr 0 n operand) : FailsExpr 4 n (expressionOver operand) := by
  have h1 := chain_fails ht hf
  have h2 := chain_fails (chain_sound ht) h1
  have h3 := chain_fails (chain_sound (chain_sound ht)) h2
  exact chain_fails (chain_sound (chain_sound (chain_sound ht))) h3

theorem atom_fails (n : Nat) : FailsExpr 0 n atom := by
  intro ts
  refine FailsIn.peek ?_
  cases hk : (next ts).kind with
  | number =>
    cases hx : readNumber? (next ts).text with
    | some x =>
      refine @FailsIn.of_ok _ _ _ ts ts.tail (.literal (.number x)) ?_
      simp only [bind_eq, Descent.take, hx]
      rfl
    | none =>
      refine .of_refused (f := ⟨.malformedNumber (next ts), ts.tail⟩) ?_
        (eq_next_cons (by simp [hk])).symm rfl (viable_expr 0 n)
      simp only [bind_eq, Descent.take, hx]
      rfl
  | string => exact .of_ok (a := .literal (.string (next ts).text)) rfl
  | identifier => exact .of_ok (a := .var (next ts).text) rfl
  | keyword =>
    simp only
    split
    · exact .of_ok (a := .literal (.boolean ((next ts).text = "true"))) rfl
    · exact .of_refused rfl rfl rfl (viable_expr 0 n)
  | operator | symbol | endOfInput => exact .of_refused rfl rfl rfl (viable_expr 0 n)

/-- Without a level left, a token that opens one is refused. -/
theorem take_tooDeep_fails {L : List Token → Prop} {t : Token} {ts : List Token}
    (ht : opensCompound t = false) (hL : Viable L []) :
    FailsIn L (take >>= fun t => (refuse (.nestedTooDeeply t) : Reader α)) (t :: ts) := by
  refine .of_refused (f := ⟨.nestedTooDeeply t, ts⟩) rfl ?_ rfl hL
  simp only [Refusal.onwards, ht]
  rfl

theorem operand_fails (n : Nat) : FailsExpr 0 n (operand n) := by
  induction n with
  | zero =>
    intro ts
    rw [operand]
    refine FailsIn.peek ?_
    split
    · rename_i hop
      simp only [Bool.and_eq_true, decide_eq_true_eq] at hop
      rw [@eq_next_cons ts (by simp [hop.1])]
      exact take_tooDeep_fails (by simp [opensCompound, Token.is, hop.1]) (viable_expr 0 0)
    · split
      · rename_i hl
        have hl := Token.is_iff.1 hl
        rw [@eq_next_cons ts (by simp [hl.1])]
        exact take_tooDeep_fails (by simp [opensCompound, Token.is, hl.1, hl.2]) (viable_expr 0 0)
      · exact atom_fails 0 ts
  | succ n ih =>
    intro ts
    rw [operand]
    refine FailsIn.peek ?_
    split
    · rename_i hop
      simp only [Bool.and_eq_true, decide_eq_true_eq, List.contains_iff_mem] at hop
      rw [@eq_next_cons ts (by simp [hop.1])]
      refine FailsIn.take (((ih ts.tail).weaken fun us hus => ?_).then_pure)
      obtain ⟨d, rfl, hread, hnest⟩ := hus
      exact .of_mem ⟨.unary ⟨next ts, hop⟩ d, rfl, (Expr.readable_unary ⟨next ts, hop⟩ d).2 hread,
        Nat.succ_le_succ hnest⟩
    · split
      · rename_i hl
        have hl := Token.is_iff.1 hl
        rw [@eq_next_cons ts (by simp [hl.1])]
        refine FailsIn.take (before_symbol_fails (expressionOver_sound (operand_sound n))
          (expressionOver_fails (operand_sound n) ih) ")" id (fun us r hus => ?_) _)
        obtain ⟨d, rfl, hread, hnest⟩ := hus
        exact ⟨.group ⟨next ts, hl⟩ d r, rfl, (Expr.readable_group ⟨next ts, hl⟩ d r).2 hread,
          Nat.succ_le_succ hnest⟩
      · exact atom_fails (n + 1) ts

theorem expression_fails (n : Nat) : FailsExpr 4 n (expression n) :=
  expressionOver_fails (operand_sound n) (operand_fails n)

/-! ## Statements -/

/-- The reader refuses tokens where a statement of `n` levels of nesting has
    begun. -/
def FailsStmt (n : Nat) (r : Reader Node) : Prop :=
  ∀ ts, FailsIn (StmtTokens n) r ts

/-- Nothing is missing in front of a token that could have been a statement. -/
theorem viable_stmt (n : Nat) : Viable (StmtTokens n) [] :=
  ⟨_, stmtTokens_some n⟩

theorem eq_of_startsAssignment {ts : List Token} (h : startsAssignment ts = true) :
    ∃ x eq us, ts = x :: eq :: us ∧ x.kind = .identifier ∧
      eq.kind = .symbol ∧ eq.text = "=" := by
  unfold startsAssignment at h
  split at h
  · rename_i x eq us
    simp only [Bool.and_eq_true, decide_eq_true_eq] at h
    exact ⟨x, eq, us, rfl, h.1, Token.is_iff.1 h.2⟩
  · cases h

section

variable {n : Nat} {expression statement : Reader Node} (het : TakesExpr 4 n expression)
  (hef : FailsExpr 4 n expression) (hst : TakesStmt n statement) (hsf : FailsStmt n statement)

include het hef in
theorem simpleStatement_fails : FailsStmt n (simpleStatement expression) := by
  intro ts
  refine FailsIn.accept (by decide) (fun word rest _ => ?_) ?_
  · refine before_symbol_fails het hef ";" .print (fun us semi hus => ?_) rest
    obtain ⟨d, rfl, hread, hnest⟩ := hus
    exact ⟨false, .print word d semi, rfl, (Stmt.readable_print d semi word).2 hread, hnest⟩
  · show FailsIn _ (assignOrExpr expression) ts
    by_cases hassign : startsAssignment ts = true
    · obtain ⟨x, eq, us, rfl, hx, heq⟩ := eq_of_startsAssignment hassign
      refine FailsIn.after [x, eq] ?_ (before_symbol_fails het hef ";" (.assign x.text)
        (fun vs semi hvs => ?_) us)
      · rw [List.cons_append, List.singleton_append, assignOrExpr_eq, if_pos hassign, bind_eq]
        show (symbol "=" >>= _) (eq :: us) = _
        rw [bind_eq, symbol_cons ⟨eq, heq⟩]
        rfl
      · obtain ⟨d, rfl, hread, hnest⟩ := hvs
        exact ⟨false, .assign ⟨x, hx⟩ ⟨eq, heq⟩ d semi, rfl,
          (Stmt.readable_assign d semi ⟨x, hx⟩ ⟨eq, heq⟩).2 hread, hnest⟩
    · refine FailsIn.after [] ?_ (before_symbol_fails het hef ";" .expr
        (fun vs semi hvs => hvs.semicolon semi) ts)
      rw [List.nil_append, assignOrExpr_eq, if_neg hassign]

include het hef in
theorem condition_fails (ts : List Token) : FailsIn (TestTokens n) (condition expression) ts := by
  have close : ∀ (l : Terminal .symbol "(") us (r : Terminal .symbol ")"), ExprTokens 4 n us →
      TestTokens n (l.1 :: (us ++ [r.1])) := by
    rintro l us r ⟨d, rfl, hread, hnest⟩
    exact ⟨⟨l, d, r⟩, rfl, hread, hnest⟩
  refine FailsIn.symbol ⟨_, close (someSymbol "(") _ (someSymbol ")") (exprTokens_some n 4)⟩
    fun l rest _ => ?_
  exact before_symbol_fails het hef ")" id (fun us r hus => close l us r hus) rest

include het hef hst hsf in
theorem branch_fails (word : Terminal .keyword "if") (ts : List Token) :
    FailsIn (fun us => StmtTokens (n + 1) (word.1 :: us)) (branch expression statement) ts := by
  have close : ∀ c us, TestTokens n c → StmtTokens n us →
      StmtTokens (n + 1) (word.1 :: (c ++ us)) := by
    rintro - - ⟨c, rfl, hc, hcn⟩ ⟨b, s, rfl, hs, hsn⟩
    exact ⟨true, .branch word c s, rfl, (Stmt.readable_branch c word s).2 ⟨hc, hs⟩,
      Nat.succ_le_succ (Nat.max_le.2 ⟨hcn, hsn⟩)⟩
  refine FailsIn.bind (condition_fails het hef ts)
    (fun us hus => ⟨_, close us _ hus (stmtTokens_some n)⟩) fun test mid hc => ?_
  obtain ⟨c, rfl, hcread, hcnest, -⟩ := condition_sound het hc
  refine ⟨c.yield, rfl, FailsIn.bind (hsf mid)
    (fun us hus => .of_mem (close _ us ⟨c, rfl, hcread, hcnest⟩ hus)) fun body mid hbody => ?_⟩
  obtain ⟨b, s, rfl, hread, hnest, -, hno⟩ := hst hbody
  refine ⟨s.yield, rfl, FailsIn.accept (by decide) (fun alt rest hrest => ?_) (.of_ok rfl)⟩
  subst hrest
  -- the body has its own `else`, or it would have taken this one
  cases b with
  | true => exact absurd alt.2 (hno rfl)
  | false =>
    refine ((hsf rest).weaken fun us hus => ?_).then_pure
    obtain ⟨b', o, rfl, horead, honest⟩ := hus
    refine .of_mem ⟨b', .branchElse word c s alt o, rfl, ?_, ?_⟩
    · exact (Stmt.readable_branchElse c word s alt o).2 ⟨hcread, hread, horead⟩
    · rw [Stmt.nesting]; omega

include het hef hsf in
theorem loop_fails (word : Terminal .keyword "while") (ts : List Token) :
    FailsIn (fun us => StmtTokens (n + 1) (word.1 :: us)) (loop expression statement) ts := by
  have close : ∀ c us, TestTokens n c → StmtTokens n us →
      StmtTokens (n + 1) (word.1 :: (c ++ us)) := by
    rintro - - ⟨c, rfl, hc, hcn⟩ ⟨b, s, rfl, hs, hsn⟩
    exact ⟨b, .loop word c s, rfl, (Stmt.readable_loop c word s).2 ⟨hc, hs⟩,
      Nat.succ_le_succ (Nat.max_le.2 ⟨hcn, hsn⟩)⟩
  refine FailsIn.bind (condition_fails het hef ts)
    (fun us hus => ⟨_, close us _ hus (stmtTokens_some n)⟩) fun test mid hc => ?_
  obtain ⟨c, rfl, hcread, hcnest, -⟩ := condition_sound het hc
  refine ⟨c.yield, rfl, ((hsf mid).weaken fun us hus => ?_).then_pure⟩
  exact .of_mem (close _ us ⟨c, rfl, hcread, hcnest⟩ hus)

include hst hsf in
/-- Statements in a row: those that were read, and the one that was begun. -/
theorem manyUntil_fails (stop : Token → Bool) (fuel : Nat) (ts : List Token) :
    FailsIn (StmtsTokens n) (manyUntil stop statement fuel) ts := by
  induction fuel generalizing ts with
  | zero => exact .of_ok rfl
  | succ fuel ih =>
    have cons : ∀ us vs, StmtTokens n us → StmtsTokens n vs → StmtsTokens n (us ++ vs) := by
      rintro - - ⟨b, s, rfl, hs, hsn⟩ ⟨ss, rfl, hss, hssn⟩
      exact ⟨.cons s ss, rfl, (Stmts.readable_cons s ss).2 ⟨hs, hss⟩, Nat.max_le.2 ⟨hsn, hssn⟩⟩
    rw [manyUntil]
    refine FailsIn.peek ?_
    split
    · exact .of_ok rfl
    · refine FailsIn.bind (hsf ts) (fun us hus => ?_) fun first mid hfirst => ?_
      · refine .of_mem ?_
        have h := cons us [] hus ⟨.nil, rfl, readable_nil, Nat.zero_le n⟩
        rwa [List.append_nil] at h
      · obtain ⟨b, s, rfl, hread, hnest, -⟩ := hst hfirst
        refine ⟨s.yield, rfl, ?_⟩
        refine ((ih mid).weaken fun us hus => ?_).then_pure
        exact .of_mem (cons _ us ⟨b, s, rfl, hread, hnest⟩ hus)

include hst hsf in
theorem block_fails (l : Terminal .symbol "\x7b") (ts : List Token) :
    FailsIn (fun us => StmtTokens (n + 1) (l.1 :: us)) (block statement) ts := by
  have close : ∀ us (r : Terminal .symbol "\x7d") (semi : Option (Terminal .symbol ";")),
      StmtsTokens n us → StmtTokens (n + 1) (l.1 :: (us ++ r.1 :: (semi.map (·.1)).toList)) := by
    rintro - r semi ⟨ss, rfl, hss, hssn⟩
    exact ⟨false, .block l ss r semi, rfl, (Stmt.readable_block l ss r semi).2 hss,
      Nat.succ_le_succ hssn⟩
  have hend : ∀ t : Token, t.isEnd → endsBlock t := fun t ht => by simp [endsBlock, ht]
  rw [block_eq]
  refine FailsIn.bind (x := manyLoop endsBlock statement)
    (manyUntil_fails hst hsf endsBlock ts.length ts)
    (fun us hus => ⟨_, close us (someSymbol "\x7d") none hus⟩) fun body mid hbody => ?_
  obtain ⟨ss, ⟨rfl, hread, hnest, -⟩, -⟩ := manyUntil_sound hend hst (Nat.le_refl _) hbody
  refine ⟨ss.yield, rfl, FailsIn.symbol ?_ fun r rest _ => ?_⟩
  · exact ⟨_, close _ (someSymbol "\x7d") none ⟨ss, rfl, hread, hnest⟩⟩
  · exact FailsIn.accept (by decide) (fun _ _ _ => .of_ok rfl) (.of_ok rfl)

include het hef hst hsf in
theorem compoundStatement_fails : FailsStmt (n + 1) (compoundStatement expression statement) := by
  intro ts
  refine FailsIn.accept (by decide) (fun word rest _ => branch_fails het hef hst hsf word rest) ?_
  refine FailsIn.accept (by decide) (fun word rest _ => loop_fails het hef hsf word rest) ?_
  exact FailsIn.symbol (viable_stmt (n + 1)) fun l rest _ => block_fails hst hsf l rest

end

theorem statement_fails (n : Nat) : FailsStmt n (statement n) := by
  induction n with
  | zero =>
    intro ts
    rw [statement]
    refine FailsIn.peek ?_
    split
    · rename_i hopen
      refine .of_refused rfl ?_ rfl (viable_stmt 0)
      simp only [Refusal.onwards, hopen, if_true]
    · exact simpleStatement_fails (expression_sound 0) (expression_fails 0) ts
  | succ n ih =>
    intro ts
    rw [statement]
    refine FailsIn.peek ?_
    split
    · exact compoundStatement_fails (expression_sound n) (expression_fails n) (statement_sound n)
        ih ts
    · exact simpleStatement_fails (expression_sound (n + 1)) (expression_fails (n + 1)) ts

/-- **No token is refused too late**: the tokens in front of the one that is
    refused begin a program. -/
theorem program_fails (ts : List Token) : FailsIn (StmtsTokens maxNesting) program ts :=
  manyUntil_fails (statement_sound maxNesting) (statement_fails maxNesting) Token.isEnd ts.length ts

end BlockScript.Descent
