/-
  BlockScript — recursive descent ends, and stays within its tokens.

  The parser that walks over the whole list of tokens is in step with the
  readers.  These always end, so the walk does, with a program or a refusal; and
  all that it looks at stands at or in front of the first end token.

  * `firstEnd ts`: the index of the first end token;
  * `program_agrees`: walk and reader agree on programs;
  * `parseTokens_in_bounds`: what this says of the parser.
-/
import BlockScript.Proofs.Descent.InStep
import BlockScript.Proofs.Descent.Location

namespace BlockScript

namespace Walk

open Grammar (levelOps IsOperator IsAtomToken Readable atomTree)
open Descent (Reader maxNesting unaryOps)

variable {α : Type}

/-! ## Expressions -/

section

variable {i : Input}

/-- A reader of expressions over the `k` tightest levels of operators. -/
def levelReader (n : Nat) : Nat → Reader Node
  | 0 => Descent.operand n
  | k + 1 => Descent.chain (levelOps k) (levelReader n k)

theorem levelReader_local (n k : Nat) : ∀ ts, Descent.Local (levelReader n k) ts := by
  induction k with
  | zero => exact Descent.operand_local n
  | succ k ih => exact Descent.chain_local ih

theorem chain_inStep {n k : Nat} (hk : levelOps k ≠ [])
    (hlevel : InStep i n (levelReader n k) fun ts b => level ts b k) (left : Node) :
    InStep i n (Descent.chainLoop (levelOps k) (levelReader n k) left)
      fun ts b => chain ts b k left := by
  intro c hc
  -- each turn takes an operator, so there are fewer tokens left
  induction hd : i.stop - c.pos using Nat.strongRecOn generalizing c left with
  | ind d ih =>
    refine .unfold (fun ts b => chain.eq_2 ts k left b) ?_
    by_cases hop : IsOperator (levelOps k) (i.token c.pos)
    · have hlt : c.pos < i.stop := Input.lt_stop hc.pos (by simp [hop.1])
      refine .look (check_of_fits hc ((fits_operator hk).2 hop)) rfl ?_
      refine .take (q := levelReader n k >>= fun right => Descent.chainLoop (levelOps k)
        (levelReader n k) (.binary (i.token c.pos).text left right)) hc.looked
        (advance_run hc.looked hlt) rfl (fun us => ?_) ?_
      · rw [Descent.chainLoop_eq (levelReader_local n k), Descent.bind_eq,
          show Descent.acceptOperator (levelOps k) (i.token (c.look 0).pos :: us) = _ from
            Descent.acceptOperator_cons ⟨_, hop⟩ us]
      · refine (hlevel _ (hc.looked.passed hlt)).bind fun right c' hc' forward _ => ?_
        replace forward : c.pos + 1 ≤ c'.pos := forward
        exact ih (i.stop - c'.pos) (by omega) _ _ hc' rfl
    · refine .look (check_of_not_fits hc fun h => hop ((fits_operator hk).1 h)) rfl ?_
      refine .readAs hc.looked (fun us => ?_) (.pure hc.looked left)
      rw [Descent.chainLoop_eq (levelReader_local n k), Descent.bind_eq,
        Descent.acceptOperator_of_not hop]

theorem level_inStep {n : Nat} (hunary : InStep i n (Descent.operand n) unary) :
    ∀ k ≤ 4, InStep i n (levelReader n k) fun ts b => level ts b k := by
  have hops : ∀ k < 4, levelOps k ≠ [] := by decide
  intro k
  induction k with
  | zero => exact fun _ c hc => .unfold level.eq_2 (hunary c hc)
  | succ k ih =>
    intro hk c hc
    have hlevel := ih (by omega)
    refine .unfold (fun ts b => level.eq_3 ts b k) ((hlevel c hc).seq fun left c' hc' => ?_)
    exact chain_inStep (hops k (by omega)) hlevel left c' hc'

section

variable {m : Int} {c : Cursor}

theorem primary_agrees_number (hc : i.Within m c) (hk : (i.token c.pos).kind = .number) :
    Agrees i c m Descent.atom primary := by
  have hc₁ := hc.looked
  have hlt : c.pos < i.stop := Input.lt_stop hc.pos (by simp [hk])
  have hread := Descent.atom_number hk
  refine .unfold primary.eq_2 (.look (peek_run hc) rfl ?_)
  simp only [hk, if_true]
  cases hx : readNumber? (i.token c.pos).text with
  | none =>
    rw [hx] at hread
    exact .take (q := Descent.refuse _) hc₁ (advance_run hc₁ hlt) rfl hread
      (.refuse (hc₁.passed hlt) _)
  | some x =>
    rw [hx] at hread
    exact .take (q := pure _) hc₁ (advance_run hc₁ hlt) rfl hread (.pure (hc₁.passed hlt) _)

theorem primary_agrees_atom (hc : i.Within m c) (hatom : IsAtomToken (i.token c.pos)) :
    Agrees i c m Descent.atom primary := by
  by_cases hnumber : (i.token c.pos).kind = .number
  · exact primary_agrees_number hc hnumber
  have hc₁ := hc.looked
  have hc₂ := hc₁.looked
  have hend : (i.token c.pos).kind ≠ .endOfInput := by
    rcases hatom with hk | hk | hk | ⟨hk, -⟩ <;> rw [hk] <;> decide
  have hlt : c.pos < i.stop := Input.lt_stop hc.pos hend
  have hread := Descent.atom_cons hatom (by simp [Readable, hnumber])
  refine .unfold primary.eq_2 (.look (peek_run hc) rfl ?_)
  rcases hatom with hk | hk | hk | ⟨hk, htext⟩
  · exact absurd hk hnumber
  · simp only [atomTree, hk] at hread
    simp only [hk, reduceCtorEq, if_false, if_true]
    exact .take (q := pure _) hc₁ (advance_run hc₁ hlt) rfl hread (.pure (hc₁.passed hlt) _)
  · have hword : ¬ Fits .keyword ["true", "false"] (i.token c.pos) := by simp [Fits, hk]
    simp only [atomTree, hk] at hread
    simp only [hk, reduceCtorEq, if_false, if_true]
    refine .look (accept_of_not_fits hc₁ hword) rfl ?_
    exact .take (q := pure _) hc₂ (advance_run hc₂ hlt) rfl hread (.pure (hc₂.passed hlt) _)
  · have hword : Fits .keyword ["true", "false"] (i.token c.pos) := by simp [Fits, hk, htext]
    simp only [atomTree, hk] at hread
    simp only [hk, reduceCtorEq, if_false]
    exact .take (q := pure _) hc₁ (accept_of_fits hc₁ hlt hword) rfl hread
      (.pure (hc₂.passed hlt) _)

theorem primary_agrees_refused (hc : i.Within m c) (hatom : ¬ IsAtomToken (i.token c.pos))
    (hl : ¬ ((i.token c.pos).kind = .symbol ∧ (i.token c.pos).text = "(")) :
    Agrees i c m Descent.atom primary := by
  have hread := Descent.atom_of_not hatom
  simp only [IsAtomToken, not_or] at hatom
  have hword : ¬ Fits .keyword ["true", "false"] (i.token c.pos) := by
    simpa [Fits] using hatom.2.2.2
  have hc₂ := hc.looked.looked
  refine .unfold primary.eq_2 (.look (peek_run hc) rfl ?_)
  simp only [hatom, if_false]
  refine .look (accept_of_not_fits hc.looked hword) rfl ?_
  refine .look (accept_of_not_fits hc₂ (by rwa [fits_one])) rfl ?_
  exact .readAs (q := Descent.refuse _) hc₂.looked hread (.refuse hc₂.looked _)

end

section

variable {n : Nat} {c : Cursor} (ih : ∀ k < n, InStep i k (Descent.operand k) unary)
include ih

theorem primary_agrees_group (hc : i.Within (openAt n) c)
    (hl : (i.token c.pos).kind = .symbol ∧ (i.token c.pos).text = "(") :
    Agrees i c (openAt n) (Descent.operand n) primary := by
  have hlt : c.pos < i.stop := Input.lt_stop hc.pos (by simp [hl.1])
  have hword : ¬ Fits .keyword ["true", "false"] (i.token c.pos) := by simp [Fits, hl.1]
  have hc₂ := hc.looked.looked
  have hc₃ := hc₂.looked.passed hlt
  refine .unfold primary.eq_2 (.look (peek_run hc) rfl ?_)
  simp only [hl.1, reduceCtorEq, if_false]
  refine .look (accept_of_not_fits hc.looked hword) rfl ?_
  cases n with
  | zero =>
    exact .take (q := Descent.refuse _) hc₂ (accept_of_fits hc₂ hlt (fits_one.2 hl)) rfl
      (Descent.operand_group_zero ⟨_, hl⟩) (.tooDeep hc₃)
  | succ n =>
    refine .take (q := levelReader n 4 >>= fun e => Descent.symbol ")" >>= fun _ => pure e) hc₂
      (accept_of_fits hc₂ hlt (fits_one.2 hl)) rfl (Descent.operand_group ⟨_, hl⟩ n) ?_
    have hlevel := level_inStep (ih n (by omega)) 4 (Nat.le_refl 4)
    refine .descend hc₃ ((hlevel _ (hc₃.nested _)).seq fun e c' hc' => ?_)
    refine (consume_agrees hc' ")").seq fun _ c'' hc'' => ?_
    exact .ascend hc'' (.pure (hc''.nested _) e)

theorem unary_agrees_prefix (hc : i.Within (openAt n) c)
    (hop : IsOperator unaryOps (i.token c.pos)) :
    Agrees i c (openAt n) (Descent.operand n) unary := by
  have hlt : c.pos < i.stop := Input.lt_stop hc.pos (by simp [hop.1])
  have hc₁ := hc.looked
  have hc₂ := hc₁.passed hlt
  refine .unfold unary.eq_2 (.look (check_of_fits hc ((fits_operator (by decide)).2 hop)) rfl ?_)
  cases n with
  | zero =>
    exact .take (q := Descent.refuse _) hc₁ (advance_run hc₁ hlt) rfl
      (Descent.operand_unary_zero ⟨_, hop⟩) (.tooDeep hc₂)
  | succ n =>
    refine .take hc₁ (advance_run hc₁ hlt) rfl (Descent.operand_unary ⟨_, hop⟩ n) ?_
    refine .descend hc₂ ((ih n (by omega) _ (hc₂.nested _)).seq fun e c' hc' => ?_)
    exact .ascend hc' (.pure (hc'.nested _) _)

end

theorem operand_inStep (n : Nat) : InStep i n (Descent.operand n) unary := by
  induction n using Nat.strongRecOn with
  | ind n ih =>
    intro c hc
    by_cases hop : IsOperator unaryOps (i.token c.pos)
    · exact unary_agrees_prefix ih hc hop
    refine .unfold unary.eq_2 (.look (check_of_not_fits hc ?_) rfl ?_)
    · rwa [fits_operator (by decide)]
    by_cases hl : (i.token c.pos).kind = .symbol ∧ (i.token c.pos).text = "("
    · exact primary_agrees_group ih hc.looked hl
    refine .readAs hc.looked (Descent.operand_of_not hop hl n) ?_
    by_cases hatom : IsAtomToken (i.token c.pos)
    · exact primary_agrees_atom hc.looked hatom
    · exact primary_agrees_refused hc.looked hatom hl

theorem expression_inStep (n : Nat) : InStep i n (Descent.expression n) fun ts b => level ts b 4 :=
  level_inStep (operand_inStep n) 4 (Nat.le_refl 4)

end

/-! ## Statements -/

section

variable {i : Input} {n : Nat}

/-- A loop over items that each take a token, until a token stops it. -/
theorem many_inStep {stop : Token → Bool} {item : Reader α} {test : List Token → Walk Bool}
    {step : List Token → Nat → Walk α} {loop : List Token → Nat → Walk (List α)}
    (hend : ∀ t : Token, t.isEnd → stop t)
    (hshort : ∀ {ts a rest}, item ts = .ok (a, rest) → rest.length < ts.length)
    (hloop : ∀ ts b, loop ts (b + 1) = test ts >>= fun isOver => if isOver then pure [] else
      step ts b >>= fun first => loop ts b >>= fun others => pure (first :: others))
    (htest : ∀ c, i.Within (openAt n) c → Asks i (openAt n) c test (stop (i.token c.pos)))
    (hitem : InStep i n item step) : InStep i n (Descent.manyLoop stop item) loop := by
  intro c hc
  -- each item takes a token, so there are fewer left
  induction hd : i.stop - c.pos using Nat.strongRecOn generalizing c with
  | ind d ih =>
    refine .unfold hloop (.ask (htest c hc) fun c₁ hc₁ hpos => ?_)
    cases hstop : stop (i.token c.pos) with
    | true =>
      refine .readAs hc₁ (fun us => ?_) (.pure hc₁ [])
      rw [Descent.manyLoop_eq hend hshort, Descent.bind_eq]
      simp only [Descent.peek, Descent.next, hpos, hstop, if_true]
    | false =>
      refine .readAs (q := item >>= fun first => Descent.manyLoop stop item >>= fun others =>
        pure (first :: others)) hc₁ (fun us => ?_) ?_
      · rw [Descent.manyLoop_eq hend hshort, Descent.bind_eq]
        simp only [Descent.peek, Descent.next, hpos, hstop]
        rfl
      · refine (hitem c₁ hc₁).bind fun first c₂ hc₂ forward hread => ?_
        have hlen := hshort hread
        simp only [List.length_drop] at hlen
        have hle := hc₂.pos
        refine (ih (i.stop - c₂.pos) (by omega) c₂ hc₂ rfl).seq fun others c₃ hc₃ => ?_
        exact .pure hc₃ _

theorem condition_inStep : InStep i n (Descent.condition (Descent.expression n)) condition := by
  intro c hc
  refine (consume_agrees hc "(").seq fun _ c₁ hc₁ => ?_
  refine (expression_inStep n c₁ hc₁).seq fun e c₂ hc₂ => ?_
  exact (consume_agrees hc₂ ")").seq fun _ c₃ hc₃ => .pure hc₃ e

/-- An expression and the `;` after it. -/
theorem before_semicolon (f : Node → Node) : InStep i n
    (Descent.expression n >>= fun e => Descent.symbol ";" >>= fun _ => pure (f e))
    fun ts b => level ts b 4 >>= fun e => consume ts ";" >>= fun _ => pure (f e) := by
  intro c hc
  refine (expression_inStep n c hc).seq fun e c₁ hc₁ => ?_
  exact (consume_agrees hc₁ ";").seq fun _ c₂ hc₂ => .pure hc₂ (f e)

/-- An assignment, which starts with any token. -/
theorem assignment_agrees {c : Cursor} (hc : i.Within (openAt n) c) (hlt : c.pos < i.stop) :
    Agrees i c (openAt n)
      (Descent.take >>= fun x => Descent.symbol "=" >>= fun _ => Descent.expression n >>= fun e =>
        Descent.symbol ";" >>= fun _ => pure (Node.assign x.text e))
      fun ts b => advance ts >>= fun x => consume ts "=" >>= fun _ => level ts b 4 >>= fun e =>
        consume ts ";" >>= fun _ => pure (Node.assign x.text e) := by
  have hrest := (consume_agrees (hc.passed hlt) "=").seq fun _ c₁ hc₁ =>
    before_semicolon (.assign (i.token c.pos).text) c₁ hc₁
  refine .take hc (advance_run hc hlt) rfl ?_ hrest
  exact fun _ => rfl

theorem simpleStatement_inStep :
    InStep i n (Descent.simpleStatement (Descent.expression n)) simpleStatement := by
  intro c hc
  refine (accept_agrees hc (by decide) "print").seq fun isPrint c₁ hc₁ => ?_
  cases isPrint with
  | true => exact before_semicolon .print c₁ hc₁
  | false =>
    refine .ask (startsAssignment_asks hc₁) fun c₂ hc₂ hpos => ?_
    have hstarts := startsAssignment_drop hc₁
    rw [← hpos] at hstarts ⊢
    cases hname : (i.token c₂.pos).kind = .identifier && (i.token (c₂.pos + 1)).is .symbol "=" with
    | true =>
      have hlt : c₂.pos < i.stop := Input.lt_stop hc₂.pos (by simp_all)
      refine .of_ends (Nat.le_refl _) id (fun after => ?_) (assignment_agrees hc₂ hlt)
      exact (Descent.assignOrExpr_eq _ _).trans (if_pos ((hstarts after).trans hname))
    | false =>
      refine .of_ends (Nat.le_refl _) id (fun after => ?_)
        (before_semicolon .expr c₂ hc₂)
      refine (Descent.assignOrExpr_eq _ _).trans (if_neg ?_)
      rw [hstarts, hname]
      exact Bool.false_ne_true

theorem compoundStatement_inStep (hstatement : InStep i n (Descent.statement n) statement) :
    InStep i n (Descent.compoundStatement (Descent.expression n) (Descent.statement n))
      compoundStatement := by
  intro c hc
  refine .unfold compoundStatement.eq_2 ?_
  refine (accept_agrees hc (by decide) "if").seq fun isIf c₁ hc₁ => ?_
  cases isIf with
  | true =>
    refine (condition_inStep c₁ hc₁).seq fun e c₂ hc₂ => ?_
    refine (hstatement c₂ hc₂).seq fun t c₃ hc₃ => ?_
    refine (accept_agrees hc₃ (by decide) "else").seq fun isElse c₄ hc₄ => ?_
    cases isElse with
    | true => exact (hstatement c₄ hc₄).seq fun f c₅ hc₅ => .pure hc₅ _
    | false => exact .pure hc₄ _
  | false =>
    refine (accept_agrees hc₁ (by decide) "while").seq fun isWhile c₂ hc₂ => ?_
    cases isWhile with
    | true =>
      refine (condition_inStep c₂ hc₂).seq fun e c₃ hc₃ => ?_
      exact (hstatement c₃ hc₃).seq fun b c₄ hc₄ => .pure hc₄ _
    | false =>
      refine (consume_agrees hc₂ "\x7b").seq fun _ c₃ hc₃ => ?_
      have hbody : InStep i n (Descent.manyLoop Descent.endsBlock (Descent.statement n)) blockBody :=
        many_inStep (fun t ht => by simp [Descent.endsBlock, ht]) Descent.statement_length_lt
          blockBody.eq_2 (fun c hc => endsBlock_asks hc) hstatement
      rw [Descent.block_eq]
      refine (hbody c₃ hc₃).seq fun body c₄ hc₄ => ?_
      refine (consume_agrees hc₄ "\x7d").seq fun _ c₅ hc₅ => ?_
      exact (accept_agrees hc₅ (by decide) ";").seq fun _ c₆ hc₆ => .pure hc₆ _

theorem statement_inStep (n : Nat) : InStep i n (Descent.statement n) statement := by
  induction n using Nat.strongRecOn with
  | ind n ih =>
    intro c hc
    have hask : Asks i _ (c.look 0) opensCompound (Descent.opensCompound (i.token c.pos)) :=
      opensCompound_asks hc.looked
    refine .unfold statement.eq_2 (.look (peek_run hc) rfl (.ask hask fun c₁ hc₁ hpos => ?_))
    have htoken : i.token c₁.pos = i.token c.pos := congrArg i.token hpos
    cases hopen : Descent.opensCompound (i.token c.pos) with
    | true =>
      cases n with
      | zero =>
        refine .readAs (q := Descent.refuse _) hc₁ ?_ (.tooDeep hc₁)
        rw [htoken]
        exact Descent.statement_compound_zero hopen
      | succ n =>
        have hstmt := compoundStatement_inStep (ih n (Nat.lt_succ_self n))
        refine .readAs (q := Descent.compoundStatement (Descent.expression n)
          (Descent.statement n) >>= pure) hc₁ ?_ (.descend hc₁ ?_)
        · rw [htoken, bind_pure]
          exact Descent.statement_compound hopen n
        · refine (hstmt _ (hc₁.nested _)).seq fun s c₂ hc₂ => ?_
          exact .ascend hc₂ (.pure (hc₂.nested _) s)
    | false =>
      refine .readAs hc₁ ?_ (simpleStatement_inStep c₁ hc₁)
      rw [htoken]
      exact Descent.statement_simple hopen n

theorem program_agrees (i : Input) : Agrees i .start 0 Descent.program program :=
  many_inStep (n := maxNesting) (fun _ ht => ht) Descent.statement_length_lt program.eq_2
    (fun _ hc => atEnd_asks hc) (statement_inStep maxNesting) .start (.start i)

end

end Walk

namespace Descent

open Walk (Input Cursor)

/-! ## All tokens -/

/-- The index of the first end token among those that are parsed. -/
def firstEnd (ts : List Token) : Nat :=
  (withEnd ts).findIdx Token.isEnd

theorem exists_input (ts : List Token) :
    ∃ (i : Input) (after : List Token), withEnd ts = i.tokens after ∧ firstEnd ts = i.stop := by
  obtain ⟨rest, hwith, hend⟩ := withEnd_eq_append ts
  have hnoEnd : ∀ t ∈ beforeEnd ts, t.isEnd = false := by
    intro t ht
    simpa [Token.isEnd] using beforeEnd_noEnd ts t ht
  cases rest with
  | nil =>
    obtain ⟨t, ht, hkind⟩ := exists_end_mem_withEnd ts
    rw [hwith, List.append_nil] at ht
    exact absurd hkind (beforeEnd_noEnd ts t ht)
  | cons last after =>
    refine ⟨⟨beforeEnd ts, last, hnoEnd, hend⟩, after, hwith, ?_⟩
    have hlast : last.isEnd = true := hend
    have hnone : ¬ (beforeEnd ts).findIdx Token.isEnd < (beforeEnd ts).length := by
      simpa [List.findIdx_lt_length] using hnoEnd
    rw [firstEnd, hwith, List.findIdx_append, if_neg hnone]
    simp [List.findIdx_cons, hlast, Input.stop]

theorem taken_eq_pos {i : Input} {m : Int} {c : Cursor} (hc : i.Within m c) (after : List Token) :
    (i.tokens after).length - ((i.tokens after).drop c.pos).length = c.pos := by
  have hle := hc.pos
  have hlen : i.stop < (i.tokens after).length := by simp [Input.tokens, Input.stop]
  rw [List.length_drop]
  omega

/-- What the parser does on all tokens that begin with the input. -/
theorem exists_walk (i : Input) : ∃ (result : Except ParseError (List Node)) (m : Int) (c : Cursor),
    i.Within m c ∧ (∀ p, result = .ok p → c.pos = i.stop ∧ c.nesting = 0) ∧
      Walk.Ends i .start Walk.program (result.mapError .refused, c) ∧
      ∀ after ts, withEnd ts = i.tokens after →
        (parseTokens ts).result = result ∧ (parseTokens ts).taken = c.pos := by
  cases Walk.program_agrees i with
  | ok p c within forward walk read =>
    refine ⟨.ok p, 0, c, within, fun _ _ => ⟨?_, within.nesting⟩, walk, fun after ts hts => ?_⟩
    · -- the loop over the statements only ends at an end token
      obtain ⟨ss, -, hend⟩ := program_sound (read [])
      rw [Input.drop_tokens within.pos] at hend
      exact (Input.token_isEnd_iff within.pos).1 hend
    · have hread : program (withEnd ts) = .ok (p, (i.tokens after).drop c.pos) := by
        rw [hts]
        exact read after
      simp only [parseTokens, hread, true_and]
      rw [hts, taken_eq_pos within]
  | refused e c within forward walk read =>
    refine ⟨.error e, _, c, within, ?_, walk, fun after ts hts => ?_⟩
    · intro p hp
      cases hp
    · have hread : program (withEnd ts) = .error ⟨e, (i.tokens after).drop c.pos⟩ := by
        rw [hts]
        exact read after
      simp only [parseTokens, hread, true_and]
      rw [hts, taken_eq_pos within]

/-- **The parser always ends, and never looks behind the first end token.**  On
    any tokens, the walk over them is not given up if its bound is large enough.
    It ends with what `parseTokens` gives, where it gives it.  It moves forward
    only; all tokens that it looks at stand at or in front of the first end
    token, of which there is one.  If it gives a program, it stops right there
    and all constructs are closed.  No token behind the first end token changes
    anything. -/
theorem parseTokens_in_bounds (ts : List Token) : ∃ (c : Cursor) (bound : Nat),
    (∀ n ≥ bound, Walk.program (withEnd ts) n .start =
      some ((parseTokens ts).result.mapError .refused, c)) ∧
    (parseTokens ts).taken = c.pos ∧
    (c.looks.Pairwise fun later earlier => earlier.pos ≤ later.pos) ∧
    (∀ l ∈ c.looks, l.pos ≤ c.pos ∧ l.index ≤ firstEnd ts) ∧
    c.pos ≤ firstEnd ts ∧ firstEnd ts < (withEnd ts).length ∧
    (∀ p, (parseTokens ts).result = .ok p → c.pos = firstEnd ts ∧ c.nesting = 0) ∧
    ∀ us, (withEnd us).take (firstEnd ts + 1) = (withEnd ts).take (firstEnd ts + 1) →
      (parseTokens us).result = (parseTokens ts).result ∧
        (parseTokens us).taken = (parseTokens ts).taken ∧
        ∀ n ≥ bound, Walk.program (withEnd us) n .start = Walk.program (withEnd ts) n .start := by
  obtain ⟨i, after, hts, hstop⟩ := exists_input ts
  obtain ⟨result, m, c, within, hok, ⟨bound, hwalk⟩, hparse⟩ := exists_walk i
  obtain ⟨hresult, htaken⟩ := hparse after ts hts
  rw [hstop, hresult, htaken]
  refine ⟨c, bound, ?_, rfl, within.ordered, within.looks, within.pos, ?_, hok, fun us hus => ?_⟩
  · rw [hts]
    exact hwalk after
  · rw [hts]
    simp [Input.tokens, Input.stop]
  · have hbegin : (withEnd ts).take (i.stop + 1) = i.body ++ [i.last] := by
      rw [hts]
      simp [Input.tokens, Input.stop, List.take_append, List.take_of_length_le]
    have hus' : withEnd us = i.tokens ((withEnd us).drop (i.stop + 1)) := by
      conv => lhs; rw [← List.take_append_drop (i.stop + 1) (withEnd us), hus, hbegin]
      simp [Input.tokens]
    obtain ⟨hresult', htaken'⟩ := hparse _ us hus'
    refine ⟨hresult', htaken', fun n hn => ?_⟩
    rw [hts, hus', hwalk _ n hn, hwalk _ n hn]

/-- An empty block, an end token and a parenthesis behind it. -/
def closedBlock : List Token :=
  [⟨.symbol, "\x7b", ⟨1, 1⟩⟩, ⟨.symbol, "\x7d", ⟨1, 2⟩⟩, ⟨.endOfInput, "", ⟨1, 3⟩⟩,
    ⟨.symbol, ")", ⟨1, 3⟩⟩]

/-- The parenthesis is never looked at, and the tokens without it give the same
    program. -/
theorem parseTokens_in_bounds_closedBlock :
    (parseTokens closedBlock).result = .ok [.block []] ∧
      (∃ (c : Cursor) (n : Nat),
        Walk.program (withEnd closedBlock) n .start = some (.ok [.block []], c) ∧
        c.pos = 2 ∧ c.nesting = 0 ∧ ∀ l ∈ c.looks, l.index ≤ 2) ∧
      (parseTokens (closedBlock.take 3)).result = .ok [.block []] := by
  have hend : firstEnd closedBlock = 2 := by decide
  have hresult : (parseTokens closedBlock).result = .ok [.block []] := rfl
  have hbegin : (withEnd (closedBlock.take 3)).take (firstEnd closedBlock + 1) =
      (withEnd closedBlock).take (firstEnd closedBlock + 1) := by
    rw [hend]
    rfl
  obtain ⟨c, n, hwalk, -, -, hlooks, -, -, hok, hsame⟩ := parseTokens_in_bounds closedBlock
  obtain ⟨hpos, hnesting⟩ := hok _ hresult
  rw [hresult] at hwalk
  rw [hend] at hlooks hpos
  exact ⟨hresult, ⟨c, n, hwalk n (Nat.le_refl n), hpos, hnesting, fun l hl => (hlooks l hl).2⟩,
    (hsame _ hbegin).1.trans hresult⟩

end Descent

end BlockScript
