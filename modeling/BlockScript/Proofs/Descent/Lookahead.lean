/-
  BlockScript — how far recursive descent looks.

  What a reader does hangs only on the tokens that it takes and on the first
  one that it leaves.  When it refuses, it hangs on the tokens up to the
  offending one.  So a refusal is the same on all tokens that begin alike, even
  though a statement looks one token further to tell an assignment apart.

  * `Refusal.onwards`: the tokens from the offending one on;
  * `Local r ts`: what `r` does on `ts` hangs on no token further away;
  * `chainLoop`, `manyLoop`: the loops of the readers, without their bounds;
  * `statement_local`, `program_local`.
-/
import BlockScript.Proofs.Descent.Sound

namespace BlockScript.Descent

open Grammar

variable {α β : Type}

/-! ## Readers that look one token ahead -/

/-- The tokens that were left at a refusal, from the offending one on.  A
    number, a prefix operator and a parenthesis are taken before they are
    refused. -/
def Refusal.onwards (f : Refusal) : List Token :=
  match f.error with
  | .malformedNumber t => t :: f.rest
  | .nestedTooDeeply t => if opensCompound t then f.rest else t :: f.rest
  | _ => f.rest

/-- What the reader does on `ts` hangs only on the tokens up to the first one
    that it leaves, or up to the offending one. -/
structure Local (r : Reader α) (ts : List Token) : Prop where
  ok : ∀ {a rest}, r ts = .ok (a, rest) → ∃ taken, ts = taken ++ rest ∧
    ∀ rest', rest'.head? = rest.head? → r (taken ++ rest') = .ok (a, rest')
  error : ∀ {f}, r ts = .error f → ∃ taken, ts = taken ++ f.onwards ∧
    ∀ rest', rest'.head? = f.onwards.head? →
      ∃ f', r (taken ++ rest') = .error f' ∧ f'.error = f.error

theorem head?_append_congr {us vs : List Token} (ts : List Token) (h : us.head? = vs.head?) :
    (ts ++ us).head? = (ts ++ vs).head? := by
  rw [List.head?_append, List.head?_append, h]

theorem next_congr {us vs : List Token} (h : us.head? = vs.head?) : next us = next vs := by
  have hnext : ∀ ts : List Token, next ts = ts.head?.getD (Token.eof ⟨0, 0⟩) := by
    intro ts
    cases ts <;> rfl
  rw [hnext, hnext, h]

theorem bind_eq_error_iff {x : Reader α} {f : α → Reader β} {ts : List Token} {e : Refusal} :
    (x >>= f) ts = .error e ↔
      x ts = .error e ∨ ∃ a mid, x ts = .ok (a, mid) ∧ f a mid = .error e := by
  rw [bind_eq]
  cases x ts with
  | ok p =>
    constructor
    · exact fun h => Or.inr ⟨p.1, p.2, rfl, h⟩
    · rintro (h | ⟨a, mid, hp, h⟩)
      · cases h
      · cases hp
        exact h
  | error e' => simp

/-- A reader that goes on after another one. -/
theorem Local.bind {x : Reader α} {f : α → Reader β} {ts : List Token} (hx : Local x ts)
    (hf : ∀ a mid, x ts = .ok (a, mid) → Local (f a) mid) : Local (x >>= f) ts where
  ok {b rest} h := by
    obtain ⟨a, mid, ha, hb⟩ := bind_eq_ok_iff.1 h
    obtain ⟨taken, rfl, hx'⟩ := hx.ok ha
    obtain ⟨taken', rfl, hf'⟩ := (hf a mid ha).ok hb
    refine ⟨taken ++ taken', by rw [List.append_assoc], fun rest' hr => ?_⟩
    rw [List.append_assoc, bind_eq, hx' _ (head?_append_congr taken' hr)]
    exact hf' rest' hr
  error {e} h := by
    rcases bind_eq_error_iff.1 h with he | ⟨a, mid, ha, he⟩
    · obtain ⟨taken, rfl, hx'⟩ := hx.error he
      refine ⟨taken, rfl, fun rest' hr => ?_⟩
      obtain ⟨e', he', hsame⟩ := hx' rest' hr
      exact ⟨e', bind_eq_error_iff.2 (Or.inl he'), hsame⟩
    · obtain ⟨taken, rfl, hx'⟩ := hx.ok ha
      obtain ⟨taken', rfl, hf'⟩ := (hf a mid ha).error he
      refine ⟨taken ++ taken', by rw [List.append_assoc], fun rest' hr => ?_⟩
      obtain ⟨e', he', hsame⟩ := hf' rest' hr
      rw [List.append_assoc]
      exact ⟨e', bind_eq_error_iff.2
        (Or.inr ⟨a, _, hx' _ (head?_append_congr taken' hr), he'⟩), hsame⟩

/-- A reader that goes on after another one, whatever that one took. -/
theorem Local.seq {x : Reader α} {f : α → Reader β} {ts : List Token} (hx : Local x ts)
    (hf : ∀ a mid, Local (f a) mid) : Local (x >>= f) ts :=
  hx.bind fun a mid _ => hf a mid

/-- Readers that do the same on all tokens that begin alike. -/
theorem Local.congr {r q : Reader α} {ts : List Token}
    (h : ∀ us, us.head? = ts.head? → r us = q us) (hr : Local q ts) : Local r ts where
  ok {a rest} ha := by
    rw [h ts rfl] at ha
    obtain ⟨taken, rfl, hr'⟩ := hr.ok ha
    refine ⟨taken, rfl, fun rest' hrest => ?_⟩
    rw [h _ (head?_append_congr taken hrest)]
    exact hr' rest' hrest
  error {f} hf := by
    rw [h ts rfl] at hf
    obtain ⟨taken, htaken, hr'⟩ := hr.error hf
    refine ⟨taken, htaken, fun rest' hrest => ?_⟩
    have hhead := head?_append_congr taken hrest
    rw [← htaken] at hhead
    rw [h _ hhead]
    exact hr' rest' hrest

/-- A reader that goes on like another one after a token. -/
theorem Local.after {r q : Reader α} {t : Token} {ts : List Token}
    (h : ∀ us, us.head? = ts.head? → r (t :: us) = q us) (hr : Local q ts) :
    Local r (t :: ts) where
  ok {a rest} ha := by
    rw [h ts rfl] at ha
    obtain ⟨taken, rfl, hr'⟩ := hr.ok ha
    refine ⟨t :: taken, rfl, fun rest' hrest => ?_⟩
    rw [List.cons_append, h _ (head?_append_congr taken hrest)]
    exact hr' rest' hrest
  error {f} hf := by
    rw [h ts rfl] at hf
    obtain ⟨taken, htaken, hr'⟩ := hr.error hf
    refine ⟨t :: taken, by rw [htaken]; rfl, fun rest' hrest => ?_⟩
    have hhead := head?_append_congr taken hrest
    rw [← htaken] at hhead
    rw [List.cons_append, h _ hhead]
    exact hr' rest' hrest

/-- A reader that looks at the next token and leaves it. -/
theorem local_of_left {r : Reader α} {ts : List Token} {a : α}
    (h : ∀ us, us.head? = ts.head? → r us = .ok (a, us)) : Local r ts where
  ok {b rest} hb := by
    rw [h ts rfl] at hb
    cases hb
    exact ⟨[], rfl, fun rest' hr => h rest' hr⟩
  error {f} hf := by
    rw [h ts rfl] at hf
    cases hf

/-- A reader that takes the next token. -/
theorem local_of_taken {r : Reader α} {ts : List Token} {a : α}
    (h : ∀ us, us.head? = ts.head? → r us = .ok (a, us.tail)) : Local r ts where
  ok {b rest} hb := by
    rw [h ts rfl] at hb
    cases hb
    cases ts with
    | nil =>
      refine ⟨[], rfl, fun rest' hr => ?_⟩
      rw [List.head?_eq_none_iff.1 hr]
      exact h [] rfl
    | cons t ts => exact ⟨[t], rfl, fun rest' _ => h (t :: rest') rfl⟩
  error {f} hf := by
    rw [h ts rfl] at hf
    cases hf

/-- A reader that refuses the next token. -/
theorem local_of_refused {r : Reader α} {ts : List Token} {e : ParseError}
    (h : ∀ us, us.head? = ts.head? → ∃ f, r us = .error f ∧ f.error = e ∧ f.onwards = us) :
    Local r ts where
  ok {b rest} hb := by
    obtain ⟨f, hf, -⟩ := h ts rfl
    rw [hf] at hb
    cases hb
  error {f} hf := by
    obtain ⟨f', hf', he, ho⟩ := h ts rfl
    rw [hf'] at hf
    cases hf
    refine ⟨[], by rw [ho]; rfl, fun rest' hr => ?_⟩
    rw [ho] at hr
    obtain ⟨g, hg, hge, -⟩ := h rest' hr
    exact ⟨g, hg, hge.trans he.symm⟩

/-! ## Single tokens -/

theorem pure_local (a : α) (ts : List Token) : Local (pure a : Reader α) ts :=
  local_of_left fun _ _ => rfl

theorem peek_local (ts : List Token) : Local peek ts :=
  local_of_left (a := next ts) fun us h => by rw [peek, next_congr h]

theorem take_local (ts : List Token) : Local take ts :=
  local_of_taken (a := next ts) fun us h => by rw [take, next_congr h]

theorem symbol_local (text : String) (ts : List Token) : Local (symbol text) ts := by
  by_cases ht : (next ts).is .symbol text = true
  · refine local_of_taken (a := ()) fun us h => ?_
    rw [← next_congr h] at ht
    simp only [symbol, ht, if_true]
  · refine local_of_refused (e := .expectedSymbol text (next ts)) fun us h => ?_
    rw [← next_congr h] at ht ⊢
    exact ⟨⟨.expectedSymbol text (next us), us⟩, by simp only [symbol, ht]; rfl, rfl, rfl⟩

theorem accept_local (kind : TokenKind) (text : String) (ts : List Token) :
    Local (accept kind text) ts := by
  by_cases ht : (next ts).is kind text = true
  · refine local_of_taken (a := true) fun us h => ?_
    rw [← next_congr h] at ht
    simp only [accept, ht, if_true]
  · refine local_of_left (a := false) fun us h => ?_
    rw [← next_congr h] at ht
    simp only [accept, ht]
    rfl

theorem acceptOperator_local (ops : List String) (ts : List Token) :
    Local (acceptOperator ops) ts := by
  by_cases ht : ((next ts).kind = .operator && ops.contains (next ts).text) = true
  · refine local_of_taken (a := some (next ts).text) fun us h => ?_
    rw [← next_congr h] at ht ⊢
    simp only [acceptOperator, ht, if_true]
  · refine local_of_left (a := none) fun us h => ?_
    rw [← next_congr h] at ht
    simp only [acceptOperator, ht]
    rfl

/-- The refusal of a token that stays. -/
theorem refuse_local {e : ParseError} {ts : List Token}
    (h : ∀ us, us.head? = ts.head? → (⟨e, us⟩ : Refusal).onwards = us) :
    Local (refuse e : Reader α) ts :=
  local_of_refused fun us hus => ⟨⟨e, us⟩, rfl, rfl, h us hus⟩

/-- The refusal of a token that has been taken. -/
theorem take_refuse_local {e : Token → ParseError} {t : Token} {ts : List Token}
    (h : ∀ us, (⟨e t, us⟩ : Refusal).onwards = t :: us) :
    Local (take >>= fun t => (refuse (e t) : Reader α)) (t :: ts) := by
  refine local_of_refused (e := e t) fun us hus => ?_
  obtain ⟨us, rfl⟩ := List.head?_eq_some_iff.1 hus
  exact ⟨⟨e t, us⟩, rfl, rfl, h us⟩

/-! ## Loops -/

/-- Join `left` with the operands that follow it. -/
def chainLoop (ops : List String) (operand : Reader Node) (left : Node) : Reader Node :=
  fun ts => chainFrom ops operand ts.length left ts

theorem chain_eq (ops : List String) (operand : Reader Node) :
    chain ops operand = operand >>= chainLoop ops operand :=
  rfl

/-- A reader that does not look further takes tokens off the front. -/
theorem Local.length_le {r : Reader α} {ts rest : List Token} {a : α} (h : Local r ts)
    (ha : r ts = .ok (a, rest)) : rest.length ≤ ts.length := by
  obtain ⟨taken, rfl, -⟩ := h.ok ha
  simp

section Chain

variable {ops : List String} {operand : Reader Node} (hop : ∀ ts, Local operand ts)
include hop

/-- A larger bound on the number of operands changes nothing. -/
theorem chainFrom_bound {ts : List Token} : ∀ {m n : Nat} (left : Node), ts.length ≤ m →
    ts.length ≤ n → chainFrom ops operand m left ts = chainFrom ops operand n left ts := by
  have none_of_nil : acceptOperator ops [] = .ok (none, []) := by
    simp [acceptOperator, next, Token.eof]
  have of_nil : ∀ (m : Nat) (left : Node), chainFrom ops operand m left [] = .ok (left, []) := by
    intro m left
    cases m with
    | zero => rfl
    | succ m => rw [chainFrom, bind_eq, none_of_nil]; rfl
  intro m
  induction m generalizing ts with
  | zero =>
    intro n left hm _
    rw [List.length_eq_zero_iff.1 (Nat.le_zero.1 hm), of_nil, of_nil]
  | succ m ih =>
    intro n left hm hn
    cases n with
    | zero => rw [List.length_eq_zero_iff.1 (Nat.le_zero.1 hn), of_nil, of_nil]
    | succ n =>
      rw [chainFrom, chainFrom, bind_eq, bind_eq]
      rcases ha : acceptOperator ops ts with f | ⟨_ | op, mid⟩
      · rfl
      · rfl
      · obtain ⟨t, rfl, -⟩ := acceptOperator_eq_some ha
        rw [List.length_cons] at hm hn
        show (operand >>= _) mid = (operand >>= _) mid
        rw [bind_eq, bind_eq]
        rcases hr : operand mid with f | ⟨right, rest⟩
        · rfl
        · have hlen := (hop mid).length_le hr
          exact ih _ (by omega) (by omega)

/-- One turn of the loop. -/
theorem chainLoop_eq (left : Node) (ts : List Token) :
    chainLoop ops operand left ts = (acceptOperator ops >>= fun
      | none => pure left
      | some op => operand >>= fun right => chainLoop ops operand (.binary op left right)) ts := by
  rw [chainLoop, chainFrom_bound hop left (Nat.le_refl _) (Nat.le_succ _), chainFrom, bind_eq,
    bind_eq]
  rcases ha : acceptOperator ops ts with f | ⟨_ | op, mid⟩
  · rfl
  · rfl
  · obtain ⟨t, rfl, -⟩ := acceptOperator_eq_some ha
    show (operand >>= _) mid = (operand >>= _) mid
    rw [bind_eq, bind_eq]
    rcases hr : operand mid with f | ⟨right, rest⟩
    · rfl
    · have hlen := (hop mid).length_le hr
      refine chainFrom_bound hop _ ?_ (Nat.le_refl _)
      rw [List.length_cons]
      omega

theorem chainLoop_local (left : Node) (ts : List Token) :
    Local (chainLoop ops operand left) ts := by
  induction hn : ts.length using Nat.strongRecOn generalizing ts left with
  | ind n ih =>
    subst hn
    refine .congr (fun us _ => chainLoop_eq hop left us) ?_
    refine (acceptOperator_local ops ts).bind fun a mid ha => ?_
    cases a with
    | none => exact pure_local left mid
    | some op =>
      obtain ⟨t, rfl, -⟩ := acceptOperator_eq_some ha
      refine (hop mid).bind fun right rest hr => ?_
      have hlen := (hop mid).length_le hr
      exact ih rest.length (by rw [List.length_cons]; omega) _ rest rfl

theorem chain_local (ts : List Token) : Local (chain ops operand) ts :=
  (hop ts).seq (chainLoop_local hop)

end Chain

theorem expressionOver_local {operand : Reader Node} (h : ∀ ts, Local operand ts)
    (ts : List Token) : Local (expressionOver operand) ts :=
  chain_local (chain_local (chain_local (chain_local h))) ts

/-- Read items until a token stops them. -/
def manyLoop (stop : Token → Bool) (item : Reader α) : Reader (List α) :=
  fun ts => manyUntil stop item ts.length ts

section Many

variable {stop : Token → Bool} {item : Reader α} (hend : ∀ t : Token, t.isEnd → stop t)
  (hitem : ∀ {ts a rest}, item ts = .ok (a, rest) → rest.length < ts.length)
include hend hitem

/-- A larger bound on the number of items changes nothing. -/
theorem manyUntil_bound {ts : List Token} : ∀ {m n : Nat}, ts.length ≤ m → ts.length ≤ n →
    manyUntil stop item m ts = manyUntil stop item n ts := by
  have of_nil : ∀ m : Nat, manyUntil stop item m [] = .ok ([], []) := by
    intro m
    cases m with
    | zero => rfl
    | succ m =>
      have hstop : stop (next []) = true := hend _ rfl
      rw [manyUntil, bind_eq]
      simp only [peek, hstop, if_true]
      rfl
  intro m
  induction m generalizing ts with
  | zero =>
    intro n hm _
    rw [List.length_eq_zero_iff.1 (Nat.le_zero.1 hm), of_nil, of_nil]
  | succ m ih =>
    intro n hm hn
    cases n with
    | zero => rw [List.length_eq_zero_iff.1 (Nat.le_zero.1 hn), of_nil, of_nil]
    | succ n =>
      rw [manyUntil, manyUntil, bind_eq, bind_eq]
      simp only [peek]
      split
      · rfl
      · rw [bind_eq, bind_eq]
        rcases hi : item ts with f | ⟨first, mid⟩
        · rfl
        · have hlen := hitem hi
          show (manyUntil stop item m >>= _) mid = (manyUntil stop item n >>= _) mid
          rw [bind_eq, bind_eq, ih (n := n) (by omega) (by omega)]

/-- One turn of the loop. -/
theorem manyLoop_eq (ts : List Token) :
    manyLoop stop item ts = (peek >>= fun t => if stop t then pure [] else
      item >>= fun first => manyLoop stop item >>= fun others => pure (first :: others)) ts := by
  rw [manyLoop, manyUntil_bound hend hitem (Nat.le_refl _) (Nat.le_succ _), manyUntil, bind_eq,
    bind_eq]
  simp only [peek]
  split
  · rfl
  · rw [bind_eq, bind_eq]
    rcases hi : item ts with f | ⟨first, mid⟩
    · rfl
    · have hlen := hitem hi
      show (manyUntil stop item ts.length >>= _) mid = (manyLoop stop item >>= _) mid
      rw [bind_eq, bind_eq, manyLoop,
        manyUntil_bound hend hitem (Nat.le_of_lt hlen) (Nat.le_refl _)]

theorem manyLoop_local (hlocal : ∀ ts, Local item ts) (ts : List Token) :
    Local (manyLoop stop item) ts := by
  induction hn : ts.length using Nat.strongRecOn generalizing ts with
  | ind n ih =>
    subst hn
    refine .congr (fun us _ => manyLoop_eq hend hitem us) ?_
    refine (peek_local ts).bind fun t mid ht => ?_
    cases ht
    split
    · exact pure_local [] ts
    · refine (hlocal ts).bind fun first rest hf => ?_
      exact (ih rest.length (hitem hf) rest rfl).seq fun _ left => pure_local _ left

end Many

/-! ## Expressions -/

theorem atom_local (ts : List Token) : Local atom ts := by
  refine (peek_local ts).bind fun t mid ht => ?_
  cases ht
  cases hk : (next ts).kind with
  | number =>
    obtain ⟨t, us, rfl⟩ : ∃ t us, ts = t :: us := ⟨_, _, eq_next_cons (by simp [hk])⟩
    simp only
    cases hx : readNumber? t.text with
    | none =>
      refine .congr (q := take >>= fun t => refuse (.malformedNumber t)) (fun us hus => ?_)
        (take_refuse_local fun us => rfl)
      obtain ⟨us, rfl⟩ := List.head?_eq_some_iff.1 hus
      rw [bind_eq, bind_eq]
      simp only [take, next, hx]
    | some x =>
      refine local_of_taken (a := .literal (.number x)) fun us hus => ?_
      obtain ⟨us, rfl⟩ := List.head?_eq_some_iff.1 hus
      rw [bind_eq]
      simp only [take, next, hx]
      rfl
  | string => exact (take_local ts).seq fun _ rest => pure_local _ rest
  | identifier => exact (take_local ts).seq fun _ rest => pure_local _ rest
  | keyword =>
    simp only
    split
    · exact (take_local ts).seq fun _ rest => pure_local _ rest
    · exact refuse_local fun us _ => rfl
  | operator | symbol | endOfInput => exact refuse_local fun us _ => rfl

/-- A token that is taken before it is refused for its depth opens no
    statement. -/
theorem take_tooDeep_local {t : Token} {ts : List Token} (h : opensCompound t = false) :
    Local (take >>= fun t => (refuse (.nestedTooDeeply t) : Reader α)) (t :: ts) :=
  take_refuse_local fun us => by simp only [Refusal.onwards, h]; rfl

theorem operand_local (n : Nat) (ts : List Token) : Local (operand n) ts := by
  induction n generalizing ts with
  | zero =>
    rw [operand]
    refine (peek_local ts).bind fun t mid ht => ?_
    cases ht
    split
    · rename_i hop
      simp only [Bool.and_eq_true, decide_eq_true_eq] at hop
      rw [@eq_next_cons ts (by simp [hop.1])]
      exact take_tooDeep_local (by simp [opensCompound, Token.is, hop.1])
    · split
      · rename_i hl
        have hl := Token.is_iff.1 hl
        rw [@eq_next_cons ts (by simp [hl.1])]
        exact take_tooDeep_local (by simp [opensCompound, Token.is, hl.1, hl.2])
      · exact atom_local ts
  | succ n ih =>
    rw [operand]
    refine (peek_local ts).bind fun t mid ht => ?_
    cases ht
    split
    · refine (take_local ts).seq fun _ rest => (ih rest).seq fun _ left => ?_
      exact pure_local _ left
    · split
      · refine (take_local ts).seq fun _ rest => ?_
        refine (expressionOver_local ih rest).seq fun e left => ?_
        exact (symbol_local ")" left).seq fun _ left' => pure_local e left'
      · exact atom_local ts

theorem expression_local (n : Nat) (ts : List Token) : Local (expression n) ts :=
  expressionOver_local (operand_local n) ts

/-! ## Statements -/

/-- A chain that starts with a known token. -/
theorem chain_cons {ops : List String} {operand first : Reader Node} {t : Token}
    (h : ∀ us, operand (t :: us) = first us) (us : List Token) :
    chain ops operand (t :: us) = (first >>= chainLoop ops operand) us := by
  rw [chain_eq, bind_eq, bind_eq, h]

/-- What is left to read of an expression after the name that it starts
    with. -/
def afterName (n : Nat) (name : String) : Reader Node :=
  pure (.var name) >>= chainLoop factorOps (operand n) >>=
    chainLoop termOps (chain factorOps (operand n)) >>=
    chainLoop comparisonOps (chain termOps (chain factorOps (operand n))) >>=
    chainLoop equalityOps (chain comparisonOps (chain termOps (chain factorOps (operand n))))

theorem operand_name {x : Token} (hx : x.kind = .identifier) (n : Nat) (us : List Token) :
    operand n (x :: us) = (pure (.var x.text) : Reader Node) us := by
  unfold operand
  rw [bind_eq]
  simp only [peek, next, hx, Token.is, reduceCtorEq, decide_false, Bool.false_and,
    Bool.false_eq_true, if_false]
  rw [atom, bind_eq]
  simp only [peek, next, hx]
  rfl

theorem expression_name {x : Token} (hx : x.kind = .identifier) (n : Nat) (us : List Token) :
    expression n (x :: us) = afterName n x.text us :=
  chain_cons (chain_cons (chain_cons (chain_cons (operand_name hx n)))) us

theorem afterName_local (n : Nat) (name : String) (ts : List Token) :
    Local (afterName n name) ts := by
  have hoperand := operand_local n
  refine ((((pure_local _ ts).seq ?_).seq ?_).seq ?_).seq ?_
  · exact chainLoop_local hoperand
  · exact chainLoop_local (chain_local hoperand)
  · exact chainLoop_local (chain_local (chain_local hoperand))
  · exact chainLoop_local (chain_local (chain_local (chain_local hoperand)))

/-- An expression, or what is left of it, and the `;` after it. -/
theorem before_semicolon_local {r : Reader Node} {f : Node → Node} {ts : List Token}
    (h : Local r ts) :
    Local (r >>= fun e => symbol ";" >>= fun _ => pure (f e)) ts :=
  h.seq fun _ mid => (symbol_local ";" mid).seq fun _ left => pure_local _ left

/-- A statement that is an assignment or an expression. -/
def assignOrExpr (expression : Reader Node) : Reader Node := do
  if startsAssignment (← get) then
    let x ← take
    symbol "="
    let e ← expression
    symbol ";"
    return .assign x.text e
  else
    let e ← expression
    symbol ";"
    return .expr e

theorem assignOrExpr_eq (expression : Reader Node) (ts : List Token) :
    assignOrExpr expression ts =
      if startsAssignment ts then
        (take >>= fun x => symbol "=" >>= fun _ => expression >>= fun e => symbol ";" >>= fun _ =>
          pure (.assign x.text e)) ts
      else (expression >>= fun e => symbol ";" >>= fun _ => pure (.expr e)) ts := by
  have hget : assignOrExpr expression ts = (if startsAssignment ts then
      take >>= fun x => symbol "=" >>= fun _ => expression >>= fun e => symbol ";" >>= fun _ =>
        pure (.assign x.text e)
      else expression >>= fun e => symbol ";" >>= fun _ => pure (.expr e) : Reader Node) ts :=
    rfl
  rw [hget]
  split <;> rfl

/-- Whether a name starts an assignment hangs on the token after it, which is
    the offending one if the name is not followed by anything that fits. -/
theorem assignOrExpr_local (n : Nat) (ts : List Token) :
    Local (assignOrExpr (expression n)) ts := by
  by_cases hx : (next ts).kind = .identifier
  · obtain ⟨x, us, rfl⟩ : ∃ x us, ts = x :: us := ⟨_, _, eq_next_cons (by simp [hx])⟩
    replace hx : x.kind = .identifier := hx
    by_cases heq : (next us).is .symbol "=" = true
    · obtain ⟨eq, vs, rfl⟩ : ∃ eq vs, us = eq :: vs :=
        ⟨_, _, eq_next_cons (by simp [(Token.is_iff.1 heq).1])⟩
      refine .after (q := symbol "=" >>= fun _ => expression n >>= fun e =>
        symbol ";" >>= fun _ => pure (.assign x.text e)) (fun ws hws => ?_) ?_
      · obtain ⟨ws, rfl⟩ := List.head?_eq_some_iff.1 hws
        have hstarts : startsAssignment (x :: eq :: ws) = true := by
          simpa [startsAssignment, hx, next] using heq
        rw [assignOrExpr_eq, if_pos hstarts]
        rfl
      · exact (symbol_local "=" _).seq fun _ mid =>
          before_semicolon_local (expression_local n mid)
    · refine .after (q := afterName n x.text >>= fun e => symbol ";" >>= fun _ =>
        pure (.expr e)) (fun ws hws => ?_) (before_semicolon_local (afterName_local n x.text us))
      have hstarts : startsAssignment (x :: ws) = false := by
        cases ws with
        | nil => rfl
        | cons w ws =>
          rw [← next_congr hws] at heq
          simpa [startsAssignment, hx, next] using heq
      rw [assignOrExpr_eq, hstarts, if_neg Bool.false_ne_true, bind_eq, bind_eq,
        expression_name hx]
  · refine .congr (fun us hus => ?_) (before_semicolon_local (f := .expr) (expression_local n ts))
    have hstarts : startsAssignment us = false := by
      rw [Bool.eq_false_iff]
      intro h
      have hk := kind_of_startsAssignment h
      rw [next_congr hus] at hk
      exact hx hk
    rw [assignOrExpr_eq, hstarts, if_neg Bool.false_ne_true]

theorem simpleStatement_local (n : Nat) (ts : List Token) :
    Local (simpleStatement (expression n)) ts := by
  refine (accept_local .keyword "print" ts).seq fun isPrint mid => ?_
  cases isPrint with
  | true => exact before_semicolon_local (expression_local n mid)
  | false => exact assignOrExpr_local n mid

section

variable {expression statement : Reader Node} (he : ∀ ts, Local expression ts)
  (hs : ∀ ts, Local statement ts)

include he in
theorem condition_local (ts : List Token) : Local (condition expression) ts :=
  (symbol_local "(" ts).seq fun _ mid => (he mid).seq fun c left =>
    (symbol_local ")" left).seq fun _ left' => pure_local c left'

include he hs in
theorem branch_local (ts : List Token) : Local (branch expression statement) ts := by
  refine (condition_local he ts).seq fun _ mid => (hs mid).seq fun _ left => ?_
  refine (accept_local .keyword "else" left).seq fun isElse left' => ?_
  cases isElse with
  | true => exact (hs left').seq fun _ rest => pure_local _ rest
  | false => exact pure_local _ left'

include he hs in
theorem loop_local (ts : List Token) : Local (loop expression statement) ts :=
  (condition_local he ts).seq fun _ mid => (hs mid).seq fun _ left => pure_local _ left

variable (hshort : ∀ {ts a rest}, statement ts = .ok (a, rest) → rest.length < ts.length)

theorem block_eq (statement : Reader Node) :
    block statement = manyLoop endsBlock statement >>= fun body => symbol "\x7d" >>= fun _ =>
      accept .symbol ";" >>= fun _ => pure (.block body) :=
  rfl

include hs hshort in
theorem block_local (ts : List Token) : Local (block statement) ts := by
  have hend : ∀ t : Token, t.isEnd → endsBlock t := fun t ht => by simp [endsBlock, ht]
  rw [block_eq]
  refine (manyLoop_local hend hshort hs ts).seq fun _ mid => ?_
  refine (symbol_local "\x7d" mid).seq fun _ left => ?_
  exact (accept_local .symbol ";" left).seq fun _ rest => pure_local _ rest

include he hs hshort in
theorem compoundStatement_local (ts : List Token) :
    Local (compoundStatement expression statement) ts := by
  refine (accept_local .keyword "if" ts).seq fun isIf mid => ?_
  cases isIf with
  | true => exact branch_local he hs mid
  | false =>
    refine (accept_local .keyword "while" mid).seq fun isWhile mid' => ?_
    cases isWhile with
    | true => exact loop_local he hs mid'
    | false =>
      exact (symbol_local "\x7b" mid').seq fun _ left => block_local hs hshort left

end

/-- A statement takes at least one token. -/
theorem statement_length_lt {n : Nat} {ts rest : List Token} {e : Node}
    (h : statement n ts = .ok (e, rest)) : rest.length < ts.length := by
  obtain ⟨b, s, hs⟩ := statement_sound n h
  obtain ⟨t, us, hy, -⟩ := s.yield_eq_cons
  rw [hs.tokens, hy, List.length_append, List.length_cons]
  omega

theorem statement_local (n : Nat) (ts : List Token) : Local (statement n) ts := by
  induction n generalizing ts with
  | zero =>
    rw [statement]
    refine (peek_local ts).bind fun t mid ht => ?_
    cases ht
    split
    · rename_i hopen
      refine refuse_local fun us _ => ?_
      simp only [Refusal.onwards, hopen, if_true]
    · exact simpleStatement_local 0 ts
  | succ n ih =>
    rw [statement]
    refine (peek_local ts).bind fun t mid ht => ?_
    cases ht
    split
    · exact compoundStatement_local (expression_local n) ih statement_length_lt ts
    · exact simpleStatement_local (n + 1) ts

/-- **A program is refused for the tokens up to the offending one**, whatever
    comes after them. -/
theorem program_local (ts : List Token) : Local program ts :=
  manyLoop_local (fun _ ht => ht) statement_length_lt (statement_local maxNesting) ts

end BlockScript.Descent
