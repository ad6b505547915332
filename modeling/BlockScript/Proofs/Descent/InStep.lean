/-
  BlockScript — readers and walks in step.

  A reader takes tokens off the front of a list, a walk goes over the whole list
  with a cursor.  They do the same step by step: where one gives a result the
  other one does, and what is left for the reader is what the cursor has in
  front of it.  As this is said for all lists that begin with the same tokens up
  to an end token, it also says that nothing behind that token matters.

  * `Input`: the tokens up to the first end token;
  * `Input.Within m c`: the cursor and all looks taken so far are within them;
  * `Ends i c w out`: the walk is not given up if its bound is large enough;
  * `Agrees i c m r w`: from the cursor on, reader and walk do the same;
  * `InStep i n r w`: they do from all cursors that have `n` levels of nesting
    left.
-/
import BlockScript.Proofs.Descent.Complete
import BlockScript.Proofs.Descent.Walk

namespace BlockScript.Walk

open Grammar (IsOperator)
open Descent (Reader maxNesting)

variable {α β γ : Type}

/-! ## The tokens up to the first end token -/

/-- Tokens of which the last one is an end token, and no other one. -/
structure Input where
  body : List Token
  last : Token
  body_noEnd : ∀ t ∈ body, t.isEnd = false
  last_isEnd : last.isEnd = true

namespace Input

/-- The index of the end token. -/
def stop (i : Input) : Nat :=
  i.body.length

/-- The token at an index.  The end token is taken for all that come after
    it. -/
def token (i : Input) (k : Nat) : Token :=
  i.body.getD k i.last

/-- A list of tokens that begins with the input. -/
def tokens (i : Input) (after : List Token) : List Token :=
  i.body ++ i.last :: after

variable {i : Input} {k : Nat}

theorem getElem?_tokens (h : k ≤ i.stop) (after : List Token) :
    (i.tokens after)[k]? = some (i.token k) := by
  rcases Nat.lt_or_eq_of_le h with hlt | rfl
  · rw [tokens, List.getElem?_append_left hlt, token, List.getD_eq_getElem?_getD,
      List.getElem?_eq_getElem hlt, Option.getD_some]
  · simp [tokens, token, stop]

/-- What is left from an index on starts with the token there. -/
theorem drop_tokens (h : k ≤ i.stop) (after : List Token) :
    (i.tokens after).drop k = i.token k :: (i.tokens after).drop (k + 1) := by
  obtain ⟨hlt, hk⟩ := List.getElem?_eq_some_iff.1 (getElem?_tokens h after)
  rw [List.drop_eq_getElem_cons hlt, hk]

theorem token_isEnd_iff (h : k ≤ i.stop) : (i.token k).isEnd = true ↔ k = i.stop := by
  rcases Nat.lt_or_eq_of_le h with hlt | rfl
  · have hmem : i.token k ∈ i.body := by
      rw [token, List.getD_eq_getElem?_getD, List.getElem?_eq_getElem hlt, Option.getD_some]
      exact List.getElem_mem hlt
    simp [i.body_noEnd _ hmem, Nat.ne_of_lt hlt]
  · simp [token, stop, i.last_isEnd]

theorem lt_stop (h : k ≤ i.stop) (hk : (i.token k).kind ≠ .endOfInput) : k < i.stop := by
  refine Nat.lt_of_le_of_ne h fun hstop => hk ?_
  exact of_decide_eq_true ((token_isEnd_iff h).2 hstop)

end Input

/-! ## Cursors within the input -/

/-- The cursor has not passed the end token, it has not looked behind it, and it
    has never moved backwards.  There are `m` constructs open. -/
structure Input.Within (i : Input) (m : Int) (c : Cursor) : Prop where
  pos : c.pos ≤ i.stop
  nesting : c.nesting = m
  ordered : c.looks.Pairwise fun later earlier => earlier.pos ≤ later.pos
  looks : ∀ l ∈ c.looks, l.pos ≤ c.pos ∧ l.index ≤ i.stop

/-- The cursor after the next token, which was looked at before and asked for
    whether it is an end token. -/
def Cursor.passed (c : Cursor) : Cursor :=
  { (c.look 0).look 0 with pos := c.pos + 1 }

/-- The cursor with another number of open constructs. -/
def Cursor.nested (c : Cursor) (m : Int) : Cursor :=
  { c with nesting := m }

namespace Input.Within

variable {i : Input} {m : Int} {c : Cursor}

theorem start (i : Input) : i.Within 0 .start :=
  ⟨Nat.zero_le _, rfl, .nil, by simp [Cursor.start]⟩

theorem look {k : Nat} (h : i.Within m c) (hk : c.pos + k ≤ i.stop) : i.Within m (c.look k) where
  pos := h.pos
  nesting := h.nesting
  ordered := .cons (fun l hl => (h.looks l hl).1) h.ordered
  looks := by
    intro l hl
    rcases List.mem_cons.1 hl with rfl | hl
    · exact ⟨Nat.le_refl _, hk⟩
    · exact h.looks l hl

theorem looked (h : i.Within m c) : i.Within m (c.look 0) :=
  h.look h.pos

theorem passed (h : i.Within m c) (hlt : c.pos < i.stop) : i.Within m c.passed := by
  have hlook := h.looked.looked
  exact ⟨hlt, hlook.nesting, hlook.ordered, fun l hl =>
    ⟨Nat.le_succ_of_le (hlook.looks l hl).1, (hlook.looks l hl).2⟩⟩

theorem nested (h : i.Within m c) (m' : Int) : i.Within m' (c.nested m') :=
  ⟨h.pos, rfl, h.ordered, h.looks⟩

end Input.Within

/-! ## Walks that end -/

section

variable {x : Walk α} {f : α → Walk β} {c c' : Cursor}

theorem bind_of_ok {a : α} (h : x c = some (.ok a, c')) : (x >>= f) c = f a c' := by
  show (x c >>= fun p => ExceptT.bindCont f p.1 p.2) = f a c'
  rw [h]
  rfl

theorem bind_of_error {e : Halt} (h : x c = some (.error e, c')) :
    (x >>= f) c = some (.error e, c') := by
  show (x c >>= fun p => ExceptT.bindCont f p.1 p.2) = _
  rw [h]
  rfl

end

/-- The walk ends: with all bounds that are large enough it has the given
    outcome, whatever comes after the input. -/
def Ends (i : Input) (c : Cursor) (w : List Token → Nat → Walk α)
    (out : Except Halt α × Cursor) : Prop :=
  ∃ b, ∀ after, ∀ n ≥ b, w (i.tokens after) n c = some out

namespace Ends

variable {i : Input} {c c' : Cursor} {out : Except Halt β × Cursor}

/-- A walk that hangs on no bound. -/
theorem of_unbounded {y : List Token → Walk β} (h : ∀ after, y (i.tokens after) c = some out) :
    Ends i c (fun ts _ => y ts) out :=
  ⟨0, fun after _ _ => h after⟩

/-- A walk that goes on like another one, with a smaller bound. -/
theorem of_succ {w w' : List Token → Nat → Walk β} (hw : ∀ ts n, w ts (n + 1) = w' ts n)
    (h : Ends i c w' out) : Ends i c w out := by
  obtain ⟨b, hb⟩ := h
  refine ⟨b + 1, fun after n hn => ?_⟩
  obtain ⟨n, rfl⟩ : ∃ k, n = k + 1 := ⟨n - 1, by omega⟩
  rw [hw]
  exact hb after n (by omega)

variable {y : List Token → Nat → Walk α} {g : List Token → Nat → α → Walk β}

theorem bind_ok {a : α} (h : Ends i c y (.ok a, c'))
    (hg : Ends i c' (fun ts n => g ts n a) out) : Ends i c (fun ts n => y ts n >>= g ts n) out := by
  obtain ⟨b, hb⟩ := h
  obtain ⟨b', hb'⟩ := hg
  refine ⟨max b b', fun after n hn => ?_⟩
  exact (bind_of_ok (hb after n (by omega))).trans (hb' after n (by omega))

theorem bind_error {e : Halt} (h : Ends i c y (.error e, c')) :
    Ends i c (fun ts n => y ts n >>= g ts n) (.error e, c') := by
  obtain ⟨b, hb⟩ := h
  exact ⟨b, fun after n hn => bind_of_error (hb after n hn)⟩

end Ends

/-! ## Readers and walks -/

/-- From the cursor on, the reader of the tokens that are left and the walk over
    all tokens do the same, whatever comes after the input: both give a result,
    with `m` constructs open, or both refuse, and they stop at the same place.
    The cursor moves forward and stays within the input. -/
inductive Agrees (i : Input) (c : Cursor) (m : Int) (r : Reader α)
    (w : List Token → Nat → Walk α) : Prop where
  | ok (a : α) (c' : Cursor) (within : i.Within m c') (forward : c.pos ≤ c'.pos)
      (walk : Ends i c w (.ok a, c'))
      (read : ∀ after, r ((i.tokens after).drop c.pos) = .ok (a, (i.tokens after).drop c'.pos))
  | refused (e : ParseError) {m' : Int} (c' : Cursor) (within : i.Within m' c')
      (forward : c.pos ≤ c'.pos) (walk : Ends i c w (.error (.refused e), c'))
      (read : ∀ after, r ((i.tokens after).drop c.pos) = .error ⟨e, (i.tokens after).drop c'.pos⟩)

namespace Agrees

variable {i : Input} {c c' : Cursor} {m m' : Int} {r : Reader γ}
  {w w' : List Token → Nat → Walk γ}

/-- Reader and walk come to where they agree. -/
theorem of_ends {q : Reader γ} (forward : c.pos ≤ c'.pos)
    (walk : ∀ {out}, Ends i c' w' out → Ends i c w out)
    (read : ∀ after, r ((i.tokens after).drop c.pos) = q ((i.tokens after).drop c'.pos))
    (h : Agrees i c' m q w') : Agrees i c m r w := by
  cases h with
  | ok a c'' within forward' walk' read' =>
    exact .ok a c'' within (Nat.le_trans forward forward') (walk walk')
      (fun after => (read after).trans (read' after))
  | refused e c'' within forward' walk' read' =>
    exact .refused e c'' within (Nat.le_trans forward forward') (walk walk')
      (fun after => (read after).trans (read' after))

theorem unfold (hw : ∀ ts n, w ts (n + 1) = w' ts n) (h : Agrees i c m r w') : Agrees i c m r w :=
  of_ends (Nat.le_refl _) (Ends.of_succ hw) (fun _ => rfl) h

/-- Reader and walk go on after others that agree. -/
theorem bind {x : Reader α} {f : α → Reader γ} {y : List Token → Nat → Walk α}
    {g : List Token → Nat → α → Walk γ} (h : Agrees i c m x y)
    (hf : ∀ a c', i.Within m c' → c.pos ≤ c'.pos →
      x ((i.tokens []).drop c.pos) = .ok (a, (i.tokens []).drop c'.pos) →
        Agrees i c' m' (f a) fun ts n => g ts n a) :
    Agrees i c m' (x >>= f) fun ts n => y ts n >>= g ts n := by
  cases h with
  | ok a c' within forward walk read =>
    refine of_ends forward walk.bind_ok (fun after => ?_) (hf a c' within forward (read []))
    rw [Descent.bind_eq, read after]
  | refused e c' within forward walk read =>
    refine .refused e c' within forward walk.bind_error fun after => ?_
    rw [Descent.bind_eq, read after]

/-- Reader and walk go on after others that agree, wherever these stop. -/
theorem seq {x : Reader α} {f : α → Reader γ} {y : List Token → Nat → Walk α}
    {g : List Token → Nat → α → Walk γ} (h : Agrees i c m x y)
    (hf : ∀ a c', i.Within m c' → Agrees i c' m' (f a) fun ts n => g ts n a) :
    Agrees i c m' (x >>= f) fun ts n => y ts n >>= g ts n :=
  h.bind fun a c' hc' _ _ => hf a c' hc'

/-- The walk does a step that takes no token. -/
theorem look {y : List Token → Walk β} {g : List Token → Nat → β → Walk γ} {b : β}
    (walk : ∀ after, y (i.tokens after) c = some (.ok b, c')) (pos : c'.pos = c.pos)
    (h : Agrees i c' m r fun ts n => g ts n b) : Agrees i c m r fun ts n => y ts >>= g ts n :=
  of_ends (Nat.le_of_eq pos.symm) (Ends.of_unbounded walk).bind_ok (fun _ => by rw [pos]) h

/-- The reader does the same as another one on the next token. -/
theorem readAs {q : Reader γ} (hc : i.Within m c)
    (read : ∀ us, r (i.token c.pos :: us) = q (i.token c.pos :: us)) (h : Agrees i c m q w) :
    Agrees i c m r w := by
  refine of_ends (Nat.le_refl _) id (fun after => ?_) h
  rw [Input.drop_tokens hc.pos, read]

protected theorem pure (hc : i.Within m c) (a : γ) :
    Agrees i c m (pure a) fun _ _ => pure a :=
  .ok a c hc (Nat.le_refl _) (.of_unbounded fun _ => rfl) (fun _ => rfl)

protected theorem refuse (hc : i.Within m c) (e : ParseError) :
    Agrees i c m' (Descent.refuse e : Reader γ) fun _ _ => refuse e :=
  .refused e c hc (Nat.le_refl _) (.of_unbounded fun _ => rfl) (fun _ => rfl)

end Agrees

/-! ## Single tokens -/

section

variable {i : Input} {c : Cursor} {m m' : Int}

theorem peek_run (hc : i.Within m c) (after : List Token) :
    peek (i.tokens after) c = some (.ok (i.token c.pos), c.look 0) := by
  rw [peek, Input.getElem?_tokens hc.pos]

theorem peekNext_run (hlt : c.pos < i.stop) (after : List Token) :
    peekNext (i.tokens after) c = some (.ok (i.token (c.pos + 1)), c.look 1) := by
  rw [peekNext, Input.getElem?_tokens hlt]
  rfl

theorem atEnd_run (hc : i.Within m c) (after : List Token) :
    atEnd (i.tokens after) c = some (.ok (i.token c.pos).isEnd, c.look 0) :=
  bind_of_ok (peek_run hc after)

/-- What `check` asks of a token. -/
def Fits (kind : TokenKind) (texts : List String) (t : Token) : Prop :=
  t.kind = kind ∧ (texts = [] ∨ t.text ∈ texts)

@[simp]
theorem fits_one {kind : TokenKind} {text : String} {t : Token} :
    Fits kind [text] t ↔ t.kind = kind ∧ t.text = text := by
  simp [Fits]

theorem fits_operator {ops : List String} (h : ops ≠ []) {t : Token} :
    Fits .operator ops t ↔ IsOperator ops t := by
  simp [Fits, IsOperator, h]

theorem check_run (hc : i.Within m c) (kind : TokenKind) (texts : List String)
    (after : List Token) :
    check (i.tokens after) kind texts c = some (.ok ((i.token c.pos).kind = kind &&
      (texts.isEmpty || texts.contains (i.token c.pos).text)), c.look 0) :=
  bind_of_ok (peek_run hc after)

theorem check_of_fits {kind : TokenKind} {texts : List String} (hc : i.Within m c)
    (h : Fits kind texts (i.token c.pos)) (after : List Token) :
    check (i.tokens after) kind texts c = some (.ok true, c.look 0) := by
  simpa [check_run hc, h.1] using h.2

theorem check_of_not_fits {kind : TokenKind} {texts : List String} (hc : i.Within m c)
    (h : ¬ Fits kind texts (i.token c.pos)) (after : List Token) :
    check (i.tokens after) kind texts c = some (.ok false, c.look 0) := by
  simpa [check_run hc, Fits] using h

theorem advance_run (hc : i.Within m c) (hlt : c.pos < i.stop) (after : List Token) :
    advance (i.tokens after) c = some (.ok (i.token c.pos), c.passed) := by
  have hend : (i.token c.pos).isEnd = false := by
    rw [Bool.eq_false_iff]
    exact fun h => Nat.ne_of_lt hlt ((Input.token_isEnd_iff hc.pos).1 h)
  rw [advance, bind_of_ok (peek_run hc after), bind_of_ok (atEnd_run hc.looked after)]
  show (if (i.token c.pos).isEnd = true then _ else _ : Walk Token) _ = _
  rw [hend]
  rfl

theorem accept_of_fits {kind : TokenKind} {texts : List String} (hc : i.Within m c)
    (hlt : c.pos < i.stop) (h : Fits kind texts (i.token c.pos)) (after : List Token) :
    accept (i.tokens after) kind texts c = some (.ok true, (c.look 0).passed) := by
  rw [accept, bind_of_ok (check_of_fits hc h after)]
  exact bind_of_ok (advance_run hc.looked hlt after)

theorem accept_of_not_fits {kind : TokenKind} {texts : List String} (hc : i.Within m c)
    (h : ¬ Fits kind texts (i.token c.pos)) (after : List Token) :
    accept (i.tokens after) kind texts c = some (.ok false, c.look 0) := by
  rw [accept, bind_of_ok (check_of_not_fits hc h after)]
  rfl

theorem accept_agrees (hc : i.Within m c) {kind : TokenKind} (hkind : kind ≠ .endOfInput)
    (text : String) :
    Agrees i c m (Descent.accept kind text) fun ts _ => accept ts kind [text] := by
  by_cases h : (i.token c.pos).kind = kind ∧ (i.token c.pos).text = text
  · have hlt : c.pos < i.stop := Input.lt_stop hc.pos (by rwa [h.1])
    refine .ok true _ (hc.looked.passed hlt) (Nat.le_succ _)
      (.of_unbounded (accept_of_fits hc hlt (fits_one.2 h))) fun after => ?_
    rw [Input.drop_tokens hc.pos]
    exact Descent.accept_cons ⟨_, h⟩ _
  · refine .ok false _ hc.looked (Nat.le_refl _)
      (.of_unbounded (accept_of_not_fits hc (by rwa [fits_one]))) fun after => ?_
    exact Descent.accept_of_not (by rwa [Input.drop_tokens hc.pos])

theorem consume_agrees (hc : i.Within m c) (text : String) :
    Agrees i c m (Descent.symbol text) fun ts _ => consume ts text := by
  by_cases h : (i.token c.pos).kind = .symbol ∧ (i.token c.pos).text = text
  · have hlt : c.pos < i.stop := Input.lt_stop hc.pos (by simp [h.1])
    refine .ok () _ (hc.looked.passed hlt) (Nat.le_succ _) (.of_unbounded fun after => ?_)
      fun after => ?_
    · rw [consume, bind_of_ok (check_of_fits hc (fits_one.2 h) after)]
      exact bind_of_ok (advance_run hc.looked hlt after)
    · rw [Input.drop_tokens hc.pos]
      exact Descent.symbol_cons ⟨_, h⟩ _
  · refine .refused (.expectedSymbol text (i.token c.pos)) _ hc.looked.looked (Nat.le_refl _)
      (.of_unbounded fun after => ?_) fun after => ?_
    · rw [consume, bind_of_ok (check_of_not_fits hc (by rwa [fits_one]) after)]
      exact bind_of_ok (peek_run hc.looked after)
    · rw [← Token.is_iff] at h
      have hnext : Descent.next ((i.tokens after).drop c.pos) = i.token c.pos := by
        rw [Input.drop_tokens hc.pos]
        rfl
      simp only [Descent.symbol, hnext, h]
      rfl

/-- The walk takes the next token, and the reader goes on like another one behind
    it. -/
theorem Agrees.take {r q : Reader γ} {y : List Token → Walk β}
    {g : List Token → Nat → β → Walk γ} {b : β} {c' : Cursor} (hc : i.Within m c)
    (walk : ∀ after, y (i.tokens after) c = some (.ok b, c')) (pos : c'.pos = c.pos + 1)
    (read : ∀ us, r (i.token c.pos :: us) = q us) (h : Agrees i c' m' q fun ts n => g ts n b) :
    Agrees i c m' r fun ts n => y ts >>= g ts n := by
  refine of_ends (by omega) (Ends.of_unbounded walk).bind_ok (fun after => ?_) h
  rw [Input.drop_tokens hc.pos, read, pos]

end

/-! ## Nesting -/

/-- The number of open constructs when `n` more may be opened. -/
def openAt (n : Nat) : Int :=
  maxNesting - n

/-- A reader with `n` levels of nesting left agrees with a walk, from all cursors
    that have as many left. -/
def InStep (i : Input) (n : Nat) (r : Reader α) (w : List Token → Nat → Walk α) : Prop :=
  ∀ c, i.Within (openAt n) c → Agrees i c (openAt n) r w

section

variable {i : Input} {c : Cursor} {m : Int} {n : Nat}

/-- The walk opens a construct. -/
theorem Agrees.descend {r : Reader γ} {g : List Token → Nat → Unit → Walk γ} {t : Token}
    (hc : i.Within (openAt (n + 1)) c)
    (h : Agrees i (c.nested (openAt n)) m r fun ts b => g ts b ()) :
    Agrees i c m r fun ts b => descend t >>= g ts b := by
  have walk : Walk.descend t c = some (.ok (), c.nested (openAt n)) := by
    have hm : c.nesting + 1 = openAt n := by
      rw [hc.nesting, openAt, openAt]
      omega
    rw [Walk.descend, hm, if_neg (by rw [openAt]; omega)]
    rfl
  exact .look (fun _ => walk) rfl h

/-- The walk refuses a construct that is nested too deeply. -/
theorem Agrees.tooDeep {g : List Token → Nat → Unit → Walk γ} {t : Token}
    (hc : i.Within (openAt 0) c) :
    Agrees i c m (Descent.refuse (.nestedTooDeeply t)) fun ts b => Walk.descend t >>= g ts b := by
  refine .refused _ _ (hc.nested (c.nesting + 1)) (Nat.le_refl _)
    (.bind_error (.of_unbounded fun _ => ?_)) fun _ => rfl
  rw [Walk.descend, if_pos (by rw [hc.nesting, openAt]; omega)]
  rfl

/-- The walk closes a construct. -/
theorem Agrees.ascend {r : Reader γ} {g : List Token → Nat → Unit → Walk γ}
    (hc : i.Within (openAt n) c)
    (h : Agrees i (c.nested (openAt (n + 1))) m r fun ts b => g ts b ()) :
    Agrees i c m r fun ts b => ascend >>= g ts b := by
  have walk : Walk.ascend c = some (.ok (), c.nested (openAt (n + 1))) := by
    have hm : c.nesting - 1 = openAt (n + 1) := by
      rw [hc.nesting, openAt, openAt]
      omega
    rw [Walk.ascend, hm]
    rfl
  exact .look (fun _ => walk) rfl h

end

/-! ## Questions -/

/-- The walk answers a question about the next tokens, which stay. -/
def Asks (i : Input) (m : Int) (c : Cursor) (y : List Token → Walk Bool) (b : Bool) : Prop :=
  ∃ c', i.Within m c' ∧ c'.pos = c.pos ∧ ∀ after, y (i.tokens after) c = some (.ok b, c')

section

variable {i : Input} {m : Int} {c : Cursor}

theorem Agrees.ask {m' : Int} {r : Reader γ} {y : List Token → Walk Bool}
    {g : List Token → Nat → Bool → Walk γ} {b : Bool} (hask : Asks i m c y b)
    (h : ∀ c', i.Within m c' → c'.pos = c.pos → Agrees i c' m' r fun ts n => g ts n b) :
    Agrees i c m' r fun ts n => y ts >>= g ts n := by
  obtain ⟨c', within, pos, walk⟩ := hask
  exact .look walk pos (h c' within pos)

theorem atEnd_asks (hc : i.Within m c) : Asks i m c atEnd (i.token c.pos).isEnd :=
  ⟨_, hc.looked, rfl, atEnd_run hc⟩

theorem endsBlock_asks (hc : i.Within m c) :
    Asks i m c endsBlock (Descent.endsBlock (i.token c.pos)) := by
  unfold Descent.endsBlock
  by_cases h : (i.token c.pos).is .symbol "\x7d" = true
  · refine ⟨_, hc.looked, rfl, fun after => ?_⟩
    rw [endsBlock, bind_of_ok (check_of_fits hc (fits_one.2 (Token.is_iff.1 h)) after), h]
    rfl
  · refine ⟨_, hc.looked.looked, rfl, fun after => ?_⟩
    rw [endsBlock, bind_of_ok (check_of_not_fits hc (by rwa [fits_one, ← Token.is_iff]) after),
      Bool.eq_false_iff.2 h]
    exact atEnd_run hc.looked after

theorem opensCompound_asks (hc : i.Within m c) :
    Asks i m c opensCompound (Descent.opensCompound (i.token c.pos)) := by
  have hopens : Descent.opensCompound (i.token c.pos) = true ↔
      Fits .keyword ["if", "while"] (i.token c.pos) ∨ Fits .symbol ["\x7b"] (i.token c.pos) := by
    simp only [Descent.opensCompound, Bool.or_eq_true, Token.is_iff, Fits]
    simp [and_or_left]
  by_cases h : Fits .keyword ["if", "while"] (i.token c.pos)
  · refine ⟨_, hc.looked, rfl, fun after => ?_⟩
    rw [opensCompound, bind_of_ok (check_of_fits hc h after), hopens.2 (Or.inl h)]
    rfl
  · refine ⟨_, hc.looked.looked, rfl, fun after => ?_⟩
    rw [opensCompound, bind_of_ok (check_of_not_fits hc h after)]
    by_cases hl : Fits .symbol ["\x7b"] (i.token c.pos)
    · rw [hopens.2 (Or.inr hl)]
      exact check_of_fits hc.looked hl after
    · rw [Bool.eq_false_iff.2 fun hopen => (hopens.1 hopen).elim h hl]
      exact check_of_not_fits hc.looked hl after

/-- Whether an assignment comes hangs on no token behind the end token. -/
theorem startsAssignment_drop (hc : i.Within m c) (after : List Token) :
    Descent.startsAssignment ((i.tokens after).drop c.pos) =
      ((i.token c.pos).kind = .identifier && (i.token (c.pos + 1)).is .symbol "=") := by
  rw [Input.drop_tokens hc.pos]
  by_cases hk : (i.token c.pos).kind = .identifier
  · rw [Input.drop_tokens (Input.lt_stop hc.pos (by simp [hk]))]
    rfl
  · cases (i.tokens after).drop (c.pos + 1) <;> simp [Descent.startsAssignment, hk]

theorem startsAssignment_asks (hc : i.Within m c) :
    Asks i m c startsAssignment
      ((i.token c.pos).kind = .identifier && (i.token (c.pos + 1)).is .symbol "=") := by
  by_cases hk : (i.token c.pos).kind = .identifier
  · have hlt : c.pos < i.stop := Input.lt_stop hc.pos (by simp [hk])
    refine ⟨_, hc.looked.look (k := 1) hlt, rfl, fun after => ?_⟩
    rw [startsAssignment, bind_of_ok (check_of_fits hc ⟨hk, Or.inl rfl⟩ after)]
    simp only [hk, decide_true, Bool.true_and]
    exact bind_of_ok (peekNext_run (c := c.look 0) hlt after)
  · refine ⟨_, hc.looked, rfl, fun after => ?_⟩
    rw [startsAssignment, bind_of_ok (check_of_not_fits hc (fun h => hk h.1) after)]
    simp only [hk, decide_false, Bool.false_and]
    rfl

end

end BlockScript.Walk
