/-
  BlockScript — readers, run on tokens.

  * `bind_eq_ok_iff`, `symbol_eq_ok`, `accept_eq_true`, …: what a reader has
    taken when it gives a result;
  * `Reading r n depth ts a rest`: on the tokens `ts`, where something nests
    `depth` levels, `r` gives `a` and leaves `rest` if `n` levels are enough,
    and refuses for the depth alone if they are not.
-/
import BlockScript.Descent.Reader
import BlockScript.Proofs.Grammar

namespace BlockScript

theorem Token.is_iff {t : Token} {kind : TokenKind} {text : String} :
    t.is kind text = true ↔ t.kind = kind ∧ t.text = text := by
  simp [Token.is]

namespace Descent

open Grammar

variable {α β : Type}

/-! ## Results -/

theorem bind_eq {x : Reader α} {f : α → Reader β} {ts : List Token} :
    (x >>= f) ts = match x ts with
      | .ok (a, mid) => f a mid
      | .error r => .error r := by
  show Except.bind (x ts) _ = _
  cases x ts <;> rfl

theorem bind_eq_ok_iff {x : Reader α} {f : α → Reader β} {ts rest : List Token} {b : β} :
    (x >>= f) ts = .ok (b, rest) ↔ ∃ a mid, x ts = .ok (a, mid) ∧ f a mid = .ok (b, rest) := by
  rw [bind_eq]
  cases x ts with
  | ok p =>
    constructor
    · exact fun h => ⟨p.1, p.2, rfl, h⟩
    · rintro ⟨a, mid, hp, h⟩
      cases hp
      exact h
  | error r => simp

theorem pure_eq_ok_iff {a b : α} {ts rest : List Token} :
    (pure a : Reader α) ts = .ok (b, rest) ↔ a = b ∧ ts = rest := by
  show (Except.ok (a, ts) : Except Refusal _) = _ ↔ _
  simp

/-! ## Tokens -/

theorem is_of_terminal {kind : TokenKind} {text : String} (t : Terminal kind text) :
    t.1.is kind text = true :=
  Token.is_iff.2 t.2

/-- A next token that is no end token stands in front of the others. -/
theorem eq_next_cons {ts : List Token} (h : (next ts).kind ≠ .endOfInput) :
    ts = next ts :: ts.tail := by
  cases ts with
  | nil => exact absurd rfl h
  | cons t ts => rfl

theorem symbol_cons {text : String} (s : Terminal .symbol text) (ts : List Token) :
    symbol text (s.1 :: ts) = .ok ((), ts) := by
  simp [symbol, next, is_of_terminal s]

theorem symbol_eq_ok {text : String} {ts rest : List Token} {u : Unit}
    (h : symbol text ts = .ok (u, rest)) : ∃ s : Terminal .symbol text, ts = s.1 :: rest := by
  simp only [symbol] at h
  split at h
  · next hs =>
    cases h
    have hs := Token.is_iff.1 hs
    exact ⟨⟨next ts, hs⟩, eq_next_cons (by simp [hs.1])⟩
  · cases h

theorem accept_cons {kind : TokenKind} {text : String} (t : Terminal kind text)
    (ts : List Token) : accept kind text (t.1 :: ts) = .ok (true, ts) := by
  simp [accept, next, is_of_terminal t]

theorem accept_of_not {kind : TokenKind} {text : String} {ts : List Token}
    (h : ¬ ((next ts).kind = kind ∧ (next ts).text = text)) :
    accept kind text ts = .ok (false, ts) := by
  rw [← Token.is_iff] at h
  simp [accept, h]

theorem accept_eq_true {kind : TokenKind} {text : String} {ts rest : List Token}
    (hk : kind ≠ .endOfInput) (h : accept kind text ts = .ok (true, rest)) :
    ∃ t : Terminal kind text, ts = t.1 :: rest := by
  simp only [accept] at h
  split at h
  · next ht =>
    cases h
    have ht := Token.is_iff.1 ht
    exact ⟨⟨next ts, ht⟩, eq_next_cons (by rw [ht.1]; exact hk)⟩
  · cases h

theorem accept_eq_false {kind : TokenKind} {text : String} {ts rest : List Token}
    (h : accept kind text ts = .ok (false, rest)) :
    ts = rest ∧ ¬ ((next ts).kind = kind ∧ (next ts).text = text) := by
  simp only [accept] at h
  split at h
  · cases h
  · next ht =>
    cases h
    exact ⟨rfl, by rwa [← Token.is_iff]⟩

theorem acceptOperator_cons {ops : List String} (op : Operator ops) (ts : List Token) :
    acceptOperator ops (op.1 :: ts) = .ok (some op.1.text, ts) := by
  simp [acceptOperator, next, op.2.1, op.2.2]

theorem acceptOperator_of_not {ops : List String} {ts : List Token}
    (h : ¬ IsOperator ops (next ts)) : acceptOperator ops ts = .ok (none, ts) := by
  simp only [IsOperator] at h
  simp [acceptOperator, h]

theorem acceptOperator_eq_some {ops : List String} {ts rest : List Token} {x : String}
    (h : acceptOperator ops ts = .ok (some x, rest)) :
    ∃ op : Operator ops, ts = op.1 :: rest ∧ op.1.text = x := by
  simp only [acceptOperator] at h
  split at h
  · next hop =>
    cases h
    simp only [Bool.and_eq_true, decide_eq_true_eq, List.contains_iff_mem] at hop
    exact ⟨⟨next ts, hop⟩, eq_next_cons (by simp [hop.1]), rfl⟩
  · cases h

theorem acceptOperator_eq_none {ops : List String} {ts rest : List Token}
    (h : acceptOperator ops ts = .ok (none, rest)) : ts = rest := by
  simp only [acceptOperator] at h
  split at h
  · cases h
  · cases h
    rfl

/-! ## Reading within a number of levels -/

/-- The reader refuses because of the depth of what it reads. -/
def TooDeep (r : Reader α) (ts : List Token) : Prop :=
  ∃ t rest, r ts = .error ⟨.nestedTooDeeply t, rest⟩

/-- The reader gives `a` and leaves `rest` if `n` levels are enough for the
    depth of what it reads, and refuses for the depth if they are not. -/
structure Reading (r : Reader α) (n depth : Nat) (ts : List Token) (a : α) (rest : List Token) :
    Prop where
  ok : depth ≤ n → r ts = .ok (a, rest)
  tooDeep : n < depth → TooDeep r ts

theorem Reading.of_ok {r : Reader α} {n : Nat} {ts rest : List Token} {a : α}
    (h : r ts = .ok (a, rest)) : Reading r n 0 ts a rest :=
  ⟨fun _ => h, fun h => absurd h (Nat.not_lt_zero n)⟩

theorem Reading.bind {x : Reader α} {f : α → Reader β} {n d d' : Nat}
    {ts mid rest : List Token} {a : α} {b : β} (hx : Reading x n d ts a mid)
    (hf : Reading (f a) n d' mid b rest) : Reading (x >>= f) n (max d d') ts b rest where
  ok h := by rw [bind_eq, hx.ok (by omega)]; exact hf.ok (by omega)
  tooDeep h := by
    rcases Nat.lt_or_ge n d with hd | hd
    · obtain ⟨t, rest', ht⟩ := hx.tooDeep hd
      exact ⟨t, rest', by rw [bind_eq, ht]⟩
    · obtain ⟨t, rest', ht⟩ := hf.tooDeep (by omega)
      exact ⟨t, rest', by rw [bind_eq, hx.ok hd]; exact ht⟩

/-- A reader that goes on after a result without nesting. -/
theorem Reading.bind_ok {x : Reader α} {f : α → Reader β} {n d : Nat} {ts mid rest : List Token}
    {a : α} {b : β} (hx : x ts = .ok (a, mid)) (hf : Reading (f a) n d mid b rest) :
    Reading (x >>= f) n d ts b rest := by
  have h := (Reading.of_ok hx).bind hf
  rwa [Nat.zero_max] at h

/-- A reader that goes on without nesting after a result. -/
theorem Reading.then_ok {x : Reader α} {f : α → Reader β} {n d : Nat} {ts mid rest : List Token}
    {a : α} {b : β} (hx : Reading x n d ts a mid) (hf : f a mid = .ok (b, rest)) :
    Reading (x >>= f) n d ts b rest := by
  have h := hx.bind (Reading.of_ok hf)
  rwa [Nat.max_zero] at h

end Descent

end BlockScript
