/-
  BlockScript — the braces of a text, of its tokens and of a program.

  A session counts braces character by character and only knows strings.  On a
  text that is cut into tokens it finds the braces that are tokens; and in the
  tokens of a program they are balanced.

  * `Token.brace`, `openBraces`: the braces that tokens leave open;
  * `braceDepthFrom_scan`: the counter agrees with the scanner;
  * `Stmts.openBraces_yield`: the tokens of a derivation are balanced;
  * `braceDepth_agrees`: the counter of a session finds the braces among the
    tokens of a text, and none open in a program.
-/
import Mathlib
import BlockScript.Proofs.Grammar.Shape
import BlockScript.Proofs.Rendering
import BlockScript.Proofs.Scanner
import BlockScript.Session

namespace BlockScript

/-! ## Tokens -/

/-- What a token adds to the number of open braces. -/
def Token.brace (t : Token) : Int :=
  if t.is .symbol "\x7b" then 1 else if t.is .symbol "\x7d" then -1 else 0

/-- The number of braces that tokens leave open. -/
def openBraces (ts : List Token) : Int :=
  (ts.map Token.brace).sum

@[simp] theorem openBraces_nil : openBraces [] = 0 := rfl

@[simp] theorem openBraces_cons (t : Token) (ts : List Token) :
    openBraces (t :: ts) = t.brace + openBraces ts := by
  simp [openBraces]

@[simp] theorem openBraces_append (ts us : List Token) :
    openBraces (ts ++ us) = openBraces ts + openBraces us := by
  simp [openBraces]

theorem Token.brace_of_kind {t : Token} (h : t.kind ≠ .symbol) : t.brace = 0 := by
  simp [Token.brace, Token.is, h]

/-! ## Characters -/

/-- A character that is no brace and opens or closes no string. -/
def isPlain (c : Char) : Bool :=
  c ≠ '"' && c ≠ '\x7b' && c ≠ '\x7d'

theorem isPlain_of_isNameChar {c : Char} (h : isNameChar c = true) : isPlain c = true := by
  have hmark : ∀ d ∈ ['"', '\x7b', '\x7d'], c ≠ d := by
    rintro d hd rfl
    have hmem : c ∈ '"' :: punctuationMarks := by
      simp only [List.mem_cons, List.not_mem_nil, or_false] at hd
      rcases hd with rfl | rfl | rfl <;> decide
    rw [not_isNameChar_of_mark hmem] at h
    cases h
  simpa [isPlain, and_assoc] using hmark

theorem isPlain_of_isNumberChar {c : Char} (h : isNumberChar c = true) : isPlain c = true := by
  simp only [isNumberChar, Bool.or_eq_true, decide_eq_true_eq] at h
  rcases h with h | rfl
  · refine isPlain_of_isNameChar ?_
    simp [isNameChar, isAlphanumeric, h]
  · decide

theorem isPlain_of_isBlank {c : Char} (h : isBlank c = true) : isPlain c = true := by
  have hmark : ∀ d ∈ ['"', '\x7b', '\x7d'], c ≠ d := by
    rintro d hd rfl
    simp only [List.mem_cons, List.not_mem_nil, or_false] at hd
    rcases hd with rfl | rfl | rfl <;> exact absurd h (by decide)
  simpa [isPlain, and_assoc] using hmark

theorem braceDepthFrom_plain {cs ds : List Char} (h : ∀ c ∈ cs, isPlain c = true) :
    braceDepthFrom false (cs ++ ds) = braceDepthFrom false ds := by
  induction cs with
  | nil => rfl
  | cons c cs ih =>
    obtain ⟨hc, hcs⟩ := List.forall_mem_cons.1 h
    simp only [isPlain, Bool.and_eq_true, decide_eq_true_eq] at hc
    simp [braceDepthFrom, hc, ih hcs]

/-- Nothing is counted inside a string. -/
theorem braceDepthFrom_inString {cs ds : List Char} (h : ∀ c ∈ cs, c ≠ '"') :
    braceDepthFrom true (cs ++ ds) = braceDepthFrom true ds := by
  induction cs with
  | nil => rfl
  | cons c cs ih =>
    obtain ⟨hc, hcs⟩ := List.forall_mem_cons.1 h
    simp [braceDepthFrom, hc, ih hcs]

/-! ## The counter and the scanner -/

/-- A run of plain characters. -/
theorem braceDepthFrom_run {p : Char → Bool} (hp : ∀ {c}, p c = true → isPlain c = true)
    {c : Char} (hc : p c = true) (cs : List Char) :
    braceDepthFrom false (c :: cs) = braceDepthFrom false (cs.dropWhile p) := by
  have hrun : ∀ d ∈ c :: cs.takeWhile p, isPlain d = true :=
    List.forall_mem_cons.2 ⟨hp hc, fun d hd => hp (List.all_eq_true.1 List.all_takeWhile d hd)⟩
  have hsplit := @braceDepthFrom_plain _ (cs.dropWhile p) hrun
  rwa [List.cons_append, List.takeWhile_append_dropWhile] at hsplit

/-- Punctuation of one character. -/
theorem braceDepthFrom_single {c : Char} {kind : TokenKind} (hk : punctuation? [c] = some kind)
    (p : Position) (rest : List Char) :
    braceDepthFrom false (c :: rest) =
      Token.brace ⟨kind, Lexeme.text ⟨kind, [c]⟩, p⟩ + braceDepthFrom false rest := by
  rw [punctuation?_one] at hk
  split at hk
  · rename_i hc
    cases hk
    have hplain : isPlain c = true := by
      simp only [List.mem_cons, List.not_mem_nil, or_false] at hc
      rcases hc with rfl | rfl | rfl | rfl | rfl | rfl | rfl | rfl <;> rfl
    rw [Token.brace_of_kind (by simp), Int.zero_add]
    exact @braceDepthFrom_plain [c] rest (by simpa using hplain)
  · split at hk
    · rename_i hc
      cases hk
      simp only [List.mem_cons, List.not_mem_nil, or_false] at hc
      rcases hc with rfl | rfl | rfl | rfl | rfl | rfl <;>
        simp [braceDepthFrom, Token.brace, Token.is, Lexeme.text, Int.sub_eq_add_neg, Int.add_comm]
    · cases hk

/-- A lexeme opens and closes the braces that its token does. -/
theorem Cut.brace {c : Char} {rest after : List Char} {l : Lexeme} (h : Cut c rest l after)
    (p : Position) :
    braceDepthFrom false (c :: rest) =
      Token.brace ⟨l.kind, l.text, p⟩ + braceDepthFrom false after := by
  cases h with
  | @string inner after hc hrest hinner =>
    subst hc hrest
    rw [Token.brace_of_kind (by simp), Int.zero_add]
    simp [braceDepthFrom, braceDepthFrom_inString hinner]
  | number hq hd =>
    rw [Token.brace_of_kind (by simp), Int.zero_add]
    exact braceDepthFrom_run isPlain_of_isNumberChar (by simp [isNumberChar, hd]) rest
  | word hq hd hn =>
    have hkind : ∀ cs, wordKind cs ≠ .symbol := by
      intro cs
      unfold wordKind
      split <;> simp
    rw [Token.brace_of_kind (hkind _), Int.zero_add]
    exact braceDepthFrom_run isPlain_of_isNameChar (isNameChar_of_startsName hn) rest
  | @double d after kind hq hd hn hrest hk =>
    subst hrest
    rw [punctuation?_two] at hk
    split at hk
    · rename_i hcd
      cases hk
      have hplain : ∀ e ∈ [c, d], isPlain e = true := by
        simp only [List.mem_cons, List.not_mem_nil, or_false] at hcd
        rw [List.forall_mem_cons, List.forall_mem_singleton]
        rcases hcd with ⟨rfl | rfl | rfl | rfl, rfl⟩ | ⟨rfl | rfl, rfl⟩ <;> exact ⟨rfl, rfl⟩
      rw [Token.brace_of_kind (by simp), Int.zero_add]
      exact braceDepthFrom_plain hplain
    · cases hk
  | single hq hd hn hk hnext => exact braceDepthFrom_single hk p rest

/-- **The counter agrees with the scanner** on every text that is cut into
    tokens. -/
theorem braceDepthFrom_scan {p q : Position} {cs : List Char}
    (h : (scanFrom p cs).ending = .ok q) :
    braceDepthFrom false cs = openBraces (scanFrom p cs).tokens := by
  refine scanFrom_induction
    (motive := fun p cs => braceDepthFrom false cs = openBraces (scanFrom p cs).tokens)
    ?_ ?_ ?_ cs p q h
  · intro p
    rw [scanFrom]
    rfl
  · intro p c rest hb ih
    rw [scanFrom_of_blank p rest hb, ← ih]
    exact @braceDepthFrom_plain [c] rest (by simpa using isPlain_of_isBlank hb)
  · intro p c rest l after hb hcut ih
    rw [scanFrom_of_cut p hb hcut, openBraces_cons, ← ih, hcut.brace p]

/-! ## Programs -/

namespace Grammar

theorem Operator.brace {ops : List String} (op : Operator ops) : op.1.brace = 0 :=
  Token.brace_of_kind (by simp [op.2.1])

@[simp] theorem brace_terminal {kind : TokenKind} {text : String} (t : Terminal kind text)
    (h : kind ≠ .symbol ∨ (text ≠ "\x7b" ∧ text ≠ "\x7d")) : t.1.brace = 0 := by
  rcases h with h | h <;> simp [Token.brace, Token.is, t.2.1, t.2.2, h]

theorem Expr.openBraces_yield : {k : Nat} → (e : Expr k) → openBraces e.yield = 0
  | _, .atom t h => by simp [Expr.yield, Token.brace_of_kind h.kind_ne_symbol]
  | _, .unary op e => by simp [Expr.yield, Operator.brace op, e.openBraces_yield]
  | _, .group l e r => by
    simp [Expr.yield, e.openBraces_yield]
  | _, .tighter e => e.openBraces_yield
  | _, .binary l op r => by
    simp [Expr.yield, Operator.brace op, l.openBraces_yield, r.openBraces_yield]

theorem Test.openBraces_yield (c : Test) : openBraces c.yield = 0 := by
  simp [Test.yield, c.e.openBraces_yield]

mutual

theorem Stmt.openBraces_yield : {b : Bool} → (s : Stmt b) → openBraces s.yield = 0
  | _, .expr e semi => by simp [Stmt.yield, e.openBraces_yield]
  | _, .assign x eq e semi => by
    have hx : x.1.brace = 0 := Token.brace_of_kind (by simp [x.2])
    simp [Stmt.yield, hx, e.openBraces_yield]
  | _, .print word e semi => by simp [Stmt.yield, e.openBraces_yield]
  | _, .branch word c body => by
    simp [Stmt.yield, c.openBraces_yield, body.openBraces_yield]
  | _, .branchElse word c body alt other => by
    simp [Stmt.yield, c.openBraces_yield, body.openBraces_yield, other.openBraces_yield]
  | _, .loop word c body => by
    simp [Stmt.yield, c.openBraces_yield, body.openBraces_yield]
  | _, .block l body r semi => by
    have hl : l.1.brace = 1 := by simp [Token.brace, Token.is, l.2]
    have hr : r.1.brace = -1 := by simp [Token.brace, Token.is, r.2]
    cases semi <;> simp [Stmt.yield, hl, hr, body.openBraces_yield]

/-- **The braces of a program are balanced.** -/
theorem Stmts.openBraces_yield : (ss : Stmts) → openBraces ss.yield = 0
  | .nil => rfl
  | .cons s rest => by simp [Stmts.yield, s.openBraces_yield, rest.openBraces_yield]

end

end Grammar

/-! ## The counter of a session -/

/-- The braces that tokens leave open are the opening ones less the closing
    ones. -/
theorem openBraces_eq_sub (ts : List Token) :
    openBraces ts = ts.countP (·.is .symbol "\x7b") - ts.countP (·.is .symbol "\x7d") := by
  induction ts with
  | nil => rfl
  | cons t ts ih =>
    have hapart : t.is .symbol "\x7b" = true → t.is .symbol "\x7d" = false := by
      intro h
      simp [Token.is, (Token.is_iff.1 h).2]
    rw [openBraces_cons, ih, List.countP_cons, List.countP_cons, Token.brace]
    split
    · rename_i hopen
      simp [hapart hopen]
      omega
    · split
      · simp
        omega
      · simp

/-- The counter finds the braces that the tokens of a text leave open. -/
theorem braceDepth_of_tokenize {source : String} {ts : List Token}
    (h : tokenize source = .ok ts) : braceDepth source = openBraces ts := by
  obtain ⟨p, hending, rfl⟩ := tokenize_eq_ok_iff.1 h
  have hend : (Token.eof p).brace = 0 := Token.brace_of_kind (by simp [Token.eof])
  calc braceDepth source = openBraces (scan source).tokens := braceDepthFrom_scan hending
    _ = openBraces ((scan source).tokens ++ [Token.eof p]) := by simp [hend]

/-- A program leaves no brace open, whatever way it is parsed. -/
theorem braceDepth_of_parse {strategy : Strategy} {source : String} {p : List Node}
    (h : strategy.parse source = .ok p) : braceDepth source = 0 := by
  obtain ⟨⟨pos, hending⟩, d, hyield, -, -⟩ := strategy.exists_derivation h
  calc braceDepth source = openBraces (scan source).tokens := braceDepthFrom_scan hending
    _ = openBraces d.yield := by rw [hyield]
    _ = 0 := d.openBraces_yield

/-- **A session counts the braces that are tokens.**  On every text that is cut
    into tokens its counter is the number of opening braces among them less the
    number of closing ones; on a program, whatever way it is parsed, it is
    zero. -/
theorem braceDepth_agrees (source : String) :
    (∀ ts, tokenize source = .ok ts →
      braceDepth source =
        ts.countP (·.is .symbol "\x7b") - ts.countP (·.is .symbol "\x7d")) ∧
    ∀ (strategy : Strategy) (p : List Node), strategy.parse source = .ok p →
      braceDepth source = 0 := by
  constructor
  · intro ts h
    rw [braceDepth_of_tokenize h, openBraces_eq_sub]
  · intro strategy p h
    exact braceDepth_of_parse h

/-- The tokens of two opening braces around a string with a closing one. -/
def openTokens : List Token :=
  [⟨.symbol, "\x7b", ⟨1, 1⟩⟩, ⟨.string, "\x7d", ⟨1, 2⟩⟩, ⟨.symbol, "\x7b", ⟨1, 5⟩⟩,
    ⟨.endOfInput, "", ⟨1, 6⟩⟩]

/-- Braces in a string are not counted, neither in a text that is no program
    nor in a program. -/
theorem braceDepth_agrees_quoted :
    (tokenize "\x7b\"\x7d\"\x7b" = .ok openTokens ∧ braceDepth "\x7b\"\x7d\"\x7b" = 2) ∧
      (∃ p, Strategy.pushdown.parse "\x7bprint\"\x7b\";\x7d" = .ok p) ∧
        braceDepth "\x7bprint\"\x7b\";\x7d" = 0 := by
  have htokens : tokenize "\x7b\"\x7d\"\x7b" = .ok openTokens := by cbv
  have hparse : ∃ p, Strategy.pushdown.parse "\x7bprint\"\x7b\";\x7d" = .ok p :=
    ⟨[.block [.print (.literal (.string "\x7b"))]], by cbv⟩
  refine ⟨⟨htokens, (braceDepth_agrees _).1 _ htokens⟩, hparse, ?_⟩
  obtain ⟨p, hp⟩ := hparse
  exact (braceDepth_agrees _).2 _ p hp

end BlockScript
