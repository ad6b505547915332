/-
  BlockScript — the two ways of parsing agree.

  Both accept exactly what the grammar derives, apart from the nesting that
  recursive descent bounds.  One of them is that of any package that follows
  the grammar, unless a walk exhausts its stack.

  * `Descent.parse_of_derivation`, `Descent.exists_derivation_of_parse`: what
    recursive descent accepts;
  * `Lark.exists_derivation_of_parseWith`: what the package accepts;
  * `Strategy.exists_derivation`: whatever way it is parsed, a program has a
    derivation;
  * `parse_agree`: recursive descent accepts what the package accepts up to a
    nesting of 48, with the same program, and refuses the rest for its nesting.
-/
import Mathlib
import BlockScript.Proofs.Descent
import BlockScript.Proofs.Pushdown.Lawful
import BlockScript.Strategy

namespace BlockScript

open Grammar

namespace Descent

/-- A text is cut into the tokens of its scan. -/
theorem tokenize_of_scan {source : String} {pos : Position}
    (h : (scan source).ending = .ok pos) :
    ∃ ts, tokenize source = .ok ts ∧ beforeEnd ts = (scan source).tokens := by
  refine ⟨(scan source).tokens ++ [Token.eof pos], by simp only [tokenize, h], ?_⟩
  exact beforeEnd_append (scan_noEnd source) rfl

theorem exists_derivation_of_parse {source : String} {p : List Node}
    (h : parse source = .ok p) : (∃ pos, (scan source).ending = .ok pos) ∧
      ∃ d : Stmts, d.yield = (scan source).tokens ∧ Readable d.yield ∧
        d.nesting ≤ maxNesting ∧ d.trees = p := by
  cases hending : (scan source).ending with
  | error e => simp [parse, tokenize, hending] at h
  | ok pos =>
    obtain ⟨ts, htokens, hbefore⟩ := tokenize_of_scan hending
    simp only [parse, htokens] at h
    split at h
    · cases h
    · rename_i nodes hresult
      cases h
      obtain ⟨d, hyield, hd⟩ := exists_derivation_of_result hresult
      exact ⟨⟨pos, rfl⟩, d, hyield.trans hbefore, hd⟩

theorem parse_of_derivation {source : String} {pos : Position} (d : Stmts)
    (hending : (scan source).ending = .ok pos) (hyield : d.yield = (scan source).tokens)
    (hread : Readable d.yield) :
    (d.nesting ≤ maxNesting → parse source = .ok d.trees) ∧
      (maxNesting < d.nesting → ∃ t, parse source = .error (.parse (.nestedTooDeeply t))) := by
  obtain ⟨ts, htokens, hbefore⟩ := tokenize_of_scan hending
  obtain ⟨hok, hdeep⟩ := result_of_derivation d (hyield.trans hbefore.symm) hread
  constructor
  · intro hn
    simp only [parse, htokens, hok hn]
  · intro hn
    obtain ⟨t, ht⟩ := hdeep hn
    exact ⟨t, by simp only [parse, htokens, ht]⟩

end Descent

/-- What the package accepts has a derivation whose numbers can all be read. -/
theorem Lark.exists_derivation_of_parseWith {P : Lark.Package}
    (hP : P.Follows Lark.programGrammar Lark.programCallbacks) {source : String} {p : List Node}
    (h : Lark.parseWith P source = .ok (.program p)) :
    (∃ pos, (scan source).ending = .ok pos) ∧
      ∃ d : Stmts, d.yield = (scan source).tokens ∧ Readable d.yield ∧ d.trees = p := by
  have houtcome := hP.outcome source
  rw [h] at houtcome
  cases houtcome with
  | program d hyield hending hread => exact ⟨⟨_, hending⟩, d, hyield, hread, rfl⟩

/-- Whatever way a text is parsed, a program has a derivation. -/
theorem Strategy.exists_derivation {strategy : Strategy} {source : String} {p : List Node}
    (h : strategy.parse source = .ok p) : (∃ pos, (scan source).ending = .ok pos) ∧
      ∃ d : Stmts, d.yield = (scan source).tokens ∧ Readable d.yield ∧ d.trees = p := by
  cases strategy with
  | descent =>
    obtain ⟨hending, d, hyield, hread, -, htrees⟩ := Descent.exists_derivation_of_parse h
    exact ⟨hending, d, hyield, hread, htrees⟩
  | pushdown =>
    exact Lark.exists_derivation_of_parseWith Pushdown.package_follows
      (Pushdown.parse_eq_ok_iff.1 h)

/-- **The two ways of parsing agree.**  Unless the package exhausts its stack,
    recursive descent accepts a text exactly if the package accepts it, with the
    same program, and its derivation nests at most 48 constructs.  What the
    package accepts is refused only for its nesting. -/
theorem parse_agree {P : Lark.Package}
    (hP : P.Follows Lark.programGrammar Lark.programCallbacks) (source : String) (p : List Node)
    (hdeep : Lark.parseWith P source ≠ .error (.source (.parse .treeTooDeep))) :
    (Descent.parse source = .ok p ↔
      Lark.parseWith P source = .ok (.program p) ∧
        ∃ d : Stmts, d.yield = (scan source).tokens ∧ d.nesting ≤ 48) ∧
    (Lark.parseWith P source = .ok (.program p) →
      Descent.parse source = .ok p ∨
        ∃ t, Descent.parse source = .error (.parse (.nestedTooDeeply t))) := by
  refine ⟨⟨fun h => ?_, fun ⟨h, d, hyield, hnest⟩ => ?_⟩, fun h => ?_⟩
  · obtain ⟨⟨pos, hending⟩, d, hyield, hread, hnest, rfl⟩ := Descent.exists_derivation_of_parse h
    refine ⟨?_, d, hyield, hnest⟩
    rw [(Lark.parseWith_of_derivation hP d hyield hending).resolve_left hdeep,
      unreadable?_eq_none.2 hread]
  · obtain ⟨⟨pos, hending⟩, d', hyield', hread, rfl⟩ := Lark.exists_derivation_of_parseWith hP h
    obtain rfl : d = d' := Stmts.unique (hyield.trans hyield'.symm)
    exact (Descent.parse_of_derivation d hending hyield hread).1 hnest
  · obtain ⟨⟨pos, hending⟩, d, hyield, hread, rfl⟩ := Lark.exists_derivation_of_parseWith hP h
    obtain ⟨hok, hdeep⟩ := Descent.parse_of_derivation d hending hyield hread
    rcases Nat.lt_or_ge Descent.maxNesting d.nesting with hn | hn
    · exact Or.inr (hdeep hn)
    · exact Or.inl (hok hn)

set_option maxRecDepth 10000 in
/-- A negated sum, in both ways. -/
theorem parse_agree_sum :
    Lark.parseWith Pushdown.package "c = -a + b;" ≠ .error (.source (.parse .treeTooDeep)) ∧
      Descent.parse "c = -a + b;" =
        .ok [.assign "c" (.binary "+" (.unary "-" (.var "a")) (.var "b"))] ∧
      Lark.parseWith Pushdown.package "c = -a + b;" =
        .ok (.program [.assign "c" (.binary "+" (.unary "-" (.var "a")) (.var "b"))]) ∧
      ∃ d : Stmts, d.yield = (scan "c = -a + b;").tokens ∧ d.nesting ≤ 48 := by
  have hdescent : Descent.parse "c = -a + b;" =
      .ok [.assign "c" (.binary "+" (.unary "-" (.var "a")) (.var "b"))] := by cbv
  have hdeep : Lark.parseWith Pushdown.package "c = -a + b;" ≠
      .error (.source (.parse .treeTooDeep)) := by
    intro h
    have hparse : Pushdown.parse "c = -a + b;" =
        .ok [.assign "c" (.binary "+" (.unary "-" (.var "a")) (.var "b"))] := by cbv
    rw [Pushdown.parse_eq_error_iff.2 h] at hparse
    cases hparse
  exact ⟨hdeep, hdescent, (parse_agree Pushdown.package_follows _ _ hdeep).1.1 hdescent⟩

end BlockScript
