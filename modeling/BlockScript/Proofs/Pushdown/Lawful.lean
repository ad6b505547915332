/-
  BlockScript — the pushdown machine makes a package that follows the grammar.

  All that is relied upon of the package holds of the one that is made from the
  lexer, the machine and a walk of bounded depth.  So what is proved of every
  such package holds of a program that runs.

  * `run_prefix`, `run_refused`, `run_viable_iff`: the machine goes on with the
    tokens of a program, and no further;
  * `visit_succ`: a walk that is not cut short is the same with a larger bound;
  * `package_follows`: the package follows the grammar of programs;
  * `parseWith_package`: parsing with it gives programs and failures of texts.
-/
import BlockScript.Proofs.Lark.Outcome
import BlockScript.Pushdown.Package

namespace BlockScript.Pushdown

open Grammar Lark
open Descent (Viable)

/-! ## Runs -/

theorem run_prefix {ts us : List Token} : ∀ {s s' : State}, s.run (ts ++ us) = .ok s' →
    ∃ m, s.run ts = .ok m := by
  induction ts with
  | nil => exact fun _ => ⟨_, rfl⟩
  | cons t ts ih =>
    intro s s' h
    rw [List.cons_append, State.run] at h
    rw [State.run]
    split at h
    · exact ih h
    · cases h

/-- **The machine goes on as long as a program does.** -/
theorem run_viable_iff {ts : List Token} :
    (∃ s, State.start.run ts = .ok s) ↔ Viable Derived ts := by
  constructor
  · rintro ⟨s, hs⟩
    exact run_viable hs
  · rintro ⟨more, d, hd⟩
    obtain ⟨s, hrun, -⟩ := run_clauses d
    rw [hd] at hrun
    exact run_prefix hrun

/-- The machine refuses the first token that no program goes on with. -/
theorem run_refused {pre post : List Token} {t : Token} (hpre : Viable Derived pre)
    (ht : ¬ Viable Derived (pre ++ [t])) :
    State.start.run (pre ++ t :: post) = .error t := by
  obtain ⟨s, hrun⟩ := run_viable_iff.2 hpre
  rw [run_append hrun, State.run]
  cases hs : s.step t with
  | none => rfl
  | some s' =>
    refine absurd (run_viable_iff.1 ⟨s', ?_⟩) ht
    rw [run_append hrun, run_cons hs]
    rfl

theorem token_ofToken {ts : List Token} (h : AllRegular ts) :
    (leavesOf ts).map Leaf.token = ts := by
  have hkeep : ts.map (fun t => (Leaf.ofToken t).token) = ts := by
    conv => rhs; rw [← List.map_id ts]
    exact List.map_congr_left fun t ht => h t ht
  rwa [leavesOf, List.map_map]

/-! ## Walks -/

mutual

/-- A walk that is not cut short is the same with a larger bound. -/
theorem visit_succ (methods : Methods) : (levels : Nat) → (tree : Tree) →
    visit methods levels tree = .error .recursion ∨
      visit methods (levels + 1) tree = visit methods levels tree
  | _, .leaf _ => Or.inr rfl
  | 0, .node _ _ => Or.inl rfl
  | levels + 1, .node n children => by
    rcases visitAll_succ methods levels children with h | h
    · left
      rw [visit, if_neg (Nat.succ_ne_zero levels), Nat.add_sub_cancel, h]
      rfl
    · right
      simp [visit, h]

theorem visitAll_succ (methods : Methods) : (levels : Nat) → (trees : List Tree) →
    visitAll methods levels trees = .error .recursion ∨
      visitAll methods (levels + 1) trees = visitAll methods levels trees
  | _, [] => Or.inr rfl
  | levels, tree :: rest => by
    rcases visit_succ methods levels tree with h | h
    · left
      rw [visitAll, h]
      rfl
    · rcases visitAll_succ methods levels rest with h' | h'
      · rw [visitAll, visitAll, h, h']
        cases visit methods levels tree with
        | error e => exact Or.inr rfl
        | ok item => exact Or.inl rfl
      · right
        rw [visitAll, visitAll, h, h']

end

theorem visitAll_eq_mapM (methods : Methods) (levels : Nat) : (trees : List Tree) →
    visitAll methods levels trees = trees.mapM (visit methods levels)
  | [] => rfl
  | tree :: rest => by
    rw [visitAll, visitAll_eq_mapM methods levels rest, List.mapM_cons]

/-- A node is visited after its children, unless the bound is reached. -/
theorem visit_node (methods : Methods) (levels : Nat) (n : Nonterminal) (children : List Tree) :
    visit methods levels (.node n children) = .error .recursion ∨
      visit methods levels (.node n children) = (do
        let items ← children.mapM (visit methods levels)
        (methods n items).mapError .visit) := by
  cases levels with
  | zero => exact Or.inl rfl
  | succ levels =>
    rw [visit, if_neg (Nat.succ_ne_zero levels), Nat.add_sub_cancel, ← visitAll_eq_mapM]
    rcases visitAll_succ methods levels children with h | h
    · left
      rw [h]
      rfl
    · right
      rw [h]

/-! ## The package -/

/-- The leaves of a text are those of its tokens. -/
theorem leaves_eq (source : String) :
    (package.lexing programGrammar programCallbacks source).leaves =
      leavesOf (allowed (scan source)) := by
  have hsource : source.toList = [] ++ source.toList := rfl
  exact (lexFrom_eq .start hsource).1

/-- The answer of the machine, by the tokens of the text. -/
theorem package_parse_eq (source : String) :
    package.parse source = match State.start.run (allowed (scan source)) with
      | .error t => .error (.unexpectedLeaf (.ofToken t))
      | .ok s => match (package.lexing programGrammar programCallbacks source).stop with
        | .unmatched c p offset => .error (.unexpectedCharacters c p offset)
        | .raised e => .error (.raised e)
        | .finished => match s.finish? with
          | some clauses => .ok (programTree clauses)
          | none => .error .unexpectedEnd := by
  have htokens : (package.lexing programGrammar programCallbacks source).leaves.map Leaf.token =
      allowed (scan source) := by
    rw [leaves_eq]
    exact token_ofToken (allowed_regular source)
  rw [← htokens]
  rfl

/-- The machine gets through tokens that begin a program. -/
theorem exists_run {source : String}
    (h : programGrammar.Viable (package.lexing programGrammar programCallbacks source).leaves) :
    ∃ s, State.start.run (allowed (scan source)) = .ok s := by
  rw [leaves_eq] at h
  exact run_viable_iff.2 ((viable_iff (allowed_regular source)).1 h)

/-- The longest fixed text at the start of a text is the one that is taken. -/
theorem fixedText?_of_longest {c : Char} {rest more : List Char}
    (ht : programGrammar.HasText (String.ofList (c :: more))) (hmore : more <+: rest)
    (hlongest : ∀ other, programGrammar.HasText (String.ofList (c :: other)) → other <+: rest →
      other.length ≤ more.length) : fixedText? (c :: rest) = some (c :: more) := by
  cases hf : fixedText? (c :: rest) with
  | none => exact absurd hmore (fixedText?_eq_none.1 hf more ht)
  | some cs =>
    obtain ⟨more', rfl, ht', hmore', hlongest'⟩ := fixedText?_spec hf
    have hlen : more.length = more'.length :=
      Nat.le_antisymm (hlongest' more ht hmore) (hlongest more' ht' hmore')
    rw [(List.prefix_of_prefix_length_le hmore hmore' (Nat.le_of_eq hlen)).eq_of_length hlen]

/-- The machine refuses the first leaf that no text of the grammar goes on with. -/
theorem run_refused_leaf {ts : List Token} {pre post : List Leaf} {t : Leaf}
    (hregular : AllRegular ts) (hts : leavesOf ts = pre ++ t :: post)
    (hpre : programGrammar.Viable pre) (ht : ¬ programGrammar.Viable (pre ++ [t])) :
    ∃ u, t = .ofToken u ∧ State.start.run ts = .error u := by
  obtain ⟨us, vs, rfl, rfl, hvs⟩ := List.map_eq_append_iff.1 hts
  obtain ⟨u, vs', rfl, rfl, rfl⟩ := List.map_eq_cons_iff.1 hvs
  have hus : AllRegular us := fun x hx => hregular x (List.mem_append_left _ hx)
  have hu : AllRegular (us ++ [u]) := by
    intro x hx
    rw [List.mem_append, List.mem_singleton] at hx
    exact hregular x (by simp [hx.imp_right Or.inl])
  have hstop : ¬ Viable Derived (us ++ [u]) := by
    intro h
    have h := (viable_iff hu).2 h
    rw [leavesOf, List.map_append] at h
    exact ht h
  exact ⟨u, rfl, run_refused ((viable_iff hus).1 hpre) hstop⟩

/-- **The package of the machine follows the grammar of programs.** -/
theorem package_follows : package.Follows programGrammar programCallbacks where
  next_expression {c rest more t} h ht := by
    have hf : fixedTexts.contains (String.ofList (c :: more)) = false := by
      rw [Bool.eq_false_iff]
      exact fun hf => ht (contains_fixedTexts.1 hf)
    exact next_of_expression? rest h hf
  next_keyword h ht := by
    simp only [package, next, h, contains_fixedTexts.2 ht, if_true]
  next_text h ht hmore hlongest := by
    simp only [package, next, h, fixedText?_of_longest ht hmore hlongest, Option.map_some,
      List.length_cons, Nat.add_sub_cancel]
  next_none h ht := by
    simp only [package, next, h, fixedText?_eq_none.2 ht, Option.map_none]
  accepts {source tree} hstop h := by
    rw [leaves_eq] at h
    obtain ⟨d, hd, rfl⟩ := (sentence_iff (allowed_regular source)).1 h
    obtain ⟨s, hrun, hfinish⟩ := run_clauses d
    rw [hd] at hrun
    rw [package_parse_eq, hrun]
    simp only [hstop, hfinish]
  refuses_leaf {source pre post t} hlexing hpre ht := by
    rw [leaves_eq] at hlexing
    obtain ⟨u, rfl, hrun⟩ := run_refused_leaf (allowed_regular source) hlexing hpre ht
    rw [package_parse_eq, hrun]
  refuses_end {source} hstop h hend := by
    obtain ⟨s, hrun⟩ := exists_run h
    rw [package_parse_eq, hrun]
    simp only [hstop]
    cases hf : s.finish? with
    | none => rfl
    | some clauses =>
      obtain ⟨d, hd, -⟩ := exists_derivation hrun hf
      rw [leaves_eq, ← hd] at hend
      exact absurd d.sentence (hend _)
  stops_unmatched {source c p offset} hstop h := by
    obtain ⟨s, hrun⟩ := exists_run h
    rw [package_parse_eq, hrun]
    simp only [hstop]
  stops_raised {source e} hstop h := by
    obtain ⟨s, hrun⟩ := exists_run h
    rw [package_parse_eq, hrun]
    simp only [hstop]
  walk_leaf _ _ := rfl
  walk_node methods n children := by
    rcases visit_node methods maxDepth n children with h | h
    · exact Or.inl h
    · exact Or.inr (Or.inr h)

/-- Parsing with this package comes to programs and failures of source texts. -/
theorem parseWith_package (source : String) :
    parseWith package source = match parse source with
      | .ok nodes => .ok (.program nodes)
      | .error e => .error (.source e) := by
  have houtcome := package_follows.outcome source
  rw [parse]
  generalize parseWith package source = r at houtcome
  cases houtcome <;> rfl

theorem parse_eq_ok_iff {source : String} {nodes : List Node} :
    parse source = .ok nodes ↔ parseWith package source = .ok (.program nodes) := by
  rw [parseWith_package]
  cases parse source <;> simp

theorem parse_eq_error_iff {source : String} {e : SourceError} :
    parse source = .error e ↔ parseWith package source = .error (.source e) := by
  rw [parseWith_package]
  cases parse source <;> simp

end BlockScript.Pushdown
