/-
  BlockScript — how high the tree of a program is.

  Running a program goes down its tree, so the height of the tree bounds the
  number of steps that are under way at once.  The limit on nesting bounds the
  parentheses, prefix operators, branches, loops and blocks of a program, but
  not the operators that follow each other on one level: each of them becomes
  the left operand of the next one, and makes the tree higher by one.

  * `Node.height`: the height of a tree;
  * `Node.chain`, `Node.longestChain`: binary operators, each of them the left
    operand of the next one;
  * `Stmt.height_tree_le`: nesting and chains together bound the height;
  * `heights_bounded_iff`: the trees of some texts are of bounded height exactly
    if their chains are of bounded length;
  * `heights_unbounded`: no constant bounds the trees of all texts.
-/
import Mathlib.Data.Set.Defs
import BlockScript.Proofs.Grammar.Compose
import BlockScript.Proofs.Rendering

namespace BlockScript

/-! ## Measures of a tree -/

mutual

/-- The number of nodes on the longest way from the top of a tree to a leaf. -/
def Node.height : Node → Nat
  | .literal _ | .var _ => 1
  | .unary _ e | .expr e | .assign _ e | .print e => e.height + 1
  | .binary _ l r => max l.height r.height + 1
  | .cond c t e => max c.height (max t.height e.height) + 1
  | .loop c b => max c.height b.height + 1
  | .block body => greatestHeight body + 1
  | .absent => 0

/-- The height of the highest one of several trees. -/
def greatestHeight : List Node → Nat
  | [] => 0
  | n :: rest => max n.height (greatestHeight rest)

end

/-- The number of binary operators from the top of a tree on, each of them the
    left operand of the one above it. -/
def Node.chain : Node → Nat
  | .binary _ l _ => l.chain + 1
  | _ => 0

mutual

/-- The length of the longest chain of binary operators in a tree. -/
def Node.longestChain : Node → Nat
  | .literal _ | .var _ | .absent => 0
  | .unary _ e | .expr e | .assign _ e | .print e => e.longestChain
  | .binary _ l r => max (l.chain + 1) (max l.longestChain r.longestChain)
  | .cond c t e => max c.longestChain (max t.longestChain e.longestChain)
  | .loop c b => max c.longestChain b.longestChain
  | .block body => longestChains body

/-- The length of the longest chain in several trees. -/
def longestChains : List Node → Nat
  | [] => 0
  | n :: rest => max n.longestChain (longestChains rest)

end

theorem greatestHeight_le {ns : List Node} {m : Nat} :
    greatestHeight ns ≤ m ↔ ∀ n ∈ ns, n.height ≤ m := by
  induction ns with
  | nil => simp [greatestHeight]
  | cons n ns ih => rw [greatestHeight, Nat.max_le, ih, List.forall_mem_cons]

theorem longestChains_le {ns : List Node} {m : Nat} :
    longestChains ns ≤ m ↔ ∀ n ∈ ns, n.longestChain ≤ m := by
  induction ns with
  | nil => simp [longestChains]
  | cons n ns ih => rw [longestChains, Nat.max_le, ih, List.forall_mem_cons]

theorem Node.chain_le_height : (n : Node) → n.chain ≤ n.height
  | .binary _ l _ => by
    have hl := l.chain_le_height
    rw [Node.chain, Node.height]
    omega
  | .literal _ | .var _ | .unary _ _ | .expr _ | .assign _ _ | .print _ | .cond _ _ _ | .loop _ _
  | .block _ | .absent => Nat.zero_le _

theorem Node.chain_le_longestChain (n : Node) : n.chain ≤ n.longestChain := by
  cases n with
  | binary op l r =>
    rw [Node.chain, Node.longestChain]
    exact Nat.le_max_left _ _
  | _ => exact Nat.zero_le _

mutual

/-- A chain makes a tree at least as high as it is long. -/
theorem Node.longestChain_le_height : (n : Node) → n.longestChain ≤ n.height
  | .literal _ | .var _ | .absent => Nat.zero_le _
  | .unary _ e | .expr e | .assign _ e | .print e => by
    have he := e.longestChain_le_height
    rw [Node.longestChain, Node.height]
    omega
  | .binary _ l r => by
    have hchain := l.chain_le_height
    have hl := l.longestChain_le_height
    have hr := r.longestChain_le_height
    rw [Node.longestChain, Node.height]
    omega
  | .cond c t e => by
    have hc := c.longestChain_le_height
    have ht := t.longestChain_le_height
    have he := e.longestChain_le_height
    rw [Node.longestChain, Node.height]
    omega
  | .loop c b => by
    have hc := c.longestChain_le_height
    have hb := b.longestChain_le_height
    rw [Node.longestChain, Node.height]
    omega
  | .block body => by
    have hbody := longestChains_le_greatestHeight body
    rw [Node.longestChain, Node.height]
    omega

theorem longestChains_le_greatestHeight : (ns : List Node) →
    longestChains ns ≤ greatestHeight ns
  | [] => Nat.le_refl _
  | n :: ns => by
    have hn := n.longestChain_le_height
    have hns := longestChains_le_greatestHeight ns
    rw [longestChains, greatestHeight]
    omega

end

namespace Grammar

/-! ## Nesting and chains bound the height -/

/-- The number of operators that an expression has on its loosest level. -/
def Expr.links : {k : Nat} → Expr k → Nat
  | _, .binary l _ _ => l.links + 1
  | _, _ => 0

theorem Expr.links_le_chain : {k : Nat} → (d : Expr k) → d.links ≤ d.tree.chain
  | _, .binary l _ _ => Nat.succ_le_succ l.links_le_chain
  | _, .atom _ _ | _, .unary _ _ | _, .group _ _ _ | _, .tighter _ => Nat.zero_le _

theorem height_atomTree (t : Token) : (atomTree t).height = 1 := by
  unfold atomTree
  split <;> simp [Node.height]

/-- The height that an expression over `k` levels can have if it nests `n`
    constructs and its chains have at most `K` operators: each construct adds
    itself and a chain for each of the four levels. -/
def heightBound (K n k : Nat) : Nat :=
  n * (4 * K + 1) + k * K + 1

theorem heightBound_level (K n k : Nat) : heightBound K n k + K = heightBound K n (k + 1) := by
  rw [heightBound, heightBound, Nat.succ_mul k K]
  omega

theorem heightBound_construct (K n : Nat) : heightBound K n 4 + 1 = heightBound K (n + 1) 0 := by
  rw [heightBound, heightBound, Nat.succ_mul n (4 * K + 1)]
  omega

theorem heightBound_succ (K n : Nat) : heightBound K n 0 + 1 ≤ heightBound K (n + 1) 0 := by
  rw [← heightBound_construct, heightBound, heightBound]
  omega

theorem heightBound_mono {K n n' k : Nat} (h : n ≤ n') : heightBound K n k ≤ heightBound K n' k :=
  Nat.add_le_add_right (Nat.add_le_add_right (Nat.mul_le_mul_right _ h) _) _

section Bounds

variable {K : Nat}

/-- The loosest level of an expression can add a whole chain. -/
theorem Expr.height_le_of_links {k : Nat} (d : Expr k) (h : d.tree.longestChain ≤ K)
    (hd : d.tree.height ≤ heightBound K d.nesting (k - 1) + d.links) :
    d.tree.height ≤ heightBound K d.nesting k := by
  have hlinks : d.links ≤ K :=
    Nat.le_trans d.links_le_chain (Nat.le_trans d.tree.chain_le_longestChain h)
  cases k with
  | zero => cases d <;> exact hd
  | succ k =>
    rw [Nat.add_sub_cancel] at hd
    have hlevel := heightBound_level K d.nesting k
    omega

/-- On its loosest level an expression is higher than its operands by the number
    of operators that it has there. -/
theorem Expr.height_tree_le_links : {k : Nat} → (d : Expr k) → d.tree.longestChain ≤ K →
    d.tree.height ≤ heightBound K d.nesting (k - 1) + d.links
  | _, .atom t _, _ => by
    rw [Expr.tree, height_atomTree]
    exact Nat.le_add_left _ _
  | _, .unary _ e, h => by
    have he := e.height_le_of_links h (e.height_tree_le_links h)
    show e.tree.height + 1 ≤ heightBound K (e.nesting + 1) 0
    exact Nat.le_trans (Nat.succ_le_succ he) (heightBound_succ K e.nesting)
  | _, .group _ e _, h => by
    have he := e.height_le_of_links h (e.height_tree_le_links h)
    have hconstruct := heightBound_construct K e.nesting
    show e.tree.height ≤ heightBound K (e.nesting + 1) 0
    omega
  | _, .tighter e, h => e.height_le_of_links h (e.height_tree_le_links h)
  | k + 1, .binary l op r, h => by
    rw [Expr.tree, Node.longestChain, Nat.max_le, Nat.max_le] at h
    have hl := l.height_tree_le_links h.2.1
    have hr := r.height_le_of_links h.2.2 (r.height_tree_le_links h.2.2)
    have hnl := @heightBound_mono K _ _ k (Nat.le_max_left l.nesting r.nesting)
    have hnr := @heightBound_mono K _ _ k (Nat.le_max_right l.nesting r.nesting)
    rw [Nat.add_sub_cancel] at hl
    show max l.tree.height r.tree.height + 1 ≤
      heightBound K (max l.nesting r.nesting) k + (l.links + 1)
    omega

theorem Expr.height_tree_le {k : Nat} (d : Expr k) (h : d.tree.longestChain ≤ K) :
    d.tree.height ≤ heightBound K d.nesting k :=
  d.height_le_of_links h (d.height_tree_le_links h)

/-- A whole expression, with what stands right above it in a statement. -/
theorem Expr.height_tree_lt (e : Expr 4) (h : e.tree.longestChain ≤ K) :
    e.tree.height + 1 ≤ heightBound K (e.nesting + 1) 0 := by
  rw [← heightBound_construct]
  exact Nat.succ_le_succ (e.height_tree_le h)

/-- A part of a statement that nests others. -/
theorem height_nested {m n n' : Nat} (h : m ≤ heightBound K (n + 1) 0) (hn : n ≤ n') :
    m + 1 ≤ heightBound K (n' + 1 + 1) 0 :=
  calc m + 1 ≤ heightBound K (n + 1) 0 + 1 := Nat.succ_le_succ h
    _ ≤ heightBound K (n + 1 + 1) 0 := heightBound_succ K (n + 1)
    _ ≤ heightBound K (n' + 1 + 1) 0 := heightBound_mono (Nat.succ_le_succ (Nat.succ_le_succ hn))

mutual

/-- **Nesting and chains bound the height of a statement.** -/
theorem Stmt.height_tree_le : {b : Bool} → (s : Stmt b) → s.tree.longestChain ≤ K →
    s.tree.height ≤ heightBound K (s.nesting + 1) 0
  | _, .expr e _, h | _, .assign _ _ e _, h | _, .print _ e _, h => e.height_tree_lt h
  | _, .branch _ c body, h => by
    simp only [Stmt.tree, Node.longestChain, Nat.max_le] at h
    have hc := height_nested (Nat.le_of_succ_le (c.e.height_tree_lt h.1))
      (Nat.le_max_left c.e.nesting body.nesting)
    have hbody := height_nested (body.height_tree_le h.2.1)
      (Nat.le_max_right c.e.nesting body.nesting)
    simp only [Stmt.tree, Node.height, Stmt.nesting]
    omega
  | _, .branchElse _ c body _ other, h => by
    simp only [Stmt.tree, Node.longestChain, Nat.max_le] at h
    have hn : ∀ n ≤ max body.nesting other.nesting,
        n ≤ max c.e.nesting (max body.nesting other.nesting) := fun n hn => by omega
    have hc := height_nested (Nat.le_of_succ_le (c.e.height_tree_lt h.1))
      (Nat.le_max_left c.e.nesting (max body.nesting other.nesting))
    have hbody := height_nested (body.height_tree_le h.2.1) (hn _ (Nat.le_max_left _ _))
    have hother := height_nested (other.height_tree_le h.2.2) (hn _ (Nat.le_max_right _ _))
    simp only [Stmt.tree, Node.height, Stmt.nesting]
    omega
  | _, .loop _ c body, h => by
    simp only [Stmt.tree, Node.longestChain, Nat.max_le] at h
    have hc := height_nested (Nat.le_of_succ_le (c.e.height_tree_lt h.1))
      (Nat.le_max_left c.e.nesting body.nesting)
    have hbody := height_nested (body.height_tree_le h.2)
      (Nat.le_max_right c.e.nesting body.nesting)
    simp only [Stmt.tree, Node.height, Stmt.nesting]
    omega
  | _, .block _ body _ _, h => by
    have hbody := greatestHeight_le.2 (body.height_trees_le (longestChains_le.1 h))
    exact height_nested hbody (Nat.le_refl _)

theorem Stmts.height_trees_le : (ss : Stmts) → (∀ n ∈ ss.trees, n.longestChain ≤ K) →
    ∀ n ∈ ss.trees, n.height ≤ heightBound K (ss.nesting + 1) 0
  | .nil, _ => by simp [Stmts.trees]
  | .cons s rest, h => by
    rw [Stmts.trees, List.forall_mem_cons] at h ⊢
    have hs := s.height_tree_le h.1
    have hrest := rest.height_trees_le h.2
    have hmono : ∀ n ≤ max s.nesting rest.nesting,
        heightBound K (n + 1) 0 ≤ heightBound K (max s.nesting rest.nesting + 1) 0 :=
      fun n hn => heightBound_mono (Nat.succ_le_succ hn)
    refine ⟨Nat.le_trans hs (hmono _ (Nat.le_max_left _ _)), fun n hn => ?_⟩
    exact Nat.le_trans (hrest n hn) (hmono _ (Nat.le_max_right _ _))

end

end Bounds

end Grammar

open Grammar

/-- The height of the statements of a program without long chains. -/
theorem height_le_of_parse {source : String} {p : List Node} {K : Nat}
    (h : Descent.parse source = .ok p) (hchains : ∀ n ∈ p, n.longestChain ≤ K) :
    ∀ n ∈ p, n.height ≤ 196 * K + 50 := by
  obtain ⟨-, d, -, -, hnest, rfl⟩ := Descent.exists_derivation_of_parse h
  intro n hn
  calc n.height ≤ heightBound K (d.nesting + 1) 0 := d.height_trees_le hchains n hn
    _ ≤ heightBound K 49 0 := heightBound_mono (Nat.succ_le_succ hnest)
    _ = 196 * K + 50 := by rw [heightBound]; omega

/-- **The height of programs is bounded exactly where the length of their chains
    is.**  Take any source texts.  There is a bound on the height of all
    statements that they are parsed to if and only if there is a bound on the
    length of all chains of binary operators in these statements. -/
theorem heights_bounded_iff (texts : Set String) :
    (∃ H, ∀ source ∈ texts, ∀ p, Descent.parse source = .ok p → ∀ n ∈ p, n.height ≤ H) ↔
      ∃ K, ∀ source ∈ texts, ∀ p, Descent.parse source = .ok p → ∀ n ∈ p, n.longestChain ≤ K := by
  constructor
  · rintro ⟨H, hH⟩
    refine ⟨H, fun source hsource p hp n hn => ?_⟩
    exact Nat.le_trans n.longestChain_le_height (hH source hsource p hp n hn)
  · rintro ⟨K, hK⟩
    exact ⟨196 * K + 50, fun source hsource p hp => height_le_of_parse hp (hK source hsource p hp)⟩

/-! ## Chains of any length -/

/-- A derivation is written by some text, if its tokens have texts that their
    kinds admit. -/
theorem Grammar.Stmts.exists_source (d : Stmts) (hadmits : ∀ t ∈ d.yield, t.kind.Admits t.text)
    (hread : Readable d.yield) (hnest : d.nesting ≤ Descent.maxNesting) :
    ∃ source, Descent.parse source = .ok d.trees := by
  obtain ⟨pos, hending, hforms⟩ := scanFrom_lexemes hadmits .start
  obtain ⟨d', hyield, htrees, hnesting⟩ := d.relocate hforms
  refine ⟨String.intercalate " " (d.yield.map Token.lexeme), ?_⟩
  have hread' : Readable d'.yield := hyield ▸ SameForms.readable hforms hread
  rw [← htrees]
  exact (Descent.parse_of_derivation d' hending hyield hread').1 (hnesting ▸ hnest)

/-- The token of a one. -/
def oneToken : Token := ⟨.number, "1", .start⟩

/-- The token of a plus sign. -/
def plusToken : Token := ⟨.operator, "+", .start⟩

/-- The token of a semicolon. -/
def semicolonToken : Token := ⟨.symbol, ";", .start⟩

/-- The sum of `n + 1` ones. -/
def onesSum : Nat → Expr 2
  | 0 => .tighter (.tighter (.atom oneToken (Or.inl rfl)))
  | n + 1 =>
    .binary (onesSum n) ⟨plusToken, rfl, by decide⟩ (.tighter (.atom oneToken (Or.inl rfl)))

/-- The program that is the sum of `n + 1` ones. -/
def onesProgram (n : Nat) : Stmts :=
  .cons (.expr (.tighter (.tighter (onesSum n))) ⟨semicolonToken, rfl, rfl⟩) .nil

theorem height_onesSum (n : Nat) : (onesSum n).tree.height = n + 1 := by
  have hone := height_atomTree oneToken
  induction n with
  | zero => exact hone
  | succ n ih =>
    show max (onesSum n).tree.height (atomTree oneToken).height + 1 = n + 1 + 1
    omega

theorem nesting_onesSum (n : Nat) : (onesSum n).nesting = 0 := by
  induction n with
  | zero => rfl
  | succ n ih =>
    show max (onesSum n).nesting 0 = 0
    rw [ih, Nat.max_self]

theorem mem_onesSum {n : Nat} {t : Token} (h : t ∈ (onesSum n).yield) :
    t ∈ [oneToken, plusToken] := by
  induction n with
  | zero => exact List.mem_cons.2 (Or.inl (List.mem_singleton.1 h))
  | succ n ih =>
    have h : t ∈ (onesSum n).yield ++ [plusToken, oneToken] := h
    rcases List.mem_append.1 h with h | h
    · exact ih h
    · exact List.mem_reverse.1 h

theorem mem_onesProgram {n : Nat} {t : Token} (h : t ∈ (onesProgram n).yield) :
    t ∈ [oneToken, plusToken, semicolonToken] := by
  simp only [onesProgram, Stmts.yield, Stmt.yield, Expr.yield, List.append_nil,
    List.mem_append] at h
  rcases h with h | h
  · exact List.mem_append_left [semicolonToken] (mem_onesSum h)
  · exact List.mem_append_right [oneToken, plusToken] h

/-- Some text writes the sum of `n + 1` ones. -/
theorem exists_source_onesProgram (n : Nat) :
    ∃ source, Descent.parse source = .ok (onesProgram n).trees := by
  have hadmits : ∀ t ∈ [oneToken, plusToken, semicolonToken], t.kind.Admits t.text := by decide
  have hone : (readNumber? oneToken.text).isSome = true := by
    rw [readNumber?, Option.isSome_map]
    decide
  have hread : Readable [oneToken, plusToken, semicolonToken] := by
    simp only [Readable, List.forall_mem_cons, List.not_mem_nil, false_implies, implies_true]
    exact ⟨fun _ => hone, fun hk => absurd hk (by decide), fun hk => absurd hk (by decide), trivial⟩
  refine (onesProgram n).exists_source (fun t ht => hadmits t (mem_onesProgram ht))
    (fun t ht => hread t (mem_onesProgram ht)) ?_
  show max (onesSum n).nesting 0 ≤ Descent.maxNesting
  rw [nesting_onesSum]
  exact Nat.zero_le _

/-- **No constant bounds the height of all programs.** -/
theorem heights_unbounded :
    ¬ ∃ H, ∀ source p, Descent.parse source = .ok p → ∀ n ∈ p, n.height ≤ H := by
  rintro ⟨H, hH⟩
  obtain ⟨source, hsource⟩ := exists_source_onesProgram H
  have hheight : (onesSum H).tree.height + 1 ≤ H :=
    hH source _ hsource _ (List.mem_singleton_self _)
  rw [height_onesSum] at hheight
  omega

end BlockScript
