/-
  BlockScript — the names that a statement mentions.

  Of an environment a statement reads and changes only the names that occur in
  it, and it changes only those that it assigns.  Where these names are bound,
  and what other names there are, makes no difference.

  * `Node.names`, `Node.assigned`: the names that occur in a tree, and those
    that it assigns;
  * `FlatState.Agree`: flat states that are alike in some names;
  * `Runs.agree`: a run does the same from states that are alike in the names
    of its statement;
  * `Runs.unassigned`: a run keeps the names that its statement does not assign;
  * `exec_confined`: both, for environments.
-/
import BlockScript.Proofs.FlatStore

namespace BlockScript

/-! ## Names of a tree -/

mutual

/-- The names that occur in a tree. -/
def Node.names : Node → List String
  | .literal _ | .absent => []
  | .var x => [x]
  | .unary _ e | .expr e | .print e => e.names
  | .assign x e => x :: e.names
  | .binary _ l r => l.names ++ r.names
  | .cond c t e => c.names ++ (t.names ++ e.names)
  | .loop c b => c.names ++ b.names
  | .block ss => namesAll ss

/-- The names that occur in a list of trees. -/
def namesAll : List Node → List String
  | [] => []
  | s :: rest => s.names ++ namesAll rest

end

mutual

/-- The names that a tree assigns. -/
def Node.assigned : Node → List String
  | .assign x _ => [x]
  | .cond _ t e => t.assigned ++ e.assigned
  | .loop _ b => b.assigned
  | .block ss => assignedAll ss
  | _ => []

/-- The names that a list of trees assigns. -/
def assignedAll : List Node → List String
  | [] => []
  | s :: rest => s.assigned ++ assignedAll rest

end

theorem names_subject? {node e : Node} (h : node.subject? = some e) : e.names ⊆ node.names := by
  cases node <;> simp only [Node.subject?, Option.some.injEq, reduceCtorEq] at h <;> subst h <;>
    simp [Node.names]

/-- The value of an expression hangs only on the names that occur in it. -/
theorem valueIn_congr {get? get?' : String → Option Value} : ∀ e : Node,
    (∀ x ∈ e.names, get? x = get?' x) → valueIn get? e = valueIn get?' e
  | .var x, h => by
    have hx := h x (by simp [Node.names])
    simp only [valueIn, hx]
  | .unary op e, h => by
    have he := valueIn_congr e h
    simp only [valueIn, he]
  | .binary op l r, h => by
    have hl := valueIn_congr l fun x hx => h x (List.mem_append_left _ hx)
    have hr := valueIn_congr r fun x hx => h x (List.mem_append_right _ hx)
    simp only [valueIn, hl, hr]
  | .literal _, _ | .expr _, _ | .assign _ _, _ | .print _, _ | .cond _ _ _, _ | .loop _ _, _
  | .block _, _ | .absent, _ => rfl

/-! ## States that are alike -/

/-- Two flat states have the same output, and the given names have the same
    values in them or none in either. -/
structure FlatState.Agree (names : List String) (s t : FlatState) : Prop where
  store : ∀ x ∈ names, s.store x = t.store x
  output : s.output = t.output

section Agree

variable {names : List String} {s t s' t' : FlatState}

/-- The expression that a statement evaluates first has the same value. -/
theorem FlatState.Agree.value {node e : Node} (h : s.Agree names t) (hn : node.names ⊆ names)
    (he : node.subject? = some e) : valueIn (flat.get? s) e = valueIn (flat.get? t) e :=
  valueIn_congr e fun x hx => h.store x (hn (names_subject? he hx))

theorem FlatState.Agree.assign (h : s.Agree names t) (x : String) (v : Value) :
    (s.assign x v).Agree names (t.assign x v) := by
  refine ⟨fun y hy => ?_, h.output⟩
  simp only [FlatState.assign, h.store y hy]

theorem FlatState.Agree.print (h : s.Agree names t) (line : String) :
    (s.print line).Agree names (t.print line) := by
  refine ⟨h.store, ?_⟩
  simp only [FlatState.print, h.output]

/-- At the end of a block the same of these names are forgotten. -/
theorem FlatState.Agree.forget (h : s.Agree names t) (h' : s'.Agree names t') :
    (s'.forget s).Agree names (t'.forget t) := by
  refine ⟨fun y hy => ?_, h'.output⟩
  simp only [FlatState.forget, h.store y hy, h'.store y hy]

mutual

/-- **A run does the same from states that are alike in the names of its
    statement**, and leaves them alike. -/
theorem Runs.agree {node : Node} {s : FlatState} {o : FlatState × Option Fault} :
    Runs flat node s o → node.names ⊆ names → ∀ t, s.Agree names t →
      ∃ t', o.1.Agree names t' ∧ Runs flat node t (t', o.2)
  | .misplaced h, _, t, ha => ⟨t, ha, .misplaced h⟩
  | .fault hs h, hn, t, ha => by
    rw [ha.value hn hs] at h
    exact ⟨t, ha, .fault hs h⟩
  | .expr h, hn, t, ha => by
    rw [ha.value hn rfl] at h
    exact ⟨t, ha, .expr h⟩
  | .assign h, hn, t, ha => by
    rw [ha.value hn rfl] at h
    exact ⟨_, ha.assign _ _, .assign h⟩
  | .print h, hn, t, ha => by
    rw [ha.value hn rfl] at h
    exact ⟨_, ha.print _, .print h⟩
  | .unfit h hv, hn, t, ha => by
    rw [ha.value hn rfl] at h
    exact ⟨t, ha, .unfit h hv⟩
  | .body h ht, hn, t, ha => by
    obtain ⟨-, hbranches⟩ := List.append_subset.1 hn
    obtain ⟨t', ha', hrun⟩ := ht.agree (List.append_subset.1 hbranches).1 t ha
    rw [ha.value hn rfl] at h
    exact ⟨t', ha', .body h hrun⟩
  | .other h he hr, hn, t, ha => by
    obtain ⟨-, hbranches⟩ := List.append_subset.1 hn
    obtain ⟨t', ha', hrun⟩ := hr.agree (List.append_subset.1 hbranches).2 t ha
    rw [ha.value hn rfl] at h
    exact ⟨t', ha', .other h he hrun⟩
  | .skip h, hn, t, ha => by
    rw [ha.value hn rfl] at h
    exact ⟨t, ha, .skip h⟩
  | .stop h hv, hn, t, ha => by
    rw [ha.value hn rfl] at h
    exact ⟨t, ha, .stop h hv⟩
  | .again h hv hb hl, hn, t, ha => by
    obtain ⟨-, hbody⟩ := List.append_subset.1 hn
    obtain ⟨mid, hmid, hrun⟩ := hb.agree hbody t ha
    obtain ⟨t', ha', hloop⟩ := hl.agree hn mid hmid
    rw [ha.value hn rfl] at h
    exact ⟨t', ha', .again h hv hrun hloop⟩
  | .broken h hv hb, hn, t, ha => by
    obtain ⟨-, hbody⟩ := List.append_subset.1 hn
    obtain ⟨t', ha', hrun⟩ := hb.agree hbody t ha
    rw [ha.value hn rfl] at h
    exact ⟨t', ha', .broken h hv hrun⟩
  | .block h, hn, t, ha => by
    obtain ⟨t', ha', hrun⟩ := h.agree hn t ha
    exact ⟨_, ha.forget ha', .block hrun⟩

theorem RunsAll.agree {ss : List Node} {s : FlatState} {o : FlatState × Option Fault} :
    RunsAll flat ss s o → namesAll ss ⊆ names → ∀ t, s.Agree names t →
      ∃ t', o.1.Agree names t' ∧ RunsAll flat ss t (t', o.2)
  | .nil, _, t, ha => ⟨t, ha, .nil⟩
  | .cons h hs, hn, t, ha => by
    obtain ⟨hfirst, hrest⟩ := List.append_subset.1 hn
    obtain ⟨mid, hmid, hrun⟩ := h.agree hfirst t ha
    obtain ⟨t', ha', hruns⟩ := hs.agree hrest mid hmid
    exact ⟨t', ha', .cons hrun hruns⟩
  | .fault h, hn, t, ha => by
    obtain ⟨t', ha', hrun⟩ := h.agree (List.append_subset.1 hn).1 t ha
    exact ⟨t', ha', .fault hrun⟩

end

end Agree

/-! ## Names that are not assigned -/

/-- A block forgets only names that had no value before it. -/
theorem FlatState.forget_store_of_eq {s before : FlatState} {x : String}
    (h : s.store x = before.store x) : (s.forget before).store x = before.store x := by
  simp only [FlatState.forget, h]
  cases before.store x <;> rfl

mutual

/-- **A run keeps the values of the names that its statement does not
    assign.** -/
theorem Runs.unassigned {x : String} {node : Node} {s : FlatState}
    {o : FlatState × Option Fault} :
    Runs flat node s o → x ∉ node.assigned → o.1.store x = s.store x
  | .misplaced _, _ | .fault _ _, _ | .expr _, _ | .print _, _ | .unfit _ _, _ | .skip _, _
  | .stop _ _, _ => rfl
  | .assign _, hx => if_neg fun heq => hx (by simp [Node.assigned, heq])
  | .body _ ht, hx => ht.unassigned fun hmem => hx (List.mem_append_left _ hmem)
  | .other _ _ hr, hx => hr.unassigned fun hmem => hx (List.mem_append_right _ hmem)
  | .again _ _ hb hl, hx => (hl.unassigned hx).trans (hb.unassigned hx)
  | .broken _ _ hb, hx => hb.unassigned hx
  | .block h, hx => FlatState.forget_store_of_eq (h.unassigned hx)

theorem RunsAll.unassigned {x : String} {ss : List Node} {s : FlatState}
    {o : FlatState × Option Fault} :
    RunsAll flat ss s o → x ∉ assignedAll ss → o.1.store x = s.store x
  | .nil, _ => rfl
  | .cons h hs, hx =>
    (hs.unassigned fun hmem => hx (List.mem_append_right _ hmem)).trans
      (h.unassigned fun hmem => hx (List.mem_append_left _ hmem))
  | .fault h, hx => h.unassigned fun hmem => hx (List.mem_append_left _ hmem)

end

/-! ## Statements in an environment -/

/-- A statement that is run in an environment ends so. -/
def Executes (verbosity : Int) (node : Node) (env : Env) (ending : Ending) : Prop :=
  ∃ bound, exec bound verbosity node (RunState.of env) = some ending

section

variable {verbosity : Int} {node : Node} {env env' : Env}

theorem Executes.flat {ending : Ending} (h : Executes verbosity node env ending) :
    Runs flat node (RunState.of env).view (ending.state.view, ending.fault) :=
  (exec_iff_runs.1 h).map (stack_simulates_flat verbosity)

theorem executes_of_flat {s : FlatState} {r : Option Fault}
    (h : Runs flat node (RunState.of env).view (s, r)) :
    ∃ ending, Executes verbosity node env ending ∧ ending.state.view = s ∧ ending.fault = r := by
  obtain ⟨st, hview, hruns⟩ := h.lift (stack_simulates_flat verbosity) _ rfl
  exact ⟨⟨st, r⟩, exec_iff_runs.2 hruns, hview, rfl⟩

theorem Executes.unique {ending ending' : Ending} (h : Executes verbosity node env ending)
    (h' : Executes verbosity node env ending') : ending = ending' := by
  obtain ⟨bound, hb⟩ := h
  obtain ⟨bound', hb'⟩ := h'
  have hlarge := exec_mono (Nat.le_max_left bound bound') node _ _ hb
  have hlarge' := exec_mono (Nat.le_max_right bound bound') node _ _ hb'
  exact Option.some.inj (hlarge.symm.trans hlarge')

/-- Where a statement ends in one of two environments that are alike in its
    names, it ends in the other, and leaves states that are alike. -/
theorem Executes.agree {ending : Ending} (h : Executes verbosity node env ending)
    (hnames : ∀ x ∈ node.names, env.get? x = env'.get? x) :
    ∃ ending', Executes verbosity node env' ending' ∧
      ending.state.view.Agree node.names ending'.state.view ∧ ending'.fault = ending.fault := by
  have hstart : (RunState.of env).view.Agree node.names (RunState.of env').view := ⟨hnames, rfl⟩
  obtain ⟨s, hs, hruns⟩ := h.flat.agree (List.Subset.refl _) _ hstart
  obtain ⟨ending', hends, rfl, hfault⟩ := executes_of_flat hruns
  exact ⟨ending', hends, hs, hfault⟩

end

/-- **A statement is confined to its names.**  In two environments, however
    their scopes lie, in which each name of the statement has the same value or
    none, the statement ends in both or in neither; it prints the same and has
    the same fault or none, its names are alike again, and in each environment
    every name that it does not assign stands for what it stood for before. -/
theorem exec_confined (verbosity : Int) (node : Node) (env env' : Env)
    (hnames : ∀ x ∈ node.names, env.get? x = env'.get? x) :
    ((∃ ending, Executes verbosity node env ending) ↔
      ∃ ending', Executes verbosity node env' ending') ∧
    ∀ ending ending', Executes verbosity node env ending → Executes verbosity node env' ending' →
      ending.state.output = ending'.state.output ∧ ending.fault = ending'.fault ∧
        (∀ x ∈ node.names, ending.state.env.get? x = ending'.state.env.get? x) ∧
        ∀ x ∉ node.assigned, ending.state.env.get? x = env.get? x ∧
          ending'.state.env.get? x = env'.get? x := by
  refine ⟨⟨?_, ?_⟩, ?_⟩
  · rintro ⟨ending, h⟩
    obtain ⟨ending', h', -⟩ := h.agree hnames
    exact ⟨ending', h'⟩
  · rintro ⟨ending', h'⟩
    obtain ⟨ending, h, -⟩ := h'.agree fun x hx => (hnames x hx).symm
    exact ⟨ending, h⟩
  · intro ending ending' h h'
    obtain ⟨other, hother, hagree, hfault⟩ := h.agree hnames
    obtain rfl := hother.unique h'
    exact ⟨hagree.output, hfault.symm, hagree.store,
      fun x hx => ⟨h.flat.unassigned hx, h'.flat.unassigned hx⟩⟩

/-- A block that changes an outer variable, binds one of its own, prints that,
    and fails with a message that tells its value. -/
def tellingBlock : Node :=
  .block [.assign "x" (.var "y"), .assign "t" (.var "x"), .print (.var "t"),
    .expr (.unary "-" (.var "t")), .assign "y" (.var "z")]

/-- Two global variables, and the same two in different scopes with others. -/
theorem exec_confined_tellingBlock : ∃ ending ending',
    Executes 0 tellingBlock ⟨[("x", .null), ("y", .boolean true)], []⟩ ending ∧
      Executes 0 tellingBlock
        ⟨[("u", .null), ("y", .boolean true)], [[("x", .null)], [("y", .null)]]⟩ ending' ∧
      ending.state.output = ending'.state.output ∧ ending'.state.output = "true\n" ∧
      ending.fault = ending'.fault ∧
      ending'.fault = some (.unaryMismatch "-" (.boolean true)) ∧
      ending.state.env.get? "x" = ending'.state.env.get? "x" ∧
      ending'.state.env.get? "u" = some .null := by
  have h : exec 0 0 tellingBlock (RunState.of ⟨[("x", .null), ("y", .boolean true)], []⟩) =
      some _ := rfl
  have h' : exec 0 0 tellingBlock
      (RunState.of ⟨[("u", .null), ("y", .boolean true)], [[("x", .null)], [("y", .null)]]⟩) =
      some _ := rfl
  have hnames : ∀ x ∈ tellingBlock.names,
      Env.get? ⟨[("x", .null), ("y", .boolean true)], []⟩ x =
        Env.get? ⟨[("u", .null), ("y", .boolean true)], [[("x", .null)], [("y", .null)]]⟩ x := by
    simp [tellingBlock, Node.names, namesAll, Env.get?, Env.scopes, lookupIn, Scope.get?]
  obtain ⟨-, hsame⟩ := exec_confined 0 tellingBlock _ _ hnames
  obtain ⟨houtput, hfault, hagree, hkept⟩ := hsame _ _ ⟨0, h⟩ ⟨0, h'⟩
  exact ⟨_, _, ⟨0, h⟩, ⟨0, h'⟩, houtput, rfl, hfault, rfl, hagree "x" (by decide),
    (hkept "u" (by decide)).2⟩

end BlockScript
