/-
  BlockScript — drafts of programs run as the programs do.

  A draft in which every name, operator and text is a string of characters is
  the draft of a program.  Its run goes step by step as that of the program, and
  none of its data can fail.

  * `Env.draft`, `RunState.draft`, `Ending.draft`: environments, states and
    endings as those of drafts;
  * `eval_draft`, `execDraft_draft`: expressions and statements;
  * `runDrafts_drafts`: programs.
-/
import BlockScript.Draft.Exec
import BlockScript.Proofs.Document
import BlockScript.Proofs.Scopes

namespace BlockScript

/-! ## Strings as data -/

@[simp] theorem legible_of (s : String) : Raw.legible (.str (.of s)) = true := by
  rw [Raw.legible]
  all_goals simp

@[simp] theorem written_of (t : Text) : Raw.written (.str t) = t :=
  rfl

@[simp] theorem display_of (s : String) : Raw.display (.str (.of s)) = s :=
  Text.escaped_of s

theorem add_of (s t : String) :
    Raw.add (.str (.of s)) (.str (.of t)) = .ok (.str (.of (s ++ t))) := by
  rw [Raw.add, Text.of_append]

@[simp] theorem typeName_draft (v : Value) : v.draft.typeName = v.typeName := by
  cases v <;> rfl

@[simp] theorem printed_draft (v : Value) : v.draft.printed = .str (.of v.printed) := by
  cases v <;> rfl

theorem joined_draft (v : Value) : v.draft.joined = .str (.of v.joined) := by
  cases v <;> rfl

@[simp] theorem display_draft (v : Value) : v.draft.display = v := by
  cases v <;> simp [Value.draft, DraftValue.display]

@[simp] theorem isString_draft (v : Value) : v.draft.isString = v.isString := by
  cases v <;> rfl

@[simp] theorem isTrue_draft (v : Value) : v.draft.isTrue = v.isTrue := by
  cases v <;> rfl

/-- A line of strings is written. -/
theorem lineOf_of_texts {pieces : List Piece} {strings : List String}
    (h : pieces.mapM Piece.text = .ok (strings.map Text.of)) :
    lineOf pieces = .ok (String.join strings) := by
  have hflat : ∀ l : List String, (l.map Text.of).flatten = Text.of (String.join l) := by
    intro l
    induction l with
    | nil => rfl
    | cons s rest ih => simp [ih, Text.of_append]
  simp only [lineOf, h, hflat, bind, Except.bind, Text.string?_of]
  rfl

/-! ## Operators -/

theorem unaryMisfit_draft (op : String) (v : Value) :
    unaryMisfit (.str (.of op)) v.draft = .error (.unaryMismatch op v) := by
  simp [unaryMisfit, faultShowing]

theorem binaryMisfit_draft (op : String) (a b : Value) :
    binaryMisfit (.str (.of op)) a.draft b.draft = .error (.binaryMismatch op a b) := by
  simp [binaryMisfit, faultShowing]

theorem applyUnary_draft (op : String) (v : Value) :
    applyUnaryDraft (.str (.of op)) v.draft = (applyUnary op v).map Value.draft := by
  have hmisfit := unaryMisfit_draft op v
  cases v with
  | number x =>
    by_cases hop : op = "-"
    · subst hop
      simp [applyUnaryDraft, Value.draft, applyUnary, Except.map]
    · simp only [Value.draft] at hmisfit ⊢
      simp [applyUnaryDraft, applyUnary, Except.map, hop, hmisfit]
  | boolean b =>
    by_cases hop : op = "!"
    · subst hop
      simp [applyUnaryDraft, Value.draft, applyUnary, Except.map]
    · simp only [Value.draft] at hmisfit ⊢
      simp [applyUnaryDraft, applyUnary, Except.map, hop, hmisfit]
  | string s =>
    simp only [Value.draft] at hmisfit ⊢
    simp [applyUnaryDraft, applyUnary, Except.map, hmisfit]
  | null =>
    simp only [Value.draft] at hmisfit ⊢
    simp [applyUnaryDraft, applyUnary, Except.map, hmisfit]

theorem joinDrafts_draft (op : String) (a b : Value) :
    joinDrafts (.str (.of op)) a.draft b.draft =
      (if op = "+" && (a.isString || b.isString) then .ok (.string (a.joined ++ b.joined))
        else .error (.binaryMismatch op a b) : Except Fault Value).map Value.draft := by
  have hop : (Raw.word? (.str (.of op)) = some "+") = (op = "+") := by simp
  simp only [joinDrafts, hop, isString_draft, joined_draft, add_of, binaryMisfit_draft]
  split <;> rfl

theorem applyBinary_draft (op : String) (a b : Value) :
    applyBinaryDraft (.str (.of op)) a.draft b.draft = (applyBinary op a b).map Value.draft := by
  have hmisfit := binaryMisfit_draft op a b
  have hjoin := joinDrafts_draft op a b
  cases a <;> cases b
  case number.number x y =>
    simp only [Value.draft] at hmisfit ⊢
    simp only [applyBinaryDraft, word?_of, Option.bind_some, applyBinary, hmisfit]
    cases applyNumeric? op x y <;> rfl
  case boolean.boolean p q =>
    simp only [Value.draft] at hmisfit ⊢
    simp only [applyBinaryDraft, word?_of, Option.bind_some, applyBinary, hmisfit]
    cases applyLogical? op p q <;> rfl
  all_goals exact hjoin

/-! ## Environments -/

/-- A scope as one of a draft. -/
def Scope.draft (s : Scope) : DraftScope
  | .text t => (t.string?.bind (s.get? ·)).map Value.draft
  | _ => none

/-- An environment as one of a draft. -/
def Env.draft (env : Env) : DraftEnv :=
  env.scopes.map Scope.draft

@[simp] theorem Scope.draft_of (s : Scope) (x : String) :
    s.draft (.text (.of x)) = (s.get? x).map Value.draft := by
  simp [Scope.draft]

theorem Scope.draft_put (s : Scope) (x : String) (v : Value) :
    (s.put x v).draft = DraftScope.put (.text (.of x)) v.draft s.draft := by
  funext key
  cases key with
  | text t =>
    cases hy : t.string? with
    | none =>
      have hne : t ≠ Text.of x := by
        rintro rfl
        simp at hy
      simp [Scope.draft, DraftScope.put, hy, hne]
    | some y =>
      obtain rfl := Text.string?_eq_some.1 hy
      by_cases hxy : x = y
      · subst hxy
        simp [DraftScope.put, Scope.get?_put]
      · simp [DraftScope.put, Scope.get?_put, hxy, Ne.symm hxy]
  | null | integer | number => rfl

theorem Scope.isSome_draft (s : Scope) (x : String) :
    (s.draft (.text (.of x))).isSome = s.binds x := by
  simp [Scope.binds]

theorem lookupIn_draft (x : String) (scopes : List Scope) :
    (scopes.map Scope.draft).findSome? (· (.text (.of x))) =
      (lookupIn x scopes).map Value.draft := by
  induction scopes with
  | nil => rfl
  | cons s rest ih =>
    rw [lookupIn_cons, List.map_cons, List.findSome?_cons, Scope.draft_of, ih]
    cases s.get? x <;> rfl

theorem get?_draft (env : Env) (x : String) :
    env.draft.get? (.text (.of x)) = (env.get? x).map Value.draft :=
  lookupIn_draft x env.scopes

/-- The binding that is changed is the first one in both. -/
theorem replaceIn?_draft (x : String) (v : Value) (scopes : List Scope) :
    (replaceIn? x v scopes).map (·.map Scope.draft) =
      ((scopes.map Scope.draft).findIdx? fun s => (s (.text (.of x))).isSome).map
        ((scopes.map Scope.draft).modify · (DraftScope.put (.text (.of x)) v.draft)) := by
  induction scopes with
  | nil => rfl
  | cons s rest ih =>
    rw [replaceIn?, List.map_cons, List.findIdx?_cons, Scope.isSome_draft]
    by_cases hs : s.binds x = true
    · simp [hs, Scope.draft_put]
    · have hrest := congrArg (Option.map (s.draft :: ·)) ih
      simpa [hs, Function.comp_def] using hrest

theorem set_draft (env : Env) (x : String) (v : Value) :
    (env.set x v).draft = env.draft.set (.text (.of x)) v.draft := by
  have hreplace := replaceIn?_draft x v env.scopes
  have hset : (env.set x v).scopes =
      (replaceIn? x v env.scopes).getD (env.innermost.put x v :: env.outer) := by
    simp only [Env.set, Env.scopes, replaceIn?]
    split
    · rfl
    · cases replaceIn? x v env.outer <;> rfl
  rw [Env.draft, hset, DraftEnv.set]
  cases hx : replaceIn? x v env.scopes with
  | some scopes =>
    rw [hx, Option.map_some] at hreplace
    obtain ⟨i, hi, hscopes⟩ := Option.map_eq_some_iff.1 hreplace.symm
    rw [Env.draft, hi, Option.getD_some, Option.getD_some, hscopes]
  | none =>
    -- the name is new, and bound in the innermost scope
    rw [hx, Option.map_none, eq_comm, Option.map_eq_none_iff] at hreplace
    rw [Env.draft, hreplace]
    simp [Env.scopes, Scope.draft_put]

theorem Scope.draft_nil : Scope.draft [] = fun _ => none := by
  funext key
  cases key with
  | text t => cases ht : t.string? <;> simp [Scope.draft, Scope.get?, ht]
  | null | integer | number => rfl

@[simp] theorem enter_draft (env : Env) : env.enter.draft = env.draft.enter := by
  simp [Env.draft, Env.enter, Env.scopes, DraftEnv.enter, Scope.draft_nil]

theorem exit?_draft (env : Env) : env.draft.exit? = env.exit?.map Env.draft := by
  obtain ⟨innermost, _ | ⟨s, rest⟩⟩ := env <;> rfl

@[simp] theorem length_draft (env : Env) : env.draft.length = env.depth := by
  simp [Env.draft, Env.scopes, Env.depth]

/-! ## Expressions -/

theorem isAbsent_draft (n : Node) : n.draft.isAbsent = n.isAbsent := by
  cases n <;> rfl

theorem eval_draft (env : Env) :
    (e : Node) → e.draft.eval env.draft = (eval env e).map Value.draft
  | .literal v => rfl
  | .var x => by
    simp only [Node.draft, Draft.eval, Raw.key, Raw.key?, eval, bind, Except.bind, get?_draft]
    cases env.get? x <;> simp [Except.map, faultShowing, pure, Except.pure]
  | .unary op e => by
    have he := eval_draft env e
    simp only [Node.draft, Draft.eval, eval, he]
    cases eval env e with
    | error f => rfl
    | ok v => exact applyUnary_draft op v
  | .binary op l r => by
    have hl := eval_draft env l
    have hr := eval_draft env r
    simp only [Node.draft, Draft.eval, eval, hl, hr]
    cases eval env l with
    | error f => rfl
    | ok a =>
      cases eval env r with
      | error f => rfl
      | ok b => exact applyBinary_draft op a b
  | .expr _ | .assign _ _ | .print _ | .cond _ _ _ | .loop _ _ | .block _ | .absent => rfl

/-! ## Statements -/

/-- A state as one of a draft. -/
def RunState.draft (st : RunState) : DraftState :=
  ⟨st.env.draft, st.output, st.trace.map Event.message⟩

theorem new_draft : (RunState.of Env.empty).draft = DraftState.new := by
  simp [RunState.draft, RunState.of, Env.draft, Env.empty, Env.scopes, Scope.draft_nil,
    DraftState.new]

/-- An ending as one of a draft. -/
def Ending.draft (ending : Ending) : DraftEnding :=
  ⟨ending.state.draft, ending.fault⟩

theorem trying_draft {st : RunState} {e : Node} {next : Value → Option Ending}
    {next' : DraftValue → Option DraftEnding}
    (h : ∀ v, next' v.draft = (next v).map Ending.draft) :
    st.draft.trying (e.draft.eval st.draft.env) next' =
      (st.evaluating e next).map Ending.draft := by
  have heval := eval_draft st.env e
  simp only [RunState.evaluating, RunState.draft, heval]
  cases eval st.env e with
  | error f => rfl
  | ok v => exact h v

@[simp] theorem text_words (s : String) : (Piece.words s).text = .ok (.of s) :=
  rfl

@[simp] theorem text_data (s : String) : (Piece.data (.str (.of s))).text = .ok (.of s) := by
  rw [Piece.text, legible_of, if_pos rfl, written_of]

theorem mapM_texts_cons {p : Piece} {s : String} {pieces : List Piece} {strings : List String}
    (hp : p.text = .ok (.of s)) (h : pieces.mapM Piece.text = .ok (strings.map Text.of)) :
    (p :: pieces).mapM Piece.text = .ok ((s :: strings).map Text.of) := by
  rw [List.mapM_cons, hp, h]
  rfl

theorem mapM_texts_nil : [].mapM Piece.text = .ok ([].map Text.of) :=
  rfl

theorem lineOf_words (s : String) : lineOf [.words s] = .ok s := by
  rw [lineOf_of_texts (mapM_texts_cons (text_words s) mapM_texts_nil)]
  simp

theorem lineOf_data (s : String) : lineOf [.data (.str (.of s))] = .ok s := by
  rw [lineOf_of_texts (mapM_texts_cons (text_data s) mapM_texts_nil)]
  simp

theorem lineOf_labelled (label s : String) :
    lineOf [.words label, .data (.str (.of s))] = .ok (label ++ s) := by
  rw [lineOf_of_texts (mapM_texts_cons (text_words label)
    (mapM_texts_cons (text_data s) mapM_texts_nil))]
  simp

theorem lineOf_assignment (label x sign s : String) :
    lineOf [.words label, .data (.str (.of x)), .words sign, .data (.str (.of s))] =
      .ok (label ++ x ++ sign ++ s) := by
  rw [lineOf_of_texts (mapM_texts_cons (text_words label) (mapM_texts_cons (text_data x)
    (mapM_texts_cons (text_words sign) (mapM_texts_cons (text_data s) mapM_texts_nil))))]
  simp [String.append_assoc]

/-- The words in the middle of a line are put together before or after. -/
theorem append_middle (a b c d e f : String) :
    a ++ b ++ (c ++ d ++ e) ++ f = a ++ b ++ c ++ d ++ e ++ f := by
  simp only [String.append_assoc]

theorem print_draft (st : RunState) (v : Value) :
    st.draft.print v.draft.printed = (st.print v.printed).done.map Ending.draft := by
  rw [printed_draft, DraftState.print, lineOf_data]
  rfl

/-- A state with an event more, if its line is that of the event. -/
theorem record_draft {verbosity : Int} {e : Event} {pieces : List Piece}
    (h : lineOf pieces = .ok e.message) (st : RunState) (next : DraftState → Option DraftEnding) :
    st.draft.record verbosity e.level pieces next = next (st.record verbosity e).draft := by
  simp only [DraftState.record, RunState.record]
  split
  · simp [h, DraftState.trying, RunState.draft]
  · rfl

theorem andThen_draft (ending : Option Ending) {next : RunState → Option Ending}
    {next' : DraftState → Option DraftEnding}
    (h : ∀ st : RunState, next' st.draft = (next st).map Ending.draft) :
    andThen (ending.map Ending.draft) next' =
      (match ending with
        | some ⟨st, none⟩ => next st
        | ending => ending).map Ending.draft := by
  match ending with
  | none => rfl
  | some ⟨st, none⟩ => exact h st
  | some ⟨st, some f⟩ => rfl

theorem leaveScope_draft (ending : Ending) (verbosity : Int) :
    ending.draft.leaveScope verbosity = some (ending.leaveScope verbosity).draft := by
  obtain ⟨st, fault⟩ := ending
  have hexit := exit?_draft st.env
  simp only [DraftEnding.leaveScope, Ending.draft, RunState.draft, Ending.leaveScope] at hexit ⊢
  rw [hexit]
  cases st.env.exit? with
  | none => rfl
  | some env =>
    cases fault with
    | some f => rfl
    | none =>
      have hline : lineOf [.words ("exit scope (depth " ++ Nat.repr env.draft.length ++ ")")] =
          .ok (Event.message (.left env.depth)) := by
        rw [length_draft]
        exact lineOf_words _
      exact record_draft hline { st with env := env } DraftState.done

theorem enterScope_draft (st : RunState) (verbosity : Int)
    (next : DraftState → Option DraftEnding) :
    DraftState.record { st.draft with env := st.draft.env.enter } verbosity 2
        [.words ("enter scope (depth " ++ Nat.repr st.draft.env.enter.length ++ ")")] next =
      next (st.enterScope verbosity).draft := by
  have hentered : ({ st.draft with env := st.draft.env.enter } : DraftState) =
      RunState.draft { st with env := st.env.enter } := by
    simp [RunState.draft]
  have hline : lineOf
      [.words ("enter scope (depth " ++ Nat.repr st.draft.env.enter.length ++ ")")] =
        .ok (Event.message (.entered st.env.enter.depth)) := by
    rw [RunState.draft, ← enter_draft, length_draft]
    exact lineOf_words _
  rw [hentered]
  exact record_draft hline { st with env := st.env.enter } next

theorem iterate_draft {verbosity : Int} {c : Node} {body : RunState → Option Ending}
    {body' : DraftState → Option DraftEnding}
    (h : ∀ st : RunState, body' st.draft = (body st).map Ending.draft) :
    ∀ (n : Nat) (st : RunState), iterateDraft verbosity c.draft body' n st.draft =
      (iterate verbosity c body n st).map Ending.draft
  | 0, _ => rfl
  | n + 1, st => by
    refine trying_draft fun v => ?_
    have hline : lineOf [.words "while condition -> ", .data v.draft.printed] =
        .ok (Event.message (.looped v)) := by
      rw [printed_draft]
      exact lineOf_labelled _ _
    refine (record_draft hline st _).trans ?_
    rw [isTrue_draft]
    split
    · rw [h]
      exact andThen_draft _ (iterate_draft h n)
    · rfl

mutual

/-- **The draft of a statement runs as the statement does.** -/
theorem execDraft_draft {bound : Nat} {verbosity : Int} : (n : Node) → (st : RunState) →
    execDraft bound verbosity n.draft st.draft = (exec bound verbosity n st).map Ending.draft
  | .expr e, st => trying_draft fun v => rfl
  | .assign x e, st => by
    refine trying_draft fun v => ?_
    have hset : ({ st.draft with env := st.draft.env.set (.text (.of x)) v.draft } : DraftState) =
        RunState.draft { st with env := st.env.set x v } := by
      simp [RunState.draft, set_draft]
    have hline : lineOf [.words "assign ", .data (.str (.of x)),
        .words (": " ++ v.draft.typeName ++ " = "), .data v.draft.printed] =
          .ok (Event.message (.assigned x v)) := by
      have hmessage : "assign " ++ x ++ (": " ++ v.typeName ++ " = ") ++ v.printed =
          Event.message (.assigned x v) :=
        append_middle _ _ _ _ _ _
      rw [printed_draft, typeName_draft]
      exact (lineOf_assignment _ _ _ _).trans (congrArg Except.ok hmessage)
    refine Eq.trans ?_ (record_draft hline { st with env := st.env.set x v } DraftState.done)
    rw [← hset]
    rfl
  | .print e, st => trying_draft fun v => print_draft st v
  | .cond c t e, st => by
    refine trying_draft fun v => ?_
    cases v with
    | boolean b =>
      have hline : lineOf [.words "if condition -> ", .data (DraftValue.boolean b).printed] =
          .ok (Event.message (.branched (.boolean b))) :=
        lineOf_labelled _ _
      refine (record_draft hline st _).trans ?_
      cases b with
      | true => exact execDraft_draft t _
      | false =>
        simp only [isAbsent_draft]
        cases e.isAbsent with
        | true => rfl
        | false => exact execDraft_draft e _
    | number x | null => rfl
    | string s =>
      simp [Value.draft, DraftState.fail, RunState.fail, Ending.draft, DraftValue.display]
  | .loop c b, st => iterate_draft (execDraft_draft b) bound st
  | .block ss, st => by
    have hss : ∀ st : RunState, execDrafts bound verbosity (drafts ss) st.draft =
        (execAll bound verbosity ss st).map Ending.draft :=
      fun st => execDrafts_drafts ss st
    have hentered := enterScope_draft st verbosity (execDrafts bound verbosity (drafts ss))
    simp only [Node.draft, execDraft, DraftState.inScope, exec, hentered, hss]
    cases execAll bound verbosity ss (st.enterScope verbosity) with
    | none => rfl
    | some ending => exact leaveScope_draft ending verbosity
  | .literal v, st | .var x, st | .unary op e, st | .binary op l r, st | .absent, st => rfl

theorem execDrafts_drafts {bound : Nat} {verbosity : Int} : (ss : List Node) → (st : RunState) →
    execDrafts bound verbosity (drafts ss) st.draft =
      (execAll bound verbosity ss st).map Ending.draft
  | [], st => rfl
  | s :: rest, st => by
    rw [drafts, execDrafts, execAll, execDraft_draft s]
    exact andThen_draft _ (execDrafts_drafts rest)

end

theorem length_drafts (ss : List Node) : (drafts ss).length = ss.length := by
  induction ss with
  | nil => rfl
  | cons s rest ih => simp [drafts, ih]

/-- **The drafts of a program run as the program does.** -/
theorem runDrafts_drafts (bound : Nat) (verbosity : Int) (p : List Node) (st : RunState) :
    runDrafts bound verbosity (drafts p) st.draft =
      (run bound verbosity p st).map Ending.draft := by
  have hline : lineOf
      [.words ("run fragment: " ++ Nat.repr (drafts p).length ++ " statement(s)")] =
        .ok (Event.message (.started p.length)) := by
    rw [length_drafts]
    exact lineOf_words _
  exact (record_draft hline st _).trans (execDrafts_drafts p _)

end BlockScript
