/-
  BlockScript — documents that describe no program.

  A document describes a program if its statements and expressions are in their
  places, every part but an alternative is there, and the values of its
  literals can be read.  Such a document is loaded and run.  The command that
  runs it ends with status zero or one, unless the data in it cannot be used as
  the names and texts that they stand for; strings of characters always can.

  Not every other document is refused.  Two reasons why a literal cannot be
  read are not reported, and loading does not look at the places of the parts,
  so that a document with a misplaced part is run up to that part.

  * `ExpressionDocument`, `StatementDocument`, `ProgramDocument`: documents by
    what they describe;
  * `ProgramDocument.loads`: they are loaded as drafts whose parts are in their
    places;
  * `Handled`: what is asked of the command that runs a file;
  * `handled_iff`: the files for which it does what is asked.
-/
import BlockScript.Proofs.Draft.Sorts
import BlockScript.Proofs.Saved

namespace BlockScript

/-! ## Documents -/

/-- The value of a field of a document. -/
def Raw.part? (j : Raw) (key : String) : Option Raw :=
  j.field? (.of key)

/-- Whether a document is an object of the given type. -/
def Raw.HasType (j : Raw) (type : String) : Prop :=
  j.part? "type" = some (.str (.of type))

/-- The document of an expression.  A name or an operator may be any value. -/
inductive ExpressionDocument : Raw → Prop where
  | literal {j v : Raw} {value : DraftValue} (type : j.HasType "Literal")
      (hv : j.part? "value" = some v) (h : DraftValue.load v = .ok value) : ExpressionDocument j
  | var {j x : Raw} (type : j.HasType "Variable") (hx : j.part? "name" = some x) :
      ExpressionDocument j
  | unary {j op e : Raw} (type : j.HasType "UnaryOp") (hop : j.part? "op" = some op)
      (he : j.part? "operand" = some e) (h : ExpressionDocument e) : ExpressionDocument j
  | binary {j op l r : Raw} (type : j.HasType "BinaryOp") (hop : j.part? "op" = some op)
      (hl : j.part? "left" = some l) (hr : j.part? "right" = some r)
      (left : ExpressionDocument l) (right : ExpressionDocument r) : ExpressionDocument j

/-- The document of a statement.  Only the alternative of a branch may be
    missing, or null. -/
inductive StatementDocument : Raw → Prop where
  | expr {j e : Raw} (type : j.HasType "ExprStmt") (he : j.part? "expr" = some e)
      (h : ExpressionDocument e) : StatementDocument j
  | assign {j x e : Raw} (type : j.HasType "Assign") (hx : j.part? "name" = some x)
      (he : j.part? "value" = some e) (h : ExpressionDocument e) : StatementDocument j
  | print {j e : Raw} (type : j.HasType "PrintStmt") (he : j.part? "expr" = some e)
      (h : ExpressionDocument e) : StatementDocument j
  | cond {j c t : Raw} (type : j.HasType "IfStmt") (hc : j.part? "condition" = some c)
      (ht : j.part? "then_branch" = some t) (test : ExpressionDocument c)
      (body : StatementDocument t)
      (other : ∀ e, j.part? "else_branch" = some e → e ≠ .null → StatementDocument e) :
      StatementDocument j
  | loop {j c b : Raw} (type : j.HasType "WhileStmt") (hc : j.part? "condition" = some c)
      (hb : j.part? "body" = some b) (test : ExpressionDocument c)
      (body : StatementDocument b) : StatementDocument j
  | block {j : Raw} {items : List Raw} (type : j.HasType "Block")
      (hs : j.part? "statements" = some (.arr items))
      (body : ∀ s ∈ items, StatementDocument s) : StatementDocument j

/-- The document of a program. -/
inductive ProgramDocument : Raw → Prop where
  | program {j : Raw} {items : List Raw} (type : j.HasType "Program")
      (hs : j.part? "body" = some (.arr items)) (body : ∀ s ∈ items, StatementDocument s) :
      ProgramDocument j

/-! ## Loading -/

theorem fields_of_part? {j v : Raw} {key : String} (h : j.part? key = some v) :
    ∃ fields, j = .obj fields := by
  cases j with
  | obj fields => exact ⟨fields, rfl⟩
  | _ => cases h

theorem ExpressionDocument.loads {j : Raw} (h : ExpressionDocument j) :
    ∃ e, Draft.load j = .ok e ∧ e.Evaluable := by
  induction h with
  | @literal j v value type hv h =>
    obtain ⟨fields, rfl⟩ := fields_of_part? type
    simp only [Raw.HasType, Raw.part?, Datum.field?] at type hv
    refine ⟨.literal value, ?_, .literal⟩
    simp [Draft.load, optionalField, needField, type, hv, h]
  | @var j x type hx =>
    obtain ⟨fields, rfl⟩ := fields_of_part? type
    simp only [Raw.HasType, Raw.part?, Datum.field?] at type hx
    refine ⟨.var x, ?_, .var⟩
    simp [Draft.load, optionalField, needField, type, hx]
  | @unary j op e type hop he _ ih =>
    obtain ⟨fields, rfl⟩ := fields_of_part? type
    obtain ⟨e', hload, hsort⟩ := ih
    simp only [Raw.HasType, Raw.part?, Datum.field?] at type hop he
    refine ⟨.unary op e', ?_, .unary hsort⟩
    simp [Draft.load, optionalField, needField, loadAt_of_lookup he, type, hop, hload]
  | @binary j op l r type hop hl hr _ _ ihl ihr =>
    obtain ⟨fields, rfl⟩ := fields_of_part? type
    obtain ⟨l', hloadl, hsortl⟩ := ihl
    obtain ⟨r', hloadr, hsortr⟩ := ihr
    simp only [Raw.HasType, Raw.part?, Datum.field?] at type hop hl hr
    refine ⟨.binary op l' r', ?_, .binary hsortl hsortr⟩
    simp [Draft.load, optionalField, needField, loadAt_of_lookup hl, loadAt_of_lookup hr, type, hop,
      hloadl, hloadr]

/-- Items that are loaded one by one are loaded together. -/
theorem exists_loadList {items : List Raw}
    (h : ∀ j ∈ items, ∃ s, Draft.load j = .ok s ∧ s.Executable) :
    ∃ ss, loadList items = .ok ss ∧ ∀ s ∈ ss, s.Executable := by
  induction items with
  | nil => exact ⟨[], by rw [loadList], by simp⟩
  | cons j rest ih =>
    obtain ⟨hfirst, hrest⟩ := List.forall_mem_cons.1 h
    obtain ⟨s, hload, hsort⟩ := hfirst
    obtain ⟨ss, hloads, hsorts⟩ := ih hrest
    refine ⟨s :: ss, ?_, List.forall_mem_cons.2 ⟨hsort, hsorts⟩⟩
    simp [loadList, hload, hloads]

theorem StatementDocument.loads {j : Raw} (h : StatementDocument j) :
    ∃ s, Draft.load j = .ok s ∧ s.Executable := by
  induction h with
  | @expr j e type he h =>
    obtain ⟨fields, rfl⟩ := fields_of_part? type
    obtain ⟨e', hload, hsort⟩ := h.loads
    simp only [Raw.HasType, Raw.part?, Datum.field?] at type he
    refine ⟨.expr e', ?_, .expr hsort⟩
    simp [Draft.load, optionalField, loadAt_of_lookup he, type, hload]
  | @assign j x e type hx he h =>
    obtain ⟨fields, rfl⟩ := fields_of_part? type
    obtain ⟨e', hload, hsort⟩ := h.loads
    simp only [Raw.HasType, Raw.part?, Datum.field?] at type hx he
    refine ⟨.assign x e', ?_, .assign hsort⟩
    simp [Draft.load, optionalField, needField, loadAt_of_lookup he, type, hx, hload]
  | @print j e type he h =>
    obtain ⟨fields, rfl⟩ := fields_of_part? type
    obtain ⟨e', hload, hsort⟩ := h.loads
    simp only [Raw.HasType, Raw.part?, Datum.field?] at type he
    refine ⟨.print e', ?_, .print hsort⟩
    simp [Draft.load, optionalField, loadAt_of_lookup he, type, hload]
  | @cond j c t type hc ht test _ _ ihbody ihother =>
    obtain ⟨fields, rfl⟩ := fields_of_part? type
    obtain ⟨c', hloadc, hsortc⟩ := test.loads
    obtain ⟨t', hloadt, hsortt⟩ := ihbody
    simp only [Raw.HasType, Raw.part?, Datum.field?] at type hc ht ihother
    cases he : lookupField (.of "else_branch") fields with
    | none =>
      refine ⟨.cond c' t' .absent, ?_, .cond hsortc hsortt (by simp [Draft.isAbsent])⟩
      simp [Draft.load, optionalField, loadAt_of_lookup hc, loadAt_of_lookup ht, type, he, hloadc,
        hloadt]
    | some e =>
      -- an alternative is null, which is loaded as no tree, or a statement
      have hother : ∃ e', Draft.load e = .ok e' ∧ (e'.isAbsent = false → e'.Executable) := by
        cases e with
        | null => exact ⟨.absent, by rw [Draft.load], by simp [Draft.isAbsent]⟩
        | _ =>
          obtain ⟨e', hload, hsort⟩ := ihother _ he (by simp)
          exact ⟨e', hload, fun _ => hsort⟩
      obtain ⟨e', hloade, hsorte⟩ := hother
      refine ⟨.cond c' t' e', ?_, .cond hsortc hsortt hsorte⟩
      simp [Draft.load, optionalField, loadAt_of_lookup hc, loadAt_of_lookup ht,
        loadAt_of_lookup he, type, he, hloadc, hloadt, hloade]
  | @loop j c b type hc hb test _ ih =>
    obtain ⟨fields, rfl⟩ := fields_of_part? type
    obtain ⟨c', hloadc, hsortc⟩ := test.loads
    obtain ⟨b', hloadb, hsortb⟩ := ih
    simp only [Raw.HasType, Raw.part?, Datum.field?] at type hc hb
    refine ⟨.loop c' b', ?_, .loop hsortc hsortb⟩
    simp [Draft.load, optionalField, loadAt_of_lookup hc, loadAt_of_lookup hb, type, hloadc, hloadb]
  | @block j items type hs _ ih =>
    obtain ⟨fields, rfl⟩ := fields_of_part? type
    obtain ⟨ss, hload, hsort⟩ := exists_loadList ih
    simp only [Raw.HasType, Raw.part?, Datum.field?] at type hs
    refine ⟨.block ss, ?_, .block hsort⟩
    simp [Draft.load, optionalField, loadListAt_of_lookup hs, type, hload]

/-- **The document of a program is loaded**, as statements whose parts are in
    their places. -/
theorem ProgramDocument.loads {j : Raw} (h : ProgramDocument j) :
    ∃ p, loadDrafts j = .ok p ∧ ∀ s ∈ p, s.Executable := by
  obtain ⟨type, hs, body⟩ := h
  obtain ⟨fields, rfl⟩ := fields_of_part? type
  obtain ⟨p, hload, hsort⟩ := exists_loadList fun s hs => (body s hs).loads
  simp only [Raw.HasType, Raw.part?, Datum.field?] at type hs
  refine ⟨p, ?_, hsort⟩
  simp [loadDrafts, optionalField, loadListAt_of_lookup hs, type, hload]

/-! ## Commands -/

/-- What the text of a file is loaded as. -/
def LoadsAs (text : String) (p : List Draft) : Prop :=
  ∃ document, Raw.read (unifyLineEnds text) = .ok document ∧ loadDrafts document = .ok p

/-- The text of a file describes a program. -/
def DescribesProgram (text : String) : Prop :=
  ∃ document, Raw.read (unifyLineEnds text) = .ok document ∧ ProgramDocument document

/-- The names, the operators and the texts that a file is loaded with are
    strings of characters. -/
def IsSpelled (text : String) : Prop :=
  ∃ p, LoadsAs text (drafts p)

/-- No run of what a file is loaded as fails because of its data. -/
def Harmless (text : String) : Prop :=
  ∀ p bound ending m, LoadsAs text p → runDrafts bound 0 p DraftState.new = some ending →
    ending.fault ≠ some (.mishap m)

/-- The text of a file is no document, or one that is not loaded for a reason
    that is reported: any but that the value of a literal is not an object, or an
    integer beyond every floating-point number. -/
def Refusable (text : String) : Prop :=
  (∃ e, Raw.read (unifyLineEnds text) = .error e) ∨
    ∃ document e, Raw.read (unifyLineEnds text) = .ok document ∧
      loadDrafts document = .error e ∧ (∀ v, e ≠ .notValue v) ∧ e ≠ .integerTooLarge

/-- The text of a file is loaded as a program whose run has no ending. -/
def Endless (text : String) : Prop :=
  ∃ p, LoadsAs text p ∧ ∀ bound, runDrafts bound 0 p DraftState.new = none

/-- A command refuses the document with a path: it ends with status one, names
    the document on the error output, and has printed nothing. -/
structure Report.Refuses (report : Report) (path : Path) : Prop where
  ending : report.ending = .exited 1
  errors : ∃ reason,
    report.errors = "Error: invalid AST file " ++ path.text ++ ": " ++ reason ++ "\n"
  output : report.output = ""

/-- What is asked of the command that runs the file `f`, which holds `text`:
    whenever it ends, it ends with status zero or one, and refuses a text that
    describes no program. -/
def Handled (store : Store) (input f text : String) : Prop :=
  ∀ bound report, perform bound ["--ast", f] store input = some report →
    (report.ending = .exited 0 ∨ report.ending = .exited 1) ∧
      (¬ DescribesProgram text → report.Refuses (Path.of f))

theorem isReported_iff (e : LoadError) :
    e.isReported = true ↔ (∀ v, e ≠ .notValue v) ∧ e ≠ .integerTooLarge := by
  cases e <;> simp [LoadError.isReported]

/-- What can become of a text: it is refusable, breaks the command, or is loaded. -/
theorem text_cases (text : String) :
    Refusable text ∨
      (∃ document e, Raw.read (unifyLineEnds text) = .ok document ∧
        loadDrafts document = .error e ∧ e.isReported = false) ∨
      ∃ p, LoadsAs text p := by
  cases hread : Raw.read (unifyLineEnds text) with
  | error e => exact Or.inl (Or.inl ⟨e, hread⟩)
  | ok document =>
    cases hload : loadDrafts document with
    | error e =>
      by_cases hreported : e.isReported = true
      · exact Or.inl (Or.inr ⟨document, e, hread, hload, (isReported_iff e).1 hreported⟩)
      · exact Or.inr (Or.inl ⟨document, e, rfl, hload, by simpa using hreported⟩)
    | ok p => exact Or.inr (Or.inr ⟨p, document, hread, hload⟩)

theorem LoadsAs.unique {text : String} {p q : List Draft} (hp : LoadsAs text p)
    (hq : LoadsAs text q) : p = q := by
  obtain ⟨document, hread, hload⟩ := hp
  obtain ⟨document', hread', hload'⟩ := hq
  cases hread.symm.trans hread'
  exact Except.ok.inj (hload.symm.trans hload')

/-- A text that describes a program is loaded as drafts whose parts are in their
    places. -/
theorem DescribesProgram.executable {text : String} {p : List Draft} (h : DescribesProgram text)
    (hp : LoadsAs text p) : ∀ s ∈ p, s.Executable := by
  obtain ⟨document, hread, hdocument⟩ := h
  obtain ⟨q, hload, hsort⟩ := hdocument.loads
  rwa [hp.unique ⟨document, hread, hload⟩]

/-- Strings of characters can be used as names and texts. -/
theorem harmless_of_isSpelled {text : String} (h : DescribesProgram text)
    (hspelled : IsSpelled text) : Harmless text := by
  obtain ⟨p, hp⟩ := hspelled
  intro q bound ending m hq hrun hfault
  obtain rfl := hq.unique hp
  cases runDrafts_drafts_kind (h.executable hp) hrun hfault

/-- A name that the command line does not take as one is a misuse of it. -/
theorem perform_load_misuse {f : String} (hf : Word.of f ≠ .plain) (bound : Nat) (store : Store)
    (input : String) :
    perform bound ["--ast", f] store input = some ⟨.usage, "", "", store⟩ := by
  have hread : Request.read ["--ast", f] = .misuse := by
    unfold Request.read
    split
    · rfl
    · unfold Request.readFrom
      simp only [word_load, hf, if_false]
  simp only [perform, hread]

section

variable {output : String} {lines : Array String} {f : Fault} {store : Store}

/-- The report of a run that fails with no error of the program. -/
theorem ofRun_crashed (hf : f.kind? = none) :
    (Report.ofRun output lines (some f) store).ending = .crashed (.run f) := by
  simp [Report.ofRun, Fault.report?, hf]

/-- A run ends the command with status zero or one if no fault but an error of
    the program ends it. -/
theorem ofRun_exited {fault : Option Fault}
    (h : ∀ f, fault = some f → f.kind?.isSome = true) :
    (Report.ofRun output lines fault store).ending = .exited 0 ∨
      (Report.ofRun output lines fault store).ending = .exited 1 := by
  cases fault with
  | none => exact Or.inl rfl
  | some f =>
    obtain ⟨kind, hkind⟩ := Option.isSome_iff_exists.1 (h f rfl)
    simp [Report.ofRun, Fault.report?, hkind]

/-- The report of a run says nothing of an invalid document. -/
theorem ofRun_not_refuses (fault : Option Fault) (path : Path) :
    ¬ (Report.ofRun output lines fault store).Refuses path := by
  rintro ⟨hending, ⟨reason, herrors⟩, -⟩
  have hhead := congrArg (fun s => s.toList.head?) herrors
  cases fault with
  | none => simp [Report.ofRun] at hending
  | some f =>
    cases hr : f.report? with
    | none => simp [Report.ofRun, hr] at hending
    | some report => simp [Report.ofRun, hr, String.toList_append] at hhead

end

theorem refused_refuses (path : Path) (reason : String) (store : Store) :
    (Report.refused ("invalid AST file " ++ path.text ++ ": " ++ reason) store).Refuses path := by
  refine ⟨rfl, ⟨reason, ?_⟩, rfl⟩
  have hstart : "Error: invalid AST file " = "Error: " ++ "invalid AST file " := by decide
  simp only [Report.refused, hstart, String.append_assoc]

section Handled

variable {store : Store} {f text : String} {place : Path}
  (hfile : store.get? (Path.of f) = some (place, text))
include hfile

/-- What is done with a text that is refusable. -/
theorem refuses_of_refusable {settings : Settings} {report : Report} (htext : Refusable text)
    (h : performLoad settings f store = some report) : report.Refuses (Path.of f) := by
  simp only [performLoad, withFile, hfile] at h
  rcases htext with ⟨e, hread⟩ | ⟨document, e, hread, hload, hreported⟩
  · simp only [hread, Option.some.injEq] at h
    subst h
    exact refused_refuses _ _ store
  · simp only [hread, hload, (isReported_iff e).2 hreported, if_true, Option.some.injEq] at h
    subst h
    exact refused_refuses _ _ store

/-- A text that is loaded is run. -/
theorem performLoad_of_loads {settings : Settings} {p : List Draft} (h : LoadsAs text p) :
    performLoad settings f store = runLoaded settings p store := by
  obtain ⟨document, hread, hload⟩ := h
  simp only [performLoad, withFile, hfile, hread, hload]

/-- A text that is neither refusable nor loaded breaks the command. -/
theorem performLoad_crashed {settings : Settings} {document : Raw} {e : LoadError}
    (hread : Raw.read (unifyLineEnds text) = .ok document)
    (hload : loadDrafts document = .error e) (hreported : e.isReported = false) :
    performLoad settings f store = some ⟨.crashed (.load e), "", "", store⟩ := by
  simp only [performLoad, withFile, hfile, hread, hload, hreported, Bool.false_eq_true, if_false]

/-- The report of the command on a run that ends. -/
theorem perform_of_run {p : List Draft} {bound : Nat} {ending : DraftEnding}
    (hword : Word.of f = .plain) (hne : f ≠ "") (hp : LoadsAs text p)
    (hrun : runDrafts bound 0 p DraftState.new = some ending) (input : String) :
    perform bound ["--ast", f] store input = some (Report.ofDraft ending store) := by
  rw [perform_load hword hne, performLoad_of_loads hfile hp]
  exact congrArg (Option.map (Report.ofDraft · store)) hrun

/-- A text that is loaded and handled describes a program, unless its run never
    ends: an ending is reported as that of a run, and not refused. -/
theorem describes_of_handled {input : String} {p : List Draft} (hword : Word.of f = .plain)
    (hne : f ≠ "") (h : Handled store input f text) (hp : LoadsAs text p) :
    DescribesProgram text ∨ Endless text := by
  by_cases hdescribes : DescribesProgram text
  · exact Or.inl hdescribes
  · refine Or.inr ⟨p, hp, fun bound => ?_⟩
    cases hrun : runDrafts bound 0 p DraftState.new with
    | none => rfl
    | some ending =>
      obtain ⟨-, hrefuses⟩ := h bound _ (perform_of_run hfile hword hne hp hrun input)
      exact absurd (hrefuses hdescribes) (ofRun_not_refuses ending.fault _)

/-- A text that is handled is harmless: the command does not handle mishaps. -/
theorem harmless_of_handled {input : String} (hword : Word.of f = .plain) (hne : f ≠ "")
    (h : Handled store input f text) : Harmless text := by
  intro p bound ending m hp hrun hfault
  have hcrashed : (Report.ofDraft ending store).ending = .crashed (.run (.mishap m)) := by
    rw [Report.ofDraft, hfault]
    exact ofRun_crashed rfl
  obtain ⟨hending | hending, -⟩ := h bound _ (perform_of_run hfile hword hne hp hrun input) <;>
    cases hcrashed.symm.trans hending

/-- A harmless text that describes a program is loaded, and its run ends the
    command with status zero or one. -/
theorem exited_of_describes {bound : Nat} {report : Report} (hdescribes : DescribesProgram text)
    (hharmless : Harmless text)
    (h : performLoad (Options.default.settings bound) f store = some report) :
    report.ending = .exited 0 ∨ report.ending = .exited 1 := by
  obtain ⟨document, hread, hdocument⟩ := hdescribes
  obtain ⟨p, hload, hp⟩ := hdocument.loads
  have hloads : LoadsAs text p := ⟨document, hread, hload⟩
  rw [performLoad_of_loads hfile hloads] at h
  obtain ⟨ending, hrun, rfl⟩ := Option.map_eq_some_iff.1 h
  refine ofRun_exited fun fault hfault => ?_
  rcases runDrafts_regular hp hrun hfault with hkind | ⟨m, rfl⟩
  · exact hkind
  · exact absurd hfault (hharmless p bound ending m hloads hrun)

/-- **A document is handled as asked exactly if** its name is taken as that of a
    file, and its text describes a program and no run of it fails because of its
    data, or cannot be loaded for a reason that is reported, or is loaded as a
    program that never ends.  Any other text breaks the command while it is loaded
    or run, or is run although it describes no program.  The data of a program
    never fail if they are strings of characters. -/
theorem handled_iff (input : String) (hne : f ≠ "") :
    (Handled store input f text ↔
      Word.of f = .plain ∧
        (DescribesProgram text ∧ Harmless text ∨ Refusable text ∨ Endless text)) ∧
      (DescribesProgram text → IsSpelled text → Harmless text) := by
  refine ⟨⟨fun h => ?_, ?_⟩, harmless_of_isSpelled⟩
  · by_cases hword : Word.of f = .plain
    · refine ⟨hword, ?_⟩
      rcases text_cases text with hrefusable | ⟨document, e, hread, hload, hreported⟩ | ⟨p, hp⟩
      · exact Or.inr (Or.inl hrefusable)
      · have hreport := perform_load hword hne 0 store input
        rw [performLoad_crashed hfile hread hload hreported] at hreport
        obtain ⟨hending | hending, -⟩ := h 0 _ hreport <;> cases hending
      · exact (describes_of_handled hfile hword hne h hp).imp
          (⟨·, harmless_of_handled hfile hword hne h⟩) Or.inr
    · obtain ⟨hending | hending, -⟩ := h 0 _ (perform_load_misuse hword 0 store input) <;>
        cases hending
  · rintro ⟨hword, htext⟩ bound report hreport
    rw [perform_load hword hne] at hreport
    rcases htext with ⟨hdescribes, hharmless⟩ | hrefusable | ⟨p, hp, hendless⟩
    · exact ⟨exited_of_describes hfile hdescribes hharmless hreport,
        fun hnot => absurd hdescribes hnot⟩
    · have hrefuses := refuses_of_refusable hfile hrefusable hreport
      exact ⟨Or.inr hrefuses.ending, fun _ => hrefuses⟩
    · rw [performLoad_of_loads hfile hp] at hreport
      obtain ⟨ending, hrun, -⟩ := Option.map_eq_some_iff.1 hreport
      cases (hendless bound).symm.trans hrun

end Handled

/-- A branch on null, which is no truth value, without an alternative. -/
def nullBranch : List Node := [.cond (.literal .null) (.block []) .absent]

theorem handled_iff_nullBranch :
    Store.get? [(Path.of "d/p", (programToJson nullBranch).write)] (Path.of "d/p") =
        some (Path.of "d/p", (programToJson nullBranch).write) ∧
      DescribesProgram (programToJson nullBranch).write ∧
      IsSpelled (programToJson nullBranch).write ∧
      Handled [(Path.of "d/p", (programToJson nullBranch).write)] "" "d/p"
        (programToJson nullBranch).write := by
  have hfile : Store.get? [(Path.of "d/p", (programToJson nullBranch).write)] (Path.of "d/p") =
      some (Path.of "d/p", (programToJson nullBranch).write) := by
    simp [Store.get?, Store.resolve?, Store.find?]
  have hstorable : (programToJson nullBranch).Storable :=
    storable_programToJson (by simp [nullBranch, Node.numbers, programNumbers])
  have hread : Raw.read (unifyLineEnds (programToJson nullBranch).write) =
      .ok (programToJson nullBranch).raw := by
    rw [Json.unifyLineEnds_write hstorable, Json.read_eq_ok_iff.1 (Json.read_write hstorable)]
  have hspelled : IsSpelled (programToJson nullBranch).write :=
    ⟨nullBranch, _, hread, loadProgram_eq_ok_iff.1 (loadProgram_programToJson nullBranch)⟩
  have hdescribes : DescribesProgram (programToJson nullBranch).write := by
    refine ⟨_, hread, .program rfl rfl ?_⟩
    intro s hs
    obtain rfl := List.mem_singleton.1 hs
    refine .cond rfl rfl rfl (.literal rfl rfl rfl)
      (.block rfl rfl (by simp [nodesToJson, rawItems])) ?_
    rintro e ⟨⟩ hnull
    exact absurd rfl hnull
  obtain ⟨hiff, hharmless⟩ := handled_iff hfile "" (by decide)
  exact ⟨hfile, hdescribes, hspelled,
    hiff.2 ⟨by decide, Or.inl ⟨hdescribes, hharmless hdescribes hspelled⟩⟩⟩

/-- The exit status of a command, if it ends with one, and what it printed. -/
def Report.outcome (report : Report) : Option Nat × String :=
  match report.ending with
  | .exited status => (some status, report.output)
  | _ => (none, report.output)

theorem not_handled_of_outcome {store : Store} {input f text output : String} {bound : Nat}
    (h : (perform bound ["--ast", f] store input).map Report.outcome = some (none, output)) :
    ¬ Handled store input f text := by
  intro hhandled
  obtain ⟨report, hreport, houtcome⟩ := Option.map_eq_some_iff.1 h
  obtain ⟨hending | hending, -⟩ := hhandled bound report hreport <;>
    simp [Report.outcome, hending] at houtcome

/-- A document that prints one expression. -/
def printingDocument (expression : String) : String :=
  "\x7b\"type\":\"Program\",\"body\":[\x7b\"type\":\"PrintStmt\",\"expr\":" ++ expression ++
    "\x7d]\x7d"

/-- A literal with a text, given by any value. -/
def stringLiteral (content : String) : String :=
  "\x7b\"type\":\"Literal\",\"value\":\x7b\"kind\":\"String\",\"value\":" ++ content ++
    "\x7d\x7d"

/-- A literal whose value is an integer and not an object. -/
def bareLiteral : String :=
  printingDocument "\x7b\"type\":\"Literal\",\"value\":5\x7d"

/-- A statement that prints, and null in the place of the next one. -/
def strayNull : String :=
  "\x7b\"type\":\"Program\",\"body\":[\x7b\"type\":\"PrintStmt\"," ++
    "\"expr\":\x7b\"type\":\"Literal\",\"value\":\x7b\"kind\":\"Null\"\x7d\x7d\x7d,null]\x7d"

/-- The sum of two texts of which the first is given by an integer. -/
def mixedSum : String :=
  printingDocument ("\x7b\"type\":\"BinaryOp\",\"op\":\"+\",\"left\":" ++ stringLiteral "5" ++
    ",\"right\":" ++ stringLiteral "\"a\"" ++ "\x7d")

/-- A text that is a lone surrogate. -/
def loneSurrogate : String :=
  printingDocument (stringLiteral "\"\\ud800\"")

/-- The first document breaks the command while it is loaded, the second one
    after it has printed, and the other two, whose parts are in their places,
    because of their data. -/
theorem not_handled_brokenDocuments :
    (perform 0 ["--ast", "x.json"] [(Path.of "x.json", bareLiteral)] "").map Report.outcome =
        some (none, "") ∧
      ¬ Handled [(Path.of "x.json", bareLiteral)] "" "x.json" bareLiteral ∧
      (perform 0 ["--ast", "x.json"] [(Path.of "x.json", strayNull)] "").map Report.outcome =
        some (none, "null\n") ∧
      ¬ Handled [(Path.of "x.json", strayNull)] "" "x.json" strayNull ∧
      ¬ Handled [(Path.of "x.json", mixedSum)] "" "x.json" mixedSum ∧
      ¬ Handled [(Path.of "x.json", loneSurrogate)] "" "x.json" loneSurrogate := by
  have hbare : (perform 0 ["--ast", "x.json"] [(Path.of "x.json", bareLiteral)] "").map
      Report.outcome = some (none, "") := by
    decide +kernel
  have hstray : (perform 0 ["--ast", "x.json"] [(Path.of "x.json", strayNull)] "").map
      Report.outcome = some (none, "null\n") := by
    decide +kernel
  have hmixed : (perform 0 ["--ast", "x.json"] [(Path.of "x.json", mixedSum)] "").map
      Report.outcome = some (none, "") := by
    decide +kernel
  have hlone : (perform 0 ["--ast", "x.json"] [(Path.of "x.json", loneSurrogate)] "").map
      Report.outcome = some (none, "") := by
    decide +kernel
  exact ⟨hbare, not_handled_of_outcome hbare, hstray, not_handled_of_outcome hstray,
    not_handled_of_outcome hmixed, not_handled_of_outcome hlone⟩

end BlockScript
