/-
  BlockScript — running a saved program.

  A program is saved as a document beside its source.  Running the document
  does what running the source does, provided that the numbers of the program
  are read back from their texts.

  * `programNumbers`: the numbers that a program holds;
  * `storable_programToJson`: a document of a program is read back;
  * `Report.seen`: how a command ends and what it writes;
  * `saved_runs_alike`: saving and running the document against running the
    source.
-/
import BlockScript.Command.Report
import BlockScript.Proofs.Draft
import BlockScript.Proofs.Json
import BlockScript.Proofs.Store

namespace BlockScript

/-! ## Documents of programs -/

mutual

/-- The numbers in a tree. -/
def Node.numbers : Node → List Float
  | .literal (.number x) => [x]
  | .literal _ | .var _ | .absent => []
  | .unary _ e | .expr e | .assign _ e | .print e => e.numbers
  | .binary _ l r => l.numbers ++ r.numbers
  | .cond c t e => c.numbers ++ t.numbers ++ e.numbers
  | .loop c b => c.numbers ++ b.numbers
  | .block ss => programNumbers ss

/-- The numbers in a list of trees. -/
def programNumbers : List Node → List Float
  | [] => []
  | s :: rest => s.numbers ++ programNumbers rest

end

theorem storable_value {v : Value} (h : ∀ x ∈ (Node.literal v).numbers, ReadsBack x) :
    v.toJson.Storable := by
  cases v with
  | number x =>
    have hx := h x (by simp [Node.numbers])
    simp [Value.toJson, Json.Storable, FieldsStorable, hx]
  | boolean | string | null => simp [Value.toJson, Json.Storable, FieldsStorable]

mutual

theorem storable_toJson : (n : Node) → (∀ x ∈ n.numbers, ReadsBack x) → n.toJson.Storable
  | .literal v => fun h => by
    have hv := storable_value h
    simp [Node.toJson, Json.Storable, FieldsStorable, hv]
  | .var x => fun _ => by simp [Node.toJson, Json.Storable, FieldsStorable]
  | .unary op e | .expr e | .assign x e | .print e => fun h => by
    have he := storable_toJson e h
    simp [Node.toJson, Json.Storable, FieldsStorable, he]
  | .binary op l r => fun h => by
    simp only [Node.numbers, List.forall_mem_append] at h
    have hl := storable_toJson l h.1
    have hr := storable_toJson r h.2
    simp [Node.toJson, Json.Storable, FieldsStorable, hl, hr]
  | .cond c t e => fun h => by
    simp only [Node.numbers, List.forall_mem_append] at h
    have hc := storable_toJson c h.1.1
    have ht := storable_toJson t h.1.2
    have he := storable_toJson e h.2
    simp [Node.toJson, Json.Storable, FieldsStorable, hc, ht, he]
  | .loop c b => fun h => by
    simp only [Node.numbers, List.forall_mem_append] at h
    have hc := storable_toJson c h.1
    have hb := storable_toJson b h.2
    simp [Node.toJson, Json.Storable, FieldsStorable, hc, hb]
  | .block ss => fun h => by
    have hss := storable_nodesToJson ss h
    simp [Node.toJson, Json.Storable, FieldsStorable, hss]
  | .absent => fun _ => by simp [Node.toJson, Json.Storable]

theorem storable_nodesToJson : (ss : List Node) → (∀ x ∈ programNumbers ss, ReadsBack x) →
    ItemsStorable (nodesToJson ss)
  | [] => fun _ => by simp [nodesToJson, ItemsStorable]
  | s :: rest => fun h => by
    simp only [programNumbers, List.forall_mem_append] at h
    have hs := storable_toJson s h.1
    have hrest := storable_nodesToJson rest h.2
    simp [nodesToJson, ItemsStorable, hs, hrest]

end

/-- The document of a program is read back from its text. -/
theorem storable_programToJson {p : List Node} (h : ∀ x ∈ programNumbers p, ReadsBack x) :
    (programToJson p).Storable := by
  have hp := storable_nodesToJson p h
  simp [programToJson, Json.Storable, FieldsStorable, hp]

/-- The text of a document gives back the program. -/
theorem load_write_programToJson {p : List Node} (h : ∀ x ∈ programNumbers p, ReadsBack x) :
    ∃ j, Json.read (unifyLineEnds (programToJson p).write) = .ok j ∧ loadProgram j = .ok p := by
  have hstorable := storable_programToJson h
  refine ⟨programToJson p, ?_, loadProgram_programToJson p⟩
  rw [Json.unifyLineEnds_write hstorable, Json.read_write hstorable]

/-! ## Command lines -/

/-- The words that choose a way of parsing, if one is chosen. -/
def choiceWords : Option Strategy → List String
  | none => []
  | some s => ["--parser", s.name]

/-- The options of a choice alone. -/
def Options.ofChoice (choice : Option Strategy) : Options :=
  { Options.default with strategy := choice.getD .descent }

/-- Words of which none fits several options are read from the left. -/
theorem read_of_unambiguous {words : List String} (h : ∀ w ∈ words, Word.of w ≠ .ambiguous) :
    Request.read words = Request.readFrom Options.default false words := by
  refine if_neg fun hany => ?_
  obtain ⟨w, hw, heq⟩ := List.any_eq_true.1 hany
  exact h w ((List.takeWhile_sublist _).subset hw) (by simpa using heq)

theorem read_choiceWords (choice : Option Strategy) {words : List String}
    (h : ∀ w ∈ words, Word.of w ≠ .ambiguous) :
    Request.read (choiceWords choice ++ words) =
      Request.readFrom (Options.ofChoice choice) false words := by
  have hchoice : ∀ w ∈ choiceWords choice, Word.of w ≠ .ambiguous := by
    rcases choice with _ | (_ | _) <;> decide
  rw [read_of_unambiguous (List.forall_mem_append.2 ⟨hchoice, h⟩)]
  rcases choice with _ | (_ | _) <;> rfl

/-- A text that the command line takes as the name of a program, and whose
    document it takes as one. -/
structure NamesProgram (f : String) : Prop where
  endsInName : EndsInName f
  source : Word.of f = .plain
  document : Word.of (f ++ documentEnding) = .plain

theorem NamesProgram.ne_empty {f : String} (h : NamesProgram f) : f ≠ "" := by
  obtain ⟨folder, name, rfl, -, -, hname⟩ := h.endsInName
  intro heq
  exact hname (by simp [(String.append_eq_empty_iff.1 heq).2])

theorem nonEmpty?_of_ne {s : String} (h : s ≠ "") : nonEmpty? (some s) = some s := by
  simp [nonEmpty?, Option.filter, h]

theorem word_load : Word.of "--ast" = .setting .load none := by
  decide

theorem word_emit : Word.of "--emit-ast" = .setting .emit none := by
  decide

/-- A document that the command line takes as the name of a file is run. -/
theorem perform_load {f : String} (hf : Word.of f = .plain) (hne : f ≠ "") (bound : Nat)
    (store : Store) (input : String) :
    perform bound ["--ast", f] store input =
      performLoad (Options.default.settings bound) f store := by
  have hread : Request.read ["--ast", f] = .command { Options.default with load := some f } := by
    rw [read_of_unambiguous (by simp [word_load, hf])]
    unfold Request.readFrom
    simp only [word_load, hf, if_true]
    rfl
  simp only [perform, hread, Options.perform, nonEmpty?_of_ne hne]
  rfl

section

variable {f : String} (hf : NamesProgram f) (choice : Option Strategy) (bound : Nat)
  (store : Store) (input : String)
include hf

theorem perform_emit :
    perform bound (choiceWords choice ++ ["--emit-ast", f]) store input =
      performEmit ((Options.ofChoice choice).settings bound) f store := by
  have hread : Request.readFrom (Options.ofChoice choice) false ["--emit-ast", f] =
      .command { Options.ofChoice choice with emit := some f } := by
    unfold Request.readFrom
    simp only [word_emit, hf.source, if_true]
    rfl
  have hwords : ∀ w ∈ ["--emit-ast", f], Word.of w ≠ .ambiguous := by
    simp [word_emit, hf.source]
  simp only [perform, read_choiceWords choice hwords, hread, Options.perform,
    nonEmpty?_of_ne hf.ne_empty]
  rfl

theorem perform_source :
    perform bound (choiceWords choice ++ [f]) store input =
      withSource ((Options.ofChoice choice).settings bound) f store fun _ _ program =>
        runProgram ((Options.ofChoice choice).settings bound) program store := by
  have hread : Request.readFrom (Options.ofChoice choice) false [f] =
      .command { Options.ofChoice choice with program := some f } := by
    unfold Request.readFrom
    simp only [hf.source]
    rfl
  have hwords : ∀ w ∈ [f], Word.of w ≠ .ambiguous := by
    simp [hf.source]
  simp only [perform, read_choiceWords choice hwords, hread, Options.perform,
    nonEmpty?_of_ne hf.ne_empty]
  rfl

theorem perform_document :
    perform bound ["--ast", f ++ documentEnding] store input =
      performLoad (Options.default.settings bound) (f ++ documentEnding) store := by
  have hempty : f ++ documentEnding ≠ "" :=
    fun heq => hf.ne_empty (String.append_eq_empty_iff.1 heq).1
  exact perform_load hf.document hempty bound store input

end

/-! ## Saved programs -/

/-- How a command ends and what it writes, apart from files. -/
def Report.seen (report : Report) : CommandEnding × String × String :=
  (report.ending, report.output, report.errors)

theorem seen_ofEnding (ending : Ending) (store store' : Store) :
    (Report.ofEnding ending store).seen = (Report.ofEnding ending store').seen := by
  simp only [Report.ofEnding, Report.ofRun]
  split
  · rfl
  · split <;> rfl

/-- What a program does depends neither on the files nor on how it was parsed. -/
theorem seen_runProgram {settings settings' : Settings} (hbound : settings.bound = settings'.bound)
    (hverbosity : settings.verbosity = settings'.verbosity) (p : List Node)
    (store store' : Store) :
    (runProgram settings p store).map Report.seen =
      (runProgram settings' p store').map Report.seen := by
  simp only [runProgram, hbound, hverbosity, Option.map_map, Function.comp_def,
    seen_ofEnding _ store store']

/-- The drafts of a program do what the program does. -/
theorem runLoaded_drafts (settings : Settings) (p : List Node) (store : Store) :
    runLoaded settings (drafts p) store = runProgram settings p store := by
  rw [runLoaded, runProgram, ← new_draft, runDrafts_drafts, Option.map_map]
  rfl

/-- A document's ending is not the whole of a name that goes up. -/
theorem append_documentEnding_ne (name : String) : name ++ documentEnding ≠ ".." := by
  intro heq
  have hlength := congrArg String.length heq
  rw [String.length_append] at hlength
  have hending : documentEnding.length = 9 := by decide
  have hup : "..".length = 2 := by decide
  omega

/-- The program `p` in the file `f` is saved as a document that gives it back,
    and running the document does what running the file does. -/
def SavedAlike (choice : Option Strategy) (bound : Nat) (store : Store) (input f : String)
    (p : List Node) : Prop :=
  ∃ saved place document j,
    perform bound (choiceWords choice ++ ["--emit-ast", f]) store input = some saved ∧
    saved.ending = .exited 0 ∧
    saved.store.get? (Path.of (f ++ documentEnding)) = some (place, document) ∧
    Json.read (unifyLineEnds document) = .ok j ∧ loadProgram j = .ok p ∧
    (perform bound ["--ast", f ++ documentEnding] saved.store input).map Report.seen =
      (perform bound (choiceWords choice ++ [f]) store input).map Report.seen

/-- **Running a saved program does what running its source does**, if the
    command line takes the source and the document as names of files.  The
    numbers of the program have to be read back from their texts; its strings
    and names may hold any characters. -/
theorem saved_runs_alike (choice : Option Strategy) (bound : Nat) {store : Store}
    (input : String) {f text : String} {place : Path} {p : List Node} (hf : NamesProgram f)
    (hstore : store.Settled) (hfile : store.get? (Path.of f) = some (place, text))
    (hparse : (choice.getD .descent).parse (unifyLineEnds text) = .ok p)
    (hnumbers : ∀ x ∈ programNumbers p, ReadsBack x) :
    SavedAlike choice bound store input f p := by
  obtain ⟨hpath, hlast⟩ := hf.endsInName.path_append (show '/' ∉ documentEnding.toList by decide)
  obtain ⟨j, hread, hload⟩ := load_write_programToJson hnumbers
  have hbeside := Store.get?_put_withEnding hstore hfile hlast append_documentEnding_ne
    (programToJson p).write
  rw [← hpath] at hbeside
  refine ⟨⟨.exited 0, ((Path.of f).withEnding documentEnding).text ++ "\n", "",
    store.put (place.withEnding documentEnding) (programToJson p).write⟩, _, _, j, ?_, rfl,
    hbeside, hread, hload, ?_⟩
  · rw [perform_emit hf]
    simp only [performEmit, withSource, withFile, hfile, Options.settings, Options.ofChoice, hparse]
  · rw [perform_document hf, perform_source hf]
    simp only [performLoad, withSource, withFile, hfile, hbeside, Json.read_eq_ok_iff.1 hread,
      loadProgram_eq_ok_iff.1 hload, hparse, Options.settings, Options.ofChoice, runLoaded_drafts]
    exact seen_runProgram rfl rfl p _ store

/-- A source with a number, and characters in a string that are written as
    escapes. -/
def escapingSource : String := "print \"\\\t\x01😀\" + 0.1;\r\n"

theorem saved_runs_alike_detour :
    ∃ p, Strategy.pushdown.parse (unifyLineEnds escapingSource) = .ok p ∧
      programNumbers p = [0.1] ∧ ReadsBack 0.1 ∧ Store.Settled [(Path.of "d/p", escapingSource)] ∧
      SavedAlike (some .pushdown) 9 [(Path.of "d/p", escapingSource)] "" "d/../d/p" p := by
  have hparsed : (Strategy.pushdown.parse (unifyLineEnds escapingSource)).toOption.map
      programNumbers = some [0.1] := by
    decide +kernel
  have hreads : ReadsBack 0.1 := by decide +kernel
  have hstore : Store.Settled [(Path.of "d/p", escapingSource)] := by decide
  have hname : NamesProgram "d/../d/p" :=
    ⟨⟨"d/../d/", "p", by decide, Or.inr ⟨"d/../d", by decide⟩, by decide, by decide⟩,
      by decide, by decide⟩
  have hfile : Store.get? [(Path.of "d/p", escapingSource)] (Path.of "d/../d/p") =
      some (Path.of "d/p", escapingSource) := by
    decide
  cases hparse : Strategy.pushdown.parse (unifyLineEnds escapingSource) with
  | error e =>
    rw [hparse] at hparsed
    cases hparsed
  | ok p =>
    rw [hparse] at hparsed
    have hnumbers : programNumbers p = [0.1] := Option.some.inj hparsed
    refine ⟨p, rfl, hnumbers, hreads, hstore,
      saved_runs_alike (some .pushdown) 9 "" hname hstore hfile hparse ?_⟩
    rw [hnumbers]
    simpa using hreads

/-- A file named like a negative number, whose document is not named like one,
    and a file named with a slash at the end, whose document is looked for in
    a folder. -/
theorem not_savedAlike_oddNames :
    (Strategy.descent.parse "print 1;").toOption.isSome = true ∧
    (Store.get? [(Path.of "-5", "print 1;")] (Path.of "-5")).isSome = true ∧
    (¬ ∃ p, SavedAlike none 9 [(Path.of "-5", "print 1;")] "" "-5" p) ∧
    (Store.get? [(Path.of "a", "print 1;")] (Path.of "a/")).isSome = true ∧
    ¬ ∃ p, SavedAlike none 9 [(Path.of "a", "print 1;")] "" "a/" p := by
  refine ⟨by decide +kernel, by decide, ?_, by decide, ?_⟩
  · rintro ⟨p, saved, place, document, j, -, -, -, -, -, hseen⟩
    have hrun : (perform 9 ["-5"] [(Path.of "-5", "print 1;")] "").map Report.output =
        some "1.0\n" := by
      decide +kernel
    have hload : (perform 9 ["--ast", "-5" ++ documentEnding] saved.store "").map Report.output =
        some "" :=
      rfl
    have houtput := congrArg (Option.map fun seen => seen.2.1) hseen
    rw [Option.map_map, Option.map_map] at houtput
    exact absurd ((hload.symm.trans houtput).trans hrun) (by decide)
  · rintro ⟨p, saved, place, document, j, hsaved, -, hbeside, -⟩
    have hlost : (perform 9 ["--emit-ast", "a/"] [(Path.of "a", "print 1;")] "").map
        (fun saved => saved.store.get? (Path.of ("a/" ++ documentEnding))) = some none := by
      decide +kernel
    have hgot := congrArg (Option.map fun saved =>
      saved.store.get? (Path.of ("a/" ++ documentEnding))) hsaved
    rw [Option.map_some, hbeside] at hgot
    cases hlost.symm.trans hgot

end BlockScript
