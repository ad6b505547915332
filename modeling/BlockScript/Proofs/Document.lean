/-
  BlockScript — saved programs are lossless.

  Reading the document of a draft gives the draft back, whatever stands where
  in it and whatever its data are.  A document may also be written otherwise:
  with other fields, without an empty alternative, with a truth value or a text
  for a number.  Saving what such a document describes gives its normal form.

  * `load_document`: the document of a draft, read back;
  * `raw_programToJson`: the document of a program is that of its drafts;
  * `loadProgram_eq_ok_iff`: the documents that describe programs;
  * `normalForm?`: the document of what a document describes;
  * `document_lossless`: programs and drafts survive their documents, and a
    normal form is its own normal form.
-/
import BlockScript.Document

namespace BlockScript

/-! ## Fields -/

theorem loadAt_of_lookup {key : String} {fields : List (Text × Raw)} {v : Raw}
    (h : lookupField (.of key) fields = some v) : loadAt key fields = Draft.load v := by
  rw [loadAt]
  split
  · rename_i w hw
    cases h.symm.trans hw
    rfl
  · rename_i hw
    cases h.symm.trans hw

theorem loadListAt_of_lookup {key : String} {fields : List (Text × Raw)} {items : List Raw}
    (h : lookupField (.of key) fields = some (.arr items)) :
    loadListAt key fields = loadList items := by
  rw [loadListAt]
  split
  · rename_i items' hw
    cases h.symm.trans hw
    rfl
  · rename_i s hw
    cases h.symm.trans hw
  · rename_i parts hw
    cases h.symm.trans hw
  · rename_i v hne _ _ hw
    cases h.symm.trans hw
    exact absurd rfl (hne items)
  · rename_i hw
    cases h.symm.trans hw

@[simp] theorem word?_of (s : String) : Raw.word? (.str (.of s)) = some s :=
  Text.string?_of s

/-! ## Drafts -/

section

variable {α β : Type}

@[simp] theorem load_ok_bind (a : α) (f : α → Except LoadError β) : (.ok a >>= f) = f a :=
  rfl

@[simp] theorem load_map_ok (f : α → β) (a : α) :
    (f <$> (.ok a : Except LoadError α)) = .ok (f a) :=
  rfl

@[simp] theorem load_pure (a : α) : (pure a : Except LoadError α) = .ok a :=
  rfl

end

/-- The document of a value, read back. -/
theorem load_valueDocument (v : DraftValue) : DraftValue.load v.document = .ok v := by
  cases v <;>
    simp [DraftValue.document, tagged, DraftValue.load, optionalField, needField, lookupField,
      loadNumber, Raw.isTruthy]

mutual

/-- **The document of a draft, read back**, is the draft, whatever its parts
    are. -/
theorem load_document : (d : Draft) → Draft.load d.document = .ok d
  | .literal v => by
    simp [Draft.document, tagged, Draft.load, lookupField, optionalField, needField,
      load_valueDocument]
  | .var x => by
    simp [Draft.document, tagged, Draft.load, lookupField, optionalField, needField]
  | .unary op e => by
    have he := load_document e
    simp [Draft.document, tagged, Draft.load, lookupField, optionalField, needField,
      loadAt_of_lookup, he]
  | .binary op l r => by
    have hl := load_document l
    have hr := load_document r
    simp [Draft.document, tagged, Draft.load, lookupField, optionalField, needField,
      loadAt_of_lookup, hl, hr]
  | .expr e => by
    have he := load_document e
    simp [Draft.document, tagged, Draft.load, lookupField, optionalField, loadAt_of_lookup, he]
  | .assign x e => by
    have he := load_document e
    simp [Draft.document, tagged, Draft.load, lookupField, optionalField, needField,
      loadAt_of_lookup, he]
  | .print e => by
    have he := load_document e
    simp [Draft.document, tagged, Draft.load, lookupField, optionalField, loadAt_of_lookup, he]
  | .cond c t e => by
    -- the alternative is written also where there is none
    have hc := load_document c
    have ht := load_document t
    have he := load_document e
    simp [Draft.document, tagged, Draft.load, lookupField, optionalField, loadAt_of_lookup, hc, ht,
      he]
  | .loop c b => by
    have hc := load_document c
    have hb := load_document b
    simp [Draft.document, tagged, Draft.load, lookupField, optionalField, loadAt_of_lookup, hc, hb]
  | .block ss => by
    have hss := loadList_documents ss
    simp [Draft.document, tagged, Draft.load, lookupField, optionalField, loadListAt_of_lookup, hss]
  | .absent => by
    rw [Draft.document, Draft.load]

theorem loadList_documents : (ss : List Draft) → loadList (documents ss) = .ok ss
  | [] => by rw [documents, loadList]
  | s :: rest => by
    have hs := load_document s
    have hrest := loadList_documents rest
    simp [documents, loadList, hs, hrest]

end

theorem loadDrafts_programDocument (p : List Draft) : loadDrafts (programDocument p) = .ok p := by
  have hp := loadList_documents p
  simp [programDocument, tagged, loadDrafts, lookupField, optionalField, loadListAt_of_lookup, hp]

/-! ## Programs as drafts -/

theorem raw_valueToJson (v : Value) : v.toJson.raw = v.draft.document := by
  cases v <;> rfl

mutual

/-- The document of a tree is that of its draft. -/
theorem raw_toJson : (n : Node) → n.toJson.raw = n.draft.document
  | .literal v => by
    simp [Node.toJson, Json.raw, rawFields, Node.draft, Draft.document, tagged, raw_valueToJson]
  | .var x | .absent => rfl
  | .unary op e | .expr e | .assign x e | .print e => by
    have he := raw_toJson e
    simp [Node.toJson, Json.raw, rawFields, Node.draft, Draft.document, tagged, he]
  | .binary op l r => by
    have hl := raw_toJson l
    have hr := raw_toJson r
    simp [Node.toJson, Json.raw, rawFields, Node.draft, Draft.document, tagged, hl, hr]
  | .cond c t e => by
    have hc := raw_toJson c
    have ht := raw_toJson t
    have he := raw_toJson e
    simp [Node.toJson, Json.raw, rawFields, Node.draft, Draft.document, tagged, hc, ht, he]
  | .loop c b => by
    have hc := raw_toJson c
    have hb := raw_toJson b
    simp [Node.toJson, Json.raw, rawFields, Node.draft, Draft.document, tagged, hc, hb]
  | .block ss => by
    have hss := raw_nodesToJson ss
    simp [Node.toJson, Json.raw, rawFields, Node.draft, Draft.document, tagged, hss]

theorem raw_nodesToJson : (ss : List Node) → rawItems (nodesToJson ss) = documents (drafts ss)
  | [] => rfl
  | s :: rest => by
    have hs := raw_toJson s
    have hrest := raw_nodesToJson rest
    simp [nodesToJson, rawItems, drafts, documents, hs, hrest]

end

theorem raw_programToJson (p : List Node) :
    (programToJson p).raw = programDocument (drafts p) := by
  have hp := raw_nodesToJson p
  simp [programToJson, Json.raw, rawFields, programDocument, tagged, hp]

theorem word?_eq_some {v : Raw} {s : String} : v.word? = some s ↔ v = .str (.of s) := by
  cases v <;> simp [Raw.word?, Text.string?_eq_some]

theorem value?_eq_some {v : DraftValue} {w : Value} : v.value? = some w ↔ v = w.draft := by
  cases v <;> cases w <;> simp [DraftValue.value?, Value.draft, word?_eq_some]

@[simp] theorem value?_draft (v : Value) : v.draft.value? = some v :=
  value?_eq_some.2 rfl

mutual

@[simp] theorem node?_draft : (n : Node) → n.draft.node? = some n
  | .literal v => by simp [Node.draft, Draft.node?]
  | .var x | .absent => by simp [Node.draft, Draft.node?]
  | .unary op e | .expr e | .assign x e | .print e => by
    have he := node?_draft e
    simp [Node.draft, Draft.node?, he]
  | .binary op l r => by
    have hl := node?_draft l
    have hr := node?_draft r
    simp [Node.draft, Draft.node?, hl, hr]
  | .cond c t e => by
    have hc := node?_draft c
    have ht := node?_draft t
    have he := node?_draft e
    simp [Node.draft, Draft.node?, hc, ht, he]
  | .loop c b => by
    have hc := node?_draft c
    have hb := node?_draft b
    simp [Node.draft, Draft.node?, hc, hb]
  | .block ss => by
    have hss := nodes?_drafts ss
    simp [Node.draft, Draft.node?, hss]

@[simp] theorem nodes?_drafts : (ss : List Node) → nodes? (drafts ss) = some ss
  | [] => rfl
  | s :: rest => by
    have hs := node?_draft s
    have hrest := nodes?_drafts rest
    simp [drafts, nodes?, hs, hrest]

end

mutual

theorem eq_of_node? : (d : Draft) → {n : Node} → d.node? = some n → d = n.draft
  | .literal v, _, h => by
    obtain ⟨w, hw, rfl⟩ := Option.map_eq_some_iff.1 h
    rw [Node.draft, value?_eq_some.1 hw]
  | .var x, _, h => by
    obtain ⟨s, hs, rfl⟩ := Option.map_eq_some_iff.1 h
    rw [Node.draft, word?_eq_some.1 hs]
  | .unary op e, _, h | .assign op e, _, h => by
    simp only [Draft.node?, Option.bind_eq_bind, Option.bind_eq_some_iff, Option.pure_def,
      Option.some.injEq] at h
    obtain ⟨s, hs, e', he, rfl⟩ := h
    rw [Node.draft, word?_eq_some.1 hs, ← eq_of_node? e he]
  | .binary op l r, _, h => by
    simp only [Draft.node?, Option.bind_eq_bind, Option.bind_eq_some_iff, Option.pure_def,
      Option.some.injEq] at h
    obtain ⟨s, hs, l', hl, r', hr, rfl⟩ := h
    rw [Node.draft, word?_eq_some.1 hs, ← eq_of_node? l hl, ← eq_of_node? r hr]
  | .expr e, _, h | .print e, _, h => by
    obtain ⟨e', he, rfl⟩ := Option.map_eq_some_iff.1 h
    rw [Node.draft, ← eq_of_node? e he]
  | .cond c t e, _, h => by
    simp only [Draft.node?, Option.bind_eq_bind, Option.bind_eq_some_iff, Option.pure_def,
      Option.some.injEq] at h
    obtain ⟨c', hc, t', ht, e', he, rfl⟩ := h
    rw [Node.draft, ← eq_of_node? c hc, ← eq_of_node? t ht, ← eq_of_node? e he]
  | .loop c b, _, h => by
    simp only [Draft.node?, Option.bind_eq_bind, Option.bind_eq_some_iff, Option.pure_def,
      Option.some.injEq] at h
    obtain ⟨c', hc, b', hb, rfl⟩ := h
    rw [Node.draft, ← eq_of_node? c hc, ← eq_of_node? b hb]
  | .block ss, _, h => by
    obtain ⟨ss', hss, rfl⟩ := Option.map_eq_some_iff.1 h
    rw [Node.draft, ← eq_of_nodes? ss hss]
  | .absent, _, h => by
    cases h
    rfl

theorem eq_of_nodes? : (ds : List Draft) → {ss : List Node} → nodes? ds = some ss → ds = drafts ss
  | [], _, h => by
    cases h
    rfl
  | d :: rest, _, h => by
    simp only [nodes?, Option.bind_eq_bind, Option.bind_eq_some_iff, Option.pure_def,
      Option.some.injEq] at h
    obtain ⟨s, hs, ss, hss, rfl⟩ := h
    rw [drafts, ← eq_of_node? d hs, ← eq_of_nodes? rest hss]

end

/-- **The drafts of programs** are those that are trees. -/
theorem nodes?_eq_some {ds : List Draft} {p : List Node} : nodes? ds = some p ↔ ds = drafts p := by
  constructor
  · exact eq_of_nodes? ds
  · rintro rfl
    exact nodes?_drafts p

/-- A document describes a program if it describes its drafts. -/
theorem loadProgram_eq_ok_iff {document : Json} {p : List Node} :
    loadProgram document = .ok p ↔ loadDrafts document.raw = .ok (drafts p) := by
  rw [loadProgram]
  cases loadDrafts document.raw with
  | error e => simp
  | ok ds =>
    rw [Except.ok.injEq, ← nodes?_eq_some]
    cases hds : nodes? ds <;> simp [hds]

theorem loadProgram_programToJson (p : List Node) : loadProgram (programToJson p) = .ok p := by
  rw [loadProgram_eq_ok_iff, raw_programToJson]
  exact loadDrafts_programDocument (drafts p)

/-! ## Normal forms -/

/-- The normal form of a document: the document of what it describes, if it
    describes anything. -/
def normalForm? (document : Raw) : Option Raw :=
  (loadDrafts document).toOption.map programDocument

/-- **Documents are lossless.**  The document of any list of trees, or of drafts
    with any data for names, operators and texts, describes exactly these; and a
    document that describes something has a normal form, which describes the
    same and is its own normal form. -/
theorem document_lossless :
    (∀ p : List Node, loadProgram (programToJson p) = .ok p) ∧
    (∀ p : List Draft, loadDrafts (programDocument p) = .ok p) ∧
    (∀ (document : Raw) (p : List Draft), loadDrafts document = .ok p →
      ∃ normal, normalForm? document = some normal ∧ loadDrafts normal = .ok p ∧
        normalForm? normal = some normal) := by
  refine ⟨loadProgram_programToJson, loadDrafts_programDocument, fun document p h => ?_⟩
  have hnormal := loadDrafts_programDocument p
  refine ⟨programDocument p, ?_, hnormal, ?_⟩
  · rw [normalForm?, h]
    rfl
  · rw [normalForm?, hnormal]
    rfl

/-- An object with its fields in any order. -/
def looseObject (fields : List (String × Raw)) : Raw :=
  .obj (fields.map fun (key, v) => (.of key, v))

/-- A program written otherwise than it is saved: a field that means nothing, a
    list for a truth value, a truth value for a number, a list for a name, an
    integer for a text, and a branch without the field of its alternative. -/
def looseDocument : Raw :=
  let word (s : String) : Raw := .str (.of s)
  looseObject [("comment", word "by hand"), ("type", word "Program"), ("body", .arr [
    looseObject [("then_branch", looseObject [("type", word "Assign"), ("name", .arr [.null]),
        ("value", looseObject [("type", word "Literal"),
          ("value", looseObject [("kind", word "Number"), ("value", .bool true)])])]),
      ("condition", looseObject [("type", word "Literal"),
        ("value", looseObject [("kind", word "Boolean"), ("value", .arr [.null])])]),
      ("type", word "IfStmt")],
    looseObject [("type", word "ExprStmt"), ("expr", looseObject [("type", word "Literal"),
      ("value", looseObject [("value", .int 5), ("kind", word "String")])])]])]

theorem document_lossless_loose :
    loadDrafts looseDocument = .ok [.cond (.literal (.boolean true))
        (.assign (.arr [.null]) (.literal (.number 1.0))) .absent,
        .expr (.literal (.string (.int 5)))] ∧
      ∃ normal, normalForm? looseDocument = some normal ∧
        loadDrafts normal = .ok [.cond (.literal (.boolean true))
          (.assign (.arr [.null]) (.literal (.number 1.0))) .absent,
          .expr (.literal (.string (.int 5)))] ∧
        normalForm? normal = some normal := by
  have h : loadDrafts looseDocument = .ok [.cond (.literal (.boolean true))
      (.assign (.arr [.null]) (.literal (.number 1.0))) .absent,
      .expr (.literal (.string (.int 5)))] := by
    simp [looseDocument, looseObject, loadDrafts, loadListAt_of_lookup, loadList, Draft.load,
      loadAt_of_lookup, lookupField, optionalField, needField, DraftValue.load, loadNumber,
      Raw.isTruthy]
  exact ⟨h, document_lossless.2.2 looseDocument _ h⟩

end BlockScript
