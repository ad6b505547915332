/-
  BlockScript — written JSON texts are read back.

  * `Json.Storable`: the values that are: those whose numbers are, without
    integers and without two fields of one name in an object;
  * `Json.read_write`: reading what was written gives the value back;
  * `Json.unifyLineEnds_write`: a written text has no line ends to unify.
-/
import BlockScript.Proofs.Json.Atom
import BlockScript.Text.Lines

namespace BlockScript

/-! ## Layout -/

theorem skipBlanks_newLine (level : Nat) (cs : List Char) :
    skipBlanks ((newLine level).toList ++ cs) = skipBlanks cs := by
  have hblank : ∀ c ∈ (newLine level).toList, isJsonBlank c = true := by
    intro c hc
    simp only [newLine, String.toList_ofList, List.mem_cons, List.mem_replicate] at hc
    rcases hc with rfl | ⟨-, rfl⟩ <;> rfl
  exact List.dropWhile_append_of_pos hblank

theorem bracketed_toList (level : Nat) (opening closing : String) {parts : List String}
    (h : parts ≠ []) :
    (bracketed level opening closing parts).toList =
      opening.toList ++ ((newLine (level + 1)).toList ++
        (List.intercalate (',' :: (newLine (level + 1)).toList) (parts.map String.toList) ++
          ((newLine level).toList ++ closing.toList))) := by
  have hcomma : ",".toList = [','] := rfl
  cases parts with
  | nil => exact absurd rfl h
  | cons part parts =>
    simp [bracketed, String.toList_append, String.toList_intercalate, hcomma]

/-! ## Values with parts -/

mutual

/-- The value has no integers, its numbers are read back, and no object has two
    fields of one name. -/
def Json.Storable : Json → Prop
  | .null | .bool _ | .str _ => True
  | .int _ => False
  | .float x => ReadsBack x
  | .arr items => ItemsStorable items
  | .obj fields => (fields.map Prod.fst).Nodup ∧ FieldsStorable fields

def ItemsStorable : List Json → Prop
  | [] => True
  | v :: rest => v.Storable ∧ ItemsStorable rest

def FieldsStorable : List (String × Json) → Prop
  | [] => True
  | (_, v) :: rest => v.Storable ∧ FieldsStorable rest

end

theorem writeItems_eq_map (level : Nat) (items : List Json) :
    writeItems level items = items.map (Json.writeAt level) := by
  induction items with
  | nil => rfl
  | cons v rest ih => rw [writeItems, ih, List.map_cons]

/-- The text of a field. -/
def fieldText (level : Nat) (field : String × Json) : String :=
  jsonString field.1 ++ ": " ++ field.2.writeAt level

theorem writeFields_eq_map (level : Nat) (fields : List (String × Json)) :
    writeFields level fields = fields.map (fieldText level) := by
  induction fields with
  | nil => rfl
  | cons field rest ih =>
    obtain ⟨k, v⟩ := field
    rw [writeFields, ih, List.map_cons, fieldText]

/-- A text starts with a character that is no blank and no closing bracket. -/
def StartsValue (cs : List Char) : Prop :=
  ∃ c rest, cs = c :: rest ∧ isJsonBlank c = false ∧ c ≠ ']'

theorem startsValue_bracketed {opening : Char} (hblank : isJsonBlank opening = false)
    (hclosing : opening ≠ ']') (level : Nat) (closing : String) (parts : List String) :
    StartsValue (bracketed level (String.ofList [opening]) closing parts).toList := by
  cases parts with
  | nil => exact ⟨opening, closing.toList, by simp [bracketed], hblank, hclosing⟩
  | cons part parts =>
    rw [bracketed_toList _ _ _ (List.cons_ne_nil part parts), String.toList_ofList]
    exact ⟨opening, _, rfl, hblank, hclosing⟩

theorem startsValue_writeAt (level : Nat) (v : Json) (h : v.Storable) :
    StartsValue (v.writeAt level).toList := by
  cases v with
  | null => exact ⟨'n', ['u', 'l', 'l'], by simp [Json.writeAt], by decide, by decide⟩
  | bool b =>
    cases b with
    | true => exact ⟨'t', ['r', 'u', 'e'], by simp [Json.writeAt], by decide, by decide⟩
    | false => exact ⟨'f', ['a', 'l', 's', 'e'], by simp [Json.writeAt], by decide, by decide⟩
  | int n => simp only [Json.Storable] at h
  | float x =>
    simp only [Json.Storable] at h
    obtain ⟨c, cs, htext, hc⟩ := h.text_eq_cons
    exact ⟨c, cs, by rw [Json.writeAt, htext], isJsonBlank_of_writesNumber hc,
      ne_of_writesNumber hc (by decide)⟩
  | str s => exact ⟨'"', _, by rw [Json.writeAt, jsonString_toList], by decide, by decide⟩
  | arr items =>
    rw [Json.writeAt]
    exact startsValue_bracketed (by decide) (by decide) level "]" _
  | obj fields =>
    rw [Json.writeAt]
    exact startsValue_bracketed (by decide) (by decide) level "\x7d" _

/-- The texts of items with commas between them. -/
def itemsText (level : Nat) (items : List Json) : List Char :=
  List.intercalate (',' :: (newLine level).toList)
    (items.map fun v => (v.writeAt level).toList)

/-- The texts of fields with commas between them. -/
def fieldsText (level : Nat) (fields : List (String × Json)) : List Char :=
  List.intercalate (',' :: (newLine level).toList)
    (fields.map fun field => (fieldText level field).toList)

theorem writeAt_arr_cons (level : Nat) (v : Json) (rest : List Json) :
    (Json.writeAt level (.arr (v :: rest))).toList =
      '[' :: ((newLine (level + 1)).toList ++ (itemsText (level + 1) (v :: rest) ++
        ((newLine level).toList ++ [']']))) := by
  rw [Json.writeAt, writeItems_eq_map, bracketed_toList _ _ _ (by simp), List.map_map]
  rfl

theorem writeAt_obj_cons (level : Nat) (field : String × Json) (rest : List (String × Json)) :
    (Json.writeAt level (.obj (field :: rest))).toList =
      '\x7b' :: ((newLine (level + 1)).toList ++ (fieldsText (level + 1) (field :: rest) ++
        ((newLine level).toList ++ ['\x7d']))) := by
  rw [Json.writeAt, writeFields_eq_map, bracketed_toList _ _ _ (by simp), List.map_map]
  rfl

theorem delimited_newLine (level : Nat) (cs : List Char) :
    Delimited ((newLine level).toList ++ cs) := by
  rw [newLine, String.toList_ofList, List.cons_append]
  exact .lineEnd _

/-- A text that is read as a value without parts. -/
theorem readValue_of_atom {c : Char} {cs rest : List Char} {v : Raw} {n : Nat}
    (hlist : c ≠ '[') (hobj : c ≠ '\x7b') (hn : (c :: cs).length ≤ n)
    (h : readAtom (c :: cs ++ rest) = .ok (v, rest)) :
    readValue n (c :: cs ++ rest) = .ok (v, rest) := by
  cases n with
  | zero => simp at hn
  | succ n => exact (readValue_atom hlist hobj).trans h

theorem StartsValue.append {cs : List Char} (h : StartsValue cs) (rest : List Char) :
    StartsValue (cs ++ rest) := by
  obtain ⟨c, cs, rfl, hc⟩ := h
  exact ⟨c, cs ++ rest, rfl, hc⟩

theorem StartsValue.skipBlanks {cs : List Char} (h : StartsValue cs) : skipBlanks cs = cs := by
  obtain ⟨c, cs, rfl, hblank, -⟩ := h
  exact skipBlanks_cons hblank

theorem readValue_list {cs : List Char} {n level : Nat} (h : StartsValue cs) :
    readValue (n + 1) ('[' :: ((newLine level).toList ++ cs)) = readItems n [] cs := by
  rw [readValue, skipBlanks_newLine, h.skipBlanks]
  obtain ⟨c, cs, rfl, -, hc⟩ := h
  split
  · rename_i heq
    cases heq
    exact absurd rfl hc
  · rfl

theorem readValue_object {cs : List Char} {n level : Nat} :
    readValue (n + 1) ('\x7b' :: ((newLine level).toList ++ '"' :: cs)) =
      readFields n [] ('"' :: cs) := by
  rw [readValue, skipBlanks_newLine, skipBlanks_cons (by decide)]
  rfl

section

variable {n : Nat} {done : List Raw} {cs after rest : List Char} {v : Raw}
  (h : readValue n cs = .ok (v, after))
include h

theorem readItems_comma (hafter : skipBlanks after = ',' :: rest) :
    readItems (n + 1) done cs = readItems n (v :: done) (skipBlanks rest) := by
  simp only [readItems, h, hafter]

theorem readItems_close (hafter : skipBlanks after = ']' :: rest) :
    readItems (n + 1) done cs = .ok (.arr (v :: done).reverse, rest) := by
  simp only [readItems, h, hafter]

end

theorem fieldText_toList (level : Nat) (key : String) (v : Json) :
    (fieldText level (key, v)).toList =
      '"' :: (key.toList.flatMap jsonChar ++ '"' :: ':' :: ' ' :: (v.writeAt level).toList) := by
  have hcolon : ": ".toList = [':', ' '] := rfl
  simp [fieldText, String.toList_append, jsonString_toList, hcolon]

/-- The value of a field comes after its name, a colon and a blank. -/
theorem readFields_key (key : String) {level : Nat} {v : Json}
    (hstarts : StartsValue (v.writeAt level).toList) (after : List Char) :
    readString (key.toList.flatMap jsonChar ++
        '"' :: ':' :: ' ' :: ((v.writeAt level).toList ++ after)) =
      .ok (.of key, ':' :: ' ' :: ((v.writeAt level).toList ++ after)) ∧
    skipBlanks (':' :: ' ' :: ((v.writeAt level).toList ++ after)) =
      ':' :: ' ' :: ((v.writeAt level).toList ++ after) ∧
    skipBlanks (' ' :: ((v.writeAt level).toList ++ after)) =
      (v.writeAt level).toList ++ after := by
  have hspace : isJsonBlank ' ' = true := by decide
  have hskip := (hstarts.append after).skipBlanks
  refine ⟨readString_written key _, skipBlanks_cons (by decide), ?_⟩
  simpa [skipBlanks, hspace] using hskip

section

variable {n level : Nat} {done : List (Text × Raw)} (key : String) {v : Json}
  {after rest : List Char} (hstarts : StartsValue (v.writeAt level).toList)
  (h : readValue n ((v.writeAt level).toList ++ after) = .ok (v.raw, after))
include hstarts h

theorem readFields_comma (hafter : skipBlanks after = ',' :: rest) :
    readFields (n + 1) done ((fieldText level (key, v)).toList ++ after) =
      readFields n (putField (.of key) v.raw done) (skipBlanks rest) := by
  obtain ⟨hkey, hcolon, hvalue⟩ := readFields_key key hstarts after
  rw [fieldText_toList]
  simp only [List.cons_append, List.append_assoc]
  simp only [readFields, hkey, hcolon, hvalue, h, hafter]

theorem readFields_close (hafter : skipBlanks after = '\x7d' :: rest) :
    readFields (n + 1) done ((fieldText level (key, v)).toList ++ after) =
      .ok (.obj (putField (.of key) v.raw done), rest) := by
  obtain ⟨hkey, hcolon, hvalue⟩ := readFields_key key hstarts after
  rw [fieldText_toList]
  simp only [List.cons_append, List.append_assoc]
  simp only [readFields, hkey, hcolon, hvalue, h, hafter]

end

theorem itemsText_single (level : Nat) (v : Json) :
    itemsText level [v] = (v.writeAt level).toList := by
  simp [itemsText]

theorem itemsText_cons (level : Nat) (v w : Json) (items : List Json) :
    itemsText level (v :: w :: items) = (v.writeAt level).toList ++
      ',' :: ((newLine level).toList ++ itemsText level (w :: items)) := by
  simp [itemsText]

theorem startsValue_itemsText (level : Nat) {v : Json} {items : List Json}
    (h : ItemsStorable (v :: items)) : StartsValue (itemsText level (v :: items)) := by
  simp only [ItemsStorable] at h
  have hv := startsValue_writeAt level v h.1
  cases items with
  | nil => rwa [itemsText_single]
  | cons w items =>
    rw [itemsText_cons]
    exact hv.append _

theorem fieldsText_single (level : Nat) (field : String × Json) :
    fieldsText level [field] = (fieldText level field).toList := by
  simp [fieldsText]

theorem fieldsText_cons (level : Nat) (field next : String × Json)
    (fields : List (String × Json)) :
    fieldsText level (field :: next :: fields) = (fieldText level field).toList ++
      ',' :: ((newLine level).toList ++ fieldsText level (next :: fields)) := by
  simp [fieldsText]

/-- Fields start with the quote of a name. -/
theorem fieldsText_eq_cons (level : Nat) (field : String × Json) (fields : List (String × Json)) :
    ∃ cs, fieldsText level (field :: fields) = '"' :: cs := by
  obtain ⟨key, v⟩ := field
  cases fields with
  | nil => exact ⟨_, (fieldsText_single level (key, v)).trans (fieldText_toList level key v)⟩
  | cons next fields =>
    rw [fieldsText_cons, fieldText_toList]
    exact ⟨_, rfl⟩

/-- A new name comes last. -/
theorem putField_fresh {key : Text} {v : Raw} {fields : List (Text × Raw)} :
    ∀ {done : List (Text × Raw)}, ((done ++ (key, v) :: fields).map Prod.fst).Nodup →
      putField key v done = done ++ [(key, v)]
  | [], _ => rfl
  | (k, w) :: done, h => by
    rw [List.cons_append, List.map_cons, List.nodup_cons] at h
    have hne : k ≠ key := by
      rintro rfl
      exact h.1 (by simp)
    rw [putField, if_neg hne, putField_fresh h.2, List.cons_append]

/-- Different names are different texts. -/
theorem nodup_rawFields {fields : List (String × Json)} (h : (fields.map Prod.fst).Nodup) :
    ((rawFields fields).map Prod.fst).Nodup := by
  have hkeys : (rawFields fields).map Prod.fst = (fields.map Prod.fst).map Text.of := by
    clear h
    induction fields with
    | nil => rfl
    | cons field rest ih =>
      obtain ⟨k, v⟩ := field
      simp [rawFields, ih]
  rw [hkeys, List.Nodup, List.pairwise_map]
  exact List.Pairwise.imp (fun hne heq => hne (Text.of_injective heq)) h

mutual

/-- **A written value is read back**, in front of anything that may follow it. -/
theorem readValue_writeAt : (v : Json) → v.Storable → (level n : Nat) → (rest : List Char) →
    (v.writeAt level).toList.length ≤ n → Delimited rest →
      readValue n ((v.writeAt level).toList ++ rest) = .ok (v.raw, rest)
  | .null => by
    intro _ level n rest hn _
    rw [Json.writeAt] at hn ⊢
    exact readValue_of_atom (by decide) (by decide) hn rfl
  | .bool true => by
    intro _ level n rest hn _
    rw [Json.writeAt] at hn ⊢
    exact readValue_of_atom (by decide) (by decide) hn rfl
  | .bool false => by
    intro _ level n rest hn _
    rw [Json.writeAt] at hn ⊢
    exact readValue_of_atom (by decide) (by decide) hn rfl
  | .int _ => by
    intro h _ _ _ _ _
    simp only [Json.Storable] at h
  | .float x => by
    intro h level n rest hn hrest
    simp only [Json.Storable] at h
    obtain ⟨c, cs, htext, hc⟩ := h.text_eq_cons
    have hatom := h.readAtom_text_append hrest
    rw [Json.writeAt] at hn ⊢
    rw [htext] at hn hatom ⊢
    exact readValue_of_atom (ne_of_writesNumber hc (by decide)) (ne_of_writesNumber hc (by decide))
      hn hatom
  | .str s => by
    intro _ level n rest hn _
    have hatom := readAtom_string s rest
    rw [Json.writeAt] at hn ⊢
    rw [jsonString_toList] at hn hatom ⊢
    exact readValue_of_atom (by decide) (by decide) hn hatom
  | .arr [] => by
    intro _ level n rest hn _
    cases n with
    | zero => simp [Json.writeAt, writeItems, bracketed] at hn
    | succ n =>
      simp [Json.writeAt, writeItems, bracketed, readValue, skipBlanks, isJsonBlank, Json.raw,
        rawItems]
  | .arr (v :: items) => by
    intro h level n rest hn _
    simp only [Json.Storable] at h
    rw [writeAt_arr_cons] at hn ⊢
    cases n with
    | zero => simp at hn
    | succ n =>
      have hitems := readItems_itemsText (v :: items) h (List.cons_ne_nil v items) level (level + 1)
        n [] rest (by simp only [List.length_cons, List.length_append] at hn; omega)
      refine Eq.trans ?_ hitems
      simp only [List.cons_append, List.append_assoc, List.nil_append]
      exact readValue_list ((startsValue_itemsText (level + 1) h).append _)
  | .obj [] => by
    intro _ level n rest hn _
    cases n with
    | zero => simp [Json.writeAt, writeFields, bracketed] at hn
    | succ n =>
      simp [Json.writeAt, writeFields, bracketed, readValue, skipBlanks, isJsonBlank, Json.raw,
        rawFields]
  | .obj (field :: fields) => by
    intro h level n rest hn _
    simp only [Json.Storable] at h
    rw [writeAt_obj_cons] at hn ⊢
    cases n with
    | zero => simp at hn
    | succ n =>
      have hfields := readFields_fieldsText (field :: fields) h.2 (List.cons_ne_nil field fields)
        level (level + 1) n [] rest (by simpa using nodup_rawFields h.1)
        (by simp only [List.length_cons, List.length_append] at hn; omega)
      refine Eq.trans ?_ hfields
      obtain ⟨cs, hcs⟩ := fieldsText_eq_cons (level + 1) field fields
      simp only [hcs, List.cons_append, List.append_assoc, List.nil_append]
      exact readValue_object

theorem readItems_itemsText : (items : List Json) → ItemsStorable items → items ≠ [] →
    (outer level n : Nat) → (done : List Raw) → (rest : List Char) →
    (itemsText level items).length < n →
      readItems n done (itemsText level items ++ ((newLine outer).toList ++ ']' :: rest)) =
        .ok (.arr (done.reverse ++ rawItems items), rest)
  | [] => fun _ h => absurd rfl h
  | [v] => by
    intro h _ outer level n done rest hn
    simp only [ItemsStorable] at h
    rw [itemsText_single] at hn ⊢
    cases n with
    | zero => omega
    | succ n =>
      have hv := readValue_writeAt v h.1 level n _ (by omega)
        (delimited_newLine outer (']' :: rest))
      rw [readItems_close hv ((skipBlanks_newLine _ _).trans (skipBlanks_cons (by decide)))]
      simp [rawItems]
  | v :: w :: items => by
    intro h _ outer level n done rest hn
    simp only [ItemsStorable] at h
    rw [itemsText_cons] at hn ⊢
    cases n with
    | zero => omega
    | succ n =>
      simp only [List.length_append, List.length_cons] at hn
      have hv := readValue_writeAt v h.1 level n _ (by omega)
        (.comma ((newLine level).toList ++ (itemsText level (w :: items) ++
          ((newLine outer).toList ++ ']' :: rest))))
      have hrest := readItems_itemsText (w :: items) h.2 (List.cons_ne_nil w items) outer level n
        (v.raw :: done) rest (by omega)
      have hstarts := startsValue_itemsText level (show ItemsStorable (w :: items) from h.2)
      simp only [List.append_assoc, List.cons_append]
      rw [readItems_comma hv (skipBlanks_cons (by decide)), skipBlanks_newLine,
        (hstarts.append _).skipBlanks, hrest]
      simp [rawItems]

theorem readFields_fieldsText : (fields : List (String × Json)) → FieldsStorable fields →
    fields ≠ [] → (outer level n : Nat) → (done : List (Text × Raw)) → (rest : List Char) →
    ((done ++ rawFields fields).map Prod.fst).Nodup → (fieldsText level fields).length < n →
      readFields n done (fieldsText level fields ++ ((newLine outer).toList ++ '\x7d' :: rest)) =
        .ok (.obj (done ++ rawFields fields), rest)
  | [] => fun _ h => absurd rfl h
  | [(key, v)] => by
    intro h _ outer level n done rest hkeys hn
    simp only [FieldsStorable] at h
    rw [fieldsText_single] at hn ⊢
    cases n with
    | zero => omega
    | succ n =>
      have hlen : (v.writeAt level).toList.length ≤ n := by
        simp only [fieldText_toList, List.length_cons, List.length_append] at hn
        omega
      have hv := readValue_writeAt v h.1 level n _ hlen (delimited_newLine outer ('\x7d' :: rest))
      rw [readFields_close key (startsValue_writeAt level v h.1) hv
        ((skipBlanks_newLine _ _).trans (skipBlanks_cons (by decide))), putField_fresh hkeys]
      rfl
  | (key, v) :: next :: fields => by
    intro h _ outer level n done rest hkeys hn
    simp only [FieldsStorable] at h
    rw [fieldsText_cons] at hn ⊢
    cases n with
    | zero => omega
    | succ n =>
      simp only [fieldText_toList, List.length_append, List.length_cons] at hn
      have hv := readValue_writeAt v h.1 level n _ (by omega)
        (.comma ((newLine level).toList ++ (fieldsText level (next :: fields) ++
          ((newLine outer).toList ++ '\x7d' :: rest))))
      have hrest := readFields_fieldsText (next :: fields) h.2 (List.cons_ne_nil next fields) outer
        level n (done ++ [(.of key, v.raw)]) rest (by simpa [rawFields] using hkeys) (by omega)
      obtain ⟨cs, hcs⟩ := fieldsText_eq_cons level next fields
      have hstarts : StartsValue (fieldsText level (next :: fields)) :=
        ⟨'"', cs, hcs, by decide, by decide⟩
      simp only [List.append_assoc, List.cons_append]
      rw [readFields_comma key (startsValue_writeAt level v h.1) hv (skipBlanks_cons (by decide)),
        skipBlanks_newLine, (hstarts.append _).skipBlanks, putField_fresh hkeys, hrest]
      simp [rawFields]

end

/-- **Reading what was written gives the value back.** -/
theorem Json.read_write {v : Json} (h : v.Storable) : Json.read v.write = .ok v := by
  have hstarts := startsValue_writeAt 0 v h
  have hread := readValue_writeAt v h 0 ((v.writeAt 0).toList.length + 1) [] (by omega) .nothing
  rw [List.append_nil] at hread
  rw [Json.read_eq_ok_iff, Raw.read, Json.write, readJsonChars, hstarts.skipBlanks, hread]
  rfl

/-! ## Line ends -/

theorem noReturn_jsonChar (c : Char) : '\r' ∉ jsonChar c := by
  have hhex : ∀ n < 0x20, '\r' ∉ '\\' :: 'u' :: hexDigits 4 n := by decide
  unfold jsonChar
  repeat' split
  all_goals simp_all [eq_comm]

theorem noReturn_jsonString (s : String) : '\r' ∉ (jsonString s).toList := by
  have hchars : '\r' ∉ s.toList.flatMap jsonChar := by
    intro hmem
    obtain ⟨c, -, hc⟩ := List.mem_flatMap.1 hmem
    exact noReturn_jsonChar c hc
  rw [jsonString_toList]
  simp [hchars]

theorem noReturn_newLine (level : Nat) : '\r' ∉ (newLine level).toList := by
  simp [newLine]

mutual

/-- A written text has no carriage returns. -/
theorem noReturn_writeAt : (v : Json) → v.Storable → (level : Nat) →
    '\r' ∉ (v.writeAt level).toList
  | .null => fun _ level => by simp [Json.writeAt]
  | .bool true => fun _ level => by simp [Json.writeAt]
  | .bool false => fun _ level => by simp [Json.writeAt]
  | .int _ => fun h level => by simp only [Json.Storable] at h
  | .float x => fun _ level => by
    rw [Json.writeAt]
    intro hmem
    exact ne_of_writesNumber (writesNumber_stored x _ hmem) (by decide) rfl
  | .str s => fun _ level => by
    rw [Json.writeAt]
    exact noReturn_jsonString s
  | .arr [] => fun _ level => by simp [Json.writeAt, writeItems, bracketed]
  | .arr (v :: items) => fun h level => by
    simp only [Json.Storable] at h
    have hitems := noReturn_itemsText (v :: items) h (level + 1)
    rw [writeAt_arr_cons]
    simp [hitems, noReturn_newLine]
  | .obj [] => fun _ level => by simp [Json.writeAt, writeFields, bracketed]
  | .obj (field :: fields) => fun h level => by
    simp only [Json.Storable] at h
    have hfields := noReturn_fieldsText (field :: fields) h.2 (level + 1)
    rw [writeAt_obj_cons]
    simp [hfields, noReturn_newLine]

theorem noReturn_itemsText : (items : List Json) → ItemsStorable items → (level : Nat) →
    '\r' ∉ itemsText level items
  | [] => fun _ level => by simp [itemsText]
  | [v] => fun h level => by
    simp only [ItemsStorable] at h
    rw [itemsText_single]
    exact noReturn_writeAt v h.1 level
  | v :: w :: items => fun h level => by
    simp only [ItemsStorable] at h
    have hv := noReturn_writeAt v h.1 level
    have hrest := noReturn_itemsText (w :: items) h.2 level
    rw [itemsText_cons]
    simp [hv, hrest, noReturn_newLine]

theorem noReturn_fieldsText : (fields : List (String × Json)) → FieldsStorable fields →
    (level : Nat) → '\r' ∉ fieldsText level fields
  | [] => fun _ level => by simp [fieldsText]
  | [(key, v)] => fun h level => by
    simp only [FieldsStorable] at h
    have hv := noReturn_writeAt v h.1 level
    rw [fieldsText_single, fieldText]
    simp [hv, noReturn_jsonString]
  | (key, v) :: next :: fields => fun h level => by
    simp only [FieldsStorable] at h
    have hv := noReturn_writeAt v h.1 level
    have hrest := noReturn_fieldsText (next :: fields) h.2 level
    rw [fieldsText_cons, fieldText]
    simp [hv, hrest, noReturn_jsonString, noReturn_newLine]

end

theorem unifyLineEndsChars_noReturn {cs : List Char} (h : '\r' ∉ cs) :
    unifyLineEndsChars cs = cs := by
  induction cs with
  | nil => rfl
  | cons c cs ih =>
    simp only [List.mem_cons, not_or] at h
    rw [unifyLineEndsChars, ih h.2]
    · rintro rest rfl
      exact absurd rfl h.1
    · rintro rfl
      exact absurd rfl h.1

/-- A written text has no line ends to unify. -/
theorem Json.unifyLineEnds_write {v : Json} (h : v.Storable) :
    unifyLineEnds v.write = v.write := by
  rw [unifyLineEnds, Json.write, unifyLineEndsChars_noReturn (noReturn_writeAt v h 0),
    String.ofList_toList]

end BlockScript
