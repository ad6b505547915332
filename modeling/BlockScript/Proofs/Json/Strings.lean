/-
  BlockScript — JSON values whose strings hold characters only.

  A value that is written has no lone surrogates.  Read as a value that may
  have some, it is embedded by `Json.raw`, and `Raw.json?` finds exactly the
  values in the image.

  * `Raw.json?_eq_some`: the values without lone surrogates;
  * `Json.read_eq_ok_iff`: reading such a value.
-/
import BlockScript.Json.Reader

namespace BlockScript

mutual

@[simp] theorem Raw.json?_raw : (j : Json) → j.raw.json? = some j
  | .null | .bool _ | .int _ | .float _ => rfl
  | .str s => by simp [Json.raw, Raw.json?]
  | .arr items => by
    have hitems := jsonItems?_raw items
    simp [Json.raw, Raw.json?, hitems]
  | .obj fields => by
    have hfields := jsonFields?_raw fields
    simp [Json.raw, Raw.json?, hfields]

theorem jsonItems?_raw : (items : List Json) → jsonItems? (rawItems items) = some items
  | [] => rfl
  | v :: rest => by
    have hv := Raw.json?_raw v
    have hrest := jsonItems?_raw rest
    simp [rawItems, jsonItems?, hv, hrest]

theorem jsonFields?_raw : (fields : List (String × Json)) →
    jsonFields? (rawFields fields) = some fields
  | [] => rfl
  | (k, v) :: rest => by
    have hv := Raw.json?_raw v
    have hrest := jsonFields?_raw rest
    simp [rawFields, jsonFields?, hv, hrest]

end

mutual

theorem Raw.eq_of_json? : (v : Raw) → {j : Json} → v.json? = some j → v = j.raw
  | .null, _, h | .bool _, _, h | .int _, _, h | .float _, _, h => by
    cases h
    rfl
  | .str s, _, h => by
    obtain ⟨t, ht, rfl⟩ := Option.map_eq_some_iff.1 h
    rw [Json.raw, Text.string?_eq_some.1 ht]
  | .arr items, _, h => by
    obtain ⟨js, hjs, rfl⟩ := Option.map_eq_some_iff.1 h
    rw [Json.raw, eq_of_jsonItems? items hjs]
  | .obj fields, _, h => by
    obtain ⟨js, hjs, rfl⟩ := Option.map_eq_some_iff.1 h
    rw [Json.raw, eq_of_jsonFields? fields hjs]

theorem eq_of_jsonItems? : (items : List Raw) → {js : List Json} →
    jsonItems? items = some js → items = rawItems js
  | [], _, h => by
    cases h
    rfl
  | v :: rest, _, h => by
    simp only [jsonItems?, Option.bind_eq_bind, Option.bind_eq_some_iff, Option.pure_def,
      Option.some.injEq] at h
    obtain ⟨j, hj, js, hjs, rfl⟩ := h
    rw [rawItems, ← Raw.eq_of_json? v hj, ← eq_of_jsonItems? rest hjs]

theorem eq_of_jsonFields? : (fields : List (Text × Raw)) → {js : List (String × Json)} →
    jsonFields? fields = some js → fields = rawFields js
  | [], _, h => by
    cases h
    rfl
  | (k, v) :: rest, _, h => by
    simp only [jsonFields?, Option.bind_eq_bind, Option.bind_eq_some_iff, Option.pure_def,
      Option.some.injEq] at h
    obtain ⟨key, hkey, j, hj, js, hjs, rfl⟩ := h
    rw [rawFields, ← Raw.eq_of_json? v hj, ← eq_of_jsonFields? rest hjs,
      Text.string?_eq_some.1 hkey]

end

/-- **The values without lone surrogates** are those that are written. -/
theorem Raw.json?_eq_some {v : Raw} {j : Json} : v.json? = some j ↔ v = j.raw := by
  constructor
  · exact Raw.eq_of_json? v
  · rintro rfl
    exact Raw.json?_raw j

theorem Json.read_eq_ok_iff {s : String} {j : Json} :
    Json.read s = .ok j ↔ Raw.read s = .ok j.raw := by
  rw [Json.read]
  cases hread : Raw.read s with
  | error e => simp
  | ok v =>
    rw [Except.ok.injEq, ← Raw.json?_eq_some]
    cases hv : v.json? <;> simp [hv]

end BlockScript
