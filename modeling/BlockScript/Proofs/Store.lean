/-
  BlockScript — a file beside another one.

  * `EndsInName.path_append`: an ending added to the name of a file is added to
    the last name of its path;
  * `Store.Settled`: the files are held by their places;
  * `Store.get?_put_withEnding`: where a path leads, the path with an ending
    leads to the file put beside it.
-/
import BlockScript.Command.Store

namespace BlockScript

/-! ## Paths -/

theorem splitSlashes_name {cs : List Char} (h : '/' ∉ cs) (current : List Char) :
    splitSlashes current cs = [String.ofList (current.reverse ++ cs)] := by
  induction cs generalizing current with
  | nil => simp [splitSlashes]
  | cons c cs ih =>
    simp only [List.mem_cons, not_or] at h
    rw [splitSlashes, ih h.2]
    · simp
    · rintro rfl
      exact h.1 rfl

theorem splitSlashes_folder (cs rest current : List Char) :
    splitSlashes current (cs ++ '/' :: rest) = splitSlashes current cs ++ splitSlashes [] rest := by
  induction cs generalizing current with
  | nil => simp [splitSlashes]
  | cons c cs ih =>
    by_cases hc : c = '/'
    · subst hc
      simp [splitSlashes, ih]
    · simp [splitSlashes, ih]

/-- What is added at the end of a text does not change its root. -/
theorem rootOf_append (cs : List Char) {rest : List Char} (h : '/' ∉ rest) :
    rootOf (cs ++ rest) = rootOf cs := by
  have hrest : ∀ tail, rest ≠ '/' :: tail := by
    rintro tail rfl
    exact h List.mem_cons_self
  rcases cs with _ | ⟨a, _ | ⟨b, _ | ⟨c, cs⟩⟩⟩
  · simp [rootOf, hrest]
  · by_cases ha : a = '/' <;> simp [rootOf, ha, hrest]
  · by_cases ha : a = '/' <;> by_cases hb : b = '/' <;> simp [rootOf, ha, hb, hrest]
  · by_cases ha : a = '/' <;> by_cases hb : b = '/' <;> by_cases hc : c = '/' <;>
      simp [rootOf, ha, hb, hc]

theorem addEnding_append (ending : String) (names : List String) (name : String) :
    addEnding ending (names ++ [name]) = names ++ [name ++ ending] := by
  induction names with
  | nil => rfl
  | cons first names ih =>
    cases names with
    | nil => rfl
    | cons second names => simpa [addEnding] using ih

/-- The text ends in the name of a file, after nothing or a slash. -/
def EndsInName (s : String) : Prop :=
  ∃ folder name, s = folder ++ name ∧ (folder = "" ∨ ∃ parent, folder = parent ++ "/") ∧
    '/' ∉ name.toList ∧ name ∉ ["", ".", ".."]

/-- A folder adds the same names in front of every name. -/
theorem splitSlashes_of_folder {folder : String}
    (hfolder : folder = "" ∨ ∃ parent, folder = parent ++ "/") :
    ∃ names, ∀ name : String, '/' ∉ name.toList →
      splitSlashes [] (folder ++ name).toList = names ++ [name] := by
  have hslash : "/".toList = ['/'] := rfl
  rcases hfolder with rfl | ⟨parent, rfl⟩
  · refine ⟨[], fun name hname => ?_⟩
    rw [String.empty_append, splitSlashes_name hname]
    simp
  · refine ⟨splitSlashes [] parent.toList, fun name hname => ?_⟩
    rw [String.toList_append, String.toList_append, hslash, List.append_assoc,
      List.singleton_append, splitSlashes_folder, splitSlashes_name hname]
    simp

/-- A name with an ending is no blank name. -/
theorem append_ending_ne {name : String} (hempty : name ≠ "") (hdot : name ≠ ".")
    (ending : String) : name ++ ending ≠ "" ∧ name ++ ending ≠ "." := by
  have hone : ".".toList = ['.'] := rfl
  constructor
  · intro heq
    exact hempty (String.append_eq_empty_iff.1 heq).1
  · intro heq
    rw [← String.toList_inj, String.toList_append, hone, List.append_eq_singleton_iff] at heq
    rcases heq with ⟨hnil, -⟩ | ⟨hname, -⟩
    · exact hempty (String.toList_eq_nil_iff.1 hnil)
    · exact hdot (String.toList_inj.1 (hname.trans hone.symm))

/-- **An ending added to a file's name is added to the last name of its path.** -/
theorem EndsInName.path_append {s : String} (h : EndsInName s) {ending : String}
    (hending : '/' ∉ ending.toList) :
    Path.of (s ++ ending) = (Path.of s).withEnding ending ∧
      ∃ names name, (Path.of s).names = names ++ [name] ∧ name ≠ ".." := by
  obtain ⟨folder, name, rfl, hfolder, hslash, hname⟩ := h
  obtain ⟨names, hnames⟩ := splitSlashes_of_folder hfolder
  simp only [List.mem_cons, List.not_mem_nil, or_false, not_or] at hname
  obtain ⟨hempty, hdot⟩ := append_ending_ne hname.1 hname.2.1 ending
  have hshort : (Path.of (folder ++ name)).names =
      (names.filter fun name => name ≠ "" && name ≠ ".") ++ [name] := by
    rw [Path.of, hnames name hslash, List.filter_append]
    simp [hname.1, hname.2.1]
  have hlong : (Path.of (folder ++ name ++ ending)).names =
      (names.filter fun name => name ≠ "" && name ≠ ".") ++ [name ++ ending] := by
    rw [Path.of, String.append_assoc, hnames (name ++ ending) (by simp [hslash, hending]),
      List.filter_append]
    simp [hempty, hdot]
  refine ⟨?_, _, name, hshort, hname.2.2⟩
  rw [Path.withEnding, hshort, addEnding_append, ← hlong, Path.of, Path.of, String.toList_append,
    rootOf_append _ hending]

/-! ## Stores -/

/-- The relative paths of the files do not go up: they are places. -/
def Store.Settled (store : Store) : Prop :=
  ∀ entry ∈ store, entry.1.root = "" → ".." ∉ entry.1.names

instance (store : Store) : Decidable store.Settled :=
  inferInstanceAs (Decidable (∀ entry ∈ store, entry.1.root = "" → ".." ∉ entry.1.names))

@[simp] theorem Store.find?_put (store : Store) (path other : Path) (text : String) :
    (store.put path text).find? other = if path = other then some text else store.find? other := by
  induction store with
  | nil => rfl
  | cons entry store ih =>
    obtain ⟨p, t⟩ := entry
    rw [Store.put]
    split
    · rename_i hp
      subst hp
      simp only [Store.find?]
      split <;> rfl
    · rename_i hp
      simp only [Store.find?, ih]
      split
      · rename_i hother
        subst hother
        rw [if_neg (Ne.symm hp)]
      · rfl

theorem Store.mem_of_find? {store : Store} {path : Path} {text : String}
    (h : store.find? path = some text) : (path, text) ∈ store := by
  induction store with
  | nil => cases h
  | cons entry store ih =>
    obtain ⟨p, t⟩ := entry
    rw [Store.find?] at h
    split at h
    · rename_i hp
      cases h
      rw [hp]
      exact List.mem_cons_self
    · exact List.mem_cons_of_mem _ (ih h)

/-- A path with a file keeps one. -/
theorem Store.exists_mem_put {store : Store} {p : Path} {t : String} (h : (p, t) ∈ store)
    (path : Path) (text : String) : ∃ t', (p, t') ∈ store.put path text := by
  induction store with
  | nil => cases h
  | cons entry store ih =>
    obtain ⟨q, u⟩ := entry
    rw [Store.put]
    rcases List.mem_cons.1 h with heq | hmem
    · cases heq
      split
      · exact ⟨text, List.mem_cons_self⟩
      · exact ⟨t, List.mem_cons_self⟩
    · split
      · exact ⟨t, List.mem_cons_of_mem _ hmem⟩
      · obtain ⟨t', ht'⟩ := ih hmem
        exact ⟨t', List.mem_cons_of_mem _ ht'⟩

theorem Store.isDirectory_put {store : Store} {names : List String}
    (h : store.isDirectory names = true) (path : Path) (text : String) :
    (store.put path text).isDirectory names = true := by
  rw [Store.isDirectory, Bool.or_eq_true, List.any_eq_true] at h ⊢
  refine h.imp id ?_
  rintro ⟨⟨p, t⟩, hmem, hp⟩
  obtain ⟨t', hmem'⟩ := Store.exists_mem_put hmem path text
  exact ⟨(p, t'), hmem', hp⟩

/-- A new file leaves every way as it is. -/
theorem Store.walk?_put {store : Store} {here names there : List String}
    (h : store.walk? here names = some there) (path : Path) (text : String) :
    (store.put path text).walk? here names = some there := by
  induction names generalizing here with
  | nil => exact h
  | cons name names ih =>
    rw [Store.walk?] at h ⊢
    split at h
    · cases h
    · rename_i hhere
      rw [Bool.not_eq_true, Bool.not_eq_false'] at hhere
      simp only [Store.isDirectory_put hhere path text, Bool.not_true, Bool.false_eq_true, if_false]
      split at h
      · rename_i hup
        rw [if_pos hup]
        split at h
        · cases h
        · rename_i hempty
          rw [if_neg hempty]
          exact ih h
      · rename_i hup
        rw [if_neg hup]
        exact ih h

/-- The last name of a way, if it does not go up. -/
theorem Store.walk?_last {store : Store} {here names there : List String} {name : String}
    (hname : name ≠ "..") (h : store.walk? here (names ++ [name]) = some there) :
    ∃ folder, there = folder ++ [name] ∧
      ∀ other, other ≠ ".." → store.walk? here (names ++ [other]) = some (folder ++ [other]) := by
  induction names generalizing here with
  | nil =>
    refine ⟨here, ?_, fun other hother => ?_⟩
    all_goals
      simp only [List.nil_append, Store.walk?] at h ⊢
      split at h
      · cases h
      · rename_i hhere
        simp_all
  | cons first names ih =>
    simp only [List.cons_append, Store.walk?] at h ⊢
    split at h
    · cases h
    · split at h
      · split at h
        · cases h
        · simp_all
      · simp_all

/-- A way from a place leads to a place. -/
theorem Store.walk?_place {store : Store} {here names there : List String} (hhere : ".." ∉ here)
    (h : store.walk? here names = some there) : ".." ∉ there := by
  induction names generalizing here with
  | nil =>
    cases h
    exact hhere
  | cons name names ih =>
    rw [Store.walk?] at h
    split at h
    · cases h
    · split at h
      · split at h
        · cases h
        · exact ih (fun hmem => hhere (List.dropLast_subset here hmem)) h
      · rename_i hup
        exact ih (by simp [hhere, Ne.symm hup]) h

/-- Names that do not go up are followed one after the other. -/
theorem Store.walk?_down {store : Store} {here names there : List String} (hnames : ".." ∉ names)
    (h : store.walk? here names = some there) : there = here ++ names := by
  induction names generalizing here with
  | nil =>
    cases h
    simp
  | cons name names ih =>
    simp only [List.mem_cons, not_or] at hnames
    rw [Store.walk?, if_neg (Ne.symm hnames.1)] at h
    split at h
    · cases h
    · rw [ih hnames.2 h]
      simp

/-- A file is at its path, or at a place that its path goes up and down to. -/
theorem Store.get?_cases {store : Store} {path place : Path} {text : String}
    (h : store.get? path = some (place, text)) :
    place = path ∨ path.root = "" ∧ ".." ∈ path.names ∧
      ∃ there, place = ⟨"", there⟩ ∧ store.walk? [] path.names = some there := by
  simp only [Store.get?, Option.bind_eq_bind, Option.bind_eq_some_iff] at h
  obtain ⟨found, hfound, content, hcontent, heq⟩ := h
  cases heq
  rw [Store.resolve?] at hfound
  split at hfound
  · exact Or.inl (Option.some.inj hfound).symm
  · rename_i hpath
    split at hfound
    · rename_i hroot
      obtain ⟨there, hwalk, rfl⟩ := Option.map_eq_some_iff.1 hfound
      refine Or.inr ⟨hroot, ?_, there, rfl, hwalk⟩
      by_cases hup : ".." ∈ path.names
      · exact hup
      · -- without going up the place is the path itself, which has no file
        have hplace : Path.mk "" there = path := by
          obtain ⟨root, names⟩ := path
          rw [Store.walk?_down hup hwalk, ← hroot]
          rfl
        rw [hplace] at hcontent
        simp [hcontent] at hpath
    · cases hfound

theorem Store.get?_of_find? {store : Store} {path : Path} {text : String}
    (h : store.find? path = some text) : store.get? path = some (path, text) := by
  simp [Store.get?, Store.resolve?, h]

theorem Store.get?_of_walk? {store : Store} {path : Path} {there : List String} {text : String}
    (hroot : path.root = "") (hpath : store.find? path = none)
    (hwalk : store.walk? [] path.names = some there)
    (hplace : store.find? ⟨"", there⟩ = some text) :
    store.get? path = some (⟨"", there⟩, text) := by
  simp [Store.get?, Store.resolve?, hroot, hpath, hwalk, hplace]

theorem Store.Settled.find?_up {store : Store} (hstore : store.Settled) {path : Path}
    (hroot : path.root = "") (hup : ".." ∈ path.names) : store.find? path = none := by
  cases hfind : store.find? path with
  | none => rfl
  | some text => exact absurd hup (hstore _ (Store.mem_of_find? hfind) hroot)

/-- **Where a path leads, the path with an ending leads to the file put beside it.** -/
theorem Store.get?_put_withEnding {store : Store} (hstore : store.Settled) {path place : Path}
    {text : String} (h : store.get? path = some (place, text))
    (hlast : ∃ names name, path.names = names ++ [name] ∧ name ≠ "..") {ending : String}
    (hending : ∀ name, name ++ ending ≠ "..") (written : String) :
    (store.put (place.withEnding ending) written).get? (path.withEnding ending) =
      some (place.withEnding ending, written) := by
  obtain ⟨names, name, hnames, hname⟩ := hlast
  rcases Store.get?_cases h with rfl | ⟨hroot, hup, there, rfl, hwalk⟩
  · exact Store.get?_of_find? (by simp)
  · rw [hnames] at hup hwalk
    obtain ⟨folder, rfl, hfolder⟩ := Store.walk?_last hname hwalk
    have hplace : ".." ∉ folder ++ [name] := Store.walk?_place List.not_mem_nil hwalk
    have hbeside : (Path.mk "" (folder ++ [name])).withEnding ending =
        ⟨"", folder ++ [name ++ ending]⟩ := by
      rw [Path.withEnding, addEnding_append]
    have hpath : (path.withEnding ending).names = names ++ [name ++ ending] := by
      rw [Path.withEnding, hnames, addEnding_append]
    have hup' : ".." ∈ (path.withEnding ending).names := by
      rw [hpath]
      simp only [List.mem_append, List.mem_singleton, Ne.symm hname, or_false] at hup
      exact List.mem_append_left _ hup
    have hne : Path.mk "" (folder ++ [name ++ ending]) ≠ path.withEnding ending := by
      intro heq
      rw [← heq, List.mem_append, List.mem_singleton] at hup'
      rcases hup' with hmem | hmem
      · exact hplace (List.mem_append_left _ hmem)
      · exact hending name hmem.symm
    rw [hbeside]
    refine Store.get?_of_walk? hroot ?_ ?_ (by simp)
    · rw [Store.find?_put, if_neg hne]
      exact hstore.find?_up hroot hup'
    · rw [hpath]
      exact Store.walk?_put (hfolder _ (hending name)) _ _

end BlockScript
