/-
  BlockScript — texts with lone surrogates.

  A document can write a surrogate by its code.  Two of them make a character;
  one that stands alone stays a part of the text, but no stream can write it.

  * `Text`: a sequence of code points, `Text.of s` that of a string;
  * `Text.string?`: the string that a text is, if it has no lone surrogate;
  * `Text.escaped`, `Text.quoted`: a text as messages show it.
-/
import BlockScript.Text.Quoted

namespace BlockScript

/-- A code point: a character, or a surrogate, counted from the first one. -/
inductive CodePoint where
  | char (c : Char)
  | surrogate (n : Fin 0x800)
  deriving DecidableEq

/-- A text as a document gives it. -/
abbrev Text := List CodePoint

/-- The code point with a number. -/
def CodePoint.ofNat (n : Nat) : CodePoint :=
  if h : 0xd800 ≤ n ∧ n < 0xe000 then .surrogate ⟨n - 0xd800, by omega⟩ else .char (Char.ofNat n)

/-- The character that a code point is. -/
def CodePoint.char? : CodePoint → Option Char
  | .char c => some c
  | .surrogate _ => none

/-- The text of a string. -/
def Text.of (s : String) : Text :=
  s.toList.map .char

/-- The string that a text is. -/
def Text.string? (t : Text) : Option String :=
  (t.mapM CodePoint.char?).map String.ofList

/-! ## Display -/

/-- A surrogate written by its code point. -/
def surrogateEscape (n : Fin 0x800) : List Char :=
  '\\' :: 'u' :: hexDigits 4 (0xd800 + n)

/-- A code point as the error output shows it. -/
def CodePoint.escaped : CodePoint → List Char
  | .char c => [c]
  | .surrogate n => surrogateEscape n

/-- A text as the error output shows it. -/
def Text.escaped (t : Text) : String :=
  String.ofList (t.flatMap CodePoint.escaped)

/-- A code point of a text shown in the quote `q`. -/
def CodePoint.quoted (q : Char) : CodePoint → List Char
  | .char c => quotedChar q c
  | .surrogate n => surrogateEscape n

/-- The quoted form of a text. -/
def Text.quoted (t : Text) : String :=
  let q := quoteFor (t.filterMap CodePoint.char?)
  String.ofList (q :: t.flatMap (CodePoint.quoted q) ++ [q])

/-! ## Strings as texts -/

theorem CodePoint.mapM_char? (cs : List Char) :
    (cs.map CodePoint.char).mapM CodePoint.char? = some cs := by
  induction cs with
  | nil => rfl
  | cons c cs ih => simp [CodePoint.char?, ih]

@[simp] theorem Text.string?_of (s : String) : (Text.of s).string? = some s := by
  rw [Text.string?, Text.of, CodePoint.mapM_char?, Option.map_some, String.ofList_toList]

theorem Text.string?_eq_some {t : Text} {s : String} : t.string? = some s ↔ t = Text.of s := by
  constructor
  · intro h
    obtain ⟨cs, hcs, rfl⟩ := Option.map_eq_some_iff.1 h
    clear h
    induction t generalizing cs with
    | nil => cases hcs; rfl
    | cons p t ih =>
      cases p with
      | surrogate n => simp [CodePoint.char?] at hcs
      | char c =>
        simp only [List.mapM_cons, CodePoint.char?, Option.bind_eq_bind, Option.bind_some,
          Option.bind_eq_some_iff] at hcs
        obtain ⟨rest, hrest, heq⟩ := hcs
        cases heq
        have ht := ih rest hrest
        simp only [Text.of, String.toList_ofList] at ht
        simp [Text.of, ht]
  · rintro rfl
    exact Text.string?_of s

theorem Text.of_injective {s s' : String} (h : Text.of s = Text.of s') : s = s' := by
  have hs := Text.string?_of s
  rw [h, Text.string?_of] at hs
  exact (Option.some.inj hs).symm

@[simp] theorem Text.of_inj {s s' : String} : Text.of s = Text.of s' ↔ s = s' :=
  ⟨Text.of_injective, congrArg Text.of⟩

theorem Text.of_append (s s' : String) : Text.of (s ++ s') = Text.of s ++ Text.of s' := by
  simp [Text.of, String.toList_append]

@[simp] theorem Text.escaped_of (s : String) : (Text.of s).escaped = s := by
  have hchars : ∀ cs : List Char, (cs.map CodePoint.char).flatMap CodePoint.escaped = cs := by
    intro cs
    induction cs with
    | nil => rfl
    | cons c cs ih => simp [CodePoint.escaped, ih]
  simp [Text.escaped, Text.of, hchars]

end BlockScript
