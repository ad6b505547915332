/-
  BlockScript — the options of the command line.

  `-v` asks for a trace and may be repeated, also within one word.  `--parser`,
  `--emit-ast` and `--ast` take a value, as the next word or after `=`, and
  may be shortened as long as only one option fits; the last two exclude each
  other.  One other word may name a program.  After `--` every word is such a
  name.  `-h` or `--help` asks for help, which is given at once.

  A word that starts with a dash is a name, too, if it is a dash alone, looks
  like a negative number, or fits no option and holds a blank.

  Words are read from the left.  A value that is missing or does not fit ends
  the reading, so that help further on is not given.  An option that does not
  exist and a name too many do not; and a word that fits several options is a
  misuse before anything is read.

  * `Word`: what a word is, `Word.of` for a given word;
  * `Options`, `Request`: what a command line asks for;
  * `Request.read words`: what the command line with these words asks for.
-/
import BlockScript.Strategy

namespace BlockScript

/-- What takes a value. -/
inductive Setting where
  | parser
  | emit
  | load
  deriving DecidableEq

/-- The long options, with what they set; help sets nothing. -/
def longOptions : List (String × Option Setting) :=
  [("--help", none), ("--parser", some .parser), ("--emit-ast", some .emit),
    ("--ast", some .load)]

/-- What a word of the command line is. -/
inductive Word where
  /-- a name -/
  | plain
  /-- the word `--` -/
  | separator
  | help
  | verbose (count : Nat)
  /-- a setting, with the value that follows `=` in the same word -/
  | setting (which : Setting) (value : Option String)
  /-- an option with something behind it that it does not take -/
  | malformed
  /-- an option that does not exist -/
  | unknown
  /-- the start of several options -/
  | ambiguous
  deriving DecidableEq

/-- Whether a text is digits, or digits around a point of which at least one
    comes after it. -/
def isPlainDecimal (cs : List Char) : Bool :=
  match cs.dropWhile isDecimal with
  | [] => !cs.isEmpty
  | c :: fraction => c = '.' && !fraction.isEmpty && fraction.all isDecimal

/-- A text without one line feed at its end. -/
def dropLineFeed (cs : List Char) : List Char :=
  if cs.getLast? = some '\n' then cs.dropLast else cs

/-- Whether what follows a dash makes it a negative number.  A line feed at
    the end is overlooked. -/
def isNegativeNumber (cs : List Char) : Bool :=
  isPlainDecimal (dropLineFeed cs)

/-- A word with a dash in front that fits no option. -/
def Word.unfitting (cs : List Char) : Word :=
  if cs.contains ' ' then .plain else .unknown

/-- A word with two dashes in front: an option by its name or the start of its
    name, up to `=`. -/
def Word.long (cs : List Char) : Word :=
  let name := cs.takeWhile (· ≠ '=')
  let value := match cs.dropWhile (· ≠ '=') with
    | [] => none
    | _ :: value => some (String.ofList value)
  match longOptions.filter fun option => name.isPrefixOf option.1.toList with
  | [] => .unfitting cs
  | [(_, some which)] => .setting which value
  | [(_, none)] => if value.isSome then .malformed else .help
  | _ => .ambiguous

/-- The options of one letter, which may share a dash, on top of those read
    before.  Any other letter is an option that does not exist. -/
def Word.letters (help : Bool) (count : Nat) : List Char → Word
  | [] => if help then .help else .verbose count
  | 'v' :: cs => .letters help (count + 1) cs
  | 'h' :: cs => .letters true count cs
  | c :: _ =>
    if c = '-' || c = '=' then .malformed
    else if help then .help
    else .unknown

/-- What a word is. -/
def Word.of (word : String) : Word :=
  match word.toList with
  | ['-', '-'] => .separator
  | '-' :: '-' :: cs => .long ('-' :: '-' :: cs)
  | '-' :: c :: cs =>
    if c = 'v' || c = 'h' then .letters false 0 (c :: cs)
    else if isNegativeNumber (c :: cs) then .plain
    else .unfitting ('-' :: c :: cs)
  | _ => .plain

/-- What a command is to do. -/
structure Options where
  verbosity : Nat
  strategy : Strategy
  /-- the program to write as a document -/
  emit : Option String
  /-- the document to run -/
  load : Option String
  /-- the program to run -/
  program : Option String
  deriving DecidableEq

/-- The options of an empty command line. -/
def Options.default : Options := ⟨0, .descent, none, none, none⟩

/-- Options with the value of a setting.  Of a repeated setting the last value
    counts. -/
def Options.put? (o : Options) (which : Setting) (value : String) : Option Options :=
  match which with
  | .parser => (Strategy.ofName? value).map fun s => { o with strategy := s }
  | .emit => if o.load.isSome then none else some { o with emit := some value }
  | .load => if o.emit.isSome then none else some { o with load := some value }

/-- What a command line asks for. -/
inductive Request where
  | command (options : Options)
  | help
  /-- the command line is not well formed -/
  | misuse
  deriving DecidableEq

/-- What options ask for, unless a word was left over. -/
def Request.of (o : Options) (stray : Bool) : Request :=
  if stray then .misuse else .command o

/-- What the words that are left ask for, on top of the options read before.
    `stray` tells whether one of these words was left over. -/
def Request.readFrom (o : Options) (stray : Bool) : List String → Request
  | [] => .of o stray
  | word :: rest => match Word.of word with
    | .help => .help
    | .malformed | .ambiguous => .misuse
    | .unknown => Request.readFrom o true rest
    | .verbose count => Request.readFrom { o with verbosity := o.verbosity + count } stray rest
    | .setting which (some value) => match o.put? which value with
      | some o => Request.readFrom o stray rest
      | none => .misuse
    | .setting which none => match rest with
      | [] => .misuse
      | value :: rest =>
        if Word.of value = .plain then
          match o.put? which value with
          | some o => Request.readFrom o stray rest
          | none => .misuse
        else .misuse
    | .separator => match o.program, rest with
      | none, [] => .of o stray
      | none, [name] => .of { o with program := some name } stray
      | _, _ => .misuse
    | .plain =>
      if o.program.isSome then Request.readFrom o true rest
      else if rest = ["--"] then .of { o with program := some word } stray
      else Request.readFrom { o with program := some word } stray rest

/-- What the words of a command line ask for. -/
def Request.read (words : List String) : Request :=
  if (words.takeWhile (· ≠ "--")).any (Word.of · = .ambiguous) then .misuse
  else Request.readFrom Options.default false words

/-- A value that is not empty. -/
def nonEmpty? (value : Option String) : Option String :=
  value.filter fun s => !s.isEmpty

end BlockScript
