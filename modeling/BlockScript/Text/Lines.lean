/-
  BlockScript — line ends of texts that come from outside.

  A text read from a file or from the input has its line ends unified: a
  carriage return, with or without a line feed after it, becomes one line
  feed.  An interactive reader then takes the text line by line.

  * `unifyLineEnds s`: `s` with every line end written as a line feed;
  * `splitLines s`: the lines of `s` without their line feeds, where a last
    line need not be closed.
-/
namespace BlockScript

/-- Write every line end as a line feed. -/
def unifyLineEndsChars : List Char → List Char
  | [] => []
  | '\r' :: '\n' :: rest => '\n' :: unifyLineEndsChars rest
  | '\r' :: rest => '\n' :: unifyLineEndsChars rest
  | c :: rest => c :: unifyLineEndsChars rest

/-- A text with every line end written as a line feed. -/
def unifyLineEnds (s : String) : String :=
  String.ofList (unifyLineEndsChars s.toList)

/-- The lines of a text, given the characters of the current line in reverse
    order.  What follows the last line feed is a line only if it is not empty. -/
def splitLinesFrom (current : List Char) : List Char → List String
  | [] => if current.isEmpty then [] else [String.ofList current.reverse]
  | '\n' :: rest => String.ofList current.reverse :: splitLinesFrom [] rest
  | c :: rest => splitLinesFrom (c :: current) rest

/-- The lines of a text, without their line feeds. -/
def splitLines (s : String) : List String :=
  splitLinesFrom [] s.toList

end BlockScript
