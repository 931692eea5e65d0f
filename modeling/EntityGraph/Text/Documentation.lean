import EntityGraph.Text.Basic

/-!
# Documentation texts

`normalize` cleans one text; `squeeze` reduces a collection of texts to its sorted members of
which none is continued by its successor, so that a text makes its own beginnings superfluous.
-/
namespace EntityGraph.Text.Documentation

/-- Keeps the first of adjacent spaces. -/
def collapseSpaces (afterSpace : Bool) : List Char → List Char
  | [] => []
  | c :: rest =>
    if c = ' ' then
      if afterSpace then collapseSpaces true rest else c :: collapseSpaces true rest
    else c :: collapseSpaces false rest

def dropTrailing (c : Char) (chars : List Char) : List Char :=
  (chars.reverse.dropWhile (· = c)).reverse

/-- Trims, collapses runs of spaces, closes up parentheses and double line breaks, and drops final
periods, in this order. -/
def normalizeChars (chars : List Char) : List Char :=
  let spaced := collapseSpaces false (trimChars chars)
  let closed := replacePair ' ' ')' ')' spaced
  dropTrailing '.' (replacePair '\n' '\n' '\n' closed)

def normalize (text : String) : String := String.ofList (normalizeChars text.toList)

/-- Adds a text behind the ones kept so far (the last one first), in place of the last one if it
continues that. -/
def squeezeStep (kept : List String) (text : String) : List String :=
  match kept with
  | last :: earlier => if text.startsWith last then text :: earlier else text :: kept
  | [] => [text]

/-- Sorted and distinct, without texts that their successor continues. -/
def squeeze (texts : List String) : List String :=
  ((sortDistinct texts).foldl squeezeStep []).reverse

end EntityGraph.Text.Documentation
