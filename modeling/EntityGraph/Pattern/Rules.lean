import EntityGraph.Pattern.Reader
import EntityGraph.Pattern.Template
import EntityGraph.Settings.Basic

/-!
# Lists of patterns

A name belongs to a pattern set if one of the patterns matches all of it. A substitution list
changes a name by the first rule that matches, again and again, until nothing changes or until each
rule could have had its turn.
-/
namespace EntityGraph

structure PatternSet where
  patterns : List Pattern
  deriving DecidableEq, Repr, Inhabited

namespace PatternSet

def ofTexts (texts : List String) : Result PatternSet := do
  return ⟨← texts.mapM Pattern.whole⟩

def contains (set : PatternSet) (name : String) : Bool := set.patterns.any (·.isMatch name)

def isEmpty (set : PatternSet) : Bool := set.patterns.isEmpty

end PatternSet

/-- A pattern and the template that replaces its match. -/
structure SubstitutionRule where
  pattern : Pattern
  replacement : String
  deriving DecidableEq, Repr, Inhabited

structure SubstitutionList where
  rules : List SubstitutionRule
  deriving DecidableEq, Repr, Inhabited

namespace SubstitutionList

def ofSubstitutions (substitutions : List Substitution) : Result SubstitutionList := do
  let rules ← substitutions.mapM fun substitution => do
    return (⟨← Pattern.whole substitution.pattern, substitution.replacement⟩ : SubstitutionRule)
  return ⟨rules⟩

/-- What the first rule that matches makes of a name. -/
def step? (list : SubstitutionList) (name : String) : Option String :=
  list.rules.findSome? fun rule => rule.pattern.replace? name rule.replacement

/-- Steps until nothing changes, and not more often than told. -/
def settle (list : SubstitutionList) : Nat → String → String
  | 0, name => name
  | passes + 1, name =>
    match list.step? name with
    | some next => if next = name then name else list.settle passes next
    | none => name

/-- The settled name, if it differs from the name itself. -/
def renamed? (list : SubstitutionList) (name : String) : Option String :=
  let settled := list.settle (list.rules.length + 1) name
  if settled = name then none else some settled

end SubstitutionList

end EntityGraph
