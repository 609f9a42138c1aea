import LinerNotes.Text.Blank

/-!
Text made safe for a file name. A hazard is a class of characters that a name should not hold; each
run of them becomes one substitute, which is never doubled and never left at an end. Apostrophes are
always dropped.
-/

namespace LinerNotes

/-- Which characters are dangerous in a name. -/
inductive Hazard where
  /-- white space and what a shell gives a meaning -/
  | shell
  /-- white space and what some filesystems reject -/
  | filesystem
deriving DecidableEq

namespace Hazard

def symbols : Hazard → List Char
  | .shell =>
      ['`', '~', '!', '#', '$', '%', '^', '&', '*', '(', ')', '=',
        '[', '\x7b', '\x7d', '\\', '|', ';', ':', '"', ',', '<', '>', '/', '?']
  | .filesystem => ['<', '>', ':', '"', '/', '\\', '|', '?', '*']

def holds (hazard : Hazard) (c : Char) : Bool :=
  Text.isBlank c || hazard.symbols.contains c

/-- The dangerous characters when a hazard may be missing; without one, no character
is dangerous. -/
def holdsFor (hazard : Option Hazard) (c : Char) : Bool :=
  hazard.any (holds · c)

/-- What a text becomes when nothing of it is left. -/
def fallback : List Char := ['_']

/-- Each run of dangerous characters as one substitute. The first argument after the class and the
substitute tells whether a run has begun. -/
def replaceRuns (dangerous : Char → Bool) (substitute : List Char) : Bool → List Char → List Char
  | _, [] => []
  | inRun, c :: rest =>
      if dangerous c then
        (if inRun then [] else substitute) ++ replaceRuns dangerous substitute true rest
      else c :: replaceRuns dangerous substitute false rest

/-- How many copies of a word, one after the other, a text begins with; the first argument bounds
the count. -/
def copies (word : List Char) : Nat → List Char → Nat
  | 0, _ => 0
  | bound + 1, s => if word.isPrefixOf s then copies word bound (s.drop word.length) + 1 else 0

/-- A text in which each row of two or more copies of a word is one copy. The rows are found from
the left and are as long as can be. The number tells how many characters to pass over, being part of
a row already written. -/
def collapseFrom (word : List Char) : Nat → List Char → List Char
  | _, [] => []
  | skip + 1, _ :: rest => collapseFrom word skip rest
  | 0, c :: rest =>
      if (word ++ word).isPrefixOf (c :: rest) then
        word ++ collapseFrom word (copies word (rest.length + 1) (c :: rest) * word.length - 1) rest
      else c :: collapseFrom word 0 rest

/-- A text without one copy of a word at its front. -/
def dropFront (word s : List Char) : List Char :=
  if word.isPrefixOf s then s.drop word.length else s

/-- A text without one copy of a word at its end. -/
def dropBack (word s : List Char) : List Char :=
  if word.isSuffixOf s then s.take (s.length - word.length) else s

/-- A text without doubled substitutes and without a substitute at either end. -/
def tidy (substitute s : List Char) : List Char :=
  if substitute = [] then s
  else dropBack substitute (dropFront substitute (collapseFrom substitute 0 s))

/-- What is left of a text in a file name, or the fallback if nothing is. An apostrophe is no
substitute. -/
def clean (hazard : Option Hazard) (substitute s : List Char) : List Char :=
  let substitute := if substitute = ['\''] then [] else substitute
  let safe := replaceRuns (holdsFor hazard) substitute false (s.filter (· != '\''))
  match tidy substitute safe with
  | [] => fallback
  | kept => kept

end Hazard

end LinerNotes
