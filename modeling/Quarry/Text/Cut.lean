/-!
# Cutting — texts apart at fixed places and at quotes

Plain cutting knows nothing of quotes and brackets: it cuts at the first occurrence of a text, or at
every occurrence of a character.  A delimited text goes from a quote to its partner; inside it a
backslash protects the character after it, except a line break.
-/

namespace Quarry.Text

/-! ### Fixed places -/

/-- What stands before and after the first occurrence of `needle`. -/
def cutFirst? (needle : List Char) : List Char → Option (List Char × List Char)
  | [] => if needle.isEmpty then some ([], []) else none
  | c :: s =>
      match needle.isPrefixOf? (c :: s) with
      | some rest => some ([], rest)
      | none => (cutFirst? needle s).map fun (before, after) => (c :: before, after)

/-- `needle` occurs in a text. -/
def occurs (needle s : List Char) : Bool :=
  (cutFirst? needle s).isSome

/-- The parts between the occurrences of a character; always at least one. -/
def cutAll (sep : Char) : List Char → List (List Char)
  | [] => [[]]
  | c :: s =>
      if c = sep then [] :: cutAll sep s
      else
        match cutAll sep s with
        | [] => [[c]]
        | part :: parts => (c :: part) :: parts

/-- The text without `c` at its front. -/
def dropLeading (c : Char) : List Char → List Char
  | d :: s => if d = c then s else d :: s
  | [] => []

/-- The text before `tail` if it ends in it. -/
def dropTrailing? (tail s : List Char) : Option (List Char) :=
  (tail.reverse.isPrefixOf? s.reverse).map List.reverse

/-! ### Delimited text -/

/-- The rest of a text delimited by `q`, after the opening delimiter and with the closing one, and
what comes after it. -/
def delimited? (q : Char) : List Char → Option (List Char × List Char)
  | [] => none
  | c :: s =>
      if c = q then some ([c], s)
      else if c = '\\' then
        match s with
        | [] => none
        | d :: s' =>
            if d = '\n' then none
            else (delimited? q s').map fun (text, rest) => (c :: d :: text, rest)
      else (delimited? q s).map fun (text, rest) => (c :: text, rest)

/-- The text with each protecting backslash taken away. -/
def unprotect : List Char → List Char
  | [] => []
  | [c] => [c]
  | c :: d :: s =>
      if c = '\\' && d ≠ '\n' then d :: unprotect s else c :: unprotect (d :: s)

end Quarry.Text
