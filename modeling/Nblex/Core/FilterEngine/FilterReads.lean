import Nblex.Core.FilterEngine.Parser
import Nblex.Misc.TerminatedText

/-!
# What the filter parser reads

The functions of the filter parser once more, on pointers into the text in memory: every character
is read where the source reads it. `turns` bounds the turns of each loop and the depth of the
recursion.
-/

namespace Nblex

namespace FilterReads

/-- The operators in the order in which they are tried. -/
def operators : List (List Char × FilterOp) :=
  [(['=', '='], .eq), (['!', '='], .ne), (['<', '='], .le), (['>', '='], .ge), (['<'], .lt),
    (['>'], .gt), (['=', '~'], .patMatch), (['!', '~'], .patNmatch), (['i', 'n'], .isIn),
    (['c', 'o', 'n', 't', 'a', 'i', 'n', 's'], .contains)]

/-- The words of `NOT`. -/
def negations : List (List Char × Unit) := [(['N', 'O', 'T'], ()), (['n', 'o', 't'], ())]

/-- The words of `true` and `false`. -/
def booleans : List (List Char × Bool) :=
  [(['t', 'r', 'u', 'e'], true), (['f', 'a', 'l', 's', 'e'], false)]

/-- The words of `AND` and `OR`, with the nodes they build. -/
def connectives : List (List Char × (FilterNode → FilterNode → FilterNode)) :=
  [(['A', 'N', 'D'], .and), (['a', 'n', 'd'], .and), (['O', 'R'], .or), (['o', 'r'], .or)]

variable (text : List Char) (turns : Nat)

/-- The loop over a quoted string. -/
def scanQuoted : Nat → Nat → Except Fault Nat
  | 0, _ => .error .turns
  | turns + 1, pos => do
      let c ← readAt text pos
      if c = nul ∨ c = '"' then pure pos
      else if c = '\\' then do
        let escaped ← readAt text (pos + 1)
        if escaped ≠ nul then scanQuoted turns (pos + 2) else scanQuoted turns (pos + 1)
      else scanQuoted turns (pos + 1)

/-- A string value behind its opening quote. -/
def parseQuoted (start : Nat) : Except Fault (FilterValue × Option String × Nat) := do
  let pos ← scanQuoted text turns start
  let c ← readAt text pos
  if c = '"' then do
    let body ← copyFrom text start (pos - start)
    pure (.string (String.ofList body), none, pos + 1)
  else pure (.unset, none, pos)

/-- `isdigit(*pos) || (*pos == '-' && isdigit(*(pos + 1)))`. -/
def atNumber (pos : Nat) : Except Fault Bool := do
  let c ← readAt text pos
  if isdigit c then pure true
  else if c = '-' then do
    let next ← readAt text (pos + 1)
    pure (isdigit next)
  else pure false

/-- A numeric value; `strchr`, `strtod` and `strtol` are given the pointer. -/
def parseNumber (pos : Nat) : Except Fault (FilterValue × Option String × Nat) := do
  let rest ← stringAt text pos
  if rest.contains '.' then pure (.real (strtod rest).1, none, text.length - (strtod rest).2.length)
  else pure (.integer (toInt32 (strtol rest).1), none, text.length - (strtol rest).2.length)

/-- A pattern up to a blank. -/
def parsePattern [Pcre2] (start : Nat) : Except Fault (FilterValue × Option String × Nat) := do
  let pos ← scanWhile text (fun c => !isspace c) turns start
  let pattern ← copyFrom text start (pos - start)
  let pattern := String.ofList pattern
  pure (.pattern, if Pcre2.compile pattern then some pattern else none, pos)

/-- The value of a comparison. -/
def parseFilterValue [Pcre2] (op : FilterOp) (pos : Nat) :
    Except Fault (FilterValue × Option String × Nat) := do
  let c ← readAt text pos
  if c = '"' then parseQuoted text turns (pos + 1)
  else if ← atNumber text pos then parseNumber text pos
  else do
    match ← firstMatch text pos booleans with
    | some (value, pos) => pure (.bool value, none, pos)
    | none =>
        if op = .patMatch ∨ op = .patNmatch then parsePattern text turns pos
        else pure (.unset, none, pos)

/-- One comparison: field, operator, value. -/
def parseFilterAtom [Pcre2] (start : Nat) : Except Fault (Option (FilterNode × Nat)) := do
  let pos ← scanWhile text isFieldChar turns start
  if pos = start then pure none
  else do
    let field ← copyFrom text start (pos - start)
    let pos ← scanWhile text isspace turns pos
    match ← firstMatch text pos operators with
    | none => pure none
    | some (op, pos) => do
        let pos ← scanWhile text isspace turns pos
        let (value, regexCode, pos) ← parseFilterValue text turns op pos
        pure (some (.expr ⟨String.ofList field, op, value, regexCode⟩, pos))

/-- `if (*pos == ')') pos++`. -/
def skipClose (pos : Nat) : Except Fault Nat := do
  let c ← readAt text pos
  if c = ')' then pure (pos + 1) else pure pos

/-- `parse_filter_expr`; the first argument bounds the depth of its recursion. -/
def parseFilterExpr [Pcre2] : Nat → Nat → Except Fault (Option (FilterNode × Nat))
  | 0, _ => .error .turns
  | depth + 1, pos => do
      let pos ← scanWhile text isspace turns pos
      let c ← readAt text pos
      if c = '(' then do
        match ← parseFilterExpr depth (pos + 1) with
        | none => pure none
        | some (node, pos) => do
            let pos ← scanWhile text isspace turns pos
            let pos ← skipClose text pos
            pure (some (node, pos))
      else do
        match ← firstMatch text pos negations with
        | some (_, pos) => do
            match ← parseFilterExpr depth pos with
            | none => pure none
            | some (operand, pos) => pure (some (.not operand, pos))
        | none => parseFilterAtom text turns pos

/-- The loop of `parse_filter_full`. -/
def parseFilterLoop [Pcre2] : Nat → FilterNode → Nat → Except Fault (Option FilterNode)
  | 0, _, _ => .error .turns
  | left + 1, tree, pos => do
      let c ← readAt text pos
      if c = nul then pure (some tree)
      else do
        let pos ← scanWhile text isspace turns pos
        match ← firstMatch text pos connectives with
        | none => pure (some tree)
        | some (node, pos) => do
            match ← parseFilterExpr text turns turns pos with
            | none => pure none
            | some (right, pos) => parseFilterLoop left (node tree right) pos

/-- `nblex_filter_new`, which is `parse_filter_full`. -/
def nblexFilterNew [Pcre2] : Except Fault (Option FilterNode) := do
  match ← parseFilterExpr text turns turns 0 with
  | none => pure none
  | some (left, pos) => parseFilterLoop text turns turns left pos

end FilterReads

end Nblex
