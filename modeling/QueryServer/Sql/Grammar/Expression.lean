import QueryServer.Sql.Grammar
/-!
Expressions. Operators have levels; all of them bind to the left, and an operator of a higher
level binds tighter.
-/

namespace QueryServer.Sql.Grammar

/-- Levels of operators, from loose to tight. -/
def levelOr : Nat := 1
def levelAnd : Nat := 2
def levelNot : Nat := 3
def levelEquality : Nat := 4
def levelOrder : Nat := 5
def levelBits : Nat := 7
def levelSum : Nat := 8
def levelProduct : Nat := 9
def levelConcat : Nat := 10
def levelSign : Nat := 11

def binaryOf? : Token → Option (Nat × BinaryOp)
  | .keyword .OR => some (levelOr, .or)
  | .keyword .AND => some (levelAnd, .and)
  | .symbol .equal => some (levelEquality, .compare .equal)
  | .symbol .unequal => some (levelEquality, .compare .unequal)
  | .symbol .less => some (levelOrder, .compare .less)
  | .symbol .lessEqual => some (levelOrder, .compare .lessEqual)
  | .symbol .greater => some (levelOrder, .compare .greater)
  | .symbol .greaterEqual => some (levelOrder, .compare .greaterEqual)
  | .symbol .bitAnd => some (levelBits, .bits .and)
  | .symbol .bitOr => some (levelBits, .bits .or)
  | .symbol .shiftLeft => some (levelBits, .bits .shiftLeft)
  | .symbol .shiftRight => some (levelBits, .bits .shiftRight)
  | .symbol .plus => some (levelSum, .arithmetic .add)
  | .symbol .minus => some (levelSum, .arithmetic .subtract)
  | .symbol .star => some (levelProduct, .arithmetic .multiply)
  | .symbol .slash => some (levelProduct, .arithmetic .divide)
  | .symbol .percent => some (levelProduct, .arithmetic .remainder)
  | .symbol .concat => some (levelConcat, .concat)
  | _ => none

/-- The words of a pattern operator, which call a function of the same name. -/
def isPattern (k : Keyword) : Bool :=
  [.LIKE, .GLOB, .REGEXP, .MATCH].contains k

/-- The words of a declared type: names, then up to two sizes in parentheses. -/
def typeWords : Nat → Grammar Unit
  | 0 => return ()
  | n + 1 => do if (← bareName?).isSome then typeWords n else return ()

def signedNumber : Grammar Unit := do
  if ← symbol? .plus then pure () else let _ ← symbol? .minus
  match ← peek with
  | some (.integer _) | some (.hexadecimal _) | some (.decimal _) => let _ ← take
  | _ => stuck

/-- A declared type as it was written; it may be missing. -/
def declaredType : Grammar String := do
  let start ← remaining
  if (← bareName?).isNone then return ""
  typeWords start.length
  if ← symbol? .open then
    signedNumber
    if ← symbol? .comma then signedNumber
    symbol .close
  let finish ← remaining
  let source := match start with
    | l :: _ => l.text ++ l.rest
    | [] => []
  let after := match start.drop (start.length - finish.length - 1) with
    | l :: _ => l.rest.length
    | [] => 0
  return String.ofList (source.take (source.length - after))

def literalOf? : Token → Option Expr
  | .string text => some (.literal (.ofString text))
  | .blob bytes => some (.literal (.blob bytes))
  | .integer digits => some (.integer digits)
  | .decimal text => some (.literal (.real (Numeric.readReal text).1))
  | .keyword .NULL => some (.literal .null)
  | _ => none

/-- Whether a parameter is one that no client may write: a number after a hash. -/
def isRegister : List Char → Bool
  | '#' :: c :: _ => c.isDigit
  | _ => false

def nextQuoting : Grammar Quoting := do
  match ← peek with
  | some (.name _ quoting) => return quoting
  | _ => return .bare

mutual

/-- An expression whose outermost operators have at least a given level. -/
def exprAt : Nat → Nat → Grammar Expr
  | 0, _ => stuck
  | n + 1, level => do operators n level (← operand n)

def operators : Nat → Nat → Expr → Grammar Expr
  | 0, _, _ => stuck
  | n + 1, level, left => do
    match ← peek with
    | some (.keyword .IS) =>
      if levelEquality < level then return left
      keyword .IS
      let inverted ← keyword? .NOT
      let distinct ← keyword? .DISTINCT
      if distinct then keyword .FROM
      let right ← exprAt n levelOrder
      operators n level (.binary (if inverted = distinct then .is else .isNot) left right)
    | some (.keyword .ISNULL) =>
      if levelEquality < level then return left
      keyword .ISNULL
      operators n level (.isNull left)
    | some (.keyword .NOTNULL) =>
      if levelEquality < level then return left
      keyword .NOTNULL
      operators n level (.unary .not (.isNull left))
    | some (.keyword .NOT) =>
      if levelNot < level then return left
      keyword .NOT
      if ← keyword? .NULL then operators n level (.unary .not (.isNull left))
      else
        match ← relation? n true left with
        | some e => operators n level e
        | none => stuck
    | some token =>
      match binaryOf? token with
      | some (operatorLevel, op) =>
        if operatorLevel < level then return left
        let _ ← take
        let right ← exprAt n (operatorLevel + 1)
        operators n level (.binary op left right)
      | none =>
        if levelEquality < level then return left
        match ← relation? n false left with
        | some e => operators n level e
        | none => return left
    | none => return left

/-- A pattern, a range or a list after an expression. -/
def relation? : Nat → Bool → Expr → Grammar (Option Expr)
  | 0, _, _ => stuck
  | n + 1, inverted, left => do
    match ← peek with
    | some (.keyword .BETWEEN) =>
      keyword .BETWEEN
      let low ← exprAt n levelOrder
      keyword .AND
      let high ← exprAt n levelOrder
      return some (.negated inverted (.between left low high))
    | some (.keyword .IN) =>
      keyword .IN
      symbol .open
      let items ← exprList n
      symbol .close
      return some (.negated inverted (.among left items))
    | some (.keyword k) =>
      if !isPattern k then return none
      let operator ← take
      let pattern ← exprAt n levelOrder
      let escape ← if ← keyword? .ESCAPE then do pure [← exprAt n levelOrder] else pure []
      return some (.negated inverted (.call (String.ofList operator.text) false (pattern :: left :: escape)))
    | _ => return none

def operand : Nat → Grammar Expr
  | 0 => stuck
  | n + 1 => do
    match ← peek with
    | some (.keyword .NOT) =>
      keyword .NOT
      return .unary .not (← exprAt n levelNot)
    | some (.symbol .minus) =>
      symbol .minus
      return .unary .negate (← exprAt n levelSign)
    | some (.symbol .plus) =>
      symbol .plus
      return .unary .plus (← exprAt n levelSign)
    | some (.symbol .bitNot) =>
      symbol .bitNot
      return .unary .bitNot (← exprAt n levelSign)
    | some (.symbol .open) =>
      symbol .open
      let first ← exprAt n levelOr
      let others ← moreExprs n
      symbol .close
      return if others.isEmpty then first else .tuple (first :: others)
    | some (.keyword .CAST) =>
      keyword .CAST
      symbol .open
      let e ← exprAt n levelOr
      keyword .AS
      let type ← declaredType
      symbol .close
      return .cast e type
    | some (.keyword .CASE) =>
      keyword .CASE
      let base ← if ← atKeyword .WHEN then pure none else some <$> exprAt n levelOr
      let e ← branches n base
      keyword .END
      return e
    | some (.hexadecimal digits) =>
      let l ← take
      return .hexadecimal digits l.text
    | some (.parameter text) =>
      if isRegister text then stuck
      let _ ← take
      return .parameter text
    | some (.string text) =>
      let _ ← take
      if ← symbol? .dot then qualifiedBy text else return .literal (.ofString text)
    | some token =>
      match literalOf? token with
      | some e => do
        let _ ← take
        return e
      | none => reference n
    | none => stuck

/-- The branches of a case, from the first condition on. -/
def branches : Nat → Option Expr → Grammar Expr
  | 0, _ => stuck
  | n + 1, base => do
    keyword .WHEN
    let condition ← exprAt n levelOr
    keyword .THEN
    let value ← exprAt n levelOr
    let test := match base with
      | some b => .binary (.compare .equal) b condition
      | none => condition
    let otherwise ←
      if ← atKeyword .WHEN then branches n base
      else if ← keyword? .ELSE then exprAt n levelOr
      else pure (.literal .null)
    return .choose test value otherwise

/-- A column after the name before its first point. -/
def qualifiedBy (first : String) : Grammar Expr := do
  let second ← name
  if ← symbol? .dot then return .qualified (some first) second (← name)
  else return .qualified none first second

def reference : Nat → Grammar Expr
  | 0 => stuck
  | n + 1 => do
    let quoting ← nextQuoting
    let text ← name
    if ← symbol? .dot then qualifiedBy text
    else if ← symbol? .open then
      if ← symbol? .star then
        symbol .close
        return .callStar text
      let distinct ← keyword? .DISTINCT
      if !distinct then let _ ← keyword? .ALL
      let args ← exprList n
      symbol .close
      return .call text distinct args
    else
      return .name text quoting

def exprList : Nat → Grammar (List Expr)
  | 0 => stuck
  | n + 1 => do
    if ← atSymbol .close then return []
    let first ← exprAt n levelOr
    return first :: (← moreExprs n)

def moreExprs : Nat → Grammar (List Expr)
  | 0 => stuck
  | n + 1 => do
    if ← symbol? .comma then
      let next ← exprAt n levelOr
      return next :: (← moreExprs n)
    else return []

end

/-- Steps that suffice for an expression of so many lexemes. -/
def exprFuel (lexemes : Nat) : Nat := 4 * lexemes + 8

def expr : Grammar Expr := do
  exprAt (exprFuel (← remaining).length) levelOr

end QueryServer.Sql.Grammar
