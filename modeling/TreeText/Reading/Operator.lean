import TreeText.Reading.Visitor

/-!
# Operators

Operators of two operands nest to the left, one node per operator. Their chain is first unrolled
down its left operands and then built up from the innermost operator, so its length costs no
nesting. Chains of the same logical operator become one node with all operands. A comparison is
one node with as many operators as operands after the first; an operator of two words may come as
two tokens.

Notes on the form: the loop of `lower_bin_op` down the left operands is `Cst.leftSpine`, whose
second argument is what the loop has pushed, and the loop back up is a fold. The stack of
`lower_bool_op` is the list that `operandValues` goes through, its top first. The pass of
`lower_compare` over the children is apart from the readings that come after it.
-/

namespace TreeText

/-- The node kind of an operator of two operands (`binary_op`). -/
def binaryOperator? : String → Option String
  | "+" => some "Add"
  | "-" => some "Sub"
  | "*" => some "Mult"
  | "@" => some "MatMult"
  | "/" => some "Div"
  | "%" => some "Mod"
  | "**" => some "Pow"
  | "<<" => some "LShift"
  | ">>" => some "RShift"
  | "|" => some "BitOr"
  | "^" => some "BitXor"
  | "&" => some "BitAnd"
  | "//" => some "FloorDiv"
  | _ => none

/-- The node kind of an operator of one operand. -/
def unaryOperator? : String → Option String
  | "+" => some "UAdd"
  | "-" => some "USub"
  | "~" => some "Invert"
  | _ => none

/-- The node kind of a comparison operator (`compare_op`). -/
def comparisonOperator? : String → Option String
  | "==" => some "Eq"
  | "!=" => some "NotEq"
  | "<>" => some "NotEq"
  | "<" => some "Lt"
  | "<=" => some "LtE"
  | ">" => some "Gt"
  | ">=" => some "GtE"
  | "is" => some "Is"
  | "is not" => some "IsNot"
  | "in" => some "In"
  | "not in" => some "NotIn"
  | _ => none

/-- The operator of an assignment with its equals signs taken off. -/
def withoutEquals (operator : String) : String :=
  String.ofList (operator.toList.reverse.dropWhile (· == '=')).reverse

namespace Reading

variable {m : Type → Type} [Monad m] [MonadExceptOf Fault m]

/-- The leaf of an operator that a table knows. -/
def operatorLeaf (table : String → Option String) (token : Cst) (text : String)
    (unknown : Cause) : m Tree :=
  match table text with
  | some kind => pure (.leaf kind)
  | none => throw (token.fault unknown)

end Reading

/-! ## Two operands -/

section

variable {m : Type → Type} [Monad m] [MonadExceptOf Fault m]

/-- The operators down the left operands of an operator, innermost first and before `outer`, and the
leftmost operand (`lower_bin_op`). -/
def Cst.leftSpine (c : Cst) (outer : List Cst) : m (List Cst × Cst) :=
  match _h : c.child? "left" with
  | none => throw (c.fault (.missingField c.kind "left"))
  | some left =>
    if left.kind = "binary_operator" then left.leftSpine (c :: outer)
    else pure (c :: outer, left)
termination_by c.height
decreasing_by exact height_lt_of_child? _h

theorem Cst.leftSpine_eq [LawfulReading m] (c : Cst) (outer : List Cst) :
    c.leftSpine outer = (do
      let left ← c.require "left"
      if left.kind = "binary_operator" then left.leftSpine (c :: outer)
      else pure (c :: outer, left) : m (List Cst × Cst)) := by
  rw [leftSpine]
  split
  · next hleft => rw [require_of_none hleft, LawfulReading.throw_bind]
  · next hleft => rw [require_of_some hleft, pure_bind]

end

namespace Visitor

open Reading (operatorLeaf)

variable {m : Type → Type} [Monad m] [MonadExceptOf Fault m] (v : Visitor m)

/-- Applies an operator to what stands on its left (`lower_bin_op`). -/
def applyOperator (left : Tree) (c : Cst) : m Tree := do
  let operator ← c.require "operator"
  let text := v.text operator
  let op ← operatorLeaf binaryOperator? operator text (.unknownOperator text)
  let right ← v.load (← c.require "right")
  return .record "BinOp" [("left", left), ("op", op), ("right", right)]

/-- An operator of two operands with the chain on its left (`lower_bin_op`). -/
def binaryOperation (c : Cst) : m Tree := do
  let (operators, leftmost) ← c.leftSpine []
  operators.foldlM v.applyOperator (← v.load leftmost)

/-! ## One operand -/

/-- An operator of one operand that is a sign. -/
def unaryOperation (c : Cst) : m Tree := do
  let operator ← c.require "operator"
  let text := v.text operator
  let op ← operatorLeaf unaryOperator? operator text (.unknownOperator text)
  let operand ← v.load (← c.require "argument")
  return .record "UnaryOp" [("op", op), ("operand", operand)]

/-- The logical operator of one operand. -/
def negation (c : Cst) : m Tree := do
  let operand ← v.load (← c.require "argument")
  return .record "UnaryOp" [("op", .leaf "Not"), ("operand", operand)]

/-! ## Logical operators -/

/-- Whether a node joins two operands by this logical operator (`lower_bool_op`). -/
def joinsBy (operator : String) (c : Cst) : Bool :=
  c.kind == "boolean_operator" &&
    match c.child? "operator" with
    | some token => v.text token == operator
    | none => false

/-- The values of operands in order, those joined by the same operator being looked into
(`lower_bool_op`). -/
def operandValues (operator : String) : List Cst → m (List Tree)
  | [] => pure []
  | c :: pending =>
    if v.joinsBy operator c then
      match _hr : c.child? "right" with
      | none => throw (c.fault (.missingField c.kind "right"))
      | some right =>
        match _hl : c.child? "left" with
        | none => throw (c.fault (.missingField c.kind "left"))
        | some left => operandValues operator (left :: right :: pending)
    else do
      let value ← v.load c
      return value :: (← operandValues operator pending)
termination_by pending => Cst.weightOfAll pending
decreasing_by
  · have hlt := Cst.weight_add_weight_lt (Cst.height_lt_of_child? _hl)
      (Cst.height_lt_of_child? _hr)
    simp only [Cst.weightOfAll]
    omega
  · have hpos := c.weight_pos
    simp only [Cst.weightOfAll]
    omega

variable {v} in
theorem operandValues_of_joinsBy [LawfulReading m] {operator : String} {c : Cst}
    (h : v.joinsBy operator c = true) (pending : List Cst) :
    v.operandValues operator (c :: pending) = (do
      let right ← c.require "right"
      let left ← c.require "left"
      v.operandValues operator (left :: right :: pending)) := by
  rw [operandValues, if_pos h]
  split
  · next hright => rw [Cst.require_of_none hright, LawfulReading.throw_bind]
  · next hright =>
    rw [Cst.require_of_some hright, pure_bind]
    split
    · next hleft => rw [Cst.require_of_none hleft, LawfulReading.throw_bind]
    · next hleft => rw [Cst.require_of_some hleft, pure_bind]

variable {v} in
theorem operandValues_of_not_joinsBy {operator : String} {c : Cst}
    (h : v.joinsBy operator c = false) (pending : List Cst) :
    v.operandValues operator (c :: pending) = (do
      let value ← v.load c
      return value :: (← v.operandValues operator pending)) := by
  rw [operandValues, if_neg (by simp [h])]

/-- A logical operator of two operands, with all operands that it joins (`lower_bool_op`). -/
def booleanOperation (c : Cst) : m Tree := do
  let operator := v.text (← c.require "operator")
  let op := if operator = "and" then "And" else "Or"
  let values ← v.operandValues operator [c]
  return .record "BoolOp" [("op", .leaf op), ("values", .seq values)]

end Visitor

/-! ## Comparisons -/

/-- The operands of a comparison and its operators, each with its first token, `pending` being the
operator whose tokens are being read (`lower_compare`). -/
def comparisonParts (pending : Option (Cst × String)) :
    List Cst → List Cst × List (Cst × String)
  | [] => ([], pending.toList)
  | c :: rest =>
    if c.isNamed then
      if c.kind = "comment" then comparisonParts pending rest
      else
        let (operands, operators) := comparisonParts none rest
        (c :: operands, pending.toList ++ operators)
    else
      match pending with
      | some (token, text) => comparisonParts (some (token, text ++ " " ++ c.kind)) rest
      | none => comparisonParts (some (c, c.kind)) rest

theorem comparisonParts_comment {c : Cst} (hnamed : c.isNamed = true) (hkind : c.kind = "comment")
    (pending : Option (Cst × String)) (rest : List Cst) :
    comparisonParts pending (c :: rest) = comparisonParts pending rest := by
  rw [comparisonParts.eq_def]
  simp only [hnamed, hkind, if_true]

theorem comparisonParts_operand {c : Cst} (hnamed : c.isNamed = true) (hkind : c.kind ≠ "comment")
    (pending : Option (Cst × String)) (rest : List Cst) :
    comparisonParts pending (c :: rest) =
      (c :: (comparisonParts none rest).1, pending.toList ++ (comparisonParts none rest).2) := by
  rw [comparisonParts.eq_def]
  simp only [hnamed, if_neg hkind, if_true]

theorem comparisonParts_token {c : Cst} (hnamed : c.isNamed = false)
    (pending : Option (Cst × String)) (rest : List Cst) :
    comparisonParts pending (c :: rest) =
      comparisonParts (some (match pending with
        | some (token, text) => (token, text ++ " " ++ c.kind)
        | none => (c, c.kind))) rest := by
  rw [comparisonParts.eq_def]
  simp only [hnamed]
  cases pending with
  | none => rfl
  | some operator => rfl

/-- Comments make no difference, whichever of them are left out. -/
theorem comparisonParts_filter {leftOut : Cst → Bool}
    (h : ∀ c, leftOut c = true → c.isNamed = true ∧ c.kind = "comment")
    (pending : Option (Cst × String)) (nodes : List Cst) :
    comparisonParts pending (nodes.filter fun c => !leftOut c) = comparisonParts pending nodes := by
  induction nodes generalizing pending with
  | nil => rfl
  | cons c rest ih =>
    cases hleft : leftOut c with
    | true =>
      obtain ⟨hnamed, hkind⟩ := h c hleft
      rw [List.filter_cons_of_neg (by simp [hleft]), ih, comparisonParts_comment hnamed hkind]
    | false =>
      rw [List.filter_cons_of_pos (by simp [hleft]), comparisonParts.eq_def,
        comparisonParts.eq_def]
      simp only [ih]

namespace Visitor

open Reading (operatorLeaf)

variable {m : Type → Type} [Monad m] [MonadExceptOf Fault m] (v : Visitor m)

/-- A comparison (`lower_compare`). Its operators are looked up before its operands are read. -/
def comparison (c : Cst) : m Tree :=
  match comparisonParts none c.children with
  | ([], _) => throw (c.fault .emptyComparison)
  | (left :: comparators, operators) => do
    let ops ← operators.mapM fun (token, text) =>
      operatorLeaf comparisonOperator? token text (.unknownComparison text)
    let left ← v.load left
    let comparators ← v.elements .load comparators
    return .record "Compare"
      [("left", left), ("ops", .seq ops), ("comparators", .seq comparators)]

end Visitor

end TreeText
