import Boli.Json

/-!
Programs as trees.

An expression is a literal, a name or one operation, a condition is one comparison, and statements
declare, assign, evaluate, print, branch and loop. Wherever a node is expected a foreign one may
stand: a value of another sort, of which only the name of its kind and its plain data are known. The
parser makes none; trees from elsewhere may hold them.
-/

set_option autoImplicit false

namespace Boli

/-- An expression. -/
inductive Expression where
  | number (value : Int)
  /-- A text literal; the value is the raw text between the quotes. -/
  | text (value : String)
  | identifier (name : String)
  | binary (operator : String) (left right : Expression)
  | foreign (kind : String) (data : Json)
  deriving DecidableEq

/-- The condition of a branch or loop. -/
inductive Condition where
  | compare (left : Expression) (operator : String) (right : Expression)
  | foreign (kind : String) (data : Json)
  deriving DecidableEq

mutual

/-- A statement. -/
inductive Statement where
  | declare (name : String) (initializer : Expression)
  | assign (name : String) (value : Expression)
  | evaluate (expression : Expression)
  | print (value : Expression)
  | branch (condition : Condition) (body : List Statement) (rest : Otherwise)
  | loop (condition : Condition) (body : List Statement)
  | foreign (kind : String) (data : Json)

/-- What a branch does when its condition fails. -/
inductive Otherwise where
  /-- Nothing: there is no further branch. -/
  | nothing
  /-- The last branch. It may hold no statements and is still there. -/
  | last (body : List Statement)
  /-- A further condition. -/
  | elseIf (condition : Condition) (body : List Statement) (rest : Otherwise)

end

/-- A whole program. -/
inductive Program where
  | statements (body : List Statement)
  | foreign (kind : String) (data : Json)

/-! ## Equality is decidable -/

mutual

/-- Whether two statements are the same. -/
def Statement.same : Statement → Statement → Bool
  | .declare n e, .declare n' e' => n = n' && e = e'
  | .assign n e, .assign n' e' => n = n' && e = e'
  | .evaluate e, .evaluate e' => e = e'
  | .print e, .print e' => e = e'
  | .branch c b r, .branch c' b' r' => c = c' && sameStatements b b' && r.same r'
  | .loop c b, .loop c' b' => c = c' && sameStatements b b'
  | .foreign k d, .foreign k' d' => k = k' && d = d'
  | _, _ => false

/-- Whether two continuations of a branch are the same. -/
def Otherwise.same : Otherwise → Otherwise → Bool
  | .nothing, .nothing => true
  | .last b, .last b' => sameStatements b b'
  | .elseIf c b r, .elseIf c' b' r' => c = c' && sameStatements b b' && r.same r'
  | _, _ => false

/-- Whether two sequences of statements are the same. -/
def sameStatements : List Statement → List Statement → Bool
  | [], [] => true
  | s :: ss, s' :: ss' => s.same s' && sameStatements ss ss'
  | _, _ => false

end

mutual

theorem Statement.same_iff : ∀ s s' : Statement, s.same s' = true ↔ s = s'
  | .declare n e, s' => by cases s' <;> simp [Statement.same]
  | .assign n e, s' => by cases s' <;> simp [Statement.same]
  | .evaluate e, s' => by cases s' <;> simp [Statement.same]
  | .print e, s' => by cases s' <;> simp [Statement.same]
  | .branch c b r, s' => by
    cases s' <;> simp [Statement.same, sameStatements_iff b, Otherwise.same_iff r, and_assoc]
  | .loop c b, s' => by cases s' <;> simp [Statement.same, sameStatements_iff b]
  | .foreign k d, s' => by cases s' <;> simp [Statement.same]

theorem Otherwise.same_iff : ∀ r r' : Otherwise, r.same r' = true ↔ r = r'
  | .nothing, r' => by cases r' <;> simp [Otherwise.same]
  | .last b, r' => by cases r' <;> simp [Otherwise.same, sameStatements_iff b]
  | .elseIf c b r, r' => by
    cases r' <;> simp [Otherwise.same, sameStatements_iff b, Otherwise.same_iff r, and_assoc]

theorem sameStatements_iff : ∀ ss ss' : List Statement, sameStatements ss ss' = true ↔ ss = ss'
  | [], ss' => by cases ss' <;> simp [sameStatements]
  | s :: ss, ss' => by
    cases ss' <;> simp [sameStatements, Statement.same_iff s, sameStatements_iff ss]

end

instance : DecidableEq Statement := fun s s' => decidable_of_iff _ (Statement.same_iff s s')

instance : DecidableEq Otherwise := fun r r' => decidable_of_iff _ (Otherwise.same_iff r r')

deriving instance DecidableEq for Program

/-- A node of any sort. -/
inductive Node where
  | expression (expression : Expression)
  | condition (condition : Condition)
  | statement (statement : Statement)
  /-- A further condition of a branch, taken by itself. -/
  | clause (condition : Condition) (body : List Statement)
  | program (program : Program)
  deriving DecidableEq

/-! ## Names of kinds -/

/-- The name of an expression's kind. -/
def Expression.kind : Expression → String
  | number _ => "NumberLiteral"
  | text _ => "StringLiteral"
  | identifier _ => "Identifier"
  | binary _ _ _ => "BinaryExpression"
  | foreign kind _ => kind

/-- The name of a condition's kind. -/
def Condition.kind : Condition → String
  | compare _ _ _ => "Condition"
  | foreign kind _ => kind

/-- The name of a statement's kind. -/
def Statement.kind : Statement → String
  | declare _ _ => "VarDeclaration"
  | assign _ _ => "Assignment"
  | evaluate _ => "ExpressionStatement"
  | print _ => "Print"
  | branch _ _ _ => "If"
  | loop _ _ => "While"
  | foreign kind _ => kind

/-- The name of a program's kind. -/
def Program.kind : Program → String
  | statements _ => "Program"
  | foreign kind _ => kind

/-- The name of a node's kind. -/
def Node.kind : Node → String
  | expression e => e.kind
  | condition c => c.kind
  | statement s => s.kind
  | clause _ _ => "ElseIfClause"
  | program p => p.kind

end Boli
