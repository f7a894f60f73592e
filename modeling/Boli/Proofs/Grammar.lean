import Boli.Program.Parser
import Boli.Proofs.Numeral

/-!
# Derivations of programs

The grammar of programs as a type of derivation trees. A tree keeps every token that it derives,
braces, separators and markers included, so that it has a text (`text`) as well as the program it
stands for (`tree`); a tree that breaks the grammar cannot be built. The parser is not mentioned
here: what it accepts, and which tree it gives, is a matter of `Boli.Proofs.Parsing`.

The grammar is ambiguous. A body without braces can end in a branch, and then a following ELSE_IF
or ELSE can continue that branch or an outer one. `Innermost` singles out the derivations in which
each of them continues the innermost branch that can be continued there. Every sentence has such a
derivation (`Boli.Proofs.Grammar.Attachment`), and only one (`Boli.Proofs.Grammar.Unambiguity`).
-/

set_option autoImplicit false

namespace Boli.Grammar

open Boli.Parser (arithmeticOperators comparisonOperators assignOperator)
open Text.Numeral (decimal)

/-! ## Tokens of the grammar -/

/-- A token of a kind. -/
abbrev Terminal (kind : Token.Kind) : Type := { t : Token // t.kind = kind }

/-- One of some operators. -/
abbrev Sign (operators : List String) : Type :=
  { t : Token // t.kind = .operator ∧ t.value ∈ operators }

/-- The tokens of an optional terminal. -/
def Terminal.tokens {kind : Token.Kind} (o : Option (Terminal kind)) : List Token :=
  (o.map Subtype.val).toList

/-! ## Expressions and conditions -/

/-- `primary := NUMBER | STRING | IDENTIFIER`. -/
inductive Primary where
  | number (token : Terminal .number)
  | text (token : Terminal .string)
  | identifier (token : Terminal .identifier)

/-- `expression := primary (ARITHMETIC primary)?`. -/
inductive Expr where
  | primary (value : Primary)
  | operation (left : Primary) (sign : Sign arithmeticOperators) (right : Primary)

/-- `condition := primary COMPARISON primary`. -/
structure Cond where
  left : Primary
  sign : Sign comparisonOperators
  right : Primary

/-- The token of a primary. -/
def Primary.token : Primary → Token
  | number t => t.val
  | text t => t.val
  | identifier t => t.val

/-- The expression that a primary stands for. -/
def Primary.tree : Primary → Expression
  | number t => .number (decimal t.val.value)
  | text t => .text t.val.value
  | identifier t => .identifier t.val.value

/-- The text of an expression. -/
def Expr.text : Expr → List Token
  | primary p => [p.token]
  | operation left sign right => [left.token, sign.val, right.token]

/-- The expression that a derivation stands for. -/
def Expr.tree : Expr → Expression
  | primary p => p.tree
  | operation left sign right => .binary sign.val.value left.tree right.tree

/-- The text of a condition. -/
def Cond.text (c : Cond) : List Token := [c.left.token, c.sign.val, c.right.token]

/-- The condition that a derivation stands for. -/
def Cond.tree (c : Cond) : Condition := .compare c.left.tree c.sign.val.value c.right.tree

/-! ## Statements -/

mutual

/-- `statement := declare | print | branch | loop | simple`, where `simple` is an assignment or a
name by itself. -/
inductive Stmt where
  /-- `declare := VAR IDENTIFIER '=' expression ';'?`. -/
  | declare (start : Terminal (.keyword .var)) (name : Terminal .identifier)
      (sign : Sign [assignOperator]) (value : Expr) (stop : Option (Terminal .semicolon))
  /-- `print := PRINT expression ';'?`. -/
  | print (start : Terminal (.keyword .print)) (value : Expr) (stop : Option (Terminal .semicolon))
  /-- `simple := IDENTIFIER '=' expression ';'?`. -/
  | assign (name : Terminal .identifier) (sign : Sign [assignOperator]) (value : Expr)
      (stop : Option (Terminal .semicolon))
  /-- `simple := IDENTIFIER ';'?`. -/
  | evaluate (name : Terminal .identifier) (stop : Option (Terminal .semicolon))
  /-- `branch := IF condition block (ELSE_IF condition block)* (ELSE block)?`. -/
  | branch (start : Terminal (.keyword .ifStart)) (condition : Cond) (body : Block) (rest : Tail)
  /-- `loop := WHILE condition LOOP_START? block`. -/
  | loop (start : Terminal (.keyword .whileStart)) (condition : Cond)
      (marker : Option (Terminal (.keyword .loopStart))) (body : Block)

/-- `block := '{' statement* '}' | statement`. -/
inductive Block where
  | braced (opening : Terminal .openBrace) (body : Stmts) (closing : Terminal .closeBrace)
  | single (statement : Stmt)

/-- What continues a branch behind its first body. -/
inductive Tail where
  | nothing
  | last (start : Terminal (.keyword .elseStart)) (body : Block)
  | elseIf (start : Terminal (.keyword .elseIf)) (condition : Cond) (body : Block) (rest : Tail)

/-- `statement*`. -/
inductive Stmts where
  | nil
  | cons (first : Stmt) (rest : Stmts)

end

mutual

/-- The text of a statement. -/
def Stmt.text : Stmt → List Token
  | .declare start name sign value stop =>
    start.val :: name.val :: sign.val :: (value.text ++ Terminal.tokens stop)
  | .print start value stop => start.val :: (value.text ++ Terminal.tokens stop)
  | .assign name sign value stop => name.val :: sign.val :: (value.text ++ Terminal.tokens stop)
  | .evaluate name stop => name.val :: Terminal.tokens stop
  | .branch start c body rest => start.val :: (c.text ++ (body.text ++ rest.text))
  | .loop start c marker body => start.val :: (c.text ++ (Terminal.tokens marker ++ body.text))

/-- The text of a block. -/
def Block.text : Block → List Token
  | .braced opening body closing => opening.val :: (body.text ++ [closing.val])
  | .single s => s.text

/-- The text of what continues a branch. -/
def Tail.text : Tail → List Token
  | .nothing => []
  | .last start body => start.val :: body.text
  | .elseIf start c body rest => start.val :: (c.text ++ (body.text ++ rest.text))

/-- The text of a sequence of statements. -/
def Stmts.text : Stmts → List Token
  | .nil => []
  | .cons s ss => s.text ++ ss.text

end

mutual

/-- The statement that a derivation stands for. -/
def Stmt.tree : Stmt → Statement
  | .declare _ name _ value _ => .declare name.val.value value.tree
  | .print _ value _ => .print value.tree
  | .assign name _ value _ => .assign name.val.value value.tree
  | .evaluate name _ => .evaluate (.identifier name.val.value)
  | .branch _ c body rest => .branch c.tree body.tree rest.tree
  | .loop _ c _ body => .loop c.tree body.tree

/-- The statements that the derivation of a block stands for. -/
def Block.tree : Block → List Statement
  | .braced _ body _ => body.tree
  | .single s => [s.tree]

/-- What the derivation stands for that continues a branch. -/
def Tail.tree : Tail → Otherwise
  | .nothing => .nothing
  | .last _ body => .last body.tree
  | .elseIf _ c body rest => .elseIf c.tree body.tree rest.tree

/-- The statements that a derivation stands for. -/
def Stmts.tree : Stmts → List Statement
  | .nil => []
  | .cons s ss => s.tree :: ss.tree

end

/-- A sentence of `program := statement*`: a sequence of tokens with a derivation, whichever. -/
def Sentence (tokens : List Token) : Prop := ∃ d : Stmts, d.text = tokens

/-! ## To which branch an ELSE_IF or ELSE belongs -/

/-- Whether the tail of a branch has an ELSE. -/
def Tail.hasElse : Tail → Bool
  | .nothing => false
  | .last _ _ => true
  | .elseIf _ _ _ rest => rest.hasElse

/-- Whether a statement is a branch that has an ELSE. -/
def Stmt.hasElse : Stmt → Bool
  | .branch _ _ _ rest => rest.hasElse
  | _ => false

mutual

/-- The branches inside a statement, itself included, whose text ends where the text of the
statement ends; the outermost comes first. -/
def Stmt.endings : Stmt → List Stmt
  | .branch start c body rest => .branch start c body rest :: rest.endings body.endings
  | .loop _ _ _ body => body.endings
  | _ => []

/-- The branches inside a block whose text ends where the text of the block ends: none behind a
closing brace. -/
def Block.endings : Block → List Stmt
  | .braced _ _ _ => []
  | .single s => s.endings

/-- The branches inside the bodies of a branch whose text ends where its tail ends. Those that end
where the tail begins are given; they are still the ones if the tail is empty. -/
def Tail.endings : Tail → List Stmt → List Stmt
  | .nothing, before => before
  | .last _ body, _ => body.endings
  | .elseIf _ _ body rest, _ => rest.endings body.endings

end

/-- No branch among these can be continued: each of them has its ELSE. -/
def Closed (branches : List Stmt) : Prop := ∀ b ∈ branches, b.hasElse = true

@[simp] theorem closed_nil : Closed [] := List.forall_mem_nil _

@[simp] theorem closed_cons (b : Stmt) (bs : List Stmt) :
    Closed (b :: bs) ↔ b.hasElse = true ∧ Closed bs := by
  simp only [Closed, List.forall_mem_cons]

mutual

/-- Every ELSE_IF and ELSE in a statement continues the innermost branch whose text so far ends
directly before that token and which has no ELSE. A branch that has one continued behind a body
meets this when no branch inside that body could be continued in its place. -/
def Stmt.Innermost : Stmt → Prop
  | .branch _ _ body rest => body.Innermost ∧ rest.Innermost body.endings
  | .loop _ _ _ body => body.Innermost
  | _ => True

/-- Every ELSE_IF and ELSE in a block continues the innermost branch that it can. -/
def Block.Innermost : Block → Prop
  | .braced _ body _ => body.Innermost
  | .single s => s.Innermost

/-- Every ELSE_IF and ELSE in a tail continues the innermost branch that it can, where `before` are
the branches inside the body before the tail whose text ends with that body. -/
def Tail.Innermost : Tail → List Stmt → Prop
  | .nothing, _ => True
  | .last _ body, before => Closed before ∧ body.Innermost
  | .elseIf _ _ body rest, before => Closed before ∧ body.Innermost ∧ rest.Innermost body.endings

/-- Every ELSE_IF and ELSE in a sequence of statements continues the innermost branch it can. -/
def Stmts.Innermost : Stmts → Prop
  | .nil => True
  | .cons s ss => s.Innermost ∧ ss.Innermost

end

/-- A derivation of a sequence of tokens in which every ELSE_IF and ELSE belongs to the innermost
branch that it can continue. -/
structure Stmts.Derives (d : Stmts) (tokens : List Token) : Prop where
  text_eq : d.text = tokens
  innermost : d.Innermost

end Boli.Grammar
