import AdaptiveEval.Arithmetic.Operator

/-!
# Graphs

The nodes of a call target's body. A node that adapts carries the name of its site; the state of
that site is kept outside the graph, so that one graph serves every activation.

A loop repeats a guard and a statement. Repeating bodies of other kinds, which a program that uses
these graphs could define by a step function of its own, are left out.
-/

namespace AdaptiveEval

inductive Expr (σ : Type) where
  | const (value : Value)
  | arg (index : Nat)
  | read (slot : Nat) (expect : Expectation)
  | arith (site : σ) (op : ArithmeticOp) (left right : Expr σ)
  | compare (op : ComparisonOp) (left right : Expr σ)
  | conditional (condition accept reject : Expr σ)
  | resolve (site : σ) (name : String)
  | element (site : σ) (array index : Expr σ)
  | length (array : Expr σ)
  | format (template : String) (argument : Expr σ)
  | flag (id : Nat)

inductive Stmt (σ : Type) where
  | block (body : List (Stmt σ))
  | write (slot : Nat) (value : Expr σ)
  | loop (condition : Expr σ) (body : Stmt σ)
  | ret (value : Expr σ)
  | eval (value : Expr σ)

inductive Flow where
  | normal
  | ret (value : Value)

/-- Where a loop stands at an iteration boundary. -/
inductive Progress where
  | running
  | done (flow : Flow)

inductive Body (σ : Type) where
  | expr (node : Expr σ)
  | stmt (node : Stmt σ)

structure Root (σ : Type) where
  name : String
  frameSize : Nat
  body : Body σ

/-- A graph as it is described, before its sites are named. -/
abbrev ExprShape := Expr Unit

abbrev StmtShape := Stmt Unit

abbrev RootShape := Root Unit

/-- Replaces the first pair of braces. -/
def fillTemplate (insertion : List Char) : List Char → List Char
  | '\x7b' :: '\x7d' :: rest => insertion ++ rest
  | char :: rest => char :: fillTemplate insertion rest
  | [] => []

end AdaptiveEval
