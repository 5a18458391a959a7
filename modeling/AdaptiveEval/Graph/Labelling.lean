import AdaptiveEval.Graph.Basic

/-!
# Naming sites

Each adaptive node of a described graph gets a site of its own, numbered from a counter.
-/

namespace AdaptiveEval

abbrev SiteId := Nat

def freshSite : StateM Nat SiteId :=
  fun next => (next, next + 1)

namespace Expr

def label {σ : Type} : Expr σ → StateM Nat (Expr SiteId)
  | .const value => pure (.const value)
  | .arg index => pure (.arg index)
  | .read slot expect => pure (.read slot expect)
  | .arith _ op left right => do
      let site ← freshSite
      let left ← left.label
      let right ← right.label
      pure (.arith site op left right)
  | .compare op left right => do
      let left ← left.label
      let right ← right.label
      pure (.compare op left right)
  | .conditional condition accept reject => do
      let condition ← condition.label
      let accept ← accept.label
      let reject ← reject.label
      pure (.conditional condition accept reject)
  | .resolve _ name => do
      let site ← freshSite
      pure (.resolve site name)
  | .element _ array index => do
      let site ← freshSite
      let array ← array.label
      let index ← index.label
      pure (.element site array index)
  | .length array => do
      let array ← array.label
      pure (.length array)
  | .format template argument => do
      let argument ← argument.label
      pure (.format template argument)
  | .flag id => pure (.flag id)

end Expr

mutual

def Stmt.label {σ : Type} : Stmt σ → StateM Nat (Stmt SiteId)
  | .block body => do
      let body ← labelAll body
      pure (.block body)
  | .write slot value => do
      let value ← value.label
      pure (.write slot value)
  | .loop condition body => do
      let condition ← condition.label
      let body ← body.label
      pure (.loop condition body)
  | .ret value => do
      let value ← value.label
      pure (.ret value)
  | .eval value => do
      let value ← value.label
      pure (.eval value)

def labelAll {σ : Type} : List (Stmt σ) → StateM Nat (List (Stmt SiteId))
  | [] => pure []
  | stmt :: rest => do
      let stmt ← stmt.label
      let rest ← labelAll rest
      pure (stmt :: rest)

end

def Body.label {σ : Type} : Body σ → StateM Nat (Body SiteId)
  | .expr node => do
      let node ← node.label
      pure (.expr node)
  | .stmt node => do
      let node ← node.label
      pure (.stmt node)

def Root.label {σ : Type} (root : Root σ) : StateM Nat (Root SiteId) := do
  let body ← root.body.label
  pure { name := root.name, frameSize := root.frameSize, body }

inductive SiteView (σ : Type) where
  | arith (site : σ) (op : ArithmeticOp)
  | resolve (site : σ) (name : String)
  | element (site : σ)

/-- The adaptive nodes of an expression, parents first. -/
def Expr.sites {σ : Type} : Expr σ → List (SiteView σ)
  | .const _ => []
  | .arg _ => []
  | .read _ _ => []
  | .arith site op left right => .arith site op :: (left.sites ++ right.sites)
  | .compare _ left right => left.sites ++ right.sites
  | .conditional condition accept reject => condition.sites ++ accept.sites ++ reject.sites
  | .resolve site name => [.resolve site name]
  | .element site array index => .element site :: (array.sites ++ index.sites)
  | .length array => array.sites
  | .format _ argument => argument.sites
  | .flag _ => []

mutual

/-- The adaptive nodes of a statement outside its loops. -/
def Stmt.sites {σ : Type} : Stmt σ → List (SiteView σ)
  | .block body => sitesOfAll body
  | .write _ value => value.sites
  | .loop _ _ => []
  | .ret value => value.sites
  | .eval value => value.sites

def sitesOfAll {σ : Type} : List (Stmt σ) → List (SiteView σ)
  | [] => []
  | stmt :: rest => stmt.sites ++ sitesOfAll rest

end

def Body.sites {σ : Type} : Body σ → List (SiteView σ)
  | .expr node => node.sites
  | .stmt node => node.sites

end AdaptiveEval
