import AdaptiveEval.Proofs.Reference.Session

/-!
# Sites of nodes

The sites that the nodes of a graph have, in loops too: those of its arithmetic nodes, and those of
the nodes that use a cache. Naming the sites of a graph gives each node a site that no other node
has.
-/

namespace AdaptiveEval

/-- The sites of the arithmetic nodes, parents first. -/
def Expr.arithmeticSites {σ : Type} : Expr σ → List σ
  | .const _ => []
  | .arg _ => []
  | .read _ _ => []
  | .arith site _ left right => site :: (left.arithmeticSites ++ right.arithmeticSites)
  | .compare _ left right => left.arithmeticSites ++ right.arithmeticSites
  | .conditional condition accept reject =>
      condition.arithmeticSites ++ (accept.arithmeticSites ++ reject.arithmeticSites)
  | .resolve _ _ => []
  | .element _ array index => array.arithmeticSites ++ index.arithmeticSites
  | .length array => array.arithmeticSites
  | .format _ argument => argument.arithmeticSites
  | .flag _ => []

mutual

def Stmt.arithmeticSites {σ : Type} : Stmt σ → List σ
  | .block body => arithmeticSitesOfAll body
  | .write _ value => value.arithmeticSites
  | .loop condition body => condition.arithmeticSites ++ body.arithmeticSites
  | .ret value => value.arithmeticSites
  | .eval value => value.arithmeticSites

def arithmeticSitesOfAll {σ : Type} : List (Stmt σ) → List σ
  | [] => []
  | stmt :: rest => stmt.arithmeticSites ++ arithmeticSitesOfAll rest

end

def Body.arithmeticSites {σ : Type} : Body σ → List σ
  | .expr node => node.arithmeticSites
  | .stmt node => node.arithmeticSites

def Root.arithmeticSites {σ : Type} (root : Root σ) : List σ :=
  root.body.arithmeticSites

def Node.arithmeticSites : Node → List SiteId
  | .expr node => node.arithmeticSites
  | .stmt node => node.arithmeticSites
  | .iteration condition body => condition.arithmeticSites ++ body.arithmeticSites
  | .loop condition body _ => condition.arithmeticSites ++ body.arithmeticSites
  | .wholeLoop condition body => condition.arithmeticSites ++ body.arithmeticSites

inductive CacheKind where
  | name
  | shape
  deriving DecidableEq

/-- The sites of the nodes that use a kind of cache, parents first. -/
def Expr.cacheSites {σ : Type} (kind : CacheKind) : Expr σ → List σ
  | .const _ => []
  | .arg _ => []
  | .read _ _ => []
  | .arith _ _ left right => left.cacheSites kind ++ right.cacheSites kind
  | .compare _ left right => left.cacheSites kind ++ right.cacheSites kind
  | .conditional condition accept reject =>
      condition.cacheSites kind ++ (accept.cacheSites kind ++ reject.cacheSites kind)
  | .resolve site _ => if kind = .name then [site] else []
  | .element site array index =>
      (if kind = .shape then [site] else []) ++ (array.cacheSites kind ++ index.cacheSites kind)
  | .length array => array.cacheSites kind
  | .format _ argument => argument.cacheSites kind
  | .flag _ => []

mutual

def Stmt.cacheSites {σ : Type} (kind : CacheKind) : Stmt σ → List σ
  | .block body => cacheSitesOfAll kind body
  | .write _ value => value.cacheSites kind
  | .loop condition body => condition.cacheSites kind ++ body.cacheSites kind
  | .ret value => value.cacheSites kind
  | .eval value => value.cacheSites kind

def cacheSitesOfAll {σ : Type} (kind : CacheKind) : List (Stmt σ) → List σ
  | [] => []
  | stmt :: rest => stmt.cacheSites kind ++ cacheSitesOfAll kind rest

end

def Body.cacheSites {σ : Type} (kind : CacheKind) : Body σ → List σ
  | .expr node => node.cacheSites kind
  | .stmt node => node.cacheSites kind

def Root.cacheSites {σ : Type} (kind : CacheKind) (root : Root σ) : List σ :=
  root.body.cacheSites kind

def Node.cacheSites (kind : CacheKind) : Node → List SiteId
  | .expr node => node.cacheSites kind
  | .stmt node => node.cacheSites kind
  | .iteration condition body => condition.cacheSites kind ++ body.cacheSites kind
  | .loop condition body _ => condition.cacheSites kind ++ body.cacheSites kind
  | .wholeLoop condition body => condition.cacheSites kind ++ body.cacheSites kind

/-- Sites of each kind. -/
structure SiteSets where
  arithmetic : List SiteId
  caches : CacheKind → List SiteId

/-- The sites of some nodes are among them. -/
structure SiteSets.Include (sites : SiteSets) (arithmetic : List SiteId)
    (caches : CacheKind → List SiteId) : Prop where
  arithmetic : arithmetic ⊆ sites.arithmetic
  caches : ∀ kind, caches kind ⊆ sites.caches kind

namespace SiteSets

theorem include_self (sites : SiteSets) : sites.Include sites.arithmetic sites.caches :=
  ⟨List.Subset.refl _, fun _ => List.Subset.refl _⟩

theorem include_append_iff {sites : SiteSets} {left right : List SiteId}
    {leftCaches rightCaches : CacheKind → List SiteId} :
    sites.Include (left ++ right) (fun kind => leftCaches kind ++ rightCaches kind) ↔
      sites.Include left leftCaches ∧ sites.Include right rightCaches := by
  constructor
  · rintro ⟨harithmetic, hcaches⟩
    simp only [List.append_subset, forall_and] at harithmetic hcaches
    exact ⟨⟨harithmetic.1, hcaches.1⟩, ⟨harithmetic.2, hcaches.2⟩⟩
  · rintro ⟨hleft, hright⟩
    exact ⟨List.append_subset.mpr ⟨hleft.arithmetic, hright.arithmetic⟩,
      fun kind => List.append_subset.mpr ⟨hleft.caches kind, hright.caches kind⟩⟩

end SiteSets

def Expr.ownSites (expr : Expr SiteId) : SiteSets :=
  { arithmetic := expr.arithmeticSites, caches := fun kind => expr.cacheSites kind }

def Root.ownSites (root : Root SiteId) : SiteSets :=
  { arithmetic := root.arithmeticSites, caches := fun kind => root.cacheSites kind }

def Node.ownSites (node : Node) : SiteSets :=
  { arithmetic := node.arithmeticSites, caches := fun kind => node.cacheSites kind }

/-- Sites, each named once, with names from a range. -/
structure Spans (first : Nat) (sites : List Nat) (next : Nat) : Prop where
  le : first ≤ next
  inside : ∀ site ∈ sites, first ≤ site ∧ site < next
  nodup : sites.Nodup

namespace Spans

variable {first middle next : Nat} {left right : List Nat}

theorem nil (first : Nat) : Spans first [] first :=
  ⟨Nat.le_refl _, by simp, List.nodup_nil⟩

theorem append (hleft : Spans first left middle) (hright : Spans middle right next) :
    Spans first (left ++ right) next where
  le := Nat.le_trans hleft.le hright.le
  inside := by
    intro site hmem
    have hmiddle := hleft.le
    have hnext := hright.le
    rcases List.mem_append.mp hmem with hsite | hsite
    · have hinside := hleft.inside site hsite
      omega
    · have hinside := hright.inside site hsite
      omega
  nodup := by
    refine List.nodup_append.mpr ⟨hleft.nodup, hright.nodup, ?_⟩
    intro site hsite other hother
    have hbelow := (hleft.inside site hsite).2
    have habove := (hright.inside other hother).1
    omega

theorem cons (hright : Spans (first + 1) right next) : Spans first (first :: right) next := by
  have hfirst : Spans first [first] (first + 1) := ⟨Nat.le_succ _, by simp, by simp⟩
  exact hfirst.append hright

/-- A name may be given to a site of another kind. -/
theorem skip (hright : Spans (first + 1) right next) : Spans first right next := by
  have hfirst : Spans first [] (first + 1) := ⟨Nat.le_succ _, by simp, by simp⟩
  exact hfirst.append hright

end Spans

/-- Each arithmetic node of a graph gets a site of its own. -/
theorem Expr.spans_label {σ : Type} (expr : Expr σ) (first : Nat) :
    Spans first (expr.label first).1.arithmeticSites (expr.label first).2 := by
  induction expr generalizing first with
  | const value => exact .nil first
  | arg index => exact .nil first
  | read slot expect => exact .nil first
  | arith site op left right ihleft ihright => exact .cons ((ihleft _).append (ihright _))
  | compare op left right ihleft ihright => exact (ihleft _).append (ihright _)
  | conditional condition accept reject ihcondition ihaccept ihreject =>
      exact (ihcondition _).append ((ihaccept _).append (ihreject _))
  | resolve site name => exact .skip (.nil _)
  | element site array index iharray ihindex => exact .skip ((iharray _).append (ihindex _))
  | length array iharray => exact iharray _
  | format template argument ihargument => exact ihargument _
  | flag id => exact .nil first

mutual

theorem Stmt.spans_label {σ : Type} : ∀ (stmt : Stmt σ) (first : Nat),
    Spans first (stmt.label first).1.arithmeticSites (stmt.label first).2
  | .block body, first => by
      rw [Stmt.label]
      exact spans_labelAll body first
  | .write slot value, first => by
      rw [Stmt.label]
      exact value.spans_label first
  | .loop condition body, first => by
      rw [Stmt.label]
      exact (condition.spans_label first).append (body.spans_label _)
  | .ret value, first => by
      rw [Stmt.label]
      exact value.spans_label first
  | .eval value, first => by
      rw [Stmt.label]
      exact value.spans_label first

theorem spans_labelAll {σ : Type} : ∀ (body : List (Stmt σ)) (first : Nat),
    Spans first (arithmeticSitesOfAll (labelAll body first).1) (labelAll body first).2
  | [], first => by
      rw [labelAll]
      exact .nil first
  | stmt :: rest, first => by
      rw [labelAll]
      exact (stmt.spans_label first).append (spans_labelAll rest _)

end

theorem Root.spans_label {σ : Type} (root : Root σ) (first : Nat) :
    Spans first (root.label first).1.arithmeticSites (root.label first).2 := by
  obtain ⟨name, frameSize, body⟩ := root
  cases body with
  | expr node => exact node.spans_label first
  | stmt node => exact node.spans_label first

section

variable {σ : Type} (kind : CacheKind)

theorem Expr.spans_cacheSites (expr : Expr σ) (first : Nat) :
    Spans first ((expr.label first).1.cacheSites kind) (expr.label first).2 := by
  have hsite : ∀ {wanted : CacheKind} {first next : Nat} {rest : List Nat},
      Spans (first + 1) rest next →
        Spans first ((if kind = wanted then [first] else []) ++ rest) next := by
    intro wanted first next rest hrest
    split
    · exact .cons hrest
    · exact .skip hrest
  induction expr generalizing first with
  | const value => exact .nil first
  | arg index => exact .nil first
  | read slot expect => exact .nil first
  | arith site op left right ihleft ihright => exact .skip ((ihleft _).append (ihright _))
  | compare op left right ihleft ihright => exact (ihleft _).append (ihright _)
  | conditional condition accept reject ihcondition ihaccept ihreject =>
      exact (ihcondition _).append ((ihaccept _).append (ihreject _))
  | resolve site name =>
      have hspans := @hsite .name first (first + 1) [] (.nil _)
      rw [List.append_nil] at hspans
      exact hspans
  | element site array index iharray ihindex => exact hsite ((iharray _).append (ihindex _))
  | length array iharray => exact iharray _
  | format template argument ihargument => exact ihargument _
  | flag id => exact .nil first

mutual

theorem Stmt.spans_cacheSites : ∀ (stmt : Stmt σ) (first : Nat),
    Spans first ((stmt.label first).1.cacheSites kind) (stmt.label first).2
  | .block body, first => by
      rw [Stmt.label]
      exact spans_cacheSitesOfAll body first
  | .write slot value, first => by
      rw [Stmt.label]
      exact value.spans_cacheSites kind first
  | .loop condition body, first => by
      rw [Stmt.label]
      exact (condition.spans_cacheSites kind first).append (body.spans_cacheSites _)
  | .ret value, first => by
      rw [Stmt.label]
      exact value.spans_cacheSites kind first
  | .eval value, first => by
      rw [Stmt.label]
      exact value.spans_cacheSites kind first

theorem spans_cacheSitesOfAll : ∀ (body : List (Stmt σ)) (first : Nat),
    Spans first (cacheSitesOfAll kind (labelAll body first).1) (labelAll body first).2
  | [], first => by
      rw [labelAll]
      exact .nil first
  | stmt :: rest, first => by
      rw [labelAll]
      exact (stmt.spans_cacheSites first).append (spans_cacheSitesOfAll rest _)

end

theorem Root.spans_cacheSites (root : Root σ) (first : Nat) :
    Spans first ((root.label first).1.cacheSites kind) (root.label first).2 := by
  obtain ⟨name, frameSize, body⟩ := root
  cases body with
  | expr node => exact node.spans_cacheSites kind first
  | stmt node => exact node.spans_cacheSites kind first

end

end AdaptiveEval
