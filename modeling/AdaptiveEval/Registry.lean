import AdaptiveEval.Chain.Arena
import Std.Data.HashMap

/-!
# Name resolution

The authoritative map from names to ids, and its resolution through the chain of a site.
-/

namespace AdaptiveEval

open Chain

/-- Unmapped names are cached like mapped ones. -/
abbrev NameCache := Arena String (Option Int64)

structure Registry where
  ids : Std.HashMap String Int64 := ∅
  /-- Counts the mappings. It has no last value; a counter of 64 bits would wrap after `2 ^ 64`. -/
  epoch : Nat := 0
  cacheLimit : Nat

namespace Registry

def ofLimit (limit : Nat) : Registry :=
  { cacheLimit := min limit maxLimit }

/-- The last mapping of a name wins. -/
def map (registry : Registry) (name : String) (id : Int64) : Registry :=
  { registry with ids := registry.ids.insert name id, epoch := registry.epoch + 1 }

def lookup (registry : Registry) (name : String) : Option Int64 :=
  registry.ids[name]?

def freshCache (registry : Registry) : NameCache :=
  .ofLimit registry.cacheLimit

/-- Brings the cache to the registry's epoch, then reads the site's chain or extends it. -/
def resolve (registry : Registry) (cache : NameCache) (site : Head) (name : String) :
    Option Int64 × NameCache × Head :=
  let cache := cache.sync registry.epoch
  match cache.lookup site (fun key => key == name) with
  | some id => (id, cache, site.record true)
  | none =>
      let id := registry.lookup name
      let (_, cache, site) := cache.tryAppend (site.record false) cache.generation name id
      (id, cache, site)

end Registry

end AdaptiveEval
