import Thesaurus.Forest.Context

/-!
# Resolvers (design §4.3)

The deputies of a context are asked for again and again. A resolver makes each of them when it is
asked for first, and keeps it.

- `Resolver`: a context with the deputies that were made in it.
- `Resolver.start`: the resolver of a scheme or collection, before any deputy is made.
- `Resolver.deputy`, `Resolver.roots`: the deputy of a concept, and the concepts shown directly
  below the context. Both leave the resolver with what was made on the way.
-/

namespace Thesaurus

/-- The deputy resolver (§4.3): a context with the deputies made in it so far, by the ids they were
asked for with. -/
structure Resolver where
  context : Context
  made : List (ResourceId × Deputy) := []
deriving DecidableEq

namespace Resolver

/-- The resolver of a scheme or collection (`for_context`). No other resource has one. -/
def start (g : ResourceGraph) (id : ResourceId) : Except Defect Resolver :=
  match g.resource id with
  | .error d => .error d
  | .ok r =>
    match Context.of g r with
    | .error d => .error d
    | .ok c => .ok { context := c }

/-- The deputy of the resource with a given id. It is made if there is none yet; nothing is kept of
a request that fails. -/
def deputy (g : ResourceGraph) (s : Resolver) (id : ResourceId) :
    Resolver × Except Defect Deputy :=
  match s.made.lookup id with
  | some deputy => (s, .ok deputy)
  | none =>
    match s.context.deputy g id with
    | .error d => (s, .error d)
    | .ok deputy => ({ s with made := (id, deputy) :: s.made }, .ok deputy)

/-- The listed concepts that are shown directly below the context. Declared top concepts are, and no
deputy is made for them; of the others those whose deputy has no broader concept. -/
def rootsAmong (g : ResourceGraph) (s : Resolver) :
    List ResourceId → Resolver × Except Defect (List ResourceId)
  | [] => (s, .ok [])
  | id :: rest =>
    if s.context.isTop id then
      let (last, roots) := rootsAmong g s rest
      (last, roots.map (id :: ·))
    else
      match s.deputy g id with
      | (next, .error d) => (next, .error d)
      | (next, .ok deputy) =>
        let (last, roots) := rootsAmong g next rest
        (last, if deputy.broader.isEmpty then roots.map (id :: ·) else roots)

/-- The concepts shown directly below the context. -/
def roots (g : ResourceGraph) (s : Resolver) : Resolver × Except Defect (List ResourceId) :=
  s.rootsAmong g s.context.members.toList

end Resolver

end Thesaurus
