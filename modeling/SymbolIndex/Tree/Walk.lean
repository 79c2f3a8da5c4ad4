import SymbolIndex.Tree.Forest

/-!
# Walking a forest

The walk offers each declaration with the declaration around it, in preorder, to a step. The step's
directive says whether to go below the declaration, to pass on, or to stop the walk. A failing step
ends the walk at once, and the state reached so far is kept.
-/

namespace SymbolIndex

inductive Directive where
  | stop
  | pass
  | enter
  deriving DecidableEq, Repr

/-- What to do with a declaration, given the declaration around it. -/
abbrev WalkStep (σ ε : Type) := σ → Decl → Decl → σ × Except ε Directive

/-- Walk a forest below `parent`. The answer is `false` if a step stopped the walk. -/
def Forest.walk {σ ε : Type} (step : WalkStep σ ε) : Forest → Decl → σ → σ × Except ε Bool
  | .nil, _, s => (s, .ok true)
  | .cons decl children rest, parent, s =>
    match step s decl parent with
    | (s, .error e) => (s, .error e)
    | (s, .ok .stop) => (s, .ok false)
    | (s, .ok .pass) => rest.walk step parent s
    | (s, .ok .enter) =>
      match children.walk step decl s with
      | (s, .ok true) => rest.walk step parent s
      | halted => halted

def SourceUnit.walk {σ ε : Type} (step : WalkStep σ ε) (unit : SourceUnit) (s : σ) :
    σ × Except ε Bool :=
  unit.forest.walk step unit.root s

/-- One call of a step: the declaration, the one around it and the directive, if the step gave one. -/
structure WalkCall where
  decl : Decl
  parent : Decl
  directive : Option Directive

/-- The same step, which also records its calls in order. -/
def recording {σ ε : Type} (step : WalkStep σ ε) : WalkStep (σ × List WalkCall) ε :=
  fun (s, calls) decl parent =>
    let (s, answer) := step s decl parent
    ((s, calls ++ [⟨decl, parent, answer.toOption⟩]), answer)

end SymbolIndex
