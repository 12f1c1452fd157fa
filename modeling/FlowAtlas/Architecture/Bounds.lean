/-!
# Bounds of the architecture diagram

How much of a project the diagram shows. Each bound can be given in several
places; the first place that gives it counts, and the default counts when none
does.
-/

namespace FlowAtlas

/-- The bounds of the walk through a project. -/
structure Architecture.Bounds where
  docsPerProject : Nat := 8
  typesPerProject : Nat := 10
  methodsPerType : Nat := 10
  topLevelMethods : Nat := 10
  deriving DecidableEq, Repr

/-- Bounds of which each may be left open. -/
structure PartialBounds where
  docsPerProject : Option Nat := none
  typesPerProject : Option Nat := none
  methodsPerType : Option Nat := none
  topLevelMethods : Option Nat := none
  deriving DecidableEq, Repr

namespace PartialBounds

/-- The bounds given in one place, and for those left open the ones given in
another. -/
def orElse (a b : PartialBounds) : PartialBounds where
  docsPerProject := a.docsPerProject.or b.docsPerProject
  typesPerProject := a.typesPerProject.or b.typesPerProject
  methodsPerType := a.methodsPerType.or b.methodsPerType
  topLevelMethods := a.topLevelMethods.or b.topLevelMethods

/-- The bounds with those left open filled in. -/
def fill (a : PartialBounds) (base : Architecture.Bounds) :
    Architecture.Bounds where
  docsPerProject := a.docsPerProject.getD base.docsPerProject
  typesPerProject := a.typesPerProject.getD base.typesPerProject
  methodsPerType := a.methodsPerType.getD base.methodsPerType
  topLevelMethods := a.topLevelMethods.getD base.topLevelMethods

end PartialBounds

end FlowAtlas
