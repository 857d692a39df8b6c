import Z80Workbench.Table

/-!
# Z80Workbench.Expr.Scope

What a name stands for. A symbol table is asked first and a second resolver, such as the
firmware's names, for what the table does not know.
-/

namespace Z80Workbench

/-- Symbols with their values, in order of first definition. -/
abbrev Symbols := Table String Int

namespace Expr

/-- Where names are looked up. -/
structure Scope where
  symbols : Symbols
  fallback : String → Option Int := fun _ => none

namespace Scope

/-- The value of a name in capital letters. -/
def value? (scope : Scope) (name : String) : Option Int :=
  (scope.symbols.get? name).or (scope.fallback name)

end Scope

end Expr

end Z80Workbench
