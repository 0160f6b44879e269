import LogicTest.Condition

/-!
# Policies

A policy decides from the conditions of a record, and from nothing else, whether it is kept.
-/
namespace LogicTest

/-- Says of a record, by its conditions, whether it is kept. -/
abbrev Policy := Conditions → Bool

namespace Policy

def keepAll : Policy := fun _ => true

def keepNone : Policy := fun _ => false

/-- The names under which scripts know PostgreSQL and what is compatible with it. -/
def postgresNames : List Text := ["postgresql".toList, "cockroachdb".toList]

def namesPostgres (set : ConditionSet) : Bool := postgresNames.any (· ∈ set)

/-- Keeps the records meant for PostgreSQL. A need for one of its names is enough; any other need
rejects; without needs, a skip of one of its names rejects. -/
def postgres : Policy := fun conditions =>
  if namesPostgres conditions.only then true
  else if !conditions.only.isEmpty then false
  else !namesPostgres conditions.skip

end Policy
end LogicTest
