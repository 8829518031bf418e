import VectorIndex.Failure

/-!
# Defaults

The settings of a method's parameters that hold when a definition leaves them
out. They are read from a record whose fields all may be left out, and may be
overridden one by one.
-/

namespace VectorIndex

open Json

/-- Settings for parameters that a definition leaves out. -/
structure Defaults where
  m : Int64
  efConstruction : Int64
  efSearch : Int64
deriving DecidableEq

namespace Defaults

/-- The defaults that hold when nothing else is said. -/
def builtIn : Defaults :=
  ⟨16, 100, 100⟩

/-- Defaults: an integer for each parameter. -/
def record : Record Defaults Defaults where
  title := "KnnSettings"
  fields := [
    ⟨"algo_param_m", fun d s => do return { s with m := ← readInt64 d }⟩,
    ⟨"algo_param_ef_construction",
      fun d s => do return { s with efConstruction := ← readInt64 d }⟩,
    ⟨"algo_param_ef_search", fun d s => do return { s with efSearch := ← readInt64 d }⟩]
  start := builtIn
  finish _ s := .ok s

/-- Reads defaults from a file. -/
def load (f : File) : Except Failure Defaults :=
  f.read record.read

/-- Defaults as a JSON value. -/
def json (d : Defaults) : Json :=
  .object [
    ("algo_param_m", .number (.integer d.m.toInt)),
    ("algo_param_ef_construction", .number (.integer d.efConstruction.toInt)),
    ("algo_param_ef_search", .number (.integer d.efSearch.toInt))]

/-- The text of defaults in a log. -/
def display (d : Defaults) : String :=
  "KnnSettings \x7b algo_param_m: " ++ Decimal.ofInt64 d.m ++
    ", algo_param_ef_construction: " ++ Decimal.ofInt64 d.efConstruction ++
    ", algo_param_ef_search: " ++ Decimal.ofInt64 d.efSearch ++ " \x7d"

/-- Defaults to put in place of others, each on its own. -/
structure Overrides where
  m : Option Int64
  efConstruction : Option Int64
  efSearch : Option Int64
deriving DecidableEq

/-- The defaults with every override given put in place. -/
def override (d : Defaults) (o : Overrides) : Defaults where
  m := o.m.getD d.m
  efConstruction := o.efConstruction.getD d.efConstruction
  efSearch := o.efSearch.getD d.efSearch

end Defaults

end VectorIndex
