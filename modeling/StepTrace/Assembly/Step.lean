import StepTrace.Trace.Store
import StepTrace.Value.Access

/-!
# Steps, rows and locations of documents

How the leaves of a document are read.  None of this touches the store.
-/

namespace StepTrace

/-- The location of a node; without a line it is line 0. -/
def locationOf (node : Value) (file : String) : Except Fault Location := do
  let location := (← node.field "location").orElse (.map [])
  return ⟨file, ← (← location.field "line" (.int 0)).toInteger⟩

/-- The cells of a table row; a cell without a value is empty. -/
def rowCells (row : Value) : Except Fault (List Value) := do
  (← row.elementsOf "cells").mapM fun cell => cell.field "value" (.text "")

/-- The step of a node. -/
def stepOf (node : Value) (id scenarioId file : String) : Except Fault Step := do
  let keyword ← node.require "keyword"
  let text ← node.require "text"
  let location ← locationOf node file
  let doc ← node.field "docString"
  let docString ← if doc.isPresent then pure (← doc.require "content").nonNull? else pure none
  let data ← node.field "dataTable"
  let table ← if data.isPresent then some <$> ((← data.elementsOf "rows").mapM rowCells)
    else pure none
  return { id, keyword, text, location, scenarioId, docString, table }

end StepTrace
