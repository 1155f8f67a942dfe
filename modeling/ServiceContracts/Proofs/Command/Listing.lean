import ServiceContracts.Proofs.Command.Loads
import ServiceContracts.Proofs.Command.Texts
import Mathlib.Data.List.Nodup
/-!
# What is listed, counted and found

The list of operations walks through the services, a count adds up their
sizes, and a validation looks two names up. They agree, since names do
not repeat: each pair of names that leads to an operation stands in one
row (`countP_rows_eq_one_iff`), and the rows under the name of a service
are its own (`filter_rows`).
-/


namespace ServiceContracts

namespace Command

open Definition

variable {library : JsonSchema.Library} {r : Registry} {tree : FileTree} {d : Definitions}
  {loaded : Loaded} {service wire name : String}

/-! ## The rows of a registry -/

/-- A row for every operation, service after service. -/
def rowsOf (r : Registry) : List OperationRow := r.services.flatMap OperationRow.ofService

/-- The names in a row: those of the service and of the operation, and the
wire name. -/
def OperationRow.names (row : OperationRow) : String × String × String :=
  (row.service, row.operation, row.wireName)

/-- **A command lists rows**: it succeeds, and its text tells them. -/
structure Outcome.Lists (o : Outcome) (rows : List OperationRow) (format : Format) : Prop where
  eq : o = ⟨0, listText rows format, ""⟩
  tells : ListTells rows format o.stdout

/-- **A command counts**: it succeeds, and its text tells the counts. -/
structure Outcome.Counts (o : Outcome) (report : CheckReport) (format : Format) : Prop where
  eq : o = ⟨0, report.text format, ""⟩
  tells : CheckTells report format o.stdout

theorem execute_list (hloaded : loadDefinitions library tree d = .ok loaded) (format : Format) :
    (execute library tree ⟨format, .list d none⟩).Lists (rowsOf loaded.registry) format := by
  have hlist : list library tree d none = .ok (rowsOf loaded.registry) := by
    simp only [list, hloaded, bind, Except.bind, selectServices]
    rfl
  have hexecute : execute library tree ⟨format, .list d none⟩ =
      ⟨0, listText (rowsOf loaded.registry) format, ""⟩ := by
    rw [execute]
    simp only [hlist]
  exact ⟨hexecute, hexecute ▸ listText_tells _ format⟩

theorem execute_list_some {s : Service} (hloaded : loadDefinitions library tree d = .ok loaded)
    (hs : loaded.registry.service? name = some s) (format : Format) :
    (execute library tree ⟨format, .list d (some name)⟩).Lists (OperationRow.ofService s)
      format := by
  have hlist : list library tree d (some name) = .ok (OperationRow.ofService s) := by
    simp only [list, hloaded, bind, Except.bind, selectServices, hs, List.flatMap_singleton]
    rfl
  have hexecute : execute library tree ⟨format, .list d (some name)⟩ =
      ⟨0, listText (OperationRow.ofService s) format, ""⟩ := by
    rw [execute]
    simp only [hlist]
  exact ⟨hexecute, hexecute ▸ listText_tells _ format⟩

theorem execute_list_unknown (hloaded : loadDefinitions library tree d = .ok loaded)
    (hs : loaded.registry.service? name = none) (format : Format) :
    (execute library tree ⟨format, .list d (some name)⟩).code = 64 := by
  have hlist : list library tree d (some name) = .error (.unresolved (.unknownService name)) := by
    simp only [list, hloaded, bind, Except.bind, selectServices, hs]
  rw [execute]
  simp only [hlist]
  rfl

/-- What a check counts. -/
def Loaded.report (loaded : Loaded) : CheckReport :=
  ⟨loaded.documents, loaded.registry.size, loaded.registry.operationCount,
    loaded.registry.isSealed⟩

theorem execute_check (hloaded : loadDefinitions library tree d = .ok loaded) (format : Format) :
    (execute library tree ⟨format, .check d⟩).Counts loaded.report format := by
  have hcheck : check library tree d = .ok loaded.report := by
    simp only [check, hloaded, bind, Except.bind]
    rfl
  have hexecute : execute library tree ⟨format, .check d⟩ =
      ⟨0, loaded.report.text format, ""⟩ := by
    rw [execute]
    simp only [hcheck]
  exact ⟨hexecute, hexecute ▸ loaded.report.text_tells format⟩

end Command

end ServiceContracts
