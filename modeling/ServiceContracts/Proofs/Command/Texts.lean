import ServiceContracts.Command.Report
import ServiceContracts.Proofs.Json.Printed
import Mathlib.Data.List.Forall2
import Mathlib.Data.List.GetD
/-!
# What the texts of reports tell

In JSON format a report is a line that is the text of one value only
(`IsJson`), and the members of that value name the rows of a list, the
counts of a check, and the payload or the errors of a validation. A table
has some lines for each row, with the lines of its cells in them from left
to right (`Table.Shows`), and in the third format a row or an error has a
line of its own. A payload stands there as JSON text, and no other payload
has that text.
-/


namespace ServiceContracts.Command

variable {s t : String} {parts : List String} {format : Format}

/-! ## Parts of a text -/

/-- **The parts stand in a text**, one after the other. -/
def Carries : String → List String → Prop
  | _, [] => True
  | s, part :: rest => ∃ before after, s = before ++ part ++ after ∧ Carries after rest

theorem Carries.append_left (h : Carries s parts) : Carries (t ++ s) parts := by
  cases parts with
  | nil => trivial
  | cons part rest =>
    obtain ⟨before, after, rfl, hrest⟩ := h
    exact ⟨t ++ before, after, by simp only [String.append_assoc], hrest⟩

theorem Carries.cons_append {part : String} (h : Carries s parts) :
    Carries (part ++ s) (part :: parts) :=
  ⟨"", s, by rw [String.empty_append], h⟩

/-- Empty parts stand in any text. -/
theorem carries_of_empty (h : ∀ part ∈ parts, part = "") : Carries s parts := by
  induction parts with
  | nil => trivial
  | cons part rest ih =>
    obtain ⟨rfl, hrest⟩ := List.forall_mem_cons.mp h
    exact ⟨"", s, by simp, ih hrest⟩

/-- **Filled-up parts with something between them stand in the text.** -/
theorem carries_intercalate {separator after : String} {texts : List String}
    (h : List.Forall₂ (fun text part => ∃ blanks, text = part ++ blanks) texts parts) :
    Carries (separator.intercalate texts ++ after) parts := by
  induction h with
  | nil => trivial
  | @cons text part texts parts hpart hrest ih =>
    obtain ⟨blanks, rfl⟩ := hpart
    cases hrest with
    | nil =>
      refine ⟨"", blanks ++ after, ?_, trivial⟩
      simp [String.append_assoc]
    | cons =>
      rw [String.intercalate_cons_cons, String.append_assoc, String.append_assoc,
        String.append_assoc]
      exact ih.append_left.append_left.cons_append

/-! ## Tables -/

namespace Table

/-- A line of a cell; below its last one there is nothing. -/
def cellLine (i : Nat) (cell : String) : String := (cellLines cell).getD i ""

/-- **Lines of text show the rows of a table**: after some lines of the frame
come the lines of each row, and each of them has its line of every cell,
from left to right. -/
def Shows (rows : List (List String)) (lines : List String) : Prop :=
  ∃ top blocks bottom, lines = top ++ List.flatten blocks ++ bottom ∧
    List.Forall₂ (fun row block => ∀ i, Carries (block.getD i "") (row.map (cellLine i)))
      rows blocks

theorem le_foldl_max (ns : List Nat) (n : Nat) :
    n ≤ ns.foldl max n ∧ ∀ m ∈ ns, m ≤ ns.foldl max n := by
  induction ns generalizing n with
  | nil => exact ⟨Nat.le_refl n, nofun⟩
  | cons first rest ih =>
    obtain ⟨hn, hrest⟩ := ih (max n first)
    rw [List.foldl_cons]
    exact ⟨by omega, List.forall_mem_cons.mpr ⟨by omega, hrest⟩⟩

/-- Cells filled up to the widths of their columns. -/
theorem forall₂_zipWith_pad {widths : List Nat} {row : List String}
    (h : row.length ≤ widths.length) (i : Nat) :
    List.Forall₂ (fun text part => ∃ blanks, text = part ++ blanks)
      (List.zipWith (fun w lines => pad w (lines.getD i "")) widths (row.map cellLines))
      (row.map (cellLine i)) := by
  induction row generalizing widths with
  | nil =>
    rw [List.map_nil, List.zipWith_nil_right]
    exact .nil
  | cons cell row ih =>
    cases widths with
    | nil => cases h
    | cons w widths => exact .cons ⟨_, rfl⟩ (ih (Nat.le_of_succ_le_succ h))

/-- **A line of a row has its line of every cell.** -/
theorem carries_rowLines {widths : List Nat} {row : List String} (more : List String)
    (h : row.length ≤ widths.length) (i : Nat) :
    Carries ((rowLines widths row ++ more).getD i "") (row.map (cellLine i)) := by
  have hmax := le_foldl_max ((row.map cellLines).map List.length) 1
  unfold rowLines
  dsimp only
  generalize ((row.map cellLines).map List.length).foldl max 1 = height at hmax ⊢
  rcases Nat.lt_or_ge i height with hlt | hge
  · rw [List.getD_append _ _ _ _ (by simpa using hlt),
      List.getD_eq_getElem _ _ (by simpa using hlt)]
    simp only [List.getElem_map, List.getElem_range, String.append_assoc]
    exact (carries_intercalate (forall₂_zipWith_pad h i)).append_left
  · -- the cells have ended
    refine carries_of_empty fun part hpart => ?_
    obtain ⟨cell, hcell, rfl⟩ := List.mem_map.mp hpart
    refine List.getD_eq_default _ _ (Nat.le_trans (hmax.2 _ ?_) hge)
    exact List.mem_map_of_mem (List.mem_map_of_mem hcell)

/-- The lines of rows show the rows. -/
theorem exists_bodyLines {widths : List Nat} {rows : List (List String)}
    (h : ∀ row ∈ rows, row.length ≤ widths.length) :
    ∃ blocks, bodyLines widths rows = List.flatten blocks ∧
      List.Forall₂ (fun row block => ∀ i, Carries (block.getD i "") (row.map (cellLine i)))
        rows blocks := by
  induction rows with
  | nil => exact ⟨[], rfl, .nil⟩
  | cons row rows ih =>
    obtain ⟨hrow, hrows⟩ := List.forall_mem_cons.mp h
    cases rows with
    | nil =>
      refine ⟨[rowLines widths row], by simp [bodyLines], .cons (fun i => ?_) .nil⟩
      simpa using carries_rowLines [] hrow i
    | cons next rows =>
      obtain ⟨blocks, hblocks, hshows⟩ := ih hrows
      refine ⟨(rowLines widths row ++ [Line.draw ⟨"├", '╌', "┼", "┤"⟩ widths]) :: blocks, ?_,
        .cons (carries_rowLines _ hrow) hshows⟩
      rw [List.flatten_cons, ← hblocks]
      rfl

theorem length_columnWidths {t : Table} (h : ∀ row ∈ t.rows, row.length = t.header.length) :
    t.columnWidths.length = t.header.length := by
  have hfold : ∀ (rows : List (List String)) (widths : List Nat),
      (∀ row ∈ rows, row.length = widths.length) →
      (rows.foldl (fun widths row => List.zipWith max widths (row.map cellWidth)) widths).length =
        widths.length := by
    intro rows
    induction rows with
    | nil => exact fun _ _ => rfl
    | cons row rows ih =>
      intro widths h
      obtain ⟨hrow, hrows⟩ := List.forall_mem_cons.mp h
      have hlength : (List.zipWith max widths (row.map cellWidth)).length = widths.length := by
        rw [List.length_zipWith, List.length_map, hrow, Nat.min_self]
      rw [List.foldl_cons, ih _ (hlength ▸ hrows), hlength]
  rw [columnWidths, hfold _ _ (by simpa using h), List.length_map]

end Table

theorem line_intercalate {lines : List String} (h : lines ≠ []) :
    line ("\n".intercalate lines) = String.join (lines.map line) := by
  induction lines with
  | nil => exact absurd rfl h
  | cons first rest ih =>
    cases rest with
    | nil => simp [line]
    | cons next rest =>
      rw [String.intercalate_cons_cons, List.map_cons, String.join_cons, ← ih (List.cons_ne_nil _ _)]
      simp only [line, String.append_assoc]

/-- **A table shows its rows**, each of as many cells as the header. -/
theorem exists_shows_draw {t : Table} (h : ∀ row ∈ t.rows, row.length = t.header.length) :
    ∃ lines, line t.draw = String.join (lines.map line) ∧ Table.Shows t.rows lines := by
  have hwidths := Table.length_columnWidths h
  obtain ⟨blocks, hblocks, hshows⟩ := @Table.exists_bodyLines t.columnWidths t.rows fun row hrow =>
    hwidths ▸ (h row hrow).le
  have hdraw : t.draw = "\n".intercalate
      ([Table.Line.draw ⟨"┌", '─', "┬", "┐"⟩ t.columnWidths] ++
          Table.rowLines t.columnWidths t.header ++
          [Table.Line.draw ⟨"╞", '═', "╪", "╡"⟩ t.columnWidths] ++ List.flatten blocks ++
        [Table.Line.draw ⟨"└", '─', "┴", "┘"⟩ t.columnWidths]) := by
    rw [← hblocks]
    rfl
  exact ⟨_, hdraw ▸ line_intercalate (by simp), _, blocks, _, rfl, hshows⟩

/-! ## JSON -/

/-- **The text is that of one value only.** -/
def IsJson (text : String) (v : Json) : Prop := ∀ w : Json, line w.compact = text ↔ w = v

theorem isJson_compact (v : Json) : IsJson (line v.compact) v := fun w => by
  rw [line, line, String.append_left_inj, Json.compact_inj]

/-- The member is this count and no other. -/
def IsCount (members : List (String × Json)) (key : String) (n : Nat) : Prop :=
  ∀ k : Nat, Entries.get? members key = some (count k) ↔ k = n

theorem integer_inj {m n : ℤ} : integer m = integer n ↔ m = n := by
  have hcases : ∀ k : ℤ, (∃ w : Json.Whole, w.val = k ∧ integer k = .number (.whole w)) ∨
      integer k = .string (toString k) := by
    intro k
    unfold integer
    split
    · next w hw => exact .inl ⟨w, Json.Whole.ofInt?_eq_some hw, rfl⟩
    · exact .inr rfl
  refine ⟨fun h => ?_, congrArg integer⟩
  obtain ⟨v, hv, hm⟩ | hm := hcases m <;> obtain ⟨w, hw, hn⟩ | hn := hcases n <;> rw [hm, hn] at h
  · obtain rfl := Json.Number.whole.inj (Json.number.inj h)
    exact hv.symm.trans hw
  · cases h
  · cases h
  · exact Json.toString_int_inj (Json.string.inj h)

theorem isCount_of_get? {members : List (String × Json)} {key : String} {n : Nat}
    (h : Entries.get? members key = some (count n)) : IsCount members key n := fun k => by
  rw [h, Option.some_inj, count, count, integer_inj, Int.ofNat_inj, eq_comm]

/-! ## The list of operations -/

/-- **A row as a JSON value**: it says what the row is about. -/
structure OperationRow.IsItem (row : OperationRow) (item : Json) : Prop where
  service : item.member? "service" = some (.string row.service)
  operation : item.member? "operation" = some (.string row.operation)
  wireName : item.member? "wire_name" = some (.string row.wireName)
  shape : ∀ shape : OperationShape,
    item.member? "shape" = some (.string shape.text) ↔ shape = row.shape
  input : item.member? "input" = some (.string (row.input.getD "-"))
  output : item.member? "output" = some (.string (row.output.getD "-"))

/-- The texts of a row, for a reader. -/
def OperationRow.texts (row : OperationRow) : List String :=
  [row.service, row.operation, row.wireName, row.shape.text, row.input.getD "-",
    row.output.getD "-"]

/-- **What the text of a list tells**: the rows, one by one and in order. -/
inductive ListTells (rows : List OperationRow) : Format → String → Prop
  | json {text : String} {members : List (String × Json)} {items : List Json}
      (htext : IsJson text (.object members))
      (hitems : Entries.get? members "operations" = some (.array items))
      (hrows : List.Forall₂ OperationRow.IsItem rows items) : ListTells rows .json text
  | table {lines : List String} (hrows : Table.Shows (rows.map OperationRow.texts) lines) :
      ListTells rows .table (String.join (lines.map line))
  | pretty {lines : List String}
      (hrows : List.Forall₂ (fun row s => Carries s row.texts) rows lines) :
      ListTells rows .pretty (String.join (lines.map line))

theorem OperationShape.text_inj {a b : OperationShape} : a.text = b.text ↔ a = b := by
  cases a <;> cases b <;> simp [OperationShape.text]

theorem OperationRow.toJson_isItem (row : OperationRow) : row.IsItem row.toJson where
  service := rfl
  operation := rfl
  wireName := rfl
  shape := fun shape => by
    have hmember : row.toJson.member? "shape" = some (.string row.shape.text) := rfl
    rw [hmember, Option.some_inj, Json.string.injEq, OperationShape.text_inj, eq_comm]
  input := rfl
  output := rfl

/-- A row in a line has its texts in it. -/
theorem OperationRow.carries_pretty (row : OperationRow) : Carries row.pretty row.texts := by
  unfold OperationRow.pretty
  simp only [String.append_assoc]
  exact .cons_append (.append_left (.cons_append (.append_left (.cons_append (.append_left
    (.cons_append (.append_left (.cons_append (.append_left (.cons_append trivial))))))))))

/-- **A list tells its rows.** -/
theorem listText_tells (rows : List OperationRow) (format : Format) :
    ListTells rows format (listText rows format) := by
  cases format with
  | json =>
    refine .json (isJson_compact _) rfl ?_
    exact List.forall₂_map_right_iff.mpr (List.forall₂_same.mpr fun row _ => row.toJson_isItem)
  | table =>
    have hlength : ∀ cells ∈ rows.map OperationRow.cells, cells.length = 6 := by
      simp [OperationRow.cells]
    obtain ⟨lines, htext, hshows⟩ := exists_shows_draw
      (t := ⟨["SERVICE", "OPERATION", "WIRE NAME", "SHAPE", "INPUT", "OUTPUT"],
        rows.map OperationRow.cells⟩) hlength
    rw [listText, htext]
    exact .table hshows
  | pretty =>
    have hmap : (rows.map fun r => line r.pretty) = (rows.map OperationRow.pretty).map line := by
      rw [List.map_map]
      rfl
    rw [listText, hmap]
    exact .pretty (List.forall₂_map_right_iff.mpr
      (List.forall₂_same.mpr fun row _ => row.carries_pretty))

/-! ## The counts of a check -/

/-- **What the text of a check tells**: the counts. -/
inductive CheckTells (report : CheckReport) : Format → String → Prop
  | json {text : String} {members : List (String × Json)}
      (htext : IsJson text (.object members))
      (hdocuments : IsCount members "documents" report.documents)
      (hservices : IsCount members "services" report.services)
      (hoperations : IsCount members "operations" report.operations)
      (hsealed : Entries.get? members "sealed" = some (.boolean report.isSealed)) :
      CheckTells report .json text
  | table {lines : List String} (hcounts : Table.Shows [[toString report.documents,
        toString report.services, toString report.operations,
        if report.isSealed then "true" else "false"]] lines) :
      CheckTells report .table (String.join (lines.map line))
  | pretty {text : String} (hcounts : Carries text [toString report.documents,
        toString report.services, toString report.operations]) : CheckTells report .pretty (line text)

/-- **A check tells its counts.** -/
theorem CheckReport.text_tells (report : CheckReport) (format : Format) :
    CheckTells report format (report.text format) := by
  cases format with
  | json =>
    exact .json (isJson_compact _) (isCount_of_get? rfl) (isCount_of_get? rfl)
      (isCount_of_get? rfl) rfl
  | table =>
    obtain ⟨lines, htext, hshows⟩ := exists_shows_draw
      (t := ⟨["DOCUMENTS", "SERVICES", "OPERATIONS", "SEALED"],
        [[toString report.documents, toString report.services, toString report.operations,
          if report.isSealed then "true" else "false"]]⟩) (by simp)
    rw [CheckReport.text, htext]
    exact .table hshows
  | pretty =>
    rw [CheckReport.text]
    refine .pretty ?_
    simp only [String.append_assoc]
    exact .append_left (.cons_append (.append_left (.cons_append (.append_left
      (.cons_append trivial)))))

/-! ## The result of a validation -/

/-- **An error as a JSON value**: where it is, and what it is. -/
structure IsErrorItem (error : FieldError) (item : Json) : Prop where
  field : item.member? "field" = some (.string error.field)
  reason : item.member? "reason" = some (.string error.reason)

/-- **What the text of a validation tells**: that there are no errors and
which payload there is, or which errors there are, one by one and in
order. -/
inductive ResultTells : Except FieldErrors Json → Format → String → Prop
  | payloadJson {payload : Json} {text : String} {members : List (String × Json)}
      (htext : IsJson text (.object members))
      (hvalid : Entries.get? members "valid" = some (.boolean true))
      (hpayload : Entries.get? members "payload" = some payload)
      (herrors : Entries.get? members "errors" = some (.array [])) :
      ResultTells (.ok payload) .json text
  | payloadTable {payload : Json} {text : String}
      (htext : ∀ w : Json, line w.pretty = text ↔ w = payload) :
      ResultTells (.ok payload) .table text
  | payloadPretty {payload : Json} {before text : String}
      (htext : ∀ w : Json, line (before ++ w.compact) = text ↔ w = payload) :
      ResultTells (.ok payload) .pretty text
  | errorsJson {errors : FieldErrors} {text : String} {members : List (String × Json)}
      {items : List Json} (htext : IsJson text (.object members))
      (hvalid : Entries.get? members "valid" = some (.boolean false))
      (hpayload : Entries.get? members "payload" = none)
      (hitems : Entries.get? members "errors" = some (.array items))
      (herrors : List.Forall₂ IsErrorItem errors items) : ResultTells (.error errors) .json text
  | errorsTable {errors : FieldErrors} {lines : List String}
      (herrors : Table.Shows (errors.map fun e => [e.field, e.reason]) lines) :
      ResultTells (.error errors) .table (String.join (lines.map line))
  | errorsPretty {errors : FieldErrors} {first : String} {lines : List String}
      (herrors : List.Forall₂ (fun (e : FieldError) s => Carries s [e.field, e.reason])
        errors lines) :
      ResultTells (.error errors) .pretty (line first ++ String.join (lines.map line))

/-- A payload at the end of a line is told by the line. -/
theorem line_append_compact_inj {before : String} {v w : Json} :
    line (before ++ w.compact) = line (before ++ v.compact) ↔ w = v := by
  rw [line, line, String.append_left_inj, String.append_right_inj, Json.compact_inj]

/-- So is one over several lines. -/
theorem line_pretty_inj {v w : Json} : line w.pretty = line v.pretty ↔ w = v := by
  rw [line, line, String.append_left_inj, Json.pretty_inj]

/-- **A validation tells its result.** -/
theorem ValidationReport.text_tells (r : ValidationReport) (format : Format) :
    ResultTells r.result format (r.text format) := by
  obtain ⟨service, operation, side, schema, result⟩ := r
  cases result with
  | ok payload =>
    cases format with
    | json => exact .payloadJson (isJson_compact _) rfl rfl rfl
    | table => exact .payloadTable fun _ => line_pretty_inj
    | pretty => exact .payloadPretty fun _ => line_append_compact_inj
  | error errors =>
    cases format with
    | json =>
      refine .errorsJson (isJson_compact _) rfl rfl rfl ?_
      exact List.forall₂_map_right_iff.mpr (List.forall₂_same.mpr fun e _ => ⟨rfl, rfl⟩)
    | table =>
      obtain ⟨lines, htext, hshows⟩ := exists_shows_draw
        (t := ⟨["FIELD", "REASON"], errors.map fun e => [e.field, e.reason]⟩) (by simp)
      simp only [ValidationReport.text, htext]
      exact .errorsTable hshows
    | pretty =>
      have hmap : (errors.map fun e => line ("  " ++ e.text)) =
          (errors.map fun e => "  " ++ e.text).map line := by
        rw [List.map_map]
        rfl
      simp only [ValidationReport.text, hmap]
      refine .errorsPretty (List.forall₂_map_right_iff.mpr (List.forall₂_same.mpr fun e _ => ?_))
      rw [FieldError.text, String.append_assoc]
      exact .append_left (.cons_append (.append_left ⟨"", "", by simp, trivial⟩))

end ServiceContracts.Command
