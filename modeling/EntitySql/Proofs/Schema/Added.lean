import EntitySql.Schema.Table
import Mathlib

/-! Tables that are built step by step. A table keeps the first column that is added for a field, where it was added, and
of every later one the name; so the columns and these names tell all columns that were added apart. -/
namespace EntitySql
variable {t : Table} {c : Column} {cs : List Column} {field : String}

/-- A step that builds a table. -/
inductive Table.Edit where
  | addColumn (c : Column)
  | inNamespace (ns : String)
  | withUnique (key : UniqueConstraint)
  | addOperation (op : Operation)

namespace Table

def edit (t : Table) : Edit → Table
  | .addColumn c => t.addColumn c
  | .inNamespace ns => t.inNamespace ns
  | .withUnique key => t.withUnique key
  | .addOperation op => t.addOperation op

def edited (t : Table) (edits : List Edit) : Table :=
  edits.foldl edit t

/-- What a table begins as. -/
inductive Start where
  | ofName (name : String)
  | ofEntity (entity : String)
  | view (name base : String)

def Start.table : Start → Table
  | ofName name => Table.ofName name
  | ofEntity entity => Table.ofEntity entity
  | view name base => Table.view name base

/-- The column that a step adds, if it adds one. -/
def Edit.column? : Edit → Option Column
  | addColumn c => some c
  | _ => none

/-- The columns that are added by steps, also those whose fields are taken. -/
def added (edits : List Edit) : List Column :=
  edits.filterMap Edit.column?

/-- A column as the table holds it: the table's own, and with a name. -/
def owned (t : Table) (c : Column) : Column :=
  { c.nameFilled with owner := t.name }

end Table

/-- The field of the column at a place is that of a column before it. -/
def isRepeated (cs : List Column) (p : Column × Nat) : Bool :=
  p.1.field ∈ (cs.take p.2).map Column.field

/-- The columns whose fields come again, or else those whose fields do not. -/
def columnsBy (again : Bool) (cs : List Column) : List Column :=
  (cs.zipIdx.filter fun p => isRepeated cs p == again).map Prod.fst

/-- The columns that are the first of their fields. -/
def firsts (cs : List Column) : List Column :=
  columnsBy false cs

/-- The columns that are not the first of their fields. -/
def repeated (cs : List Column) : List Column :=
  columnsBy true cs

theorem isRepeated_concat {p : Column × Nat} (hp : p ∈ cs.zipIdx) : isRepeated (cs ++ [c]) p = isRepeated cs p := by
  have hlt : p.2 < cs.length := List.snd_lt_of_mem_zipIdx hp
  rw [isRepeated, isRepeated, List.take_append_of_le_length hlt.le]

theorem columnsBy_concat (again : Bool) (cs : List Column) (c : Column) : columnsBy again (cs ++ [c]) =
    columnsBy again cs ++ if decide (c.field ∈ cs.map Column.field) = again then [c] else [] := by
  have hbefore : cs.zipIdx.filter (fun p => isRepeated (cs ++ [c]) p == again) =
      cs.zipIdx.filter fun p => isRepeated cs p == again :=
    List.filter_congr fun p hp => by rw [isRepeated_concat hp]
  have hlast : isRepeated (cs ++ [c]) (c, cs.length) = decide (c.field ∈ cs.map Column.field) := by
    rw [isRepeated, List.take_left]
  rw [columnsBy, List.zipIdx_append, List.zipIdx_singleton, List.filter_append, hbefore, List.map_append, Nat.zero_add,
    List.filter_singleton, hlast]
  by_cases hagain : decide (c.field ∈ cs.map Column.field) = again
  · rw [if_pos hagain, hagain, beq_self_eq_true]
    rfl
  · rw [if_neg hagain, beq_eq_false_iff_ne.2 hagain]
    rfl

theorem firsts_concat (cs : List Column) (c : Column) :
    firsts (cs ++ [c]) = if c.field ∈ cs.map Column.field then firsts cs else firsts cs ++ [c] := by
  rw [firsts, columnsBy_concat]
  split <;> simp_all [firsts]

theorem repeated_concat (cs : List Column) (c : Column) :
    repeated (cs ++ [c]) = if c.field ∈ cs.map Column.field then repeated cs ++ [c] else repeated cs := by
  rw [repeated, columnsBy_concat]
  split <;> simp_all [repeated]

theorem length_firsts_add_repeated (cs : List Column) : (firsts cs).length + (repeated cs).length = cs.length := by
  induction cs using List.reverseRecOn with
  | nil => rfl
  | append_singleton cs c ih =>
    rw [firsts_concat, repeated_concat, List.length_append, ← ih]
    split
    · rw [List.length_append, Nat.add_assoc]
    · rw [List.length_append, Nat.add_right_comm]

theorem mem_of_mem_firsts (h : c ∈ firsts cs) : c ∈ cs := by
  obtain ⟨p, hp, rfl⟩ := List.mem_map.1 h
  exact List.fst_mem_of_mem_zipIdx (List.mem_filter.1 hp).1

theorem repeated_eq_nil_iff : repeated cs = [] ↔ (cs.map Column.field).Nodup := by
  induction cs using List.reverseRecOn with
  | nil => simp [repeated, columnsBy]
  | append_singleton cs c ih =>
    have hnodup : ((cs ++ [c]).map Column.field).Nodup ↔ c.field ∉ cs.map Column.field ∧ repeated cs = [] := by
      rw [List.map_append, List.map_singleton, ← List.concat_eq_append, List.nodup_concat, ih]
    rw [repeated_concat, hnodup]
    by_cases hc : c.field ∈ cs.map Column.field
    · rw [if_pos hc]
      simp [hc]
    · rw [if_neg hc, and_iff_right hc]

theorem mem_fields_iff : field ∈ cs.map Column.field ↔ (cs.find? (·.field == field)).isSome := by
  rw [List.find?_isSome]
  simp

/-- The first columns of all fields are found in the same way as among all columns. -/
theorem find?_firsts (cs : List Column) (field : String) :
    (firsts cs).find? (·.field == field) = cs.find? (·.field == field) := by
  induction cs using List.reverseRecOn with
  | nil => rfl
  | append_singleton cs c ih =>
    rw [firsts_concat, List.find?_append]
    split
    · next hc =>
      rw [ih]
      by_cases hfield : c.field = field
      · rw [hfield, mem_fields_iff] at hc
        obtain ⟨d, hd⟩ := Option.isSome_iff_exists.1 hc
        rw [hd, Option.some_or]
      · simp [hfield]
    · rw [List.find?_append, ih]

theorem fields_firsts (cs : List Column) : (firsts cs).map Column.field = (cs.map Column.field).eraseDups := by
  induction cs using List.reverseRecOn with
  | nil => rfl
  | append_singleton cs c ih =>
    have hlast : [c.field].removeAll (cs.map Column.field) = if c.field ∈ cs.map Column.field then [] else [c.field] := by
      rw [List.removeAll, List.filter_singleton]
      by_cases hc : c.field ∈ cs.map Column.field <;> simp [hc]
    rw [firsts_concat, List.map_append, List.eraseDups_append, List.map_singleton, hlast, ← ih]
    split
    · exact (List.append_nil _).symm
    · rw [List.map_append]
      rfl

namespace Table

@[simp]
theorem field_owned (t : Table) (c : Column) : (t.owned c).field = c.field :=
  c.field_nameFilled

/-- A table to which columns were added in this order. -/
structure Gathers (t : Table) (cs : List Column) : Prop where
  columns_eq : t.columns.toList = (firsts cs).map t.owned
  duplicates_eq : t.duplicates = (repeated cs).map fun c => c.nameFilled.name

theorem get?_owned (h : t.columns.toList = (firsts cs).map t.owned) (field : String) :
    t.columns.get? field = (cs.find? (·.field == field)).map t.owned := by
  have hfield : ((·.field == field) ∘ t.owned) = fun c : Column => c.field == field := by
    funext c
    exact congrArg (· == field) (t.field_owned c)
  rw [Columns.get?, h, List.find?_map, hfield, find?_firsts]

/-- One more column: if its field is new it comes last, otherwise its name is kept. -/
theorem Gathers.addColumn (h : t.Gathers cs) (c : Column) : (t.addColumn c).Gathers (cs ++ [c]) := by
  have htaken : t.columns.get? (t.owned c).field = none ↔ c.field ∉ cs.map Column.field := by
    rw [field_owned, get?_owned h.columns_eq, Option.map_eq_none_iff, mem_fields_iff, Option.not_isSome_iff_eq_none]
  by_cases hc : c.field ∈ cs.map Column.field
  · have hadd : t.addColumn c = { t with duplicates := t.duplicates ++ [c.nameFilled.name] } :=
      dif_neg fun hnew => htaken.1 hnew hc
    rw [hadd]
    constructor
    · rw [firsts_concat, if_pos hc]
      exact h.columns_eq
    · rw [repeated_concat, if_pos hc, List.map_append]
      exact congrArg (· ++ [c.nameFilled.name]) h.duplicates_eq
  · have hadd : t.addColumn c = { t with columns := t.columns.push (t.owned c) (htaken.2 hc) } :=
      dif_pos (htaken.2 hc)
    rw [hadd]
    constructor
    · rw [firsts_concat, if_neg hc, List.map_append]
      exact congrArg (· ++ [t.owned c]) h.columns_eq
    · rw [repeated_concat, if_neg hc]
      exact h.duplicates_eq

/-- A step adds its column, if it adds one, and no other. -/
theorem Gathers.edit (h : t.Gathers cs) (e : Edit) : (t.edit e).Gathers (cs ++ e.column?.toList) := by
  cases e with
  | addColumn c => exact h.addColumn c
  | inNamespace | withUnique | addOperation => simpa [Edit.column?] using ⟨h.columns_eq, h.duplicates_eq⟩

theorem Gathers.edited (h : t.Gathers cs) (edits : List Edit) : (t.edited edits).Gathers (cs ++ added edits) := by
  induction edits generalizing t cs with
  | nil =>
    rw [added, List.filterMap_nil, List.append_nil]
    exact h
  | cons e edits ih =>
    have hadded : added (e :: edits) = e.column?.toList ++ added edits := by
      rw [added, List.filterMap_cons]
      cases e.column? <;> rfl
    rw [hadded, ← List.append_assoc]
    exact ih (h.edit e)

theorem Start.gathers (start : Start) : start.table.Gathers [] := by
  cases start <;> exact ⟨rfl, rfl⟩

theorem name_edited (t : Table) (edits : List Edit) : (t.edited edits).name = t.name := by
  induction edits generalizing t with
  | nil => rfl
  | cons e edits ih =>
    refine (ih (t.edit e)).trans ?_
    cases e with
    | addColumn c =>
      rw [edit, Table.addColumn]
      split <;> rfl
    | inNamespace | withUnique | addOperation => rfl

theorem prefix_edit (t : Table) (e : Edit) : t.columns.toList <+: (t.edit e).columns.toList := by
  cases e with
  | addColumn c =>
    rw [edit, Table.addColumn]
    split
    · exact List.prefix_append _ _
    · exact List.prefix_refl _
  | inNamespace | withUnique | addOperation => exact List.prefix_refl _

/-- Columns stay where they are. -/
theorem prefix_edited (t : Table) (edits : List Edit) : t.columns.toList <+: (t.edited edits).columns.toList := by
  induction edits generalizing t with
  | nil => exact List.prefix_refl _
  | cons e edits ih => exact (prefix_edit t e).trans (ih (t.edit e))

/-- What a table that began as another one keeps of the columns added to it. -/
structure Keeps (start t : Table) (cs : List Column) : Prop where
  fields_nodup : (t.columns.toList.map Column.field).Nodup
  fields_eq : t.columns.toList.map Column.field = (cs.map Column.field).eraseDups
  column?_eq : ∀ field, t.column? field = (cs.find? (·.field == field)).map start.owned
  column?_at : ∀ field, t.column? field = (t.columns.index? field).bind fun i => t.columns.toList[i]?
  field_eq : ∀ field, ∀ c ∈ t.column? field, c.field = field
  column?_none : ∀ field, t.column? field = none ↔ field ∉ cs.map Column.field
  index?_none : ∀ field, t.columns.index? field = none ↔ field ∉ cs.map Column.field
  duplicates_eq : t.duplicates = (repeated cs).map fun c => c.nameFilled.name
  count_eq : t.columns.toList.length + t.duplicates.length = cs.length

theorem index?_eq_none (t : Table) (field : String) : t.columns.index? field = none ↔ t.column? field = none := by
  rw [Columns.index?, column?, Columns.get?, List.findIdx?_eq_none_iff, List.find?_eq_none]
  simp

theorem Gathers.keeps {start : Table} (h : t.Gathers cs) (hname : t.name = start.name) : Keeps start t cs := by
  have howned : t.owned = start.owned := by
    funext c
    rw [owned, owned, hname]
  have hcolumn : ∀ field, t.column? field = (cs.find? (·.field == field)).map start.owned := by
    intro field
    rw [← howned]
    exact get?_owned h.columns_eq field
  have hnone : ∀ field, t.column? field = none ↔ field ∉ cs.map Column.field := by
    intro field
    rw [hcolumn, Option.map_eq_none_iff, mem_fields_iff, Option.not_isSome_iff_eq_none]
  have hfields : Column.field ∘ t.owned = Column.field := funext t.field_owned
  exact {
    fields_nodup := t.columns.nodup_fields
    fields_eq := by rw [h.columns_eq, List.map_map, hfields, fields_firsts]
    column?_eq := hcolumn
    column?_at := fun _ => List.find?_eq_bind_findIdx?_getElem?
    field_eq := by
      intro field c hc
      simpa using List.find?_some hc
    column?_none := hnone
    index?_none := by
      intro field
      rw [index?_eq_none, hnone]
    duplicates_eq := h.duplicates_eq
    count_eq := by
      rw [h.columns_eq, h.duplicates_eq, List.length_map, List.length_map, length_firsts_add_repeated] }

/-- A table that is built step by step keeps the first column that is added for each field, in the order of the fields'
first additions, and of all other columns the names. A field leads to the column at its index, and to none exactly if no
column was added for it; later steps change neither the columns nor their places. -/
theorem edited_keeps (start : Start) (edits : List Edit) :
    Keeps start.table (start.table.edited edits) (added edits) ∧
    ∀ more, (start.table.edited edits).columns.toList <+: (start.table.edited (edits ++ more)).columns.toList ∧
      ∀ field, ∀ i ∈ (start.table.edited edits).columns.index? field,
        (start.table.edited (edits ++ more)).columns.index? field = some i ∧
          (start.table.edited (edits ++ more)).column? field = (start.table.edited edits).column? field := by
  refine ⟨?_, ?_⟩
  · have hgathers := start.gathers.edited edits
    rw [List.nil_append] at hgathers
    exact hgathers.keeps (name_edited start.table edits)
  · intro more
    have hmore : start.table.edited (edits ++ more) = (start.table.edited edits).edited more := List.foldl_append
    rw [hmore]
    generalize start.table.edited edits = t
    have hinit := prefix_edited t more
    refine ⟨hinit, ?_⟩
    intro field i hi
    refine ⟨hinit.findIdx?_eq_some hi, ?_⟩
    cases hc : t.column? field with
    | none =>
      rw [(index?_eq_none t field).2 hc] at hi
      cases hi
    | some c => exact hinit.find?_eq_some hc

/-- Steps that add two fields, with and without names, and each of them again. -/
def userEdits : List Edit := [
  .addColumn { field := "id", kind := .long }, .inNamespace "app", .addColumn { field := "userName", kind := .string },
  .addColumn { field := "id", name := "KEY", kind := .string }, .withUnique { fields := ["userName"] },
  .addColumn { field := "userName", kind := .int }]

/-- The second field stays at its place when both fields are added again. -/
theorem userEdits_keep :
    ((Start.ofEntity "appUser").table.edited (userEdits.take 3)).columns.index? "userName" = some 1 ∧
    ((Start.ofEntity "appUser").table.edited (userEdits.take 3 ++ userEdits.drop 3)).columns.index? "userName" = some 1 ∧
    ((Start.ofEntity "appUser").table.edited userEdits).duplicates = ["KEY", "USER_NAME"] := by
  have hindex : ((Start.ofEntity "appUser").table.edited (userEdits.take 3)).columns.index? "userName" = some 1 := by cbv
  have hkeeps := (edited_keeps (.ofEntity "appUser") (userEdits.take 3)).2 (userEdits.drop 3)
  exact ⟨hindex, (hkeeps.2 "userName" 1 hindex).1, by cbv⟩

end Table

end EntitySql
