import EntitySql.Proofs.Query.Pieces

/-! The names in the texts of statements. A compiled statement writes the name of its table where it says what it works
on, and it quotes nothing but that name, names of columns, and what the operation itself brings along as text. -/
namespace EntitySql.Query
variable {d : Dialect} {t : Table} {op : Operation}

/-- A text that reads or changes a table or view, whose name stands where the text says what it works on. -/
inductive WorksOn (d : Dialect) (table : ObjectName) : String → Prop where
  | insert {rest : String} : WorksOn d table ("INSERT INTO " ++ d.qualify table ++ rest)
  | update {rest : String} : WorksOn d table ("UPDATE " ++ d.qualify table ++ " SET " ++ rest)
  | delete {rest : String} : WorksOn d table ("DELETE FROM " ++ d.qualify table ++ rest)
  | select {selected rest : String} :
      WorksOn d table ("SELECT " ++ selected ++ " FROM " ++ d.qualify table ++ rest)

theorem Statement.pieces_select (table : ObjectName) (selection : Selection) (filter : Filter)
    (order : List (String × Direction)) (limit : Option UInt64) :
    (select table selection filter order limit).pieces = .text "SELECT " :: (selection.pieces ++
      .text " FROM " :: .object table :: (filter.pieces ++ orderPieces order ++ limitPieces limit)) := by
  simp [pieces]

theorem Statement.worksOn (d : Dialect) (s : Statement) : WorksOn d s.table (s.sql d) := by
  cases s with
  | insert table values =>
    have hinsert : ∀ rest, WorksOn d table (render d (.text "INSERT INTO " :: .object table :: rest)) := by
      intro rest
      rw [render, renderFrom, renderFrom, ← String.append_assoc]
      exact .insert
    cases values <;> exact hinsert _
  | update table assignments filter =>
    simp only [sql, pieces, List.cons_append, List.nil_append, render, renderFrom]
    rw [← String.append_assoc, ← String.append_assoc]
    exact .update
  | delete table filter =>
    simp only [sql, pieces, List.cons_append, List.nil_append, render, renderFrom]
    rw [← String.append_assoc]
    exact .delete
  | count table filter =>
    have hcount : "SELECT COUNT(*) FROM " = "SELECT " ++ "COUNT(*)" ++ " FROM " := rfl
    simp only [sql, pieces, List.cons_append, List.nil_append, render, renderFrom]
    rw [hcount, ← String.append_assoc]
    exact .select
  | select table selection filter order limit =>
    rw [sql, pieces_select, render, renderFrom, renderFrom_append, renderFrom, renderFrom, ← String.append_assoc,
      ← String.append_assoc, ← String.append_assoc]
    exact .select

/-- A text that names a table or a column, or that an operation gives. -/
def Names (d : Dialect) (table : ObjectName) (columns : List String) (op : Operation) (sql : String) : Prop :=
  sql = d.qualify table ∨ (∃ column ∈ columns, sql = quoteName column) ∨ Given op sql

theorem QuotesOnly.mono {own own' : String → Prop} (hown : ∀ sql, own sql → own' sql) {sql : String}
    (h : QuotesOnly own sql) : QuotesOnly own' sql := by
  induction h with
  | plain h => exact .plain h
  | part h => exact .part (hown _ h)
  | append _ _ iha ihb => exact .append iha ihb

theorem quote_notMem_placeholder (index : ℕ) : '"' ∉ (d.placeholder index).toList := by
  cases d <;> simpa [Dialect.placeholder, Dialect.placeholderMark] using quote_notMem_toString index

theorem quotesOnly_renderFrom {pieces : List Piece} (h : AllOn t op pieces) (index : ℕ) :
    QuotesOnly (Names d t.objectName (columnNames t) op) (renderFrom d index pieces) := by
  induction pieces generalizing index with
  | nil => exact .plain (by simp [renderFrom])
  | cons piece pieces ih =>
    obtain ⟨hpiece, hrest⟩ := allOn_cons.1 h
    cases piece with
    | text sql => exact .append (QuotesOnly.mono (fun _ hgiven => .inr (.inr hgiven)) hpiece) (ih hrest index)
    | name name => exact .append (.part (.inr (.inl ⟨name, hpiece, rfl⟩))) (ih hrest index)
    | object name => exact .append (.part (.inl (congrArg d.qualify hpiece))) (ih hrest index)
    | nullSafeEquals => exact .append (.plain (by cases d <;> decide)) (ih hrest index)
    | slot slot => exact .append (.plain (quote_notMem_placeholder index)) (ih hrest (index + 1))

/-- The text of a statement of an operation: it works on a table, and quotes no names but of that and of its columns. -/
structure NamesOnly (d : Dialect) (table : ObjectName) (columns : List String) (op : Operation) (text : String) :
    Prop where
  worksOn : WorksOn d table text
  quotes : QuotesOnly (Names d table columns op) text

theorem Planned.table_eq {p : Plan} (h : Planned t op p) {s : Statement} (hs : s = p.statement ∨ p.followUp = some s) :
    s.table = t.objectName :=
  (h.object_mem_iff hs).1 s.object_mem

theorem Planned.namesOnly {p : Plan} (h : Planned t op p) {s : Statement} (hs : s = p.statement ∨ p.followUp = some s) :
    NamesOnly d t.objectName (columnNames t) op (s.sql d) where
  worksOn := h.table_eq hs ▸ s.worksOn d
  quotes := quotesOnly_renderFrom (h.allOn hs) 1

theorem namesOnly_of_compile {compiled : CompiledOperation} (h : op.compile d t = .ok compiled) :
    NamesOnly d t.objectName (columnNames t) op compiled.statement.sql ∧
      ∀ s ∈ compiled.followUp, NamesOnly d t.objectName (columnNames t) op s.sql := by
  obtain ⟨p, hplan, rfl⟩ := compile_eq_ok.1 h
  have hp := planned_of_plan hplan
  refine ⟨hp.namesOnly (.inl rfl), fun s hs => ?_⟩
  obtain ⟨later, hlater, rfl⟩ := Option.map_eq_some_iff.1 hs
  exact hp.namesOnly (.inr hlater)

end EntitySql.Query
