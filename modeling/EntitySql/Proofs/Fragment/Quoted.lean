import EntitySql.Ddl.Generate
import EntitySql.Proofs.Fragment.Tokens
import EntitySql.Proofs.Success

/-! Quoted texts as tokens. A quoted text is one token, whatever it holds, and its content is what was quoted; so nothing
that a name or a default value holds is read as anything else. -/
namespace EntitySql
namespace Fragment
open Text
variable {mark : Char} {make : List Char → Lexeme} {kind : TokenKind} {s after : String}

/-- What stands between the marks of a quoted token, its double marks read as one. -/
def Token.content (t : Token) : String :=
  match t.text.toList with
  | [] => ""
  | mark :: rest => String.ofList (undoubled mark rest.dropLast)

/-- A text that is one token, with a content. -/
structure OneToken (kind : TokenKind) (text content : String) : Prop where
  tokens_eq : tokenize text = [⟨kind, 0, text.utf8ByteSize, text⟩, .atEnd text]
  content_eq : Token.content ⟨kind, 0, text.utf8ByteSize, text⟩ = content

theorem content_quoted (t : Token) (ht : t.text = quoted mark s) : t.content = s := by
  rw [Token.content, ht, quoted, String.toList_ofList, quotedChars, List.cons_append]
  simp [undoubled_doubled]

section
variable (hopens : Opens mark make kind)
include hopens

theorem lexemes_quoted {cs rest : List Char} (hrest : mark ∉ rest.head?) :
    lexemes (quotedChars mark cs ++ rest) = make cs :: lexemes rest := by
  have hsource : quotedChars mark cs ++ rest = mark :: (doubled mark cs ++ mark :: rest) := by
    simp [quotedChars]
  rw [hsource, lexemes, hopens.first_eq, quotedLexeme, closeQuoted_doubled cs hrest]

/-- A quoted text is the first token of a source that goes on with anything but another mark. -/
theorem tokenize_quoted_append (hafter : mark ∉ after.toList.head?) :
    tokenize (quoted mark s ++ after) = ⟨kind, 0, (quoted mark s).utf8ByteSize, quoted mark s⟩ ::
      tokensFrom (quoted mark s).utf8ByteSize (lexemes after.toList) := by
  have hsource : (quoted mark s ++ after).toList = quotedChars mark s.toList ++ after.toList := by
    rw [String.toList_append, quoted, String.toList_ofList]
  rw [tokenize, hsource, lexemes_quoted hopens hafter, tokensFrom, hopens.kind_make, hopens.chars_make, byteLength_eq,
    Nat.zero_add]
  rfl

theorem oneToken_quoted (s : String) : OneToken kind (quoted mark s) s where
  tokens_eq := by
    have hend : mark ∉ "".toList.head? := by simp
    have happend := tokenize_quoted_append (s := s) hopens hend
    rw [String.append_empty] at happend
    rw [happend, String.toList_empty, lexemes]
    rfl
  content_eq := content_quoted _ rfl

end

end Fragment

open Fragment

/-- The line of a textual column writes the default value as a quoted text. -/
theorem Ddl.sql_of_columnLine {d : Dialect} {t : Table} {column : Column} {line : ColumnLine} {literal : String}
    (hkind : column.kind.isTextual = true) (hliteral : column.defaultLiteral = some literal)
    (h : columnLine d t column = .ok line) :
    line.sql = quoteName column.name ++ " " ++ line.type ++ (" DEFAULT " ++ Text.quoted '\'' literal) ++
      if column.isNullable then "" else " NOT NULL" := by
  obtain ⟨type, -, hline⟩ := bind_eq_ok.1 h
  obtain rfl := pure_eq_ok.1 hline
  rw [ColumnLine.sql, hliteral, Option.map_some, if_pos hkind]
  cases column.isNullable <;> rfl

theorem Dialect.qualify_postgres_injective : Function.Injective postgres.qualify := by
  rintro ⟨ns, name⟩ ⟨ns', name'⟩ h
  obtain ⟨hname, hns⟩ := qualify_inj.1 h
  exact congrArg₂ ObjectName.mk (hns rfl) hname

/-- A quoted name is one token, and the first one of any text that goes on with anything but a double quote; its content
is the name. So quoting keeps names apart, and with a dialect that has namespaces all of a table's name. In the same way
the default value of a textual column is written as one token, with that value as its content. -/
theorem quoted_read_back :
    (∀ name, OneToken .quotedIdentifier (quoteName name) name) ∧
    (∀ name after, '"' ∉ after.toList.head? → (tokenize (quoteName name ++ after)).head? =
      some ⟨.quotedIdentifier, 0, (quoteName name).utf8ByteSize, quoteName name⟩) ∧
    Function.Injective quoteName ∧ Function.Injective Dialect.postgres.qualify ∧
    ∀ d t column line literal, column.kind.isTextual = true → column.defaultLiteral = some literal →
      Ddl.columnLine d t column = .ok line → ∃ value, OneToken .stringLiteral value literal ∧
        line.sql = quoteName column.name ++ " " ++ line.type ++ (" DEFAULT " ++ value) ++
          if column.isNullable then "" else " NOT NULL" := by
  refine ⟨oneToken_quoted opens_quotedName, ?_, fun _ _ => quoteName_inj.1,
    Dialect.qualify_postgres_injective, ?_⟩
  · intro name after hafter
    rw [quoteName, tokenize_quoted_append opens_quotedName hafter]
    rfl
  · intro d t column line literal hkind hliteral h
    exact ⟨_, oneToken_quoted opens_literal literal, Ddl.sql_of_columnLine hkind hliteral h⟩

/-- A column whose name and default value hold quotes, a colon and a line break. -/
def greeting : Column :=
  { field := "greeting", name := "\"GREETING", kind := .string, defaultLiteral := some "it's\n:now'" }

theorem greeting_read_back : ∃ line, Ddl.columnLine .sqlite (.ofName "NOTE") greeting = .ok line ∧
    line.sql = "\"\"\"GREETING\" TEXT DEFAULT 'it''s\n:now''' NOT NULL" ∧
    ∃ value, OneToken .stringLiteral value "it's\n:now'" ∧
      line.sql = quoteName "\"GREETING" ++ " " ++ line.type ++ (" DEFAULT " ++ value) ++ " NOT NULL" := by
  have hline : Ddl.columnLine .sqlite (.ofName "NOTE") greeting =
      .ok ⟨"\"GREETING", "TEXT", some (.text "it's\n:now'"), true⟩ := rfl
  exact ⟨_, hline, by cbv, quoted_read_back.2.2.2.2 .sqlite _ greeting _ _ rfl rfl hline⟩

end EntitySql
