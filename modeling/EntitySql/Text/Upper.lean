import EntitySql.Text.CaseData

/-!
Upper case: the property that starts a new word, and the full mapping, which may lengthen a character
(a sharp s gives two letters).
-/
namespace EntitySql.Text

def isUpper (c : Char) : Bool :=
  if c.toNat < 128 then 'A' ≤ c && c ≤ 'Z'
  else uppercaseRuns.any (·.holds c.toNat)

def upperOf (c : Char) : List Char :=
  if c.toNat < 128 then [if 'a' ≤ c && c ≤ 'z' then Char.ofNat (c.toNat - 32) else c]
  else match expansions.find? (·.1 == c.toNat) with
    | some (_, codes) => codes.map Char.ofNat
    | none =>
      match shiftedRuns.find? (·.1.holds c.toNat) with
      | some (_, distance) => [Char.ofNat ((c.toNat : Int) + distance).toNat]
      | none => [c]

/-- ASCII letters in lower case, all else unchanged. -/
def lowerAscii (s : String) : String :=
  s.map fun c => if 'A' ≤ c && c ≤ 'Z' then Char.ofNat (c.toNat + 32) else c

end EntitySql.Text
