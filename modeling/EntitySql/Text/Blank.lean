/-!
White space: the 25 characters with the Unicode property White_Space, trimming, and the rule that a blank run
holding a line break is one space.
-/
namespace EntitySql.Text

def isBlank (c : Char) : Bool :=
  let n := c.toNat
  (9 ≤ n && n ≤ 13) || n == 0x20 || n == 0x85 || n == 0xa0 || n == 0x1680 || (0x2000 ≤ n && n ≤ 0x200a) ||
    n == 0x2028 || n == 0x2029 || n == 0x202f || n == 0x205f || n == 0x3000

def trimChars (cs : List Char) : List Char :=
  ((cs.dropWhile isBlank).reverse.dropWhile isBlank).reverse

def trim (s : String) : String :=
  String.ofList (trimChars s.toList)

/-- A run of blanks as it is kept: one space if it holds a line break, otherwise itself. -/
def collapsedRun (run : List Char) : List Char :=
  if '\n' ∈ run then [' '] else run

/-- Collapses the runs of blanks, `run` being the one read so far. -/
def collapseAfter (run : List Char) : List Char → List Char
  | [] => collapsedRun run
  | c :: cs =>
    if isBlank c then collapseAfter (run ++ [c]) cs
    else collapsedRun run ++ c :: collapseAfter [] cs

/-- Every maximal run of blanks that holds a line break becomes one space. -/
def collapseLineBreaks (cs : List Char) : List Char :=
  collapseAfter [] cs

end EntitySql.Text
