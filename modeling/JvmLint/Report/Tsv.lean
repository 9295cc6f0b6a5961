import JvmLint.Report.Basic

/-!
# Reports in columns

One line a finding, columns separated by tabs. Tabs and line breaks inside a field become blanks.
-/

namespace JvmLint.Tsv

def field (s : String) : String := Text.mapChars s fun c => if c = '\t' || c = '\r' || c = '\n' then ' ' else c

def row (f : Finding) : String :=
  field f.checkName ++ "\t" ++ field f.category.name ++ "\t" ++ field f.location ++ "\t" ++ field f.message ++ "\n"

def render (r : Report) : String := "Check\tCategory\tLocation\tMessage\n" ++ String.join (r.findings.map row)

end JvmLint.Tsv
