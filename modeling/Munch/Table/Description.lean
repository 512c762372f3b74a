import Munch.Table.Row
import Munch.Text.Lines

/-! # Descriptions

A table is described line by line: the accepting states, the reserved words, and from the third
line on the rows. The first line that cannot be read decides.
-/

namespace Munch.Table

/-- Adds the lines from a location on, each as a row. -/
def addLines (t : Table) (l : Location) : List (List Char) → Except Diagnostic Table
  | [] => .ok t
  | line :: rest =>
    match t.addLine (String.ofList (Text.chomp line)) l with
    | .ok t' => t'.addLines ⟨l.index + line.length + 1, l.line + 1, 1⟩ rest
    | .error d => .error d

/-- Reads a description. -/
def ofDescription (description : String) : Except Diagnostic Table :=
  let text := description.toList
  match Text.fileLines text with
  | [] => .error ⟨.missingHeader "accepting states", ⟨text.length, 1, 1⟩⟩
  | [_] => .error ⟨.missingHeader "reserved words", ⟨text.length, 2, 1⟩⟩
  | accepting :: reserved :: rows =>
    let t := (Text.words (String.ofList accepting)).foldl accept empty
    let t := (Text.words (String.ofList reserved)).foldl reserve t
    t.addLines ⟨accepting.length + reserved.length + 2, 3, 1⟩ rows

end Munch.Table
