import StepTrace.Files.Tree
import StepTrace.Gherkin.Reader

/-!
# Feature texts that name files

A feature text is given either by itself or by the path of a file that holds it.  Which of the two a
text is depends on the files there are: no feature text is the path of one unless it is meant so.
-/

namespace StepTrace.Gherkin

/-- The document of a feature text, or of the file whose path the text is. -/
def readFrom (tree : FileTree) (text : String) : Except Fault Document :=
  match tree.writtenPath? text with
  | some path => tree.readText path >>= read
  | none => read text

end StepTrace.Gherkin
