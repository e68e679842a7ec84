import LevelGuard.Files.Tree
import LevelGuard.Text.Basic

/-!
# The level a module is compiled against

A module names this level in one of its build files, as a property of the target
or as a setting of the build script. Only the first setting in a file counts; if
its number is not a level the next file is asked.
-/
namespace LevelGuard.BuildFile

def fileNames : List String := ["project.properties", "build.gradle", "build.gradle.kts"]

def afterLineEnds : List Char → List (List Char)
  | [] => []
  | c :: cs => if c = '\n' then cs :: afterLineEnds cs else afterLineEnds cs

def lineStarts (cs : List Char) : List (List Char) := cs :: afterLineEnds cs

def word? (w : String) (cs : List Char) : Option (List Char) :=
  (Text.stripStart? w.toList cs).map Text.trimStart

def afterTarget? (cs : List Char) : Option (List Char) :=
  ((word? "target" cs).bind (word? "=")).bind (Text.stripStart? "android-".toList)

def afterSetting? (cs : List Char) : Option (List Char) :=
  (Text.stripStart? "compileSdk".toList cs).map fun rest =>
    let rest := (word? "Version" rest).getD (Text.trimStart rest)
    ((word? "=" rest).or (word? "(" rest)).getD rest

/-- The digits of a setting that begins on this line, after any blank lines. -/
def digitsAt? (cs : List Char) : Option (List Char) :=
  let cs := Text.trimStart cs
  let digits (rest : List Char) : Option (List Char) :=
    let run := rest.takeWhile Text.isDecimalDigit
    if run.isEmpty then none else some run
  ((afterTarget? cs).bind digits).or ((afterSetting? cs).bind digits)

def levelOf? (text : String) : Option Level :=
  ((lineStarts text.toList).findSome? digitsAt?).bind fun ds => Level.ofText? (String.ofList ds)

def compileLevel? (t : FileTree) (folder : Path) : Option Level :=
  fileNames.findSome? fun name =>
    match t.read (folder.join ⟨name⟩) with
    | .ok text => levelOf? text
    | .error _ => none

end LevelGuard.BuildFile
