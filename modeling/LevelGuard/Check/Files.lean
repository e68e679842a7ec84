import LevelGuard.Check.Resources
import LevelGuard.Check.Sources
import LevelGuard.Discovery

/-!
# Checking the files of a project

The sources are checked together and the markup files one by one. A file that
cannot be read, and a markup file that is not well formed, gets one finding that
says so. Without a catalog nothing is checked and the only finding tells why.
-/
namespace LevelGuard.Check

def readSource (t : FileTree) (f : SourceFile) : Except Diagnostic Source :=
  match t.read f.path with
  | .ok text => .ok (.ofText f.path text)
  | .error _ => .error (.unreadable f.path {})

def checkMarkup (t : FileTree) (K : Platform.Catalog) (B : Baseline) (f : SourceFile) :
    Except Resource.Fault (List Diagnostic) :=
  match t.read f.path with
  | .error _ => .ok [.unreadable f.path {}]
  | .ok text =>
    match Resource.Document.read text with
    | .ok d => .ok (checkDocument K B f.path d)
    | .error .malformed => .ok [.unreadable f.path {}]
    | .error .splitCharacter => .error .splitCharacter

def checkMarkups (t : FileTree) (K : Platform.Catalog) (B : Baseline) (o : Options)
    (files : List SourceFile) : Except Resource.Fault (List Diagnostic) := do
  if o.cancelled then return []
  else
    let found ← (files.filter SourceFile.isMarkup).mapM (checkMarkup t K B)
    return Diagnostic.sort (o.keep found.flatten)

def checkFiles (t : FileTree) (K : Platform.Catalog) (B : Baseline) (o : Options)
    (files : List SourceFile) : Except Resource.Fault (List Diagnostic) := do
  let read := (files.filter SourceFile.isJava).map (readSource t)
  let sources := read.filterMap Except.toOption
  let unreadable := read.filterMap fun
    | .ok _ => none
    | .error d => some d
  let markup ← checkMarkups t K B o files
  return Diagnostic.sort (o.keep unreadable ++ checkSources K B o sources ++ markup)

def run (t : FileTree) (root : Path) (K : Except Platform.LoadError Platform.Catalog)
    (B : Baseline) (o : Options) (files : List SourceFile) :
    Except Resource.Fault (List Diagnostic) :=
  match K with
  | .error e => .ok [.notPerformed root e.message]
  | .ok K => checkFiles t K B o files

end LevelGuard.Check
