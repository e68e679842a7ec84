import LevelGuard.Files.Ignore
import LevelGuard.Files.Tree
import LevelGuard.Resource.Document

/-!
# Files to check

A run looks at the sources, resources and manifests below its targets. A file is
left out if the exclusions, an ignore file or a leading dot say so, and so is
everything below a folder that is left out. The exclusions decide before the
ignore files, and of the ignore files the nearest; only what neither speaks of
is hidden by a leading dot. The target itself is never left out.

Inside a repository its own ignore files speak where the others are silent: first the
ones in its folders, then the one that is not shared.
-/
namespace LevelGuard

inductive FileKind where
  | java
  | manifest
  | resource
  deriving DecidableEq, Repr

namespace FileKind

def name : FileKind → String
  | java => "Java"
  | manifest => "Manifest"
  | resource => "Resource"

def ofPath? (p : Path) : Option FileKind :=
  if p.fileName? = some "AndroidManifest.xml" then some manifest
  else
    match p.extension? with
    | some "java" => some java
    | some "xml" => if Resource.Folder.isResourcePath p then some resource else none
    | _ => none

end FileKind

structure SourceFile where
  path : Path
  kind : FileKind
  deriving DecidableEq, Repr

namespace SourceFile

def isJava (f : SourceFile) : Bool := f.kind = .java

def isMarkup (f : SourceFile) : Bool := f.kind ≠ .java

end SourceFile

namespace Discovery

/-- The rules that leave out what the patterns match, or the first pattern that
is none. -/
def exclusions : List String → Except String (List IgnoreRule)
  | [] => .ok []
  | pattern :: rest =>
    match IgnoreRule.ofLine false ('!' :: pattern.toList) with
    | .invalid => .error pattern
    | .nothing => exclusions rest
    | .rule r => (exclusions rest).map (r :: ·)

def rulesAt (t : FileTree) (names : List String) : List IgnoreRule :=
  ((t.content? names).map fun c => IgnoreRule.ofBytes c.bytes).getD []

def isRepository (t : FileTree) (folder : List String) : Bool :=
  [".git", ".jj"].any fun name => (t.content? (folder ++ [name])).isSome

/-- What the rules in the files of that name say of an entry. The folders above it come
with its names as counted from there. -/
def verdictOf? (t : FileTree) (file : List String) (isFolder : Bool)
    (folders : List (List String × List String)) : Option Verdict :=
  folders.findSome? fun (folder, names) =>
    IgnoreRule.verdict? (rulesAt t (folder ++ file)) names isFolder

def upTo {α : Type} (p : α → Bool) (l : List α) : List α :=
  l.takeWhile (fun a => !p a) ++ (l.find? p).toList

/-- What the ignore files say of an entry, the nearest one first. -/
def ignoreVerdict? (t : FileTree) (entry : List String) (isFolder : Bool) : Option Verdict :=
  let folders := (List.range entry.length).reverse.map fun n => (entry.take n, entry.drop n)
  let isTop (f : List String × List String) : Bool := isRepository t f.1
  let tracked := if folders.any isTop then upTo isTop folders else []
  (verdictOf? t [".ignore"] isFolder folders).or <|
    (verdictOf? t [".gitignore"] isFolder tracked).or <|
      verdictOf? t [".git", "info", "exclude"] isFolder tracked

def isHidden (entry : List String) : Bool := (entry.getLast?.bind (·.toList.head?)) = some '.'

def leavesOut (t : FileTree) (excluded : List IgnoreRule) (base entry : List String)
    (isFolder : Bool) : Bool :=
  let verdict? :=
    ((IgnoreRule.verdict? excluded entry isFolder).map Verdict.opposite).or
      (ignoreVerdict? t (base ++ entry) isFolder)
  match verdict? with
  | some v => v = .leaveOut
  | none => isHidden entry

/-- Whether a file below `base` is reached: neither it nor a folder on the way to
it is left out. -/
def reaches (t : FileTree) (excluded : List IgnoreRule) (base file : List String) : Bool :=
  (List.range file.length).all fun n =>
    !leavesOut t excluded base (file.take (n + 1)) (decide (n + 1 < file.length))

def scan (t : FileTree) (exclude : List String) (target : Path) :
    Except String (List SourceFile) := do
  match t.find target with
  | .error _ => return []
  | .ok (base, content) =>
    let excluded ← exclusions exclude
    let paths :=
      match content with
      | .folder =>
        (t.filesBelow base).filter (reaches t excluded base) |>.map fun names =>
          target.join ⟨Text.joinWith "/" names⟩
      | _ => [target]
    return paths.filterMap fun p => (FileKind.ofPath? p).map (SourceFile.mk p)

def findFiles (t : FileTree) (targets exclude : List String) (root : Path) :
    Except String (List SourceFile) := do
  let targets := if targets.isEmpty then [root] else targets.map fun s => root.join ⟨s⟩
  let found ← targets.mapM (scan t exclude)
  return found.flatten.mergeSort fun a b => (a.path.compare b.path).isLE

/-- How far a manifest is from being the main one of a module. -/
def manifestRank (p : Path) : Nat := if p.endsWith "src/main/AndroidManifest.xml" then 0 else 1

/-- Whether `p` is at least as good a manifest as `q`: the one of the main sources
comes first, then the one with fewer components. -/
def isPreferred (p q : Path) : Bool :=
  ((compare (manifestRank p) (manifestRank q)).then
    (compare p.components.length q.components.length)).isLE

def bestManifest? : List Path → Option Path
  | [] => none
  | p :: ps =>
    match bestManifest? ps with
    | none => some p
    | some q => if isPreferred p q then some p else some q

def findManifest? (files : List SourceFile) : Option Path :=
  bestManifest? ((files.filter fun f => f.kind = .manifest).map (·.path))

def count (files : List SourceFile) (kind : FileKind) : Nat :=
  (files.filter fun f => f.kind = kind).length

end Discovery
end LevelGuard
