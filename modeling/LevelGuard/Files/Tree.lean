import LevelGuard.Files.Path

/-!
# A tree of files

The files a run can see are a list of entries, each with the names that lead to
it from the working directory. A folder is there if it is listed or if anything
is listed below it, so no operation has to keep folders and their contents in
step. Nothing outside the working directory exists.
-/
namespace LevelGuard

inductive FileFault where
  | missing
  | notFolder
  | isFolder
  | notText
  deriving DecidableEq, Repr

def FileFault.message : FileFault → String
  | missing => "No such file or directory (os error 2)"
  | notFolder => "Not a directory (os error 20)"
  | isFolder => "Is a directory (os error 21)"
  | notText => "stream did not contain valid UTF-8"

inductive FileContent where
  | text (s : String)
  | binary (bytes : List UInt8)
  | folder
  deriving DecidableEq, Repr

namespace FileContent

def ofBytes (bytes : ByteArray) : FileContent :=
  match String.fromUTF8? bytes with
  | some s => text s
  | none => binary bytes.toList

def bytes : FileContent → List UInt8
  | text s => s.toUTF8.toList
  | binary bs => bs
  | folder => []

end FileContent

structure FileTree where
  entries : List (List String × FileContent)
  deriving Repr, Inhabited

namespace FileTree

/-- What is found at the names, counted from the working directory. -/
def content? (t : FileTree) (names : List String) : Option FileContent :=
  if names.isEmpty then some .folder
  else
    match t.entries.find? fun e => e.1 = names with
    | some e => some e.2
    | none => if t.entries.any fun e => names.isPrefixOf e.1 then some .folder else none

def absence (t : FileTree) (names : List String) : FileFault :=
  let above := (List.range names.length).map fun n => names.take n
  if above.any fun a => (t.content? a).any (· ≠ .folder) then .notFolder else .missing

/-- The names after one more component. A parent is only left through a folder. -/
def step (t : FileTree) (names : List String) : Path.Component → Except FileFault (List String)
  | .root => .error .missing
  | .current => .ok names
  | .normal name => .ok (names ++ [name])
  | .parent =>
    match names, t.content? names with
    | [], _ => .error .missing
    | _, some .folder => .ok names.dropLast
    | _, some _ => .error .notFolder
    | _, none => .error (t.absence names)

def namesFolder (p : Path) : Bool := Text.endsWith p.text "/" || Text.endsWith p.text "/."

def names (t : FileTree) (p : Path) : Except FileFault (List String) :=
  if p.text.isEmpty then .error .missing else p.components.foldlM t.step []

def find (t : FileTree) (p : Path) : Except FileFault (List String × FileContent) := do
  let names ← t.names p
  match t.content? names with
  | none => .error (t.absence names)
  | some .folder => .ok (names, .folder)
  | some c => if namesFolder p then .error .notFolder else .ok (names, c)

def exists_ (t : FileTree) (p : Path) : Bool := (t.find p).isOk

def isFolder (t : FileTree) (p : Path) : Bool :=
  match t.find p with
  | .ok (_, .folder) => true
  | _ => false

def isFile (t : FileTree) (p : Path) : Bool := t.exists_ p && !t.isFolder p

def read (t : FileTree) (p : Path) : Except FileFault String := do
  match ← t.find p with
  | (_, .text s) => .ok s
  | (_, .binary _) => .error .notText
  | (_, .folder) => .error .isFolder

def write (t : FileTree) (p : Path) (s : String) : Except FileFault FileTree := do
  let names ← t.names p
  match t.content? names with
  | some .folder => .error .isFolder
  | some _ =>
    if namesFolder p then .error .notFolder
    else .ok ⟨(names, .text s) :: t.entries.filter fun e => e.1 ≠ names⟩
  | none =>
    if namesFolder p then .error .isFolder
    else if t.content? names.dropLast = some .folder then .ok ⟨(names, .text s) :: t.entries⟩
    else .error (t.absence names)

def filesBelow (t : FileTree) (base : List String) : List (List String) :=
  t.entries.filterMap fun (names, c) =>
    if c = .folder then none
    else if base.isPrefixOf names && base ≠ names then some (names.drop base.length) else none

end FileTree
end LevelGuard
