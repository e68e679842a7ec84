import LevelGuard.Files.Glob
import LevelGuard.Text.Basic

/-!
# Rules for leaving files out

A rule is a line: a pattern, after an exclamation mark if it takes files back in.
A slash at its end limits it to folders. A pattern with another slash is read
from the folder of the rules; one without matches at any depth. The last rule
that matches a path decides about it.
-/
namespace LevelGuard

inductive Verdict where
  | leaveOut
  | takeIn
  deriving DecidableEq, Repr

def Verdict.opposite : Verdict → Verdict
  | leaveOut => takeIn
  | takeIn => leaveOut

structure IgnoreRule where
  glob : Glob
  verdict : Verdict
  foldersOnly : Bool
  deriving Repr

namespace IgnoreRule

inductive Line where
  | nothing
  | invalid
  | rule (r : IgnoreRule)
  deriving Repr

/-- Trailing blanks are dropped, unless the last one is escaped. -/
def trimLine (cs : List Char) : List Char :=
  if (Text.stripEnd? ['\\', ' '] cs).isSome then cs else Text.trimEnd cs

/-- The pattern after the marks at its start: the verdict, whether it is bound to
the start of the path, and the rest. -/
def marks : List Char → Verdict × Bool × List Char
  | '\\' :: '!' :: cs => (.leaveOut, false, '!' :: cs)
  | '\\' :: '#' :: cs => (.leaveOut, false, '#' :: cs)
  | '!' :: '/' :: cs => (.takeIn, true, cs)
  | '!' :: cs => (.takeIn, false, cs)
  | '/' :: cs => (.leaveOut, true, cs)
  | cs => (.leaveOut, false, cs)

/-- The pattern without the slash at its end, and whether there was one. An
escape before that slash goes with it. -/
def dropClosingSlash (cs : List Char) : Bool × List Char :=
  match cs.reverse with
  | '/' :: '\\' :: rest => (true, rest.reverse)
  | '/' :: rest => (true, rest.reverse)
  | _ => (false, cs)

/-- The full pattern: at any depth if it has no slash, and below a folder but
not the folder itself if it ends in two stars. -/
def complete (isBound : Bool) (cs : List Char) : List Char :=
  let anywhere := !isBound && !cs.contains '/' && cs ≠ ['*', '*']
  let full := if anywhere then ['*', '*', '/'] ++ cs else cs
  if (Text.stripEnd? ['/', '*', '*'] full).isSome then full ++ ['/', '*'] else full

/-- What a line is; `lenient` is about classes in its pattern that are not closed. -/
def ofLine (lenient : Bool) (line : List Char) : Line :=
  match trimLine line with
  | [] => .nothing
  | '#' :: _ => .nothing
  | cs =>
    let (verdict, isBound, rest) := marks cs
    let (foldersOnly, body) := dropClosingSlash rest
    match Glob.ofText? lenient (complete isBound body) with
    | none => .invalid
    | some g => .rule ⟨g, verdict, foldersOnly⟩

/-- The lines of some bytes, without their ends, up to the first that is not text. -/
def linesOf (bytes : List UInt8) : List (List Char) :=
  let lines := Text.segments (· == 10) bytes
  let lines := if lines.getLast? = some [] then lines.dropLast else lines
  let texts := lines.map fun l => String.fromUTF8? ⟨l.toArray⟩
  (texts.takeWhile Option.isSome).map fun s =>
    let cs := (s.getD "").toList
    (Text.stripEnd? ['\r'] cs).getD cs

/-- The rules of a file. Byte order marks before the first line and lines that are no
rule are passed over. -/
def ofBytes (bytes : List UInt8) : List IgnoreRule :=
  let lines :=
    match linesOf bytes with
    | l :: rest => l.dropWhile (· == '\uFEFF') :: rest
    | [] => []
  lines.filterMap fun l =>
    match ofLine true l with
    | .rule r => some r
    | _ => none

def appliesTo (r : IgnoreRule) (names : List String) (isFolder : Bool) : Bool :=
  (isFolder || !r.foldersOnly) && r.glob.accepts names

def verdict? (rules : List IgnoreRule) (names : List String) (isFolder : Bool) : Option Verdict :=
  (rules.reverse.find? fun r => r.appliesTo names isFolder).map (·.verdict)

end IgnoreRule
end LevelGuard
