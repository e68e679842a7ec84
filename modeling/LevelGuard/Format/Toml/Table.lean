import LevelGuard.Format.Value

/-!
# Tables under construction

The tables of a TOML file are spread over headers and dotted keys. While a file is
read the tree remembers how each table came about: only to hold another one, by
dotted keys, or by a header of its own. A header may define a table that so far
only holds others, dotted keys may add to tables that dotted keys made, and
nothing may be defined twice.
-/
namespace LevelGuard.Format.Toml

inductive Node where
  | value (v : Value)
  /-- A table; `implicit` if no header defines it, `dotted` if dotted keys made it. -/
  | table (implicit dotted : Bool) (entries : List (String × Node))
  /-- The tables of repeated double headers. -/
  | tables (elements : List (List (String × Node)))

abbrev Entries := List (String × Node)

namespace Entries

def get? (es : Entries) (key : String) : Option Node :=
  (es.find? fun e => e.1 = key).map Prod.snd

def set (es : Entries) (key : String) (n : Node) : Entries :=
  if es.any (fun e => e.1 = key) then es.map fun e => if e.1 = key then (key, n) else e
  else es ++ [(key, n)]

/-- Change the table that a path of headers leads to; of repeated tables the last
one is meant, and tables that are not there are made. -/
def alter (change : Entries → Option Entries) : List String → Entries → Option Entries
  | [], es => change es
  | k :: ks, es =>
    match es.get? k with
    | none => (alter change ks []).map fun sub => es.set k (.table true false sub)
    | some (.value _) => none
    | some (.table implicit dotted sub) =>
      (alter change ks sub).map fun sub => es.set k (.table implicit dotted sub)
    | some (.tables ts) =>
      (alter change ks (ts.getLastD [])).map fun last => es.set k (.tables (ts.dropLast ++ [last]))

/-- Add a value under a dotted key; `open_` says whether the table at hand can take
a key. -/
def put (v : Value) : (open_ : Bool) → List String → Entries → Option Entries
  | _, [], _ => none
  | open_, [k], es => if open_ && (es.get? k).isNone then some (es ++ [(k, .value v)]) else none
  | _, k :: ks, es =>
    match es.get? k with
    | none => (put v true ks []).map fun sub => es ++ [(k, .table true true sub)]
    | some (.table true dotted sub) =>
      (put v dotted ks sub).map fun sub => es.set k (.table true dotted sub)
    | some (.tables ts) =>
      (put v false ks (ts.getLastD [])).map fun last =>
        es.set k (.tables (ts.dropLast ++ [last]))
    | some _ => none

def define (key : String) (es : Entries) : Option Entries :=
  match es.get? key with
  | none => some (es ++ [(key, .table false false [])])
  | some (.table true false sub) => some (es.set key (.table false false sub))
  | some _ => none

/-- Begin a further table by a double header with this last key. -/
def extend (key : String) (es : Entries) : Option Entries :=
  match es.get? key with
  | none => some (es ++ [(key, .tables [[]])])
  | some (.tables ts) => some (es.set key (.tables (ts ++ [[]])))
  | some _ => none

end Entries

mutual

def Node.toValue : Node → Value
  | .value v => v
  | .table _ _ es => .map (entryValues es)
  | .tables ts => .list (tableValues ts)

def entryValues : List (String × Node) → List (String × Value)
  | [] => []
  | (k, n) :: rest => (k, n.toValue) :: entryValues rest

def tableValues : List (List (String × Node)) → List Value
  | [] => []
  | es :: rest => .map (entryValues es) :: tableValues rest

end
end LevelGuard.Format.Toml
