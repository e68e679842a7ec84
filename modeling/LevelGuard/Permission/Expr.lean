import LevelGuard.Data.SortedSet
import LevelGuard.Text.Basic

/-!
# Permission expressions

A platform symbol may demand one permission, all of several, any of several,
exactly one of two, or a nesting of these. A conditional demand is enforced only
sometimes and therefore never fails.

An expression is evaluated in a world of two sets: the permissions the module
holds and those its code has made sure of. `missing` collects the names whose
absence makes an expression fail, `implied` the names that hold whenever it is
satisfied, and `describeMissing` words the failing part for a message.
-/
namespace LevelGuard.Permission

inductive Expr where
  | single (name : String)
  | allOf (parts : List Expr)
  | anyOf (parts : List Expr)
  /-- Exactly one of the two. -/
  | xor (left right : Expr)
  /-- Enforced only sometimes. -/
  | conditional (inner : Expr)
  deriving Inhabited, Repr

namespace Expr

mutual
def decEq : (a b : Expr) → Decidable (a = b)
  | .single a, .single b =>
    if h : a = b then isTrue (h ▸ rfl) else isFalse fun e => h (by cases e; rfl)
  | .allOf a, .allOf b =>
    match decEqList a b with
    | isTrue h => isTrue (h ▸ rfl)
    | isFalse h => isFalse fun e => h (by cases e; rfl)
  | .anyOf a, .anyOf b =>
    match decEqList a b with
    | isTrue h => isTrue (h ▸ rfl)
    | isFalse h => isFalse fun e => h (by cases e; rfl)
  | .xor a b, .xor c d =>
    match decEq a c, decEq b d with
    | isTrue h, isTrue k => isTrue (h ▸ k ▸ rfl)
    | isFalse h, _ => isFalse fun e => h (by cases e; rfl)
    | _, isFalse h => isFalse fun e => h (by cases e; rfl)
  | .conditional a, .conditional b =>
    match decEq a b with
    | isTrue h => isTrue (h ▸ rfl)
    | isFalse h => isFalse fun e => h (by cases e; rfl)
  | .single _, .allOf _ | .single _, .anyOf _ | .single _, .xor .. | .single _, .conditional _
  | .allOf _, .single _ | .allOf _, .anyOf _ | .allOf _, .xor .. | .allOf _, .conditional _
  | .anyOf _, .single _ | .anyOf _, .allOf _ | .anyOf _, .xor .. | .anyOf _, .conditional _
  | .xor .., .single _ | .xor .., .allOf _ | .xor .., .anyOf _ | .xor .., .conditional _
  | .conditional _, .single _ | .conditional _, .allOf _ | .conditional _, .anyOf _
  | .conditional _, .xor .. => isFalse fun e => nomatch e

def decEqList : (a b : List Expr) → Decidable (a = b)
  | [], [] => isTrue rfl
  | [], _ :: _ => isFalse fun e => nomatch e
  | _ :: _, [] => isFalse fun e => nomatch e
  | a :: as, b :: bs =>
    match decEq a b, decEqList as bs with
    | isTrue h, isTrue k => isTrue (h ▸ k ▸ rfl)
    | isFalse h, _ => isFalse fun e => h (by cases e; rfl)
    | _, isFalse h => isFalse fun e => h (by cases e; rfl)
end

instance : DecidableEq Expr := decEq

def allOfNames (names : List String) : Expr := .allOf (names.map .single)

def anyOfNames (names : List String) : Expr := .anyOf (names.map .single)

mutual
/-- Whether the demand is met by what the module holds and what its code has
made sure of. -/
def satisfied (held sure : NameSet) : Expr → Bool
  | .single name => held.contains name || sure.contains name
  | .allOf parts => allSatisfied held sure parts
  | .anyOf parts => anySatisfied held sure parts
  | .xor a b => satisfied held sure a != satisfied held sure b
  | .conditional _ => true

def allSatisfied (held sure : NameSet) : List Expr → Bool
  | [] => true
  | e :: es => satisfied held sure e && allSatisfied held sure es

def anySatisfied (held sure : NameSet) : List Expr → Bool
  | [] => false
  | e :: es => satisfied held sure e || anySatisfied held sure es
end

def conditionalInner? : Expr → Option Expr
  | .conditional inner => some inner
  | _ => none

def isConditional (e : Expr) : Bool := e.conditionalInner?.isSome

/-- Whether the wording needs parentheses inside a larger expression. -/
def isCompound : Expr → Bool
  | .single _ => false
  | .allOf parts => parts.length > 1
  | .anyOf parts => parts.length > 1
  | .xor .. => true
  | .conditional inner => inner.isCompound

/-- Parenthesise the wording of a compound part. -/
def enclose (e : Expr) (text : String) : String := if e.isCompound then "(" ++ text ++ ")" else text

mutual
def text : Expr → String
  | .single name => name
  | .allOf parts => Text.joinWith " and " (partTexts parts)
  | .anyOf parts => Text.joinWith " or " (partTexts parts)
  | .xor a b => a.enclose a.text ++ " xor " ++ b.enclose b.text
  | .conditional inner => inner.text

def partTexts : List Expr → List String
  | [] => []
  | e :: es => e.enclose e.text :: partTexts es
end

mutual
/-- The unsatisfied part in words; of a conjunction only what fails is named. -/
def describeMissing (held sure : NameSet) : Expr → String
  | .single name => name
  | .allOf parts => Text.joinWith " and " (missingTexts held sure parts)
  | .anyOf parts => (Expr.anyOf parts).text
  | .xor a b => (Expr.xor a b).text
  | .conditional inner => inner.describeMissing held sure

def missingTexts (held sure : NameSet) : List Expr → List String
  | [] => []
  | e :: es =>
    if e.satisfied held sure then missingTexts held sure es
    else e.enclose (e.describeMissing held sure) :: missingTexts held sure es
end

mutual
/-- The names whose absence makes the expression fail, in the order they are met. -/
def missingNames (held sure : NameSet) : Expr → List String
  | .single name => if held.contains name || sure.contains name then [] else [name]
  | .allOf parts =>
    if (Expr.allOf parts).satisfied held sure then [] else missingNamesOf held sure parts
  | .anyOf parts =>
    if (Expr.anyOf parts).satisfied held sure then [] else missingNamesOf held sure parts
  | .xor a b =>
    if (Expr.xor a b).satisfied held sure then []
    else missingNames held sure a ++ missingNames held sure b
  | .conditional inner => missingNames held sure inner

def missingNamesOf (held sure : NameSet) : List Expr → List String
  | [] => []
  | e :: es => missingNames held sure e ++ missingNamesOf held sure es
end

def missing (e : Expr) (held sure : NameSet) : NameSet := .ofList (e.missingNames held sure)

mutual
/-- Every name in the expression, in the order of reading. -/
def names : Expr → List String
  | .single name => [name]
  | .allOf parts => namesOf parts
  | .anyOf parts => namesOf parts
  | .xor a b => names a ++ names b
  | .conditional inner => names inner

def namesOf : List Expr → List String
  | [] => []
  | e :: es => names e ++ namesOf es
end

def permissions (e : Expr) : NameSet := .ofList e.names

mutual
/-- Names that hold whenever the expression is satisfied. -/
def implied : Expr → NameSet
  | .single name => .ofList [name]
  | .allOf parts => impliedByAll parts
  | .anyOf [] => .empty
  | .anyOf (e :: es) => impliedByAny (implied e) es
  | .xor .. => .empty
  | .conditional _ => .empty

def impliedByAll : List Expr → NameSet
  | [] => .empty
  | e :: es => (implied e).union (impliedByAll es)

def impliedByAny (common : NameSet) : List Expr → NameSet
  | [] => common
  | e :: es => impliedByAny (common.inter (implied e)) es
end

end Expr

/-- The platform permissions that the user can take back at run time. -/
def platformRevocable : List String :=
  [ "android.permission.ACCESS_COARSE_LOCATION",
    "android.permission.ACCESS_FINE_LOCATION",
    "android.permission.BODY_SENSORS",
    "android.permission.CALL_PHONE",
    "android.permission.CAMERA",
    "android.permission.GET_ACCOUNTS",
    "android.permission.PROCESS_OUTGOING_CALLS",
    "android.permission.READ_CALENDAR",
    "android.permission.READ_CALL_LOG",
    "android.permission.READ_CELL_BROADCASTS",
    "android.permission.READ_CONTACTS",
    "android.permission.READ_EXTERNAL_STORAGE",
    "android.permission.READ_PHONE_STATE",
    "android.permission.READ_PROFILE",
    "android.permission.READ_SMS",
    "android.permission.READ_SOCIAL_STREAM",
    "android.permission.RECEIVE_MMS",
    "android.permission.RECEIVE_SMS",
    "android.permission.RECEIVE_WAP_PUSH",
    "android.permission.RECORD_AUDIO",
    "android.permission.SEND_SMS",
    "android.permission.USE_SIP",
    "android.permission.WRITE_CALENDAR",
    "android.permission.WRITE_CALL_LOG",
    "android.permission.WRITE_CONTACTS",
    "android.permission.WRITE_EXTERNAL_STORAGE",
    "android.permission.WRITE_PROFILE",
    "android.permission.WRITE_SOCIAL_STREAM",
    "com.android.voicemail.permission.ADD_VOICEMAIL" ]

def isPlatformRevocable (name : String) : Bool := platformRevocable.contains name

/-- The names in the expression that the user can take back, counting `custom` ones. -/
def Expr.revocable (e : Expr) (custom : NameSet) : NameSet :=
  e.permissions.filter fun p => isPlatformRevocable p || custom.contains p

def Expr.isRevocable (e : Expr) (custom : NameSet) : Bool := !(e.revocable custom).isEmpty

end LevelGuard.Permission
