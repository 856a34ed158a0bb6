import Skt.Lib.Decimal
import Skt.Lib.Grammar
import Skt.Uri.Table

/-!
# `Uri`

`Uri::Create` runs the automaton over the string and, at its end, the actions of
the state it is in. All actions share one pointer `mark`; a `std::string` built
from a null pointer throws.
-/

namespace Skt

open Lib Lib.CString Lib.Ragel

structure Uri where
  scheme : List UInt8
  userinfo : List UInt8
  host : List UInt8
  path : List UInt8
  query : List UInt8
  fragment : List UInt8
  port : ℤ
  deriving DecidableEq, Repr

namespace Uri

def new : Uri := ⟨[], [], [], [], [], [], 0⟩

/-! ## Parsing -/

/-- What ends `Create` other than a return: a string built from a null `mark`,
`atoi` of a null `mark`, or a string of negative length. -/
inductive Fault
  | nullString
  | nullDigits
  | negativeLength
  deriving DecidableEq, Repr

/-- `mark` as a position in the string, and the `Uri` so far. -/
structure Scan where
  mark : Option ℕ
  uri : Uri
  deriving DecidableEq, Repr

/-- `std::string(mark, fpc - mark)`. -/
def marked (s : List UInt8) (mark : Option ℕ) (p : ℕ) : Except Fault (List UInt8) :=
  match mark with
  | none => .error .nullString
  | some m => if p < m then .error .negativeLength else .ok ((s.drop m).take (p - m))

/-- An action at position `p` of the string `s`. -/
def act (s : List UInt8) (p : ℕ) (a : UriAction) (x : Scan) : Except Fault Scan :=
  match a with
  | .mark => .ok { x with mark := some p }
  | .saveScheme =>
      (marked s x.mark p).map fun v => ⟨none, { x.uri with scheme := v }⟩
  | .savePort =>
      if x.mark = some p then .ok { x with mark := none }
      else
        match x.mark with
        | none => .error .nullDigits
        | some m => .ok ⟨none, { x.uri with port := atoi (s.drop m) }⟩
  | .saveUserinfo =>
      if x.mark = none then .ok x
      else (marked s x.mark p).map fun v => ⟨none, { x.uri with userinfo := v }⟩
  | .saveHost =>
      if x.mark = none then .ok x
      else (marked s x.mark p).map fun v => { x with uri := { x.uri with host := v } }
  | .savePath =>
      (marked s x.mark p).map fun v => ⟨none, { x.uri with path := v }⟩
  | .saveQuery =>
      (marked s x.mark p).map fun v => ⟨none, { x.uri with query := v }⟩
  | .saveFragment =>
      (marked s x.mark p).map fun v => ⟨none, { x.uri with fragment := v }⟩

/-- The actions at the end of the string. -/
def eofActs (q : ℕ) : List UriAction :=
  match uriEofTable.find? fun e => within e.1 q with
  | some e => e.2
  | none => []

/-- `cs >= uri_parser_first_final`; the error state is smaller. -/
def final (q : ℕ) : Bool := 451 ≤ q

/-- `Uri::Create`: `none` is the null pointer. -/
def create (s : List UInt8) : Except Fault (Option Uri) := do
  let (p, q, x) ← exec uriTable false (fun _ => false) (act s) s 0 451 ⟨none, new⟩
  let x ← runActs (act s) p (eofActs q) x
  return if final q then some x.uri else none

/-! ## Reading and printing -/

def isDefaultPort (u : Uri) : Bool :=
  if u.port = 0 then true
  else if u.scheme = bytes "http" ∨ u.scheme = bytes "ws" then u.port = 80
  else if u.scheme = bytes "https" ∨ u.scheme = bytes "wss" then u.port = 443
  else false

def getPath (u : Uri) : List UInt8 := if u.path = [] then bytes "/" else u.path

def getPort (u : Uri) : ℤ :=
  if u.port ≠ 0 then u.port
  else if u.scheme = bytes "http" ∨ u.scheme = bytes "ws" then 80
  else if u.scheme = bytes "https" ∨ u.scheme = bytes "wss" then 443
  else u.port

/-- `toString`, which returns what `dump` writes. -/
def toString (u : Uri) : List UInt8 :=
  u.scheme ++ bytes "://" ++ u.userinfo ++ (if u.userinfo = [] then [] else bytes "@") ++
    u.host ++ (if u.isDefaultPort then [] else bytes ":" ++ toText u.port) ++ u.getPath ++
    (if u.query = [] then [] else bytes "?") ++ u.query ++
    (if u.fragment = [] then [] else bytes "#") ++ u.fragment

end Uri

end Skt
