import Skt.Lib.Segment
import Skt.Uri.Model

/-!
# Regions of the URI automaton

The states behind `"://"` fall into regions, one for each part of a URI. The
automaton stays in a region without an action until a delimiter comes, and runs
the same actions on a delimiter in all states of the region. `layout` reads this
off the table.
-/

namespace Skt

set_option maxRecDepth 4000

namespace Uri

open Lib Lib.Ragel

/-! ## Bytes -/

def schemeBytes : List (ℕ × ℕ) := [(43, 43), (45, 46), (48, 57), (65, 90), (97, 122)]

/-- The bytes of a `userinfo`. -/
def userBytes : List (ℕ × ℕ) :=
  [(33, 33), (36, 46), (48, 59), (61, 61), (65, 90), (95, 95), (97, 122), (126, 126)]

/-- The same but for the `:`. -/
def nameBytes : List (ℕ × ℕ) :=
  [(33, 33), (36, 46), (48, 57), (59, 59), (61, 61), (65, 90), (95, 95), (97, 122),
    (126, 126)]

/-- The bytes of a host other than an IP literal: a name, or a dotted quad in
which the byte `2` may stand. -/
def hostBytes : List (ℕ × ℕ) := (2, 2) :: nameBytes

/-- All bytes but `]`. -/
def literalBytes : List (ℕ × ℕ) := [(0, 92), (94, 255)]

/-- All bytes but `#` and `?`. -/
def pathBytes : List (ℕ × ℕ) := [(0, 34), (36, 62), (64, 255)]

/-- All bytes but `#`. -/
def queryBytes : List (ℕ × ℕ) := [(0, 34), (36, 255)]

/-! ## States -/

/-- In front of the first `:` or `@` of an authority. -/
def nameStates : List (ℕ × ℕ) := [(253, 254), (520, 520), (543, 560)]

/-- Behind the first `:` of a `userinfo`. -/
def userStates : List (ℕ × ℕ) := [(255, 257), (542, 542)]

/-- In a host that is no IP literal, and behind one. -/
def hostStates : List (ℕ × ℕ) :=
  [(229, 242), (245, 254), (258, 259), (512, 512), (516, 520), (523, 541), (543, 560)]

def literalStates : List (ℕ × ℕ) := [(260, 450)]

/-- Where a host may end; in `511` and `522` it is empty. -/
def hostEnds : List (ℕ × ℕ) := [(511, 512), (516, 520), (522, 541), (543, 560)]

def portStates : List (ℕ × ℕ) := [(515, 515), (542, 542)]

/-- Where an authority may end. -/
def authorityEnds : List (ℕ × ℕ) := [(511, 512), (514, 560)]

/-- Where a path behind an authority may end. -/
def pathEnds : List (ℕ × ℕ) := [(511, 560)]

def pathStates : List (ℕ × ℕ) := [(243, 244), (513, 513)]

def queryStates : List (ℕ × ℕ) := [(7, 8), (457, 457)]

def fragmentStates : List (ℕ × ℕ) := [(1, 2), (454, 454)]

/-! ## Actions -/

/-- On the `:` behind a host. -/
def colonActs (q : ℕ) : List UriAction :=
  if q = 511 ∨ q = 522 then [.mark, .saveHost] else [.saveHost]

/-- On the `/` behind an authority. -/
def slashActs (q : ℕ) : List UriAction :=
  if q = 511 ∨ q = 522 then [.mark, .saveHost]
  else if q = 514 ∨ q = 521 then [.mark, .savePort]
  else if q = 515 ∨ q = 542 then [.savePort, .mark]
  else [.saveHost, .mark]

/-- Behind a path or a query: on `#` and at the end, and behind a path on `?`. -/
def endActs (q : ℕ) : List UriAction :=
  if q = 456 then [.mark, .saveQuery]
  else if q = 457 then [.saveQuery]
  else if q = 513 then [.savePath]
  else slashActs q ++ [.savePath]

/-- From the states `R` the bytes `on` lead to the states `T`, with actions
that depend on the state. -/
def leads (R on : List (ℕ × ℕ)) (acts : ℕ → List UriAction) (T : List (ℕ × ℕ)) : Bool :=
  uriTable.rows R on fun q r => decide (r.acts = acts q) && within T r.target

/-- What the run over a URI with an authority uses of the table. -/
structure Layout : Prop where
  scheme_first : leads [(451, 451)] [(65, 90), (97, 122)] (fun _ => [.mark]) [(508, 508)]
  scheme_stays : uriTable.stays [(508, 508)] schemeBytes
  scheme_colon : leads [(508, 508)] [(58, 58)] (fun _ => [.saveScheme]) [(509, 509)]
  scheme_slash : leads [(509, 509)] [(47, 47)] (fun _ => []) [(510, 510)]
  scheme_slashes : leads [(510, 510)] [(47, 47)] (fun _ => []) [(511, 511)]
  name_first : leads [(511, 511)] nameBytes (fun _ => [.mark]) nameStates
  name_stays : uriTable.stays nameStates nameBytes
  name_at : leads nameStates [(64, 64)] (fun _ => [.saveUserinfo]) [(522, 522)]
  name_colon : leads nameStates [(58, 58)] (fun _ => [.saveHost]) [(521, 521)]
  empty_at : leads [(511, 511)] [(64, 64)] (fun _ => [.mark, .saveUserinfo]) [(522, 522)]
  empty_colon : leads [(511, 511)] [(58, 58)] (fun _ => [.mark, .saveHost]) [(521, 521)]
  user_digit : leads [(521, 521)] [(48, 57)] (fun _ => [.mark]) [(542, 542)]
  user_other : leads [(521, 521)] [(33, 33), (36, 46), (58, 59), (61, 61), (65, 126)] (fun _ => [])
    [(255, 256)]
  user_stays : uriTable.stays userStates userBytes
  user_at : leads ((521, 521) :: userStates) [(64, 64)] (fun _ => [.saveUserinfo])
    [(522, 522)]
  host_first : leads [(511, 511), (522, 522)] hostBytes (fun _ => [.mark]) hostStates
  host_stays : uriTable.stays hostStates hostBytes
  literal_first : leads [(511, 511), (522, 522)] [(91, 91)] (fun _ => [.mark]) literalStates
  literal_stays : uriTable.stays literalStates literalBytes
  literal_last : leads literalStates [(93, 93)] (fun _ => []) [(512, 512)]
  host_colon : leads hostEnds [(58, 58)] colonActs [(514, 514), (521, 521)]
  port_first : leads [(514, 514), (521, 521)] [(48, 57)] (fun _ => [.mark]) portStates
  port_stays : uriTable.stays portStates [(48, 57)]
  slash : leads authorityEnds [(47, 47)] slashActs [(513, 513)]
  path_stays : uriTable.stays pathStates pathBytes
  path_query : leads pathEnds [(63, 63)] endActs [(456, 456)]
  query_first : leads [(456, 456)] queryBytes (fun _ => [.mark]) queryStates
  query_stays : uriTable.stays queryStates queryBytes
  fragment : leads ((456, 457) :: pathEnds) [(35, 35)] endActs [(453, 453)]
  fragment_first : leads [(453, 453)] [(0, 255)] (fun _ => [.mark]) fragmentStates
  fragment_stays : uriTable.stays fragmentStates [(0, 255)]

theorem layout : Layout := by
  constructor <;> decide

theorem eofActs_eq_endActs {q : ℕ} (h : within ((456, 457) :: pathEnds) q = true) :
    eofActs q = endActs q := by
  have hall : ∀ q < 561, within ((456, 457) :: pathEnds) q = true →
      eofActs q = endActs q := by
    decide
  have hlt : q < 561 := by
    simp only [pathEnds, within_cons, within_nil, Bool.false_eq_true, or_false] at h
    omega
  exact hall q hlt h

end Uri

end Skt
