import Skt.Http.Message
import Skt.Lib.Decimal

/-!
# Messages as text

`HttpRequest::dump` and `HttpResponse::dump`.
-/

namespace Skt

namespace Http

open Lib Lib.CString

/-! ## Names -/

/-- `HttpMethodToString`. -/
def httpMethodToString (m : HttpMethod) : List UInt8 :=
  match httpMethodMap.find? fun e => e.1 = m with
  | some e => e.2
  | none => bytes "<UNKONW>"

/-- `HTTP_STATUS_MAP`. -/
def httpStatusMap : List (ℤ × List UInt8) :=
  [(100, bytes "Continue"), (101, bytes "Switching Protocols"), (102, bytes "Processing"),
    (200, bytes "OK"), (201, bytes "Created"), (202, bytes "Accepted"),
    (203, bytes "Non-Authoritative Information"), (204, bytes "No Content"),
    (205, bytes "Reset Content"), (206, bytes "Partial Content"),
    (207, bytes "Multi-Status"), (208, bytes "Already Reported"), (226, bytes "IM Used"),
    (300, bytes "Multiple Choices"), (301, bytes "Moved Permanently"),
    (302, bytes "Found"), (303, bytes "See Other"), (304, bytes "Not Modified"),
    (305, bytes "Use Proxy"), (307, bytes "Temporary Redirect"),
    (308, bytes "Permanent Redirect"), (400, bytes "Bad Request"),
    (401, bytes "Unauthorized"), (402, bytes "Payment Required"),
    (403, bytes "Forbidden"), (404, bytes "Not Found"),
    (405, bytes "Method Not Allowed"), (406, bytes "Not Acceptable"),
    (407, bytes "Proxy Authentication Required"), (408, bytes "Request Timeout"),
    (409, bytes "Conflict"), (410, bytes "Gone"), (411, bytes "Length Required"),
    (412, bytes "Precondition Failed"), (413, bytes "Payload Too Large"),
    (414, bytes "URI Too Long"), (415, bytes "Unsupported Media Type"),
    (416, bytes "Range Not Satisfiable"), (417, bytes "Expectation Failed"),
    (421, bytes "Misdirected Request"), (422, bytes "Unprocessable Entity"),
    (423, bytes "Locked"), (424, bytes "Failed Dependency"),
    (426, bytes "Upgrade Required"), (428, bytes "Precondition Required"),
    (429, bytes "Too Many Requests"), (431, bytes "Request Header Fields Too Large"),
    (451, bytes "Unavailable For Legal Reasons"), (500, bytes "Internal Server Error"),
    (501, bytes "Not Implemented"), (502, bytes "Bad Gateway"),
    (503, bytes "Service Unavailable"), (504, bytes "Gateway Timeout"),
    (505, bytes "HTTP Version Not Supported"), (506, bytes "Variant Also Negotiates"),
    (507, bytes "Insufficient Storage"), (508, bytes "Loop Detected"),
    (510, bytes "Not Extended"), (511, bytes "Network Authentication Required")]

/-- `HttpStatusToString`. -/
def httpStatusToString (s : ℤ) : List UInt8 :=
  match httpStatusMap.find? fun e => e.1 = s with
  | some e => e.2
  | none => bytes "<unkonw>"

/-! ## Dumps -/

/-- `strcasecmp(a.c_str(), b.c_str()) == 0`. -/
def strcasecmpEq (a b : List UInt8) : Bool := !strcasecmpLess a b && !strcasecmpLess b a

/-- One header, with what the two messages write between its name and value. -/
def headerLine (sep : List UInt8) (e : List UInt8 × List UInt8) : List UInt8 :=
  e.1 ++ sep ++ e.2 ++ crlf

def dumpHeaders (sep : List UInt8) (headers : MapType) : List UInt8 :=
  (headers.filter fun e => !strcasecmpEq e.1 (bytes "connection")).flatMap (headerLine sep)

/-- `"HTTP/" << (m_version >> 4) << "." << (m_version & 0x0F)`. -/
def dumpVersion (version : ℕ) : List UInt8 :=
  bytes "HTTP/" ++ decimal (version / 16) ++ bytes "." ++ decimal (version % 16)

/-- The end of the header block; the body follows it. -/
def dumpLength (body : List UInt8) : List UInt8 :=
  if body = [] then crlf
  else bytes "content-length: " ++ decimal body.length ++ crlf ++ crlf

def HttpRequest.head (r : HttpRequest) : List UInt8 :=
  httpMethodToString r.method ++ bytes " " ++ r.path
    ++ (if r.query = [] then [] else bytes "?") ++ r.query
    ++ (if r.fragment = [] then [] else bytes "#") ++ r.fragment
    ++ bytes " " ++ dumpVersion r.version ++ crlf
    ++ bytes "connection: " ++ (if r.close then bytes "close" else bytes "keep=alive") ++ crlf
    ++ dumpHeaders (bytes ":") r.headers ++ dumpLength r.body

/-- `HttpRequest::dump`. -/
def HttpRequest.dump (r : HttpRequest) : List UInt8 := r.head ++ r.body

/-- What is written for the reason. -/
def HttpResponse.reasonText (r : HttpResponse) : List UInt8 :=
  if r.reason = [] then httpStatusToString r.status else r.reason

def HttpResponse.head (r : HttpResponse) : List UInt8 :=
  dumpVersion r.version ++ bytes " " ++ decimal (r.status % 4294967296).toNat ++ bytes " "
    ++ r.reasonText ++ crlf
    ++ dumpHeaders (bytes ": ") r.headers
    ++ bytes "connection: " ++ (if r.close then bytes "close" else bytes "keep-alive") ++ crlf
    ++ dumpLength r.body

/-- `HttpResponse::dump`. -/
def HttpResponse.dump (r : HttpResponse) : List UInt8 := r.head ++ r.body

/-! ## Looking up headers -/

/-- What `CaseInsensitiveLess` compares. -/
def folded (key : List UInt8) : List UInt8 := (key.takeWhile (· ≠ 0)).map toLower

theorem folded_ne_of_less {a b : List UInt8} (h : strcasecmpLess a b = true) :
    folded a ≠ folded b := by
  intro heq
  have hirr := lexLess_irrefl (folded b)
  unfold strcasecmpLess at h
  unfold folded at heq hirr
  rw [heq, hirr] at h
  exact Bool.false_ne_true h

theorem strcasecmpEq_iff {a b : List UInt8} : strcasecmpEq a b = true ↔ folded a = folded b := by
  simp only [strcasecmpEq, Bool.and_eq_true, Bool.not_eq_true']
  constructor
  · rintro ⟨hab, hba⟩
    rcases lexLess_eq_or (folded a) (folded b) with h | h | h
    · exact absurd (hab.symm.trans h) Bool.false_ne_true
    · exact absurd (hba.symm.trans h) Bool.false_ne_true
    · exact h
  · intro h
    have hirr := lexLess_irrefl (folded b)
    unfold strcasecmpLess
    unfold folded at h hirr
    rw [h]
    exact ⟨hirr, hirr⟩

namespace MapType

theorem find_cons (key : List UInt8) (e : List UInt8 × List UInt8) (m : MapType) :
    find key (e :: m) = if folded e.1 = folded key then some e.2 else find key m := by
  have hcond : (!strcasecmpLess e.1 key && !strcasecmpLess key e.1) = strcasecmpEq e.1 key :=
    rfl
  unfold find
  rw [List.find?_cons, hcond]
  split_ifs with h
  · rw [strcasecmpEq_iff.mpr h]
    rfl
  · rw [Bool.eq_false_iff.mpr fun hn => h (strcasecmpEq_iff.mp hn)]

/-- `m[key] = v`, then a lookup. -/
theorem find_set (key key' v : List UInt8) : ∀ m : MapType,
    find key (set key' v m) = if folded key' = folded key then some v else find key m
  | [] => by rw [set, find_cons]
  | e :: m => by
      rw [set]
      by_cases hlt : strcasecmpLess e.1 key' = true
      · have hne : folded e.1 ≠ folded key' := folded_ne_of_less hlt
        rw [if_pos hlt, find_cons, find_set key key' v m, find_cons]
        split_ifs with he hkey hkey
        · exact absurd (he.trans hkey.symm) hne
        · rfl
        · rfl
        · rfl
      · rw [if_neg hlt]
        by_cases hgt : strcasecmpLess key' e.1 = true
        · rw [if_pos hgt, find_cons]
        · have heq : folded e.1 = folded key' := by
            refine strcasecmpEq_iff.mp ?_
            rw [strcasecmpEq, Bool.eq_false_iff.mpr hlt, Bool.eq_false_iff.mpr hgt]
            rfl
          rw [if_neg hgt, find_cons, find_cons, heq]
          split_ifs <;> rfl

/-- The entries stand in the order of the map. -/
def Ordered (m : MapType) : Prop := m.Pairwise fun a b => strcasecmpLess a.1 b.1 = true

instance (m : MapType) : Decidable m.Ordered := by unfold Ordered; infer_instance

/-- All headers of a message, set one after the other. -/
def setAll (entries m : MapType) : MapType := entries.foldl (fun m e => m.set e.1 e.2) m

theorem setAll_cons (e : List UInt8 × List UInt8) (entries m : MapType) :
    setAll (e :: entries) m = setAll entries (set e.1 e.2 m) := rfl

theorem find_setAll_of_ne {key : List UInt8} : ∀ {entries : MapType} (m : MapType),
    (∀ e ∈ entries, folded e.1 ≠ folded key) → find key (setAll entries m) = find key m
  | [], _, _ => rfl
  | e :: entries, m, h => by
      rw [setAll_cons, find_setAll_of_ne _ fun d hd => h d (List.mem_cons_of_mem _ hd),
        find_set, if_neg (h e List.mem_cons_self)]

/-- The header that is written for a body. -/
def withLength (body : List UInt8) (m : MapType) : MapType :=
  if body = [] then m else m.set (bytes "content-length") (decimal body.length)

/-- Every header of a message is found again. -/
theorem find_setAll : ∀ {entries : MapType} (m : MapType), entries.Ordered →
    ∀ e ∈ entries, find e.1 (setAll entries m) = some e.2
  | [], _, _, e, he => absurd he List.not_mem_nil
  | d :: entries, m, hord, e, he => by
      obtain ⟨hd, hord⟩ := List.pairwise_cons.mp hord
      rw [setAll_cons]
      rcases List.mem_cons.mp he with rfl | he
      · rw [find_setAll_of_ne _ fun d' hd' => (folded_ne_of_less (hd d' hd')).symm,
          find_set, if_pos rfl]
      · exact find_setAll _ hord e he

end MapType

end Http

end Skt
