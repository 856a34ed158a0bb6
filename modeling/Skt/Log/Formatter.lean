import Skt.Lib.CString

/-!
# `LogFormatter::init`

A pattern is cut into literal texts and directives by a scanner with an index into the
pattern; here the index is the rest of the pattern from there on. The bytes 37, 123 and 125
are `%` and the two braces.
-/

namespace Skt

namespace Log

namespace LogFormatter

open Lib

/-- The classes that a directive stands for. -/
inductive Directive
  | message | level | elapse | name | threadId | newLine | dateTime | fileName | line | tab
  | fiberId | fiberName
  deriving DecidableEq, Repr

/-- An item: a `StringFormatItem`, or the class of a directive and the `fmt` that it is
constructed with. -/
inductive FormatItem
  | string (str : List UInt8)
  | directive (d : Directive) (fmt : List UInt8)
  deriving DecidableEq, Repr

/-- An entry of `vec`, of type 0 or 1. -/
inductive Piece
  | text (str : List UInt8)
  | directive (str fmt : List UInt8)
  deriving DecidableEq, Repr

/-- `isalpha` in the C locale. -/
def isalpha (c : UInt8) : Bool := (65 ≤ c && c ≤ 90) || (97 ≤ c && c ≤ 122)

/-- The bytes that do not end a directive without braces. -/
def goesOn (c : UInt8) : Bool := isalpha c || c = 123 || c = 125

/-- What the inner loop has found: `str`, `fmt` and `n - i - 1`, with `fmt_status` 0 or 1. -/
inductive Scan
  | found (str fmt : List UInt8) (n : ℕ)
  | unclosed
  deriving DecidableEq, Repr

/-- The inner loop while `fmt_status` is 1; `str` and `fmt` are what was read so far. If the
pattern ends here `str` is not used any more. -/
def scanFmt (str fmt : List UInt8) : List UInt8 → Scan
  | [] => .unclosed
  | c :: rest =>
      if c = 125 then .found str fmt (str.length + fmt.length + 2)
      else scanFmt str (fmt ++ [c]) rest

/-- The inner loop while `fmt_status` is 0. -/
def scanName (str : List UInt8) : List UInt8 → Scan
  | [] => .found str [] str.length
  | c :: rest =>
      if !goesOn c then .found str [] str.length
      else if c = 123 then scanFmt str [] rest
      else scanName (str ++ [c]) rest

/-- `nstr` as an entry, unless it is empty. -/
def flush (nstr : List UInt8) : List Piece := if nstr.isEmpty then [] else [.text nstr]

/-- The outer loop: the entries it pushes from here on, and whether it reports an error. -/
def cut (nstr : List UInt8) : List UInt8 → List Piece × Bool
  | [] => (flush nstr, false)
  | c :: rest =>
      if c ≠ 37 then cut (nstr ++ [c]) rest
      else if rest.head? = some 37 then cut (nstr ++ [37]) rest.tail
      else
        match scanName [] rest with
        | .found str fmt n =>
            let more := cut [] (rest.drop n)
            (flush nstr ++ .directive str fmt :: more.1, more.2)
        | .unclosed =>
            (.text (bytes "<<pattern_error>>") :: (cut nstr rest).1, true)
termination_by pattern => pattern.length
decreasing_by all_goals simp; try omega

/-- `s_format_itmes`. -/
def formatItems : List (List UInt8 × Directive) :=
  [(bytes "m", .message), (bytes "p", .level), (bytes "r", .elapse), (bytes "c", .name),
   (bytes "t", .threadId), (bytes "n", .newLine), (bytes "d", .dateTime),
   (bytes "f", .fileName), (bytes "l", .line), (bytes "T", .tab), (bytes "F", .fiberId),
   (bytes "N", .fiberName)]

def find (name : List UInt8) : Option Directive := formatItems.lookup name

def Piece.item : Piece → FormatItem
  | .text str => .string str
  | .directive str fmt =>
      match find str with
      | none => .string (bytes "<<error_format %" ++ str ++ bytes ">>")
      | some d => .directive d fmt

/-- An entry that sets `m_error` in the last loop. -/
def Piece.isError : Piece → Bool
  | .text _ => false
  | .directive str _ => (find str).isNone

/-- `m_items` and `m_error`. -/
def init (pattern : List UInt8) : List FormatItem × Bool :=
  ((cut [] pattern).1.map Piece.item,
   (cut [] pattern).2 || (cut [] pattern).1.any Piece.isError)

def isError (pattern : List UInt8) : Bool := (init pattern).2

/-! ## Patterns made of tokens -/

inductive Token
  | char (c : UInt8)
  | escape
  | directive (name : List UInt8)
  | braced (name fmt : List UInt8)
  deriving DecidableEq, Repr

namespace Token

def text : Token → List UInt8
  | char c => [c]
  | escape => [37, 37]
  | directive name => 37 :: name
  | braced name fmt => 37 :: (name ++ 123 :: (fmt ++ [125]))

def name? : Token → Option (List UInt8)
  | directive name => some name
  | braced name _ => some name
  | _ => none

/-- A token on its own, in front of the text `rest`. -/
def Fits (rest : List UInt8) : Token → Prop
  | char c => c ≠ 37
  | escape => True
  | directive name =>
      name ≠ [] ∧ name.all isalpha = true ∧ ∀ c, rest.head? = some c → goesOn c = false
  | braced name fmt => name ≠ [] ∧ name.all isalpha = true ∧ 125 ∉ fmt

/-- The name is none of the twelve. -/
def Unknown (t : Token) : Prop := ∃ name, t.name? = some name ∧ find name = none

end Token

/-- The pattern that tokens spell. -/
def spell (ts : List Token) : List UInt8 := ts.flatMap Token.text

def WellFormed : List Token → Prop
  | [] => True
  | t :: ts => t.Fits (spell ts) ∧ WellFormed ts

/-- Literal text in front of entries goes into the first one if that is text as well. -/
def addText : List UInt8 → List Piece → List Piece
  | [], ps => ps
  | s, .text t :: ps => .text (s ++ t) :: ps
  | s, ps => .text s :: ps

/-- The entries that tokens stand for, adjacent literals merged. -/
def pieces : List Token → List Piece
  | [] => []
  | .char c :: ts => addText [c] (pieces ts)
  | .escape :: ts => addText [37] (pieces ts)
  | .directive name :: ts => .directive name [] :: pieces ts
  | .braced name fmt :: ts => .directive name fmt :: pieces ts

/-! ## The scanner on tokens -/

theorem addText_nil (s : List UInt8) : addText s [] = flush s := by
  cases s with
  | nil => rfl
  | cons c s => rfl

theorem addText_directive (s str fmt : List UInt8) (ps : List Piece) :
    addText s (.directive str fmt :: ps) = flush s ++ .directive str fmt :: ps := by
  cases s with
  | nil => rfl
  | cons c s => rfl

theorem addText_snoc (s : List UInt8) (c : UInt8) (ps : List Piece) :
    addText (s ++ [c]) ps = addText s (addText [c] ps) := by
  cases s with
  | nil =>
      rw [List.nil_append, addText.eq_1]
  | cons d s =>
      cases ps with
      | nil => rfl
      | cons p ps =>
          cases p with
          | text t => simp [addText]
          | directive str fmt => rfl

theorem goesOn_of_isalpha {c : UInt8} (h : isalpha c = true) : goesOn c = true := by
  rw [goesOn, h]
  rfl

theorem ne_brace_of_isalpha {c : UInt8} (h : isalpha c = true) : c ≠ 123 := by
  rintro rfl
  cases h

theorem ne_percent_of_isalpha {c : UInt8} (h : isalpha c = true) : c ≠ 37 := by
  rintro rfl
  cases h

/-- The letters of a name are read one by one. -/
theorem scanName_append : ∀ (name str rest : List UInt8), name.all isalpha = true →
    scanName str (name ++ rest) = scanName (str ++ name) rest
  | [], str, rest, _ => by rw [List.nil_append, List.append_nil]
  | c :: name, str, rest, h => by
      rw [List.all_cons, Bool.and_eq_true] at h
      rw [List.cons_append, scanName, goesOn_of_isalpha h.1, if_neg (by decide),
        if_neg (ne_brace_of_isalpha h.1), scanName_append name _ rest h.2, List.append_assoc]
      rfl

theorem scanFmt_append : ∀ (fmt : List UInt8) (str seen rest : List UInt8), 125 ∉ fmt →
    scanFmt str seen (fmt ++ 125 :: rest) =
      .found str (seen ++ fmt) (str.length + (seen ++ fmt).length + 2)
  | [], str, seen, rest, _ => by
      rw [List.nil_append, scanFmt, if_pos rfl, List.append_nil]
  | c :: fmt, str, seen, rest, h => by
      rw [List.mem_cons, not_or] at h
      rw [List.cons_append, scanFmt, if_neg (Ne.symm h.1), scanFmt_append fmt str _ rest h.2,
        List.append_assoc]
      rfl

/-- A directive without braces ends at the next byte that does not go on, or at the end. -/
theorem scanName_directive {name rest : List UInt8} (hname : name.all isalpha = true)
    (hrest : ∀ c, rest.head? = some c → goesOn c = false) :
    scanName [] (name ++ rest) = .found name [] name.length := by
  rw [scanName_append name [] rest hname, List.nil_append]
  cases rest with
  | nil => rfl
  | cons c rest => rw [scanName, hrest c rfl, Bool.not_false, if_pos rfl]

theorem scanName_braced {name fmt : List UInt8} (rest : List UInt8)
    (hname : name.all isalpha = true) (hfmt : 125 ∉ fmt) :
    scanName [] (name ++ 123 :: (fmt ++ 125 :: rest)) =
      .found name fmt (name.length + fmt.length + 2) := by
  rw [scanName_append name [] _ hname, List.nil_append, scanName, if_neg (by decide), if_pos rfl,
    scanFmt_append fmt name [] rest hfmt, List.nil_append]

/-- The first byte behind the `%` of a directive is no second `%`. -/
theorem head_name_ne {name rest : List UInt8} (hne : name ≠ [])
    (hname : name.all isalpha = true) : (name ++ rest).head? ≠ some 37 := by
  cases name with
  | nil => exact absurd rfl hne
  | cons c name =>
      rw [List.all_cons, Bool.and_eq_true] at hname
      intro h
      exact ne_percent_of_isalpha hname.1 (Option.some.inj h)

theorem cut_char (nstr : List UInt8) {c : UInt8} (rest : List UInt8) (hc : c ≠ 37) :
    cut nstr (c :: rest) = cut (nstr ++ [c]) rest := by
  rw [cut, if_pos hc]

theorem cut_escape (nstr rest : List UInt8) :
    cut nstr (37 :: 37 :: rest) = cut (nstr ++ [37]) rest := by
  rw [cut, if_neg (not_not.mpr rfl), List.head?_cons, if_pos rfl, List.tail_cons]

theorem cut_found (nstr : List UInt8) {rest str fmt : List UInt8} {n : ℕ}
    (hhead : rest.head? ≠ some 37) (hscan : scanName [] rest = .found str fmt n) :
    cut nstr (37 :: rest) =
      (flush nstr ++ .directive str fmt :: (cut [] (rest.drop n)).1,
        (cut [] (rest.drop n)).2) := by
  rw [cut, if_neg (not_not.mpr rfl), if_neg hhead]
  simp only [hscan]

/-- The outer loop finds the tokens, and reports no error of its own. -/
theorem cut_spell : ∀ (ts : List Token) (nstr : List UInt8), WellFormed ts →
    cut nstr (spell ts) = (addText nstr (pieces ts), false)
  | [], nstr, _ => by
      rw [pieces, addText_nil]
      exact cut.eq_1 nstr
  | .char c :: ts, nstr, h => by
      show cut nstr (c :: spell ts) = _
      rw [cut_char nstr _ h.1, cut_spell ts _ h.2, pieces, addText_snoc]
  | .escape :: ts, nstr, h => by
      show cut nstr (37 :: 37 :: spell ts) = _
      rw [cut_escape, cut_spell ts _ h.2, pieces, addText_snoc]
  | .directive name :: ts, nstr, h => by
      obtain ⟨⟨hne, hname, hrest⟩, hts⟩ := h
      show cut nstr (37 :: (name ++ spell ts)) = _
      rw [cut_found nstr (head_name_ne hne hname) (scanName_directive hname hrest),
        List.drop_left, cut_spell ts [] hts, pieces, addText_directive]
      rfl
  | .braced name fmt :: ts, nstr, h => by
      obtain ⟨⟨hne, hname, hfmt⟩, hts⟩ := h
      have hspell : spell (.braced name fmt :: ts) =
          37 :: (name ++ 123 :: (fmt ++ 125 :: spell ts)) := by
        simp [spell, Token.text]
      have hdrop : (name ++ 123 :: (fmt ++ 125 :: spell ts)).drop
          (name.length + fmt.length + 2) = spell ts := by
        have hsplit : name ++ 123 :: (fmt ++ 125 :: spell ts) =
            (name ++ 123 :: (fmt ++ [125])) ++ spell ts := by simp
        rw [hsplit]
        refine List.drop_left' ?_
        simp only [List.length_append, List.length_cons, List.length_nil]
        omega
      rw [hspell, cut_found nstr (head_name_ne hne hname) (scanName_braced _ hname hfmt), hdrop,
        cut_spell ts [] hts, pieces, addText_directive]
      rfl

/-! ## Errors -/

theorem any_isError_addText (s : List UInt8) (ps : List Piece) :
    (addText s ps).any Piece.isError = ps.any Piece.isError := by
  cases s with
  | nil => rw [addText]
  | cons c s =>
      cases ps with
      | nil => rfl
      | cons p ps =>
          cases p with
          | text t => rfl
          | directive str fmt => rfl

theorem unknown_iff_of_name {t : Token} {name : List UInt8} (h : t.name? = some name) :
    t.Unknown ↔ find name = none := by
  constructor
  · rintro ⟨name', hname', hfind⟩
    rw [h] at hname'
    rw [Option.some.inj hname']
    exact hfind
  · intro hfind
    exact ⟨name, h, hfind⟩

theorem not_unknown_of_none {t : Token} (h : t.name? = none) : ¬t.Unknown := by
  rintro ⟨name, hname, -⟩
  rw [h] at hname
  cases hname

theorem any_isError_pieces_iff : ∀ ts : List Token,
    (pieces ts).any Piece.isError = true ↔ ∃ t ∈ ts, t.Unknown
  | [] => by simp [pieces]
  | .char c :: ts => by
      rw [pieces, any_isError_addText, any_isError_pieces_iff ts, List.exists_mem_cons_iff,
        or_iff_right (not_unknown_of_none rfl)]
  | .escape :: ts => by
      rw [pieces, any_isError_addText, any_isError_pieces_iff ts, List.exists_mem_cons_iff,
        or_iff_right (not_unknown_of_none rfl)]
  | .directive name :: ts => by
      rw [pieces, List.any_cons, Bool.or_eq_true, any_isError_pieces_iff ts,
        List.exists_mem_cons_iff, unknown_iff_of_name rfl, Piece.isError,
        Option.isNone_iff_eq_none]
  | .braced name fmt :: ts => by
      rw [pieces, List.any_cons, Bool.or_eq_true, any_isError_pieces_iff ts,
        List.exists_mem_cons_iff, unknown_iff_of_name rfl, Piece.isError,
        Option.isNone_iff_eq_none]

theorem isError_spell_iff {ts : List Token} (h : WellFormed ts) :
    isError (spell ts) = true ↔ ∃ t ∈ ts, t.Unknown := by
  rw [isError, init, cut_spell ts [] h, addText, Bool.false_or]
  exact any_isError_pieces_iff ts

/-- **Patterns.** A pattern that is spelled by tokens gives their items, in order and with
adjacent literals merged, and is an error exactly if one of the names is unknown. -/
theorem init_spell (ts : List Token) (h : WellFormed ts) :
    (init (spell ts)).1 = (pieces ts).map Piece.item ∧
      ((init (spell ts)).2 = true ↔ ∃ t ∈ ts, t.Unknown) := by
  refine ⟨?_, isError_spell_iff h⟩
  rw [init, cut_spell ts [] h, addText]

def mixed : List Token :=
  [.char 91, .directive (bytes "p"), .char 93, .escape, .braced (bytes "d") (bytes "%H"),
    .directive (bytes "m")]

theorem init_spell_mixed : WellFormed mixed ∧ spell mixed = bytes "[%p]%%%d\x7b%H\x7d%m" ∧
    (init (spell mixed)).1 =
      [.string (bytes "["), .directive .level [], .string (bytes "]%"),
        .directive .dateTime (bytes "%H"), .directive .message []] ∧
    (init (spell mixed)).2 ≠ true := by
  have hwf : WellFormed mixed := by
    refine ⟨(by decide : (91 : UInt8) ≠ 37), ⟨by decide, by decide, ?_⟩,
      (by decide : (93 : UInt8) ≠ 37), trivial, ⟨by decide, by decide, by decide⟩,
      ⟨by decide, by decide, ?_⟩, trivial⟩
    · intro c hc
      obtain rfl : 93 = c := Option.some.inj hc
      rfl
    · intro c hc
      cases hc
  obtain ⟨hitems, herror⟩ := init_spell mixed hwf
  refine ⟨hwf, by decide, hitems.trans (by decide), ?_⟩
  rw [Ne, herror, ← any_isError_pieces_iff]
  decide

end LogFormatter

end Log

end Skt
