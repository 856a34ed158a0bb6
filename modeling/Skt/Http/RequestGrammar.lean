import Skt.Http.RequestTable
import Skt.Lib.Recognize
import Skt.Lib.Follow

/-!
# The grammar of the request target

The rules of `http11_parser.rl` for what stands between the method and the
version, as Ragel reads them: a number in front of a bracket is not a repetition
but a byte, and a minus between two strings is not a range but a difference. A
`relative_part`, a `query` and a `fragment` are what the automaton takes from
the states `3`, `29` and `20` on.
-/

namespace Skt

namespace RequestGrammar

open Lib Lib.Ragel Lib.Grammar Http

/-- The symbols of the grammar: a byte, the classes, the rules of the file, and
symbols for the repetitions and options inside of them. -/
inductive Symbol
  | lit (c : ℕ)
  | alpha | digit | xdigit | nonAscii | unreserved | subDelims | pctEncoded
  | userByte | userinfo
  | decOctet | ipv4Address
  | hex1 | hex2 | hex3 | h16 | h16Colon | ls32 | h16s
  | h16s1 | h16s2 | h16s3 | h16s4 | h16s5 | h16s6 | h16s7 | ipv6Address
  | xdigits | futureByte | futureBytes | ipvFuture | ipLiteral
  | regByte | regName | host | port | userinfoOpt | portOpt | authority
  | pchar | pcharNc | pathSegment | segmentNz | segmentNzNc | slashSegment
  | pathAbempty | pathAbsolute | pathNoscheme | pathRootless | path
  | queryByte | query | fragment
  | hierPart | relativePart
  deriving DecidableEq

/-- `more_delims` are delimiters when `parser->uri_relaxed`. -/
def delims (relaxed : Bool) : List (ℕ × ℕ) :=
  [(33, 33), (36, 36), (38, 44), (59, 59), (61, 61)] ++
    if relaxed then [(94, 94), (123, 123), (125, 125)] else []

open Skt.RequestGrammar.Symbol in
def rule (relaxed : Bool) : Symbol → Rule Symbol
  | lit c => .byte [(c, c)]
  | alpha => .byte [(65, 90), (97, 122)]
  | digit => .byte [(48, 57)]
  | xdigit => .byte [(48, 57), (65, 70), (97, 102)]
  | nonAscii => .byte [(128, 255)]
  | unreserved => .byte [(45, 46), (48, 57), (65, 90), (95, 95), (97, 122), (126, 126)]
  | subDelims => .byte (delims relaxed)
  | pctEncoded => .oneOf [[lit 37, xdigit, xdigit]]
  | userByte => .oneOf [[unreserved], [pctEncoded], [subDelims], [lit 58]]
  | userinfo => .oneOf [[], [userByte, userinfo]]
  -- `("1"-"9")`, `("0"-"4")` and `("0"-"5")` are differences.
  | decOctet => .oneOf [[digit], [lit 49, digit], [lit 49, digit, digit],
      [lit 50, lit 48, digit], [lit 50, lit 53, lit 48]]
  | ipv4Address =>
      .oneOf [[decOctet, lit 46, decOctet, lit 46, decOctet, lit 46, decOctet]]
  | hex1 => .oneOf [[], [xdigit]]
  | hex2 => .oneOf [[], [xdigit, hex1]]
  | hex3 => .oneOf [[], [xdigit, hex2]]
  | h16 => .oneOf [[xdigit, hex3]]
  | h16Colon => .oneOf [[h16, lit 58]]
  | ls32 => .oneOf [[h16Colon, h16], [ipv4Address]]
  | h16s => .oneOf [[h16], [h16Colon, h16s]]
  | h16s1 => .oneOf [[], [h16]]
  | h16s2 => .oneOf [[], [h16Colon, h16s]]
  | h16s3 => .oneOf [[], [h16Colon, h16Colon, h16s]]
  | h16s4 => .oneOf [[], [h16Colon, h16Colon, h16Colon, h16s]]
  | h16s5 => .oneOf [[], [h16Colon, h16Colon, h16Colon, h16Colon, h16s]]
  | h16s6 => .oneOf [[], [h16Colon, h16Colon, h16Colon, h16Colon, h16Colon, h16s]]
  | h16s7 =>
      .oneOf [[], [h16Colon, h16Colon, h16Colon, h16Colon, h16Colon, h16Colon, h16s]]
  -- The `6` of `6( h16 ":" )` is the byte with this number.
  | ipv6Address => .oneOf
      [[lit 6, h16Colon, ls32],
        [lit 58, lit 58, lit 5, h16Colon, ls32],
        [h16s1, lit 58, lit 58, lit 4, h16Colon, ls32],
        [h16s2, lit 58, lit 58, lit 3, h16Colon, ls32],
        [h16s3, lit 58, lit 58, lit 2, h16Colon, ls32],
        [h16s4, lit 58, lit 58, h16Colon, ls32],
        [h16s5, lit 58, lit 58, ls32],
        [h16s6, lit 58, lit 58, h16],
        [h16s7, lit 58, lit 58]]
  | xdigits => .oneOf [[], [xdigit, xdigits]]
  | futureByte => .oneOf [[unreserved], [subDelims], [lit 58]]
  | futureBytes => .oneOf [[], [futureByte, futureBytes]]
  | ipvFuture => .oneOf [[lit 118, xdigit, xdigits, lit 46, futureByte, futureBytes]]
  | ipLiteral => .oneOf [[lit 91, ipv6Address, lit 93], [lit 91, ipvFuture, lit 93]]
  | regByte => .oneOf [[unreserved], [pctEncoded], [subDelims]]
  | regName => .oneOf [[], [regByte, regName]]
  | host => .oneOf [[ipLiteral], [ipv4Address], [regName]]
  | port => .oneOf [[], [digit, port]]
  | userinfoOpt => .oneOf [[], [userinfo, lit 64]]
  | portOpt => .oneOf [[], [lit 58, port]]
  | authority => .oneOf [[userinfoOpt, host, portOpt]]
  | pchar => .oneOf [[nonAscii], [unreserved], [pctEncoded], [subDelims], [lit 58], [lit 64]]
  | pcharNc => .oneOf [[unreserved], [pctEncoded], [subDelims], [lit 64]]
  | pathSegment => .oneOf [[], [pchar, pathSegment]]
  | segmentNz => .oneOf [[pchar, pathSegment]]
  | segmentNzNc => .oneOf [[pcharNc], [pcharNc, segmentNzNc]]
  | slashSegment => .oneOf [[lit 47, pathSegment]]
  | pathAbempty => .oneOf [[], [slashSegment, pathAbempty]]
  | pathAbsolute => .oneOf [[lit 47], [lit 47, segmentNz, pathAbempty]]
  | pathNoscheme => .oneOf [[segmentNzNc, pathAbempty]]
  | pathRootless => .oneOf [[segmentNz, pathAbempty]]
  | path => .oneOf [[pathAbempty], [pathAbsolute], [pathNoscheme], [pathRootless], []]
  | queryByte => .oneOf [[pchar], [lit 47], [lit 63]]
  | query => .oneOf [[], [queryByte, query]]
  | fragment => .oneOf [[], [queryByte, fragment]]
  | hierPart => .oneOf [[lit 47, lit 47, authority, pathAbempty], [pathAbsolute],
      [pathRootless], []]
  | relativePart => .oneOf [[lit 47, lit 47, authority, pathAbempty], [pathAbsolute],
      [pathNoscheme], []]

/-! ## The automaton and these rules -/

/-- The rows that end a part of the target, and the one behind a scheme. -/
def ends (r : Row RequestAction) : Bool :=
  r.acts.contains .requestPath || r.acts.contains .queryString || r.acts.contains .fragment ||
    decide (r.target = 174)

/-- The automaton inside of a part. -/
def partTable (relaxed : Bool) : Table RequestAction :=
  (requestTable.under relaxed).map fun rows => rows.filter fun r => !ends r

/-- The states in which a part can end. -/
def partFinal (q : ℕ) : Bool :=
  [3, 19, 20, 21, 26, 29, 30, 33, 34, 35, 38, 42, 43, 46, 61, 173].contains q

def starts : List (ℕ × List (List Symbol)) :=
  [(3, [[.relativePart]]), (29, [[.query]]), (20, [[.fragment]])]

theorem explore_partTable : ∀ relaxed : Bool,
    explore (rule relaxed) 400 (index (partTable relaxed) 0) partFinal 100000 starts .empty =
      true := by
  intro relaxed
  cases relaxed <;> decide +kernel

end RequestGrammar

end Skt
