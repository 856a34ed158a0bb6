import Skt.Lib.Recognize
import Skt.Uri.Model

/-!
# The grammar of URI references

The rules of RFC 3986 as `uri.rl` writes them, with the bytes above ASCII as
further `pchar`s. Three things are not the same in the file and in the RFC: in the
alternative `2 [0-4] digit` of `dec_octet` the `2` is no string but the number of a
byte; a string of the RFC's notation is case-insensitive where one of Ragel is not,
which matters for the `v` of `IPvFuture`; and in front of the `::` of an IPv6 address
the file has `((h16 ":"){n} h16)?`, exactly `n`, where the RFC has
`[ *n( h16 ":" ) h16 ]`, up to `n`.

`uriTable_accepts` says that the automaton accepts what the file's rules derive.
-/

namespace Skt

namespace UriGrammar

open Lib Lib.Ragel Lib.Grammar

/-- Whose reading of the rules. -/
inductive Dialect
  /-- `uri.rl` as Ragel reads it -/
  | source
  /-- RFC 3986 -/
  | rfc
  /-- what the two share: no octets from 200 to 249, no capital `V`, and in front of a
  `::` no groups or as many as there can be -/
  | shared
  /-- as `source`, with the byte `0` for any dotted quad -/
  | hole
  deriving DecidableEq

/-- The byte in front of `[0-4] digit`. -/
def Dialect.two : Dialect → List (ℕ × ℕ)
  | .source => [(2, 2)]
  | .rfc => [(50, 50)]
  | .shared => []
  | .hole => [(2, 2)]

/-- The letter of `IPvFuture`. -/
def Dialect.version : Dialect → List (ℕ × ℕ)
  | .rfc => [(86, 86), (118, 118)]
  | _ => [(118, 118)]

/-- Alternatives with fewer groups than there can be. -/
def Dialect.fewer {N : Type} (d : Dialect) (alternatives : List (List N)) : List (List N) :=
  match d with
  | .rfc => alternatives
  | _ => []

/-- The symbols of the grammar: a byte, the classes, the rules of `uri.rl`, and
symbols for the repetitions and options inside of them. -/
inductive Symbol
  | lit (c : ℕ)
  | alpha | digit | xdigit | nonzero | upTo4 | upTo5 | two | version | nonAscii
  | unreserved | subDelims | pctEncoded
  | schemeByte | schemeTail | scheme
  | userByte | userinfo
  | decOctet | ipv4Address
  | hex1 | hex2 | hex3 | h16 | h16Colon | ls32
  | h16s1 | h16s2 | h16s3 | h16s4 | h16s5 | h16s6 | h16s7 | ipv6Address
  | xdigits | futureByte | futureBytes | ipvFuture | ipLiteral
  | regByte | regName | host | port | userinfoOpt | portOpt | authority
  | pchar | pcharNc | pathSegment | segmentNz | segmentNzNc | slashSegment
  | pathAbempty | pathAbsolute | pathNoscheme | pathRootless
  | queryByte | query | fragment | queryOpt | fragmentOpt
  | hierPart | relativePart | uri | relativeRef | uriReference
  deriving DecidableEq

/-- `n` groups, and what comes behind them. -/
def groups (n : ℕ) (last : Symbol) : List Symbol := List.replicate n .h16Colon ++ [last]

/-- One to `n` groups. -/
def upTo (n : ℕ) : List (List Symbol) := (List.range n).map fun k => groups k .h16

open Skt.UriGrammar.Symbol in
def rule (d : Dialect) : Symbol → Rule Symbol
  | lit c => .byte [(c, c)]
  | alpha => .byte [(65, 90), (97, 122)]
  | digit => .byte [(48, 57)]
  | xdigit => .byte [(48, 57), (65, 70), (97, 102)]
  | nonzero => .byte [(49, 57)]
  | upTo4 => .byte [(48, 52)]
  | upTo5 => .byte [(48, 53)]
  | two => .byte d.two
  | version => .byte d.version
  | nonAscii => .byte [(128, 255)]
  | unreserved => .byte [(45, 46), (48, 57), (65, 90), (95, 95), (97, 122), (126, 126)]
  | subDelims => .byte [(33, 33), (36, 36), (38, 44), (59, 59), (61, 61)]
  | pctEncoded => .oneOf [[lit 37, xdigit, xdigit]]
  | schemeByte => .byte [(43, 43), (45, 46), (48, 57), (65, 90), (97, 122)]
  | schemeTail => .oneOf [[], [schemeByte, schemeTail]]
  | scheme => .oneOf [[alpha, schemeTail]]
  | userByte => .oneOf [[unreserved], [pctEncoded], [subDelims], [lit 58]]
  | userinfo => .oneOf [[], [userByte, userinfo]]
  | decOctet => .oneOf [[digit], [nonzero, digit], [lit 49, digit, digit],
      [two, upTo4, digit], [lit 50, lit 53, upTo5]]
  | ipv4Address =>
      if d = .hole then .byte [(0, 0)]
      else .oneOf [[decOctet, lit 46, decOctet, lit 46, decOctet, lit 46, decOctet]]
  | hex1 => .oneOf [[], [xdigit]]
  | hex2 => .oneOf [[], [xdigit, hex1]]
  | hex3 => .oneOf [[], [xdigit, hex2]]
  | h16 => .oneOf [[xdigit, hex3]]
  | h16Colon => .oneOf [[h16, lit 58]]
  | ls32 => .oneOf [[h16Colon, h16], [ipv4Address]]
  | h16s1 => .oneOf [[], [h16]]
  | h16s2 => .oneOf ([[], groups 1 h16] ++ d.fewer (upTo 1))
  | h16s3 => .oneOf ([[], groups 2 h16] ++ d.fewer (upTo 2))
  | h16s4 => .oneOf ([[], groups 3 h16] ++ d.fewer (upTo 3))
  | h16s5 => .oneOf ([[], groups 4 h16] ++ d.fewer (upTo 4))
  | h16s6 => .oneOf ([[], groups 5 h16] ++ d.fewer (upTo 5))
  | h16s7 => .oneOf ([[], groups 6 h16] ++ d.fewer (upTo 6))
  | ipv6Address => .oneOf
      [groups 6 ls32,
        [lit 58, lit 58] ++ groups 5 ls32,
        [h16s1, lit 58, lit 58] ++ groups 4 ls32,
        [h16s2, lit 58, lit 58] ++ groups 3 ls32,
        [h16s3, lit 58, lit 58] ++ groups 2 ls32,
        [h16s4, lit 58, lit 58, h16Colon, ls32],
        [h16s5, lit 58, lit 58, ls32],
        [h16s6, lit 58, lit 58, h16],
        [h16s7, lit 58, lit 58]]
  | xdigits => .oneOf [[], [xdigit, xdigits]]
  | futureByte => .oneOf [[unreserved], [subDelims], [lit 58]]
  | futureBytes => .oneOf [[], [futureByte, futureBytes]]
  | ipvFuture => .oneOf [[version, xdigit, xdigits, lit 46, futureByte, futureBytes]]
  | ipLiteral => .oneOf [[lit 91, ipv6Address, lit 93], [lit 91, ipvFuture, lit 93]]
  | regByte => .oneOf [[unreserved], [pctEncoded], [subDelims]]
  | regName => .oneOf [[], [regByte, regName]]
  | host => .oneOf [[ipLiteral], [ipv4Address], [regName]]
  | port => .oneOf [[], [digit, port]]
  | userinfoOpt => .oneOf [[], [userinfo, lit 64]]
  | portOpt => .oneOf [[], [lit 58, port]]
  | authority => .oneOf [[userinfoOpt, host, portOpt]]
  | pchar => .oneOf [[nonAscii], [unreserved], [pctEncoded], [subDelims], [lit 58], [lit 64]]
  | pcharNc => .oneOf [[nonAscii], [unreserved], [pctEncoded], [subDelims], [lit 64]]
  | pathSegment => .oneOf [[], [pchar, pathSegment]]
  | segmentNz => .oneOf [[pchar, pathSegment]]
  | segmentNzNc => .oneOf [[pcharNc], [pcharNc, segmentNzNc]]
  | slashSegment => .oneOf [[lit 47, pathSegment]]
  | pathAbempty => .oneOf [[], [slashSegment, pathAbempty]]
  | pathAbsolute => .oneOf [[lit 47], [lit 47, segmentNz, pathAbempty]]
  | pathNoscheme => .oneOf [[segmentNzNc, pathAbempty]]
  | pathRootless => .oneOf [[segmentNz, pathAbempty]]
  | queryByte => .oneOf [[pchar], [lit 47], [lit 63]]
  | query => .oneOf [[], [queryByte, query]]
  | fragment => .oneOf [[], [queryByte, fragment]]
  | queryOpt => .oneOf [[], [lit 63, query]]
  | fragmentOpt => .oneOf [[], [lit 35, fragment]]
  | hierPart => .oneOf [[lit 47, lit 47, authority, pathAbempty], [pathAbsolute],
      [pathRootless], []]
  | relativePart => .oneOf [[lit 47, lit 47, authority, pathAbempty], [pathAbsolute],
      [pathNoscheme], []]
  | uri => .oneOf [[scheme, lit 58, hierPart, queryOpt, fragmentOpt]]
  | relativeRef => .oneOf [[relativePart, queryOpt, fragmentOpt]]
  | uriReference => .oneOf [[uri], [relativeRef]]

/-! ## The automaton and the rules of the file -/

/-- The start state, the state behind `"://"` and what is left to derive in
them. -/
def starts : List (ℕ × List (List Symbol)) :=
  [(451, [[.uriReference]]),
    (511, [[.authority, .pathAbempty, .queryOpt, .fragmentOpt]])]

theorem explore_uriTable :
    explore (rule .source) 400 (index uriTable 0) Uri.final 100000 starts .empty = true := by
  decide +kernel

/-- **The automaton accepts what the rules of `uri.rl` derive.** -/
theorem uriTable_accepts (w : List UInt8) :
    uriTable.accepts Uri.final 451 w = true ↔ Derives (rule .source) [.uriReference] w :=
  accepts_iff_derives explore_uriTable List.mem_cons_self w

theorem uriTable_accepts_authority (w : List UInt8) :
    uriTable.accepts Uri.final 511 w = true ↔
      Derives (rule .source) [.authority, .pathAbempty, .queryOpt, .fragmentOpt] w :=
  accepts_iff_derives explore_uriTable (List.mem_cons_of_mem _ List.mem_cons_self) w

end UriGrammar

end Skt
