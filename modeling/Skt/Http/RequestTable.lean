import Skt.Lib.Ragel

/-!
# The request automaton

The transitions of the scanner generated from `http11_parser.rl`, read off
`http11_parser.rl.cpp` state by state: start state `1`, error state `0`, first
final state `348`. The generated code compares signed characters; a range here
is a range of bytes. Rows of one state are disjoint.
-/

namespace Skt

namespace Http

open Lib.Ragel

/-- The actions of `http11_parser.rl`; `start_value` is the same code as
`mark`. -/
inductive RequestAction
  | mark
  | startField
  | writeField
  | writeValue
  | requestMethod
  | requestUri
  | fragment
  | startQuery
  | queryString
  | httpVersion
  | requestPath
  | xml
  | json
  | done
  deriving DecidableEq, Repr

namespace RequestTable

/-- A row of `more_delims`, which is there when `parser->uri_relaxed`. -/
def rowWhen (on : List (ℕ × ℕ)) (target : ℕ) (acts : List RequestAction := []) :
    Row RequestAction :=
  ⟨on, true, acts, target⟩

/-! ## Classes that occur often -/

def digit : List (ℕ × ℕ) :=
  [(48, 57)]

def xdigit : List (ℕ × ℕ) :=
  [(48, 57), (65, 70), (97, 102)]

def hexAlpha : List (ℕ × ℕ) :=
  [(65, 70), (97, 102)]

def moreDelims : List (ℕ × ℕ) :=
  [(94, 94), (123, 123), (125, 125)]

def methodChar : List (ℕ × ℕ) :=
  [(48, 57), (65, 90)]

def regName : List (ℕ × ℕ) :=
  [(33, 33), (36, 36), (38, 46), (48, 57), (59, 59), (61, 61), (65, 90),
    (95, 95), (97, 122), (126, 126)]

def userinfo : List (ℕ × ℕ) :=
  [(33, 33), (36, 36), (38, 46), (48, 59), (61, 61), (65, 90), (95, 95),
    (97, 122), (126, 126)]

def queryChar : List (ℕ × ℕ) :=
  [(33, 33), (36, 36), (38, 59), (61, 61), (63, 90), (95, 95), (97, 122),
    (126, 126), (128, 255)]

def pchar : List (ℕ × ℕ) :=
  [(33, 33), (36, 36), (38, 46), (48, 59), (61, 61), (64, 90), (95, 95),
    (97, 122), (126, 126), (128, 255)]

/-! ## The states -/

def states1 : Table RequestAction := [
  /- 1 -/ [row methodChar 2 [.mark], one 60 194 [.mark], one 64 198 [.mark]],
  /- 2 -/ [one 32 3 [.requestMethod], row methodChar 175],
  /- 3 -/ [one 32 4 [.mark, .requestPath, .requestUri],
    row [(33, 33), (36, 36), (38, 46), (48, 57), (59, 59), (61, 61), (64, 64), (95, 95),
      (126, 126)] 19 [.mark], one 35 20 [.mark, .requestPath, .requestUri],
    one 37 24 [.mark], one 47 33 [.mark], one 63 29 [.mark, .requestPath],
    row [(65, 90), (97, 122)] 173 [.mark], rowWhen moreDelims 19 [.mark]],
  /- 4 -/ [one 72 5 [.mark]],
  /- 5 -/ [one 84 6],
  /- 6 -/ [one 84 7],
  /- 7 -/ [one 80 8],
  /- 8 -/ [one 47 9],
  /- 9 -/ [one 49 10],
  /- 10 -/ [one 46 11],
  /- 11 -/ [row [(48, 49)] 12],
  /- 12 -/ [one 10 13 [.httpVersion], one 13 17 [.httpVersion]],
  /- 13 -/ [row [(1, 8), (11, 12), (14, 31), (33, 33), (35, 39), (42, 43), (45, 46),
      (48, 57), (65, 90), (94, 122), (124, 124), (126, 126)] 14 [.startField],
    one 10 348 [.startField, .done], one 13 18 [.startField]],
  /- 14 -/ [row [(1, 8), (10, 31), (33, 33), (35, 39), (42, 43), (45, 46), (48, 57),
      (65, 90), (94, 122), (124, 124), (126, 126)] 14, one 58 15 [.writeField]],
  /- 15 -/ [row [(1, 8), (11, 12), (14, 31), (33, 126), (128, 255)] 16 [.mark],
    row [(9, 9), (32, 32)] 15 [.mark], one 10 13 [.mark, .writeValue],
    one 13 17 [.mark, .writeValue]],
  /- 16 -/ [row [(1, 9), (11, 12), (14, 126), (128, 255)] 16, one 10 13 [.writeValue],
    one 13 17 [.writeValue]],
  /- 17 -/ [one 10 13],
  /- 18 -/ [row [(1, 8), (11, 31), (33, 33), (35, 39), (42, 43), (45, 46), (48, 57),
      (65, 90), (94, 122), (124, 124), (126, 126)] 14, one 10 348 [.done],
    one 58 15 [.writeField]],
  /- 19 -/ [one 32 4 [.requestPath, .requestUri],
    row [(33, 33), (36, 36), (38, 46), (48, 57), (59, 59), (61, 61), (64, 90), (95, 95),
      (97, 122), (126, 126)] 19, one 35 20 [.requestPath, .requestUri], one 37 24,
    one 47 26, one 63 29 [.requestPath], rowWhen moreDelims 19],
  /- 20 -/ [one 32 4 [.mark, .fragment], row queryChar 21 [.mark], one 37 22 [.mark],
    rowWhen moreDelims 21 [.mark]],
  /- 21 -/ [one 32 4 [.fragment], row queryChar 21, one 37 22, rowWhen moreDelims 21],
  /- 22 -/ [row xdigit 23],
  /- 23 -/ [row xdigit 21],
  /- 24 -/ [row xdigit 25],
  /- 25 -/ [row xdigit 19],
  /- 26 -/ [one 32 4 [.requestPath, .requestUri],
    row [(33, 33), (36, 36), (38, 59), (61, 61), (64, 90), (95, 95), (97, 122), (126, 126),
      (128, 255)] 26, one 35 20 [.requestPath, .requestUri], one 37 27,
    one 63 29 [.requestPath], rowWhen moreDelims 26],
  /- 27 -/ [row xdigit 28],
  /- 28 -/ [row xdigit 26],
  /- 29 -/ [one 32 4 [.startQuery, .queryString, .requestUri],
    row queryChar 30 [.startQuery], one 35 20 [.startQuery, .queryString, .requestUri],
    one 37 31 [.startQuery], rowWhen moreDelims 30 [.startQuery]],
  /- 30 -/ [one 32 4 [.queryString, .requestUri], row queryChar 30,
    one 35 20 [.queryString, .requestUri], one 37 31, rowWhen moreDelims 30]]

def states31 : Table RequestAction := [
  /- 31 -/ [row xdigit 32],
  /- 32 -/ [row xdigit 30],
  /- 33 -/ [one 32 4 [.requestPath, .requestUri], row pchar 26,
    one 35 20 [.requestPath, .requestUri], one 37 27, one 47 34, one 63 29 [.requestPath],
    rowWhen moreDelims 26],
  /- 34 -/ [one 32 4 [.requestPath, .requestUri], row regName 35,
    one 35 20 [.requestPath, .requestUri], one 37 36, one 47 26, one 58 38,
    one 63 29 [.requestPath], one 64 42, one 91 47, rowWhen moreDelims 35],
  /- 35 -/ [one 32 4 [.requestPath, .requestUri], row regName 35,
    one 35 20 [.requestPath, .requestUri], one 37 36, one 47 26, one 58 38,
    one 63 29 [.requestPath], one 64 42, rowWhen moreDelims 35],
  /- 36 -/ [row xdigit 37],
  /- 37 -/ [row xdigit 35],
  /- 38 -/ [one 32 4 [.requestPath, .requestUri],
    row [(33, 33), (36, 36), (38, 46), (58, 59), (61, 61), (65, 90), (95, 95), (97, 122),
      (126, 126)] 39, one 35 20 [.requestPath, .requestUri], one 37 40, one 47 26,
    row digit 38, one 63 29 [.requestPath], one 64 42, rowWhen moreDelims 39],
  /- 39 -/ [row userinfo 39, one 37 40, one 64 42, rowWhen moreDelims 39],
  /- 40 -/ [row xdigit 41],
  /- 41 -/ [row xdigit 39],
  /- 42 -/ [one 32 4 [.requestPath, .requestUri], row regName 43,
    one 35 20 [.requestPath, .requestUri], one 37 44, one 47 26, one 58 46,
    one 63 29 [.requestPath], one 91 47, rowWhen moreDelims 43],
  /- 43 -/ [one 32 4 [.requestPath, .requestUri], row regName 43,
    one 35 20 [.requestPath, .requestUri], one 37 44, one 47 26, one 58 46,
    one 63 29 [.requestPath], rowWhen moreDelims 43],
  /- 44 -/ [row xdigit 45],
  /- 45 -/ [row xdigit 43],
  /- 46 -/ [one 32 4 [.requestPath, .requestUri], one 35 20 [.requestPath, .requestUri],
    one 47 26, row digit 46, one 63 29 [.requestPath]],
  /- 47 -/ [one 6 48, row xdigit 91, one 58 167, one 118 169],
  /- 48 -/ [row xdigit 49],
  /- 49 -/ [row xdigit 50, one 58 53],
  /- 50 -/ [row xdigit 51, one 58 53],
  /- 51 -/ [row xdigit 52, one 58 53],
  /- 52 -/ [one 58 53],
  /- 53 -/ [row [(48, 48), (51, 57)] 54, one 49 84, one 50 87, row hexAlpha 90],
  /- 54 -/ [one 46 55, row xdigit 77, one 58 80],
  /- 55 -/ [row [(48, 48), (51, 57)] 56, one 49 72, one 50 74],
  /- 56 -/ [one 46 57],
  /- 57 -/ [row [(48, 48), (51, 57)] 58, one 49 67, one 50 69],
  /- 58 -/ [one 46 59],
  /- 59 -/ [row [(48, 48), (51, 57)] 60, one 49 62, one 50 64],
  /- 60 -/ [one 93 61]]

def states61 : Table RequestAction := [
  /- 61 -/ [one 32 4 [.requestPath, .requestUri], one 35 20 [.requestPath, .requestUri],
    one 47 26, one 58 46, one 63 29 [.requestPath]],
  /- 62 -/ [row digit 63, one 93 61],
  /- 63 -/ [row digit 60, one 93 61],
  /- 64 -/ [one 48 65, one 53 66, one 93 61],
  /- 65 -/ [row digit 60],
  /- 66 -/ [one 48 60],
  /- 67 -/ [one 46 59, row digit 68],
  /- 68 -/ [one 46 59, row digit 58],
  /- 69 -/ [one 46 59, one 48 70, one 53 71],
  /- 70 -/ [row digit 58],
  /- 71 -/ [one 48 58],
  /- 72 -/ [one 46 57, row digit 73],
  /- 73 -/ [one 46 57, row digit 56],
  /- 74 -/ [one 46 57, one 48 75, one 53 76],
  /- 75 -/ [row digit 56],
  /- 76 -/ [one 48 56],
  /- 77 -/ [row xdigit 78, one 58 80],
  /- 78 -/ [row xdigit 79, one 58 80],
  /- 79 -/ [one 58 80],
  /- 80 -/ [row xdigit 81],
  /- 81 -/ [row xdigit 82, one 93 61],
  /- 82 -/ [row xdigit 83, one 93 61],
  /- 83 -/ [row xdigit 60, one 93 61],
  /- 84 -/ [one 46 55, row digit 85, one 58 80, row hexAlpha 77],
  /- 85 -/ [one 46 55, row digit 86, one 58 80, row hexAlpha 78],
  /- 86 -/ [one 46 55, row xdigit 79, one 58 80],
  /- 87 -/ [one 46 55, one 48 88, row [(49, 52), (54, 57), (65, 70), (97, 102)] 77,
    one 53 89, one 58 80],
  /- 88 -/ [row digit 86, one 58 80, row hexAlpha 78],
  /- 89 -/ [one 48 86, row [(49, 57), (65, 70), (97, 102)] 78, one 58 80],
  /- 90 -/ [row xdigit 77, one 58 80]]

def states91 : Table RequestAction := [
  /- 91 -/ [row xdigit 92, one 58 95],
  /- 92 -/ [row xdigit 93, one 58 95],
  /- 93 -/ [row xdigit 94, one 58 95],
  /- 94 -/ [one 58 95],
  /- 95 -/ [row xdigit 96, one 58 166],
  /- 96 -/ [row xdigit 97, one 58 100],
  /- 97 -/ [row xdigit 98, one 58 100],
  /- 98 -/ [row xdigit 99, one 58 100],
  /- 99 -/ [one 58 100],
  /- 100 -/ [row xdigit 101, one 58 165],
  /- 101 -/ [row xdigit 102, one 58 105],
  /- 102 -/ [row xdigit 103, one 58 105],
  /- 103 -/ [row xdigit 104, one 58 105],
  /- 104 -/ [one 58 105],
  /- 105 -/ [row xdigit 106, one 58 164],
  /- 106 -/ [row xdigit 107, one 58 110],
  /- 107 -/ [row xdigit 108, one 58 110],
  /- 108 -/ [row xdigit 109, one 58 110],
  /- 109 -/ [one 58 110],
  /- 110 -/ [row xdigit 111, one 58 163],
  /- 111 -/ [row xdigit 112, one 58 115],
  /- 112 -/ [row xdigit 113, one 58 115],
  /- 113 -/ [row xdigit 114, one 58 115],
  /- 114 -/ [one 58 115],
  /- 115 -/ [row xdigit 116, one 58 151],
  /- 116 -/ [row xdigit 117, one 58 120],
  /- 117 -/ [row xdigit 118, one 58 120],
  /- 118 -/ [row xdigit 119, one 58 120],
  /- 119 -/ [one 58 120],
  /- 120 -/ [row xdigit 121, one 58 150]]

def states121 : Table RequestAction := [
  /- 121 -/ [row xdigit 122, one 58 125],
  /- 122 -/ [row xdigit 123, one 58 125],
  /- 123 -/ [row xdigit 124, one 58 125],
  /- 124 -/ [one 58 125],
  /- 125 -/ [row xdigit 121, one 58 126],
  /- 126 -/ [row [(2, 3)] 48, row [(48, 48), (51, 57)] 127, one 49 143, one 50 146,
    row hexAlpha 149, one 93 61],
  /- 127 -/ [one 46 55, row xdigit 128, one 58 131, one 93 61],
  /- 128 -/ [row xdigit 129, one 58 131, one 93 61],
  /- 129 -/ [row xdigit 130, one 58 131, one 93 61],
  /- 130 -/ [one 58 131, one 93 61],
  /- 131 -/ [row [(48, 48), (51, 57)] 132, one 49 136, one 50 139, row hexAlpha 142],
  /- 132 -/ [one 46 55, row xdigit 133, one 58 80, one 93 61],
  /- 133 -/ [row xdigit 134, one 58 80, one 93 61],
  /- 134 -/ [row xdigit 135, one 58 80, one 93 61],
  /- 135 -/ [one 58 80, one 93 61],
  /- 136 -/ [one 46 55, row digit 137, one 58 80, row hexAlpha 133, one 93 61],
  /- 137 -/ [one 46 55, row digit 138, one 58 80, row hexAlpha 134, one 93 61],
  /- 138 -/ [one 46 55, row xdigit 135, one 58 80, one 93 61],
  /- 139 -/ [one 46 55, one 48 140, row [(49, 52), (54, 57), (65, 70), (97, 102)] 133,
    one 53 141, one 58 80, one 93 61],
  /- 140 -/ [row digit 138, one 58 80, row hexAlpha 134, one 93 61],
  /- 141 -/ [one 48 138, row [(49, 57), (65, 70), (97, 102)] 134, one 58 80, one 93 61],
  /- 142 -/ [row xdigit 133, one 58 80, one 93 61],
  /- 143 -/ [one 46 55, row digit 144, one 58 131, row hexAlpha 128, one 93 61],
  /- 144 -/ [one 46 55, row digit 145, one 58 131, row hexAlpha 129, one 93 61],
  /- 145 -/ [one 46 55, row xdigit 130, one 58 131, one 93 61],
  /- 146 -/ [one 46 55, one 48 147, row [(49, 52), (54, 57), (65, 70), (97, 102)] 128,
    one 53 148, one 58 131, one 93 61],
  /- 147 -/ [row digit 145, one 58 131, row hexAlpha 129, one 93 61],
  /- 148 -/ [one 48 145, row [(49, 57), (65, 70), (97, 102)] 129, one 58 131, one 93 61],
  /- 149 -/ [row xdigit 128, one 58 131, one 93 61],
  /- 150 -/ [row [(2, 3)] 48, row [(48, 48), (51, 57)] 127, one 49 143, one 50 146,
    row hexAlpha 149]]

def states151 : Table RequestAction := [
  /- 151 -/ [row [(2, 3)] 48, row [(48, 48), (51, 57)] 152, one 49 156, one 50 159,
    row hexAlpha 162],
  /- 152 -/ [one 46 55, row xdigit 153, one 58 131],
  /- 153 -/ [row xdigit 154, one 58 131],
  /- 154 -/ [row xdigit 155, one 58 131],
  /- 155 -/ [one 58 131],
  /- 156 -/ [one 46 55, row digit 157, one 58 131, row hexAlpha 153],
  /- 157 -/ [one 46 55, row digit 158, one 58 131, row hexAlpha 154],
  /- 158 -/ [one 46 55, row xdigit 155, one 58 131],
  /- 159 -/ [one 46 55, one 48 160, row [(49, 52), (54, 57), (65, 70), (97, 102)] 153,
    one 53 161, one 58 131],
  /- 160 -/ [row digit 158, one 58 131, row hexAlpha 154],
  /- 161 -/ [one 48 158, row [(49, 57), (65, 70), (97, 102)] 154, one 58 131],
  /- 162 -/ [row xdigit 153, one 58 131],
  /- 163 -/ [row [(2, 3)] 48, row xdigit 49],
  /- 164 -/ [row [(2, 3)] 48],
  /- 165 -/ [one 3 48],
  /- 166 -/ [one 4 48],
  /- 167 -/ [one 58 168],
  /- 168 -/ [row [(2, 5)] 48, row [(48, 48), (51, 57)] 127, one 49 143, one 50 146,
    row hexAlpha 149, one 93 61],
  /- 169 -/ [row xdigit 170],
  /- 170 -/ [one 46 171, row xdigit 170],
  /- 171 -/ [row userinfo 172, rowWhen moreDelims 172],
  /- 172 -/ [row userinfo 172, one 93 61, rowWhen moreDelims 172],
  /- 173 -/ [one 32 4 [.requestPath, .requestUri],
    row [(33, 33), (36, 36), (38, 42), (44, 44), (59, 59), (61, 61), (64, 64), (95, 95),
      (126, 126)] 19, one 35 20 [.requestPath, .requestUri], one 37 24,
    row [(43, 43), (45, 46), (48, 57), (65, 90), (97, 122)] 173, one 47 26, one 58 174,
    one 63 29 [.requestPath], rowWhen moreDelims 19],
  /- 174 -/ [one 32 4 [.mark, .requestPath, .requestUri], row pchar 26 [.mark],
    one 35 20 [.mark, .requestPath, .requestUri], one 37 27 [.mark], one 47 33 [.mark],
    one 63 29 [.mark, .requestPath], rowWhen moreDelims 26 [.mark]],
  /- 175 -/ [one 32 3 [.requestMethod], row methodChar 176],
  /- 176 -/ [one 32 3 [.requestMethod], row methodChar 177],
  /- 177 -/ [one 32 3 [.requestMethod], row methodChar 178],
  /- 178 -/ [one 32 3 [.requestMethod], row methodChar 179],
  /- 179 -/ [one 32 3 [.requestMethod], row methodChar 180],
  /- 180 -/ [one 32 3 [.requestMethod], row methodChar 181]]

def states181 : Table RequestAction := [
  /- 181 -/ [one 32 3 [.requestMethod], row methodChar 182],
  /- 182 -/ [one 32 3 [.requestMethod], row methodChar 183],
  /- 183 -/ [one 32 3 [.requestMethod], row methodChar 184],
  /- 184 -/ [one 32 3 [.requestMethod], row methodChar 185],
  /- 185 -/ [one 32 3 [.requestMethod], row methodChar 186],
  /- 186 -/ [one 32 3 [.requestMethod], row methodChar 187],
  /- 187 -/ [one 32 3 [.requestMethod], row methodChar 188],
  /- 188 -/ [one 32 3 [.requestMethod], row methodChar 189],
  /- 189 -/ [one 32 3 [.requestMethod], row methodChar 190],
  /- 190 -/ [one 32 3 [.requestMethod], row methodChar 191],
  /- 191 -/ [one 32 3 [.requestMethod], row methodChar 192],
  /- 192 -/ [one 32 3 [.requestMethod], row methodChar 193],
  /- 193 -/ [one 32 3 [.requestMethod]],
  /- 194 -/ [row [(45, 46), (48, 57), (65, 90), (97, 122)] 195],
  /- 195 -/ [row [(9, 13), (32, 32), (47, 47), (62, 62)] 196 [.requestPath],
    row [(45, 46), (48, 57), (65, 90), (97, 122)] 195],
  /- 196 -/ [row [(0, 61), (63, 255)] 196, one 62 197],
  /- 197 -/ [one 0 349 [.xml, .done], row [(1, 61), (63, 255)] 196, one 62 197],
  /- 198 -/ [one 32 199 [.requestPath],
    row [(33, 33), (36, 36), (38, 46), (48, 57), (59, 59), (61, 61), (64, 90), (95, 95),
      (97, 122), (126, 126)] 202, one 37 203, one 47 208, rowWhen moreDelims 202],
  /- 199 -/ [one 123 200 [.mark]],
  /- 200 -/ [row [(0, 124), (126, 255)] 200, one 125 201],
  /- 201 -/ [one 0 349 [.json, .done], row [(1, 124), (126, 255)] 200, one 125 201],
  /- 202 -/ [one 32 199 [.requestPath],
    row [(33, 33), (36, 36), (38, 46), (48, 57), (59, 59), (61, 61), (64, 90), (95, 95),
      (97, 122), (126, 126)] 202, one 37 203, one 47 205, rowWhen moreDelims 202],
  /- 203 -/ [row xdigit 204],
  /- 204 -/ [row xdigit 202],
  /- 205 -/ [one 32 199 [.requestPath],
    row [(33, 33), (36, 36), (38, 59), (61, 61), (64, 90), (95, 95), (97, 122), (126, 126),
      (128, 255)] 205, one 37 206, rowWhen moreDelims 205],
  /- 206 -/ [row xdigit 207],
  /- 207 -/ [row xdigit 205],
  /- 208 -/ [one 32 199 [.requestPath], row pchar 205, one 37 206, one 47 209,
    rowWhen moreDelims 205],
  /- 209 -/ [one 32 199 [.requestPath], row regName 210, one 37 211, one 47 205, one 58 213,
    one 64 217, one 91 222, rowWhen moreDelims 210],
  /- 210 -/ [one 32 199 [.requestPath], row regName 210, one 37 211, one 47 205, one 58 213,
    one 64 217, rowWhen moreDelims 210]]

def states211 : Table RequestAction := [
  /- 211 -/ [row xdigit 212],
  /- 212 -/ [row xdigit 210],
  /- 213 -/ [one 32 199 [.requestPath],
    row [(33, 33), (36, 36), (38, 46), (58, 59), (61, 61), (65, 90), (95, 95), (97, 122),
      (126, 126)] 214, one 37 215, one 47 205, row digit 213, one 64 217,
    rowWhen moreDelims 214],
  /- 214 -/ [row userinfo 214, one 37 215, one 64 217, rowWhen moreDelims 214],
  /- 215 -/ [row xdigit 216],
  /- 216 -/ [row xdigit 214],
  /- 217 -/ [one 32 199 [.requestPath], row regName 218, one 37 219, one 47 205, one 58 221,
    one 91 222, rowWhen moreDelims 218],
  /- 218 -/ [one 32 199 [.requestPath], row regName 218, one 37 219, one 47 205, one 58 221,
    rowWhen moreDelims 218],
  /- 219 -/ [row xdigit 220],
  /- 220 -/ [row xdigit 218],
  /- 221 -/ [one 32 199 [.requestPath], one 47 205, row digit 221],
  /- 222 -/ [one 6 223, row xdigit 266, one 58 342, one 118 344],
  /- 223 -/ [row xdigit 224],
  /- 224 -/ [row xdigit 225, one 58 228],
  /- 225 -/ [row xdigit 226, one 58 228],
  /- 226 -/ [row xdigit 227, one 58 228],
  /- 227 -/ [one 58 228],
  /- 228 -/ [row [(48, 48), (51, 57)] 229, one 49 259, one 50 262, row hexAlpha 265],
  /- 229 -/ [one 46 230, row xdigit 252, one 58 255],
  /- 230 -/ [row [(48, 48), (51, 57)] 231, one 49 247, one 50 249],
  /- 231 -/ [one 46 232],
  /- 232 -/ [row [(48, 48), (51, 57)] 233, one 49 242, one 50 244],
  /- 233 -/ [one 46 234],
  /- 234 -/ [row [(48, 48), (51, 57)] 235, one 49 237, one 50 239],
  /- 235 -/ [one 93 236],
  /- 236 -/ [one 32 199 [.requestPath], one 47 205, one 58 221],
  /- 237 -/ [row digit 238, one 93 236],
  /- 238 -/ [row digit 235, one 93 236],
  /- 239 -/ [one 48 240, one 53 241, one 93 236],
  /- 240 -/ [row digit 235]]

def states241 : Table RequestAction := [
  /- 241 -/ [one 48 235],
  /- 242 -/ [one 46 234, row digit 243],
  /- 243 -/ [one 46 234, row digit 233],
  /- 244 -/ [one 46 234, one 48 245, one 53 246],
  /- 245 -/ [row digit 233],
  /- 246 -/ [one 48 233],
  /- 247 -/ [one 46 232, row digit 248],
  /- 248 -/ [one 46 232, row digit 231],
  /- 249 -/ [one 46 232, one 48 250, one 53 251],
  /- 250 -/ [row digit 231],
  /- 251 -/ [one 48 231],
  /- 252 -/ [row xdigit 253, one 58 255],
  /- 253 -/ [row xdigit 254, one 58 255],
  /- 254 -/ [one 58 255],
  /- 255 -/ [row xdigit 256],
  /- 256 -/ [row xdigit 257, one 93 236],
  /- 257 -/ [row xdigit 258, one 93 236],
  /- 258 -/ [row xdigit 235, one 93 236],
  /- 259 -/ [one 46 230, row digit 260, one 58 255, row hexAlpha 252],
  /- 260 -/ [one 46 230, row digit 261, one 58 255, row hexAlpha 253],
  /- 261 -/ [one 46 230, row xdigit 254, one 58 255],
  /- 262 -/ [one 46 230, one 48 263, row [(49, 52), (54, 57), (65, 70), (97, 102)] 252,
    one 53 264, one 58 255],
  /- 263 -/ [row digit 261, one 58 255, row hexAlpha 253],
  /- 264 -/ [one 48 261, row [(49, 57), (65, 70), (97, 102)] 253, one 58 255],
  /- 265 -/ [row xdigit 252, one 58 255],
  /- 266 -/ [row xdigit 267, one 58 270],
  /- 267 -/ [row xdigit 268, one 58 270],
  /- 268 -/ [row xdigit 269, one 58 270],
  /- 269 -/ [one 58 270],
  /- 270 -/ [row xdigit 271, one 58 341]]

def states271 : Table RequestAction := [
  /- 271 -/ [row xdigit 272, one 58 275],
  /- 272 -/ [row xdigit 273, one 58 275],
  /- 273 -/ [row xdigit 274, one 58 275],
  /- 274 -/ [one 58 275],
  /- 275 -/ [row xdigit 276, one 58 340],
  /- 276 -/ [row xdigit 277, one 58 280],
  /- 277 -/ [row xdigit 278, one 58 280],
  /- 278 -/ [row xdigit 279, one 58 280],
  /- 279 -/ [one 58 280],
  /- 280 -/ [row xdigit 281, one 58 339],
  /- 281 -/ [row xdigit 282, one 58 285],
  /- 282 -/ [row xdigit 283, one 58 285],
  /- 283 -/ [row xdigit 284, one 58 285],
  /- 284 -/ [one 58 285],
  /- 285 -/ [row xdigit 286, one 58 338],
  /- 286 -/ [row xdigit 287, one 58 290],
  /- 287 -/ [row xdigit 288, one 58 290],
  /- 288 -/ [row xdigit 289, one 58 290],
  /- 289 -/ [one 58 290],
  /- 290 -/ [row xdigit 291, one 58 326],
  /- 291 -/ [row xdigit 292, one 58 295],
  /- 292 -/ [row xdigit 293, one 58 295],
  /- 293 -/ [row xdigit 294, one 58 295],
  /- 294 -/ [one 58 295],
  /- 295 -/ [row xdigit 296, one 58 325],
  /- 296 -/ [row xdigit 297, one 58 300],
  /- 297 -/ [row xdigit 298, one 58 300],
  /- 298 -/ [row xdigit 299, one 58 300],
  /- 299 -/ [one 58 300],
  /- 300 -/ [row xdigit 296, one 58 301]]

def states301 : Table RequestAction := [
  /- 301 -/ [row [(2, 3)] 223, row [(48, 48), (51, 57)] 302, one 49 318, one 50 321,
    row hexAlpha 324, one 93 236],
  /- 302 -/ [one 46 230, row xdigit 303, one 58 306, one 93 236],
  /- 303 -/ [row xdigit 304, one 58 306, one 93 236],
  /- 304 -/ [row xdigit 305, one 58 306, one 93 236],
  /- 305 -/ [one 58 306, one 93 236],
  /- 306 -/ [row [(48, 48), (51, 57)] 307, one 49 311, one 50 314, row hexAlpha 317],
  /- 307 -/ [one 46 230, row xdigit 308, one 58 255, one 93 236],
  /- 308 -/ [row xdigit 309, one 58 255, one 93 236],
  /- 309 -/ [row xdigit 310, one 58 255, one 93 236],
  /- 310 -/ [one 58 255, one 93 236],
  /- 311 -/ [one 46 230, row digit 312, one 58 255, row hexAlpha 308, one 93 236],
  /- 312 -/ [one 46 230, row digit 313, one 58 255, row hexAlpha 309, one 93 236],
  /- 313 -/ [one 46 230, row xdigit 310, one 58 255, one 93 236],
  /- 314 -/ [one 46 230, one 48 315, row [(49, 52), (54, 57), (65, 70), (97, 102)] 308,
    one 53 316, one 58 255, one 93 236],
  /- 315 -/ [row digit 313, one 58 255, row hexAlpha 309, one 93 236],
  /- 316 -/ [one 48 313, row [(49, 57), (65, 70), (97, 102)] 309, one 58 255, one 93 236],
  /- 317 -/ [row xdigit 308, one 58 255, one 93 236],
  /- 318 -/ [one 46 230, row digit 319, one 58 306, row hexAlpha 303, one 93 236],
  /- 319 -/ [one 46 230, row digit 320, one 58 306, row hexAlpha 304, one 93 236],
  /- 320 -/ [one 46 230, row xdigit 305, one 58 306, one 93 236],
  /- 321 -/ [one 46 230, one 48 322, row [(49, 52), (54, 57), (65, 70), (97, 102)] 303,
    one 53 323, one 58 306, one 93 236],
  /- 322 -/ [row digit 320, one 58 306, row hexAlpha 304, one 93 236],
  /- 323 -/ [one 48 320, row [(49, 57), (65, 70), (97, 102)] 304, one 58 306, one 93 236],
  /- 324 -/ [row xdigit 303, one 58 306, one 93 236],
  /- 325 -/ [row [(2, 3)] 223, row [(48, 48), (51, 57)] 302, one 49 318, one 50 321,
    row hexAlpha 324],
  /- 326 -/ [row [(2, 3)] 223, row [(48, 48), (51, 57)] 327, one 49 331, one 50 334,
    row hexAlpha 337],
  /- 327 -/ [one 46 230, row xdigit 328, one 58 306],
  /- 328 -/ [row xdigit 329, one 58 306],
  /- 329 -/ [row xdigit 330, one 58 306],
  /- 330 -/ [one 58 306]]

def states331 : Table RequestAction := [
  /- 331 -/ [one 46 230, row digit 332, one 58 306, row hexAlpha 328],
  /- 332 -/ [one 46 230, row digit 333, one 58 306, row hexAlpha 329],
  /- 333 -/ [one 46 230, row xdigit 330, one 58 306],
  /- 334 -/ [one 46 230, one 48 335, row [(49, 52), (54, 57), (65, 70), (97, 102)] 328,
    one 53 336, one 58 306],
  /- 335 -/ [row digit 333, one 58 306, row hexAlpha 329],
  /- 336 -/ [one 48 333, row [(49, 57), (65, 70), (97, 102)] 329, one 58 306],
  /- 337 -/ [row xdigit 328, one 58 306],
  /- 338 -/ [row [(2, 3)] 223, row xdigit 224],
  /- 339 -/ [row [(2, 3)] 223],
  /- 340 -/ [one 3 223],
  /- 341 -/ [one 4 223],
  /- 342 -/ [one 58 343],
  /- 343 -/ [row [(2, 5)] 223, row [(48, 48), (51, 57)] 302, one 49 318, one 50 321,
    row hexAlpha 324, one 93 236],
  /- 344 -/ [row xdigit 345],
  /- 345 -/ [one 46 346, row xdigit 345],
  /- 346 -/ [row userinfo 347, rowWhen moreDelims 347],
  /- 347 -/ [row userinfo 347, one 93 236, rowWhen moreDelims 347],
  /- 348 -/ [row [(1, 8), (10, 31), (33, 33), (35, 39), (42, 43), (45, 46), (48, 57),
      (65, 90), (94, 122), (124, 124), (126, 126)] 14, one 58 15 [.writeField]],
  /- 349 -/ []]

end RequestTable

open RequestTable in
/-- The rows of the states `0` to `349`. -/
def requestTable : Table RequestAction :=
  [[]] ++ states1 ++ states31 ++ states61 ++ states91 ++ states121 ++
    states151 ++ states181 ++ states211 ++ states241 ++ states271 ++ states301
    ++ states331

end Http

end Skt
