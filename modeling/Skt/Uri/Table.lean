import Skt.Lib.Ragel

/-!
# The URI automaton

The transitions of the scanner generated from `uri.rl`, read off `uri.rl.cpp`
state by state: start state `451`, error state `0`, first final state `451`.
The generated code compares signed characters; a range here is a range of
bytes. Rows of one state are disjoint.
-/

namespace Skt

open Lib.Ragel

/-- The actions of `uri.rl`; `marku` and `markh` are the same code, and
`save_segment` and `clear_segments` are not used. -/
inductive UriAction
  | mark
  | saveScheme
  | savePort
  | saveUserinfo
  | saveHost
  | savePath
  | saveQuery
  | saveFragment
  deriving DecidableEq, Repr

namespace UriTable

/-! ## Classes that occur often -/

def alpha : List (ℕ × ℕ) :=
  [(65, 90), (97, 122)]

def digit : List (ℕ × ℕ) :=
  [(48, 57)]

def xdigit : List (ℕ × ℕ) :=
  [(48, 57), (65, 70), (97, 102)]

def hexAlpha : List (ℕ × ℕ) :=
  [(65, 70), (97, 102)]

/-- The bytes of `reg_name`, but for `%`; and without some of them. -/
def name : List (ℕ × ℕ) :=
  [(33, 33), (36, 36), (38, 46), (48, 57), (59, 59), (61, 61), (65, 90), (95, 95),
    (97, 122), (126, 126)]

def nameNoDigit : List (ℕ × ℕ) :=
  [(33, 33), (36, 36), (38, 46), (59, 59), (61, 61), (65, 90), (95, 95), (97, 122),
    (126, 126)]

def nameNoDot : List (ℕ × ℕ) :=
  [(33, 33), (36, 36), (38, 45), (48, 57), (59, 59), (61, 61), (65, 90), (95, 95),
    (97, 122), (126, 126)]

def nameNoDotDigit : List (ℕ × ℕ) :=
  [(33, 33), (36, 36), (38, 45), (59, 59), (61, 61), (65, 90), (95, 95), (97, 122),
    (126, 126)]

def nameFromSix : List (ℕ × ℕ) :=
  [(33, 33), (36, 36), (38, 45), (54, 57), (59, 59), (61, 61), (65, 90), (95, 95),
    (97, 122), (126, 126)]

/-- The bytes of `userinfo`, but for `%`. -/
def user : List (ℕ × ℕ) :=
  [(33, 33), (36, 36), (38, 46), (48, 59), (61, 61), (65, 90), (95, 95), (97, 122),
    (126, 126)]

def userNoDigit : List (ℕ × ℕ) :=
  [(33, 33), (36, 36), (38, 46), (58, 59), (61, 61), (65, 90), (95, 95), (97, 122),
    (126, 126)]

/-- The bytes of `pchar`, but for `%`; with `/`; and with `/` and `?`. -/
def pchar : List (ℕ × ℕ) :=
  [(33, 33), (36, 36), (38, 46), (48, 59), (61, 61), (64, 90), (95, 95), (97, 122),
    (126, 126), (128, 255)]

def pathChar : List (ℕ × ℕ) :=
  [(33, 33), (36, 36), (38, 59), (61, 61), (64, 90), (95, 95), (97, 122), (126, 126),
    (128, 255)]

def queryChar : List (ℕ × ℕ) :=
  [(33, 33), (36, 36), (38, 59), (61, 61), (63, 90), (95, 95), (97, 122), (126, 126),
    (128, 255)]

/-! ## Rows that several states share

What can follow a registered name that may still turn out to be a `userinfo`, a
host behind a `userinfo`, and a host that is no registered name. -/

def relativeName : List (Row UriAction) :=
  [one 35 453 [.saveHost], one 37 31, one 47 455 [.saveHost], one 58 468 [.saveHost],
    one 63 456 [.saveHost], one 64 469 [.saveUserinfo]]

def relativeHost : List (Row UriAction) :=
  [one 35 453 [.saveHost], one 37 36, one 47 455 [.saveHost], one 58 461 [.saveHost],
    one 63 456 [.saveHost]]

def relativeEnd : List (Row UriAction) :=
  [one 35 453 [.saveHost], one 47 455 [.saveHost], one 58 461 [.saveHost],
    one 63 456 [.saveHost]]

def uriName : List (Row UriAction) :=
  [one 35 453 [.saveHost, .mark, .savePath], one 37 253, one 47 513 [.saveHost, .mark],
    one 58 521 [.saveHost], one 63 456 [.saveHost, .mark, .savePath],
    one 64 522 [.saveUserinfo]]

def uriHost : List (Row UriAction) :=
  [one 35 453 [.saveHost, .mark, .savePath], one 37 258, one 47 513 [.saveHost, .mark],
    one 58 514 [.saveHost], one 63 456 [.saveHost, .mark, .savePath]]

def uriEnd : List (Row UriAction) :=
  [one 35 453 [.saveHost, .mark, .savePath], one 47 513 [.saveHost, .mark],
    one 58 514 [.saveHost], one 63 456 [.saveHost, .mark, .savePath]]

/-! ## The states -/

def states1 : Table UriAction := [
  /- 1 -/ [row xdigit 2],
  /- 2 -/ [row xdigit 454],
  /- 3 -/ [row xdigit 4],
  /- 4 -/ [row xdigit 452],
  /- 5 -/ [row xdigit 6],
  /- 6 -/ [row xdigit 455],
  /- 7 -/ [row xdigit 8],
  /- 8 -/ [row xdigit 457],
  /- 9 -/ [row [(48, 52)] 10],
  /- 10 -/ [row digit 11],
  /- 11 -/ [one 46 12],
  /- 12 -/ [one 2 13, one 48 15, one 49 27, one 50 29, row [(51, 57)] 28],
  /- 13 -/ [row [(48, 52)] 14],
  /- 14 -/ [row digit 15],
  /- 15 -/ [one 46 16],
  /- 16 -/ [one 2 17, one 48 19, one 49 23, one 50 25, row [(51, 57)] 24],
  /- 17 -/ [row [(48, 52)] 18],
  /- 18 -/ [row digit 19],
  /- 19 -/ [one 46 20],
  /- 20 -/ [one 2 21, one 48 460, one 49 463, one 50 465, row [(51, 57)] 464],
  /- 21 -/ [row [(48, 52)] 22],
  /- 22 -/ [row digit 460],
  /- 23 -/ [one 46 20, row digit 24],
  /- 24 -/ [one 46 20, row digit 19],
  /- 25 -/ [one 46 20, row [(48, 52), (54, 57)] 19, one 53 26],
  /- 26 -/ [one 46 20, row [(48, 53)] 19],
  /- 27 -/ [one 46 16, row digit 28],
  /- 28 -/ [one 46 16, row digit 15],
  /- 29 -/ [one 46 16, row [(48, 52), (54, 57)] 15, one 53 30],
  /- 30 -/ [one 46 16, row [(48, 53)] 15],
  /- 31 -/ [row xdigit 32],
  /- 32 -/ [row xdigit 467],
  /- 33 -/ [row user 33, one 37 34, one 64 469 [.saveUserinfo]],
  /- 34 -/ [row xdigit 35],
  /- 35 -/ [row xdigit 33],
  /- 36 -/ [row xdigit 37],
  /- 37 -/ [row xdigit 470],
  /- 38 -/ [row xdigit 39, one 58 146, one 118 225],
  /- 39 -/ [row xdigit 40, one 58 43],
  /- 40 -/ [row xdigit 41, one 58 43]]

def states41 : Table UriAction := [
  /- 41 -/ [row xdigit 42, one 58 43],
  /- 42 -/ [one 58 43],
  /- 43 -/ [row xdigit 44, one 58 141],
  /- 44 -/ [row xdigit 45, one 58 48],
  /- 45 -/ [row xdigit 46, one 58 48],
  /- 46 -/ [row xdigit 47, one 58 48],
  /- 47 -/ [one 58 48],
  /- 48 -/ [row xdigit 49, one 58 136],
  /- 49 -/ [row xdigit 50, one 58 53],
  /- 50 -/ [row xdigit 51, one 58 53],
  /- 51 -/ [row xdigit 52, one 58 53],
  /- 52 -/ [one 58 53],
  /- 53 -/ [row xdigit 54, one 58 131],
  /- 54 -/ [row xdigit 55, one 58 58],
  /- 55 -/ [row xdigit 56, one 58 58],
  /- 56 -/ [row xdigit 57, one 58 58],
  /- 57 -/ [one 58 58],
  /- 58 -/ [row xdigit 59, one 58 126],
  /- 59 -/ [row xdigit 60, one 58 63],
  /- 60 -/ [row xdigit 61, one 58 63],
  /- 61 -/ [row xdigit 62, one 58 63],
  /- 62 -/ [one 58 63],
  /- 63 -/ [row xdigit 64, one 58 113],
  /- 64 -/ [row xdigit 65, one 58 68],
  /- 65 -/ [row xdigit 66, one 58 68],
  /- 66 -/ [row xdigit 67, one 58 68],
  /- 67 -/ [one 58 68],
  /- 68 -/ [one 2 69, one 48 96, one 49 104, one 50 107, row [(51, 57)] 110, one 58 111,
    row hexAlpha 112],
  /- 69 -/ [row [(48, 52)] 70],
  /- 70 -/ [row digit 71],
  /- 71 -/ [one 46 72],
  /- 72 -/ [one 2 73, one 48 75, one 49 92, one 50 94, row [(51, 57)] 93],
  /- 73 -/ [row [(48, 52)] 74],
  /- 74 -/ [row digit 75],
  /- 75 -/ [one 46 76],
  /- 76 -/ [one 2 77, one 48 79, one 49 88, one 50 90, row [(51, 57)] 89],
  /- 77 -/ [row [(48, 52)] 78],
  /- 78 -/ [row digit 79],
  /- 79 -/ [one 46 80],
  /- 80 -/ [one 2 81, one 48 83, one 49 84, one 50 86, row [(51, 57)] 85]]

def states81 : Table UriAction := [
  /- 81 -/ [row [(48, 52)] 82],
  /- 82 -/ [row digit 83],
  /- 83 -/ [one 93 460],
  /- 84 -/ [row digit 85, one 93 460],
  /- 85 -/ [row digit 83, one 93 460],
  /- 86 -/ [row [(48, 52), (54, 57)] 83, one 53 87, one 93 460],
  /- 87 -/ [row [(48, 53)] 83, one 93 460],
  /- 88 -/ [one 46 80, row digit 89],
  /- 89 -/ [one 46 80, row digit 79],
  /- 90 -/ [one 46 80, row [(48, 52), (54, 57)] 79, one 53 91],
  /- 91 -/ [one 46 80, row [(48, 53)] 79],
  /- 92 -/ [one 46 76, row digit 93],
  /- 93 -/ [one 46 76, row digit 75],
  /- 94 -/ [one 46 76, row [(48, 52), (54, 57)] 75, one 53 95],
  /- 95 -/ [one 46 76, row [(48, 53)] 75],
  /- 96 -/ [one 46 72, row xdigit 97, one 58 100],
  /- 97 -/ [row xdigit 98, one 58 100],
  /- 98 -/ [row xdigit 99, one 58 100],
  /- 99 -/ [one 58 100],
  /- 100 -/ [row xdigit 101, one 58 83],
  /- 101 -/ [row xdigit 102, one 93 460],
  /- 102 -/ [row xdigit 103, one 93 460],
  /- 103 -/ [row xdigit 83, one 93 460],
  /- 104 -/ [one 46 72, row digit 105, one 58 100, row hexAlpha 97],
  /- 105 -/ [one 46 72, row digit 106, one 58 100, row hexAlpha 98],
  /- 106 -/ [one 46 72, row xdigit 99, one 58 100],
  /- 107 -/ [one 46 72, row [(48, 52), (54, 57)] 108, one 53 109, one 58 100,
    row hexAlpha 97],
  /- 108 -/ [one 46 72, row xdigit 98, one 58 100],
  /- 109 -/ [one 46 72, row [(48, 53)] 106, row [(54, 57), (65, 70), (97, 102)] 98,
    one 58 100],
  /- 110 -/ [one 46 72, row digit 108, one 58 100, row hexAlpha 97],
  /- 111 -/ [row xdigit 101],
  /- 112 -/ [row xdigit 97, one 58 100],
  /- 113 -/ [one 2 69, one 48 114, one 49 118, one 50 121, row [(51, 57)] 124,
    row hexAlpha 125],
  /- 114 -/ [one 46 72, row xdigit 115, one 58 111],
  /- 115 -/ [row xdigit 116, one 58 111],
  /- 116 -/ [row xdigit 117, one 58 111],
  /- 117 -/ [one 58 111],
  /- 118 -/ [one 46 72, row digit 119, one 58 111, row hexAlpha 115],
  /- 119 -/ [one 46 72, row digit 120, one 58 111, row hexAlpha 116],
  /- 120 -/ [one 46 72, row xdigit 117, one 58 111]]

def states121 : Table UriAction := [
  /- 121 -/ [one 46 72, row [(48, 52), (54, 57)] 122, one 53 123, one 58 111,
    row hexAlpha 115],
  /- 122 -/ [one 46 72, row xdigit 116, one 58 111],
  /- 123 -/ [one 46 72, row [(48, 53)] 120, row [(54, 57), (65, 70), (97, 102)] 116,
    one 58 111],
  /- 124 -/ [one 46 72, row digit 122, one 58 111, row hexAlpha 115],
  /- 125 -/ [row xdigit 115, one 58 111],
  /- 126 -/ [row xdigit 127],
  /- 127 -/ [row xdigit 128, one 58 113],
  /- 128 -/ [row xdigit 129, one 58 113],
  /- 129 -/ [row xdigit 130, one 58 113],
  /- 130 -/ [one 58 113],
  /- 131 -/ [row xdigit 132],
  /- 132 -/ [row xdigit 133, one 58 126],
  /- 133 -/ [row xdigit 134, one 58 126],
  /- 134 -/ [row xdigit 135, one 58 126],
  /- 135 -/ [one 58 126],
  /- 136 -/ [row xdigit 137],
  /- 137 -/ [row xdigit 138, one 58 131],
  /- 138 -/ [row xdigit 139, one 58 131],
  /- 139 -/ [row xdigit 140, one 58 131],
  /- 140 -/ [one 58 131],
  /- 141 -/ [row xdigit 142],
  /- 142 -/ [row xdigit 143, one 58 136],
  /- 143 -/ [row xdigit 144, one 58 136],
  /- 144 -/ [row xdigit 145, one 58 136],
  /- 145 -/ [one 58 136],
  /- 146 -/ [one 58 147],
  /- 147 -/ [one 2 69, one 48 148, one 49 217, one 50 220, row [(51, 57)] 223,
    row hexAlpha 224, one 93 460],
  /- 148 -/ [one 46 72, row xdigit 149, one 58 152, one 93 460],
  /- 149 -/ [row xdigit 150, one 58 152, one 93 460],
  /- 150 -/ [row xdigit 151, one 58 152, one 93 460],
  /- 151 -/ [one 58 152, one 93 460],
  /- 152 -/ [one 2 69, one 48 153, one 49 209, one 50 212, row [(51, 57)] 215,
    row hexAlpha 216],
  /- 153 -/ [one 46 72, row xdigit 154, one 58 157, one 93 460],
  /- 154 -/ [row xdigit 155, one 58 157, one 93 460],
  /- 155 -/ [row xdigit 156, one 58 157, one 93 460],
  /- 156 -/ [one 58 157, one 93 460],
  /- 157 -/ [one 2 69, one 48 158, one 49 201, one 50 204, row [(51, 57)] 207,
    row hexAlpha 208],
  /- 158 -/ [one 46 72, row xdigit 159, one 58 162, one 93 460],
  /- 159 -/ [row xdigit 160, one 58 162, one 93 460],
  /- 160 -/ [row xdigit 161, one 58 162, one 93 460]]

def states161 : Table UriAction := [
  /- 161 -/ [one 58 162, one 93 460],
  /- 162 -/ [one 2 69, one 48 163, one 49 193, one 50 196, row [(51, 57)] 199,
    row hexAlpha 200],
  /- 163 -/ [one 46 72, row xdigit 164, one 58 167, one 93 460],
  /- 164 -/ [row xdigit 165, one 58 167, one 93 460],
  /- 165 -/ [row xdigit 166, one 58 167, one 93 460],
  /- 166 -/ [one 58 167, one 93 460],
  /- 167 -/ [one 2 69, one 48 168, one 49 185, one 50 188, row [(51, 57)] 191,
    row hexAlpha 192],
  /- 168 -/ [one 46 72, row xdigit 169, one 58 172, one 93 460],
  /- 169 -/ [row xdigit 170, one 58 172, one 93 460],
  /- 170 -/ [row xdigit 171, one 58 172, one 93 460],
  /- 171 -/ [one 58 172, one 93 460],
  /- 172 -/ [one 2 69, one 48 173, one 49 177, one 50 180, row [(51, 57)] 183,
    row hexAlpha 184],
  /- 173 -/ [one 46 72, row xdigit 174, one 58 111, one 93 460],
  /- 174 -/ [row xdigit 175, one 58 111, one 93 460],
  /- 175 -/ [row xdigit 176, one 58 111, one 93 460],
  /- 176 -/ [one 58 111, one 93 460],
  /- 177 -/ [one 46 72, row digit 178, one 58 111, row hexAlpha 174, one 93 460],
  /- 178 -/ [one 46 72, row digit 179, one 58 111, row hexAlpha 175, one 93 460],
  /- 179 -/ [one 46 72, row xdigit 176, one 58 111, one 93 460],
  /- 180 -/ [one 46 72, row [(48, 52), (54, 57)] 181, one 53 182, one 58 111,
    row hexAlpha 174, one 93 460],
  /- 181 -/ [one 46 72, row xdigit 175, one 58 111, one 93 460],
  /- 182 -/ [one 46 72, row [(48, 53)] 179, row [(54, 57), (65, 70), (97, 102)] 175,
    one 58 111, one 93 460],
  /- 183 -/ [one 46 72, row digit 181, one 58 111, row hexAlpha 174, one 93 460],
  /- 184 -/ [row xdigit 174, one 58 111, one 93 460],
  /- 185 -/ [one 46 72, row digit 186, one 58 172, row hexAlpha 169, one 93 460],
  /- 186 -/ [one 46 72, row digit 187, one 58 172, row hexAlpha 170, one 93 460],
  /- 187 -/ [one 46 72, row xdigit 171, one 58 172, one 93 460],
  /- 188 -/ [one 46 72, row [(48, 52), (54, 57)] 189, one 53 190, one 58 172,
    row hexAlpha 169, one 93 460],
  /- 189 -/ [one 46 72, row xdigit 170, one 58 172, one 93 460],
  /- 190 -/ [one 46 72, row [(48, 53)] 187, row [(54, 57), (65, 70), (97, 102)] 170,
    one 58 172, one 93 460],
  /- 191 -/ [one 46 72, row digit 189, one 58 172, row hexAlpha 169, one 93 460],
  /- 192 -/ [row xdigit 169, one 58 172, one 93 460],
  /- 193 -/ [one 46 72, row digit 194, one 58 167, row hexAlpha 164, one 93 460],
  /- 194 -/ [one 46 72, row digit 195, one 58 167, row hexAlpha 165, one 93 460],
  /- 195 -/ [one 46 72, row xdigit 166, one 58 167, one 93 460],
  /- 196 -/ [one 46 72, row [(48, 52), (54, 57)] 197, one 53 198, one 58 167,
    row hexAlpha 164, one 93 460],
  /- 197 -/ [one 46 72, row xdigit 165, one 58 167, one 93 460],
  /- 198 -/ [one 46 72, row [(48, 53)] 195, row [(54, 57), (65, 70), (97, 102)] 165,
    one 58 167, one 93 460],
  /- 199 -/ [one 46 72, row digit 197, one 58 167, row hexAlpha 164, one 93 460],
  /- 200 -/ [row xdigit 164, one 58 167, one 93 460]]

def states201 : Table UriAction := [
  /- 201 -/ [one 46 72, row digit 202, one 58 162, row hexAlpha 159, one 93 460],
  /- 202 -/ [one 46 72, row digit 203, one 58 162, row hexAlpha 160, one 93 460],
  /- 203 -/ [one 46 72, row xdigit 161, one 58 162, one 93 460],
  /- 204 -/ [one 46 72, row [(48, 52), (54, 57)] 205, one 53 206, one 58 162,
    row hexAlpha 159, one 93 460],
  /- 205 -/ [one 46 72, row xdigit 160, one 58 162, one 93 460],
  /- 206 -/ [one 46 72, row [(48, 53)] 203, row [(54, 57), (65, 70), (97, 102)] 160,
    one 58 162, one 93 460],
  /- 207 -/ [one 46 72, row digit 205, one 58 162, row hexAlpha 159, one 93 460],
  /- 208 -/ [row xdigit 159, one 58 162, one 93 460],
  /- 209 -/ [one 46 72, row digit 210, one 58 157, row hexAlpha 154, one 93 460],
  /- 210 -/ [one 46 72, row digit 211, one 58 157, row hexAlpha 155, one 93 460],
  /- 211 -/ [one 46 72, row xdigit 156, one 58 157, one 93 460],
  /- 212 -/ [one 46 72, row [(48, 52), (54, 57)] 213, one 53 214, one 58 157,
    row hexAlpha 154, one 93 460],
  /- 213 -/ [one 46 72, row xdigit 155, one 58 157, one 93 460],
  /- 214 -/ [one 46 72, row [(48, 53)] 211, row [(54, 57), (65, 70), (97, 102)] 155,
    one 58 157, one 93 460],
  /- 215 -/ [one 46 72, row digit 213, one 58 157, row hexAlpha 154, one 93 460],
  /- 216 -/ [row xdigit 154, one 58 157, one 93 460],
  /- 217 -/ [one 46 72, row digit 218, one 58 152, row hexAlpha 149, one 93 460],
  /- 218 -/ [one 46 72, row digit 219, one 58 152, row hexAlpha 150, one 93 460],
  /- 219 -/ [one 46 72, row xdigit 151, one 58 152, one 93 460],
  /- 220 -/ [one 46 72, row [(48, 52), (54, 57)] 221, one 53 222, one 58 152,
    row hexAlpha 149, one 93 460],
  /- 221 -/ [one 46 72, row xdigit 150, one 58 152, one 93 460],
  /- 222 -/ [one 46 72, row [(48, 53)] 219, row [(54, 57), (65, 70), (97, 102)] 150,
    one 58 152, one 93 460],
  /- 223 -/ [one 46 72, row digit 221, one 58 152, row hexAlpha 149, one 93 460],
  /- 224 -/ [row xdigit 149, one 58 152, one 93 460],
  /- 225 -/ [row xdigit 226],
  /- 226 -/ [one 46 227, row xdigit 226],
  /- 227 -/ [row user 228],
  /- 228 -/ [row user 228, one 93 460],
  /- 229 -/ [row [(48, 52)] 230],
  /- 230 -/ [row digit 231],
  /- 231 -/ [one 46 232],
  /- 232 -/ [one 2 233, one 48 235, one 49 249, one 50 251, row [(51, 57)] 250],
  /- 233 -/ [row [(48, 52)] 234],
  /- 234 -/ [row digit 235],
  /- 235 -/ [one 46 236],
  /- 236 -/ [one 2 237, one 48 239, one 49 245, one 50 247, row [(51, 57)] 246],
  /- 237 -/ [row [(48, 52)] 238],
  /- 238 -/ [row digit 239],
  /- 239 -/ [one 46 240],
  /- 240 -/ [one 2 241, one 48 512, one 49 516, one 50 518, row [(51, 57)] 517]]

def states241 : Table UriAction := [
  /- 241 -/ [row [(48, 52)] 242],
  /- 242 -/ [row digit 512],
  /- 243 -/ [row xdigit 244],
  /- 244 -/ [row xdigit 513],
  /- 245 -/ [one 46 240, row digit 246],
  /- 246 -/ [one 46 240, row digit 239],
  /- 247 -/ [one 46 240, row [(48, 52), (54, 57)] 239, one 53 248],
  /- 248 -/ [one 46 240, row [(48, 53)] 239],
  /- 249 -/ [one 46 236, row digit 250],
  /- 250 -/ [one 46 236, row digit 235],
  /- 251 -/ [one 46 236, row [(48, 52), (54, 57)] 235, one 53 252],
  /- 252 -/ [one 46 236, row [(48, 53)] 235],
  /- 253 -/ [row xdigit 254],
  /- 254 -/ [row xdigit 520],
  /- 255 -/ [row user 255, one 37 256, one 64 522 [.saveUserinfo]],
  /- 256 -/ [row xdigit 257],
  /- 257 -/ [row xdigit 255],
  /- 258 -/ [row xdigit 259],
  /- 259 -/ [row xdigit 523],
  /- 260 -/ [row xdigit 261, one 58 368, one 118 447],
  /- 261 -/ [row xdigit 262, one 58 265],
  /- 262 -/ [row xdigit 263, one 58 265],
  /- 263 -/ [row xdigit 264, one 58 265],
  /- 264 -/ [one 58 265],
  /- 265 -/ [row xdigit 266, one 58 363],
  /- 266 -/ [row xdigit 267, one 58 270],
  /- 267 -/ [row xdigit 268, one 58 270],
  /- 268 -/ [row xdigit 269, one 58 270],
  /- 269 -/ [one 58 270],
  /- 270 -/ [row xdigit 271, one 58 358],
  /- 271 -/ [row xdigit 272, one 58 275],
  /- 272 -/ [row xdigit 273, one 58 275],
  /- 273 -/ [row xdigit 274, one 58 275],
  /- 274 -/ [one 58 275],
  /- 275 -/ [row xdigit 276, one 58 353],
  /- 276 -/ [row xdigit 277, one 58 280],
  /- 277 -/ [row xdigit 278, one 58 280],
  /- 278 -/ [row xdigit 279, one 58 280],
  /- 279 -/ [one 58 280],
  /- 280 -/ [row xdigit 281, one 58 348]]

def states281 : Table UriAction := [
  /- 281 -/ [row xdigit 282, one 58 285],
  /- 282 -/ [row xdigit 283, one 58 285],
  /- 283 -/ [row xdigit 284, one 58 285],
  /- 284 -/ [one 58 285],
  /- 285 -/ [row xdigit 286, one 58 335],
  /- 286 -/ [row xdigit 287, one 58 290],
  /- 287 -/ [row xdigit 288, one 58 290],
  /- 288 -/ [row xdigit 289, one 58 290],
  /- 289 -/ [one 58 290],
  /- 290 -/ [one 2 291, one 48 318, one 49 326, one 50 329, row [(51, 57)] 332, one 58 333,
    row hexAlpha 334],
  /- 291 -/ [row [(48, 52)] 292],
  /- 292 -/ [row digit 293],
  /- 293 -/ [one 46 294],
  /- 294 -/ [one 2 295, one 48 297, one 49 314, one 50 316, row [(51, 57)] 315],
  /- 295 -/ [row [(48, 52)] 296],
  /- 296 -/ [row digit 297],
  /- 297 -/ [one 46 298],
  /- 298 -/ [one 2 299, one 48 301, one 49 310, one 50 312, row [(51, 57)] 311],
  /- 299 -/ [row [(48, 52)] 300],
  /- 300 -/ [row digit 301],
  /- 301 -/ [one 46 302],
  /- 302 -/ [one 2 303, one 48 305, one 49 306, one 50 308, row [(51, 57)] 307],
  /- 303 -/ [row [(48, 52)] 304],
  /- 304 -/ [row digit 305],
  /- 305 -/ [one 93 512],
  /- 306 -/ [row digit 307, one 93 512],
  /- 307 -/ [row digit 305, one 93 512],
  /- 308 -/ [row [(48, 52), (54, 57)] 305, one 53 309, one 93 512],
  /- 309 -/ [row [(48, 53)] 305, one 93 512],
  /- 310 -/ [one 46 302, row digit 311],
  /- 311 -/ [one 46 302, row digit 301],
  /- 312 -/ [one 46 302, row [(48, 52), (54, 57)] 301, one 53 313],
  /- 313 -/ [one 46 302, row [(48, 53)] 301],
  /- 314 -/ [one 46 298, row digit 315],
  /- 315 -/ [one 46 298, row digit 297],
  /- 316 -/ [one 46 298, row [(48, 52), (54, 57)] 297, one 53 317],
  /- 317 -/ [one 46 298, row [(48, 53)] 297],
  /- 318 -/ [one 46 294, row xdigit 319, one 58 322],
  /- 319 -/ [row xdigit 320, one 58 322],
  /- 320 -/ [row xdigit 321, one 58 322]]

def states321 : Table UriAction := [
  /- 321 -/ [one 58 322],
  /- 322 -/ [row xdigit 323, one 58 305],
  /- 323 -/ [row xdigit 324, one 93 512],
  /- 324 -/ [row xdigit 325, one 93 512],
  /- 325 -/ [row xdigit 305, one 93 512],
  /- 326 -/ [one 46 294, row digit 327, one 58 322, row hexAlpha 319],
  /- 327 -/ [one 46 294, row digit 328, one 58 322, row hexAlpha 320],
  /- 328 -/ [one 46 294, row xdigit 321, one 58 322],
  /- 329 -/ [one 46 294, row [(48, 52), (54, 57)] 330, one 53 331, one 58 322,
    row hexAlpha 319],
  /- 330 -/ [one 46 294, row xdigit 320, one 58 322],
  /- 331 -/ [one 46 294, row [(48, 53)] 328, row [(54, 57), (65, 70), (97, 102)] 320,
    one 58 322],
  /- 332 -/ [one 46 294, row digit 330, one 58 322, row hexAlpha 319],
  /- 333 -/ [row xdigit 323],
  /- 334 -/ [row xdigit 319, one 58 322],
  /- 335 -/ [one 2 291, one 48 336, one 49 340, one 50 343, row [(51, 57)] 346,
    row hexAlpha 347],
  /- 336 -/ [one 46 294, row xdigit 337, one 58 333],
  /- 337 -/ [row xdigit 338, one 58 333],
  /- 338 -/ [row xdigit 339, one 58 333],
  /- 339 -/ [one 58 333],
  /- 340 -/ [one 46 294, row digit 341, one 58 333, row hexAlpha 337],
  /- 341 -/ [one 46 294, row digit 342, one 58 333, row hexAlpha 338],
  /- 342 -/ [one 46 294, row xdigit 339, one 58 333],
  /- 343 -/ [one 46 294, row [(48, 52), (54, 57)] 344, one 53 345, one 58 333,
    row hexAlpha 337],
  /- 344 -/ [one 46 294, row xdigit 338, one 58 333],
  /- 345 -/ [one 46 294, row [(48, 53)] 342, row [(54, 57), (65, 70), (97, 102)] 338,
    one 58 333],
  /- 346 -/ [one 46 294, row digit 344, one 58 333, row hexAlpha 337],
  /- 347 -/ [row xdigit 337, one 58 333],
  /- 348 -/ [row xdigit 349],
  /- 349 -/ [row xdigit 350, one 58 335],
  /- 350 -/ [row xdigit 351, one 58 335],
  /- 351 -/ [row xdigit 352, one 58 335],
  /- 352 -/ [one 58 335],
  /- 353 -/ [row xdigit 354],
  /- 354 -/ [row xdigit 355, one 58 348],
  /- 355 -/ [row xdigit 356, one 58 348],
  /- 356 -/ [row xdigit 357, one 58 348],
  /- 357 -/ [one 58 348],
  /- 358 -/ [row xdigit 359],
  /- 359 -/ [row xdigit 360, one 58 353],
  /- 360 -/ [row xdigit 361, one 58 353]]

def states361 : Table UriAction := [
  /- 361 -/ [row xdigit 362, one 58 353],
  /- 362 -/ [one 58 353],
  /- 363 -/ [row xdigit 364],
  /- 364 -/ [row xdigit 365, one 58 358],
  /- 365 -/ [row xdigit 366, one 58 358],
  /- 366 -/ [row xdigit 367, one 58 358],
  /- 367 -/ [one 58 358],
  /- 368 -/ [one 58 369],
  /- 369 -/ [one 2 291, one 48 370, one 49 439, one 50 442, row [(51, 57)] 445,
    row hexAlpha 446, one 93 512],
  /- 370 -/ [one 46 294, row xdigit 371, one 58 374, one 93 512],
  /- 371 -/ [row xdigit 372, one 58 374, one 93 512],
  /- 372 -/ [row xdigit 373, one 58 374, one 93 512],
  /- 373 -/ [one 58 374, one 93 512],
  /- 374 -/ [one 2 291, one 48 375, one 49 431, one 50 434, row [(51, 57)] 437,
    row hexAlpha 438],
  /- 375 -/ [one 46 294, row xdigit 376, one 58 379, one 93 512],
  /- 376 -/ [row xdigit 377, one 58 379, one 93 512],
  /- 377 -/ [row xdigit 378, one 58 379, one 93 512],
  /- 378 -/ [one 58 379, one 93 512],
  /- 379 -/ [one 2 291, one 48 380, one 49 423, one 50 426, row [(51, 57)] 429,
    row hexAlpha 430],
  /- 380 -/ [one 46 294, row xdigit 381, one 58 384, one 93 512],
  /- 381 -/ [row xdigit 382, one 58 384, one 93 512],
  /- 382 -/ [row xdigit 383, one 58 384, one 93 512],
  /- 383 -/ [one 58 384, one 93 512],
  /- 384 -/ [one 2 291, one 48 385, one 49 415, one 50 418, row [(51, 57)] 421,
    row hexAlpha 422],
  /- 385 -/ [one 46 294, row xdigit 386, one 58 389, one 93 512],
  /- 386 -/ [row xdigit 387, one 58 389, one 93 512],
  /- 387 -/ [row xdigit 388, one 58 389, one 93 512],
  /- 388 -/ [one 58 389, one 93 512],
  /- 389 -/ [one 2 291, one 48 390, one 49 407, one 50 410, row [(51, 57)] 413,
    row hexAlpha 414],
  /- 390 -/ [one 46 294, row xdigit 391, one 58 394, one 93 512],
  /- 391 -/ [row xdigit 392, one 58 394, one 93 512],
  /- 392 -/ [row xdigit 393, one 58 394, one 93 512],
  /- 393 -/ [one 58 394, one 93 512],
  /- 394 -/ [one 2 291, one 48 395, one 49 399, one 50 402, row [(51, 57)] 405,
    row hexAlpha 406],
  /- 395 -/ [one 46 294, row xdigit 396, one 58 333, one 93 512],
  /- 396 -/ [row xdigit 397, one 58 333, one 93 512],
  /- 397 -/ [row xdigit 398, one 58 333, one 93 512],
  /- 398 -/ [one 58 333, one 93 512],
  /- 399 -/ [one 46 294, row digit 400, one 58 333, row hexAlpha 396, one 93 512],
  /- 400 -/ [one 46 294, row digit 401, one 58 333, row hexAlpha 397, one 93 512]]

def states401 : Table UriAction := [
  /- 401 -/ [one 46 294, row xdigit 398, one 58 333, one 93 512],
  /- 402 -/ [one 46 294, row [(48, 52), (54, 57)] 403, one 53 404, one 58 333,
    row hexAlpha 396, one 93 512],
  /- 403 -/ [one 46 294, row xdigit 397, one 58 333, one 93 512],
  /- 404 -/ [one 46 294, row [(48, 53)] 401, row [(54, 57), (65, 70), (97, 102)] 397,
    one 58 333, one 93 512],
  /- 405 -/ [one 46 294, row digit 403, one 58 333, row hexAlpha 396, one 93 512],
  /- 406 -/ [row xdigit 396, one 58 333, one 93 512],
  /- 407 -/ [one 46 294, row digit 408, one 58 394, row hexAlpha 391, one 93 512],
  /- 408 -/ [one 46 294, row digit 409, one 58 394, row hexAlpha 392, one 93 512],
  /- 409 -/ [one 46 294, row xdigit 393, one 58 394, one 93 512],
  /- 410 -/ [one 46 294, row [(48, 52), (54, 57)] 411, one 53 412, one 58 394,
    row hexAlpha 391, one 93 512],
  /- 411 -/ [one 46 294, row xdigit 392, one 58 394, one 93 512],
  /- 412 -/ [one 46 294, row [(48, 53)] 409, row [(54, 57), (65, 70), (97, 102)] 392,
    one 58 394, one 93 512],
  /- 413 -/ [one 46 294, row digit 411, one 58 394, row hexAlpha 391, one 93 512],
  /- 414 -/ [row xdigit 391, one 58 394, one 93 512],
  /- 415 -/ [one 46 294, row digit 416, one 58 389, row hexAlpha 386, one 93 512],
  /- 416 -/ [one 46 294, row digit 417, one 58 389, row hexAlpha 387, one 93 512],
  /- 417 -/ [one 46 294, row xdigit 388, one 58 389, one 93 512],
  /- 418 -/ [one 46 294, row [(48, 52), (54, 57)] 419, one 53 420, one 58 389,
    row hexAlpha 386, one 93 512],
  /- 419 -/ [one 46 294, row xdigit 387, one 58 389, one 93 512],
  /- 420 -/ [one 46 294, row [(48, 53)] 417, row [(54, 57), (65, 70), (97, 102)] 387,
    one 58 389, one 93 512],
  /- 421 -/ [one 46 294, row digit 419, one 58 389, row hexAlpha 386, one 93 512],
  /- 422 -/ [row xdigit 386, one 58 389, one 93 512],
  /- 423 -/ [one 46 294, row digit 424, one 58 384, row hexAlpha 381, one 93 512],
  /- 424 -/ [one 46 294, row digit 425, one 58 384, row hexAlpha 382, one 93 512],
  /- 425 -/ [one 46 294, row xdigit 383, one 58 384, one 93 512],
  /- 426 -/ [one 46 294, row [(48, 52), (54, 57)] 427, one 53 428, one 58 384,
    row hexAlpha 381, one 93 512],
  /- 427 -/ [one 46 294, row xdigit 382, one 58 384, one 93 512],
  /- 428 -/ [one 46 294, row [(48, 53)] 425, row [(54, 57), (65, 70), (97, 102)] 382,
    one 58 384, one 93 512],
  /- 429 -/ [one 46 294, row digit 427, one 58 384, row hexAlpha 381, one 93 512],
  /- 430 -/ [row xdigit 381, one 58 384, one 93 512],
  /- 431 -/ [one 46 294, row digit 432, one 58 379, row hexAlpha 376, one 93 512],
  /- 432 -/ [one 46 294, row digit 433, one 58 379, row hexAlpha 377, one 93 512],
  /- 433 -/ [one 46 294, row xdigit 378, one 58 379, one 93 512],
  /- 434 -/ [one 46 294, row [(48, 52), (54, 57)] 435, one 53 436, one 58 379,
    row hexAlpha 376, one 93 512],
  /- 435 -/ [one 46 294, row xdigit 377, one 58 379, one 93 512],
  /- 436 -/ [one 46 294, row [(48, 53)] 433, row [(54, 57), (65, 70), (97, 102)] 377,
    one 58 379, one 93 512],
  /- 437 -/ [one 46 294, row digit 435, one 58 379, row hexAlpha 376, one 93 512],
  /- 438 -/ [row xdigit 376, one 58 379, one 93 512],
  /- 439 -/ [one 46 294, row digit 440, one 58 374, row hexAlpha 371, one 93 512],
  /- 440 -/ [one 46 294, row digit 441, one 58 374, row hexAlpha 372, one 93 512]]

def states441 : Table UriAction := [
  /- 441 -/ [one 46 294, row xdigit 373, one 58 374, one 93 512],
  /- 442 -/ [one 46 294, row [(48, 52), (54, 57)] 443, one 53 444, one 58 374,
    row hexAlpha 371, one 93 512],
  /- 443 -/ [one 46 294, row xdigit 372, one 58 374, one 93 512],
  /- 444 -/ [one 46 294, row [(48, 53)] 441, row [(54, 57), (65, 70), (97, 102)] 372,
    one 58 374, one 93 512],
  /- 445 -/ [one 46 294, row digit 443, one 58 374, row hexAlpha 371, one 93 512],
  /- 446 -/ [row xdigit 371, one 58 374, one 93 512],
  /- 447 -/ [row xdigit 448],
  /- 448 -/ [one 46 449, row xdigit 448],
  /- 449 -/ [row user 450],
  /- 450 -/ [row user 450, one 93 512],
  /- 451 -/ [ row [(33, 33), (36, 36), (38, 46), (48, 57), (59, 59), (61, 61), (64, 64),
      (95, 95), (126, 126), (128, 255)] 452, one 35 453, one 37 3, one 47 458, one 63 456,
    row alpha 508 [.mark]],
  /- 452 -/ [ row [(33, 33), (36, 36), (38, 46), (48, 57), (59, 59), (61, 61), (64, 90),
      (95, 95), (97, 122), (126, 126), (128, 255)] 452, one 35 453, one 37 3, one 47 455,
    one 63 456],
  /- 453 -/ [row queryChar 454 [.mark], one 37 1 [.mark]],
  /- 454 -/ [row queryChar 454, one 37 1],
  /- 455 -/ [row pathChar 455, one 35 453, one 37 5, one 63 456],
  /- 456 -/ [row queryChar 457 [.mark], one 35 453 [.mark, .saveQuery], one 37 7 [.mark]],
  /- 457 -/ [row queryChar 457, one 35 453 [.saveQuery], one 37 7],
  /- 458 -/ [row pchar 455, one 35 453, one 37 5, one 47 459, one 63 456],
  /- 459 -/ [one 2 9 [.mark], row nameNoDigit 467 [.mark], one 35 453 [.mark, .saveHost],
    one 37 31 [.mark], one 47 455 [.mark, .saveHost], one 48 490 [.mark],
    one 49 504 [.mark], one 50 506 [.mark], row [(51, 57)] 505 [.mark],
    one 58 468 [.mark, .saveHost], one 63 456 [.mark, .saveHost],
    one 64 469 [.mark, .saveUserinfo], one 91 38 [.mark]],
  /- 460 -/  relativeEnd,
  /- 461 -/ [one 35 453 [.mark, .savePort], one 47 455 [.mark, .savePort],
    row digit 462 [.mark], one 63 456 [.mark, .savePort]],
  /- 462 -/ [one 35 453 [.savePort], one 47 455 [.savePort], row digit 462,
    one 63 456 [.savePort]],
  /- 463 -/ [row digit 464] ++ relativeEnd,
  /- 464 -/ [row digit 460] ++ relativeEnd,
  /- 465 -/ [row [(48, 52), (54, 57)] 460, one 53 466] ++ relativeEnd,
  /- 466 -/ [row [(48, 53)] 460] ++ relativeEnd,
  /- 467 -/ [row name 467] ++ relativeName,
  /- 468 -/ [row userNoDigit 33, one 35 453 [.mark, .savePort], one 37 34,
    one 47 455 [.mark, .savePort], row digit 489 [.mark], one 63 456 [.mark, .savePort],
    one 64 469 [.saveUserinfo]],
  /- 469 -/ [one 2 9 [.mark], row nameNoDigit 470 [.mark], one 35 453 [.mark, .saveHost],
    one 37 36 [.mark], one 47 455 [.mark, .saveHost], one 48 471 [.mark],
    one 49 485 [.mark], one 50 487 [.mark], row [(51, 57)] 486 [.mark],
    one 58 461 [.mark, .saveHost], one 63 456 [.mark, .saveHost], one 91 38 [.mark]],
  /- 470 -/ [row name 470] ++ relativeHost,
  /- 471 -/ [row nameNoDot 470, one 46 472] ++ relativeHost,
  /- 472 -/ [one 2 13, row nameNoDigit 470, one 48 473, one 49 481, one 50 483,
    row [(51, 57)] 482] ++ relativeHost,
  /- 473 -/ [row nameNoDot 470, one 46 474] ++ relativeHost,
  /- 474 -/ [one 2 17, row nameNoDigit 470, one 48 475, one 49 477, one 50 479,
    row [(51, 57)] 478] ++ relativeHost,
  /- 475 -/ [row nameNoDot 470, one 46 476] ++ relativeHost,
  /- 476 -/ [one 2 21, row name 470] ++ relativeHost,
  /- 477 -/ [row nameNoDotDigit 470, one 46 476, row digit 478] ++ relativeHost,
  /- 478 -/ [row nameNoDotDigit 470, one 46 476, row digit 475] ++ relativeHost,
  /- 479 -/ [row nameNoDotDigit 470, one 46 476, row [(48, 52), (54, 57)] 475,
    one 53 480] ++ relativeHost,
  /- 480 -/ [row nameFromSix 470, one 46 476, row [(48, 53)] 475] ++ relativeHost]

def states481 : Table UriAction := [
  /- 481 -/ [row nameNoDotDigit 470, one 46 474, row digit 482] ++ relativeHost,
  /- 482 -/ [row nameNoDotDigit 470, one 46 474, row digit 473] ++ relativeHost,
  /- 483 -/ [row nameNoDotDigit 470, one 46 474, row [(48, 52), (54, 57)] 473,
    one 53 484] ++ relativeHost,
  /- 484 -/ [row nameFromSix 470, one 46 474, row [(48, 53)] 473] ++ relativeHost,
  /- 485 -/ [row nameNoDotDigit 470, one 46 472, row digit 486] ++ relativeHost,
  /- 486 -/ [row nameNoDotDigit 470, one 46 472, row digit 471] ++ relativeHost,
  /- 487 -/ [row nameNoDotDigit 470, one 46 472, row [(48, 52), (54, 57)] 471,
    one 53 488] ++ relativeHost,
  /- 488 -/ [row nameFromSix 470, one 46 472, row [(48, 53)] 471] ++ relativeHost,
  /- 489 -/ [row userNoDigit 33, one 35 453 [.savePort], one 37 34, one 47 455 [.savePort],
    row digit 489, one 63 456 [.savePort], one 64 469 [.saveUserinfo]],
  /- 490 -/ [row nameNoDot 467, one 46 491] ++ relativeName,
  /- 491 -/ [one 2 13, row nameNoDigit 467, one 48 492, one 49 500, one 50 502,
    row [(51, 57)] 501] ++ relativeName,
  /- 492 -/ [row nameNoDot 467, one 46 493] ++ relativeName,
  /- 493 -/ [one 2 17, row nameNoDigit 467, one 48 494, one 49 496, one 50 498,
    row [(51, 57)] 497] ++ relativeName,
  /- 494 -/ [row nameNoDot 467, one 46 495] ++ relativeName,
  /- 495 -/ [one 2 21, row name 467] ++ relativeName,
  /- 496 -/ [row nameNoDotDigit 467, one 46 495, row digit 497] ++ relativeName,
  /- 497 -/ [row nameNoDotDigit 467, one 46 495, row digit 494] ++ relativeName,
  /- 498 -/ [row nameNoDotDigit 467, one 46 495, row [(48, 52), (54, 57)] 494,
    one 53 499] ++ relativeName,
  /- 499 -/ [row nameFromSix 467, one 46 495, row [(48, 53)] 494] ++ relativeName,
  /- 500 -/ [row nameNoDotDigit 467, one 46 493, row digit 501] ++ relativeName,
  /- 501 -/ [row nameNoDotDigit 467, one 46 493, row digit 492] ++ relativeName,
  /- 502 -/ [row nameNoDotDigit 467, one 46 493, row [(48, 52), (54, 57)] 492,
    one 53 503] ++ relativeName,
  /- 503 -/ [row nameFromSix 467, one 46 493, row [(48, 53)] 492] ++ relativeName,
  /- 504 -/ [row nameNoDotDigit 467, one 46 491, row digit 505] ++ relativeName,
  /- 505 -/ [row nameNoDotDigit 467, one 46 491, row digit 490] ++ relativeName,
  /- 506 -/ [row nameNoDotDigit 467, one 46 491, row [(48, 52), (54, 57)] 490,
    one 53 507] ++ relativeName,
  /- 507 -/ [row nameFromSix 467, one 46 491, row [(48, 53)] 490] ++ relativeName,
  /- 508 -/ [ row [(33, 33), (36, 36), (38, 42), (44, 44), (59, 59), (61, 61), (64, 64),
      (95, 95), (126, 126), (128, 255)] 452, one 35 453, one 37 3,
    row [(43, 43), (45, 46), (48, 57), (65, 90), (97, 122)] 508, one 47 455,
    one 58 509 [.saveScheme], one 63 456],
  /- 509 -/ [row pchar 455, one 35 453, one 37 5, one 47 510, one 63 456],
  /- 510 -/ [row pchar 455, one 35 453, one 37 5, one 47 511, one 63 456],
  /- 511 -/ [one 2 229 [.mark], row nameNoDigit 520 [.mark],
    one 35 453 [.mark, .saveHost, .savePath], one 37 253 [.mark],
    one 47 513 [.mark, .saveHost], one 48 543 [.mark], one 49 557 [.mark],
    one 50 559 [.mark], row [(51, 57)] 558 [.mark], one 58 521 [.mark, .saveHost],
    one 63 456 [.mark, .saveHost, .savePath], one 64 522 [.mark, .saveUserinfo],
    one 91 260 [.mark]],
  /- 512 -/  uriEnd,
  /- 513 -/ [row pathChar 513, one 35 453 [.savePath], one 37 243, one 63 456 [.savePath]],
  /- 514 -/ [one 35 453 [.mark, .savePort, .savePath], one 47 513 [.mark, .savePort],
    row digit 515 [.mark], one 63 456 [.mark, .savePort, .savePath]],
  /- 515 -/ [one 35 453 [.savePort, .mark, .savePath], one 47 513 [.savePort, .mark],
    row digit 515, one 63 456 [.savePort, .mark, .savePath]],
  /- 516 -/ [row digit 517] ++ uriEnd,
  /- 517 -/ [row digit 512] ++ uriEnd,
  /- 518 -/ [row [(48, 52), (54, 57)] 512, one 53 519] ++ uriEnd,
  /- 519 -/ [row [(48, 53)] 512] ++ uriEnd,
  /- 520 -/ [row name 520] ++ uriName]

def states521 : Table UriAction := [
  /- 521 -/ [row userNoDigit 255, one 35 453 [.mark, .savePort, .savePath], one 37 256,
    one 47 513 [.mark, .savePort], row digit 542 [.mark],
    one 63 456 [.mark, .savePort, .savePath], one 64 522 [.saveUserinfo]],
  /- 522 -/ [one 2 229 [.mark], row nameNoDigit 523 [.mark],
    one 35 453 [.mark, .saveHost, .savePath], one 37 258 [.mark],
    one 47 513 [.mark, .saveHost], one 48 524 [.mark], one 49 538 [.mark],
    one 50 540 [.mark], row [(51, 57)] 539 [.mark], one 58 514 [.mark, .saveHost],
    one 63 456 [.mark, .saveHost, .savePath], one 91 260 [.mark]],
  /- 523 -/ [row name 523] ++ uriHost,
  /- 524 -/ [row nameNoDot 523, one 46 525] ++ uriHost,
  /- 525 -/ [one 2 233, row nameNoDigit 523, one 48 526, one 49 534, one 50 536,
    row [(51, 57)] 535] ++ uriHost,
  /- 526 -/ [row nameNoDot 523, one 46 527] ++ uriHost,
  /- 527 -/ [one 2 237, row nameNoDigit 523, one 48 528, one 49 530, one 50 532,
    row [(51, 57)] 531] ++ uriHost,
  /- 528 -/ [row nameNoDot 523, one 46 529] ++ uriHost,
  /- 529 -/ [one 2 241, row name 523] ++ uriHost,
  /- 530 -/ [row nameNoDotDigit 523, one 46 529, row digit 531] ++ uriHost,
  /- 531 -/ [row nameNoDotDigit 523, one 46 529, row digit 528] ++ uriHost,
  /- 532 -/ [row nameNoDotDigit 523, one 46 529, row [(48, 52), (54, 57)] 528,
    one 53 533] ++ uriHost,
  /- 533 -/ [row nameFromSix 523, one 46 529, row [(48, 53)] 528] ++ uriHost,
  /- 534 -/ [row nameNoDotDigit 523, one 46 527, row digit 535] ++ uriHost,
  /- 535 -/ [row nameNoDotDigit 523, one 46 527, row digit 526] ++ uriHost,
  /- 536 -/ [row nameNoDotDigit 523, one 46 527, row [(48, 52), (54, 57)] 526,
    one 53 537] ++ uriHost,
  /- 537 -/ [row nameFromSix 523, one 46 527, row [(48, 53)] 526] ++ uriHost,
  /- 538 -/ [row nameNoDotDigit 523, one 46 525, row digit 539] ++ uriHost,
  /- 539 -/ [row nameNoDotDigit 523, one 46 525, row digit 524] ++ uriHost,
  /- 540 -/ [row nameNoDotDigit 523, one 46 525, row [(48, 52), (54, 57)] 524,
    one 53 541] ++ uriHost,
  /- 541 -/ [row nameFromSix 523, one 46 525, row [(48, 53)] 524] ++ uriHost,
  /- 542 -/ [row userNoDigit 255, one 35 453 [.savePort, .mark, .savePath], one 37 256,
    one 47 513 [.savePort, .mark], row digit 542, one 63 456 [.savePort, .mark, .savePath],
    one 64 522 [.saveUserinfo]],
  /- 543 -/ [row nameNoDot 520, one 46 544] ++ uriName,
  /- 544 -/ [one 2 233, row nameNoDigit 520, one 48 545, one 49 553, one 50 555,
    row [(51, 57)] 554] ++ uriName,
  /- 545 -/ [row nameNoDot 520, one 46 546] ++ uriName,
  /- 546 -/ [one 2 237, row nameNoDigit 520, one 48 547, one 49 549, one 50 551,
    row [(51, 57)] 550] ++ uriName,
  /- 547 -/ [row nameNoDot 520, one 46 548] ++ uriName,
  /- 548 -/ [one 2 241, row name 520] ++ uriName,
  /- 549 -/ [row nameNoDotDigit 520, one 46 548, row digit 550] ++ uriName,
  /- 550 -/ [row nameNoDotDigit 520, one 46 548, row digit 547] ++ uriName,
  /- 551 -/ [row nameNoDotDigit 520, one 46 548, row [(48, 52), (54, 57)] 547,
    one 53 552] ++ uriName,
  /- 552 -/ [row nameFromSix 520, one 46 548, row [(48, 53)] 547] ++ uriName,
  /- 553 -/ [row nameNoDotDigit 520, one 46 546, row digit 554] ++ uriName,
  /- 554 -/ [row nameNoDotDigit 520, one 46 546, row digit 545] ++ uriName,
  /- 555 -/ [row nameNoDotDigit 520, one 46 546, row [(48, 52), (54, 57)] 545,
    one 53 556] ++ uriName,
  /- 556 -/ [row nameFromSix 520, one 46 546, row [(48, 53)] 545] ++ uriName,
  /- 557 -/ [row nameNoDotDigit 520, one 46 544, row digit 558] ++ uriName,
  /- 558 -/ [row nameNoDotDigit 520, one 46 544, row digit 543] ++ uriName,
  /- 559 -/ [row nameNoDotDigit 520, one 46 544, row [(48, 52), (54, 57)] 543,
    one 53 560] ++ uriName,
  /- 560 -/ [row nameFromSix 520, one 46 544, row [(48, 53)] 543] ++ uriName]

end UriTable

open UriTable in
/-- The rows of the states `0` to `560`. -/
def uriTable : Table UriAction :=
  [[[]], states1, states41, states81, states121, states161, states201, states241,
    states281, states321, states361, states401, states441, states481, states521].flatten

/-- The actions at the end of the string, by ranges of states. -/
def uriEofTable : List (List (ℕ × ℕ) × List UriAction) :=
  [([(453, 453)], [.mark, .saveFragment]), ([(454, 454)], [.saveFragment]),
    ([(456, 456)], [.mark, .saveQuery]), ([(457, 457)], [.saveQuery]),
    ([(459, 459), (469, 469)], [.mark, .saveHost]),
    ([(460, 460), (463, 467), (470, 488), (490, 507)], [.saveHost]),
    ([(461, 461), (468, 468)], [.mark, .savePort]),
    ([(462, 462), (489, 489)], [.savePort]),
    ([(511, 511), (522, 522)], [.mark, .saveHost, .savePath]),
    ([(512, 512), (516, 520), (523, 541), (543, 560)], [.saveHost, .mark, .savePath]),
    ([(513, 513)], [.savePath]),
    ([(514, 514), (521, 521)], [.mark, .savePort, .savePath]),
    ([(515, 515), (542, 542)], [.savePort, .mark, .savePath])]

end Skt
