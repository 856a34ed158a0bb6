import Skt.Lib.Ragel

/-!
# The response automaton

The transitions of the scanner generated from `httpclient_parser.rl`, read off
`httpclient_parser.rl.cpp` state by state: start state `1`, error state `0`,
first final state `120`. A response header block and a chunk header both end
in one of the states `120` to `123`.
-/

namespace Skt

namespace Http

open Lib.Ragel

/-- The actions of `httpclient_parser.rl`; `start_value` is the same code as
`mark`. -/
inductive ResponseAction
  | mark
  | startField
  | writeField
  | writeContentLen
  | writeConnectionClose
  | writeValue
  | reasonPhrase
  | statusCode
  | httpVersion
  | chunkSize
  | transChunked
  | done
  deriving DecidableEq, Repr

namespace ResponseTable

/-! ## Classes that occur often -/

def digit : List (ℕ × ℕ) :=
  [(48, 57)]

def xdigit : List (ℕ × ℕ) :=
  [(48, 57), (65, 70), (97, 102)]

def token : List (ℕ × ℕ) :=
  [(33, 33), (35, 39), (42, 43), (45, 46), (48, 57), (65, 90), (94, 122),
    (124, 124), (126, 126)]

/-- The bytes of `token` without some letters, in both cases. -/
def tokenNotN : List (ℕ × ℕ) :=
  [(33, 33), (35, 39), (42, 43), (45, 46), (48, 57), (65, 77), (79, 90), (94, 109),
    (111, 122), (124, 124), (126, 126)]

def tokenNotE : List (ℕ × ℕ) :=
  [(33, 33), (35, 39), (42, 43), (45, 46), (48, 57), (65, 68), (70, 90), (94, 100),
    (102, 122), (124, 124), (126, 126)]

def tokenNotCT : List (ℕ × ℕ) :=
  [(33, 33), (35, 39), (42, 43), (45, 46), (48, 57), (65, 66), (68, 83), (85, 90),
    (94, 98), (100, 115), (117, 122), (124, 124), (126, 126)]

def tokenNotO : List (ℕ × ℕ) :=
  [(33, 33), (35, 39), (42, 43), (45, 46), (48, 57), (65, 78), (80, 90), (94, 110),
    (112, 122), (124, 124), (126, 126)]

def tokenNotT : List (ℕ × ℕ) :=
  [(33, 33), (35, 39), (42, 43), (45, 46), (48, 57), (65, 83), (85, 90), (94, 115),
    (117, 122), (124, 124), (126, 126)]

def space : List (ℕ × ℕ) :=
  [(9, 13), (32, 32)]

def blank : List (ℕ × ℕ) :=
  [(9, 9), (11, 12), (32, 32)]

def blankCr : List (ℕ × ℕ) :=
  [(9, 9), (11, 13), (32, 32)]

def notNewline : List (ℕ × ℕ) :=
  [(0, 9), (11, 12), (14, 255)]

/-! ## The states -/

def states1 : Table ResponseAction := [
  /- 1 -/ [row xdigit 2 [.mark], one 72 8 [.mark]],
  /- 2 -/ [one 10 120 [.chunkSize, .done], one 13 3 [.chunkSize], row xdigit 2,
    one 59 4 [.chunkSize]],
  /- 3 -/ [one 10 120 [.done]],
  /- 4 -/ [row token 5 [.startField]],
  /- 5 -/ [one 10 120 [.writeField, .mark, .writeValue, .done],
    one 13 3 [.writeField, .mark, .writeValue], row token 5,
    one 59 4 [.writeField, .mark, .writeValue], one 61 6 [.writeField, .mark]],
  /- 6 -/ [row token 7 [.mark]],
  /- 7 -/ [one 10 120 [.writeValue, .done], one 13 3 [.writeValue], row token 7,
    one 59 4 [.writeValue]],
  /- 8 -/ [one 84 9],
  /- 9 -/ [one 84 10],
  /- 10 -/ [one 80 11],
  /- 11 -/ [one 47 12],
  /- 12 -/ [row digit 13],
  /- 13 -/ [one 46 14, row digit 13],
  /- 14 -/ [row digit 15],
  /- 15 -/ [one 32 16 [.httpVersion], row digit 15],
  /- 16 -/ [row digit 17 [.mark]],
  /- 17 -/ [one 32 18 [.statusCode], row digit 17],
  /- 18 -/ [row [(0, 9), (11, 255)] 19 [.mark]],
  /- 19 -/ [row notNewline 19, one 10 20 [.reasonPhrase], one 13 24 [.reasonPhrase]],
  /- 20 -/ [one 10 120 [.done], one 13 3, row tokenNotCT 21 [.startField],
    row [(67, 67), (99, 99)] 25 [.startField], row [(84, 84), (116, 116)] 44 [.startField]],
  /- 21 -/ [row token 21, one 58 22 [.writeField]],
  /- 22 -/ [row [(0, 8), (14, 31), (33, 255)] 23 [.mark], row blank 22 [.mark],
    one 10 20 [.mark, .writeValue], one 13 24 [.mark, .writeValue]],
  /- 23 -/ [row notNewline 23, one 10 20 [.writeValue], one 13 24 [.writeValue]],
  /- 24 -/ [one 10 20],
  /- 25 -/ [row tokenNotO 21, one 58 22 [.writeField], row [(79, 79), (111, 111)] 26],
  /- 26 -/ [row tokenNotN 21, one 58 22 [.writeField], row [(78, 78), (110, 110)] 27],
  /- 27 -/ [row [(33, 33), (35, 39), (42, 43), (45, 46), (48, 57), (65, 77), (79, 83),
      (85, 90), (94, 109), (111, 115), (117, 122), (124, 124), (126, 126)] 21,
    one 58 22 [.writeField], row [(78, 78), (110, 110)] 28, row [(84, 84), (116, 116)] 101],
  /- 28 -/ [row tokenNotE 21, one 58 22 [.writeField], row [(69, 69), (101, 101)] 29],
  /- 29 -/ [row [(33, 33), (35, 39), (42, 43), (45, 46), (48, 57), (65, 66), (68, 90),
      (94, 98), (100, 122), (124, 124), (126, 126)] 21, one 58 22 [.writeField],
    row [(67, 67), (99, 99)] 30],
  /- 30 -/ [row tokenNotT 21, one 58 22 [.writeField], row [(84, 84), (116, 116)] 31]]

def states31 : Table ResponseAction := [
  /- 31 -/ [row [(33, 33), (35, 39), (42, 43), (45, 46), (48, 57), (65, 72), (74, 90),
      (94, 104), (106, 122), (124, 124), (126, 126)] 21, one 58 22 [.writeField],
    row [(73, 73), (105, 105)] 32],
  /- 32 -/ [row tokenNotO 21, one 58 22 [.writeField], row [(79, 79), (111, 111)] 33],
  /- 33 -/ [row tokenNotN 21, one 58 22 [.writeField], row [(78, 78), (110, 110)] 34],
  /- 34 -/ [row token 21, one 58 35 [.writeField]],
  /- 35 -/ [row [(0, 8), (14, 31), (33, 66), (68, 98), (100, 255)] 23 [.mark],
    row blank 35 [.mark], one 10 36 [.mark, .writeValue], one 13 95 [.mark, .writeValue],
    row [(67, 67), (99, 99)] 96 [.mark]],
  /- 36 -/ [row blank 37, one 10 122 [.done], one 13 89, row tokenNotCT 21 [.startField],
    row [(67, 67), (99, 99)] 90 [.startField], row [(84, 84), (116, 116)] 44 [.startField]],
  /- 37 -/ [row space 37, row [(67, 67), (99, 99)] 38],
  /- 38 -/ [row [(76, 76), (108, 108)] 39],
  /- 39 -/ [row [(79, 79), (111, 111)] 40],
  /- 40 -/ [row [(83, 83), (115, 115)] 41],
  /- 41 -/ [row [(69, 69), (101, 101)] 42],
  /- 42 -/ [one 10 43, one 13 88],
  /- 43 -/ [one 10 120 [.writeConnectionClose, .done], one 13 3 [.writeConnectionClose],
    row tokenNotCT 21 [.writeConnectionClose, .startField],
    row [(67, 67), (99, 99)] 25 [.writeConnectionClose, .startField],
    row [(84, 84), (116, 116)] 44 [.writeConnectionClose, .startField]],
  /- 44 -/ [row [(33, 33), (35, 39), (42, 43), (45, 46), (48, 57), (65, 81), (83, 90),
      (94, 113), (115, 122), (124, 124), (126, 126)] 21, one 58 22 [.writeField],
    row [(82, 82), (114, 114)] 45],
  /- 45 -/ [row [(33, 33), (35, 39), (42, 43), (45, 46), (48, 57), (66, 90), (94, 96),
      (98, 122), (124, 124), (126, 126)] 21, one 58 22 [.writeField],
    row [(65, 65), (97, 97)] 46],
  /- 46 -/ [row tokenNotN 21, one 58 22 [.writeField], row [(78, 78), (110, 110)] 47],
  /- 47 -/ [row [(33, 33), (35, 39), (42, 43), (45, 46), (48, 57), (65, 82), (84, 90),
      (94, 114), (116, 122), (124, 124), (126, 126)] 21, one 58 22 [.writeField],
    row [(83, 83), (115, 115)] 48],
  /- 48 -/ [row [(33, 33), (35, 39), (42, 43), (45, 46), (48, 57), (65, 69), (71, 90),
      (94, 101), (103, 122), (124, 124), (126, 126)] 21, one 58 22 [.writeField],
    row [(70, 70), (102, 102)] 49],
  /- 49 -/ [row tokenNotE 21, one 58 22 [.writeField], row [(69, 69), (101, 101)] 50],
  /- 50 -/ [row [(33, 33), (35, 39), (42, 43), (45, 46), (48, 57), (65, 81), (83, 90),
      (94, 113), (115, 122), (124, 124), (126, 126)] 21, one 58 22 [.writeField],
    row [(82, 82), (114, 114)] 51],
  /- 51 -/ [row [(33, 33), (35, 39), (42, 43), (46, 46), (48, 57), (65, 90), (94, 122),
      (124, 124), (126, 126)] 21, one 45 52, one 58 22 [.writeField]],
  /- 52 -/ [row tokenNotE 21, one 58 22 [.writeField], row [(69, 69), (101, 101)] 53],
  /- 53 -/ [row tokenNotN 21, one 58 22 [.writeField], row [(78, 78), (110, 110)] 54],
  /- 54 -/ [row [(33, 33), (35, 39), (42, 43), (45, 46), (48, 57), (65, 66), (68, 90),
      (94, 98), (100, 122), (124, 124), (126, 126)] 21, one 58 22 [.writeField],
    row [(67, 67), (99, 99)] 55],
  /- 55 -/ [row tokenNotO 21, one 58 22 [.writeField], row [(79, 79), (111, 111)] 56],
  /- 56 -/ [row [(33, 33), (35, 39), (42, 43), (45, 46), (48, 57), (65, 67), (69, 90),
      (94, 99), (101, 122), (124, 124), (126, 126)] 21, one 58 22 [.writeField],
    row [(68, 68), (100, 100)] 57],
  /- 57 -/ [row [(33, 33), (35, 39), (42, 43), (45, 46), (48, 57), (65, 72), (74, 90),
      (94, 104), (106, 122), (124, 124), (126, 126)] 21, one 58 22 [.writeField],
    row [(73, 73), (105, 105)] 58],
  /- 58 -/ [row tokenNotN 21, one 58 22 [.writeField], row [(78, 78), (110, 110)] 59],
  /- 59 -/ [row [(33, 33), (35, 39), (42, 43), (45, 46), (48, 57), (65, 70), (72, 90),
      (94, 102), (104, 122), (124, 124), (126, 126)] 21, one 58 22 [.writeField],
    row [(71, 71), (103, 103)] 60],
  /- 60 -/ [row token 21, one 58 61 [.writeField]]]

def states61 : Table ResponseAction := [
  /- 61 -/ [row [(0, 8), (14, 31), (33, 66), (68, 98), (100, 255)] 23 [.mark],
    row blank 61 [.mark], one 10 62 [.mark, .writeValue], one 13 80 [.mark, .writeValue],
    row [(67, 67), (99, 99)] 81 [.mark]],
  /- 62 -/ [row blank 63, one 10 121 [.done], one 13 72, row tokenNotCT 21 [.startField],
    row [(67, 67), (99, 99)] 73 [.mark, .startField],
    row [(84, 84), (116, 116)] 44 [.startField]],
  /- 63 -/ [row space 63, row [(67, 67), (99, 99)] 64 [.mark]],
  /- 64 -/ [row [(72, 72), (104, 104)] 65],
  /- 65 -/ [row [(85, 85), (117, 117)] 66],
  /- 66 -/ [row [(78, 78), (110, 110)] 67],
  /- 67 -/ [row [(75, 75), (107, 107)] 68],
  /- 68 -/ [row [(69, 69), (101, 101)] 69],
  /- 69 -/ [row [(68, 68), (100, 100)] 70],
  /- 70 -/ [one 10 20 [.writeValue, .transChunked], one 13 71 [.writeValue]],
  /- 71 -/ [one 10 20 [.transChunked]],
  /- 72 -/ [row blankCr 63, one 10 121 [.done], row [(67, 67), (99, 99)] 64 [.mark]],
  /- 73 -/ [row [(33, 33), (35, 39), (42, 43), (45, 46), (48, 57), (65, 71), (73, 78),
      (80, 90), (94, 103), (105, 110), (112, 122), (124, 124), (126, 126)] 21,
    one 58 22 [.writeField], row [(72, 72), (104, 104)] 74, row [(79, 79), (111, 111)] 26],
  /- 74 -/ [row [(33, 33), (35, 39), (42, 43), (45, 46), (48, 57), (65, 84), (86, 90),
      (94, 116), (118, 122), (124, 124), (126, 126)] 21, one 58 22 [.writeField],
    row [(85, 85), (117, 117)] 75],
  /- 75 -/ [row tokenNotN 21, one 58 22 [.writeField], row [(78, 78), (110, 110)] 76],
  /- 76 -/ [row [(33, 33), (35, 39), (42, 43), (45, 46), (48, 57), (65, 74), (76, 90),
      (94, 106), (108, 122), (124, 124), (126, 126)] 21, one 58 22 [.writeField],
    row [(75, 75), (107, 107)] 77],
  /- 77 -/ [row tokenNotE 21, one 58 22 [.writeField], row [(69, 69), (101, 101)] 78],
  /- 78 -/ [row [(33, 33), (35, 39), (42, 43), (45, 46), (48, 57), (65, 67), (69, 90),
      (94, 99), (101, 122), (124, 124), (126, 126)] 21, one 58 22 [.writeField],
    row [(68, 68), (100, 100)] 79],
  /- 79 -/ [one 10 20 [.writeValue, .transChunked], one 13 71 [.writeValue], row token 21,
    one 58 22 [.writeField]],
  /- 80 -/ [row blankCr 63, one 10 62, row [(67, 67), (99, 99)] 64 [.mark]],
  /- 81 -/ [row [(0, 9), (11, 12), (14, 71), (73, 103), (105, 255)] 23,
    one 10 20 [.writeValue], one 13 24 [.writeValue], row [(72, 72), (104, 104)] 82],
  /- 82 -/ [row [(0, 9), (11, 12), (14, 84), (86, 116), (118, 255)] 23,
    one 10 20 [.writeValue], one 13 24 [.writeValue], row [(85, 85), (117, 117)] 83],
  /- 83 -/ [row [(0, 9), (11, 12), (14, 77), (79, 109), (111, 255)] 23,
    one 10 20 [.writeValue], one 13 24 [.writeValue], row [(78, 78), (110, 110)] 84],
  /- 84 -/ [row [(0, 9), (11, 12), (14, 74), (76, 106), (108, 255)] 23,
    one 10 20 [.writeValue], one 13 24 [.writeValue], row [(75, 75), (107, 107)] 85],
  /- 85 -/ [row [(0, 9), (11, 12), (14, 68), (70, 100), (102, 255)] 23,
    one 10 20 [.writeValue], one 13 24 [.writeValue], row [(69, 69), (101, 101)] 86],
  /- 86 -/ [row [(0, 9), (11, 12), (14, 67), (69, 99), (101, 255)] 23,
    one 10 20 [.writeValue], one 13 24 [.writeValue], row [(68, 68), (100, 100)] 87],
  /- 87 -/ [row notNewline 23, one 10 20 [.writeValue, .transChunked],
    one 13 71 [.writeValue]],
  /- 88 -/ [one 10 43],
  /- 89 -/ [row blankCr 37, one 10 122 [.done], row [(67, 67), (99, 99)] 38],
  /- 90 -/ [row [(33, 33), (35, 39), (42, 43), (45, 46), (48, 57), (65, 75), (77, 78),
      (80, 90), (94, 107), (109, 110), (112, 122), (124, 124), (126, 126)] 21,
    one 58 22 [.writeField], row [(76, 76), (108, 108)] 91, row [(79, 79), (111, 111)] 26]]

def states91 : Table ResponseAction := [
  /- 91 -/ [row tokenNotO 21, one 58 22 [.writeField], row [(79, 79), (111, 111)] 92],
  /- 92 -/ [row [(33, 33), (35, 39), (42, 43), (45, 46), (48, 57), (65, 82), (84, 90),
      (94, 114), (116, 122), (124, 124), (126, 126)] 21, one 58 22 [.writeField],
    row [(83, 83), (115, 115)] 93],
  /- 93 -/ [row tokenNotE 21, one 58 22 [.writeField], row [(69, 69), (101, 101)] 94],
  /- 94 -/ [one 10 43, one 13 88, row token 21, one 58 22 [.writeField]],
  /- 95 -/ [row blankCr 37, one 10 36, row [(67, 67), (99, 99)] 38],
  /- 96 -/ [row [(0, 9), (11, 12), (14, 75), (77, 107), (109, 255)] 23,
    one 10 20 [.writeValue], one 13 24 [.writeValue], row [(76, 76), (108, 108)] 97],
  /- 97 -/ [row [(0, 9), (11, 12), (14, 78), (80, 110), (112, 255)] 23,
    one 10 20 [.writeValue], one 13 24 [.writeValue], row [(79, 79), (111, 111)] 98],
  /- 98 -/ [row [(0, 9), (11, 12), (14, 82), (84, 114), (116, 255)] 23,
    one 10 20 [.writeValue], one 13 24 [.writeValue], row [(83, 83), (115, 115)] 99],
  /- 99 -/ [row [(0, 9), (11, 12), (14, 68), (70, 100), (102, 255)] 23,
    one 10 20 [.writeValue], one 13 24 [.writeValue], row [(69, 69), (101, 101)] 100],
  /- 100 -/ [row notNewline 23, one 10 43 [.writeValue], one 13 88 [.writeValue]],
  /- 101 -/ [row tokenNotE 21, one 58 22 [.writeField], row [(69, 69), (101, 101)] 102],
  /- 102 -/ [row tokenNotN 21, one 58 22 [.writeField], row [(78, 78), (110, 110)] 103],
  /- 103 -/ [row tokenNotT 21, one 58 22 [.writeField], row [(84, 84), (116, 116)] 104],
  /- 104 -/ [row [(33, 33), (35, 39), (42, 43), (46, 46), (48, 57), (65, 90), (94, 122),
      (124, 124), (126, 126)] 21, one 45 105, one 58 22 [.writeField]],
  /- 105 -/ [row [(33, 33), (35, 39), (42, 43), (45, 46), (48, 57), (65, 75), (77, 90),
      (94, 107), (109, 122), (124, 124), (126, 126)] 21, one 58 22 [.writeField],
    row [(76, 76), (108, 108)] 106],
  /- 106 -/ [row tokenNotE 21, one 58 22 [.writeField], row [(69, 69), (101, 101)] 107],
  /- 107 -/ [row tokenNotN 21, one 58 22 [.writeField], row [(78, 78), (110, 110)] 108],
  /- 108 -/ [row [(33, 33), (35, 39), (42, 43), (45, 46), (48, 57), (65, 70), (72, 90),
      (94, 102), (104, 122), (124, 124), (126, 126)] 21, one 58 22 [.writeField],
    row [(71, 71), (103, 103)] 109],
  /- 109 -/ [row tokenNotT 21, one 58 22 [.writeField], row [(84, 84), (116, 116)] 110],
  /- 110 -/ [row [(33, 33), (35, 39), (42, 43), (45, 46), (48, 57), (65, 71), (73, 90),
      (94, 103), (105, 122), (124, 124), (126, 126)] 21, one 58 22 [.writeField],
    row [(72, 72), (104, 104)] 111],
  /- 111 -/ [row token 21, one 58 112 [.writeField]],
  /- 112 -/ [row [(0, 8), (14, 31), (33, 47), (58, 255)] 23 [.mark], row blank 112 [.mark],
    one 10 113 [.mark, .writeValue], one 13 118 [.mark, .writeValue],
    row digit 119 [.mark]],
  /- 113 -/ [row blank 114, one 10 123 [.done], one 13 116,
    row [(33, 33), (35, 39), (42, 43), (45, 46), (65, 66), (68, 83), (85, 90), (94, 98),
      (100, 115), (117, 122), (124, 124), (126, 126)] 21 [.startField],
    row digit 117 [.mark, .startField], row [(67, 67), (99, 99)] 25 [.startField],
    row [(84, 84), (116, 116)] 44 [.startField]],
  /- 114 -/ [row space 114, row digit 115 [.mark]],
  /- 115 -/ [one 10 20 [.writeContentLen, .writeValue],
    one 13 24 [.writeContentLen, .writeValue], row digit 115],
  /- 116 -/ [row blankCr 114, one 10 123 [.done], row digit 115 [.mark]],
  /- 117 -/ [one 10 20 [.writeContentLen, .writeValue],
    one 13 24 [.writeContentLen, .writeValue],
    row [(33, 33), (35, 39), (42, 43), (45, 46), (65, 90), (94, 122), (124, 124),
      (126, 126)] 21, row digit 117, one 58 22 [.writeField]],
  /- 118 -/ [row blankCr 114, one 10 113, row digit 115 [.mark]],
  /- 119 -/ [row [(0, 9), (11, 12), (14, 47), (58, 255)] 23,
    one 10 20 [.writeContentLen, .writeValue], one 13 24 [.writeContentLen, .writeValue],
    row digit 119],
  /- 120 -/ []]

def states121 : Table ResponseAction := [
  /- 121 -/ [row space 63, row [(67, 67), (99, 99)] 64 [.mark]],
  /- 122 -/ [row space 37, row [(67, 67), (99, 99)] 38],
  /- 123 -/ [row space 114, row digit 115 [.mark]]]

end ResponseTable

open ResponseTable in
/-- The rows of the states `0` to `123`. -/
def responseTable : Table ResponseAction :=
  [[]] ++ states1 ++ states31 ++ states61 ++ states91 ++ states121

end Http

end Skt
