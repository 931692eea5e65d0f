import EntityGraph.Unicode.Folding
import EntityGraph.Unicode.Property

/-!
# Lower case

The lower-case form of a text. Nearly every capital has one character as its lower-case form. The
capital I with a dot has two, and the capital sigma has a form of its own at the end of a word.
-/
namespace EntityGraph.Unicode

/-- Capitals whose lower-case form has a higher code point. -/
def upwardLowerings : List CaseRun := readCaseRuns 1 (numbers
  (String.join [
    "41 1a 1 20 c0 17 1 20 d8 7 1 20 100 18 2 1 132 3 2 1 139 8 2 1 14a 17 2 1 179 3 2 1 181 1 ",
    "1 d2 182 2 2 1 186 1 1 ce 187 1 1 1 189 2 1 cd 18b 1 1 1 18e 1 1 4f 18f 1 1 ca 190 1 1 cb ",
    "191 1 1 1 193 1 1 cd 194 1 1 cf 196 1 1 d3 197 1 1 d1 198 1 1 1 19c 1 1 d3 19d 1 1 d5 19f ",
    "1 1 d6 1a0 3 2 1 1a6 1 1 da 1a7 1 1 1 1a9 1 1 da 1ac 1 1 1 1ae 1 1 da 1af 1 1 1 1b1 2 1 ",
    "d9 1b3 2 2 1 1b7 1 1 db 1b8 1 1 1 1bc 1 1 1 1c4 1 1 2 1c5 1 1 1 1c7 1 1 2 1c8 1 1 1 1ca 1 ",
    "1 2 1cb 9 2 1 1de 9 2 1 1f1 1 1 2 1f2 2 2 1 1f8 14 2 1 222 9 2 1 23a 1 1 2a2b 23b 1 1 1 ",
    "23e 1 1 2a28 241 1 1 1 244 1 1 45 245 1 1 47 246 5 2 1 370 2 2 1 376 1 1 1 37f 1 1 74 386 ",
    "1 1 26 388 3 1 25 38c 1 1 40 38e 2 1 3f 391 11 1 20 3a3 9 1 20 3cf 1 1 8 3d8 c 2 1 3f7 1 ",
    "1 1 3fa 1 1 1 400 10 1 50 410 20 1 20 460 11 2 1 48a 1b 2 1 4c0 1 1 f 4c1 7 2 1 4d0 30 2 ",
    "1 531 26 1 30 10a0 26 1 1c60 10c7 1 1 1c60 10cd 1 1 1c60 13a0 50 1 97d0 13f0 6 1 8 1e00 ",
    "4b 2 1 1ea0 30 2 1 2132 1 1 1c 2160 10 1 10 2183 1 1 1 24b6 1a 1 1a 2c00 30 1 30 2c60 1 1 ",
    "1 2c67 3 2 1 2c72 1 1 1 2c75 1 1 1 2c80 32 2 1 2ceb 2 2 1 2cf2 1 1 1 a640 17 2 1 a680 e 2 ",
    "1 a722 7 2 1 a732 1f 2 1 a779 2 2 1 a77e 5 2 1 a78b 1 1 1 a790 2 2 1 a796 a 2 1 a7b3 1 1 ",
    "3a0 a7b4 8 2 1 a7c7 2 2 1 a7d0 1 1 1 a7d6 2 2 1 a7f5 1 1 1 ff21 1a 1 20 10400 28 1 28 ",
    "104b0 24 1 28 10570 b 1 27 1057c f 1 27 1058c 7 1 27 10594 2 1 27 10c80 33 1 40 118a0 20 ",
    "1 20 16e40 20 1 20 1e900 22 1 22"]))

/-- Capitals whose lower-case form has a lower code point. -/
def downwardLowerings : List CaseRun := readCaseRuns (-1) (numbers
  (String.join [
    "178 1 1 79 1f6 1 1 61 1f7 1 1 38 220 1 1 82 23d 1 1 a3 243 1 1 c3 3f4 1 1 3c 3f9 1 1 7 ",
    "3fd 3 1 82 1c90 2b 1 bc0 1cbd 3 1 bc0 1e9e 1 1 1dbf 1f08 8 1 8 1f18 6 1 8 1f28 8 1 8 1f38 ",
    "8 1 8 1f48 6 1 8 1f59 4 2 8 1f68 8 1 8 1f88 8 1 8 1f98 8 1 8 1fa8 8 1 8 1fb8 2 1 8 1fba 2 ",
    "1 4a 1fbc 1 1 9 1fc8 4 1 56 1fcc 1 1 9 1fd8 2 1 8 1fda 2 1 64 1fe8 2 1 8 1fea 2 1 70 1fec ",
    "1 1 7 1ff8 2 1 80 1ffa 2 1 7e 1ffc 1 1 9 2126 1 1 1d5d 212a 1 1 20bf 212b 1 1 2046 2c62 1 ",
    "1 29f7 2c63 1 1 ee6 2c64 1 1 29e7 2c6d 1 1 2a1c 2c6e 1 1 29fd 2c6f 1 1 2a1f 2c70 1 1 2a1e ",
    "2c7e 2 1 2a3f a77d 1 1 8a04 a78d 1 1 a528 a7aa 1 1 a544 a7ab 1 1 a54f a7ac 1 1 a54b a7ad ",
    "1 1 a541 a7ae 1 1 a544 a7b0 1 1 a512 a7b1 1 1 a52a a7b2 1 1 a515 a7c4 1 1 30 a7c5 1 1 ",
    "a543 a7c6 1 1 8a38"]))

def lowerings : List CaseRun := upwardLowerings ++ downwardLowerings

/-- The lower-case form of a character, wherever it stands. -/
def lowerChar (c : Char) : List Char :=
  if c.toNat < 128 then [Text.lower c]
  else if c = '\u0130' then ['i', '\u0307']
  else
    match lowerings.find? (·.contains c.toNat) with
    | some run => [Char.ofNat (c.toNat + run.distance).toNat]
    | none => [c]

/-- Whether the first character of a text that does not merely accompany others has case. -/
def startsCased (text : List Char) : Bool :=
  ((text.dropWhile (hasProperty "caseignorable")).head?.map (hasProperty "cased")).getD false

/-- The lower-case form of the characters that follow others, the nearest of which comes first. A
sigma ends a word if a letter stands before it and none behind it. -/
def lowerFrom (before : List Char) : List Char → List Char
  | [] => []
  | c :: rest =>
    (if c = '\u03a3' && startsCased before && !startsCased rest then ['\u03c2'] else lowerChar c)
      ++ lowerFrom (c :: before) rest

/-- The text in lower case. -/
def lowercase (text : String) : String := String.ofList (lowerFrom [] text.toList)

end EntityGraph.Unicode
