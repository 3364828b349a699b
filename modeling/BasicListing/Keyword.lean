/-
  Keywords: what the tokens of a program stand for, and programs as text.

  * `Keywords`: a table from token bytes to keywords.
  * `Keywords.standard`: the keywords of Applesoft.  A keyword that takes an
    operand carries the space behind it; the space before a keyword is put
    there by `expand` where one is needed.
  * `Keywords.expand`: the text of a run of bytes.
-/
import BasicListing.Text.Basic

namespace BasicListing

/-- A table of keywords.  A token without an entry has no text. -/
abbrev Keywords := UInt8 → Option Text

namespace Keywords

/-- The table with these entries; of several entries for one byte the last counts. -/
def ofEntries (entries : List (UInt8 × String)) : Keywords := fun b =>
  entries.foldl (fun found entry => if entry.1 = b then some entry.2.toList else found) none

/-- The entries of the standard table. -/
def standardEntries : List (UInt8 × String) :=
  [(0x80, "END"), (0x81, "FOR "), (0x82, "NEXT "), (0x83, "DATA "), (0x84, "INPUT "),
   (0x85, "DEL"), (0x86, "DIM "), (0x87, "READ "), (0x88, "GR"), (0x89, "TEXT"), (0x8A, "PR# "),
   (0x8B, "IN# "), (0x8C, "CALL "), (0x8D, "PLOT "), (0x8E, "HLIN "), (0x8F, "VLIN "),
   (0x90, "HGR2"), (0x91, "HGR"), (0x92, "HCOLOR="), (0x93, "HPLOT "), (0x94, "DRAW "),
   (0x95, "XDRAW "), (0x96, "HTAB "), (0x97, "HOME"), (0x98, "ROT="), (0x99, "SCALE="),
   (0x9A, "SHLOAD"), (0x9B, "TRACE"), (0x9C, "NOTRACE"), (0x9D, "NORMAL"), (0x9E, "INVERSE"),
   (0x9F, "FLASH"), (0xA0, "COLOR="), (0xA1, "POP"), (0xA2, "VTAB "), (0xA3, "HIMEM:"),
   (0xA4, "LOMEM:"), (0xA5, "ONERR "), (0xA6, "RESUME"), (0xA7, "RECALL "), (0xA8, "STORE "),
   (0xA9, "SPEED="), (0xAA, "LET "), (0xAB, "GOTO "), (0xAC, "RUN"), (0xAD, "IF "),
   (0xAE, "RESTORE"), (0xAF, "& "), (0xB0, "GOSUB "), (0xB1, "RETURN"), (0xB2, "REM "),
   (0xB3, "STOP"), (0xB4, "ON "), (0xB5, "WAIT "), (0xB6, "LOAD"), (0xB7, "SAVE"),
   (0xB8, "DEF "), (0xB9, "POKE "), (0xBA, "PRINT "), (0xBB, "CONT"), (0xBC, "LIST"),
   (0xBD, "CLEAR"), (0xBE, "GET "), (0xBF, "NEW"), (0xC0, "TAB("), (0xC1, "TO "), (0xC2, "FN"),
   (0xC3, "SPC("), (0xC4, "THEN "), (0xC5, "AT "), (0xC6, "NOT "), (0xC7, "STEP "), (0xC8, "+ "),
   (0xC9, "- "), (0xCA, "* "), (0xCB, "/ "), (0xCC, "^ "), (0xCD, "AND "), (0xCE, "OR "),
   (0xCF, "> "), (0xD0, "= "), (0xD1, "< "), (0xD2, "SGN"), (0xD3, "INT"), (0xD4, "ABS"),
   (0xD5, "USR"), (0xD6, "FRE"), (0xD7, "SCRN("), (0xD8, "PDL"), (0xD9, "POS"), (0xDA, "SQR"),
   (0xDB, "RND"), (0xDC, "LOG"), (0xDD, "EXP"), (0xDE, "COS"), (0xDF, "SIN"), (0xE0, "TAN"),
   (0xE1, "ATN"), (0xE2, "PEEK"), (0xE3, "LEN"), (0xE4, "STR$"), (0xE5, "VAL"), (0xE6, "ASC"),
   (0xE7, "CHR$"), (0xE8, "LEFT$"), (0xE9, "RIGHT$"), (0xEA, "MID$")]
/-- The keywords of Applesoft. -/
def standard : Keywords := ofEntries standardEntries

/-! ## Expansion

The text written so far is kept with its last character first, so that its
end is at hand. -/

/-- The text with a space behind it, unless it is empty or ends in a space already. -/
def openGap : Text → Text
  | [] => []
  | ' ' :: t => ' ' :: t
  | t => ' ' :: t

/-- The text with the expansion of one more byte behind it.  A token is set off by a space, also
    if it has no keyword; a control character is shown as a caret and a letter. -/
def extend (table : Keywords) (written : Text) (b : UInt8) : Text :=
  if b > 127 then ((table b).getD []).reverseAux (openGap written)
  else if b < 32 then Char.ofNat (b.toNat + 64) :: '^' :: written
  else Char.ofNat b.toNat :: written

/-- The text of a run of bytes. -/
def expand (table : Keywords) (bytes : List UInt8) : Text :=
  (bytes.foldl table.extend []).reverse

@[simp] theorem expand_nil (table : Keywords) : table.expand [] = [] := rfl

end Keywords

end BasicListing
