/-
  Printers: listings and hex dumps of program images.

  * `Printer.listing?`: the structured listing of an image.
  * `Printer.dump`: the bytes of an image, in a block for each line, one for
    the two zero bytes that end the program, and one for what follows.
  * `Printer.targetWarnings`, `Printer.codeWarnings`: what is reported on the way.  A
    dump only decodes, a listing does both.
-/
import BasicListing.HexDump
import BasicListing.Listing.Rows

namespace BasicListing

/-- All that a listing depends on besides the image. -/
structure Printer where
  settings : Settings := {}
  keywords : Keywords := Keywords.standard
  disassembler : Disassembler := Disassembler.standard

/-- What is reported about a program besides its listing. -/
inductive Warning where
  | unreadTarget (w : UnreadTarget)
  | unreadCode (w : UnreadCode)
  deriving DecidableEq, Repr

/-- The level and the message of a warning. -/
def Warning.text : Warning → Text
  | .unreadTarget w => "WARN ".toList ++ w.message
  | .unreadCode w => "WARN ".toList ++ w.message

/-- The rows above a listing or a dump. -/
def headerRows (name : Text) (image : Image) : List Text :=
  ["Name    : ".toList ++ name,
   "Length  : $".toList ++ hexLength image.length ++ " (".toList ++ decimal image.length ++
     ")".toList,
   "Load at : $".toList ++ hexWord image.origin ++ " (".toList ++
     decimal image.origin.toNat ++ ")".toList,
   []]

namespace Program

/-- The offset and the bytes of each block of a dump: those of the lines, the two zero bytes
    that end the program, and what follows. -/
def blocks (p : Program) : List (Nat × List UInt8) :=
  let lines := p.lines.map fun line => (line.offset, p.image.slice line.offset line.length)
  match p.image.drop p.size with
  | [] => lines
  | 0 :: 0 :: rest =>
    lines ++ (p.size, [0, 0]) :: (if rest.isEmpty then [] else [(p.size + 2, rest)])
  | rest => lines ++ [(p.size, rest)]

/-- The rows of a dump, with an empty row between two blocks. -/
def dumpRows (p : Program) : List Text :=
  [[]].intercalate (p.blocks.map fun block => hexRows (p.addressOf block.1) block.2)

end Program

namespace Printer

/-- The program in an image, as this printer reads it. -/
def program (printer : Printer) (image : Image) : Program :=
  Program.ofImage printer.keywords printer.settings.alignAssignments image

/-- The rows above a listing or a dump, if they are wanted. -/
def header (printer : Printer) (name : Text) (image : Image) : List Text :=
  if printer.settings.showHeader then headerRows name image else []

/-- The listing of an image.  `none` if a row would have to be broken inside a character, which
    takes a keyword that is not ASCII. -/
def listing? (printer : Printer) (name : Text) (image : Image) : Option Text :=
  ((printer.program image).rows? printer.settings printer.disassembler).map fun rows =>
    Text.ofRows (printer.header name image ++ rows)

/-- The dump of an image. -/
def dump (printer : Printer) (name : Text) (image : Image) : Text :=
  Text.ofRows (printer.header name image ++ (printer.program image).dumpRows)

/-- The warnings from decoding an image. -/
def targetWarnings (printer : Printer) (image : Image) : List Warning :=
  (printer.program image).unreadTargets.map .unreadTarget

/-- The warnings from writing the rows of a listing. -/
def codeWarnings (printer : Printer) (image : Image) : List Warning :=
  ((printer.program image).unreadCode printer.disassembler).map .unreadCode

end Printer

end BasicListing
