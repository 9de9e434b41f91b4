/-
# Blank characters

The characters that count as white space everywhere in this library: the twenty-five code
points with Unicode's White_Space property.  A step counter may be surrounded by them, a
duration may contain them between its parts, and a program name made of nothing else is no
name at all.
-/

namespace DeployWatch.Text

/-- The code points with the White_Space property, in order. -/
def blankCodes : List Nat :=
  [0x09, 0x0A, 0x0B, 0x0C, 0x0D, 0x20, 0x85, 0xA0, 0x1680, 0x2000, 0x2001, 0x2002, 0x2003,
   0x2004, 0x2005, 0x2006, 0x2007, 0x2008, 0x2009, 0x200A, 0x2028, 0x2029, 0x202F, 0x205F,
   0x3000]

/-- White space in Unicode's sense. -/
def isBlank (c : Char) : Bool := blankCodes.contains c.toNat

/-- A text without any character that is not white space. -/
def isBlankText (text : String) : Bool := text.toList.all isBlank

end DeployWatch.Text
