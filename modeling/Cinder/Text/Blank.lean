import Cinder.Text

/-!
Blank units: the white space and line ends of Unicode's basic plane, with the byte-order mark, which
are cut from around a number.
-/
namespace Cinder

/-- Tab to carriage return, space, no-break space, the space separators, the two line ends of
Unicode and the byte-order mark. -/
def CodeUnit.isBlank (u : CodeUnit) : Bool :=
  9 ≤ u && u ≤ 13 || u = 32 || u = 0xA0 || u = 0x1680 || 0x2000 ≤ u && u ≤ 0x200A ||
    u = 0x2028 || u = 0x2029 || u = 0x202F || u = 0x205F || u = 0x3000 || u = 0xFEFF

/-- Without the blanks at both ends. -/
def Text.trim (t : Text) : Text :=
  ((t.dropWhile CodeUnit.isBlank).reverse.dropWhile CodeUnit.isBlank).reverse

end Cinder
