/-!
# The command reference

What every command does, as text for its users.
-/

namespace Pinboard

/-- The lines of the command reference. -/
def commandReferenceLines : List String :=
  ["# draig command reference",
   "",
   "One command per line. Blank lines and lines starting with `#` are ignored.",
   "Command names are case-insensitive; pin names, colours and text are not.",
   "Trailing text may use `\\n` for a line break. In line labels `_` is a",
   "no-break space.",
   "",
   "## Pins",
   "",
   "| Command | Effect |",
   "|---|---|",
   "| `Pin name x y` | set a pin (plus the current `Translate` offset) |",
   "| `Offset name pin dx dy` | new pin offset from an existing one |",
   "| `Split name pin1 pin2` | new pin half-way between two others |",
   "| `Corner name pin1 pin2` | new pin at (pin1.x, pin2.y) |",
   "| `Project name a b x` | new pin: x projected onto the line a -> b |",
   "| `Move dx dy pin...` | move pins by an offset |",
   "| `MoveTo base pin...` | move pins as a group so their top-left is at base |",
   "| `MoveOver base rel pin...` | move pins by the offset from rel to base (rel stays put) |",
   "| `Centre base pin...` | move pins as a group so their centre is at base (`Center` too) |",
   "| `Reset pin...` | move pins as a group so their top-left is at 0,0 |",
   "| `Translate x y` | offset for pins created from now on (`Group` too; `Translate 0 0` resets) |",
   "",
   "## Style",
   "",
   "| Command | Effect |",
   "|---|---|",
   "| `Fill rgb` | fill colour for shapes, CSS hex without `#` (e.g. `ffa`) |",
   "| `Stroke rgb` | colour for lines and arrows |",
   "| `ClearFill`, `ClearStroke` | back to the default colours |",
   "",
   "## Shapes",
   "",
   "| Command | Effect |",
   "|---|---|",
   "| `Box pin1 pin2 [text]` | rectangle with centred text |",
   "| `SmallBox pin1 pin2 [text]` | as Box, with small text |",
   "| `Table pin1 pin2 cols [text]` | rectangle with text split into cells on `|`; `cols 0` picks a square-ish layout |",
   "| `Pill pin1 pin2 [text]` | rounded ends |",
   "| `Hex pin1 pin2 [text]` | flat top and bottom, pointed sides |",
   "| `TiltBox skew pin1 pin2 [text]` | parallelogram, top edge shifted by skew |",
   "| `TrapBox top bottom pin1 pin2 [text]` | trapezoid, top/bottom edges widened on each side |",
   "| `BoxOut side pin1 pin2 [text]` | rectangle with a notch pointing out of `left`, `right`, `top` or `bottom` (`l`, `r`, `t`, `b`) |",
   "| `BoxIn side pin1 pin2 [text]` | as BoxOut, notch pointing in |",
   "",
   "Each shape has an `Auto` form taking a name and a rectangle instead of pins:",
   "`AutoBox name x y width height [text]`, likewise `AutoSmallBox`, `AutoPill`,",
   "`AutoHex`; `AutoTable name x y w h cols [text]`,",
   "`AutoTiltBox name x y w h skew [text]`, `AutoTrapBox name x y w h top bottom [text]`,",
   "`AutoBoxOut name x y w h side [text]`, `AutoBoxIn name x y w h side [text]`.",
   "They create pins `name_tl name_t name_tr name_l name_r name_bl name_b name_br`.",
   "On `AutoBoxOut`/`AutoBoxIn` the pin in the middle of the notched side sits one",
   "notch depth outside the box.",
   "",
   "## Lines",
   "",
   "| Command | Effect |",
   "|---|---|",
   "| `Line pin1 pin2 [text]` | line with text along it |",
   "| `FlipLine pin1 pin2 [text]` | as Line, text upside-down |",
   "| `Arrow pin1 pin2 [text]` | line with an arrowhead at pin2 |",
   "| `FlipArrow pin1 pin2 [text]` | as Arrow, text upside-down |",
   ""]

/-- The command reference as one text. -/
def commandReference : String := "\n".intercalate commandReferenceLines

end Pinboard
