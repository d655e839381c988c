import StyleModules.Category.Basic

/-!
# The built-in sort specification

Six categories, from the position of a box to its animation. It is used wherever sorting is asked
for without a specification of one's own, and wherever one's own cannot be read.
-/

namespace StyleModules

/-- A category written with string literals. -/
private def category (name : String) (keywords : List String) : Category :=
  ⟨name.toList, keywords.map String.toList⟩

/-- The built-in sort specification. -/
def Spec.builtin : Spec :=
  [category "POSITION"
      ["position", "inset", "left", "right", "top", "bottom", "z-index"],
    category "LAYOUT"
      ["display", "visibility", "overflow...", "flex...", "justify-content", "align-items",
        "align-content", "place-content", "align-self", "order", "gap", "row-gap", "column-gap",
        "grid..."],
    category "BOX"
      ["width", "min-width", "max-width", "height", "min-height", "max-height", "aspect-ratio",
        "margin...", "padding...", "border..."],
    category "VISUAL"
      ["color", "background...", "opacity", "box-shadow"],
    category "TYPO"
      ["font", "font-family", "font-size", "font-weight", "font-style", "font...",
        "font-stretch", "line-height", "letter-spacing", "word-spacing", "text-align",
        "text-transform", "text-decoration...", "text-underline-offset", "white-space"],
    category "ANIMATION"
      ["transform...", "transition...", "animation..."]]

end StyleModules
