import AccessibleMarkup.Document.References
import AccessibleMarkup.Text.Pattern

/-! What the attributes of an element say about its state: values that are true, made by a
template, focus and visibility. -/
namespace AccessibleMarkup

open Markup

def isTrue (value : Option String) : Bool :=
  value.any fun text => Text.sameIgnoringCase (Text.trim text) "true"

def isDynamicValue (value : Option String) : Bool := value.any isDynamic

namespace Markup.Element

/-- Whether the `role` attribute itself names the role. -/
def writesRole (element : Element) (role : String) : Bool :=
  (writtenRole? element.attributes).any fun written => Text.sameIgnoringCase written role

def tabIndex? (element : Element) : Option Int :=
  (element.value? "tabindex").bind fun value => Text.readInteger? (Text.trim value)

def isEditable (element : Element) : Bool :=
  (element.value? "contenteditable").any fun value =>
    !Text.sameIgnoringCase (Text.trim value) "false"

/-- Whether an element of this name takes focus by itself. -/
def isControl (element : Element) : Bool :=
  match element.name with
  | "a" | "area" => element.has "href"
  | "button" | "select" | "textarea" | "summary" | "iframe" => true
  | "input" =>
    !(element.value? "type").any fun kind => Text.sameIgnoringCase (Text.trim kind) "hidden"
  | "audio" | "video" => element.has "controls"
  | _ => false

/-- Whether the element takes focus without a `tabindex`. -/
def takesFocus (element : Element) : Bool :=
  !element.has "disabled" && (element.isEditable || element.isControl)

/-- The place in the order of focus: the written one, or zero for an element that takes focus. -/
def focusIndex? (element : Element) : Option Int :=
  match element.tabIndex? with
  | some index => some index
  | none => if element.takesFocus then some 0 else none

def inFocusOrder (element : Element) : Bool := element.focusIndex?.any (0 ≤ ·)

def isFocusable (element : Element) : Bool := !element.has "disabled" && element.inFocusOrder

def hidingStyle : Text.Pattern :=
  open Text.Pattern in
  sequence [
    choice [textStart, oneIn [';']], blanks,
    choice [
      sequence [phrase "display", blanks, oneIn [':'], blanks, phrase "none"],
      sequence [phrase "visibility", blanks, oneIn [':'], blanks, phrase "hidden"]],
    blanks, optional (sequence [phrase "!important", blanks]),
    choice [oneIn [';'], textEnd]]

def hasHidingStyle (element : Element) : Bool :=
  (element.value? "style").any fun style => hidingStyle.occursIn style.toList

def hidingClasses : List String :=
  ["hidden", "d-none", "is-hidden", "hide", "invisible", "visually-hidden-focusable"]

def hasHidingClass (element : Element) : Bool :=
  (element.value? "class").any fun classes =>
    (Text.words classes).any fun name => Text.oneOfIgnoringCase name hidingClasses

def isAriaHidden (element : Element) : Bool := isTrue (element.value? "aria-hidden")

def isHidden (element : Element) : Bool :=
  element.has "hidden" || element.isAriaHidden || element.hasHidingStyle || element.hasHidingClass

def isHiddenByClassOnly (element : Element) : Bool :=
  element.hasHidingClass && !element.has "hidden" && !element.isAriaHidden &&
    !element.hasHidingStyle

end Markup.Element

end AccessibleMarkup
