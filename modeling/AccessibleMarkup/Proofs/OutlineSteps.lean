import AccessibleMarkup.Markup.Outline
import Mathlib.Data.List.TakeWhile

/-! What one tag does to the outline, as a relation with one case for each way. An opening tag may end the innermost
element before it starts its own. A closing tag ends the nearest open element of its name; without one it is the late
end of an element that was cut off, or it ends all that is open. -/
namespace AccessibleMarkup.Markup

open Text

def Avoids (name : String) (path : List OpenNode) : Prop := ∀ entry ∈ path, entry.name ≠ name

theorem split_path (path : List OpenNode) (name : String) :
    (∃ inner closed outer, path = inner ++ closed :: outer ∧ closed.name = name ∧ Avoids name inner) ∨
      Avoids name path := by
  induction path with
  | nil => exact Or.inr (by simp [Avoids])
  | cons top outer ih =>
    by_cases here : top.name = name
    · exact Or.inl ⟨[],top,outer,rfl,here,by simp [Avoids]⟩
    · rcases ih with ⟨inner,closed,rest,rfl,named,others⟩ | others
      · refine Or.inl ⟨top :: inner,closed,rest,rfl,named,?_⟩
        simpa [Avoids,here] using others
      · right
        simpa [Avoids,here] using others

namespace Outline

/-- Starts the element of an opening tag, after the element that the tag ends has ended. -/
def enter (outline : Outline) (length : Nat) (tag : Tag) (selfClosing : Bool) : Outline :=
  let name := asciiLower tag.name
  let extent := openingExtent tag selfClosing name
  let stop := if extent = .unterminated then length else tag.stop
  { outline with
    nodes := outline.nodes ++ [{
      name, start := tag.start, openStop := tag.stop, closeStart := stop, stop, extent
      parent := outline.path.head?.map (·.index)
      depth := outline.path.length
      detached := !outline.owed.isEmpty }]
    path := if hasContent tag selfClosing name then ⟨outline.nodes.length,name⟩ :: outline.path
      else outline.path }

/-- What an opening tag of a name does before its element starts. -/
inductive SiblingStep (outline : Outline) (name : String) (offset : Nat) : Outline → Prop
  | stays (spared : ∀ top, outline.path.head? = some top → isSelfEnding name = true → top.name ≠ name) :
    SiblingStep outline name offset outline
  | ends (top : OpenNode) (outer : List OpenNode) (path : outline.path = top :: outer)
      (loose : isSelfEnding name = true) (same : top.name = name) :
    SiblingStep outline name offset
      ⟨endAll outline.nodes [top] offset fun _ => .implied,outer,outline.owed⟩

/-- What a closing tag does. -/
inductive ClosingStep (outline : Outline) (tag : Tag) : Outline → Prop
  | closes (inner : List OpenNode) (closed : OpenNode) (outer : List OpenNode)
      (path : outline.path = inner ++ closed :: outer) (named : closed.name = asciiLower tag.name)
      (others : Avoids (asciiLower tag.name) inner) :
    ClosingStep outline tag
      ⟨(endAll outline.nodes inner tag.start innerExtent).modify closed.index (·.closeWith tag),outer,
        cutOff inner ++ outline.owed⟩
  | pays (others : Avoids (asciiLower tag.name) outline.path)
      (owed : outline.owed.contains (asciiLower tag.name) = true) :
    ClosingStep outline tag { outline with owed := outline.owed.erase (asciiLower tag.name) }
  | strays (others : Avoids (asciiLower tag.name) outline.path)
      (owed : outline.owed.contains (asciiLower tag.name) = false) :
    ClosingStep outline tag
      ⟨endAll outline.nodes outline.path tag.start fun _ => .crossed,[],outline.path.map (·.name) ++ outline.owed⟩

/-- What a tag does in a text of the given length. -/
inductive Step (length : Nat) (outline : Outline) (tag : Tag) : Outline → Prop
  | opening (selfClosing : Bool) (kind : tag.kind = .opening selfClosing) (before : Outline)
      (sibling : outline.SiblingStep (asciiLower tag.name) tag.start before) :
    Step length outline tag (before.enter length tag selfClosing)
  | closing (kind : tag.kind = .closing) (next : Outline) (closing : outline.ClosingStep tag next) :
    Step length outline tag next
  | markup (kind : tag.kind = .markup) : Step length outline tag outline

variable (outline : Outline) (tag : Tag)

theorem SiblingStep.owed {outline next : Outline} {name : String} {offset : Nat}
    (sibling : outline.SiblingStep name offset next) : next.owed = outline.owed := by
  cases sibling with
  | stays => rfl
  | ends => rfl

theorem endSibling_ends {top : OpenNode} {outer : List OpenNode} {name : String} (path : outline.path = top :: outer)
    (loose : isSelfEnding name = true) (same : top.name = name) (offset : Nat) :
    outline.endSibling name offset =
      ⟨endAll outline.nodes [top] offset fun _ => .implied,outer,outline.owed⟩ := by
  simp only [endSibling,path,loose,same,beq_self_eq_true,Bool.and_self,if_true]

theorem endSibling_stays {name : String}
    (spared : ∀ top, outline.path.head? = some top → isSelfEnding name = true → top.name ≠ name) (offset : Nat) :
    outline.endSibling name offset = outline := by
  unfold endSibling
  split
  · rfl
  next top outer path =>
    refine if_neg fun ends => ?_
    rw [Bool.and_eq_true,beq_iff_eq] at ends
    exact spared top (by rw [path]; rfl) ends.1 ends.2

theorem siblingStep (name : String) (offset : Nat) :
    outline.SiblingStep name offset (outline.endSibling name offset) := by
  by_cases ends : ∃ top, outline.path.head? = some top ∧ isSelfEnding name = true ∧ top.name = name
  · obtain ⟨top,first,loose,same⟩ := ends
    obtain ⟨outer,path⟩ := List.head?_eq_some_iff.mp first
    rw [endSibling_ends outline path loose same]
    exact .ends top outer path loose same
  · have spared (top : OpenNode) (first : outline.path.head? = some top) (loose : isSelfEnding name = true) :
        top.name ≠ name := fun same => ends ⟨top,first,loose,same⟩
    rw [endSibling_stays outline spared]
    exact .stays spared

theorem readClosing_found (inner outer : List OpenNode) (closed : OpenNode)
    (path : outline.path = inner ++ closed :: outer) (named : closed.name = asciiLower tag.name)
    (others : Avoids (asciiLower tag.name) inner) :
    outline.readClosing tag =
      ⟨(endAll outline.nodes inner tag.start innerExtent).modify closed.index (·.closeWith tag),outer,
        cutOff inner ++ outline.owed⟩ := by
  have passed : ∀ entry ∈ inner, (entry.name != asciiLower tag.name) = true := by
    simpa [Avoids] using others
  have first : outline.path.takeWhile (·.name != asciiLower tag.name) = inner := by
    rw [path,List.takeWhile_append_of_pos passed]
    simp [named]
  have rest : outline.path.dropWhile (·.name != asciiLower tag.name) = closed :: outer := by
    rw [path,List.dropWhile_append_of_pos passed]
    simp [named]
  simp only [readClosing,first,rest]

theorem dropWhile_of_avoids (name : String) (others : Avoids name outline.path) :
    outline.path.dropWhile (·.name != name) = [] := by
  rw [List.dropWhile_eq_nil_iff]
  simpa [Avoids] using others

theorem readClosing_owed (others : Avoids (asciiLower tag.name) outline.path)
    (owed : outline.owed.contains (asciiLower tag.name) = true) :
    outline.readClosing tag = { outline with owed := outline.owed.erase (asciiLower tag.name) } := by
  simp only [readClosing,dropWhile_of_avoids outline _ others,owed,if_true]

theorem readClosing_stray (others : Avoids (asciiLower tag.name) outline.path)
    (owed : outline.owed.contains (asciiLower tag.name) = false) :
    outline.readClosing tag =
      ⟨endAll outline.nodes outline.path tag.start fun _ => .crossed,[],
        outline.path.map (·.name) ++ outline.owed⟩ := by
  simp only [readClosing,dropWhile_of_avoids outline _ others,owed,Bool.false_eq_true,if_false]

theorem closingStep : outline.ClosingStep tag (outline.readClosing tag) := by
  obtain ⟨inner,closed,outer,path,named,others⟩ | others := split_path outline.path (asciiLower tag.name)
  · rw [readClosing_found outline tag inner outer closed path named others]
    exact .closes inner closed outer path named others
  · cases owed : outline.owed.contains (asciiLower tag.name) with
    | true =>
      rw [readClosing_owed outline tag others owed]
      exact .pays others owed
    | false =>
      rw [readClosing_stray outline tag others owed]
      exact .strays others owed

theorem step (length : Nat) : Step length outline tag (outline.read length tag) := by
  unfold read
  cases kind : tag.kind with
  | opening selfClosing => exact .opening selfClosing kind _ (outline.siblingStep _ _)
  | closing => exact .closing kind _ (outline.closingStep tag)
  | markup => exact .markup kind

variable {outline tag} {length : Nat}

theorem read_of_opening {selfClosing : Bool} (kind : tag.kind = .opening selfClosing) : outline.read length tag =
    (outline.endSibling (asciiLower tag.name) tag.start).enter length tag selfClosing := by
  rw [read,kind]
  rfl

theorem read_of_closing (kind : tag.kind = .closing) : outline.read length tag = outline.readClosing tag := by
  rw [read,kind]

theorem read_of_markup (kind : tag.kind = .markup) : outline.read length tag = outline := by
  rw [read,kind]

end Outline

end AccessibleMarkup.Markup
