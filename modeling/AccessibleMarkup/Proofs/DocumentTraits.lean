import AccessibleMarkup.Document.Basic
import Mathlib.Data.List.Basic

/-! What the relations between the elements of a document depend on: roles and the structure of the document,
and neither names nor attributes. -/
namespace AccessibleMarkup

open Markup

namespace Markup

/-- What groups of elements are formed by. -/
structure Element.Traits where
  role : Option String
  parent : Option Nat
  depth : Nat
  known : Bool
  detached : Bool

def Element.traits (element : Element) : Element.Traits :=
  ⟨element.role,element.parent,element.depth,element.isKnown,element.detached⟩

end Markup

namespace Document

variable {doc other : Document}

theorem traitsAt_eq (same : other.elements.map Element.traits = doc.elements.map Element.traits) (i : Nat) :
    other.elements[i]?.map Element.traits = doc.elements[i]?.map Element.traits := by
  rw [← List.getElem?_map,same,List.getElem?_map]

theorem holdsAt_congr (same : other.elements.map Element.traits = doc.elements.map Element.traits)
    (condition : Element.Traits → Bool) (i : Nat) :
    other.holdsAt (fun element => condition element.traits) i =
      doc.holdsAt (fun element => condition element.traits) i := by
  have here := congrArg (·.any condition) (traitsAt_eq same i)
  simp only [Option.any_map] at here
  exact here

theorem indicesWhere_congr (same : other.elements.map Element.traits = doc.elements.map Element.traits)
    (condition : Element.Traits → Bool) :
    other.indicesWhere (fun element => condition element.traits) =
      doc.indicesWhere fun element => condition element.traits := by
  have from_ (elements : List Element) : (elements.zipIdx.filter fun entry => condition entry.1.traits).map (·.2) =
      ((elements.map Element.traits).zipIdx.filter fun entry => condition entry.1).map (·.2) := by
    rw [List.zipIdx_map,List.filter_map,List.map_map]
    rfl
  rw [indicesWhere,indicesWhere,from_,from_,same]

theorem ancestors_congr (same : other.elements.map Element.traits = doc.elements.map Element.traits) (i : Nat) :
    other.ancestors i = doc.ancestors i := by
  have size : other.elements.length = doc.elements.length := by simpa using congrArg List.length same
  have within (steps : Nat) : ∀ i, ancestorsWithin other.elements steps i = ancestorsWithin doc.elements steps i := by
    induction steps with
    | zero => exact fun _ => rfl
    | succ steps ih =>
      intro i
      have parent := congrArg (Option.bind · Element.Traits.parent) (traitsAt_eq same i)
      simp only [Option.bind_map] at parent
      have parent' : other.elements[i]?.bind (·.parent) = doc.elements[i]?.bind (·.parent) := parent
      rw [ancestorsWithin,ancestorsWithin,parent']
      cases doc.elements[i]?.bind (·.parent) with
      | none => rfl
      | some next => exact congrArg (next :: ·) (ih next)
  rw [ancestors,ancestors,size,within]

theorem nearestWithRole?_congr (same : other.elements.map Element.traits = doc.elements.map Element.traits)
    (i : Nat) (roles : List String) : other.nearestWithRole? i roles = doc.nearestWithRole? i roles := by
  have holds : (other.holdsAt (·.hasRoleIn roles)) = doc.holdsAt (·.hasRoleIn roles) :=
    funext fun j => holdsAt_congr same (fun traits => traits.role.any roles.contains) j
  rw [nearestWithRole?,nearestWithRole?,ancestors_congr same,holds]

theorem descendants_congr (same : other.elements.map Element.traits = doc.elements.map Element.traits) (i : Nat) :
    other.descendants i = doc.descendants i := by
  have inside (depth : Nat) (elements : List Element) :
      ((elements.zipIdx.drop (i + 1)).takeWhile fun entry => depth < entry.1.depth).map (·.2) =
        (((elements.map Element.traits).zipIdx.drop (i + 1)).takeWhile fun entry => depth < entry.1.depth).map (·.2) := by
    rw [List.zipIdx_map,← List.map_drop,List.takeWhile_map,List.map_map]
    rfl
  have here := traitsAt_eq same i
  unfold descendants
  cases first : other.elements[i]? with
  | none =>
    rw [first,Option.map_none] at here
    rw [Option.map_eq_none_iff.mp here.symm]
  | some element =>
    rw [first,Option.map_some] at here
    obtain ⟨before,found,equal⟩ := Option.map_eq_some_iff.mp here.symm
    have depth : before.depth = element.depth := congrArg Element.Traits.depth equal
    rw [found]
    dsimp only
    rw [inside,inside,same,depth]

theorem groupMembers_congr (same : other.elements.map Element.traits = doc.elements.map Element.traits)
    (container : Nat) (members containers : List String) :
    other.groupMembers container members containers = doc.groupMembers container members containers := by
  have holds : (other.holdsAt (·.hasRoleIn members)) = doc.holdsAt (·.hasRoleIn members) :=
    funext fun j => holdsAt_congr same (fun traits => traits.role.any members.contains) j
  have nearest : (fun i => other.nearestWithRole? i containers == some container) =
      fun i => doc.nearestWithRole? i containers == some container :=
    funext fun i => by rw [nearestWithRole?_congr same]
  rw [groupMembers,groupMembers,descendants_congr same,holds,nearest]

end Document

end AccessibleMarkup
