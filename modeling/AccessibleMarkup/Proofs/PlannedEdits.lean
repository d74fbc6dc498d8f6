import AccessibleMarkup.Repair.Plan
import Mathlib.Tactic.SplitIfs

/-! The edits that fixes are applied as. What a fix comes to on an element is decided by the attributes and the
extent of the element alone; `Fix.Plans` has one case for each edit, with what has to be true of the element. -/
namespace AccessibleMarkup.Fix

open Text Markup

/-- The edit that a fix is applied as on an element. -/
inductive Plans (source : List Char) (target : FixTarget) : Fix → Edit → Prop
  | add (name value : String) (absent : hasAttribute (writtenAttributes source target.node) name = false) :
      Plans source target (.addAttribute name value)
        (insertAttribute target.node (writtenAttributes source target.node) name value)
  | set (name value : String) (absent : findAttribute? (writtenAttributes source target.node) name = none) :
      Plans source target (.setAttribute name value)
        (insertAttribute target.node (writtenAttributes source target.node) name value)
  | replace (name value : String) {found : Attribute}
      (known : findAttribute? (writtenAttributes source target.node) name = some found)
      (other : ¬ (found.value = value ∧ found.quote = .double)) :
      Plans source target (.setAttribute name value) ⟨found.range,writeWithValue found.name value⟩
  | delete (name : String) {found : Attribute}
      (known : findAttribute? (writtenAttributes source target.node) name = some found) :
      Plans source target (.removeAttribute name) (deleteAttribute source target.node found)
  | wrap (tag : String) (attributes : List (String × String)) {edit : Edit}
      (known : target.node.extent.isKnown = true)
      (loose : (target.parent.any fun outer => wrapsTightly source outer target.node tag) = false)
      (made : wrapElement source target.node tag attributes = .ok edit) :
      Plans source target (.wrap tag attributes) edit
  | remove (known : target.node.extent.isKnown = true) :
      Plans source target .remove ⟨⟨target.node.start,target.node.stop⟩,[]⟩
  | renameBoth (name : String) {edit : Edit} (other : sameIgnoringCase target.node.name name = false)
      (closed : target.node.extent = .closed) (made : renameBoth source target.node name = .ok edit) :
      Plans source target (.rename name) edit
  | renameOpening (name : String) (other : sameIgnoringCase target.node.name name = false)
      (known : target.node.extent.isKnown = true) (unclosed : target.node.extent ≠ .closed) :
      Plans source target (.rename name) ⟨⟨target.node.start + 1,nameStop target.node⟩,name.toList⟩

theorem map_applied_eq {result : Except FixError Edit} {edit : Edit} :
    result.map FixOutcome.applied = .ok (.applied edit) ↔ result = .ok edit := by
  cases result <;> simp [Except.map]

variable {fix : Fix} {source : List Char} {target : FixTarget} {edit : Edit}

theorem Plans.planned (plans : fix.Plans source target edit) :
    fix.planOn source target = .ok (.applied edit) := by
  cases plans with
  | add _ _ absent => simp [planOn,absent]
  | set _ _ absent => simp [planOn,planSet,absent]
  | replace _ _ known other => simp [planOn,planSet,known,other]
  | delete _ known => simp [planOn,known]
  | wrap _ _ known loose made =>
    simp only [planOn,known,loose,Bool.not_true,Bool.false_eq_true,if_false]
    exact map_applied_eq.mpr made
  | remove known => simp [planOn,known]
  | renameBoth _ other closed made =>
    simp only [planOn,planRename,other,closed,Extent.isKnown,Bool.not_true,Bool.false_eq_true,if_false,if_true]
    exact map_applied_eq.mpr made
  | renameOpening _ other known unclosed => simp [planOn,planRename,other,known,unclosed]

theorem planOn_eq_applied_iff :
    fix.planOn source target = .ok (.applied edit) ↔ fix.Plans source target edit := by
  refine ⟨fun planned => ?_,Plans.planned⟩
  cases fix with
  | addAttribute name value =>
    simp only [planOn] at planned
    split_ifs at planned with present
    · cases planned
    · obtain rfl := FixOutcome.applied.inj (Except.ok.inj planned)
      exact .add name value (by simpa using present)
  | setAttribute name value =>
    simp only [planOn,planSet] at planned
    split at planned
    next found known =>
      split_ifs at planned with same
      · cases planned
      · obtain rfl := FixOutcome.applied.inj (Except.ok.inj planned)
        exact .replace name value known (by simpa using same)
    next absent =>
      obtain rfl := FixOutcome.applied.inj (Except.ok.inj planned)
      exact .set name value absent
  | removeAttribute name =>
    simp only [planOn] at planned
    split at planned
    next found known =>
      obtain rfl := FixOutcome.applied.inj (Except.ok.inj planned)
      exact .delete name known
    next => cases planned
  | wrap tag attributes =>
    simp only [planOn] at planned
    split_ifs at planned with unknown tight
    · cases planned
    · cases planned
    · exact .wrap tag attributes (by simpa using unknown) (by simpa using tight) (map_applied_eq.mp planned)
  | remove =>
    simp only [planOn] at planned
    split_ifs at planned with known
    · obtain rfl := FixOutcome.applied.inj (Except.ok.inj planned)
      exact .remove known
    · cases planned
  | rename name =>
    simp only [planOn,planRename] at planned
    split_ifs at planned with same unknown closed
    · cases planned
    · cases planned
    · exact .renameBoth name (by simpa using same) closed (map_applied_eq.mp planned)
    · obtain rfl := FixOutcome.applied.inj (Except.ok.inj planned)
      exact .renameOpening name (by simpa using same) (by simpa using unknown) closed

end AccessibleMarkup.Fix
