import AccessibleMarkup.Proofs.AttributeInsertion
import AccessibleMarkup.Proofs.AttributePlaces
import AccessibleMarkup.Proofs.WrittenElements

/-! Fixes change nothing but the element they are made on. The edit of a fix can always be made, as both
its ends lie between characters of the text as written, although they are found in the filtered text. -/
namespace AccessibleMarkup

open Text Markup

/-- The range of an edit lies between two offsets and between characters of the text. -/
structure Edit.Within (source : List Char) (edit : Edit) (first last : Nat) : Prop where
  start : first ≤ edit.range.start
  stop : edit.range.stop ≤ last
  sliced : (slice? source edit.range.start edit.range.stop).isSome = true

theorem Edit.Within.mono {source : List Char} {edit : Edit} {first last lower upper : Nat}
    (within : edit.Within source first last) (below : lower ≤ first) (above : last ≤ upper) :
    edit.Within source lower upper :=
  ⟨Nat.le_trans below within.start,Nat.le_trans within.stop above,within.sliced⟩

namespace Fix

def changesAttributes : Fix → Bool
  | addAttribute _ _ => true
  | setAttribute _ _ => true
  | removeAttribute _ => true
  | _ => false

theorem byteLength_takeWhile_isMarkupSpace (chars : List Char) :
    byteLength (chars.takeWhile isMarkupSpace) = (chars.takeWhile isMarkupSpace).length :=
  byteLength_of_small _ fun _ inside => utf8Size_of_isMarkupSpace (List.mem_takeWhile_imp inside)

theorem deleteAttribute_eq {source front : List Char} {node : Node} {found : Attribute}
    (sliced : slice? source (nameStop node) found.range.start = some front) :
    deleteAttribute source node found =
      ⟨⟨found.range.start - (front.reverse.takeWhile isMarkupSpace).length,found.range.stop⟩,[]⟩ := by
  obtain ⟨before,after,rfl,named,start⟩ := slice?_some _ _ _ _ sliced
  have read : charsBefore (before ++ (front ++ after)) found.range.start = before ++ front := by
    rw [start,← named,← byteLength_append,← List.append_assoc,charsBefore_append]
  have few : (front.reverse.takeWhile isMarkupSpace).length ≤ front.length :=
    (List.takeWhile_sublist isMarkupSpace).length_le.trans List.length_reverse.le
  have size := length_le_byteLength front
  unfold deleteAttribute
  dsimp only
  rw [read,List.reverse_append,List.takeWhile_append]
  split_ifs with blank
  · have spaces := byteLength_takeWhile_isMarkupSpace front.reverse
    have whole := (List.takeWhile_prefix isMarkupSpace).eq_of_length blank
    rw [whole,byteLength_reverse] at spaces
    rw [List.length_append,whole,List.length_reverse]
    rw [List.length_reverse] at spaces
    congr 2
    omega
  · congr 2
    omega

/-- What a fix may make of an element that is written in the given parts. -/
inductive Rewrites (node : Node) (name inner body after : List Char) : Fix → List Char → Prop
  | attribute (fix : Fix) (changed : List Char) (kind : fix.changesAttributes = true) :
      Rewrites node name inner body after fix ('<' :: (name ++ (changed ++ body)))
  | wrap (tag : String) (attributes : List (String × String)) :
      Rewrites node name inner body after (.wrap tag attributes)
        (('<' :: tag.toList ++ attributes.flatMap (fun (name, value) => ' ' :: writeAttribute name value) ++
          ['>']) ++ ('<' :: (name ++ (inner ++ body))) ++ (['<', '/'] ++ tag.toList ++ ['>']))
  | remove : Rewrites node name inner body after .remove []
  | rename (new : String) (kind : node.extent ≠ .closed) :
      Rewrites node name inner body after (.rename new) ('<' :: (new.toList ++ (inner ++ body)))
  | renameBoth (new : String) (content old tail : List Char) (kind : node.extent = .closed)
      (closed : node.ClosedIn body after content old tail) :
      Rewrites node name inner body after (.rename new)
        ('<' :: (new.toList ++ (inner ++ (content ++ '<' :: '/' :: (new.toList ++ tail)))))

/-- The edit of a fix can be made and changes nothing but the element, as the fix says. -/
structure LocalTo (fix : Fix) (source : List Char) (node : Node) (edit : Edit) : Prop where
  within : edit.Within source node.start node.stop
  attributes : fix.changesAttributes = true → edit.Within source (nameStop node) node.openStop
  rewrites : ∃ before name inner body after changed,
    node.PartsIn source before name inner body after ∧
      fix.Rewrites node name inner body after changed ∧
      edit.apply source = .ok (before ++ changed ++ after)

end Fix

theorem Edit.apply_inside (before front found back after replacement : List Char) (edit : Edit)
    (start : edit.range.start = byteLength before + byteLength front)
    (stop : edit.range.stop = edit.range.start + byteLength found)
    (written : edit.replacement = replacement) :
    edit.apply (before ++ (front ++ (found ++ back) ++ after)) =
        .ok (before ++ (front ++ (replacement ++ back)) ++ after) ∧
      (slice? (before ++ (front ++ (found ++ back) ++ after)) edit.range.start edit.range.stop).isSome =
        true := by
  have same : edit = ⟨⟨byteLength (before ++ front),byteLength (before ++ front) + byteLength found⟩,
      replacement⟩ := by
    obtain ⟨⟨first,last⟩,_⟩ := edit
    dsimp only at start stop written
    subst written
    rw [byteLength_append,stop,start]
  have parts : before ++ (front ++ (found ++ back) ++ after) =
      (before ++ front) ++ (found ++ (back ++ after)) := by simp
  rw [parts,same,Edit.apply_replacement,slice?_append]
  exact ⟨by simp,rfl⟩

namespace Markup.Node.PartsIn

variable {source before name inner body after : List Char} {node : Node}

theorem nameStop_eq (written : node.PartsIn source before name inner body after) :
    Fix.nameStop node = node.start + 1 + byteLength name := by
  rw [Fix.nameStop,← written.named,byteLength_asciiLower,String.toList_ofList]

theorem writtenAttributes_eq (written : node.PartsIn source before name inner body after) :
    Fix.writtenAttributes source node = readAttributesFrom .tagName (Fix.nameStop node) inner := by
  have slice : slice? source node.start node.openStop = some ('<' :: (name ++ inner)) := by
    have found := slice?_append before ('<' :: (name ++ inner)) (body ++ after)
    have size : byteLength before + byteLength ('<' :: (name ++ inner)) = node.openStop := by
      rw [written.openStop,written.start,byteLength_cons,byteLength_append]
      grind
    rw [size,written.start] at found
    rw [← found,written.parts]
    simp
  have tag : readAttributes ('<' :: (name ++ inner)) node.start =
      readAttributesFrom .tagName (node.start + 1) (name ++ inner) := rfl
  rw [Fix.writtenAttributes,slice]
  dsimp only
  rw [tag,readAttributesFrom_name _ _ _ written.written,written.nameStop_eq]

theorem localTo_inner (written : node.PartsIn source before name inner body after) (fix : Fix)
    (kind : fix.changesAttributes = true) (edit : Edit) (front found back : List Char)
    (parts : inner = front ++ (found ++ back))
    (start : edit.range.start = Fix.nameStop node + byteLength front)
    (stop : edit.range.stop = edit.range.start + byteLength found) :
    fix.LocalTo source node edit := by
  subst parts
  have place := written.nameStop_eq
  have opened := written.openStop
  have reached := written.stop
  have started := written.start
  obtain ⟨applied,sliced⟩ := Edit.apply_inside before ('<' :: (name ++ front)) found (back ++ body) after
    edit.replacement edit (by simp; omega) stop rfl
  have whole : before ++ ('<' :: (name ++ front) ++ (found ++ (back ++ body)) ++ after) = source := by
    rw [written.parts]
    simp
  rw [whole] at applied sliced
  simp only [byteLength_append] at opened
  have inside : edit.Within source (Fix.nameStop node) node.openStop := ⟨by omega,by omega,sliced⟩
  refine ⟨inside.mono (by omega) (by omega),fun _ => inside,
    before,name,_,body,after,_,written,.attribute fix (front ++ (edit.replacement ++ back)) kind,?_⟩
  rw [applied]
  simp

theorem attribute_standsIn (written : node.PartsIn source before name inner body after)
    (attr : Attribute) (member : attr ∈ Fix.writtenAttributes source node) :
    attr.StandsIn (Fix.nameStop node) inner := by
  rw [written.writtenAttributes_eq] at member
  exact readAttributesFrom_standsIn (Fix.nameStop node) .tagName [] inner trivial trivial attr member

theorem localTo_insert (written : node.PartsIn source before name inner body after) (fix : Fix)
    (kind : fix.changesAttributes = true) (attr value : String) :
    fix.LocalTo source node
      (Fix.insertAttribute node (Fix.writtenAttributes source node) attr value) := by
  cases last : (Fix.writtenAttributes source node).getLast? with
  | none =>
    refine written.localTo_inner fix kind _ [] [] inner rfl ?_ rfl
    simp [Fix.insertAttribute,last,Edit.insertion]
  | some found =>
    obtain ⟨⟨chars,front,back,parts,start,stop⟩,_⟩ :=
      written.attribute_standsIn found (List.mem_of_getLast? last)
    refine written.localTo_inner fix kind _ (front ++ chars) [] back (by rw [parts]; simp) ?_ rfl
    simp only [Fix.insertAttribute,last,Edit.insertion,byteLength_append]
    omega

theorem localTo_replace (written : node.PartsIn source before name inner body after) (fix : Fix)
    (kind : fix.changesAttributes = true) (found : Attribute)
    (member : found ∈ Fix.writtenAttributes source node) (replacement : List Char) :
    fix.LocalTo source node ⟨found.range,replacement⟩ := by
  obtain ⟨⟨chars,front,back,parts,start,stop⟩,_⟩ := written.attribute_standsIn found member
  exact written.localTo_inner fix kind _ front chars back parts start stop

theorem localTo_delete (written : node.PartsIn source before name inner body after) (fix : Fix)
    (kind : fix.changesAttributes = true) (found : Attribute)
    (member : found ∈ Fix.writtenAttributes source node) :
    fix.LocalTo source node (Fix.deleteAttribute source node found) := by
  obtain ⟨⟨chars,front,back,parts,start,stop⟩,_⟩ := written.attribute_standsIn found member
  have place := written.nameStop_eq
  have sliced : slice? source (Fix.nameStop node) found.range.start = some front := by
    have inside := slice?_append (before ++ '<' :: name) front (chars ++ back ++ (body ++ after))
    have whole : before ++ '<' :: name ++ (front ++ (chars ++ back ++ (body ++ after))) = source := by
      rw [written.parts,parts]
      simp
    have size : byteLength (before ++ '<' :: name) = Fix.nameStop node := by
      rw [byteLength_append,byteLength_cons,written.start]
      grind
    rwa [whole,size,← start] at inside
  let spaces := (front.reverse.takeWhile isMarkupSpace).reverse
  let kept := (front.reverse.dropWhile isMarkupSpace).reverse
  have cut : front = kept ++ spaces := by
    rw [← List.reverse_append,List.takeWhile_append_dropWhile,List.reverse_reverse]
  have size : byteLength spaces = (front.reverse.takeWhile isMarkupSpace).length := by
    rw [byteLength_reverse,Fix.byteLength_takeWhile_isMarkupSpace]
  have lengths : byteLength front = byteLength kept + byteLength spaces := by rw [cut,byteLength_append]
  refine written.localTo_inner fix kind _ kept (spaces ++ chars) back (by rw [parts,cut]; simp) ?_ ?_
  · rw [Fix.deleteAttribute_eq sliced]
    dsimp only
    omega
  · rw [Fix.deleteAttribute_eq sliced,byteLength_append]
    dsimp only
    omega

theorem slice_element (written : node.PartsIn source before name inner body after) :
    slice? source node.start node.stop = some ('<' :: (name ++ (inner ++ body))) := by
  have found := slice?_append before ('<' :: (name ++ (inner ++ body))) after
  have size : byteLength before + byteLength ('<' :: (name ++ (inner ++ body))) = node.stop := by
    rw [written.stop,written.openStop,written.start,byteLength_cons,byteLength_append,byteLength_append]
    grind
  rwa [size,written.start,← written.parts] at found

theorem localTo_part (written : node.PartsIn source before name inner body after) (fix : Fix)
    (other : fix.changesAttributes = false) (edit : Edit) (front found back : List Char)
    (parts : '<' :: (name ++ (inner ++ body)) = front ++ (found ++ back))
    (start : edit.range.start = node.start + byteLength front)
    (stop : edit.range.stop = edit.range.start + byteLength found)
    (rewrites : fix.Rewrites node name inner body after (front ++ (edit.replacement ++ back))) :
    fix.LocalTo source node edit := by
  have sizes := congrArg byteLength parts
  simp only [byteLength_cons,byteLength_append] at sizes
  have opened := written.openStop
  have reached := written.stop
  have started := written.start
  obtain ⟨applied,sliced⟩ := Edit.apply_inside before front found back after edit.replacement edit
    (by grind) stop rfl
  rw [← parts,← written.parts] at applied sliced
  exact ⟨⟨by grind,by grind,sliced⟩,by simp [other],before,name,inner,body,after,_,written,rewrites,applied⟩

theorem localTo_remove (written : node.PartsIn source before name inner body after) :
    Fix.LocalTo .remove source node ⟨⟨node.start,node.stop⟩,[]⟩ := by
  refine written.localTo_part .remove rfl _ [] ('<' :: (name ++ (inner ++ body))) [] (by simp) rfl ?_ .remove
  simp only [written.stop,written.openStop,byteLength_cons,byteLength_append]
  grind

theorem localTo_wrap (written : node.PartsIn source before name inner body after) (tag : String)
    (attributes : List (String × String)) :
    ∃ edit, Fix.wrapElement source node tag attributes = .ok edit ∧
      Fix.LocalTo (.wrap tag attributes) source node edit := by
  refine ⟨_,by simp only [Fix.wrapElement,Fix.sliceForEdit,written.slice_element]; rfl,?_⟩
  refine written.localTo_part _ rfl _ [] ('<' :: (name ++ (inner ++ body))) [] (by simp) rfl ?_ ?_
  · simp only [written.stop,written.openStop,byteLength_cons,byteLength_append]
    grind
  · have rewritten := @Fix.Rewrites.wrap node name inner body after tag attributes
    simpa using rewritten

theorem localTo_rename (written : node.PartsIn source before name inner body after) (new : String)
    (kind : node.extent ≠ .closed) :
    Fix.LocalTo (.rename new) source node ⟨⟨node.start + 1,Fix.nameStop node⟩,new.toList⟩ :=
  written.localTo_part _ rfl _ ['<'] name (inner ++ body) rfl rfl written.nameStop_eq
    (.rename new kind)

theorem localTo_renameBoth (written : node.PartsIn source before name inner body after) (new : String)
    (kind : node.extent = .closed) (content old tail : List Char)
    (closed : node.ClosedIn body after content old tail) :
    ∃ edit, Fix.renameBoth source node new = .ok edit ∧ Fix.LocalTo (.rename new) source node edit := by
  have one : Char.utf8Size '<' = 1 ∧ Char.utf8Size '/' = 1 := ⟨rfl,rfl⟩
  have place := written.nameStop_eq
  have opened := written.openStop
  have started := written.start
  have closing := closed.closeStart
  have split : splitAt? source (node.closeStart + 2) =
      some (before ++ '<' :: (name ++ (inner ++ (content ++ ['<','/']))),old ++ (tail ++ after)) := by
    have found := splitAt?_append (before ++ '<' :: (name ++ (inner ++ (content ++ ['<','/']))))
      (old ++ (tail ++ after))
    have size : byteLength (before ++ '<' :: (name ++ (inner ++ (content ++ ['<','/'])))) =
        node.closeStart + 2 := by
      grind
    rw [size] at found
    rw [← found,written.parts,closed.parts]
    simp
  have length : (List.takeWhile isNameChar (old ++ (tail ++ after))).length = byteLength old := by
    rw [takeWhile_name old (tail ++ after) closed.written closed.ended]
    exact (byteLength_of_small old fun c inside => utf8Size_of_isNameChar (closed.written c inside)).symm
  have middle : slice? source (Fix.nameStop node) (node.closeStart + 2) =
      some (inner ++ (content ++ ['<','/'])) := by
    have found := slice?_append (before ++ '<' :: name) (inner ++ (content ++ ['<','/']))
      (old ++ (tail ++ after))
    have size : byteLength (before ++ '<' :: name) = Fix.nameStop node := by
      grind
    have stop : Fix.nameStop node + byteLength (inner ++ (content ++ ['<','/'])) = node.closeStart + 2 := by
      grind
    rw [size,stop] at found
    rw [← found,written.parts,closed.parts]
    simp
  refine ⟨_,by simp only [Fix.renameBoth,Fix.sliceForEdit,split,middle,length]; rfl,?_⟩
  refine written.localTo_part _ rfl _ ['<'] (name ++ (inner ++ (content ++ ['<','/'] ++ old))) tail ?_ rfl ?_ ?_
  · rw [closed.parts]
    simp
  · grind
  · have rewritten := @Fix.Rewrites.renameBoth node name inner body after new content old tail kind closed
    simpa using rewritten

end Markup.Node.PartsIn

namespace Fix

theorem locate?_mem (text : List Char) (anchor : Nat) (target : FixTarget)
    (found : FixTarget.locate? text anchor = some target) : target.node ∈ outlineNodes text := by
  unfold FixTarget.locate? at found
  split at found
  next => contradiction
  next node around same =>
    obtain rfl := Option.some.inj found
    have inside : node ∈ (FixTarget.enclosing text anchor).reverse := by rw [same]; simp
    exact (List.mem_filter.mp (List.mem_reverse.mp inside)).1

theorem planOn_localTo (fix : Fix) (source : List Char) (filter : Filter) (target : FixTarget)
    (member : target.node ∈ outlineNodes (filter.apply source)) :
    ∃ outcome, fix.planOn source target = .ok outcome ∧
      ∀ edit, outcome = .applied edit → fix.LocalTo source target.node edit := by
  obtain ⟨before,name,inner,body,after,written⟩ := Filter.exists_partsIn member
  have skip (reason : SkipReason) : ∃ outcome,
      (.ok (.skipped reason) : Except FixError FixOutcome) = .ok outcome ∧
        ∀ edit, outcome = .applied edit → fix.LocalTo source target.node edit := ⟨_,rfl,by simp⟩
  have apply {edit : Edit} (local_ : fix.LocalTo source target.node edit) : ∃ outcome,
      (.ok (.applied edit) : Except FixError FixOutcome) = .ok outcome ∧
        ∀ edit, outcome = .applied edit → fix.LocalTo source target.node edit :=
    ⟨_,rfl,by rintro _ ⟨rfl⟩; exact local_⟩
  cases fix with
  | addAttribute attr value =>
    simp only [planOn]
    split_ifs
    · exact skip _
    · exact apply (written.localTo_insert _ rfl attr value)
  | setAttribute attr value =>
    simp only [planOn,planSet]
    split
    next found same =>
      split_ifs
      · exact skip _
      · exact apply (written.localTo_replace _ rfl found (List.mem_of_find?_eq_some same) _)
    next => exact apply (written.localTo_insert _ rfl attr value)
  | removeAttribute attr =>
    simp only [planOn]
    split
    next found same => exact apply (written.localTo_delete _ rfl found (List.mem_of_find?_eq_some same))
    next => exact skip _
  | wrap tag attributes =>
    simp only [planOn]
    split_ifs
    · exact skip _
    · exact skip _
    · obtain ⟨edit,made,local_⟩ := written.localTo_wrap tag attributes
      rw [made]
      exact apply local_
  | remove =>
    simp only [planOn]
    split_ifs
    · exact apply written.localTo_remove
    · exact skip _
  | rename new =>
    simp only [planOn,planRename]
    split_ifs with same known closed
    · exact skip _
    · exact skip _
    · obtain ⟨content,old,tail,ends⟩ := Filter.exists_closedIn member closed written
      obtain ⟨edit,made,local_⟩ := written.localTo_renameBoth new closed content old tail ends
      rw [made]
      exact apply local_
    · exact apply (written.localTo_rename new closed)

/-- A fix fails only when its anchor lies behind the text or one of its names cannot be written. Its
edit can be made, and changes nothing but the innermost element around the anchor. -/
theorem plan_localTo (fix : Fix) (source : List Char) (anchor : Nat) (filter : Filter) :
    match fix.plan source anchor filter with
    | .error cause =>
      (byteLength source < anchor ∧ cause = .anchorOutOfBounds anchor (byteLength source)) ∨
        (anchor ≤ byteLength source ∧ ∃ name, fix.invalidName? = some name ∧ cause = .invalidName name)
    | .ok (.skipped _) => anchor ≤ byteLength source
    | .ok (.applied edit) => anchor ≤ byteLength source ∧ ∃ target,
        FixTarget.locate? (filter.apply source) anchor = some target ∧
          fix.LocalTo source target.node edit := by
  unfold plan
  by_cases beyond : byteLength source < anchor
  · simp [beyond]
  · have inside := Nat.le_of_not_lt beyond
    simp only [if_neg beyond,Filter.apply_toMarkupFilter]
    cases invalid : fix.invalidName? with
    | some name => exact Or.inr ⟨inside,name,rfl,rfl⟩
    | none =>
      cases located : FixTarget.locate? (filter.apply source) anchor with
      | none => exact inside
      | some target =>
        obtain ⟨outcome,planned,local_⟩ := fix.planOn_localTo source filter target
          (locate?_mem _ anchor target located)
        simp only [planned]
        cases outcome with
        | skipped reason => exact inside
        | applied edit => exact ⟨inside,target,rfl,local_ edit rfl⟩

end Fix

end AccessibleMarkup
