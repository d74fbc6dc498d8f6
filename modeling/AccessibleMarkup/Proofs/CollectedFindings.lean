import AccessibleMarkup.Proofs.FixDemands
import AccessibleMarkup.Proofs.WellFormedReports

/-! What is left of the violations of a document once they are collected: one entry for each finding, at the place
that its first violation has in the document and with all the suggestions made for it. Entries are read off the
violations one by one (`Merged`), and what sorting them leaves is said in `Collected`. -/
namespace AccessibleMarkup.Report

theorem mergeSuggestions_append (kept : Violation) (first second : List Suggestion) :
    mergeSuggestions (mergeSuggestions kept first) second = mergeSuggestions kept (first ++ second) := by
  simp only [mergeSuggestions,List.foldl_append]

/-- The entries that are kept of the violations that were read. -/
structure Merged (read kept : List Violation) : Prop where
  findings : kept.map Violation.finding = (read.map Violation.finding).eraseDups
  entries : ∀ entry ∈ kept, ∃ front first rest, read = front ++ first :: rest ∧
    (∀ earlier ∈ front, earlier.finding ≠ first.finding) ∧
    entry = mergeSuggestions first ((rest.filter (sameFinding first)).flatMap (·.suggestions))

namespace Merged

variable {read kept : List Violation}

theorem none : Merged [] [] := ⟨rfl,fun _ nothing => absurd nothing List.not_mem_nil⟩

theorem findings_add (merged : Merged read kept) (violation : Violation) :
    (addFinding kept violation).map Violation.finding =
      ((read ++ [violation]).map Violation.finding).eraseDups := by
  rw [map_finding_addFinding,merged.findings,List.map_append,List.map_singleton,List.eraseDups_append]
  by_cases known : violation.finding ∈ read.map Violation.finding
  · rw [if_pos (List.mem_eraseDups.mpr known),List.removeAll,List.filter_cons_of_neg (by simpa using known)]
    simp
  · rw [if_neg (mt List.mem_eraseDups.mp known),List.removeAll,List.filter_cons_of_pos (by simpa using known)]
    simp [List.eraseDups_cons]

/-- A violation that was read last gives its suggestions to the entry of its finding, or becomes an entry. -/
theorem add (merged : Merged read kept) (violation : Violation) :
    Merged (read ++ [violation]) (addFinding kept violation) := by
  refine ⟨merged.findings_add violation,fun entry member => ?_⟩
  -- An entry keeps its first violation; only what comes after that one grows.
  have later {found : Violation} (old : found ∈ kept) : ∃ front first rest,
      read ++ [violation] = front ++ first :: (rest ++ [violation]) ∧
      (∀ earlier ∈ front, earlier.finding ≠ first.finding) ∧ found.finding = first.finding ∧
      found = mergeSuggestions first ((rest.filter (sameFinding first)).flatMap (·.suggestions)) := by
    obtain ⟨front,first,rest,parts,new,merges⟩ := merged.entries found old
    exact ⟨front,first,rest,by simp [parts],new,merges ▸ rfl,merges⟩
  unfold addFinding at member
  split_ifs at member with known
  · obtain ⟨found,old,rfl⟩ := List.mem_map.mp member
    obtain ⟨front,first,rest,parts,new,finding,merges⟩ := later old
    refine ⟨front,first,rest ++ [violation],parts,new,?_⟩
    by_cases same : sameFinding violation found = true
    · have also : sameFinding first violation = true :=
        (sameFinding_iff _ _).mpr (((sameFinding_iff _ _).mp same).trans finding).symm
      rw [if_pos same,merges,mergeSuggestions_append]
      simp [also]
    · have other : ¬ sameFinding first violation = true := fun equal =>
        same ((sameFinding_iff _ _).mpr (((sameFinding_iff _ _).mp equal).symm.trans finding.symm))
      rw [if_neg same]
      simpa [other] using merges
  · rcases List.mem_append.mp member with old | last
    · obtain ⟨front,first,rest,parts,new,finding,merges⟩ := later old
      have other : ¬ sameFinding first violation = true := fun equal => known <|
        (any_sameFinding_iff kept violation).mpr <| List.mem_map.mpr
          ⟨entry,old,finding.trans ((sameFinding_iff _ _).mp equal)⟩
      exact ⟨front,first,rest ++ [violation],parts,new,by simpa [other] using merges⟩
    · obtain rfl := List.mem_singleton.mp last
      refine ⟨read,entry,[],rfl,fun earlier before equal => known ?_,rfl⟩
      rw [any_sameFinding_iff,merged.findings,List.mem_eraseDups]
      exact List.mem_map.mpr ⟨earlier,before,equal⟩

theorem addAll (merged : Merged read kept) (added : List Violation) :
    Merged (read ++ added) (added.foldl addFinding kept) := by
  induction added generalizing read kept with
  | nil => simpa using merged
  | cons violation rest ih => simpa using ih (merged.add violation)

end Merged

theorem foldl_addFinding_of_nodup (added kept : List Violation)
    (distinct : ((kept ++ added).map Violation.finding).Nodup) : added.foldl addFinding kept = kept ++ added := by
  induction added generalizing kept with
  | nil => simp
  | cons violation rest ih =>
    have new : ¬ kept.any (sameFinding violation) = true := by
      rw [any_sameFinding_iff]
      rw [List.map_append,List.nodup_append] at distinct
      exact fun known => distinct.2.2 _ known _ (List.mem_map_of_mem List.mem_cons_self) rfl
    rw [List.foldl_cons,addFinding,if_neg new,ih _ (by simpa using distinct),List.append_assoc,List.singleton_append]

theorem collect_of_distinct {length : Nat} {found : List Violation}
    (placed : ∀ violation ∈ found, clampTo length violation = violation)
    (distinct : (found.map Violation.finding).Nodup)
    (sorted : found.Pairwise fun first second => first.location.offset ≤ second.location.offset) :
    collect length found = found := by
  have unmoved : found.map (clampTo length) = found := (List.map_congr_left placed).trans (List.map_id found)
  rw [collect,unmoved,foldl_addFinding_of_nodup found [] distinct,List.nil_append]
  exact List.mergeSort_of_pairwise (sorted.imp fun ordered => decide_eq_true ordered)

theorem filter_collect (length offset : Nat) (found : List Violation) :
    (collect length found).filter (·.location.offset = offset) =
      ((found.map (clampTo length)).foldl addFinding []).filter (·.location.offset = offset) := by
  set kept := (found.map (clampTo length)).foldl addFinding []
  have equal : (kept.filter (·.location.offset = offset)).Pairwise
      fun left right => decide (left.location.offset ≤ right.location.offset) = true := by
    refine List.pairwise_of_forall_mem_list fun left first right second => ?_
    rw [of_decide_eq_true (List.mem_filter.mp first).2,of_decide_eq_true (List.mem_filter.mp second).2]
    exact decide_eq_true le_rfl
  have sublist := List.sublist_mergeSort (fun first second third => by simpa using Nat.le_trans)
    (fun first second => by simpa using Nat.le_total _ _) equal List.filter_sublist
  have within := sublist.filter (·.location.offset = offset)
  rw [List.filter_filter] at within
  simp only [Bool.and_self] at within
  exact (within.eq_of_length ((List.mergeSort_perm kept _).filter _).length_eq.symm).symm

theorem exists_of_mem_collect {length : Nat} {found : List Violation} {entry : Violation}
    (member : entry ∈ collect length found) : ∃ front first rest, found = front ++ first :: rest ∧
      (∀ earlier ∈ front, (clampTo length earlier).finding ≠ (clampTo length first).finding) ∧
      entry = mergeSuggestions (clampTo length first)
        ((rest.filter fun later => (clampTo length later).finding = (clampTo length first).finding).flatMap
          (·.suggestions)) := by
  have merged := Merged.none.addAll (found.map (clampTo length))
  obtain ⟨_,_,_,parts,new,rfl⟩ := merged.entries entry (List.mem_mergeSort.mp member)
  obtain ⟨front,behind,rfl,rfl,split⟩ := List.map_eq_append_iff.mp parts
  obtain ⟨first,rest,rfl,rfl,rfl⟩ := List.map_eq_cons_iff.mp split
  have same : sameFinding (clampTo length first) ∘ clampTo length =
      fun later => decide ((clampTo length later).finding = (clampTo length first).finding) :=
    funext fun later => sameFinding_eq _ _
  refine ⟨front,first,rest,rfl,fun earlier before => new _ (List.mem_map_of_mem before),?_⟩
  rw [List.filter_map,List.flatMap_map,same]
  rfl

theorem inside_collect {length : Nat} {found : List Violation} {entry : Violation}
    (member : entry ∈ collect length found) : entry.location.offset + entry.location.length ≤ length := by
  obtain ⟨_,first,_,_,_,rfl⟩ := exists_of_mem_collect member
  change min first.location.offset length +
    min first.location.length (length - min first.location.offset length) ≤ length
  omega

theorem collect_collect (length : Nat) (found : List Violation) :
    collect length (collect length found) = collect length found :=
  collect_of_distinct (fun _ member => clampTo_of_inside (inside_collect member)) (nodup_collect length found)
    (sorted_collect length found)

/-- What is collected of the violations found in a document of a length. -/
structure Collected (length : Nat) (found out : List Violation) : Prop where
  sorted : out.Pairwise fun first second => first.location.offset ≤ second.location.offset
  inside : ∀ entry ∈ out, entry.location.offset + entry.location.length ≤ length
  distinct : (out.map Violation.finding).Nodup
  complete : ∀ finding, finding ∈ out.map Violation.finding ↔
    finding ∈ found.map fun violation => (clampTo length violation).finding
  /-- An entry is the first violation of its finding, moved into the document, and suggests in addition what the
  later ones do. -/
  entries : ∀ entry ∈ out, ∃ front first rest, found = front ++ first :: rest ∧
    (∀ earlier ∈ front, (clampTo length earlier).finding ≠ entry.finding) ∧
    entry = { clampTo length first with
      suggestions := first.suggestions ++
        (((rest.filter fun later => (clampTo length later).finding = entry.finding).flatMap (·.suggestions)).filter
          (· ∉ first.suggestions)).eraseDups }
  /-- The findings at one place are in the order in which they were first made. -/
  arrival : ∀ offset, (out.filter (·.location.offset = offset)).map Violation.finding =
    (found.map fun violation => (clampTo length violation).finding).eraseDups.filter (·.1 = offset)
  unchanged : collect length out = out

/-- Each finding is collected once, with all that was suggested for it, and in the order of the document. -/
theorem collected_collect (length : Nat) (found : List Violation) : Collected length found (collect length found) := by
  have findings : ((found.map (clampTo length)).foldl addFinding []).map Violation.finding =
      (found.map fun violation => (clampTo length violation).finding).eraseDups := by
    rw [(Merged.none.addAll (found.map (clampTo length))).findings,List.nil_append,List.map_map]
    rfl
  refine ⟨sorted_collect length found,fun _ => inside_collect,nodup_collect length found,fun finding => ?_,
    fun entry member => ?_,fun offset => ?_,collect_collect length found⟩
  · rw [collect,((List.mergeSort_perm _ _).map _).mem_iff,findings,List.mem_eraseDups]
  · obtain ⟨front,first,rest,parts,new,rfl⟩ := exists_of_mem_collect member
    refine ⟨front,first,rest,parts,new,?_⟩
    rw [mergeSuggestions_eq]
    simp only [List.contains_eq_mem,decide_not]
    rfl
  · rw [filter_collect,← findings,List.filter_map]
    rfl

end AccessibleMarkup.Report
