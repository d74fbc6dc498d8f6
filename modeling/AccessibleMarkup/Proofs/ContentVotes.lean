import AccessibleMarkup.Proofs.FaultlessRules
import AccessibleMarkup.Proofs.ListLevels

/-! The vote on the content of a list. An item that is looked at has a vote for each kind that it reads as, so it
can vote for several. A kind wins with more votes than each other kind, if its share of the items is large enough. -/
namespace AccessibleMarkup.Rules.ListSemantics

variable {reads : ContentKind → String → Bool} {settings : Settings} {items others : List String}

def classifiable (items : List String) : List String :=
  (items.map Text.trim).filter fun item => item != "" && !Markup.isDynamic item

def votes (reads : ContentKind → String → Bool) (settings : Settings) (items : List String) (kind : ContentKind) : Nat :=
  (sample settings.maxSample items).countP (reads kind)

def mostVotes (votes : ContentKind → Nat) : Nat := (ContentKind.all.map votes).foldl max 0

/-- What makes a kind win with a number of votes among a number of items. -/
structure Wins (reads : ContentKind → String → Bool) (settings : Settings) (items : List String)
    (found : Classification) : Prop where
  sampled : found.sampled = (sample settings.maxSample items).length
  enough : settings.minItems ≤ found.sampled
  positive : 0 < found.matched
  matched : found.matched = votes reads settings items found.kind
  ahead : ∀ other, other ≠ found.kind → votes reads settings items other < found.matched
  share : settings.threshold * found.sampled ≤ 100 * found.matched

theorem ContentKind.mem_all (kind : ContentKind) : kind ∈ ContentKind.all := by
  cases kind <;> decide

theorem isGreatest_mostVotes (votes : ContentKind → Nat) :
    IsGreatest {value | value = 0 ∨ ∃ kind, votes kind = value} (mostVotes votes) := by
  have greatest := ListNestingDepth.isGreatest_foldl_max (ContentKind.all.map votes) 0
  simpa only [mostVotes,List.mem_map,ContentKind.mem_all,true_and] using greatest

theorem votes_le_mostVotes (votes : ContentKind → Nat) (kind : ContentKind) : votes kind ≤ mostVotes votes :=
  (isGreatest_mostVotes votes).2 (Or.inr ⟨kind,rfl⟩)

theorem mostVotes_eq_of_ahead {votes : ContentKind → Nat} {kind : ContentKind}
    (ahead : ∀ other, other ≠ kind → votes other < votes kind) : mostVotes votes = votes kind := by
  have most := votes_le_mostVotes votes kind
  rcases (isGreatest_mostVotes votes).1 with none | ⟨other,same⟩
  · omega
  · by_cases equal : other = kind
    · rw [← same,equal]
    · have := ahead other equal
      omega

theorem leaders_eq_singleton_iff (votes : ContentKind → Nat) (kind : ContentKind) :
    (ContentKind.all.filter fun other => votes other == mostVotes votes) = [kind] ↔
      ∀ other, other ≠ kind → votes other < votes kind := by
  constructor
  · intro alone other distinct
    have leads (other : ContentKind) : votes other = mostVotes votes ↔ other = kind := by
      rw [← List.mem_singleton (a := other),← alone,List.mem_filter,beq_iff_eq]
      exact ⟨fun same => ⟨other.mem_all,same⟩,And.right⟩
    have first := (leads kind).mpr rfl
    have behind : votes other ≠ mostVotes votes := fun same => distinct ((leads other).mp same)
    have := votes_le_mostVotes votes other
    omega
  · intro ahead
    have leads (other : ContentKind) : (votes other == mostVotes votes) = (other == kind) := by
      rw [mostVotes_eq_of_ahead ahead,Bool.eq_iff_iff,beq_iff_eq,beq_iff_eq]
      refine ⟨fun same => ?_,fun same => congrArg votes same⟩
      by_contra distinct
      have := ahead other distinct
      omega
    simp only [leads]
    cases kind <;> decide

theorem classify_eq : classify reads settings items =
    if (sample settings.maxSample items).length < settings.minItems then none
    else match ContentKind.all.filter fun kind =>
        votes reads settings items kind == mostVotes (votes reads settings items) with
      | [kind] =>
        if 0 < mostVotes (votes reads settings items) && (sample settings.maxSample items).length * settings.threshold ≤
            mostVotes (votes reads settings items) * 100 then
          some ⟨kind,mostVotes (votes reads settings items),(sample settings.maxSample items).length⟩
        else none
      | _ => none := rfl

theorem classify_eq_some_iff (found : Classification) :
    classify reads settings items = some found ↔ Wins reads settings items found := by
  have leaders := leaders_eq_singleton_iff (votes reads settings items)
  rw [classify_eq]
  constructor
  · intro chosen
    by_cases few : (sample settings.maxSample items).length < settings.minItems
    · rw [if_pos few] at chosen
      contradiction
    · rw [if_neg few] at chosen
      split at chosen
      next kind alone =>
        have ahead := (leaders kind).mp alone
        have most := mostVotes_eq_of_ahead ahead
        rw [Option.ite_none_right_eq_some,Bool.and_eq_true,decide_eq_true_eq,decide_eq_true_eq] at chosen
        obtain ⟨⟨positive,share⟩,same⟩ := chosen
        obtain rfl := Option.some.inj same
        exact {
          sampled := rfl
          enough := Nat.le_of_not_lt few
          positive
          matched := most
          ahead := fun other distinct => most ▸ ahead other distinct
          share := by rwa [Nat.mul_comm,Nat.mul_comm 100] }
      next => contradiction
  · intro wins
    have ahead : ∀ other, other ≠ found.kind → votes reads settings items other < votes reads settings items found.kind :=
      fun other distinct => wins.matched ▸ wins.ahead other distinct
    have most : mostVotes (votes reads settings items) = found.matched :=
      (mostVotes_eq_of_ahead ahead).trans wins.matched.symm
    have enough : ¬ (sample settings.maxSample items).length < settings.minItems :=
      Nat.not_lt.mpr (wins.sampled ▸ wins.enough)
    have share : found.sampled * settings.threshold ≤ found.matched * 100 := by
      have := wins.share
      rwa [Nat.mul_comm,Nat.mul_comm 100] at this
    rw [if_neg enough,(leaders found.kind).mpr ahead]
    simp [most,← wins.sampled,wins.positive,share]

theorem Wins.perm {found : Classification} (wins : Wins reads settings items found)
    (same : (sample settings.maxSample items).Perm (sample settings.maxSample others)) :
    Wins reads settings others found := by
  have counts (kind : ContentKind) : votes reads settings items kind = votes reads settings others kind :=
    same.countP_eq _
  exact {
    sampled := wins.sampled.trans same.length_eq
    enough := wins.enough
    positive := wins.positive
    matched := wins.matched.trans (counts found.kind)
    ahead := fun other distinct => counts other ▸ wins.ahead other distinct
    share := wins.share }

theorem classify_perm (same : (sample settings.maxSample items).Perm (sample settings.maxSample others)) :
    classify reads settings others = classify reads settings items := by
  apply Option.ext
  intro found
  rw [classify_eq_some_iff,classify_eq_some_iff]
  exact ⟨fun wins => wins.perm same.symm,fun wins => wins.perm same⟩

theorem sample_perm (same : items.Perm others) (all : (classifiable items).length ≤ settings.maxSample) :
    (sample settings.maxSample items).Perm (sample settings.maxSample others) := by
  have kept : (classifiable items).Perm (classifiable others) := (same.map Text.trim).filter _
  have first : sample settings.maxSample items = classifiable items := List.take_of_length_le all
  have second : sample settings.maxSample others = classifiable others :=
    List.take_of_length_le (kept.length_eq ▸ all)
  rw [first,second]
  exact kept

theorem Wins.of_threshold_le {higher : Nat} {found : Classification} (more : settings.threshold ≤ higher)
    (wins : Wins reads { settings with threshold := higher } items found) : Wins reads settings items found :=
  { sampled := wins.sampled
    enough := wins.enough
    positive := wins.positive
    matched := wins.matched
    ahead := wins.ahead
    share := Nat.le_trans (Nat.mul_le_mul_right _ more) wins.share }

/-- Items are classified by an exact vote: as the kind with more votes than each other, if there are enough items and
its share of them is large enough. The order of the items does not matter where all that can be looked at are, and a
larger share in demand finds no more. -/
theorem classify_exact_vote (reads : ContentKind → String → Bool) (settings : Settings) (items : List String) :
    (∀ found, classify reads settings items = some found ↔ Wins reads settings items found) ∧
    (∀ others, items.Perm others → (classifiable items).length ≤ settings.maxSample →
      classify reads settings others = classify reads settings items) ∧
    ∀ higher, settings.threshold ≤ higher → classify reads settings items = none →
      classify reads { settings with threshold := higher } items = none := by
  refine ⟨fun found => classify_eq_some_iff found,fun others same all => classify_perm (sample_perm same all),
    fun higher more none => ?_⟩
  rw [Option.eq_none_iff_forall_ne_some] at none ⊢
  intro found chosen
  exact none found ((classify_eq_some_iff found).mpr (((classify_eq_some_iff found).mp chosen).of_threshold_le more))

theorem classify_exact_vote_dates :
    let items := ["2019-01-02 launch","2020 beta","2021-06 GA","Roadmap","$\x7bx\x7d","Contact"]
    let others := ["Contact","$\x7bx\x7d","2021-06 GA","Roadmap","2020 beta","2019-01-02 launch"]
    items.Perm others ∧ (classifiable items).length ≤ 20 ∧
      classify ContentKind.reads {} items = some ⟨.chronological,3,5⟩ ∧
      classify ContentKind.reads {} others = classify ContentKind.reads {} items ∧
      classify ContentKind.reads { threshold := 61 } items = none ∧
      classify ContentKind.reads { threshold := 75 } items = none := by
  intro items others
  have same : items.Perm others := by decide +kernel
  have few : (classifiable items).length ≤ 20 := by decide +kernel
  have none : classify ContentKind.reads { threshold := 61 } items = none := by decide +kernel
  obtain ⟨_,orders,_⟩ := classify_exact_vote ContentKind.reads {} items
  obtain ⟨_,_,shares⟩ := classify_exact_vote ContentKind.reads { threshold := 61 } items
  exact ⟨same,few,by decide +kernel,orders others same few,none,shares 75 (by decide) none⟩

end AccessibleMarkup.Rules.ListSemantics
