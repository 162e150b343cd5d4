import Mathlib

/-!
# Keeping the first item of each key

A list is extended by the items of another whose key is not there yet.  `news` is what
the extension adds.
-/

namespace FirstOfKey

variable {α κ ι : Type*} [DecidableEq κ] [DecidableEq ι]

/-- The items whose key is not among `seen` and not that of an earlier item. -/
def news (key : α → κ) : List κ → List α → List α
  | _, [] => []
  | seen, item :: rest =>
      if key item ∈ seen then news key seen rest
      else item :: news key (key item :: seen) rest

/-- Append each item that the test finds no partner for. -/
def extend (same : α → α → Bool) (found items : List α) : List α :=
  found.foldl
    (fun items item => if items.any fun held => same held item then items else items ++ [item])
    items

variable {key : α → κ}

theorem news_congr {seen others : List κ} (same : ∀ value, value ∈ seen ↔ value ∈ others)
    (items : List α) : news key seen items = news key others items := by
  induction items generalizing seen others with
  | nil => rfl
  | cons item rest ih =>
      simp only [news, same]
      split
      · exact ih same
      · rw [ih]
        intro value
        rw [List.mem_cons, List.mem_cons, same]

theorem extend_eq {same : α → α → Bool}
    (byKey : ∀ held item, same held item = true ↔ key held = key item) (found items : List α) :
    extend same found items = items ++ news key (items.map key) found := by
  induction found generalizing items with
  | nil => simp [extend, news]
  | cons item rest ih =>
      have present : (items.any fun held => same held item) = true ↔
          key item ∈ items.map key := by
        simp [byKey]
      rw [extend, List.foldl_cons, news]
      by_cases held : key item ∈ items.map key
      · rw [if_pos (present.mpr held), if_pos held]
        exact ih items
      · rw [if_neg (mt present.mp held), if_neg held]
        have extended := ih (items ++ [item])
        rw [extend] at extended
        rw [extended, List.append_assoc, List.singleton_append]
        congr 2
        apply news_congr
        intro value
        simp [or_comm, eq_comm]

theorem mem_of_mem_news {seen : List κ} {items : List α} {item : α}
    (member : item ∈ news key seen items) : item ∈ items ∧ key item ∉ seen := by
  induction items generalizing seen with
  | nil => simp [news] at member
  | cons head rest ih =>
      rw [news] at member
      split at member
      · exact ⟨List.mem_cons_of_mem _ (ih member).1, (ih member).2⟩
      · next unseen =>
          cases List.mem_cons.mp member with
          | inl here => exact ⟨here ▸ List.mem_cons_self, here ▸ unseen⟩
          | inr later =>
              obtain ⟨there, fresh⟩ := ih later
              exact ⟨List.mem_cons_of_mem _ there, fun known => fresh (List.mem_cons_of_mem _ known)⟩

/-- Every unseen key has a first item. -/
theorem exists_mem_news {seen : List κ} {items : List α} {item : α} (member : item ∈ items)
    (unseen : key item ∉ seen) : ∃ first ∈ news key seen items, key first = key item := by
  induction items generalizing seen with
  | nil => simp at member
  | cons head rest ih =>
      rw [news]
      split
      · next held =>
          cases List.mem_cons.mp member with
          | inl here => exact absurd (here ▸ held) unseen
          | inr later => exact ih later unseen
      · cases List.mem_cons.mp member with
        | inl here => exact ⟨head, List.mem_cons_self, by rw [here]⟩
        | inr later =>
            by_cases same : key item = key head
            · exact ⟨head, List.mem_cons_self, same.symm⟩
            · obtain ⟨first, firstMember, equal⟩ := ih later
                (fun known => (List.mem_cons.mp known).elim same unseen)
              exact ⟨first, List.mem_cons_of_mem _ firstMember, equal⟩

/-- Two new items with one key are the same. -/
theorem eq_of_mem_news {seen : List κ} {items : List α} {left right : α}
    (leftMember : left ∈ news key seen items) (rightMember : right ∈ news key seen items)
    (same : key left = key right) : left = right := by
  induction items generalizing seen with
  | nil => simp [news] at leftMember
  | cons head rest ih =>
      rw [news] at leftMember rightMember
      split at leftMember
      · next held =>
          rw [if_pos held] at rightMember
          exact ih leftMember rightMember
      · next unseen =>
          rw [if_neg unseen] at rightMember
          rcases List.mem_cons.mp leftMember with rfl | leftLater
          · rcases List.mem_cons.mp rightMember with rfl | rightLater
            · rfl
            · exact absurd (same ▸ List.mem_cons_self) (mem_of_mem_news rightLater).2
          · rcases List.mem_cons.mp rightMember with rfl | rightLater
            · exact absurd (same ▸ List.mem_cons_self) (mem_of_mem_news leftLater).2
            · exact ih leftLater rightLater

/-- Distinct unseen keys are all new. -/
theorem news_eq_self {seen : List κ} {items : List α} (nodup : (items.map key).Nodup)
    (unseen : ∀ item ∈ items, key item ∉ seen) : news key seen items = items := by
  induction items generalizing seen with
  | nil => rfl
  | cons head rest ih =>
      rw [List.map_cons, List.nodup_cons] at nodup
      rw [news, if_neg (unseen head List.mem_cons_self), ih nodup.2]
      intro item member known
      cases List.mem_cons.mp known with
      | inl same => exact nodup.1 (same ▸ List.mem_map_of_mem member)
      | inr held => exact unseen item (List.mem_cons_of_mem _ member) held

/-! ## A coarser key on fewer items -/

variable (coarsen : κ → ι) (keep : κ → Bool)

/-- No item that is new under the fine key is dropped, or taken for another under the
coarse key. -/
def Separates (key : α → κ) (seen : List κ) (items : List α) : Prop :=
  ∀ item ∈ items, key item ∉ seen → keep (key item) = true ∧
    (∀ value ∈ seen, coarsen value ≠ coarsen (key item)) ∧
    ∀ other ∈ items, coarsen (key other) = coarsen (key item) → key other = key item

variable {coarsen keep}

theorem Separates.news_eq {seen : List κ} {items : List α}
    (separates : Separates coarsen keep key seen items) :
    news (coarsen ∘ key) (seen.map coarsen) (items.filter (keep ∘ key)) =
      news key seen items := by
  induction items generalizing seen with
  | nil => rfl
  | cons head rest ih =>
      have later : Separates coarsen keep key seen rest := by
        intro item member unseen
        obtain ⟨kept, apart, alone⟩ :=
          separates item (List.mem_cons_of_mem _ member) unseen
        exact ⟨kept, apart, fun other inside => alone other (List.mem_cons_of_mem _ inside)⟩
      by_cases held : key head ∈ seen
      · rw [news, if_pos held, List.filter_cons]
        split
        · have known : (coarsen ∘ key) head ∈ seen.map coarsen := List.mem_map_of_mem held
          rw [news, if_pos known, ih later]
        · exact ih later
      · obtain ⟨kept, apart, alone⟩ := separates head List.mem_cons_self held
        have fresh : (coarsen ∘ key) head ∉ seen.map coarsen := by
          intro known
          obtain ⟨value, member, same⟩ := List.mem_map.mp known
          exact apart value member same
        rw [news, if_neg held, List.filter_cons_of_pos (by simpa using kept), news, if_neg fresh,
          Function.comp_apply, ← List.map_cons, ih]
        intro item member unseen
        rw [List.mem_cons, not_or] at unseen
        obtain ⟨itemKept, itemApart, itemAlone⟩ :=
          separates item (List.mem_cons_of_mem _ member) unseen.2
        refine ⟨itemKept, ?_, fun other inside => itemAlone other (List.mem_cons_of_mem _ inside)⟩
        intro value known same
        cases List.mem_cons.mp known with
        | inl here =>
            rw [here] at same
            exact unseen.1 (itemAlone head List.mem_cons_self same).symm
        | inr before => exact itemApart value before same

/-- Keeping fewer items under a coarser key adds the same items exactly if it separates
the new ones. -/
theorem news_perm_iff {seen : List κ} {items : List α} :
    (news (coarsen ∘ key) (seen.map coarsen) (items.filter (keep ∘ key))).Perm
        (news key seen items) ↔
      Separates coarsen keep key seen items := by
  constructor
  · intro same item member unseen
    obtain ⟨first, firstMember, firstKey⟩ := exists_mem_news member unseen
    have inCoarse := same.mem_iff.mpr firstMember
    obtain ⟨filtered, apart⟩ := mem_of_mem_news inCoarse
    have kept := List.of_mem_filter filtered
    rw [Function.comp_apply, firstKey] at kept
    have separate : ∀ value ∈ seen, coarsen value ≠ coarsen (key item) := by
      intro value known collides
      apply apart
      rw [Function.comp_apply, firstKey, ← collides]
      exact List.mem_map_of_mem known
    refine ⟨kept, separate, ?_⟩
    intro other inside collides
    have otherUnseen : key other ∉ seen := fun known => separate _ known collides
    obtain ⟨second, secondMember, secondKey⟩ := exists_mem_news inside otherUnseen
    have equal := eq_of_mem_news (same.mem_iff.mpr secondMember) inCoarse (by
      rw [Function.comp_apply, Function.comp_apply, secondKey, firstKey, collides])
    rw [← secondKey, equal, firstKey]
  · intro separates
    rw [separates.news_eq]

end FirstOfKey
