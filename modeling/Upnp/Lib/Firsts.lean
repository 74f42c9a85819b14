/-
  Keeping the first element of each key.

  `key a = none` says that `a` is never taken for a repetition.

  * `firsts key l` keeps the elements of `l` that do not repeat the key of an
    earlier one: the keys of the result are distinct (`nodup_keys_firsts`) and
    are those of `l` (`mem_keys_firsts`), in the order of `l` (`firsts_sublist`),
    and an element left out repeats an earlier one (`firsts_split`);
  * `firsts_filterMap`, `filterMap_firsts`: the kept elements with a key, and
    those without;
  * `firsts_perm`: the order of `l` makes no difference if no two elements share a key;
  * `flatMap_filter_firsts_iff`: when it makes no difference whether a filter is
    applied before or after.
-/
import Mathlib.Data.List.Induction
import Mathlib.Data.List.Nodup

namespace Lib

universe u v w
variable {α : Type u} {β : Type w} {κ : Type v} [DecidableEq κ]

section
variable (key : α → Option κ)

/-- `a` has the key of an element of `l`. -/
def Repeats (l : List α) (a : α) : Prop := ∃ k ∈ key a, k ∈ l.filterMap key

instance (l : List α) (a : α) : Decidable (Repeats key l a) :=
  inferInstanceAs (Decidable (∃ k ∈ key a, k ∈ l.filterMap key))

/-- The elements that do not repeat the key of an earlier one. -/
def firsts (l : List α) : List α :=
  l.foldl (fun kept a => if Repeats key kept a then kept else kept ++ [a]) []

end

variable {key : α → Option κ} {l : List α} {a : α} {k : κ}

@[simp] theorem firsts_nil : firsts key [] = [] := rfl

theorem firsts_snoc_kept : firsts key (l ++ [a]) =
    if Repeats key (firsts key l) a then firsts key l else firsts key l ++ [a] := by
  rw [firsts, List.foldl_append]
  rfl

theorem firsts_sublist : (firsts key l).Sublist l := by
  induction l using List.reverseRecOn with
  | nil => simp
  | append_singleton l a ih =>
    rw [firsts_snoc_kept]
    split
    · exact ih.trans (List.sublist_append_left l [a])
    · exact ih.append (List.Sublist.refl [a])

theorem mem_keys_firsts : k ∈ (firsts key l).filterMap key ↔ k ∈ l.filterMap key := by
  induction l using List.reverseRecOn with
  | nil => rfl
  | append_singleton l a ih =>
    rw [firsts_snoc_kept, List.filterMap_append, List.mem_append, ← ih]
    split
    · rename_i h
      obtain ⟨k', hk', hl⟩ := h
      constructor
      · exact Or.inl
      · rintro (h | h)
        · exact h
        · obtain rfl : k = k' := by simpa [Option.mem_def.1 hk'] using h
          exact hl
    · rw [List.filterMap_append, List.mem_append]

theorem repeats_firsts : Repeats key (firsts key l) a ↔ Repeats key l a := by
  simp only [Repeats, mem_keys_firsts]

/-- **One more element.** -/
theorem firsts_snoc : firsts key (l ++ [a]) =
    if Repeats key l a then firsts key l else firsts key l ++ [a] := by
  simp only [firsts_snoc_kept, repeats_firsts]

@[simp] theorem firsts_singleton : firsts key [a] = [a] := by
  rw [← List.nil_append [a], firsts_snoc, if_neg (by simp [Repeats]), firsts_nil]

theorem isPrefix_firsts_append (l l' : List α) : firsts key l <+: firsts key (l ++ l') := by
  induction l' using List.reverseRecOn with
  | nil => simp
  | append_singleton l' a ih =>
    rw [← List.append_assoc, firsts_snoc]
    split
    · exact ih
    · exact ih.trans (List.prefix_append _ _)

/-- **An element is kept, or an earlier kept element has its key.** -/
theorem firsts_split {l₁ l₂ : List α} (h : l = l₁ ++ a :: l₂) :
    a ∈ firsts key l ∨ ∃ b ∈ l₁, b ∈ firsts key l ∧ ∃ k ∈ key a, k ∈ key b := by
  have hpre : firsts key (l₁ ++ [a]) <+: firsts key l := by
    rw [h, List.append_cons l₁ a l₂]
    exact isPrefix_firsts_append _ l₂
  rw [firsts_snoc] at hpre
  split at hpre
  · rename_i hr
    obtain ⟨k, hk, hm⟩ := hr
    obtain ⟨b, hb, hkb⟩ := List.mem_filterMap.1 (mem_keys_firsts.2 hm)
    exact .inr ⟨b, firsts_sublist.subset hb, hpre.subset hb, k, hk, hkb⟩
  · exact .inl (hpre.subset (by simp))

/-- **No key is kept twice.** -/
theorem nodup_keys_firsts : ((firsts key l).filterMap key).Nodup := by
  induction l using List.reverseRecOn with
  | nil => simp
  | append_singleton l a ih =>
    rw [firsts_snoc]
    split
    · exact ih
    · rename_i h
      rw [List.filterMap_append]
      rcases hk : key a with _ | k
      · simpa [hk] using ih
      · have hl : k ∉ (firsts key l).filterMap key := fun hm => h ⟨k, hk, mem_keys_firsts.1 hm⟩
        rw [List.filterMap_cons_some hk, List.filterMap_nil]
        exact ih.append (List.nodup_singleton k) (List.disjoint_singleton.2 hl)

/-- Elements without a key are all kept. -/
theorem filterMap_firsts {g : α → Option β} (h : ∀ a b, g a = some b → key a = none) :
    (firsts key l).filterMap g = l.filterMap g := by
  induction l using List.reverseRecOn with
  | nil => rfl
  | append_singleton l a ih =>
    rw [firsts_snoc, List.filterMap_append]
    split
    · rename_i hr
      obtain ⟨k, hk, -⟩ := hr
      rcases hg : g a with _ | b
      · simp [hg, ih]
      · rw [h a b hg] at hk; cases hk
    · rw [List.filterMap_append, ih]

/-- The kept elements with a key are the firsts among these. -/
theorem firsts_filterMap {g : α → Option β} {key' : β → κ}
    (h : ∀ a, key a = (g a).map key') :
    (firsts key l).filterMap g = firsts (fun b => some (key' b)) (l.filterMap g) := by
  have hrep : ∀ l a b, g a = some b →
      (Repeats key l a ↔ Repeats (fun b => some (key' b)) (l.filterMap g) b) := by
    intro l a b hb
    have hkey : key = fun a => (g a).map key' := funext h
    have hkeys : l.filterMap key = (l.filterMap g).map key' := by
      rw [hkey, List.map_filterMap]
    have hkeys' : (l.filterMap g).filterMap (fun b => some (key' b)) = (l.filterMap g).map key' :=
      congrFun List.filterMap_eq_map' _
    simp only [Repeats, hkeys, hkeys', h a, hb]
    simp
  induction l using List.reverseRecOn with
  | nil => rfl
  | append_singleton l a ih =>
    rw [firsts_snoc, List.filterMap_append]
    rcases hg : g a with _ | b
    · have hn : ¬ Repeats key l a := by rintro ⟨k, hk, -⟩; simp [h, hg] at hk
      rw [if_neg hn, List.filterMap_append, ih, List.filterMap_cons_none hg]
      simp
    · rw [List.filterMap_cons_some hg, List.filterMap_nil, firsts_snoc]
      by_cases hr : Repeats key l a
      · rw [if_pos hr, if_pos ((hrep l a b hg).1 hr), ih]
      · rw [if_neg hr, if_neg (fun hb => hr ((hrep l a b hg).2 hb))]
        rw [List.filterMap_append, ih, List.filterMap_cons_some hg, List.filterMap_nil]

/-! ## Any order -/

/-- If each element has a key, and no other element has it, a list and its firsts
    have the same elements. -/
theorem mem_firsts (hkey : ∀ a ∈ l, (key a).isSome)
    (hinj : ∀ a ∈ l, ∀ b ∈ l, key a = key b → a = b) : a ∈ firsts key l ↔ a ∈ l := by
  refine ⟨fun h => firsts_sublist.subset h, ?_⟩
  intro h
  obtain ⟨k, hk⟩ := Option.isSome_iff_exists.1 (hkey a h)
  obtain ⟨b, hb, hkb⟩ := List.mem_filterMap.1
    (mem_keys_firsts.2 (List.mem_filterMap.2 ⟨a, h, hk⟩))
  rwa [hinj a h b (firsts_sublist.subset hb) (hk.trans hkb.symm)]

theorem nodup_firsts (hkey : ∀ a ∈ l, (key a).isSome) : (firsts key l).Nodup := by
  have hsome : (firsts key l).map key = ((firsts key l).filterMap key).map some := by
    rw [List.map_filterMap, ← List.filterMap_eq_map]
    refine List.filterMap_congr ?_
    intro a ha
    obtain ⟨k, hk⟩ := Option.isSome_iff_exists.1 (hkey a (firsts_sublist.subset ha))
    simp [hk]
  refine List.Nodup.of_map key ?_
  rw [hsome]
  exact nodup_keys_firsts.map fun _ _ h => Option.some.inj h

/-- **Lists of the same elements have the same firsts, if no two elements share a
    key.** -/
theorem firsts_perm {l' : List α} (hp : l.Perm l') (hkey : ∀ a ∈ l, (key a).isSome)
    (hinj : ∀ a ∈ l, ∀ b ∈ l, key a = key b → a = b) : (firsts key l).Perm (firsts key l') := by
  have hkey' : ∀ a ∈ l', (key a).isSome := fun a ha => hkey a (hp.mem_iff.2 ha)
  have hinj' : ∀ a ∈ l', ∀ b ∈ l', key a = key b → a = b :=
    fun a ha b hb => hinj a (hp.mem_iff.2 ha) b (hp.mem_iff.2 hb)
  refine (List.perm_ext_iff_of_nodup (nodup_firsts hkey) (nodup_firsts hkey')).2 ?_
  intro a
  rw [mem_firsts hkey hinj, mem_firsts hkey' hinj', hp.mem_iff]

/-! ## Filtering before or after -/

/-- A property of each element and what stands before it, for one more element. -/
theorem forall_split_snoc {Q : List α → α → Prop} {b : α} :
    (∀ l₁ a l₂, l ++ [b] = l₁ ++ a :: l₂ → Q l₁ a) ↔
      (∀ l₁ a l₂, l = l₁ ++ a :: l₂ → Q l₁ a) ∧ Q l b := by
  constructor
  · intro h
    exact ⟨fun l₁ a l₂ hl => h l₁ a (l₂ ++ [b]) (by simp [hl]), h l b [] rfl⟩
  · rintro ⟨h, hb⟩ l₁ a l₂ hl
    rcases List.eq_nil_or_concat l₂ with rfl | ⟨l₃, c, rfl⟩
    · obtain ⟨rfl, hc⟩ := List.append_inj' hl rfl
      cases hc
      exact hb
    · rw [List.concat_eq_append, ← List.cons_append, ← List.append_assoc] at hl
      exact h l₁ a l₃ (List.append_inj' hl rfl).1

variable {p : α → Bool}

/-- Each element that is the first with its key among those satisfying `p`, and
    that `f` takes to something, is the first with its key among all. -/
def FirstOfAll (key : α → Option κ) (p : α → Bool) (f : α → List β) (l : List α) : Prop :=
  ∀ l₁ a l₂, l = l₁ ++ a :: l₂ → p a = true → f a ≠ [] →
    ¬ Repeats key (l₁.filter p) a → ¬ Repeats key l₁ a

omit [DecidableEq κ] in
theorem Repeats.of_filter (h : Repeats key (l.filter p) a) : Repeats key l a := by
  obtain ⟨k, hk, hm⟩ := h
  exact ⟨k, hk, (List.filter_sublist.filterMap key).subset hm⟩

/-- Filtering afterwards never gives more. -/
theorem flatMap_filter_firsts_sublist {f : α → List β} :
    (((firsts key l).filter p).flatMap f).Sublist ((firsts key (l.filter p)).flatMap f) := by
  induction l using List.reverseRecOn with
  | nil => simp
  | append_singleton l a ih =>
    rw [firsts_snoc, List.filter_append]
    by_cases hp : p a = true
    · rw [List.filter_cons_of_pos hp, List.filter_nil, firsts_snoc]
      by_cases hr : Repeats key l a
      · rw [if_pos hr]
        split
        · exact ih
        · rw [List.flatMap_append]
          exact ih.trans (List.sublist_append_left _ _)
      · rw [if_neg hr, if_neg (fun h => hr h.of_filter), List.filter_append,
          List.filter_cons_of_pos hp, List.filter_nil, List.flatMap_append, List.flatMap_append]
        exact ih.append (List.Sublist.refl _)
    · rw [List.filter_cons_of_neg hp, List.filter_nil, List.append_nil]
      split
      · exact ih
      · rwa [List.filter_append, List.filter_cons_of_neg hp, List.filter_nil, List.append_nil]

/-- **Keeping firsts and then filtering gives what filtering and then keeping
    firsts gives, as far as `f` tells, exactly if nothing that fails the filter
    takes the place of something that passes it.** -/
theorem flatMap_filter_firsts_iff {f : α → List β} :
    ((firsts key l).filter p).flatMap f = (firsts key (l.filter p)).flatMap f ↔
      FirstOfAll key p f l := by
  induction l using List.reverseRecOn with
  | nil => simp [FirstOfAll]
  | append_singleton l a ih =>
    rw [FirstOfAll, forall_split_snoc, ← FirstOfAll, ← ih, firsts_snoc, List.filter_append]
    by_cases hp : p a = true
    · rw [List.filter_cons_of_pos hp, List.filter_nil, firsts_snoc]
      by_cases hr : Repeats key l a
      · rw [if_pos hr]
        by_cases hf : Repeats key (l.filter p) a
        · simp [hf]
        · rw [if_neg hf, List.flatMap_append, List.flatMap_singleton]
          constructor
          · intro h
            have hlen := congrArg List.length h
            have hle := (@flatMap_filter_firsts_sublist _ _ _ _ key l p f).length_le
            rw [List.length_append] at hlen
            have hfa : f a = [] := List.eq_nil_of_length_eq_zero (by omega)
            exact ⟨by simpa [hfa] using h, fun _ hne => absurd hfa hne⟩
          · rintro ⟨h, hfa⟩
            have : f a = [] := by
              by_contra hne
              exact hfa hp hne hf hr
            rw [h, this, List.append_nil]
      · rw [if_neg hr, if_neg (fun h => hr h.of_filter), List.filter_append,
          List.filter_cons_of_pos hp]
        simp [hr]
    · rw [List.filter_cons_of_neg hp, List.filter_nil, List.append_nil]
      have hlast : (p a = true → f a ≠ [] → ¬ Repeats key (l.filter p) a → ¬ Repeats key l a) :=
        fun h => absurd h hp
      split
      · exact ⟨fun h => ⟨h, hlast⟩, And.left⟩
      · rw [List.filter_append, List.filter_cons_of_neg hp, List.filter_nil, List.append_nil]
        exact ⟨fun h => ⟨h, hlast⟩, And.left⟩

/-- The same, whatever the order. -/
theorem flatMap_filter_firsts_perm_iff {f : α → List β} :
    (((firsts key l).filter p).flatMap f).Perm ((firsts key (l.filter p)).flatMap f) ↔
      FirstOfAll key p f l := by
  rw [← flatMap_filter_firsts_iff]
  exact ⟨fun h => flatMap_filter_firsts_sublist.eq_of_length h.length_eq, fun h => h ▸ .refl _⟩

end Lib
