import DocCoverage.Path
import Mathlib.Data.List.Lex
import Mathlib.Data.List.Pairwise
import Mathlib.Data.Prod.Lex
import Mathlib.Data.String.Basic
/-!
# Paths — the order of paths

Paths are ordered strictly by their components, and two paths that neither
is before the other are the same. Sorting entries by path therefore leaves
increasing entries in place (`inOrder_of_increasing`), and of entries in
order the first of each path, or the last, are increasing
(`increasing_firstOfEach`, `increasing_lastOfEach`).
-/

namespace DocCoverage

namespace Path

/-! ## Components -/

namespace Component

/-- What components are compared by. -/
def key (a : Component) : ℕ ×ₗ String := toLex (a.rank, a.text)

theorem key_injective : Function.Injective key := by
  intro a b h
  have hkey : a.rank = b.rank ∧ a.text = b.text := by simpa [key] using h
  cases a <;> cases b <;> simp_all [rank, text]

theorem lt_iff {a b : Component} : a < b ↔ a.key < b.key := by
  rw [key, key, Prod.Lex.toLex_lt_toLex]
  rfl

instance : Trans (· < · : Component → Component → Prop) (· < ·) (· < ·) where
  trans hab hbc := lt_iff.mpr ((lt_iff.mp hab).trans (lt_iff.mp hbc))

instance : Std.Irrefl (· < · : Component → Component → Prop) where
  irrefl _ h := lt_irrefl _ (lt_iff.mp h)

instance : Std.Trichotomous (· < · : Component → Component → Prop) where
  trichotomous _ _ hab hba :=
    key_injective (le_antisymm (not_lt.mp fun h => hba (lt_iff.mpr h))
      (not_lt.mp fun h => hab (lt_iff.mpr h)))

end Component

/-! ## Paths -/

variable {a b c : Path}

theorem same_iff : a.same b = true ↔ a.components = b.components := beq_iff_eq

theorem same_refl (a : Path) : a.same a = true := same_iff.mpr rfl

theorem same_comm (a b : Path) : a.same b = b.same a := Bool.beq_comm

theorem before_iff : a.before b = true ↔ a.components < b.components := by
  rw [before, decide_eq_true_iff]

theorem before_irrefl (a : Path) : a.before a = false := by
  rw [← Bool.not_eq_true, before_iff]
  exact List.lt_irrefl a.components

theorem before_trans (hab : a.before b = true) (hbc : b.before c = true) : a.before c = true := by
  rw [before_iff] at hab hbc ⊢
  exact List.lt_trans hab hbc

theorem before_or_same_or_before (a b : Path) :
    a.before b = true ∨ a.same b = true ∨ b.before a = true := by
  rw [before_iff, before_iff, same_iff]
  have h := (List.Lex.trichotomous (· < · : Component → Component → Prop)).trichotomous
    a.components b.components
  by_cases hab : a.components < b.components
  · exact .inl hab
  · by_cases hba : b.components < a.components
    · exact .inr (.inr hba)
    · exact .inr (.inl (h hab hba))

theorem before_asymm (h : a.before b = true) : b.before a = false := by
  rw [← Bool.not_eq_true]
  intro h'
  have hself := before_trans h h'
  rw [before_irrefl] at hself
  contradiction

theorem not_same_of_before (h : a.before b = true) : a.same b = false := by
  rw [← Bool.not_eq_true]
  intro h'
  rw [before_iff, same_iff.mp h', ← before_iff, before_irrefl] at h
  contradiction

/-- Paths in increasing order. -/
def Increasing (paths : List Path) : Prop := paths.Pairwise fun a b => a.before b = true

/-- What is made of items of increasing paths, and keeps the path, has
increasing paths. -/
theorem Increasing.filterMap {β γ : Type} {items : List β} {path : β → Path} {key : γ → Path}
    {make : β → Option γ} (h : Increasing (items.map path))
    (hkey : ∀ item, ∀ made ∈ make item, key made = path item) :
    Increasing ((items.filterMap make).map key) := by
  refine List.pairwise_map.mpr (List.pairwise_filterMap.mpr ?_)
  refine (List.pairwise_map.mp h).imp fun {a b} hab => ?_
  intro x hx y hy
  rw [hkey a x hx, hkey b y hy]
  exact hab

/-- Paths that are all different, however they are spelled. -/
def Distinct (paths : List Path) : Prop := paths.Pairwise fun a b => a.same b = false

theorem Increasing.distinct {paths : List Path} (h : Increasing paths) : Distinct paths :=
  h.imp fun hab => not_same_of_before hab

theorem Distinct.perm {paths paths' : List Path} (h : Distinct paths) (hperm : paths.Perm paths') :
    Distinct paths' :=
  List.Pairwise.perm h hperm fun hab => (same_comm _ _).trans hab

/-- Items of distinct paths are told apart by their paths. -/
theorem Distinct.eq_of_same {β : Type} {items : List β} {path : β → Path}
    (h : Distinct (items.map path)) {x y : β} (hx : x ∈ items) (hy : y ∈ items)
    (hsame : (path x).same (path y) = true) : x = y := by
  have hdistinct : items.Pairwise fun x y => (path x).same (path y) = false := List.pairwise_map.mp h
  have : Std.Symm fun x y : β => (path x).same (path y) = false :=
    ⟨fun x y hxy => (same_comm _ _).trans hxy⟩
  by_contra hne
  have hfalse := hdistinct.forall hx hy hne
  rw [hsame] at hfalse
  contradiction

theorem Increasing.eq_of_same {β : Type} {items : List β} {path : β → Path}
    (h : Increasing (items.map path)) {x y : β} (hx : x ∈ items) (hy : y ∈ items)
    (hsame : (path x).same (path y) = true) : x = y :=
  h.distinct.eq_of_same hx hy hsame

/-- **Items of distinct paths can be put in order in one way only.** -/
theorem Distinct.eq_of_perm {β : Type} {items items' : List β} {path : β → Path}
    (h : Distinct (items.map path)) (hperm : items.Perm items')
    (hitems : items.Pairwise fun x y => (path y).before (path x) = false)
    (hitems' : items'.Pairwise fun x y => (path y).before (path x) = false) : items = items' := by
  refine hperm.eq_of_pairwise (fun x y hx hy hxy hyx => ?_) hitems hitems'
  -- of two items neither is before the other, so they are one
  rcases before_or_same_or_before (path x) (path y) with hbefore | hsame | hbefore
  · rw [hbefore] at hyx
    contradiction
  · exact h.eq_of_same hx (hperm.mem_iff.mpr hy) hsame
  · rw [hbefore] at hxy
    contradiction

/-! ## Entries -/

variable {α : Type} {entries : List (Path × α)}

theorem notBefore_trans (hab : b.before a = false) (hbc : c.before b = false) :
    c.before a = false := by
  rw [← Bool.not_eq_true]
  intro hca
  rcases before_or_same_or_before b c with h | h | h
  · have hba := before_trans h hca
    rw [hab] at hba
    contradiction
  · rw [before_iff, ← same_iff.mp h, ← before_iff, hab] at hca
    contradiction
  · rw [hbc] at h
    contradiction

theorem notBefore_total (a b : Path) : (!b.before a || !a.before b) = true := by
  rw [Bool.or_eq_true, Bool.not_eq_true', Bool.not_eq_true']
  cases h : b.before a
  · exact .inl rfl
  · exact .inr (before_asymm h)

/-- Items that are sorted by their paths are in order. -/
theorem pairwise_mergeSort {β : Type} (path : β → Path) (items : List β) :
    (items.mergeSort fun x y => !(path y).before (path x)).Pairwise
      fun x y => (path y).before (path x) = false := by
  refine (List.pairwise_mergeSort ?_ ?_ items).imp ?_
  · intro x y z hxy hyz
    simp only [Bool.not_eq_true'] at hxy hyz ⊢
    exact notBefore_trans hxy hyz
  · intro x y
    exact notBefore_total (path x) (path y)
  · intro x y h
    simpa only [Bool.not_eq_true'] using h

/-- **Sorting forgets the order** in which items of distinct paths came. -/
theorem Distinct.mergeSort_eq_of_perm {β : Type} {items items' : List β} {path : β → Path}
    (h : Distinct (items.map path)) (hperm : items.Perm items') :
    (items.mergeSort fun x y => !(path y).before (path x)) =
      items'.mergeSort fun x y => !(path y).before (path x) := by
  have hsorted := List.mergeSort_perm items fun x y => !(path y).before (path x)
  have hsorted' := List.mergeSort_perm items' fun x y => !(path y).before (path x)
  refine (h.perm (hsorted.map path).symm).eq_of_perm ((hsorted.trans hperm).trans hsorted'.symm)
    (pairwise_mergeSort path items) (pairwise_mergeSort path items')

/-- Sorting by path, as a sorting of the entries themselves. -/
theorem inOrder_eq (entries : List (Path × α)) :
    inOrder entries = entries.mergeSort fun a b => !b.1.before a.1 := by
  rw [inOrder, ← List.map_mergeSort (r := fun a b => !b.1.before a.1)
    (f := fun entry : Path × α => (entry.1.components, entry)) fun _ _ _ _ => rfl, List.map_map]
  exact List.map_id _

theorem perm_inOrder (entries : List (Path × α)) : (inOrder entries).Perm entries := by
  rw [inOrder_eq]
  exact List.mergeSort_perm _ _

theorem pairwise_inOrder (entries : List (Path × α)) :
    (inOrder entries).Pairwise fun a b => b.1.before a.1 = false := by
  rw [inOrder_eq]
  exact pairwise_mergeSort Prod.fst entries

/-- Entries of increasing paths are in order. -/
theorem inOrder_of_increasing (h : Increasing (entries.map (·.1))) : inOrder entries = entries := by
  rw [inOrder_eq]
  refine List.mergeSort_of_pairwise ((List.pairwise_map.mp h).imp fun hab => ?_)
  rw [before_asymm hab, Bool.not_false]

/-! ## One entry of each path -/

/-- Of entries in order, those kept increase strictly, from the path before
them on. -/
theorem increasing_firstsAfter (previous : Option Path)
    (hsorted : entries.Pairwise fun a b => b.1.before a.1 = false)
    (hprev : ∀ p ∈ previous, ∀ entry ∈ entries, entry.1.before p = false) :
    Increasing ((firstsAfter previous entries).map (·.1)) ∧
      ∀ p ∈ previous, ∀ entry ∈ firstsAfter previous entries, p.before entry.1 = true := by
  induction entries generalizing previous with
  | nil => exact ⟨List.Pairwise.nil, fun _ _ _ h => absurd h List.not_mem_nil⟩
  | cons entry rest ih =>
    obtain ⟨hentry, hrest⟩ := List.pairwise_cons.mp hsorted
    rw [firstsAfter]
    split
    next => exact ih previous hrest fun p hp e he => hprev p hp e (List.mem_cons_of_mem _ he)
    next hnew =>
      -- what is kept is behind the path before, and takes its place
      obtain ⟨hinc, hafter⟩ := ih (some entry.1) hrest fun p hp e he => by
        obtain rfl := Option.mem_some_iff.mp hp
        exact hentry e he
      have hkept : ∀ e ∈ firstsAfter (some entry.1) rest, entry.1.before e.1 = true :=
        fun e he => hafter entry.1 rfl e he
      refine ⟨?_, fun p hp => ?_⟩
      · rw [List.map_cons]
        exact List.pairwise_cons.mpr ⟨List.forall_mem_map.mpr hkept, hinc⟩
      · have hfirst : p.before entry.1 = true := by
          rcases before_or_same_or_before p entry.1 with h | h | h
          · exact h
          · exact absurd ((Option.any_eq_true _ _).mpr ⟨p, hp, (same_comm _ _).trans h⟩) hnew
          · rw [hprev p hp entry List.mem_cons_self] at h
            contradiction
        intro e he
        rcases List.mem_cons.mp he with rfl | he
        · exact hfirst
        · exact before_trans hfirst (hkept e he)

theorem increasing_firstOfEach (entries : List (Path × α)) :
    Increasing ((firstOfEach entries).map (·.1)) :=
  (increasing_firstsAfter none (pairwise_inOrder entries) (fun _ h => nomatch h)).1

theorem increasing_firstSpellings (paths : List Path) : Increasing (firstSpellings paths) :=
  increasing_firstOfEach _

theorem lasts_of_increasing (h : Increasing (entries.map (·.1))) : lasts entries = entries := by
  induction entries with
  | nil => rfl
  | cons entry rest ih =>
    obtain ⟨hentry, hrest⟩ := List.pairwise_cons.mp h
    have hnext : rest.head?.any (fun next => entry.1.same next.1) = false := by
      rw [← Bool.not_eq_true, Option.any_eq_true]
      rintro ⟨next, hmem, hsame⟩
      have hin : next.1 ∈ rest.map (·.1) := List.mem_map_of_mem (List.mem_of_mem_head? hmem)
      rw [not_same_of_before (hentry _ hin)] at hsame
      contradiction
    rw [lasts, hnext, ih hrest]
    rfl

/-- Entries of increasing paths stay as they are. -/
theorem lastOfEach_of_increasing (h : Increasing (entries.map (·.1))) :
    lastOfEach entries = entries := by
  rw [lastOfEach, inOrder_of_increasing h, lasts_of_increasing h]

/-! ## Looking up -/

section Lookup

variable {β : Type} {items : List β} (path : β → Path) (value? : β → Option α)

/-- What items have a value, under the components of their paths. -/
def table (items : List β) : List (List Component × α) :=
  items.filterMap fun item => (value? item).map ((path item).components, ·)

theorem lookup_table_of_before {key : Path}
    (h : ∀ item ∈ items, key.before (path item) = true) :
    (table path value? items).lookup key.components = none := by
  rw [List.lookup_eq_none_iff]
  intro entry hentry
  obtain ⟨item, hitem, hvalue⟩ := List.mem_filterMap.mp hentry
  obtain ⟨value, -, rfl⟩ := Option.map_eq_some_iff.mp hvalue
  change (!key.same (path item)) = true
  rw [not_same_of_before (h item hitem), Bool.not_false]

/-- Where paths increase, each item is looked up by its own. -/
theorem lookup_table (h : Increasing (items.map path)) {item : β} (hmem : item ∈ items) :
    (table path value? items).lookup (path item).components = value? item := by
  induction items with
  | nil => exact absurd hmem List.not_mem_nil
  | cons first rest ih =>
    obtain ⟨hfirst, hrest⟩ := List.pairwise_cons.mp h
    have hbefore := List.forall_mem_map.mp hfirst
    rcases List.mem_cons.mp hmem with rfl | hin
    -- an item without a value has no entry, and nobody else has its path
    · cases hvalue : value? item with
      | none =>
        rw [table, List.filterMap_cons_none (by rw [hvalue, Option.map_none])]
        exact lookup_table_of_before path value? hbefore
      | some value =>
        rw [table, List.filterMap_cons_some (by rw [hvalue, Option.map_some]), List.lookup_cons_self]
    · have hne : ((path item).components == (path first).components) = false := by
        rw [← same, same_comm]
        exact not_same_of_before (hbefore item hin)
      rw [← ih hrest hin]
      cases hvalue : value? first with
      | none => rw [table, List.filterMap_cons_none (by rw [hvalue, Option.map_none]), ← table]
      | some value =>
        rw [table, List.filterMap_cons_some (by rw [hvalue, Option.map_some]), List.lookup_cons, hne,
          ← table]

end Lookup

end Path

end DocCoverage
