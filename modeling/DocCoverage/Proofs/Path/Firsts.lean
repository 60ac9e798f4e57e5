import DocCoverage.Proofs.Path.Order
import Mathlib.Data.List.Sort
/-!
# Paths — one spelling of each path

Sorting keeps entries of the same path in their order, so that the first of
each path is the first among all entries (`mem_firstOfEach`). Which spelling
of a path is kept is therefore decided by the spellings of that path alone
(`mem_firstSpellings`). Where the last spelling is kept, every path keeps one
(`exists_mem_lastSpellings`), and paths that are all different are only put in
order (`lastSpellings_of_perm`).
-/

namespace DocCoverage

namespace Path

variable {α : Type} {entries : List (Path × α)} {entry : Path × α} {a b path : Path}

theorem same_trans {c : Path} (hab : a.same b = true) (hbc : b.same c = true) :
    a.same c = true :=
  same_iff.mpr ((same_iff.mp hab).trans (same_iff.mp hbc))

theorem not_before_of_same (h : a.same b = true) : a.before b = false := by
  rw [← Bool.not_eq_true]
  intro hbefore
  rw [not_same_of_before hbefore] at h
  cases h

theorem same_congr_left (h : a.same b = true) (path : Path) : a.same path = b.same path := by
  rw [same, same, beq_iff_eq.mp h]

/-- What comes after a path, and after another one in between, is not at the
former. -/
theorem not_same_of_between {c : Path} (hab : b.before a = false) (hbc : c.before b = false)
    (hne : c.same b = false) : c.same a = false := by
  rw [← Bool.not_eq_true]
  intro hsame
  have hbefore : b.before c = true := by
    rcases before_or_same_or_before b c with h | h | h
    · exact h
    · rw [same_comm, h] at hne
      cases hne
    · rw [hbc] at h
      cases h
  rw [before_iff, beq_iff_eq.mp hsame, ← before_iff, hab] at hbefore
  cases hbefore

/-- Increasing paths are told by which paths are among them. -/
theorem Increasing.ext {paths paths' : List Path} (h : Increasing paths) (h' : Increasing paths')
    (hmem : ∀ path, path ∈ paths ↔ path ∈ paths') : paths = paths' := by
  have : Std.Asymm fun a b : Path => a.before b = true :=
    ⟨fun a b hab hba => by rw [before_asymm hab] at hba; cases hba⟩
  exact h.eq_of_mem_iff h' fun {path} => hmem path

/-! ## Sorting is stable -/

/-- Entries of one path are sorted into the order they were in. -/
theorem filter_inOrder (entries : List (Path × α)) (path : Path) :
    (inOrder entries).filter (fun entry => path.same entry.1) =
      entries.filter fun entry => path.same entry.1 := by
  have hsorted : (entries.filter fun entry => path.same entry.1).Pairwise
      fun a b => (!b.1.before a.1) = true := by
    refine List.Pairwise.imp_of_mem (fun {a b} ha hb _ => ?_) (List.pairwise_of_forall fun _ _ => trivial)
    have hba : b.1.same a.1 = true := by
      rw [← same_congr_left (List.mem_filter.mp hb).2]
      exact (List.mem_filter.mp ha).2
    rw [not_before_of_same hba, Bool.not_false]
  have hsub : (entries.filter fun entry => path.same entry.1).Sublist (inOrder entries) := by
    rw [inOrder_eq]
    refine List.sublist_mergeSort ?_ ?_ hsorted List.filter_sublist
    · intro a b c hab hbc
      simp only [Bool.not_eq_true'] at hab hbc ⊢
      exact notBefore_trans hab hbc
    · intro a b
      exact notBefore_total a.1 b.1
  -- a sublist of the same length is the whole list
  have hclass := hsub.filter fun entry => path.same entry.1
  rw [List.filter_filter] at hclass
  simp only [Bool.and_self] at hclass
  exact (hclass.eq_of_length ((perm_inOrder entries).filter _).length_eq.symm).symm

theorem find?_inOrder (entries : List (Path × α)) (path : Path) :
    (inOrder entries).find? (fun entry => path.same entry.1) =
      entries.find? fun entry => path.same entry.1 := by
  rw [← List.head?_filter, ← List.head?_filter, filter_inOrder]

/-! ## What is kept -/

/-- Of entries in order, those are kept that are not at the path before them
and are the first of their own. -/
theorem mem_firstsAfter (previous : Option Path)
    (hsorted : entries.Pairwise fun a b => b.1.before a.1 = false)
    (hprev : ∀ p ∈ previous, ∀ entry ∈ entries, entry.1.before p = false) :
    entry ∈ firstsAfter previous entries ↔
      (∀ p ∈ previous, entry.1.same p = false) ∧
        entries.find? (fun other => entry.1.same other.1) = some entry := by
  induction entries generalizing previous with
  | nil => simp [firstsAfter]
  | cons first rest ih =>
    obtain ⟨hfirst, hrest⟩ := List.pairwise_cons.mp hsorted
    have hprev_rest : ∀ p ∈ previous, ∀ entry ∈ rest, entry.1.before p = false :=
      fun p hp e he => hprev p hp e (List.mem_cons_of_mem _ he)
    rw [firstsAfter]
    split
    next hskip =>
      obtain ⟨p, hp, hsame⟩ := (Option.any_eq_true _ _).mp hskip
      rw [ih previous hrest hprev_rest]
      refine and_congr_right fun hnew => ?_
      -- what is not at the path before is not at the one that is skipped either
      have hother : entry.1.same first.1 = false := by
        rw [← Bool.not_eq_true]
        intro hentry
        have hnot := hnew p hp
        rw [same_trans hentry hsame] at hnot
        cases hnot
      rw [List.find?_cons, hother]
    next hkeep =>
      have hnew : ∀ p ∈ previous, first.1.same p = false := by
        intro p hp
        rw [← Bool.not_eq_true]
        exact fun hsame => hkeep ((Option.any_eq_true _ _).mpr ⟨p, hp, hsame⟩)
      rw [List.mem_cons, ih (some first.1) hrest fun p hp e he => by
        obtain rfl := Option.mem_some_iff.mp hp
        exact hfirst e he]
      by_cases hentry : entry.1.same first.1 = true
      · rw [List.find?_cons, hentry]
        constructor
        · rintro (rfl | ⟨hnot, -⟩)
          · exact ⟨hnew, rfl⟩
          · rw [hnot first.1 rfl] at hentry
            cases hentry
        · rintro ⟨-, hsome⟩
          exact .inl (Option.some_inj.mp hsome).symm
      · rw [List.find?_cons, Bool.eq_false_iff.mpr hentry]
        constructor
        · rintro (rfl | ⟨-, hfind⟩)
          · exact absurd (same_refl _) hentry
          · have hmem : entry ∈ rest := List.mem_of_find?_eq_some hfind
            exact ⟨fun p hp => not_same_of_between (hprev p hp first List.mem_cons_self)
              (hfirst entry hmem) (Bool.eq_false_iff.mpr hentry), hfind⟩
        · rintro ⟨-, hfind⟩
          refine .inr ⟨fun p hp => ?_, hfind⟩
          obtain rfl := Option.mem_some_iff.mp hp
          rw [← Bool.not_eq_true]
          exact hentry

/-- **An entry is kept if it is the first of its path.** -/
theorem mem_firstOfEach : entry ∈ firstOfEach entries ↔
    entries.find? (fun other => entry.1.same other.1) = some entry := by
  rw [firstOfEach, mem_firstsAfter none (pairwise_inOrder entries) (fun _ h => nomatch h),
    find?_inOrder]
  exact and_iff_right fun _ h => nomatch h

/-- **A spelling is kept if it is the first of its path.** -/
theorem mem_firstSpellings {paths : List Path} :
    path ∈ firstSpellings paths ↔ paths.find? path.same = some path := by
  rw [firstSpellings, List.mem_map]
  constructor
  · rintro ⟨entry, hentry, rfl⟩
    have hfind := mem_firstOfEach.mp hentry
    rw [List.find?_map] at hfind
    obtain ⟨found, hfound, rfl⟩ := Option.map_eq_some_iff.mp hfind
    exact hfound
  · intro hfind
    refine ⟨(path, ()), mem_firstOfEach.mpr ?_, rfl⟩
    rw [List.find?_map]
    exact Option.map_eq_some_iff.mpr ⟨path, hfind, rfl⟩

/-! ## The last spellings -/

theorem lasts_sublist (entries : List (Path × α)) : (lasts entries).Sublist entries := by
  induction entries with
  | nil => exact List.Sublist.slnil
  | cons entry rest ih =>
    rw [lasts]
    split
    · exact ih.cons entry
    · exact ih.cons_cons entry

/-- Of every path in the entries one is kept. -/
theorem exists_mem_lasts (h : entry ∈ entries) :
    ∃ kept ∈ lasts entries, entry.1.same kept.1 = true := by
  induction entries generalizing entry with
  | nil => exact absurd h List.not_mem_nil
  | cons first rest ih =>
    rw [lasts]
    split
    next hnext =>
      rcases List.mem_cons.mp h with rfl | h
      -- the one behind is at the same path, and one of its path is kept
      · obtain ⟨next, hmem, hsame⟩ := (Option.any_eq_true _ _).mp hnext
        obtain ⟨kept, hkept, hkeptsame⟩ := ih (List.mem_of_mem_head? hmem)
        exact ⟨kept, hkept, same_trans hsame hkeptsame⟩
      · exact ih h
    next =>
      rcases List.mem_cons.mp h with rfl | h
      · exact ⟨entry, List.mem_cons_self, same_refl entry.1⟩
      · obtain ⟨kept, hkept, hsame⟩ := ih h
        exact ⟨kept, List.mem_cons_of_mem _ hkept, hsame⟩

section LastSpellings

variable {paths paths' : List Path}

theorem mem_of_mem_lastSpellings (h : path ∈ lastSpellings paths) : path ∈ paths := by
  obtain ⟨entry, hentry, rfl⟩ := List.mem_map.mp h
  have hmem := (perm_inOrder _).mem_iff.mp ((lasts_sublist _).subset hentry)
  obtain ⟨other, hother, rfl⟩ := List.mem_map.mp hmem
  exact hother

/-- Every path keeps a spelling. -/
theorem exists_mem_lastSpellings (h : path ∈ paths) :
    ∃ kept ∈ lastSpellings paths, path.same kept = true := by
  have hmem : (path, ()) ∈ inOrder (paths.map fun path => (path, ())) :=
    (perm_inOrder _).mem_iff.mpr (List.mem_map_of_mem h)
  obtain ⟨kept, hkept, hsame⟩ := exists_mem_lasts hmem
  exact ⟨kept.1, List.mem_map_of_mem hkept, hsame⟩

/-- **Paths that are all different are put in order**, and each is kept. -/
theorem lastSpellings_of_perm (h : Increasing paths) (hperm : paths'.Perm paths) :
    lastSpellings paths' = paths := by
  have hpaths : (paths.map fun path => (path, ())).map Prod.fst = paths := by
    rw [List.map_map]
    exact List.map_id paths
  have hincreasing : Increasing ((paths.map fun path => (path, ())).map Prod.fst) := hpaths.symm ▸ h
  have hsorted : inOrder (paths'.map fun path => (path, ())) = paths.map fun path => (path, ()) := by
    rw [← inOrder_of_increasing hincreasing, inOrder_eq, inOrder_eq]
    exact (hincreasing.distinct.mergeSort_eq_of_perm (hperm.symm.map _)).symm
  rw [lastSpellings, lastOfEach, hsorted, lasts_of_increasing hincreasing, hpaths]

end LastSpellings

end Path

end DocCoverage
