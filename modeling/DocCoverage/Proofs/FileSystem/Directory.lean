import DocCoverage.Proofs.FileSystem.Along
import Mathlib.Data.List.DropRight
/-!
# File systems — the directory of a file

The parent of a path is written without the segments at its end that say
nothing. If a path leads to a file, its parent leads to the directory in
which the file stands, however the path is spelled, and what is joined to the
parent is walked from there (`exists_parent_of_walk`).
-/

namespace DocCoverage

namespace Path

variable {path : Path} {front : List String} {last : String}

theorem withoutSilentEnd_concat (h : isSilent last = false) :
    withoutSilentEnd (front ++ [last]) = front ++ [last] :=
  List.rdropWhile_concat_neg isSilent front last (Bool.eq_false_iff.mp h)

/-- What is left out at the end says nothing. -/
theorem exists_silent_end (segments : List String) : ∃ silents,
    segments = withoutSilentEnd segments ++ silents ∧ ∀ s ∈ silents, isSilent s = true :=
  ⟨segments.rtakeWhile isSilent, List.rdropWhile_append_rtakeWhile.symm,
    fun _ => List.mem_rtakeWhile_imp⟩

theorem withoutSilentEnd_prefix (segments : List String) :
    withoutSilentEnd segments <+: segments :=
  List.rdropWhile_prefix isSilent segments

theorem withoutSilentEnd_ne (segments : List String) : withoutSilentEnd segments ≠ [""] := by
  intro hempty
  have hlast := List.rdropWhile_last_not isSilent segments
  rw [show segments.rdropWhile isSilent = [""] from hempty] at hlast
  exact hlast (List.cons_ne_nil _ _) rfl

theorem ofSegment?_of_isSilent {segment : String} (h : isSilent segment = true) :
    Component.ofSegment? segment = none := by
  rw [isSilent, Bool.or_eq_true, beq_iff_eq, beq_iff_eq] at h
  rw [Component.ofSegment?, if_pos h]

theorem lead?_cases (path : Path) :
    (path.lead? = none ∧ path.body = path.segments) ∨
      (path.lead? = some "" ∧ path.segments = "" :: path.body) ∨
        (path.lead? = some "." ∧ path.segments = "." :: path.body) := by
  rw [body, lead?]
  split
  next habs =>
    obtain ⟨rest, hrest⟩ := segments_eq_nil_cons_of_isAbsolute habs
    rw [hrest]
    exact .inr (.inl ⟨rfl, rfl⟩)
  · split
    next hdot =>
      obtain ⟨rest, hrest⟩ := List.head?_eq_some_iff.mp hdot
      rw [hrest]
      exact .inr (.inr ⟨rfl, rfl⟩)
    · exact .inl ⟨rfl, rfl⟩

theorem slash_not_mem_of_mem_body {segment : String} (h : segment ∈ path.body) :
    '/' ∉ segment.toList := by
  refine @slash_not_mem_of_mem_segments path segment ?_
  rcases lead?_cases path with ⟨-, hbody⟩ | ⟨-, hbody⟩ | ⟨-, hbody⟩
  · rwa [← hbody]
  · rw [hbody]
    exact List.mem_cons_of_mem _ h
  · rw [hbody]
    exact List.mem_cons_of_mem _ h

/-- The parent of a path behind a lead, by the segments that say
something. -/
def parentBelow (lead : Option String) (named : List String) : Path :=
  match lead, named with
  | some "", [] => ⟨"/"⟩
  | some lead, named => ofSegments (lead :: named)
  | none, named => ofSegments named

/-- The parent of a path that ends with a segment that says something. -/
theorem parent?_eq (hbody : path.body = front ++ [last]) (hlast : isSilent last = false) :
    path.parent? = some (parentBelow path.lead? (withoutSilentEnd front)) := by
  obtain ⟨first, rest, hcons⟩ := List.exists_cons_of_ne_nil (show front ++ [last] ≠ [] by simp)
  have hfront : front = (first :: rest).dropLast := by rw [← hcons, List.dropLast_concat]
  unfold parent?
  rw [hbody, withoutSilentEnd_concat hlast, hcons, hfront]
  dsimp only
  rcases lead?_cases path with ⟨hlead, -⟩ | ⟨hlead, -⟩ | ⟨hlead, -⟩
  · rw [hlead]
    cases withoutSilentEnd (first :: rest).dropLast <;> rfl
  · rw [hlead]
    cases withoutSilentEnd (first :: rest).dropLast <;> rfl
  · rw [hlead]
    cases withoutSilentEnd (first :: rest).dropLast <;> rfl

end Path

namespace FileSystem

open DocCoverage.Path (Component isSilent withoutSilentEnd parentBelow ofSegments)

variable {fs : FileSystem} {base place : Location} {path next : Path} {front : List String}
  {last : String} {segments : List String}

/-! ## The way to a file -/

theorem entry?_of_contentAt? (h : (fs.contentAt? place).isSome) :
    fs.entry? place ≠ some .directory := by
  intro hdir
  rw [contentAt?, hdir] at h
  cases h

/-- What is directly above something is a directory. -/
theorem entry?_dropLast (h : fs.entry? base = some .directory) :
    fs.entry? base.dropLast = some .directory := by
  rcases List.eq_nil_or_concat base with rfl | ⟨above, name, rfl⟩
  · exact h
  · rw [List.concat_eq_append, List.dropLast_concat]
    by_contra hnot
    rw [List.concat_eq_append, entry?_append_of_ne_directory (by simp) hnot] at h
    cases h

theorem entry?_of_walk_ok (hwalk : fs.walk base segments = .ok place) (hne : segments ≠ []) :
    fs.entry? base = some .directory := by
  obtain ⟨first, rest, rfl⟩ := List.exists_cons_of_ne_nil hne
  obtain ⟨next, hstep, -⟩ := walk_cons_eq_ok_iff.mp hwalk
  exact (step_eq_ok_iff.mp hstep).1

/-- **The last step to a file** is one to its name, from its directory. -/
theorem walk_concat_file (hwalk : fs.walk base (front ++ [last]) = .ok place)
    (hfile : (fs.contentAt? place).isSome) :
    isSilent last = false ∧ fs.walk base front = .ok place.dropLast := by
  rw [walk_append] at hwalk
  cases hfront : fs.walk base front with
  | error fault =>
    rw [hfront] at hwalk
    cases hwalk
  | ok above =>
    rw [hfront] at hwalk
    obtain ⟨next, hstep, hend⟩ := walk_cons_eq_ok_iff.mp hwalk
    obtain rfl := Except.ok.inj hend
    obtain ⟨hdir, hto⟩ := step_eq_ok_iff.mp hstep
    have hnot := entry?_of_contentAt? hfile
    -- every other step leads to a directory
    split at hto
    next hsilent =>
      rw [hto] at hnot
      exact absurd hdir hnot
    next hsilent =>
      split at hto
      next hup =>
        rw [hto] at hnot
        exact absurd (entry?_dropLast hdir) hnot
      next hup =>
        rw [not_or] at hsilent
        rw [hto.2.2, List.dropLast_concat]
        exact ⟨by simp [isSilent, hsilent.1, hsilent.2], rfl⟩

/-- Segments that say nothing can be left out at the end. -/
theorem walk_of_append_silent {named silents : List String}
    (hsilents : ∀ s ∈ silents, isSilent s = true)
    (hwalk : fs.walk base (named ++ silents) = .ok place) : fs.walk base named = .ok place := by
  rw [walk_append] at hwalk
  cases hnamed : fs.walk base named with
  | error fault =>
    rw [hnamed] at hwalk
    cases hwalk
  | ok before =>
    rw [hnamed] at hwalk
    have hsteps : silents.filterMap Component.ofSegment? = [] :=
      List.filterMap_eq_nil_iff.mpr fun s hs => Path.ofSegment?_of_isSilent (hsilents s hs)
    rw [walk_eq_along hwalk, hsteps]
    rfl

theorem walk_withoutSilentEnd (hwalk : fs.walk base segments = .ok place) :
    fs.walk base (withoutSilentEnd segments) = .ok place := by
  obtain ⟨silents, hsegments, hsilents⟩ := Path.exists_silent_end segments
  rw [hsegments] at hwalk
  exact walk_of_append_silent hsilents hwalk

/-- A lead leads nowhere. -/
theorem walk_silent_cons {lead : String} (hlead : isSilent lead = true)
    (hdir : fs.entry? base = some .directory) (segments : List String) :
    fs.walk base (lead :: segments) = fs.walk base segments := by
  have hstep : fs.step base lead = .ok base := by
    rw [isSilent, Bool.or_eq_true, beq_iff_eq, beq_iff_eq] at hlead
    exact step_eq_ok_iff.mpr ⟨hdir, by rw [if_pos hlead]⟩
  rw [walk, hstep]

/-! ## The parent of a file -/

/-- What is joined to a path made of segments is walked behind them. -/
theorem walk_join_ofSegments (hne : segments ≠ []) (hempty : segments ≠ [""])
    (hslash : ∀ s ∈ segments, '/' ∉ s.toList) (hnext : next.isAbsolute = false)
    (hhead : segments.head? = path.segments.head?) (htext : path.text ≠ "")
    (hwalk : fs.walk base segments = .ok place) :
    ((ofSegments segments).join next).isAbsolute = path.isAbsolute ∧
      fs.walk base ((ofSegments segments).join next).segments = fs.walk place next.segments := by
  have hsegments := Path.segments_ofSegments hne hslash
  have htext' : (ofSegments segments).text ≠ "" :=
    Path.text_ne_of_segments_ne (by rwa [hsegments])
  refine ⟨?_, walk_join htext' hnext (by rwa [hsegments])⟩
  rw [Path.isAbsolute_join htext' hnext, Bool.eq_iff_iff, Path.isAbsolute_iff_head? htext',
    Path.isAbsolute_iff_head? htext, hsegments, hhead]

/-- The body of a path to a file ends with the name of the file, and what is
in front of it leads to its directory. -/
theorem exists_front_of_walk (hwalk : fs.walk base path.segments = .ok place)
    (hfile : (fs.contentAt? place).isSome) : ∃ front last, path.body = front ++ [last] ∧
      isSilent last = false ∧ fs.walk base front = .ok place.dropLast := by
  have hdir := entry?_of_walk_ok hwalk path.segments_ne_nil
  have hbody : fs.walk base path.body = .ok place := by
    rcases Path.lead?_cases path with ⟨-, hbody⟩ | ⟨-, hbody⟩ | ⟨-, hbody⟩
    · rwa [hbody]
    · rwa [hbody, walk_silent_cons rfl hdir] at hwalk
    · rwa [hbody, walk_silent_cons rfl hdir] at hwalk
  obtain hnil | ⟨front, last, hconcat⟩ := List.eq_nil_or_concat path.body
  · rw [hnil] at hbody
    rw [← Except.ok.inj hbody] at hfile
    exact absurd hdir (entry?_of_contentAt? hfile)
  · rw [List.concat_eq_append] at hconcat
    rw [hconcat] at hbody
    obtain ⟨hlast, hfront⟩ := walk_concat_file hbody hfile
    exact ⟨front, last, hconcat, hlast, hfront⟩

/-- What is joined to the parent below a lead is walked from where the names
lead. -/
theorem walk_join_parentBelow {named : List String} (htext : path.text ≠ "")
    (hslash : ∀ s ∈ named, '/' ∉ s.toList) (hempty : named ≠ [""])
    (hhead : path.lead? = none → named ≠ [] → named.head? = path.segments.head?)
    (hdir : fs.entry? base = some .directory) (hwalk : fs.walk base named = .ok place)
    (hnext : next.isAbsolute = false) :
    ((parentBelow path.lead? named).join next).isAbsolute = path.isAbsolute ∧
      fs.walk base ((parentBelow path.lead? named).join next).segments =
        fs.walk place next.segments := by
  rcases Path.lead?_cases path with ⟨hlead, hbody⟩ | ⟨hlead, hbody⟩ | ⟨hlead, hbody⟩
  · rw [hlead]
    cases named with
    | nil =>
      -- of a bare name there is nothing in front
      have hrel : path.isAbsolute = false := by
        rw [Bool.eq_false_iff, ne_eq, Path.isAbsolute_iff_head? htext]
        intro hempty
        rw [Path.lead?, if_pos ((Path.isAbsolute_iff_head? htext).mpr hempty)] at hlead
        cases hlead
      have hjoin : (parentBelow none []).join next = next := by
        rw [Path.join, hnext, if_neg Bool.false_ne_true]
        exact congrArg Path.mk (String.empty_append ..)
      obtain rfl := Except.ok.inj hwalk
      rw [hjoin, hnext, hrel]
      exact ⟨rfl, rfl⟩
    | cons first rest =>
      exact walk_join_ofSegments (List.cons_ne_nil _ _) hempty hslash hnext
        (hhead hlead (List.cons_ne_nil _ _)) htext hwalk
  · rw [hlead]
    cases named with
    | nil =>
      obtain rfl := Except.ok.inj hwalk
      have habs : path.isAbsolute = true :=
        (Path.isAbsolute_iff_head? htext).mpr (by rw [hbody, List.head?_cons])
      have hroot : fs.walk base (Path.segments ⟨"/"⟩) = .ok base := by
        change fs.walk base ["", ""] = .ok base
        rw [walk_silent_cons rfl hdir, walk_silent_cons rfl hdir, walk]
      change ((⟨"/"⟩ : Path).join next).isAbsolute = _ ∧ _
      rw [Path.isAbsolute_join (by decide) hnext, habs]
      exact ⟨rfl, walk_join (by decide) hnext hroot⟩
    | cons first rest =>
      refine walk_join_ofSegments (List.cons_ne_nil _ _) (by simp) ?_ hnext ?_ htext ?_
      · exact List.forall_mem_cons.mpr ⟨by decide, hslash⟩
      · rw [hbody]
        rfl
      · rwa [walk_silent_cons rfl hdir]
  · rw [hlead]
    refine walk_join_ofSegments (List.cons_ne_nil _ _) (by simp) ?_ hnext ?_ htext ?_
    · exact List.forall_mem_cons.mpr ⟨by decide, hslash⟩
    · rw [hbody]
      rfl
    · rwa [walk_silent_cons rfl hdir]

/-- **The parent of a file is its directory.** What is joined to the parent is
walked from there. -/
theorem exists_parent_of_walk (hwalk : fs.walk base path.segments = .ok place)
    (hfile : (fs.contentAt? place).isSome) :
    ∃ parent, path.parent? = some parent ∧ ∀ next : Path, next.isAbsolute = false →
      (parent.join next).isAbsolute = path.isAbsolute ∧
        fs.walk base (parent.join next).segments = fs.walk place.dropLast next.segments := by
  obtain ⟨front, last, hbody, hlast, hfront⟩ := exists_front_of_walk hwalk hfile
  have hfronts := Path.withoutSilentEnd_prefix front
  have htext : path.text ≠ "" := by
    refine Path.text_ne_of_segments_ne fun hempty => ?_
    rw [hempty] at hwalk
    have hsaid := (@walk_concat_file fs base place [] "" hwalk hfile).1
    cases hsaid
  refine ⟨_, Path.parent?_eq hbody hlast, fun next hnext => ?_⟩
  refine walk_join_parentBelow htext (fun s hs => ?_) (Path.withoutSilentEnd_ne front) ?_
    (entry?_of_walk_ok hwalk path.segments_ne_nil) (walk_withoutSilentEnd hfront) hnext
  · exact Path.slash_not_mem_of_mem_body (by rw [hbody]; simp [hfronts.mem hs])
  · intro hlead hne
    have hall : withoutSilentEnd front <+: path.segments := by
      rcases Path.lead?_cases path with ⟨-, hsegments⟩ | ⟨hother, -⟩ | ⟨hother, -⟩
      · rw [← hsegments, hbody]
        exact hfronts.trans (List.prefix_append _ _)
      · rw [hlead] at hother
        cases hother
      · rw [hlead] at hother
        cases hother
    obtain ⟨behind, hbehind⟩ := hall
    rw [← hbehind, List.head?_append_of_ne_nil _ hne]

/-- **What is read beside a file** is what stands in its directory. -/
theorem exists_parent_of_resolve (hres : fs.resolve path = .ok place)
    (hfile : (fs.contentAt? place).isSome) :
    ∃ parent, path.parent? = some parent ∧ ∀ next : Path, next.isAbsolute = false →
      fs.content? (parent.join next) =
        unlessFault (parent.join next) (fs.contentFrom? place.dropLast next.segments) := by
  obtain ⟨-, hplace⟩ := resolve_eq_ok_iff.mp hres
  obtain ⟨parent, hparent, hbelow⟩ := exists_parent_of_walk hplace hfile
  refine ⟨parent, hparent, fun next hnext => ?_⟩
  obtain ⟨habsolute, hwalk⟩ := hbelow next hnext
  rw [content?_eq, start, habsolute, ← start, contentFrom?, hwalk, ← contentFrom?]

end FileSystem

end DocCoverage
