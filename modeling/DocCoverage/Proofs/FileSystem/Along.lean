import DocCoverage.Proofs.FileSystem.Walking
/-!
# File systems — alike along the way of a path

Two file systems are alike along some steps, each from a location of its own,
if the same kinds of things stand on the way. A walk that takes these steps
leads to their end in one of the two if it does so in the other
(`walk_of_alikeAlong`). Nothing else in the file systems matters to it, and
neither does what the locations are called.
-/

namespace DocCoverage

namespace FileSystem

open DocCoverage.Path (Component)

variable {fs fs' : FileSystem} {base base' location place place' : Location} {path root next : Path}
  {segment : String} {segments way : List String} {steps front : List Component}

/-- From two locations, the same kinds of things stand along the steps. -/
def AlikeAlong (fs fs' : FileSystem) (base base' : Location) (steps : List Component) : Prop :=
  ∀ front, front <+: steps → (fs.entry? (along base front)).map Entry.isFile =
    (fs'.entry? (along base' front)).map Entry.isFile

namespace AlikeAlong

theorem symm (h : AlikeAlong fs fs' base base' steps) : AlikeAlong fs' fs base' base steps :=
  fun front hfront => (h front hfront).symm

theorem of_prefix (h : AlikeAlong fs fs' base base' steps) (hfront : front <+: steps) :
    AlikeAlong fs fs' base base' front :=
  fun before hbefore => h before (hbefore.trans hfront)

section End

variable (h : AlikeAlong fs fs' base base' steps)
include h

theorem directory_iff : fs.entry? (along base steps) = some .directory ↔
    fs'.entry? (along base' steps) = some .directory := by
  rw [← map_isFile_eq_some_false, ← map_isFile_eq_some_false, h steps List.prefix_rfl]

theorem isSome_eq : (fs.entry? (along base steps)).isSome =
    (fs'.entry? (along base' steps)).isSome := by
  have hkind := congrArg Option.isSome (h steps List.prefix_rfl)
  rwa [Option.isSome_map, Option.isSome_map] at hkind

theorem isSome_contentAt? : (fs.contentAt? (along base steps)).isSome =
    (fs'.contentAt? (along base' steps)).isSome := by
  rw [Bool.eq_iff_iff, isSome_contentAt?_iff, isSome_contentAt?_iff, h steps List.prefix_rfl]

end End

end AlikeAlong

/-! ## Walks in both -/

theorem along_concat_name (location : Location) (front : List Component) (name : String) :
    along location (front ++ [.name name]) = along location front ++ [name] := by
  rw [along_append]
  rfl

/-- A step along the way can be taken in both. -/
theorem step_of_alikeAlong
    (h : AlikeAlong fs fs' base base' (front ++ (Component.ofSegment? segment).toList))
    (hstep : fs.step (along base front) segment = .ok place) :
    fs'.step (along base' front) segment =
      .ok (along base' (front ++ (Component.ofSegment? segment).toList)) := by
  have hfront := h.of_prefix (List.prefix_append front _)
  obtain ⟨hdir, hto⟩ := step_eq_ok_iff.mp hstep
  refine step_eq_ok_iff.mpr ⟨hfront.directory_iff.mp hdir, ?_⟩
  unfold Component.ofSegment? at h ⊢
  split
  next hsilent => rw [Option.toList_none, List.append_nil]
  next hsilent =>
    rw [if_neg hsilent] at hto h
    split
    next hup =>
      rw [Option.toList_some, along_append]
      rfl
    next hup =>
      rw [if_neg hup] at hto h
      rw [Option.toList_some, along_concat_name]
      -- only a step to a name looks at its target, which is on the way
      have hsome := h.isSome_eq
      rw [Option.toList_some, along_concat_name, along_concat_name] at hsome
      exact ⟨hto.1, by rw [← hsome]; exact hto.2.1, rfl⟩

theorem walk_of_alikeAlong_append
    (h : AlikeAlong fs fs' base base' (front ++ segments.filterMap Component.ofSegment?))
    (hwalk : fs.walk (along base front) segments = .ok place) :
    fs'.walk (along base' front) segments =
      .ok (along base' (front ++ segments.filterMap Component.ofSegment?)) := by
  induction segments generalizing front with
  | nil =>
    rw [List.filterMap_nil, List.append_nil]
    rfl
  | cons segment rest ih =>
    obtain ⟨next, hstep, hrest⟩ := walk_cons_eq_ok_iff.mp hwalk
    rw [Path.filterMap_ofSegment?_cons, ← List.append_assoc] at h ⊢
    rw [step_eq_along hstep, ← along_append] at hrest
    exact walk_cons_eq_ok_iff.mpr
      ⟨_, step_of_alikeAlong (h.of_prefix (List.prefix_append _ _)) hstep, ih h hrest⟩

/-- **What can be walked in one of two file systems that are alike along the
way can be walked in the other.** -/
theorem walk_of_alikeAlong
    (h : AlikeAlong fs fs' base base' (segments.filterMap Component.ofSegment?))
    (hwalk : fs.walk base segments = .ok place) :
    fs'.walk base' segments = .ok (along base' (segments.filterMap Component.ofSegment?)) :=
  @walk_of_alikeAlong_append fs fs' base base' place segments [] h hwalk

/-- A walk goes through directories. -/
theorem entry?_of_walk (hwalk : fs.walk base segments = .ok place)
    (hfront : front <+: segments.filterMap Component.ofSegment?)
    (hne : front ≠ segments.filterMap Component.ofSegment?) :
    fs.entry? (along base front) = some .directory := by
  induction segments generalizing base front with
  | nil => exact absurd (List.prefix_nil.mp hfront) hne
  | cons segment rest ih =>
    obtain ⟨next, hstep, hrest⟩ := walk_cons_eq_ok_iff.mp hwalk
    rw [Path.filterMap_ofSegment?_cons] at hfront hne
    have hnext := step_eq_along hstep
    cases hsegment : Component.ofSegment? segment with
    | none =>
      rw [hsegment] at hfront hne hnext
      obtain rfl : next = base := hnext
      exact ih hrest hfront hne
    | some component =>
      rw [hsegment] at hfront hne hnext
      cases front with
      | nil => exact (step_eq_ok_iff.mp hstep).1
      | cons first front =>
        rw [Option.toList_some, List.singleton_append] at hfront hne
        obtain ⟨rfl, hbehind⟩ := List.cons_prefix_cons.mp hfront
        have hplace : along base (first :: front) = along next front := by
          rw [hnext]
          rfl
        rw [hplace]
        exact ih hrest hbehind fun heq => hne (by rw [heq])

/-- Walks that end at things of the same kind are alike on the way. -/
theorem alikeAlong_of_walk (hwalk : fs.walk base segments = .ok place)
    (hwalk' : fs'.walk base' segments = .ok place')
    (hkind : (fs.entry? place).map Entry.isFile = (fs'.entry? place').map Entry.isFile) :
    AlikeAlong fs fs' base base' (segments.filterMap Component.ofSegment?) := by
  intro front hfront
  by_cases hend : front = segments.filterMap Component.ofSegment?
  · rw [hend, ← walk_eq_along hwalk, ← walk_eq_along hwalk', hkind]
  · rw [entry?_of_walk hwalk hfront hend, entry?_of_walk hwalk' hfront hend]

/-! ## Paths below a root -/

/-- The segments of a joined path are walked one path after the other. A
slash between them leads nowhere else. -/
theorem walk_join (htext : path.text ≠ "") (hnext : next.isAbsolute = false)
    (hwalk : fs.walk base path.segments = .ok place) :
    fs.walk base (path.join next).segments = fs.walk place next.segments := by
  obtain ⟨front, hfront, hjoin⟩ := Path.segments_join htext hnext
  have hplace : fs.walk base front = .ok place := by
    rcases hfront with rfl | hfront
    · exact hwalk
    · rw [hfront, walk_append] at hwalk
      cases hbefore : fs.walk base front with
      | ok before =>
        rw [hbefore] at hwalk
        rw [walk_eq_along hwalk]
        rfl
      | error fault =>
        rw [hbefore] at hwalk
        cases hwalk
  rw [hjoin, walk_append, hplace]

/-- **A relative path below a root** is walked from where the root leads. -/
theorem walk_start_join (hroot : fs.resolve root = .ok base) (hnext : next.isAbsolute = false) :
    fs.walk (fs.start (root.join next)) (root.join next).segments =
      fs.walk base next.segments := by
  have htext := text_ne_of_resolve hroot
  obtain ⟨-, hwalk⟩ := resolve_eq_ok_iff.mp hroot
  have hjoined := walk_join htext hnext hwalk
  rw [start, Path.isAbsolute_join htext hnext, ← start, hjoined]

/-! ## Contents -/

/-- The content of the file to which segments lead. -/
def contentFrom? (fs : FileSystem) (location : Location) (segments : List String) :
    Option Content :=
  match fs.walk location segments with
  | .ok place => fs.contentAt? place
  | .error _ => none

theorem contentFrom?_eq_some_iff {content : Content} :
    fs.contentFrom? location segments = some content ↔
      ∃ place, fs.walk location segments = .ok place ∧ fs.contentAt? place = some content := by
  rw [contentFrom?]
  cases fs.walk location segments with
  | ok place => simp
  | error fault => simp

theorem isFile_eq (path : Path) : fs.isFile path = (fs.content? path).isSome := by
  rw [isFile, content?]
  cases fs.lookUp? path with
  | none => rfl
  | some entry => cases entry <;> rfl

/-- What is read at a path that should lead to a content: nothing, if it can
be no path. -/
def unlessFault (path : Path) (content : Option Content) : Option Content :=
  if pathFault? path = none then content else none

theorem unlessFault_congr {path path' : Path} (h : pathFault? path = pathFault? path')
    (content : Option Content) : unlessFault path content = unlessFault path' content := by
  rw [unlessFault, unlessFault, h]

theorem content?_eq (path : Path) : fs.content? path =
    unlessFault path (fs.contentFrom? (fs.start path) path.segments) := by
  rw [content?, lookUp?, resolve, unlessFault, contentFrom?]
  cases pathFault? path with
  | some fault => rfl
  | none => cases fs.walk (fs.start path) path.segments <;> rfl

theorem content?_join (hroot : fs.resolve root = .ok base) (hnext : next.isAbsolute = false) :
    fs.content? (root.join next) =
      unlessFault (root.join next) (fs.contentFrom? base next.segments) := by
  rw [content?_eq, contentFrom?, walk_start_join hroot hnext, ← contentFrom?]

/-- **Where the same content stands at the end of the way, it is read in
both.** -/
theorem contentFrom?_of_alikeAlong
    (h : AlikeAlong fs fs' base base' (segments.filterMap Component.ofSegment?))
    (hcontent : fs.contentAt? (along base (segments.filterMap Component.ofSegment?)) =
      fs'.contentAt? (along base' (segments.filterMap Component.ofSegment?))) :
    fs.contentFrom? base segments = fs'.contentFrom? base' segments := by
  rw [contentFrom?, contentFrom?]
  cases hwalk : fs.walk base segments with
  | ok place =>
    rw [walk_of_alikeAlong h hwalk, walk_eq_along hwalk]
    exact hcontent
  | error fault =>
    cases hwalk' : fs'.walk base' segments with
    | ok place' =>
      rw [walk_of_alikeAlong h.symm hwalk'] at hwalk
      cases hwalk
    | error fault' => rfl

/-! ## All but one place -/

/-- Everywhere but at one place, two file systems hold the same. -/
structure SameElsewhere (fs fs' : FileSystem) (place : Location) : Prop where
  workingDirectory : fs.workingDirectory = fs'.workingDirectory
  entry : ∀ location, location ≠ place → fs.entry? location = fs'.entry? location

namespace SameElsewhere

theorem symm (h : SameElsewhere fs fs' place) : SameElsewhere fs' fs place where
  workingDirectory := h.workingDirectory.symm
  entry location hne := (h.entry location hne).symm

variable (h : SameElsewhere fs fs' place)
include h

/-- On a way that does not come to the place, the same things stand. -/
theorem alikeAlong (haway : ∀ front, front <+: steps → along base front ≠ place) :
    AlikeAlong fs fs' base base steps :=
  fun front hfront => congrArg _ (h.entry _ (haway front hfront))

/-- **What is read on a way that does not come to the place** is the same. -/
theorem contentFrom?_eq
    (haway : ∀ front, front <+: segments.filterMap Component.ofSegment? →
      along base front ≠ place) :
    fs.contentFrom? base segments = fs'.contentFrom? base segments := by
  refine contentFrom?_of_alikeAlong (h.alikeAlong haway) ?_
  rw [contentAt?, contentAt?, h.entry _ (haway _ List.prefix_rfl)]

end SameElsewhere

end FileSystem

end DocCoverage
