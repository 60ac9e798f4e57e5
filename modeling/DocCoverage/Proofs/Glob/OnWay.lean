import DocCoverage.Proofs.FileSystem.Along
import DocCoverage.Proofs.Glob.Trails
/-!
# Globs — trails that stay on a way

Of the trails of an expansion, those stay on a way whose steps are among its
first ones. In two file systems that are alike along the way, each from a
directory of its own, an expansion has the same trails on the way, in the
same order (`onWay_expand`): a trail that has left the way never comes back
to it, and whether a step can be taken along the way is the same in both.
-/

namespace DocCoverage

open FileSystem (AlikeAlong along)
open DocCoverage.Path (Component)

/-! ## Lists -/

namespace Glob

variable {α β : Type}

/-- Items of which nothing is made need not be there. -/
theorem flatMap_filter_of_nil {p : α → Bool} {items : List α} {make : α → List β}
    (h : ∀ a ∈ items, p a = false → make a = []) :
    (items.filter p).flatMap make = items.flatMap make := by
  induction items with
  | nil => rfl
  | cons a rest ih =>
    obtain ⟨ha, hrest⟩ := List.forall_mem_cons.mp h
    rw [List.filter_cons, List.flatMap_cons, ← ih hrest]
    split
    · rw [List.flatMap_cons]
    next hpa => rw [ha (Bool.eq_false_iff.mpr hpa), List.nil_append]

/-- Repetitions can be left out before or after a selection. -/
theorem eraseDups_filter [BEq α] [LawfulBEq α] (p : α → Bool) :
    ∀ items : List α, (items.filter p).eraseDups = items.eraseDups.filter p
  | [] => rfl
  | a :: rest => by
    -- the recursion is on the list without repetitions of its first item
    have hshort : (rest.filter fun b => !b == a).length < rest.length + 1 :=
      Nat.lt_succ_of_le (List.length_filter_le _ _)
    have ih := eraseDups_filter p (rest.filter fun b => !b == a)
    rw [List.eraseDups_cons, List.filter_cons, List.filter_cons]
    split
    · rw [List.eraseDups_cons, ← ih, List.filter_comm]
    next hpa =>
      rw [← ih, List.filter_filter]
      refine congrArg _ (List.filter_congr fun b _ => ?_)
      by_cases hb : b = a
      · rw [hb, Bool.eq_false_iff.mpr hpa, Bool.false_and]
      · rw [beq_eq_false_iff_ne.mpr hb, Bool.not_false, Bool.and_true]
termination_by items => items.length

/-- Repetitions can be left out before or after items are told by something
that tells them apart. -/
theorem eraseDups_map [BEq α] [LawfulBEq α] [BEq β] [LawfulBEq β] (f : α → β) :
    ∀ items : List α, (∀ a ∈ items, ∀ b ∈ items, f a = f b → a = b) →
      (items.map f).eraseDups = items.eraseDups.map f
  | [], _ => rfl
  | a :: rest, h => by
    have hshort : (rest.filter fun b => !b == a).length < rest.length + 1 :=
      Nat.lt_succ_of_le (List.length_filter_le _ _)
    have hrest : ∀ b ∈ rest, (!f b == f a) = !b == a := by
      intro b hb
      refine congrArg _ (Bool.eq_iff_iff.mpr ?_)
      rw [beq_iff_eq, beq_iff_eq]
      exact ⟨h b (List.mem_cons_of_mem _ hb) a List.mem_cons_self, congrArg f⟩
    have ih := eraseDups_map f (rest.filter fun b => !b == a) fun b hb c hc =>
      h b (List.mem_cons_of_mem _ (List.mem_filter.mp hb).1) c
        (List.mem_cons_of_mem _ (List.mem_filter.mp hc).1)
    rw [List.map_cons, List.eraseDups_cons, List.eraseDups_cons, List.map_cons, ← ih,
      List.filter_map]
    exact congrArg (f a :: ·) (congrArg (fun rest => (rest.map f).eraseDups)
      (List.filter_congr hrest))
termination_by items => items.length

end Glob

/-! ## Trails on the way -/

variable {fs fs' : FileSystem} {base base' : Location} {way : List Component} {r : Reached}
  {rs rs' : List Reached} {go go' : Reached → List Reached} {trail segments : List String}
  {segment : String}

namespace Reached

/-- What is reached on a trail. -/
def onTrail (start : Location) (trail : List String) : Reached :=
  ⟨along start (trail.filterMap Component.ofSegment?), trail⟩

/-- Whether a trail stays on the way. -/
def isOn (way : List Component) (trail : List String) : Bool :=
  (trail.filterMap Component.ofSegment?).isPrefixOf way

/-- The trails that stay on the way. -/
def onWay (way : List Component) (rs : List Reached) : List (List String) :=
  (rs.map (·.trail)).filter (isOn way)

theorem isOn_iff : isOn way trail = true ↔ trail.filterMap Component.ofSegment? <+: way :=
  List.isPrefixOf_iff_prefix

/-- What stays on the way was on it before. -/
theorem isOn_of_append (h : isOn way (trail ++ segments) = true) : isOn way trail = true := by
  rw [isOn_iff, List.filterMap_append] at h
  exact isOn_iff.mpr ((List.prefix_append _ _).trans h)

theorem Sound.eq_onTrail (h : r.Sound fs base) : r = onTrail base r.trail := by
  obtain ⟨place, trail⟩ := r
  rw [onTrail, Reached.mk.injEq]
  exact ⟨h.place, rfl⟩

theorem onWay_flatMap {α : Type} (items : List α) (go : α → List Reached) :
    onWay way (items.flatMap go) = items.flatMap fun a => onWay way (go a) := by
  rw [onWay, List.map_flatMap, List.filter_flatMap]
  rfl

/-- A step that goes on along trails reaches the way from the trails on the
way alone. -/
theorem onWay_flatMap_of_sound (hsound : ∀ r ∈ rs, r.Sound fs base)
    (hgo : ∀ r, ∀ below ∈ go r, ∃ more, below.trail = r.trail ++ more) :
    onWay way (rs.flatMap go) =
      (onWay way rs).flatMap fun trail => onWay way (go (onTrail base trail)) := by
  have hnil : ∀ r ∈ rs, isOn way r.trail = false → onWay way (go r) = [] := by
    intro r _ hoff
    rw [onWay, List.filter_eq_nil_iff, List.forall_mem_map]
    intro below hbelow hon
    obtain ⟨more, hmore⟩ := hgo r below hbelow
    rw [hmore] at hon
    rw [isOn_of_append hon] at hoff
    cases hoff
  rw [onWay_flatMap, ← Glob.flatMap_filter_of_nil hnil, onWay, List.filter_map, List.flatMap_map]
  refine List.flatMap_congr fun r hr => ?_
  rw [← (hsound r (List.mem_filter.mp hr).1).eq_onTrail]

/-- The trails tell apart what was reached on them. -/
theorem onWay_eraseDups (hsound : ∀ r ∈ rs, r.Sound fs base) :
    onWay way rs.eraseDups = (onWay way rs).eraseDups := by
  have htell : ∀ a ∈ rs, ∀ b ∈ rs, a.trail = b.trail → a = b := by
    intro a ha b hb htrail
    rw [(hsound a ha).eq_onTrail, (hsound b hb).eq_onTrail, htrail]
  rw [onWay, onWay, Glob.eraseDups_filter, Glob.eraseDups_map _ _ htell]

/-- Steps that reach the same trails on the way from each trail on the way do
so from all of them. -/
theorem onWay_flatMap_congr (hsound : ∀ r ∈ rs, r.Sound fs base)
    (hsound' : ∀ r ∈ rs', r.Sound fs' base')
    (hrs : onWay way rs = onWay way rs')
    (hgo : ∀ r, ∀ below ∈ go r, ∃ more, below.trail = r.trail ++ more)
    (hgo' : ∀ r, ∀ below ∈ go' r, ∃ more, below.trail = r.trail ++ more)
    (heq : ∀ trail, isOn way trail = true →
      onWay way (go (onTrail base trail)) = onWay way (go' (onTrail base' trail))) :
    onWay way (rs.flatMap go) = onWay way (rs'.flatMap go') := by
  rw [onWay_flatMap_of_sound hsound hgo, onWay_flatMap_of_sound hsound' hgo', hrs]
  exact List.flatMap_congr fun trail htrail => heq trail (List.mem_filter.mp htrail).2

end Reached

open Reached (onWay onTrail isOn isOn_iff)

/-! ## Steps -/

namespace GlobSegment

theorem trail_of_mem_follow {below : Reached} (h : below ∈ follow fs r segment) :
    below.trail = r.trail ++ [segment] := by
  obtain ⟨place, -, rfl⟩ := mem_follow h
  rfl

/-- A written step stays on the way, or it does not count. -/
theorem onWay_follow_of_not (h : isOn way (r.trail ++ [segment]) = false) :
    onWay way (follow fs r segment) = [] := by
  rw [onWay, List.filter_eq_nil_iff, List.forall_mem_map]
  intro below hbelow
  rw [trail_of_mem_follow hbelow, h]
  exact Bool.false_ne_true

variable (h : AlikeAlong fs fs' base base' way)
include h

theorem alikeAlong_of_isOn (hon : isOn way trail = true) :
    AlikeAlong fs fs' base base' (trail.filterMap Component.ofSegment?) :=
  h.of_prefix (isOn_iff.mp hon)

/-- A step along the way that can be taken in one can be taken in the
other. -/
theorem follow_of_alikeAlong (hon : isOn way (trail ++ [segment]) = true) {place : Location}
    (hstep : fs.step (onTrail base trail).place segment = .ok place) :
    onWay way (follow fs' (onTrail base' trail) segment) = [trail ++ [segment]] := by
  have hway := alikeAlong_of_isOn h hon
  rw [List.filterMap_append, Path.filterMap_ofSegment?_cons, List.filterMap_nil,
    List.append_nil] at hway
  have hstep' : fs'.step (onTrail base' trail).place segment = _ :=
    FileSystem.step_of_alikeAlong hway hstep
  rw [follow, hstep']
  exact List.filter_eq_self.mpr (List.forall_mem_singleton.mpr hon)

/-- A written step reaches the same trail on the way in both. -/
theorem onWay_follow (trail : List String) (segment : String) :
    onWay way (follow fs (onTrail base trail) segment) =
      onWay way (follow fs' (onTrail base' trail) segment) := by
  cases hon : isOn way (trail ++ [segment]) with
  | false => rw [onWay_follow_of_not hon, onWay_follow_of_not hon]
  | true =>
    cases hstep : fs.step (onTrail base trail).place segment with
    | ok place =>
      have hself : AlikeAlong fs fs base base way := fun _ _ => rfl
      rw [follow_of_alikeAlong h hon hstep, follow_of_alikeAlong hself hon hstep]
    | error fault =>
      cases hstep' : fs'.step (onTrail base' trail).place segment with
      | ok place =>
        -- what can be taken in the other can be taken here
        have hnot := follow_of_alikeAlong h.symm hon hstep'
        rw [follow, hstep] at hnot
        cases hnot
      | error fault' => rw [follow, follow, hstep, hstep']

end GlobSegment

/-! ## What is listed on the way -/

namespace Reached

theorem isName_below {location down : Location} (hdown : (fs.entry? (location ++ down)).isSome) :
    ∀ name ∈ down, Listing.isName name = true :=
  fun name hname => FileSystem.isName_of_entry? hdown name (List.mem_append_right _ hname)

/-- Names lead down from where a trail ends. -/
theorem place_onTrail_append {down : Location} (hnames : ∀ name ∈ down, Listing.isName name = true)
    (base : Location) (trail : List String) :
    (onTrail base (trail ++ down)).place = (onTrail base trail).place ++ down := by
  rw [onTrail, onTrail, List.filterMap_append, FileSystem.along_append,
    FileSystem.along_names hnames]

variable (h : AlikeAlong fs fs' base base' way)
include h

/-- What stands on the way in one stands there in the other. -/
theorem isSome_entry?_below {down : Location} (hon : isOn way (trail ++ down) = true)
    (hsome : (fs.entry? ((onTrail base trail).place ++ down)).isSome) :
    (fs'.entry? ((onTrail base' trail).place ++ down)).isSome := by
  have hnames := isName_below hsome
  have hkind := (GlobSegment.alikeAlong_of_isOn h hon).isSome_eq
  change (fs.entry? (onTrail base (trail ++ down)).place).isSome =
    (fs'.entry? (onTrail base' (trail ++ down)).place).isSome at hkind
  rw [place_onTrail_append hnames, place_onTrail_append hnames] at hkind
  rwa [← hkind]

theorem isDirectoryAt_onTrail (hon : isOn way trail = true) :
    fs.isDirectoryAt (onTrail base trail).place =
      fs'.isDirectoryAt (onTrail base' trail).place := by
  rw [Bool.eq_iff_iff, FileSystem.isDirectoryAt, FileSystem.isDirectoryAt, beq_iff_eq, beq_iff_eq]
  exact (GlobSegment.alikeAlong_of_isOn h hon).directory_iff

/-- The names on the way are the same in both. -/
theorem children_onTrail (trail : List String) :
    (fs.children (onTrail base trail).place).filter (fun name => isOn way (trail ++ [name])) =
      (fs'.children (onTrail base' trail).place).filter fun name => isOn way (trail ++ [name]) := by
  refine ((FileSystem.pairwise_children fs _).filter _).eq_of_mem_iff
    ((FileSystem.pairwise_children fs' _).filter _) fun name => ?_
  rw [List.mem_filter, List.mem_filter, FileSystem.mem_children, FileSystem.mem_children]
  exact and_congr_left fun hon => ⟨isSome_entry?_below h hon, isSome_entry?_below h.symm hon⟩

/-- The ways down that stay on the way are the same in both. -/
theorem below_onTrail (trail : List String) :
    (fs.below (onTrail base trail).place).filter (fun down => isOn way (trail ++ down)) =
      (fs'.below (onTrail base' trail).place).filter fun down => isOn way (trail ++ down) := by
  refine ((FileSystem.pairwise_below fs _).filter _).eq_of_mem_iff
    ((FileSystem.pairwise_below fs' _).filter _) fun down => ?_
  rw [List.mem_filter, List.mem_filter, FileSystem.mem_below, FileSystem.mem_below]
  refine and_congr_left fun hon => and_congr_right fun _ => ?_
  exact ⟨isSome_entry?_below h hon, isSome_entry?_below h.symm hon⟩

end Reached

namespace GlobSegment

theorem trail_of_mem_wildSteps {pattern : NamePattern} :
    ∀ below ∈ wildSteps fs r pattern, ∃ more, below.trail = r.trail ++ more := by
  intro below hbelow
  unfold wildSteps at hbelow
  split at hbelow
  · obtain ⟨name, -, hbelow⟩ := List.mem_flatMap.mp hbelow
    split at hbelow
    · exact ⟨[name], trail_of_mem_follow hbelow⟩
    · cases hbelow
  · cases hbelow

/-- A name pattern reaches the same trails on the way in both. -/
theorem onWay_wildSteps (h : AlikeAlong fs fs' base base' way) (hon : isOn way trail = true)
    (pattern : NamePattern) :
    onWay way (wildSteps fs (onTrail base trail) pattern) =
      onWay way (wildSteps fs' (onTrail base' trail) pattern) := by
  rw [wildSteps, wildSteps, Reached.isDirectoryAt_onTrail h hon]
  split
  · -- of the names in the directory only those on the way count
    have hsteps (fs : FileSystem) (base : Location) :
        onWay way (((if beginsWithDot pattern then ["..", "."] else []) ++
          fs.children (onTrail base trail).place).flatMap fun name =>
            if pattern.admits name.toList then follow fs (onTrail base trail) name else []) =
          ((if beginsWithDot pattern then ["..", "."] else []) ++
            (fs.children (onTrail base trail).place).filter fun name =>
              isOn way (trail ++ [name])).flatMap fun name =>
                onWay way (if pattern.admits name.toList then follow fs (onTrail base trail) name
                  else []) := by
      have hnil : ∀ name ∈ fs.children (onTrail base trail).place,
          isOn way (trail ++ [name]) = false →
            onWay way (if pattern.admits name.toList then follow fs (onTrail base trail) name
              else []) = [] := by
        intro name _ hoff
        split
        · exact onWay_follow_of_not hoff
        · rfl
      rw [Reached.onWay_flatMap, List.flatMap_append, List.flatMap_append,
        Glob.flatMap_filter_of_nil hnil]
    rw [hsteps fs base, hsteps fs' base', Reached.children_onTrail h]
    refine List.flatMap_congr fun name _ => ?_
    split
    · exact onWay_follow h trail name
    · rfl
  · rfl

end GlobSegment

namespace Glob

theorem trail_of_mem_descend {p : Reached → Bool} :
    ∀ below ∈ (descend fs r).filter p, ∃ more, below.trail = r.trail ++ more := by
  intro below hbelow
  obtain ⟨down, -, rfl⟩ := List.mem_map.mp (List.mem_filter.mp hbelow).1
  exact ⟨down, rfl⟩

/-- Any way down reaches the same trails on the way in both, if what is
reached there is selected alike. -/
theorem onWay_descend (h : AlikeAlong fs fs' base base' way) {p p' : Reached → Bool}
    (hp : ∀ down, down ≠ [] → (fs.entry? ((onTrail base trail).place ++ down)).isSome →
      isOn way (trail ++ down) = true →
      p ((onTrail base trail).advance ((onTrail base trail).place ++ down) down) =
        p' ((onTrail base' trail).advance ((onTrail base' trail).place ++ down) down)) :
    onWay way ((descend fs (onTrail base trail)).filter p) =
      onWay way ((descend fs' (onTrail base' trail)).filter p') := by
  have hways (fs : FileSystem) (base : Location) (p : Reached → Bool) :
      onWay way ((descend fs (onTrail base trail)).filter p) =
        (((fs.below (onTrail base trail).place).filter fun down => isOn way (trail ++ down)).filter
          fun down =>
            p ((onTrail base trail).advance ((onTrail base trail).place ++ down) down)).map
          (trail ++ ·) := by
    rw [descend, onWay, List.filter_map, List.filter_map, List.filter_map, List.map_map,
      List.filter_comm]
    rfl
  rw [hways fs base, hways fs' base', ← Reached.below_onTrail h]
  refine congrArg _ (List.filter_congr fun down hdown => ?_)
  obtain ⟨hbelow, hon⟩ := List.mem_filter.mp hdown
  obtain ⟨hne, hsome⟩ := FileSystem.mem_below.mp hbelow
  exact hp down hne hsome hon

/-! ## Expansions -/

/-- **An expansion has the same trails on the way in both.** -/
theorem onWay_expand (h : AlikeAlong fs fs' base base' way) {segments : List GlobSegment}
    (hplain : Plain segments) (hsound : ∀ r ∈ rs, r.Sound fs base)
    (hsound' : ∀ r ∈ rs', r.Sound fs' base') (hrs : onWay way rs = onWay way rs') :
    onWay way (expand fs segments rs) = onWay way (expand fs' segments rs') := by
  -- behind any way down, repetitions are left out first
  have hdups {rs rs' : List Reached} (hsound : ∀ r ∈ rs, r.Sound fs base)
      (hsound' : ∀ r ∈ rs', r.Sound fs' base') (hrs : onWay way rs = onWay way rs') :
      onWay way rs.eraseDups = onWay way rs'.eraseDups := by
    rw [Reached.onWay_eraseDups hsound, Reached.onWay_eraseDups hsound', hrs]
  fun_induction expand fs segments rs generalizing rs' with
  | case1 rs => exact hrs
  | case2 name more rs ih =>
    rw [expand]
    have hname := hplain name List.mem_cons_self
    refine ih (plain_of_cons hplain)
      (Reached.sound_flatMap hsound fun r hr below => GlobSegment.sound_follow hr hname)
      (Reached.sound_flatMap hsound' fun r hr below => GlobSegment.sound_follow hr hname) ?_
    exact Reached.onWay_flatMap_congr hsound hsound' hrs
      (fun r below hbelow => ⟨_, GlobSegment.trail_of_mem_follow hbelow⟩)
      (fun r below hbelow => ⟨_, GlobSegment.trail_of_mem_follow hbelow⟩)
      fun trail _ => GlobSegment.onWay_follow h trail name
  | case3 pattern more rs ih =>
    rw [expand]
    refine ih (plain_of_cons hplain)
      (Reached.sound_flatMap hsound fun r hr below => GlobSegment.sound_wildSteps hr)
      (Reached.sound_flatMap hsound' fun r hr below => GlobSegment.sound_wildSteps hr) ?_
    exact Reached.onWay_flatMap_congr hsound hsound' hrs
      (fun r => GlobSegment.trail_of_mem_wildSteps) (fun r => GlobSegment.trail_of_mem_wildSteps)
      fun trail hon => GlobSegment.onWay_wildSteps h hon pattern
  | case4 rs =>
    rw [expand]
    refine Reached.onWay_flatMap_congr (Reached.sound_eraseDups hsound)
      (Reached.sound_eraseDups hsound') (hdups hsound hsound' hrs)
      (fun r => trail_of_mem_descend) (fun r => trail_of_mem_descend) fun trail hon => ?_
    refine onWay_descend h fun down _ hsome hdown => ?_
    have hnames := Reached.isName_below hsome
    change fs.isDirectoryAt ((onTrail base trail).place ++ down) =
      fs'.isDirectoryAt ((onTrail base' trail).place ++ down)
    rw [← Reached.place_onTrail_append hnames, ← Reached.place_onTrail_append hnames]
    exact Reached.isDirectoryAt_onTrail h hdown
  | case5 next more rs ih =>
    rw [expand]
    refine ih (plain_of_cons (plain_of_cons hplain))
      (Reached.sound_flatMap (Reached.sound_eraseDups hsound) fun r => sound_filter_descend)
      (Reached.sound_flatMap (Reached.sound_eraseDups hsound') fun r => sound_filter_descend) ?_
    refine Reached.onWay_flatMap_congr (Reached.sound_eraseDups hsound)
      (Reached.sound_eraseDups hsound') (hdups hsound hsound' hrs)
      (fun r => trail_of_mem_descend) (fun r => trail_of_mem_descend) fun trail hon => ?_
    refine onWay_descend h fun down hne _ _ => ?_
    -- the last name is that of the way down in both
    change ((onTrail base trail).place ++ down).getLast?.any next.admits =
      ((onTrail base' trail).place ++ down).getLast?.any next.admits
    rw [List.getLast?_append_of_ne_nil _ hne, List.getLast?_append_of_ne_nil _ hne]

/-- The trails to files on the way are those on the way that lead to a
file. -/
theorem onWay_files {rs : List Reached} (hsound : ∀ r ∈ rs, r.Sound fs base) :
    ((rs.filter fun r => (fs.contentAt? r.place).isSome).map (·.trail)).filter (isOn way) =
      (onWay way rs).filter fun trail => (fs.contentAt? (onTrail base trail).place).isSome := by
  have hplace : ∀ r ∈ rs, (fs.contentAt? r.place).isSome =
      (fs.contentAt? (onTrail base r.trail).place).isSome := fun r hr => by
    rw [← (hsound r hr).eq_onTrail]
  rw [List.filter_congr hplace, onWay, List.filter_comm, List.filter_map (p := fun trail =>
    (fs.contentAt? (onTrail base trail).place).isSome)]
  rfl

/-- **A glob matches the same files on the way in both.** -/
theorem trailsToFiles_isOn (h : AlikeAlong fs fs' base base' way) {glob : Glob}
    (hplain : Plain glob.segments) :
    (glob.trailsToFiles fs base).filter (isOn way) =
      (glob.trailsToFiles fs' base').filter (isOn way) := by
  rw [trailsToFiles, trailsToFiles]
  split
  · rfl
  · have hhere := Reached.sound_here fs base
    have hhere' := Reached.sound_here fs' base'
    rw [onWay_files (sound_expand hplain hhere), onWay_files (sound_expand hplain hhere'),
      onWay_expand h hplain hhere hhere' rfl]
    refine List.filter_congr fun trail htrail => ?_
    exact (GlobSegment.alikeAlong_of_isOn h (List.mem_filter.mp htrail).2).isSome_contentAt?

end Glob

end DocCoverage
