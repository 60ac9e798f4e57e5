import DocCoverage.Glob.Expansion
import DocCoverage.Proofs.FileSystem.Walking
/-!
# Globs — trails and the places they lead to

The plain segments of a glob hold no slash (`Glob.Plain`), and neither do
names. The trail of a place that an expansion reaches therefore spells a path
with the steps that were taken, and these steps lead to the place
(`sound_expand`, `steps_spelled`).
-/

namespace DocCoverage

open FileSystem (along)
open DocCoverage.Path (Component)

variable {fs : FileSystem} {r below : Reached} {start : Location} {segment : String}

/-! ## Reading -/

namespace NamePattern

theorem plainText?_of_classAhead? {text : List Char} {element : NameElement} {width : Nat}
    (h : classAhead? text = some (element, width)) (more : NamePattern) :
    plainText? (element :: more) = none := by
  unfold classAhead? at h
  split at h
  · obtain ⟨_, -, hpair⟩ := Option.map_eq_some_iff.mp h
    obtain ⟨rfl, -⟩ := Prod.mk.injEq .. ▸ hpair
    rfl
  · cases h
  · obtain ⟨_, -, hpair⟩ := Option.map_eq_some_iff.mp h
    obtain ⟨rfl, -⟩ := Prod.mk.injEq .. ▸ hpair
    rfl
  · cases h

/-- A pattern without choices stands for the text it was read from. -/
theorem plainText?_readFrom? {text name : List Char} {pattern : NamePattern}
    (hread : readFrom? 0 text = some pattern) (hplain : pattern.plainText? = some name) :
    name = text := by
  induction text generalizing pattern name with
  | nil =>
    obtain rfl := Option.some_inj.mp hread
    exact (Option.some_inj.mp hplain).symm
  | cons c rest ih =>
    -- whatever admits a choice has no plain text, so that only characters are left
    unfold readFrom? at hread
    dsimp only at hread
    split at hread
    · obtain ⟨_, -, rfl⟩ := Option.map_eq_some_iff.mp hread
      cases hplain
    · split at hread
      · cases hread
      · obtain ⟨_, -, rfl⟩ := Option.map_eq_some_iff.mp hread
        cases hplain
    · split at hread
      · cases hread
      next element width hclass =>
        obtain ⟨more, -, rfl⟩ := Option.map_eq_some_iff.mp hread
        rw [plainText?_of_classAhead? hclass more] at hplain
        cases hplain
    · obtain ⟨more, hmore, rfl⟩ := Option.map_eq_some_iff.mp hread
      obtain ⟨name', hname, rfl⟩ := Option.map_eq_some_iff.mp hplain
      rw [ih hmore hname]

end NamePattern

namespace Glob

/-- The plain segments are segments: they hold no slash. -/
def Plain (segments : List GlobSegment) : Prop :=
  ∀ name, GlobSegment.plain name ∈ segments → '/' ∉ name.toList

theorem plain_ofText? {text name : String} (h : GlobSegment.ofText? text = some (.plain name)) :
    name = text := by
  unfold GlobSegment.ofText? at h
  split at h
  · cases h
  · obtain ⟨pattern, hpattern, hsegment⟩ := Option.map_eq_some_iff.mp h
    split at hsegment
    next chars hchars =>
      obtain rfl := GlobSegment.plain.inj hsegment
      rw [NamePattern.plainText?_readFrom? hpattern hchars, String.ofList_toList]
    · cases hsegment

theorem mem_of_mem_collapse {segment : GlobSegment} {segments : List GlobSegment}
    (h : segment ∈ collapse segments) : segment ∈ segments := by
  induction segments with
  | nil => exact h
  | cons first rest ih =>
    rw [collapse] at h
    split at h
    · exact List.mem_cons_of_mem _ (ih h)
    · rcases List.mem_cons.mp h with rfl | h
      · exact List.mem_cons_self
      · exact List.mem_cons_of_mem _ (ih h)

theorem collapse_ne_nil {segments : List GlobSegment} (h : segments ≠ []) :
    collapse segments ≠ [] := by
  obtain ⟨segment, more, rfl⟩ := List.exists_cons_of_ne_nil h
  rw [collapse]
  split
  next heq =>
    intro hnil
    rw [hnil] at heq
    cases heq.2
  · exact List.cons_ne_nil _ _

theorem exists_of_mem_mapM {α β : Type} {read : α → Option β} {items : List α} {made : List β}
    (h : items.mapM read = some made) {b : β} (hb : b ∈ made) : ∃ a ∈ items, read a = some b := by
  induction items generalizing made with
  | nil =>
    obtain rfl : made = [] := by simpa using h.symm
    cases hb
  | cons first rest ih =>
    rw [List.mapM_cons] at h
    obtain ⟨head, hhead, h⟩ := Option.bind_eq_some_iff.mp h
    obtain ⟨tail, htail, h⟩ := Option.bind_eq_some_iff.mp h
    obtain rfl := Option.some_inj.mp h
    rcases List.mem_cons.mp hb with rfl | hb
    · exact ⟨first, List.mem_cons_self, hhead⟩
    · obtain ⟨a, ha, hread⟩ := ih htail hb
      exact ⟨a, List.mem_cons_of_mem _ ha, hread⟩

/-- What is read has plain segments without slashes. -/
theorem plain_of_ofText? {text : String} {glob : Glob} (h : ofText? text = some glob) :
    Plain glob.segments := by
  obtain ⟨segments, hsegments, rfl⟩ := Option.map_eq_some_iff.mp h
  intro name hname
  have hread := mem_of_mem_collapse hname
  obtain ⟨piece, hpiece, hsegment⟩ := exists_of_mem_mapM hsegments hread
  obtain rfl := plain_ofText? hsegment
  have hcut : name ∈ Path.segments ⟨text⟩ → '/' ∉ name.toList :=
    Path.slash_not_mem_of_mem_segments
  refine hcut ?_
  split at hpiece
  · exact (List.dropLast_sublist _).mem hpiece
  · exact hpiece

/-- A glob that can match a file has a segment. -/
theorem segments_ne_nil_of_ofText? {text : String} {glob : Glob} (h : ofText? text = some glob)
    (hfiles : glob.directoriesOnly = false) : glob.segments ≠ [] := by
  obtain ⟨read, hread, rfl⟩ := Option.map_eq_some_iff.mp h
  dsimp only at hfiles
  rw [hfiles, if_neg Bool.false_ne_true] at hread
  refine collapse_ne_nil ?_
  rintro rfl
  have hpieces : Text.cutAt '/' text ≠ [] := Path.segments_ne_nil ⟨text⟩
  obtain ⟨first, rest, hcons⟩ := List.exists_cons_of_ne_nil hpieces
  rw [hcons, List.mapM_cons] at hread
  obtain ⟨segment, -, hrest⟩ := Option.bind_eq_some_iff.mp hread
  obtain ⟨segments, -, hnil⟩ := Option.bind_eq_some_iff.mp hrest
  cases hnil

end Glob

/-! ## Trails -/

/-- A place that was reached is where its trail is walked to, and the trail
can be written. -/
structure Reached.Sound (fs : FileSystem) (start : Location) (r : Reached) : Prop where
  walk : fs.walk start r.trail = .ok r.place
  slash_not_mem : ∀ segment ∈ r.trail, '/' ∉ segment.toList

/-- The steps of the trail lead to the place. -/
theorem Reached.Sound.place (h : r.Sound fs start) :
    r.place = along start (r.trail.filterMap Component.ofSegment?) :=
  FileSystem.walk_eq_along h.walk

theorem Reached.sound_here (fs : FileSystem) (start : Location) :
    ∀ r ∈ [(⟨start, []⟩ : Reached)], r.Sound fs start :=
  List.forall_mem_singleton.mpr ⟨rfl, fun _ h => absurd h List.not_mem_nil⟩

theorem Reached.sound_advance {place : Location} {segments : List String} (h : r.Sound fs start)
    (hwalk : fs.walk r.place segments = .ok place)
    (hslash : ∀ segment ∈ segments, '/' ∉ segment.toList) :
    (r.advance place segments).Sound fs start where
  walk := by
    change fs.walk start (r.trail ++ segments) = .ok place
    rw [FileSystem.walk_append, h.walk]
    exact hwalk
  slash_not_mem segment hsegment := by
    rcases List.mem_append.mp hsegment with hsegment | hsegment
    · exact h.slash_not_mem segment hsegment
    · exact hslash segment hsegment

/-- What is sound at each place is sound at all of them. -/
theorem Reached.sound_flatMap {rs : List Reached} {go : Reached → List Reached}
    (hrs : ∀ r ∈ rs, r.Sound fs start)
    (hgo : ∀ r : Reached, r.Sound fs start → ∀ below ∈ go r, below.Sound fs start) :
    ∀ below ∈ rs.flatMap go, below.Sound fs start := by
  intro below hbelow
  obtain ⟨r, hr, hbelow⟩ := List.mem_flatMap.mp hbelow
  exact hgo r (hrs r hr) below hbelow

theorem Reached.sound_eraseDups {rs : List Reached} (hrs : ∀ r ∈ rs, r.Sound fs start) :
    ∀ r ∈ rs.eraseDups, r.Sound fs start :=
  fun r hr => hrs r (List.mem_eraseDups.mp hr)

namespace GlobSegment

theorem mem_follow (h : below ∈ follow fs r segment) :
    ∃ place, fs.step r.place segment = .ok place ∧ below = r.advance place [segment] := by
  unfold follow at h
  split at h
  next place hstep => exact ⟨place, hstep, List.mem_singleton.mp h⟩
  · cases h

theorem sound_follow (hr : r.Sound fs start) (hsegment : '/' ∉ segment.toList)
    (h : below ∈ follow fs r segment) : below.Sound fs start := by
  obtain ⟨place, hstep, rfl⟩ := mem_follow h
  refine Reached.sound_advance hr ?_ (List.forall_mem_singleton.mpr hsegment)
  exact FileSystem.walk_cons_eq_ok_iff.mpr ⟨place, hstep, rfl⟩

theorem sound_wildSteps {pattern : NamePattern} (hr : r.Sound fs start)
    (h : below ∈ wildSteps fs r pattern) : below.Sound fs start := by
  unfold wildSteps at h
  split at h
  · obtain ⟨name, hname, h⟩ := List.mem_flatMap.mp h
    split at h
    · refine sound_follow hr ?_ h
      -- the names that are tried are dots or stand in the directory
      rcases List.mem_append.mp hname with hdots | hname
      · split at hdots
        · rcases List.mem_pair.mp hdots with rfl | rfl <;> decide
        · cases hdots
      · have hsome := FileSystem.mem_children.mp hname
        have hisName := FileSystem.isName_of_entry? hsome name (by simp)
        exact (Listing.isName_iff.mp hisName).2.2.2.1
    · cases h
  · cases h

end GlobSegment

namespace Glob

theorem sound_descend (hr : r.Sound fs start) (h : below ∈ descend fs r) : below.Sound fs start := by
  obtain ⟨way, hway, rfl⟩ := List.mem_map.mp h
  obtain ⟨-, hsome⟩ := FileSystem.mem_below.mp hway
  have hnames : ∀ name ∈ way, Listing.isName name = true := fun name hname =>
    FileSystem.isName_of_entry? hsome name (List.mem_append_right _ hname)
  have hwalk := FileSystem.walk_names hnames fun _ => hsome
  refine Reached.sound_advance hr hwalk fun name hname => ?_
  exact (Listing.isName_iff.mp (hnames name hname)).2.2.2.1

theorem sound_filter_descend {p : Reached → Bool} (hr : r.Sound fs start) :
    ∀ below ∈ (descend fs r).filter p, below.Sound fs start :=
  fun _ hbelow => sound_descend hr (List.mem_filter.mp hbelow).1

theorem plain_of_cons {first : GlobSegment} {more : List GlobSegment} (h : Plain (first :: more)) :
    Plain more :=
  fun name hname => h name (List.mem_cons_of_mem _ hname)

/-- **Every trail leads to the place that was reached on it.** -/
theorem sound_expand {segments : List GlobSegment} {rs : List Reached}
    (hplain : Plain segments) (hrs : ∀ r ∈ rs, r.Sound fs start) :
    ∀ below ∈ expand fs segments rs, below.Sound fs start := by
  fun_induction expand fs segments rs with
  | case1 rs => exact hrs
  | case2 name more rs ih =>
    have hname := hplain name List.mem_cons_self
    exact ih (plain_of_cons hplain)
      (Reached.sound_flatMap hrs fun r hr below => GlobSegment.sound_follow hr hname)
  | case3 pattern more rs ih =>
    exact ih (plain_of_cons hplain)
      (Reached.sound_flatMap hrs fun r hr below => GlobSegment.sound_wildSteps hr)
  | case4 rs =>
    exact Reached.sound_flatMap (Reached.sound_eraseDups hrs) fun r => sound_filter_descend
  | case5 next more rs ih =>
    exact ih (plain_of_cons (plain_of_cons hplain))
      (Reached.sound_flatMap (Reached.sound_eraseDups hrs) fun r => sound_filter_descend)

/-- A trail to a file leads to it, and it can be written. -/
theorem of_mem_trailsToFiles {glob : Glob} {trail : List String} (hplain : Plain glob.segments)
    (h : trail ∈ glob.trailsToFiles fs start) :
    (∃ place, fs.walk start trail = .ok place ∧ (fs.contentAt? place).isSome) ∧
      ∀ segment ∈ trail, '/' ∉ segment.toList := by
  unfold trailsToFiles at h
  split at h
  · cases h
  · obtain ⟨r, hr, rfl⟩ := List.mem_map.mp h
    obtain ⟨hmem, hfile⟩ := List.mem_filter.mp hr
    have hsound := sound_expand hplain (Reached.sound_here fs start) r hmem
    exact ⟨⟨r.place, hsound.walk, hfile⟩, hsound.slash_not_mem⟩

/-! ## Spelling -/

theorem filterMap_filter_empty (trail : List String) :
    (trail.filter (· != "")).filterMap Component.ofSegment? =
      trail.filterMap Component.ofSegment? := by
  induction trail with
  | nil => rfl
  | cons first rest ih =>
    rw [List.filter_cons]
    split
    · rw [List.filterMap_cons, ih, List.filterMap_cons]
    next hempty =>
      obtain rfl : first = "" := by simpa using hempty
      rw [ih, List.filterMap_cons_none Path.ofSegment?_nil]

section Spelling

variable {trail : List String} (h : ∀ segment ∈ trail, '/' ∉ segment.toList)
include h

theorem slash_not_mem_written : ∀ segment ∈ trail.filter (· != ""), '/' ∉ segment.toList :=
  fun segment hsegment => h segment (List.mem_filter.mp hsegment).1

theorem slash_not_mem_spelled :
    ∀ segment ∈ (trail.filter (· != "")).dropWhile (· == "."), '/' ∉ segment.toList :=
  fun segment hsegment => slash_not_mem_written h segment ((List.dropWhile_sublist _).mem hsegment)

/-- A trail spells a path that takes its steps: what is left out says
nothing. -/
theorem steps_spelled : (spelled trail).steps = trail.filterMap Component.ofSegment? := by
  rw [spelled, Path.steps_ofSegments (slash_not_mem_spelled h)]
  have hdots (segments : List String) :
      (segments.dropWhile (· == ".")).filterMap Component.ofSegment? =
        segments.filterMap Component.ofSegment? := by
    induction segments with
    | nil => rfl
    | cons first rest ih =>
      rw [List.dropWhile_cons]
      split
      next hdot =>
        rw [ih, beq_iff_eq.mp hdot, List.filterMap_cons_none Path.ofSegment?_dot]
      · rfl
  rw [hdots, filterMap_filter_empty]

theorem isAbsolute_spelled : (spelled trail).isAbsolute = false := by
  refine Path.isAbsolute_ofSegments fun segment hsegment => ?_
  have hin := List.mem_of_mem_head? hsegment
  obtain ⟨hmem, hempty⟩ := List.mem_filter.mp ((List.dropWhile_sublist _).mem hin)
  exact ⟨bne_iff_ne.mp hempty, h segment hmem⟩

theorem isAbsolute_written : (written trail).isAbsolute = false := by
  refine Path.isAbsolute_ofSegments fun segment hsegment => ?_
  obtain ⟨hmem, hempty⟩ := List.mem_filter.mp (List.mem_of_mem_head? hsegment)
  exact ⟨bne_iff_ne.mp hempty, h segment hmem⟩

theorem steps_spelledFromRoot :
    (spelledFromRoot trail).steps = trail.filterMap Component.ofSegment? := by
  rw [spelledFromRoot, Path.steps_ofLocation (slash_not_mem_written h), filterMap_filter_empty]

end Spelling

/-- What a trail spells is the end of what it is written as. -/
theorem spelled_suffix (trail : List String) :
    (spelled trail).text.toList <:+ (written trail).text.toList := by
  obtain ⟨dots, hdots⟩ : (trail.filter (· != "")).dropWhile (· == ".") <:+
      trail.filter (· != "") := List.dropWhile_suffix _
  rw [written, ← hdots, spelled, Path.ofSegments, Path.ofSegments, String.toList_intercalate,
    String.toList_intercalate, List.map_append]
  exact Text.intercalate_suffix _ _

end Glob

end DocCoverage
