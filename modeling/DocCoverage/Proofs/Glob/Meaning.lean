import DocCoverage.Proofs.FileSystem.Directory
import DocCoverage.Proofs.Glob.Name
import DocCoverage.Proofs.Glob.Trails
/-!
# Globs — what a glob means

A glob means the steps that its segments say one after the other
(`Glob.Means`): a segment offers the segments that can be walked for it, any
way down offers names, and a segment that says nothing stands in front of a
step. Expanding a glob from a directory finds the files to which such steps
lead, on the trails that say them, and no others (`mem_trailsToFiles_iff`):
the expansion goes on only where something stands, but a file is where all of
its steps lead. A glob that offers no dot writes a path as its steps
(`written_of_means`).
-/

namespace DocCoverage

open DocCoverage.Path (Component)

variable {fs : FileSystem} {r reached : Reached} {rs : List Reached} {base next place : Location}
  {segment : GlobSegment} {segments more : List GlobSegment} {s : String} {trail : List String}
  {steps : List Component} {component : Component}

/-! ## Meaning -/

/-- What can be walked for a segment. Dots are for patterns that begin with a
dot. -/
def GlobSegment.Offers : GlobSegment → String → Prop
  | plain name, s => s = name
  | wild pattern, s =>
    pattern.Means s.toList ∧ s ≠ "" ∧ (s = "." ∨ s = ".." → beginsWithDot pattern = true)
  | anyDepth, _ => False

/-- Whether a segment cannot stand for these dots. -/
def GlobSegment.refuses (dots : String) : GlobSegment → Bool
  | plain name => name != dots
  | wild pattern => !beginsWithDot pattern
  | anyDepth => true

theorem GlobSegment.not_offers_of_refuses {dots : String} (hdots : dots = "." ∨ dots = "..")
    (h : segment.refuses dots = true) : ¬ segment.Offers dots := by
  cases segment with
  | plain name => exact fun heq => bne_iff_ne.mp h heq.symm
  | wild pattern =>
    rintro ⟨-, -, hbegins⟩
    rw [refuses, hbegins hdots] at h
    cases h
  | anyDepth => exact id

namespace Glob

/-- The trails that segments offer, and the steps that these say. -/
inductive Means : List GlobSegment → List String → List Component → Prop where
  | nil : Means [] [] []
  | silent {segment : GlobSegment} {more : List GlobSegment} {s : String} {trail : List String}
      {steps : List Component} : segment.Offers s → Component.ofSegment? s = none → steps ≠ [] →
      Means more trail steps → Means (segment :: more) (s :: trail) steps
  | step {segment : GlobSegment} {more : List GlobSegment} {s : String} {trail : List String}
      {component : Component} {steps : List Component} : segment.Offers s →
      Component.ofSegment? s = some component → Means more trail steps →
      Means (segment :: more) (s :: trail) (component :: steps)
  | deep {segment : GlobSegment} {more : List GlobSegment} {names : List String} {last : String}
      {trail : List String} {steps : List Component} :
      (∀ name ∈ names ++ [last], Listing.isName name = true) → segment.Offers last →
      Means more trail steps →
      Means (.anyDepth :: segment :: more) (names ++ [last] ++ trail)
        ((names ++ [last]).map .name ++ steps)

/-- The trails on which a glob matches paths, by their components. A glob that
asks for directories matches no file. -/
def MatchesAlong (glob : Glob) (trail : List String) (steps : List Component) : Prop :=
  glob.directoriesOnly = false ∧ Means glob.segments trail steps

/-- **The paths that a glob matches**, by their components. -/
def Matches (glob : Glob) (steps : List Component) : Prop := ∃ trail, glob.MatchesAlong trail steps

end Glob

/-! ## Steps and segments -/

namespace Path

theorem ofSegment?_eq_none_iff : Component.ofSegment? s = none ↔ s = "" ∨ s = "." := by
  unfold Component.ofSegment?
  split
  next hsilent => exact iff_of_true rfl hsilent
  next hsilent => split <;> exact iff_of_false (Option.some_ne_none _) hsilent

/-- A step is written like the segment that says it. -/
theorem text_of_ofSegment? (h : Component.ofSegment? s = some component) : component.text = s := by
  unfold Component.ofSegment? at h
  split at h
  · cases h
  · split at h
    next hup =>
      obtain rfl := Option.some_inj.mp h
      exact hup.symm
    · obtain rfl := Option.some_inj.mp h
      rfl

end Path

namespace FileSystem

/-- What says nothing leads nowhere else. -/
theorem eq_of_step_silent (hs : Component.ofSegment? s = none) (h : fs.step base s = .ok next) :
    next = base := by
  have hnext := step_eq_along h
  rwa [hs] at hnext

/-- What says nothing can be left out of a walk. -/
theorem walk_texts (h : fs.walk base trail = .ok place) :
    fs.walk base ((trail.filterMap Component.ofSegment?).map Component.text) = .ok place := by
  induction trail generalizing base with
  | nil => exact h
  | cons s rest ih =>
    obtain ⟨next, hstep, hrest⟩ := walk_cons_eq_ok_iff.mp h
    cases hs : Component.ofSegment? s with
    | none =>
      obtain rfl := eq_of_step_silent hs hstep
      rw [List.filterMap_cons_none hs]
      exact ih hrest
    | some component =>
      rw [List.filterMap_cons_some hs, List.map_cons, Path.text_of_ofSegment? hs]
      exact walk_cons_eq_ok_iff.mpr ⟨next, hstep, ih hrest⟩

theorem walk_filter {keep : String → Bool}
    (hsilent : ∀ s, keep s = false → Component.ofSegment? s = none)
    (h : fs.walk base trail = .ok place) : fs.walk base (trail.filter keep) = .ok place := by
  induction trail generalizing base with
  | nil => exact h
  | cons s rest ih =>
    obtain ⟨next, hstep, hrest⟩ := walk_cons_eq_ok_iff.mp h
    cases hkeep : keep s with
    | false =>
      obtain rfl := eq_of_step_silent (hsilent s hkeep) hstep
      rw [List.filter_cons, hkeep, if_neg Bool.false_ne_true]
      exact ih hrest
    | true =>
      rw [List.filter_cons, if_pos hkeep]
      exact walk_cons_eq_ok_iff.mpr ⟨next, hstep, ih hrest⟩

theorem walk_dropWhile {silent : String → Bool}
    (hsilent : ∀ s, silent s = true → Component.ofSegment? s = none)
    (h : fs.walk base trail = .ok place) : fs.walk base (trail.dropWhile silent) = .ok place := by
  induction trail with
  | nil => exact h
  | cons s rest ih =>
    rw [List.dropWhile_cons]
    split
    next hs =>
      obtain ⟨next, hstep, hrest⟩ := walk_cons_eq_ok_iff.mp h
      obtain rfl := eq_of_step_silent (hsilent s hs) hstep
      exact ih hrest
    · exact h

/-- From a directory it takes a step to come to a file. -/
theorem steps_ne_nil_of_walk (hdir : fs.entry? base = some .directory)
    (hwalk : fs.walk base trail = .ok place) (hfile : (fs.contentAt? place).isSome) :
    trail.filterMap Component.ofSegment? ≠ [] := by
  intro hnil
  have hplace := walk_eq_along hwalk
  rw [hnil, along, List.foldl_nil] at hplace
  rw [hplace] at hfile
  exact entry?_of_contentAt? hfile hdir

end FileSystem

/-! ## What is found is meant -/

namespace Glob

theorem means_cons_of_walk (hoffers : segment.Offers s) (hstep : fs.step base s = .ok next)
    (hwalk : fs.walk next trail = .ok place) (hfile : (fs.contentAt? place).isSome)
    (hmeans : Means more trail (trail.filterMap Component.ofSegment?)) :
    Means (segment :: more) (s :: trail) ((s :: trail).filterMap Component.ofSegment?) := by
  cases hs : Component.ofSegment? s with
  | none =>
    obtain rfl := FileSystem.eq_of_step_silent hs hstep
    rw [List.filterMap_cons_none hs]
    have hdir := (FileSystem.step_eq_ok_iff.mp hstep).1
    exact .silent hoffers hs (FileSystem.steps_ne_nil_of_walk hdir hwalk hfile) hmeans
  | some component =>
    rw [List.filterMap_cons_some hs]
    exact .step hoffers hs hmeans

/-- A step that a name pattern takes is one that it offers. -/
theorem offers_of_mem_wildSteps {pattern : NamePattern}
    (h : reached ∈ GlobSegment.wildSteps fs r pattern) : ∃ s place,
      (GlobSegment.wild pattern).Offers s ∧ fs.step r.place s = .ok place ∧
        reached = r.advance place [s] := by
  unfold GlobSegment.wildSteps at h
  split at h
  · obtain ⟨s, hs, h⟩ := List.mem_flatMap.mp h
    split at h
    next hadmits =>
      obtain ⟨place, hstep, rfl⟩ := GlobSegment.mem_follow h
      refine ⟨s, place, ⟨(NamePattern.admits_iff_means _ _).mp hadmits, ?_⟩, hstep, rfl⟩
      rcases List.mem_append.mp hs with hdots | hname
      · split at hdots
        next hdot =>
          refine ⟨?_, fun _ => hdot⟩
          rcases List.mem_pair.mp hdots with rfl | rfl <;> decide
        · cases hdots
      · have hsome := FileSystem.mem_children.mp hname
        obtain ⟨hempty, hdot, hdots, -⟩ :=
          Listing.isName_iff.mp (FileSystem.isName_of_entry? hsome s (by simp))
        exact ⟨hempty, fun h => absurd h (by simp [hdot, hdots])⟩
    · cases h
  · cases h

/-- A segment offers the names that it admits. -/
theorem offers_of_admits (hname : Listing.isName s = true) (h : segment.admits s = true) :
    segment.Offers s := by
  obtain ⟨hempty, hdot, hdots, -⟩ := Listing.isName_iff.mp hname
  cases segment with
  | plain name => exact beq_iff_eq.mp h
  | wild pattern =>
    exact ⟨(NamePattern.admits_iff_means _ _).mp h, hempty,
      fun h => absurd h (by simp [hdot, hdots])⟩
  | anyDepth => cases h

/-- **A file is found along steps that are meant.** -/
theorem means_of_mem_expand (h : reached ∈ expand fs segments rs)
    (hfile : (fs.contentAt? reached.place).isSome) :
    ∃ r ∈ rs, ∃ trail, reached.trail = r.trail ++ trail ∧
      fs.walk r.place trail = .ok reached.place ∧
        Means segments trail (trail.filterMap Component.ofSegment?) := by
  fun_induction expand fs segments rs with
  | case1 rs => exact ⟨reached, h, [], (List.append_nil _).symm, rfl, .nil⟩
  | case2 name more rs ih =>
    obtain ⟨r', hr', trail, htrail, hwalk, hmeans⟩ := ih h
    obtain ⟨r, hr, hfollow⟩ := List.mem_flatMap.mp hr'
    obtain ⟨next, hstep, rfl⟩ := GlobSegment.mem_follow hfollow
    refine ⟨r, hr, name :: trail, ?_, FileSystem.walk_cons_eq_ok_iff.mpr ⟨next, hstep, hwalk⟩, ?_⟩
    · rw [htrail, Reached.advance, List.append_assoc, List.singleton_append]
    · exact means_cons_of_walk rfl hstep hwalk hfile hmeans
  | case3 pattern more rs ih =>
    obtain ⟨r', hr', trail, htrail, hwalk, hmeans⟩ := ih h
    obtain ⟨r, hr, hwild⟩ := List.mem_flatMap.mp hr'
    obtain ⟨s, next, hoffers, hstep, rfl⟩ := offers_of_mem_wildSteps hwild
    refine ⟨r, hr, s :: trail, ?_, FileSystem.walk_cons_eq_ok_iff.mpr ⟨next, hstep, hwalk⟩, ?_⟩
    · rw [htrail, Reached.advance, List.append_assoc, List.singleton_append]
    · exact means_cons_of_walk hoffers hstep hwalk hfile hmeans
  | case4 rs =>
    -- at the end, any way down leads to directories
    obtain ⟨r, -, hbelow⟩ := List.mem_flatMap.mp h
    have hdir := (List.mem_filter.mp hbelow).2
    rw [FileSystem.isDirectoryAt, beq_iff_eq] at hdir
    exact absurd hdir (FileSystem.entry?_of_contentAt? hfile)
  | case5 next more rs ih =>
    obtain ⟨r', hr', trail, htrail, hwalk, hmeans⟩ := ih h
    obtain ⟨r, hr, hbelow⟩ := List.mem_flatMap.mp hr'
    obtain ⟨hdown, hadmits⟩ := List.mem_filter.mp hbelow
    obtain ⟨way, hway, rfl⟩ := List.mem_map.mp hdown
    obtain ⟨hne, hsome⟩ := FileSystem.mem_below.mp hway
    have hnames : ∀ name ∈ way, Listing.isName name = true := fun name hname =>
      FileSystem.isName_of_entry? hsome name (List.mem_append_right _ hname)
    have hdeep := FileSystem.walk_names hnames fun _ => hsome
    refine ⟨r, List.mem_eraseDups.mp hr, way ++ trail, ?_, ?_, ?_⟩
    · rw [htrail, Reached.advance, List.append_assoc]
    · rw [FileSystem.walk_append, hdeep]
      exact hwalk
    · obtain ⟨names, last, rfl⟩ : ∃ names last, way = names ++ [last] :=
        ⟨_, _, (List.dropLast_append_getLast hne).symm⟩
      rw [List.filterMap_append, Path.filterMap_ofSegment?_names hnames]
      refine .deep hnames (offers_of_admits (hnames last (by simp)) ?_) hmeans
      simpa [Reached.advance] using hadmits

/-! ## What is meant is found -/

/-- A step that is offered is taken. -/
theorem exists_expand_cons (hoffers : segment.Offers s) (hr : r ∈ rs)
    (hstep : fs.step r.place s = .ok next) (more : List GlobSegment) :
    ∃ rs', r.advance next [s] ∈ rs' ∧ expand fs (segment :: more) rs = expand fs more rs' := by
  have hfollow : r.advance next [s] ∈ GlobSegment.follow fs r s := by
    rw [GlobSegment.follow, hstep]
    exact List.mem_singleton_self _
  cases segment with
  | plain name =>
    obtain rfl : s = name := hoffers
    exact ⟨_, List.mem_flatMap.mpr ⟨r, hr, hfollow⟩, by rw [expand]⟩
  | wild pattern =>
    obtain ⟨hmeans, hempty, hdots⟩ := hoffers
    refine ⟨_, List.mem_flatMap.mpr ⟨r, hr, ?_⟩, by rw [expand]⟩
    obtain ⟨hdir, hto⟩ := FileSystem.step_eq_ok_iff.mp hstep
    rw [GlobSegment.wildSteps, if_pos (by rw [FileSystem.isDirectoryAt, hdir]; rfl)]
    refine List.mem_flatMap.mpr ⟨s, List.mem_append.mpr ?_, ?_⟩
    · by_cases hdot : s = "." ∨ s = ".."
      · rw [hdots hdot, if_pos rfl]
        exact .inl (List.mem_pair.mpr hdot.symm)
      · rw [not_or] at hdot
        rw [if_neg (by simp [hempty, hdot.1]), if_neg hdot.2] at hto
        exact .inr (FileSystem.mem_children.mpr hto.2.1)
    · rw [if_pos ((NamePattern.admits_iff_means _ _).mpr hmeans)]
      exact hfollow
  | anyDepth => exact hoffers.elim

/-- A segment admits what it offers. -/
theorem admits_of_offers (h : segment.Offers s) : segment.admits s = true := by
  cases segment with
  | plain name => exact beq_iff_eq.mpr h
  | wild pattern => exact (NamePattern.admits_iff_means _ _).mpr h.1
  | anyDepth => exact h.elim

/-- **Steps that are meant are found**, if they lead to something. -/
theorem mem_expand_of_means (hmeans : Means segments trail steps) (hr : r ∈ rs)
    (hwalk : fs.walk r.place (steps.map Component.text) = .ok place) :
    (⟨place, r.trail ++ trail⟩ : Reached) ∈ expand fs segments rs := by
  induction hmeans generalizing r rs with
  | nil =>
    obtain rfl := Except.ok.inj hwalk
    rwa [List.append_nil]
  | @silent segment more s trail steps hoffers hs hne hmeans ih =>
    have hdir := FileSystem.entry?_of_walk_ok hwalk (mt List.map_eq_nil_iff.mp hne)
    have hstep : fs.step r.place s = .ok r.place :=
      FileSystem.step_eq_ok_iff.mpr ⟨hdir, by rw [if_pos (Path.ofSegment?_eq_none_iff.mp hs)]⟩
    obtain ⟨rs', hr', heq⟩ := exists_expand_cons hoffers hr hstep more
    have hmem := ih hr' hwalk
    rw [heq, ← List.singleton_append, ← List.append_assoc]
    exact hmem
  | @step segment more s trail component steps hoffers hs hmeans ih =>
    rw [List.map_cons, Path.text_of_ofSegment? hs] at hwalk
    obtain ⟨next, hstep, hrest⟩ := FileSystem.walk_cons_eq_ok_iff.mp hwalk
    obtain ⟨rs', hr', heq⟩ := exists_expand_cons hoffers hr hstep more
    have hmem := ih hr' hrest
    rw [heq, ← List.singleton_append, ← List.append_assoc]
    exact hmem
  | @deep segment more names last trail steps hnames hoffers hmeans ih =>
    have htexts : ((names ++ [last]).map Component.name).map Component.text = names ++ [last] := by
      rw [List.map_map]
      exact List.map_id _
    rw [List.map_append, htexts, FileSystem.walk_append] at hwalk
    cases hdeep : fs.walk r.place (names ++ [last]) with
    | error fault =>
      rw [hdeep] at hwalk
      cases hwalk
    | ok next =>
      rw [hdeep] at hwalk
      have hnext : next = r.place ++ (names ++ [last]) := by
        rw [FileSystem.walk_eq_along hdeep, FileSystem.along_names hnames]
      have hne : names ++ [last] ≠ [] := by simp
      have hsome := FileSystem.isSome_of_walk hdeep hne
      rw [hnext] at hsome
      have hr' : r.advance next (names ++ [last]) ∈ rs.eraseDups.flatMap fun r =>
          (descend fs r).filter fun below => below.place.getLast?.any segment.admits := by
        refine List.mem_flatMap.mpr ⟨r, List.mem_eraseDups.mpr hr, List.mem_filter.mpr ⟨?_, ?_⟩⟩
        · rw [hnext]
          exact List.mem_map_of_mem (FileSystem.mem_below.mpr ⟨hne, hsome⟩)
        · rw [hnext]
          simpa [Reached.advance] using admits_of_offers hoffers
      have hmem := ih hr' hwalk
      rw [expand, ← List.append_assoc]
      exact hmem

/-- A trail says the steps that are meant. -/
theorem filterMap_of_means (hmeans : Means segments trail steps) :
    trail.filterMap Component.ofSegment? = steps := by
  induction hmeans with
  | nil => rfl
  | silent _ hs _ _ ih => rw [List.filterMap_cons_none hs, ih]
  | step _ hs _ ih => rw [List.filterMap_cons_some hs, ih]
  | deep hnames _ _ ih =>
    rw [List.filterMap_append, Path.filterMap_ofSegment?_names hnames, ih]

/-- **The trails to files** are those on which steps lead to one that are
meant. -/
theorem mem_trailsToFiles_iff (glob : Glob) : trail ∈ glob.trailsToFiles fs base ↔
    ∃ steps, glob.MatchesAlong trail steps ∧
      (fs.contentFrom? base (steps.map Component.text)).isSome := by
  constructor
  · intro htrail
    unfold trailsToFiles at htrail
    split at htrail
    · cases htrail
    next hfiles =>
      obtain ⟨reached, hreached, rfl⟩ := List.mem_map.mp htrail
      obtain ⟨hmem, hfile⟩ := List.mem_filter.mp hreached
      obtain ⟨r, hr, trail, htrail, hwalk, hmeans⟩ := means_of_mem_expand hmem hfile
      rw [List.mem_singleton.mp hr] at htrail hwalk
      rw [List.nil_append] at htrail
      rw [htrail]
      refine ⟨_, ⟨Bool.eq_false_iff.mpr hfiles, hmeans⟩, ?_⟩
      rw [FileSystem.contentFrom?, FileSystem.walk_texts hwalk]
      exact hfile
  · rintro ⟨steps, ⟨hfiles, hmeans⟩, hsome⟩
    obtain ⟨content, hcontent⟩ := Option.isSome_iff_exists.mp hsome
    obtain ⟨place, hwalk, hplace⟩ := FileSystem.contentFrom?_eq_some_iff.mp hcontent
    have hmem := mem_expand_of_means hmeans (List.mem_singleton_self (⟨base, []⟩ : Reached)) hwalk
    rw [trailsToFiles, hfiles, if_neg Bool.false_ne_true]
    exact List.mem_map.mpr ⟨_, List.mem_filter.mpr ⟨hmem, by rw [hplace]; rfl⟩, List.nil_append _⟩

theorem mem_fileTrails_iff (glob : Glob) {lookedUp : List String → Path} :
    trail ∈ glob.fileTrails fs lookedUp base ↔
      trail ∈ glob.trailsToFiles fs base ∧ FileSystem.pathFault? (lookedUp trail) = none := by
  rw [fileTrails, List.mem_filter, Option.isNone_iff_eq_none]

/-! ## Dots -/

/-- Segments mean steps. -/
theorem steps_ne_nil_of_means (hmeans : Means segments trail steps) (h : segments ≠ []) :
    steps ≠ [] := by
  cases hmeans with
  | nil => exact absurd rfl h
  | silent _ _ hne _ => exact hne
  | step => exact List.cons_ne_nil _ _
  | deep => simp

theorem steps_ne_nil_of_matches {text : String} {glob : Glob} (hglob : ofText? text = some glob)
    (hmatches : glob.MatchesAlong trail steps) : steps ≠ [] :=
  steps_ne_nil_of_means hmatches.2 (segments_ne_nil_of_ofText? hglob hmatches.1)

/-- Steps are names unless a segment offers two dots. -/
theorem exists_names_of_means (hmeans : Means segments trail steps)
    (h : ∀ segment ∈ segments, ¬ GlobSegment.Offers segment "..") :
    ∃ names : List String, steps = names.map .name := by
  induction hmeans with
  | nil => exact ⟨[], rfl⟩
  | silent _ _ _ _ ih => exact ih (List.forall_mem_cons.mp h).2
  | @step segment more s trail component steps hoffers hs _ ih =>
    obtain ⟨hfirst, hrest⟩ := List.forall_mem_cons.mp h
    obtain ⟨names, rfl⟩ := ih hrest
    unfold Component.ofSegment? at hs
    split at hs
    · cases hs
    · split at hs
      next hup =>
        rw [hup] at hoffers
        exact absurd hoffers hfirst
      · obtain rfl := Option.some_inj.mp hs
        exact ⟨s :: names, rfl⟩
  | @deep segment more names last trail steps _ _ _ ih =>
    obtain ⟨-, hbelow⟩ := List.forall_mem_cons.mp h
    obtain ⟨behind, rfl⟩ := ih (List.forall_mem_cons.mp hbelow).2
    exact ⟨names ++ [last] ++ behind, List.map_append.symm⟩

/-- Steps lead up only for segments that offer two dots. -/
theorem ne_up_of_means (hmeans : Means segments trail steps)
    (h : ∀ segment ∈ segments, ¬ GlobSegment.Offers segment "..") :
    ∀ component ∈ steps, component ≠ .up := by
  obtain ⟨names, rfl⟩ := exists_names_of_means hmeans h
  exact List.forall_mem_map.mpr fun _ _ => Component.noConfusion

/-- What begins with a name means only steps that begin with it. -/
theorem exists_steps_of_means_plain {name : String} (hname : Listing.isName name = true)
    (hmeans : Means (.plain name :: more) trail steps) :
    ∃ behind rest, steps = .name name :: rest ∧ Means more behind rest := by
  have hsegment := Path.ofSegment?_of_isName hname
  cases hmeans with
  | silent hoffers hs _ _ =>
    obtain rfl := hoffers
    rw [hsegment] at hs
    cases hs
  | step hoffers hs hrest =>
    obtain rfl := hoffers
    obtain rfl := Option.some_inj.mp (hsegment.symm.trans hs)
    exact ⟨_, _, rfl, hrest⟩

/-- **Without dots a path is written as its steps**, joined by slashes. -/
theorem written_of_means (hmeans : Means segments trail steps)
    (h : ∀ segment ∈ segments, ¬ GlobSegment.Offers segment ".") :
    written trail = Path.ofSegments (steps.map Component.text) := by
  suffices htexts : trail.filter (· != "") = steps.map Component.text by rw [written, htexts]
  induction hmeans with
  | nil => rfl
  | @silent segment more s trail steps hoffers hs _ _ ih =>
    obtain ⟨hfirst, hrest⟩ := List.forall_mem_cons.mp h
    rcases Path.ofSegment?_eq_none_iff.mp hs with rfl | rfl
    · exact ih hrest
    · exact absurd hoffers hfirst
  | @step segment more s trail component steps hoffers hs _ ih =>
    obtain ⟨-, hrest⟩ := List.forall_mem_cons.mp h
    have hne : s ≠ "" := by
      rintro rfl
      cases hs
    rw [List.filter_cons, if_pos (bne_iff_ne.mpr hne), ih hrest, List.map_cons,
      Path.text_of_ofSegment? hs]
  | @deep segment more names last trail steps hnames _ _ ih =>
    obtain ⟨-, hbelow⟩ := List.forall_mem_cons.mp h
    have hall : (names ++ [last]).filter (· != "") = names ++ [last] :=
      List.filter_eq_self.mpr fun name hname =>
        bne_iff_ne.mpr (Listing.isName_iff.mp (hnames name hname)).1
    have htexts : ((names ++ [last]).map Component.name).map Component.text = names ++ [last] := by
      rw [List.map_map]
      exact List.map_id _
    rw [List.filter_append, hall, ih (List.forall_mem_cons.mp hbelow).2, List.map_append, htexts]

end Glob

end DocCoverage
