import DocCoverage.Path
import DocCoverage.Proofs.Text.Pieces
/-!
# Paths — what the segments say

The components of a path are its lead and the steps that its segments say
(`components_eq`), and a path is told by its steps where it is known from
which place they are taken. Joined paths take their steps one after the other
(`steps_join`).
-/

namespace DocCoverage

namespace Path

variable {a b path next more : Path} {segs : List String}

/-- The steps that a path says, its lead aside. -/
def steps (path : Path) : List Component := path.segments.filterMap Component.ofSegment?

/-! ## Segments -/

theorem segments_ne_nil (path : Path) : path.segments ≠ [] := by
  rw [segments, Text.cutAt]
  exact mt List.map_eq_nil_iff.mp (Text.pieces_ne_nil _)

/-- No segment holds a slash. -/
theorem slash_not_mem_of_mem_segments {segment : String} (h : segment ∈ path.segments) :
    '/' ∉ segment.toList := by
  obtain ⟨piece, hpiece, rfl⟩ := List.mem_map.mp h
  rw [String.toList_ofList]
  intro hslash
  have hnot := Text.not_isSep_of_mem_pieces hpiece '/' hslash
  rw [beq_self_eq_true] at hnot
  cases hnot

theorem segments_ofSegments (hne : segs ≠ []) (h : ∀ s ∈ segs, '/' ∉ s.toList) :
    (ofSegments segs).segments = segs :=
  Text.cutAt_intercalate hne h

/-- The first segments are in front of the path. -/
theorem ofSegments_prefix (hfront : segs <+: path.segments) (hne : segs ≠ []) :
    (ofSegments segs).text.toList <+: path.text.toList := by
  obtain ⟨more, hmore⟩ := hfront
  have htext : "/".intercalate path.segments = path.text := Text.intercalate_cutAt '/' path.text
  rw [← htext, ← hmore, ofSegments, String.toList_intercalate, String.toList_intercalate,
    List.map_append]
  exact Text.intercalate_prefix (mt List.map_eq_nil_iff.mp hne)

theorem segments_eq_nil_cons_of_isAbsolute (h : path.isAbsolute = true) :
    ∃ rest, path.segments = "" :: rest := by
  rw [isAbsolute, beq_iff_eq] at h
  obtain ⟨chars, hchars⟩ := List.head?_eq_some_iff.mp h
  refine ⟨(Text.pieces (· == '/') chars).map String.ofList, ?_⟩
  rw [segments, Text.cutAt, hchars]
  rfl

/-- At a slash, the segments before it and behind it are told apart. -/
theorem segments_append_slash (front more : List Char) :
    segments ⟨String.ofList (front ++ '/' :: more)⟩ =
      segments ⟨String.ofList front⟩ ++ segments ⟨String.ofList more⟩ := by
  rw [segments, segments, segments, Text.cutAt, Text.cutAt, Text.cutAt, String.toList_ofList,
    String.toList_ofList, String.toList_ofList, ← List.map_append]
  have hcut := @Text.pieces_append (· == '/') front more '/' (beq_self_eq_true '/')
  exact congrArg _ hcut

/-- A path that is not empty and does not begin with a slash has a first
segment that is not empty. -/
theorem head?_segments_ne (htext : path.text ≠ "") (hrel : path.isAbsolute = false) :
    path.segments.head? ≠ some "" := by
  obtain ⟨c, chars, hchars⟩ : ∃ c chars, path.text.toList = c :: chars :=
    List.exists_cons_of_ne_nil (mt String.toList_eq_nil_iff.mp htext)
  have hc : (c == '/') = false := by
    rwa [isAbsolute, hchars] at hrel
  rw [segments, Text.cutAt, hchars, Text.pieces, hc, if_neg Bool.false_ne_true]
  intro hempty
  cases hps : Text.pieces (· == '/') chars <;> simp [hps, Text.consFirst] at hempty

/-- A path that is not empty is absolute if its first segment is empty. -/
theorem isAbsolute_iff_head? (htext : path.text ≠ "") :
    path.isAbsolute = true ↔ path.segments.head? = some "" := by
  constructor
  · intro habs
    obtain ⟨rest, hrest⟩ := segments_eq_nil_cons_of_isAbsolute habs
    rw [hrest, List.head?_cons]
  · intro hhead
    by_contra hrel
    exact head?_segments_ne htext (Bool.eq_false_iff.mpr hrel) hhead

/-- Only the empty path has nothing but an empty segment. -/
theorem text_ne_of_segments_ne (h : path.segments ≠ [""]) : path.text ≠ "" := by
  intro hempty
  rw [segments, hempty] at h
  exact h rfl

/-- Where the first segment is not empty, there is no slash in front. -/
theorem isAbsolute_ofSegments (h : ∀ s ∈ segs.head?, s ≠ "" ∧ '/' ∉ s.toList) :
    (ofSegments segs).isAbsolute = false := by
  cases segs with
  | nil => rfl
  | cons first rest =>
    obtain ⟨hempty, hslash⟩ := h first rfl
    obtain ⟨c, chars, hchars⟩ : ∃ c chars, first.toList = c :: chars :=
      List.exists_cons_of_ne_nil (mt String.toList_eq_nil_iff.mp hempty)
    have hc : c ≠ '/' := by
      rintro rfl
      exact hslash (by rw [hchars]; exact List.mem_cons_self)
    have hhead : (ofSegments (first :: rest)).text.toList.head? = some c := by
      rw [ofSegments, String.toList_intercalate, List.map_cons, hchars]
      cases rest with
      | nil => rfl
      | cons next more => rfl
    rw [isAbsolute, hhead, beq_eq_false_iff_ne]
    exact fun heq => hc (Option.some_inj.mp heq)

/-! ## Steps -/

theorem ofSegment?_nil : Component.ofSegment? "" = none := rfl

theorem ofSegment?_dot : Component.ofSegment? "." = none := rfl

/-- A segment says one step, or none. -/
theorem filterMap_ofSegment?_cons (segment : String) (rest : List String) :
    (segment :: rest).filterMap Component.ofSegment? =
      (Component.ofSegment? segment).toList ++ rest.filterMap Component.ofSegment? := by
  cases hsegment : Component.ofSegment? segment with
  | none => rw [List.filterMap_cons_none hsegment]; rfl
  | some component => rw [List.filterMap_cons_some hsegment]; rfl

theorem two_le_rank_of_ofSegment? {segment : String} {component : Component}
    (h : Component.ofSegment? segment = some component) : 2 ≤ component.rank := by
  unfold Component.ofSegment? at h
  split at h
  · cases h
  · split at h
    · obtain rfl := Option.some_inj.mp h
      exact Nat.le_refl 2
    · obtain rfl := Option.some_inj.mp h
      exact Nat.le_succ 2

/-- What stands in front of the steps. -/
def front (path : Path) : List Component :=
  match path.lead? with
  | some "" => [.root]
  | some _ => [.here]
  | none => []

/-- **A path is its lead and its steps.** The segment of the lead says
nothing itself. -/
theorem components_eq (path : Path) : path.components = path.front ++ path.steps := by
  have hbody : path.body.filterMap Component.ofSegment? = path.steps := by
    rw [body, steps]
    split
    next hlead =>
      unfold lead? at hlead
      split at hlead
      next habs =>
        obtain ⟨rest, hrest⟩ := segments_eq_nil_cons_of_isAbsolute habs
        rw [hrest, List.filterMap_cons_none ofSegment?_nil, List.tail_cons]
      next =>
        split at hlead
        next hdot =>
          obtain ⟨rest, hrest⟩ := List.head?_eq_some_iff.mp hdot
          rw [hrest, List.filterMap_cons_none ofSegment?_dot, List.tail_cons]
        · cases hlead
    · rfl
  rw [components, hbody]
  rfl

theorem rank_lt_of_mem_front {component : Component} (h : component ∈ path.front) :
    component.rank < 2 := by
  unfold front at h
  split at h
  · rw [List.mem_singleton.mp h]
    decide
  · rw [List.mem_singleton.mp h]
    decide
  · cases h

theorem two_le_rank_of_mem_steps {component : Component} (h : component ∈ path.steps) :
    2 ≤ component.rank := by
  obtain ⟨segment, -, hsegment⟩ := List.mem_filterMap.mp h
  exact two_le_rank_of_ofSegment? hsegment

theorem mem_components_of_mem_steps {component : Component} (h : component ∈ path.steps) :
    component ∈ path.components := by
  rw [components_eq]
  exact List.mem_append_right _ h

/-- The steps of a path can be told from its components. -/
theorem steps_eq_filter (path : Path) :
    path.steps = path.components.filter fun component => 2 ≤ component.rank := by
  -- what stands in front has a lower rank than any step
  have hfront : path.front.filter (fun component => decide (2 ≤ component.rank)) = [] := by
    rw [List.filter_eq_nil_iff]
    intro component hmem
    have hrank := rank_lt_of_mem_front hmem
    simpa using hrank
  have hsteps : path.steps.filter (fun component => decide (2 ≤ component.rank)) = path.steps := by
    exact List.filter_eq_self.mpr fun component hmem =>
      decide_eq_true (two_le_rank_of_mem_steps hmem)
  rw [components_eq, List.filter_append, hfront, hsteps, List.nil_append]

theorem steps_of_same (h : a.same b = true) : a.steps = b.steps := by
  rw [steps_eq_filter, steps_eq_filter, beq_iff_eq.mp h]

theorem steps_ofSegments (h : ∀ s ∈ segs, '/' ∉ s.toList) :
    (ofSegments segs).steps = segs.filterMap Component.ofSegment? := by
  cases segs with
  | nil => rfl
  | cons first rest => rw [steps, segments_ofSegments (List.cons_ne_nil _ _) h]

/-- Behind the slash of a location stand its names. -/
theorem segments_ofLocation (hne : segs ≠ []) (h : ∀ s ∈ segs, '/' ∉ s.toList) :
    (ofLocation segs).segments = "" :: segs := by
  have htext : ofLocation segs = ⟨String.ofList ([] ++ '/' :: (ofSegments segs).text.toList)⟩ := by
    rw [ofLocation, ofSegments, Path.mk.injEq, ← String.toList_inj, String.toList_append,
      String.toList_ofList, String.toList_ofList]
    rfl
  have hnames := segments_ofSegments hne h
  rw [htext, segments_append_slash, String.ofList_toList, hnames]
  rfl

theorem steps_ofLocation (h : ∀ s ∈ segs, '/' ∉ s.toList) :
    (ofLocation segs).steps = segs.filterMap Component.ofSegment? := by
  cases segs with
  | nil => rfl
  | cons first rest =>
    rw [steps, segments_ofLocation (List.cons_ne_nil _ _) h,
      List.filterMap_cons_none ofSegment?_nil]

/-! ## Joined paths -/

theorem isAbsolute_ofLocation (names : List String) : (ofLocation names).isAbsolute = true := by
  rw [ofLocation, isAbsolute, String.toList_append]
  rfl

theorem join_of_isAbsolute (h : next.isAbsolute = true) : path.join next = next := by
  rw [join, if_pos h]

theorem isAbsolute_join (hpath : path.text ≠ "") (hnext : next.isAbsolute = false) :
    (path.join next).isAbsolute = path.isAbsolute := by
  obtain ⟨c, rest, hchars⟩ : ∃ c rest, path.text.toList = c :: rest :=
    List.exists_cons_of_ne_nil (mt String.toList_eq_nil_iff.mp hpath)
  rw [join, hnext, if_neg Bool.false_ne_true, isAbsolute, isAbsolute, hchars]
  split
  · rw [String.toList_append, hchars]
    rfl
  · rw [String.toList_append, String.toList_append, hchars]
    rfl

/-- **The segments of a joined path**: those of the next path behind those of
the first, whose last slash is the one between the two. -/
theorem segments_join (hpath : path.text ≠ "") (hnext : next.isAbsolute = false) :
    ∃ front, (path.segments = front ∨ path.segments = front ++ [""]) ∧
      (path.join next).segments = front ++ next.segments := by
  have htext (text : String) : (⟨text⟩ : Path) = ⟨String.ofList text.toList⟩ := by
    rw [String.ofList_toList]
  rw [join, hnext, if_neg Bool.false_ne_true]
  split
  next hopen =>
    have hempty : path.text.isEmpty = false := by simpa using hpath
    rw [hempty, Bool.false_or, beq_iff_eq] at hopen
    obtain ⟨front, hfront⟩ := List.getLast?_eq_some_iff.mp hopen
    refine ⟨segments ⟨String.ofList front⟩, .inr ?_, ?_⟩
    · have hcut := segments_append_slash front []
      rw [← hfront, String.ofList_toList] at hcut
      exact hcut
    · have hcut := segments_append_slash front next.text.toList
      rw [htext, String.toList_append, hfront, List.append_assoc, List.singleton_append, hcut,
        String.ofList_toList]
  next =>
    refine ⟨path.segments, .inl rfl, ?_⟩
    have hcut := segments_append_slash path.text.toList next.text.toList
    rw [htext, String.toList_append, String.toList_append, List.append_assoc]
    rw [String.ofList_toList, String.ofList_toList] at hcut
    exact hcut

/-- **The steps of a joined path**: those of the first path, then those of
the next. -/
theorem steps_join (hpath : path.text ≠ "") (hnext : next.isAbsolute = false) :
    (path.join next).steps = path.steps ++ next.steps := by
  obtain ⟨front, hfront | hfront, hjoin⟩ := segments_join hpath hnext
  · rw [steps, steps, steps, hjoin, hfront, List.filterMap_append]
  · rw [steps, steps, steps, hjoin, hfront, List.filterMap_append, List.filterMap_append,
      List.filterMap_cons_none ofSegment?_nil, List.filterMap_nil, List.append_nil]

/-- Joined paths can be joined to a path one after the other. -/
theorem join_join (path : Path) (hnext : next.text ≠ "") (hrel : next.isAbsolute = false)
    (hmore : more.isAbsolute = false) :
    (path.join next).join more = path.join (next.join more) := by
  obtain ⟨front, c, hlast⟩ : ∃ front c, next.text.toList = front ++ [c] := by
    have hne := mt String.toList_eq_nil_iff.mp hnext
    exact ⟨_, _, (List.dropLast_append_getLast hne).symm⟩
  have hopen (before : String) :
      ((before ++ next.text).isEmpty || (before ++ next.text).toList.getLast? == some '/') =
        (next.text.isEmpty || next.text.toList.getLast? == some '/') := by
    have hne : before ++ next.text ≠ "" := by simp [hnext]
    have hempty : next.text.isEmpty = false := by simpa using hnext
    have hempty' : (before ++ next.text).isEmpty = false := by simpa using hne
    rw [hempty, hempty', String.toList_append, hlast, ← List.append_assoc, List.getLast?_concat,
      List.getLast?_concat]
  have hjoin : (next.join more).isAbsolute = false := (isAbsolute_join hnext hmore).trans hrel
  rw [join, hmore, if_neg Bool.false_ne_true, join, hrel, if_neg Bool.false_ne_true,
    join.eq_1 path, hjoin, if_neg Bool.false_ne_true, join.eq_1 next, hmore,
    if_neg Bool.false_ne_true]
  split
  · rw [hopen]
    split
    · rw [String.append_assoc]
    · simp only [String.append_assoc]
  · rw [hopen]
    split
    · simp only [String.append_assoc]
    · simp only [String.append_assoc]

end Path

end DocCoverage
