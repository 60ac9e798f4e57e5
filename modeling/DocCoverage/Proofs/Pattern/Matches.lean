import DocCoverage.Proofs.Pattern.Growth
/-!
# Patterns — the matches that are kept

The matches that do not overlap are found one after the other, each at the
first place behind the one before. So a match is kept if it does not begin
inside one that begins before it and is kept itself (`Declaration.Kept`). What a
declaration names in a text are the names of the matches that are kept
(`Declaration.mem_names_iff`). Behind a text that no match leaves, the matches
of another text are kept as in this text alone (`Declaration.kept_append_iff`).
-/

namespace DocCoverage

/-! ## Searches -/

namespace Search

variable {State Result : Type} {search : Search State Result} {passed : Option Char} {x : Char}
  {text rest : List Char} {found : Found Result}

/-- Whether every match passes something. -/
def IsWide (search : Search State Result) : Prop :=
  ∀ passed text, ∀ found ∈ search.ends search.start passed text, 0 < found.width

theorem IsWide.ends_nil (wide : search.IsWide) (passed : Option Char) :
    search.ends search.start passed [] = [] := by
  refine List.eq_nil_iff_forall_not_mem.mpr fun found hfound => ?_
  have hpassed := wide passed [] found hfound
  rw [ends, List.mem_flatMap] at hfound
  obtain ⟨move, -, hmove⟩ := hfound
  cases move with
  | finish result => exact absurd hpassed (List.mem_singleton.mp hmove ▸ Nat.lt_irrefl 0)
  | pass next => cases hmove

theorem IsWide.pos_of_firstFrom (wide : search.IsWide)
    (h : search.firstFrom passed text = some found) : 0 < found.width := by
  cases text with
  | nil => exact wide passed [] found (List.mem_of_head? h)
  | cons x rest =>
    rw [firstFrom] at h
    rcases Option.or_eq_some_iff.mp h with h | ⟨-, h⟩
    · exact wide passed (x :: rest) found (List.mem_of_head? h)
    · obtain ⟨later, -, rfl⟩ := Option.map_eq_some_iff.mp h
      exact Nat.add_pos_left Nat.one_pos _

/-- From a place where a match begins the others are those behind it. -/
theorem allFrom_zero_of_some (fair : search.IsFair)
    (h : (search.ends search.start passed (x :: rest)).head? = some found) :
    search.allFrom 0 passed (x :: rest) =
      found.result :: search.allFrom (found.width - 1) (some x) rest := by
  rw [allFrom, first?_eq fair, firstFrom, h, Option.some_or]

/-- From a place where no match begins the matches are those behind it. -/
theorem allFrom_zero_of_none (fair : search.IsFair) (wide : search.IsWide)
    (h : (search.ends search.start passed (x :: rest)).head? = none) :
    search.allFrom 0 passed (x :: rest) = search.allFrom 0 (some x) rest := by
  rw [allFrom, first?_eq fair, firstFrom, h, Option.none_or]
  cases rest with
  | nil =>
    rw [firstFrom, wide.ends_nil]
    rfl
  | cons y more =>
    rw [allFrom, first?_eq fair]
    cases hlater : search.firstFrom (some x) (y :: more) with
    | none => rfl
    | some later =>
      obtain ⟨width, hwidth⟩ := Nat.exists_eq_add_of_lt (wide.pos_of_firstFrom hlater)
      rw [Nat.zero_add] at hwidth
      simp only [Option.map_some, Found.behind, hwidth, Nat.add_sub_cancel_left,
        Nat.add_sub_cancel]
      rw [allFrom]

end Search

/-! ## Declarations -/

/-- The place behind the first characters of a text, so many of them. -/
def Cursor.place (text : List Char) (i : ℕ) : Cursor := ⟨(text.take i).getLast?, text.drop i⟩

namespace Declaration

variable {d : Declaration} {c c' : Cursor} {m : List Char × Cursor} {text front more : List Char}
  {name : List Char} {i j e : ℕ}

theorem suffix_of_name? {named : List Char × Cursor} (h : name? c = some named) :
    named.2.ahead <:+ c.ahead ∧ named.2.ahead.length < c.ahead.length := by
  unfold name? at h
  split at h
  · cases h
  next x more htake =>
    obtain rfl := Option.some.inj h
    have hlength := congrArg List.length
      (List.takeWhile_append_dropWhile (p := Text.isWordChar) (l := c.ahead))
    rw [htake, List.length_append, List.length_cons] at hlength
    exact ⟨List.dropWhile_suffix _, show (c.ahead.dropWhile Text.isWordChar).length < _ by omega⟩

/-- A match of a declaration passes a name. -/
theorem suffix_of_mem_ends (h : m ∈ d.ends c) :
    m.2.ahead <:+ c.ahead ∧ m.2.ahead.length < c.ahead.length := by
  obtain ⟨e, he, hm⟩ := List.mem_flatMap.mp h
  obtain ⟨named, hnamed, hend⟩ := List.mem_flatMap.mp hm
  obtain ⟨finish, hfinish, rfl⟩ := List.mem_map.mp hend
  obtain ⟨hname, hshorter⟩ := suffix_of_name? (Option.mem_toList.mp hnamed)
  have hlead := Pattern.suffix_of_mem_ends he
  have htail := Pattern.suffix_of_mem_ends hfinish
  exact ⟨(htail.trans hname).trans hlead,
    Nat.lt_of_le_of_lt htail.length_le (Nat.lt_of_lt_of_le hshorter hlead.length_le)⟩

theorem isWide_search (d : Declaration) : d.search.IsWide := by
  intro passed text found hfound
  rw [ends_search] at hfound
  obtain ⟨m, hm, rfl⟩ := List.mem_map.mp hfound
  exact Nat.sub_pos_of_lt (suffix_of_mem_ends hm).2

/-! ### Matches at a place -/

/-- The match that begins at a place of a text: its name, and the place where
it ends. -/
def matchAt? (d : Declaration) (text : List Char) (i : ℕ) : Option (List Char × ℕ) :=
  (d.ends (Cursor.place text i)).head?.map fun m => (m.1, text.length - m.2.ahead.length)

theorem matchAt?_eq_some_iff : d.matchAt? text i = some (name, e) ↔
    ∃ finish, (d.ends (Cursor.place text i)).head? = some (name, finish) ∧
      e = text.length - finish.ahead.length := by
  rw [matchAt?, Option.map_eq_some_iff]
  constructor
  · rintro ⟨m, hm, heq⟩
    obtain ⟨rfl, rfl⟩ := Prod.mk.inj heq
    exact ⟨m.2, hm, rfl⟩
  · rintro ⟨finish, hm, rfl⟩
    exact ⟨_, hm, rfl⟩

/-- A match ends behind the place where it begins. -/
theorem lt_of_matchAt? (h : d.matchAt? text i = some (name, e)) : i < e ∧ e ≤ text.length := by
  obtain ⟨finish, hhead, rfl⟩ := matchAt?_eq_some_iff.mp h
  have hshorter : finish.ahead.length < (text.drop i).length :=
    (suffix_of_mem_ends (List.mem_of_head? hhead)).2
  rw [List.length_drop] at hshorter
  omega

theorem lt_length_of_isSome (h : (d.matchAt? text i).isSome = true) : i < text.length := by
  obtain ⟨⟨name, e⟩, hm⟩ := Option.isSome_iff_exists.mp h
  obtain ⟨hlt, hle⟩ := lt_of_matchAt? hm
  exact Nat.lt_of_lt_of_le hlt hle

/-- What a search tells of the match at a place. -/
theorem head?_search_place (d : Declaration) (front : List Char) (more : List Char) :
    (d.search.ends d.search.start front.getLast? more).head? =
      (d.matchAt? (front ++ more) front.length).map fun m => ⟨m.1, m.2 - front.length⟩ := by
  have hplace : Cursor.place (front ++ more) front.length = ⟨front.getLast?, more⟩ := by
    rw [Cursor.place, List.take_left, List.drop_left]
  rw [ends_search, List.head?_map, matchAt?, hplace, Option.map_map]
  refine Option.map_congr fun m hm => ?_
  have hshorter := (suffix_of_mem_ends (List.mem_of_head? hm)).2
  simp only [foundAt, Function.comp_apply, List.length_append, Found.mk.injEq, true_and]
  omega

/-! ### Matches that are kept -/

/-- Whether the match that begins at a place is kept: there is one, and none
that begins before it and is kept goes past the place. -/
def Kept (d : Declaration) (text : List Char) (i : ℕ) : Prop :=
  (d.matchAt? text i).isSome = true ∧
    ∀ j, j < i → Kept d text j → ∀ m, d.matchAt? text j = some m → m.2 ≤ i
termination_by i

theorem kept_iff : d.Kept text i ↔ (d.matchAt? text i).isSome = true ∧
    ∀ j, j < i → d.Kept text j → ∀ m, d.matchAt? text j = some m → m.2 ≤ i := by
  rw [Kept]

/-- **Where a match that runs into another one runs as far as it**, a match is
kept if none that begins before it runs past it, whether kept or not. -/
theorem kept_iff_of_trans
    (htrans : ∀ k j i m m', k < j → j < i → d.matchAt? text k = some m →
      d.matchAt? text j = some m' → (d.matchAt? text i).isSome = true → j < m.2 → i < m'.2 →
        i < m.2) :
    d.Kept text i ↔ (d.matchAt? text i).isSome = true ∧
      ∀ j, j < i → ∀ m, d.matchAt? text j = some m → m.2 ≤ i := by
  rw [kept_iff]
  refine and_congr_right fun hi => ⟨fun hkept j => ?_, fun hall j hlt _ => hall j hlt⟩
  induction j using Nat.strongRecOn with | ind j ih => ?_
  intro hlt m hm
  by_cases hj : d.Kept text j
  · exact hkept j hlt hj m hm
  · -- the match that hides this one does not run past the place either
    rw [kept_iff, not_and] at hj
    have hhidden := hj (by rw [hm]; rfl)
    push Not at hhidden
    obtain ⟨k, hk, -, m', hm', hinto⟩ := hhidden
    by_contra hpast
    exact absurd (ih k hk (Nat.lt_trans hk hlt) m' hm')
      (Nat.not_le_of_gt (htrans k j i m' m hk hlt hm' hm hi hinto (Nat.lt_of_not_le hpast)))

/-- What the matches found up to a place cover behind it: no match that is
kept goes further, and if anything is covered one goes that far. -/
structure Covered (d : Declaration) (text : List Char) (i covered : ℕ) : Prop where
  within (j : ℕ) (m : List Char × ℕ) : j < i → d.Kept text j → d.matchAt? text j = some m →
    m.2 ≤ i + covered
  reaches : covered ≠ 0 →
    ∃ j name, j < i ∧ d.Kept text j ∧ d.matchAt? text j = some (name, i + covered)

theorem covered_zero (d : Declaration) (text : List Char) : d.Covered text 0 0 :=
  ⟨fun _ _ hlt => absurd hlt (Nat.not_lt_zero _), fun h => absurd rfl h⟩

/-- A place that is covered is not one where a match is kept. -/
theorem Covered.not_kept {n : ℕ} (h : d.Covered text i (n + 1)) : ¬ d.Kept text i := by
  intro hkept
  obtain ⟨j, name, hlt, hj, hmatch⟩ := h.reaches (Nat.succ_ne_zero n)
  have hle := (kept_iff.mp hkept).2 j hlt hj _ hmatch
  exact absurd hle (by simp)

/-- A place that is not covered is one where a match is kept if there is
one. -/
theorem Covered.kept_iff (h : d.Covered text i 0) :
    d.Kept text i ↔ (d.matchAt? text i).isSome = true := by
  rw [Declaration.kept_iff, and_iff_left_iff_imp]
  exact fun _ j hlt hj m hm => h.within j m hlt hj hm

/-- One step inside a match. -/
theorem Covered.succ {n : ℕ} (h : d.Covered text i (n + 1)) : d.Covered text (i + 1) n where
  within j m hlt hj hm := by
    rcases Nat.lt_succ_iff_lt_or_eq.mp hlt with hlt | rfl
    · have := h.within j m hlt hj hm
      omega
    · exact absurd hj h.not_kept
  reaches _ := by
    obtain ⟨j, name, hlt, hj, hmatch⟩ := h.reaches (Nat.succ_ne_zero n)
    exact ⟨j, name, Nat.lt_succ_of_lt hlt, hj, by rw [hmatch, Nat.add_right_comm, Nat.add_assoc]⟩

/-- One step past a place where no match begins. -/
theorem Covered.skip (h : d.Covered text i 0) (hnone : d.matchAt? text i = none) :
    d.Covered text (i + 1) 0 where
  within j m hlt hj hm := by
    rcases Nat.lt_succ_iff_lt_or_eq.mp hlt with hlt | rfl
    · exact Nat.le_succ_of_le (h.within j m hlt hj hm)
    · rw [hnone] at hm
      cases hm
  reaches h := absurd rfl h

/-- One step into the match that begins at a place. -/
theorem Covered.enter (h : d.Covered text i 0) (hmatch : d.matchAt? text i = some (name, e)) :
    d.Covered text (i + 1) (e - i - 1) := by
  obtain ⟨hlt, -⟩ := lt_of_matchAt? hmatch
  have hend : i + 1 + (e - i - 1) = e := by omega
  have hkept : d.Kept text i := h.kept_iff.mpr (by rw [hmatch]; rfl)
  refine ⟨fun j m hj hkeptj hm => ?_, fun _ => ⟨i, name, Nat.lt_succ_self i, hkept, ?_⟩⟩
  · rw [hend]
    rcases Nat.lt_succ_iff_lt_or_eq.mp hj with hj | rfl
    · exact Nat.le_trans (h.within j m hj hkeptj hm) (Nat.le_of_lt hlt)
    · rw [hmatch] at hm
      obtain rfl := Option.some.inj hm
      exact Nat.le_refl e
  · rw [hend, hmatch]

/-- **What a search names from a place on** are the names of the matches that
are kept there and behind. -/
theorem mem_allFrom_iff (d : Declaration) {covered : ℕ}
    (h : d.Covered (front ++ more) front.length covered) :
    name ∈ d.search.allFrom covered front.getLast? more ↔
      ∃ i e, front.length ≤ i ∧ d.Kept (front ++ more) i ∧
        d.matchAt? (front ++ more) i = some (name, e) := by
  induction more generalizing front covered with
  | nil =>
    refine iff_of_false List.not_mem_nil ?_
    rintro ⟨i, e, hle, -, hmatch⟩
    have hlt := lt_of_matchAt? hmatch
    rw [List.append_nil] at hlt
    omega
  | cons x rest ih =>
    have hlast : (front ++ [x]).getLast? = some x := List.getLast?_concat
    have hnext {covered : ℕ} (h : d.Covered (front ++ x :: rest) (front.length + 1) covered) :
        name ∈ d.search.allFrom covered (some x) rest ↔
          ∃ i e, front.length < i ∧ d.Kept (front ++ x :: rest) i ∧
            d.matchAt? (front ++ x :: rest) i = some (name, e) := by
      have hstep := @ih (front ++ [x]) covered
      rw [hlast, List.append_assoc, List.singleton_append, List.length_append] at hstep
      exact hstep h
    cases covered with
    | succ n =>
      -- the place belongs to a match that is kept, so none is kept here
      rw [Search.allFrom, hnext h.succ]
      refine exists_congr fun i => exists_congr fun e => and_congr_left ?_
      rintro ⟨hkept, -⟩
      refine ⟨Nat.le_of_lt, fun hle => Nat.lt_of_le_of_ne hle ?_⟩
      rintro rfl
      exact h.not_kept hkept
    | zero =>
      have hhead := d.head?_search_place front (x :: rest)
      cases hmatch : d.matchAt? (front ++ x :: rest) front.length with
      | none =>
        rw [hmatch, Option.map_none] at hhead
        rw [Search.allFrom_zero_of_none d.isFair_search d.isWide_search hhead, hnext (h.skip hmatch)]
        refine exists_congr fun i => exists_congr fun e => and_congr_left ?_
        rintro ⟨-, hhere⟩
        refine ⟨Nat.le_of_lt, fun hle => Nat.lt_of_le_of_ne hle ?_⟩
        rintro rfl
        rw [hmatch] at hhere
        cases hhere
      | some m =>
        obtain ⟨name', e'⟩ := m
        rw [hmatch, Option.map_some] at hhead
        have hkept : d.Kept (front ++ x :: rest) front.length :=
          h.kept_iff.mpr (by rw [hmatch]; rfl)
        rw [Search.allFrom_zero_of_some d.isFair_search hhead, List.mem_cons,
          hnext (h.enter hmatch)]
        constructor
        · rintro (rfl | ⟨i, e, hlt, hi, hm⟩)
          · exact ⟨front.length, e', Nat.le_refl _, hkept, hmatch⟩
          · exact ⟨i, e, Nat.le_of_lt hlt, hi, hm⟩
        · rintro ⟨i, e, hle, hi, hm⟩
          rcases Nat.eq_or_lt_of_le hle with rfl | hlt
          · rw [hmatch] at hm
            exact .inl (Prod.mk.inj (Option.some.inj hm)).1.symm
          · exact .inr ⟨i, e, hlt, hi, hm⟩

/-- **A declaration names what is kept.** -/
theorem mem_names_iff (d : Declaration) (text : List Char) (name : List Char) :
    name ∈ d.names text ↔
      ∃ i e, d.Kept text i ∧ d.matchAt? text i = some (name, e) := by
  have hall : name ∈ d.names text ↔ _ := @mem_allFrom_iff [] text name d 0 (d.covered_zero text)
  rw [hall]
  simp only [List.nil_append, List.length_nil, Nat.zero_le, true_and]

/-! ### Matches behind another text -/

/-- Where a match ends does not hang on what was passed, if nothing is asked of
it in front of the name. -/
theorem ends_congr (h : d.lead.isUnanchored = true) (hahead : c.ahead = c'.ahead) :
    d.ends c = d.ends c' := by
  have hnamed (es : List Cursor) : es.flatMap d.namedEnds =
      (es.map Cursor.ahead).flatMap fun ahead => d.namedEnds ⟨none, ahead⟩ := by
    rw [List.flatMap_map]
    rfl
  rw [ends, ends, hnamed, hnamed, Pattern.map_ahead_ends h hahead]

/-- A match is found behind another text as it is in a text alone. -/
theorem matchAt?_append (h : d.lead.isUnanchored = true) (front text : List Char) (i : ℕ) :
    d.matchAt? (front ++ text) (front.length + i) =
      (d.matchAt? text i).map fun m => (m.1, front.length + m.2) := by
  have hahead : (Cursor.place (front ++ text) (front.length + i)).ahead =
      (Cursor.place text i).ahead := List.drop_length_add_append i
  rw [matchAt?, matchAt?, ends_congr h hahead, Option.map_map]
  refine Option.map_congr fun m hm => ?_
  have hshorter : m.2.ahead.length < (text.drop i).length :=
    (suffix_of_mem_ends (List.mem_of_head? hm)).2
  rw [List.length_drop] at hshorter
  simp only [Function.comp_apply, List.length_append, Prod.mk.injEq, true_and]
  omega

/-- In front of a wall, if the tail has no way around it or the gate is still
ahead, the matches are those in a text that ends there. -/
theorem matchAt?_append_wall {w : Char} (hi : i ≤ text.length) (hlead : d.lead.refuses w = true)
    (hw : Text.isWordChar w = false)
    (htail : d.tail.refuses w = true ∨ ∃ gate, Text.isWordChar gate = false ∧
      d.lead.refuses gate = true ∧ d.tail.isGated gate w = true ∧ gate ∈ text.drop i)
    (more : List Char) : d.matchAt? (text ++ w :: more) i = d.matchAt? text i := by
  have hplace : Cursor.place (text ++ w :: more) i =
      (Cursor.place text i).followedBy (w :: more) := by
    rw [Cursor.place, List.take_append_of_le_length hi, List.drop_append_of_le_length hi]
    rfl
  have hends : d.ends ((Cursor.place text i).followedBy (w :: more)) =
      (d.ends (Cursor.place text i)).map fun m => (m.1, m.2.followedBy (w :: more)) :=
    ends_followedBy hlead hw htail
  rw [matchAt?, matchAt?, hplace, hends, List.head?_map, Option.map_map]
  refine Option.map_congr fun m _ => ?_
  simp only [Function.comp_apply, Cursor.followedBy_ahead, List.length_append, Prod.mk.injEq,
    true_and]
  omega

/-- **Behind a text that no match leaves** the same matches are kept as in the
text behind it alone. -/
theorem kept_append_iff (h : d.lead.isUnanchored = true) {front text : List Char}
    (hinside : ∀ j < front.length, ∀ m, d.matchAt? (front ++ text) j = some m →
      m.2 ≤ front.length) (i : ℕ) :
    d.Kept (front ++ text) (front.length + i) ↔ d.Kept text i := by
  induction i using Nat.strongRecOn with | ind i ih => ?_
  rw [kept_iff, kept_iff, matchAt?_append h, Option.isSome_map]
  refine and_congr_right fun _ => ⟨fun hbefore j hlt hj m hm => ?_, fun hbefore j hlt hj m hm => ?_⟩
  · have hle := hbefore (front.length + j) (Nat.add_lt_add_left hlt _) ((ih j hlt).mpr hj)
      (m.1, front.length + m.2) (by rw [matchAt?_append h, hm]; rfl)
    exact Nat.le_of_add_le_add_left hle
  · rcases Nat.lt_or_ge j front.length with hfront | hback
    · exact Nat.le_add_right_of_le (hinside j hfront m hm)
    · obtain ⟨j, rfl⟩ := Nat.exists_eq_add_of_le hback
      have hlt : j < i := Nat.lt_of_add_lt_add_left hlt
      rw [matchAt?_append h] at hm
      obtain ⟨inner, hinner, rfl⟩ := Option.map_eq_some_iff.mp hm
      exact Nat.add_le_add_left (hbefore j hlt ((ih j hlt).mp hj) inner hinner) _

end Declaration

end DocCoverage
