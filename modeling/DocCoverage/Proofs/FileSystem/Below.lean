import DocCoverage.Proofs.FileSystem.Along
/-!
# File systems — below two locations

Steps that never climb above the place where they begin stay below it
(`along_of_within`). Two locations below which the same things stand can
therefore not be told apart by such steps (`contentFrom?_of_sameBelow`),
whatever stands around them.
-/

namespace DocCoverage

open DocCoverage.Path (Component)

namespace Path

variable {way down : Location} {steps front more : List Component} {path next : Path}

/-- The way down on which steps end that begin on one, unless they climb
above the place where it begins. -/
def within : Location → List Component → Option Location
  | way, [] => some way
  | way, .root :: rest | way, .here :: rest => within way rest
  | way, .up :: rest => if way = [] then none else within way.dropLast rest
  | way, .name text :: rest => within (way ++ [text]) rest

/-- A path stays inside if its steps never climb above where they begin. -/
def Inside (path : Path) : Prop := (within [] path.steps).isSome

instance (path : Path) : Decidable path.Inside := inferInstanceAs (Decidable (_ = true))

/-- Below the place, a step up leads back. -/
theorem within_up (h : way ≠ []) (rest : List Component) :
    within way (.up :: rest) = within way.dropLast rest :=
  if_neg h

theorem within_append (way : Location) (steps more : List Component) :
    within way (steps ++ more) = (within way steps).bind fun down => within down more := by
  fun_induction within way steps with
  | case1 way => rfl
  | case2 way rest ih => exact ih
  | case3 way rest ih => exact ih
  | case4 rest => rfl
  | case5 way rest hway ih =>
    rw [List.cons_append, within_up hway]
    exact ih
  | case6 way text rest ih => exact ih

/-- On the way, steps have not climbed above it either. -/
theorem isSome_within_of_prefix (h : (within way steps).isSome) (hfront : front <+: steps) :
    (within way front).isSome := by
  obtain ⟨more, rfl⟩ := hfront
  rw [within_append] at h
  exact Option.isSome_of_isSome_bind h

/-- Names lead down. -/
theorem isSome_within_of_names (h : ∀ component ∈ steps, component ≠ .up) (way : Location) :
    (within way steps).isSome := by
  fun_induction within way steps with
  | case1 way => rfl
  | case2 way rest ih => exact ih (List.forall_mem_cons.mp h).2
  | case3 way rest ih => exact ih (List.forall_mem_cons.mp h).2
  | case4 rest => exact absurd rfl (List.forall_mem_cons.mp h).1
  | case5 way rest hway ih => exact absurd rfl (List.forall_mem_cons.mp h).1
  | case6 way text rest ih => exact ih (List.forall_mem_cons.mp h).2

end Path

namespace FileSystem

open DocCoverage.Path (within)

variable {fs : FileSystem} {base base' way down : Location} {steps : List Component}
  {segments : List String}

/-- Steps that stay below a location end below it. -/
theorem along_of_within (base : Location) (h : within way steps = some down) :
    along (base ++ way) steps = base ++ down := by
  fun_induction within way steps with
  | case1 way => rw [Option.some_inj.mp h, along, List.foldl_nil]
  | case2 way rest ih => exact ih h
  | case3 way rest ih => exact ih h
  | case4 rest => cases h
  | case5 way rest hway ih =>
    rw [← ih h, ← List.dropLast_append_of_ne_nil hway]
    rfl
  | case6 way text rest ih =>
    rw [← ih h, ← List.append_assoc]
    rfl

/-- Below both locations stand the same things. -/
def SameBelow (fs : FileSystem) (base base' : Location) : Prop :=
  ∀ way, fs.entry? (base ++ way) = fs.entry? (base' ++ way)

/-- Directories with the same listing have the same things below them. -/
theorem sameBelow_of_listing? (hsome : (fs.root.listing? base).isSome)
    (heq : fs.root.listing? base = fs.root.listing? base') : fs.SameBelow base base' := by
  obtain ⟨members, hmembers⟩ := Option.isSome_iff_exists.mp hsome
  rw [hmembers] at heq
  intro way
  have hbase := Listing.entry?_append hmembers way
  have hbase' := Listing.entry?_append heq.symm way
  exact hbase.trans hbase'.symm

namespace SameBelow

theorem symm (h : fs.SameBelow base base') : fs.SameBelow base' base := fun way => (h way).symm

variable (h : fs.SameBelow base base')
include h

theorem entry?_along (hin : (within way steps).isSome) :
    fs.entry? (along (base ++ way) steps) = fs.entry? (along (base' ++ way) steps) := by
  obtain ⟨down, hdown⟩ := Option.isSome_iff_exists.mp hin
  rw [along_of_within base hdown, along_of_within base' hdown, h down]

/-- Steps that stay below them meet the same things. -/
theorem alikeAlong (hin : (within way steps).isSome) :
    AlikeAlong fs fs (base ++ way) (base' ++ way) steps := by
  intro front hfront
  rw [h.entry?_along (Path.isSome_within_of_prefix hin hfront)]

/-- **What is read below them is the same.** -/
theorem contentFrom?_eq (hin : (within way (segments.filterMap Component.ofSegment?)).isSome) :
    fs.contentFrom? (base ++ way) segments = fs.contentFrom? (base' ++ way) segments := by
  refine contentFrom?_of_alikeAlong (h.alikeAlong hin) ?_
  rw [contentAt?, contentAt?, h.entry?_along hin]

end SameBelow

end FileSystem

end DocCoverage
