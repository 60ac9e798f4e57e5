import DocCoverage.CommandLine.Command
/-!
# Command line — flags that only concern the display

The flags for JSON, quiet and verbose output can be left out of the arguments
of a check, and nothing changes in what else is asked for
(`CheckOptions.read_withoutDisplay`). Such a flag takes in what was put off,
so that with it a reading is further than without it, by at most what is put
off (`CheckOptions.Follows`).
-/

namespace DocCoverage

/-! ## Arguments -/

namespace Flag

/-- The flags that only concern the display. -/
def display : List Flag := [json, quiet, verbose]

/-- Whether a letter is that of a flag that only concerns the display. -/
def isDisplayLetter (c : Char) : Bool := display.any fun flag => flag.letter? == some c

end Flag

/-- Whether something given is a flag that only concerns the display. -/
def Given.isDisplay : Given → Bool
  | .flag given => Flag.display.contains given
  | _ => false

/-- Whether an argument says nothing but flags that only concern the display:
one by its long name, or some by their letters. -/
def saysOnlyDisplay (text : String) : Bool :=
  Flag.display.any (fun flag => text == "--" ++ flag.name) ||
    match text.toList with
    | '-' :: letters => !letters.isEmpty && letters.all Flag.isDisplayLetter
    | _ => false

/-- Arguments without those that say nothing but flags that only concern the
display. Behind two dashes alone, no argument is a flag. -/
def withoutDisplay : List String → List String
  | [] => []
  | text :: more =>
    if text = "--" then text :: more
    else if saysOnlyDisplay text then withoutDisplay more
    else text :: withoutDisplay more

/-! ## What an argument says -/

namespace Grammar

variable {State : Type} {grammar : Grammar State} {reading next : Reading State} {given : Given}
  {pending : Pending} {text : List Char}

/-- Taking in what was put off leaves nothing to take in. -/
theorem settle_frame (h : grammar.settle reading = .ok next) : next.pending = .nothing ∧
    next.operands = reading.operands ∧ next.onlyOperands = reading.onlyOperands := by
  unfold settle at h
  split at h
  next hnothing =>
    obtain rfl := Except.ok.inj h
    exact ⟨hnothing, rfl, rfl⟩
  next => cases h
  next =>
    split at h
    next =>
      obtain rfl := Except.ok.inj h
      exact ⟨rfl, rfl, rfl⟩
    next => cases h

theorem settle_of_nothing (h : reading.pending = .nothing) :
    grammar.settle reading = .ok reading := by
  rw [settle, h]

theorem settle_onlyOperands (h : grammar.settle reading = .ok next) :
    grammar.settle { reading with onlyOperands := true } = .ok { next with onlyOperands := true } := by
  unfold settle at h ⊢
  split at h
  next hnothing =>
    obtain rfl := Except.ok.inj h
    simp only [hnothing]
  next => cases h
  next given hcomplete =>
    split at h
    next state haccept =>
      obtain rfl := Except.ok.inj h
      simp only [hcomplete, haccept]
    next => cases h

theorem take_eq_ok_iff : grammar.take reading given = .ok next ↔ ∃ settled state,
    grammar.settle reading = .ok settled ∧ grammar.accept settled.state given = .ok state ∧
      { settled with state := state } = next := by
  rw [take]
  cases grammar.settle reading with
  | error stop => simp
  | ok settled =>
    cases haccept : grammar.accept settled.state given with
    | error stop => simp [haccept]
    | ok state => simp [haccept]

theorem postpone_eq_ok_iff : grammar.postpone reading pending = .ok next ↔ ∃ settled,
    grammar.settle reading = .ok settled ∧ { settled with pending := pending } = next := by
  rw [postpone]
  cases grammar.settle reading with
  | error stop => simp
  | ok settled => simp

theorem readOperand_eq_ok_iff {text : String} : grammar.readOperand reading text = .ok next ↔
    reading.operands < grammar.operands ∧ ∃ settled, grammar.settle reading = .ok settled ∧
      { settled with
        pending := .complete (.operand text)
        operands := settled.operands + 1 } = next := by
  rw [readOperand, postpone]
  split
  next hroom =>
    cases grammar.settle reading with
    | error stop => simp
    | ok settled => simp [hroom]
  next hroom => simp [hroom]

/-- **What an argument behind two dashes says** does not depend on how far
reading has come. -/
theorem readLong_cases (h : grammar.readLong reading text = .ok next) :
    (∃ flag, text = flag.name.toList ∧
      ∀ reading, grammar.readLong reading text = grammar.take reading (.flag flag)) ∨
    (∃ option value, ∀ reading,
      grammar.readLong reading text = grammar.take reading (.option option value)) ∨
    ∃ option, ∀ reading,
      grammar.readLong reading text = grammar.postpone reading (.awaiting option) := by
  unfold readLong at h ⊢
  dsimp only at h ⊢
  cases hflag : grammar.flagNamed? (String.ofList (text.takeWhile (· != '='))) with
  | some flag =>
    rw [hflag] at h
    cases hdrop : text.dropWhile (· != '=') with
    | cons mark value =>
      rw [hdrop] at h
      cases h
    | nil =>
      refine .inl ⟨flag, ?_, fun _ => rfl⟩
      have hname := List.find?_some hflag
      rw [beq_iff_eq] at hname
      have hwhole : text.takeWhile (· != '=') ++ [] = text :=
        hdrop ▸ List.takeWhile_append_dropWhile
      rw [hname, String.toList_ofList, ← List.append_nil (List.takeWhile _ _), hwhole]
  | none =>
    rw [hflag] at h
    cases hoption : grammar.optionNamed? (String.ofList (text.takeWhile (· != '='))) with
    | none =>
      rw [hoption] at h
      cases h
    | some option =>
      cases text.dropWhile (· != '=') with
      | nil => exact .inr (.inr ⟨option, fun _ => rfl⟩)
      | cons mark value => exact .inr (.inl ⟨option, String.ofList value, fun _ => rfl⟩)

/-- **How an argument is read** does not depend on how far reading has come,
as long as flags are understood. -/
theorem readArgument_cases (grammar : Grammar State) (text : String) :
    (text = "--" ∧ ∀ reading : Reading State, reading.onlyOperands = false →
      grammar.readArgument reading text = .ok { reading with onlyOperands := true }) ∨
    (∃ name, text.toList = '-' :: '-' :: name ∧ name ≠ [] ∧ ∀ reading : Reading State,
      reading.onlyOperands = false →
        grammar.readArgument reading text = grammar.readLong reading name) ∨
    (∃ letters, text.toList = '-' :: letters ∧ letters ≠ [] ∧ letters.head? ≠ some '-' ∧
      ∀ reading : Reading State, reading.onlyOperands = false →
        grammar.readArgument reading text = grammar.readLetters reading letters) ∨
    (∀ letters, text.toList = '-' :: letters → letters = []) ∧
      ∀ reading : Reading State, reading.onlyOperands = false →
        grammar.readArgument reading text = grammar.readPlain reading text := by
  cases htext : text.toList with
  | nil =>
    refine .inr (.inr (.inr ⟨?_, fun reading honly => ?_⟩))
    · rintro letters ⟨⟩
    · rw [readArgument, honly, if_neg Bool.false_ne_true, htext]
  | cons first rest =>
    by_cases hfirst : first = '-'
    · obtain rfl := hfirst
      cases rest with
      | nil =>
        refine .inr (.inr (.inr ⟨fun _ h => (List.cons.inj h).2.symm, fun reading honly => ?_⟩))
        rw [readArgument, honly, if_neg Bool.false_ne_true, htext]
        rfl
      | cons second more =>
        by_cases hsecond : second = '-'
        · obtain rfl := hsecond
          cases more with
          | nil =>
            refine .inl ⟨String.toList_inj.mp htext, fun reading honly => ?_⟩
            rw [readArgument, honly, if_neg Bool.false_ne_true, htext]
            rfl
          | cons third behind =>
            refine .inr (.inl ⟨third :: behind, rfl, List.cons_ne_nil _ _, fun reading honly => ?_⟩)
            rw [readArgument, honly, if_neg Bool.false_ne_true, htext]
            rfl
        · refine .inr (.inr (.inl ⟨second :: more, rfl, List.cons_ne_nil _ _,
            fun h => hsecond (Option.some.inj h), fun reading honly => ?_⟩))
          rw [readArgument, honly, if_neg Bool.false_ne_true, htext]
          simp [hsecond]
    · refine .inr (.inr (.inr ⟨fun _ h => absurd (List.cons.inj h).1 hfirst,
        fun reading honly => ?_⟩))
      rw [readArgument, honly, if_neg Bool.false_ne_true, htext]
      simp [hfirst]

end Grammar

/-! ## Options -/

theorem exists_of_map_eq_ok {ε α β : Type} {x : Except ε α} {f : α → β} {b : β}
    (h : x.map f = .ok b) : ∃ a, x = .ok a ∧ f a = b := by
  cases x with
  | error e => cases h
  | ok a => exact ⟨a, rfl, Except.ok.inj h⟩

namespace CheckOptions

variable {o o' : CheckOptions} {given : Given} {flag : Flag}

/-- The options but for what concerns the display. -/
def withoutDisplay (o : CheckOptions) : CheckOptions :=
  { o with json := false, quiet := false, verbose := false }

/-- A flag that only concerns the display says nothing else. -/
theorem withoutDisplay_of_accept (hflag : flag ∈ Flag.display) (h : o.accept (.flag flag) = .ok o') :
    o'.withoutDisplay = o.withoutDisplay := by
  cases flag with
  | pullRequest | force | help | version => simp [Flag.display] at hflag
  | json | quiet | verbose =>
    obtain ⟨on, -, rfl⟩ := exists_of_map_eq_ok h
    rfl

/-- Everything else is taken in whatever was said of the display. -/
theorem accept_withoutDisplay (hgiven : given.isDisplay = false) (h : o.accept given = .ok o') :
    o.withoutDisplay.accept given = .ok o'.withoutDisplay := by
  cases given with
  | flag flag =>
    cases flag with
    | json | quiet | verbose => cases hgiven
    | force | help | version => cases h
    | pullRequest =>
      obtain ⟨on, hon, rfl⟩ := exists_of_map_eq_ok h
      exact congrArg (Except.map _) hon
  | option option value =>
    cases option with
    | directory => cases h
    | settingsFile | coverageFloor | qualityFloor | override | baseRef | headRef =>
      obtain ⟨v, hv, rfl⟩ := exists_of_map_eq_ok h
      exact congrArg (Except.map _) hv
  | operand text =>
    obtain ⟨v, hv, rfl⟩ := exists_of_map_eq_ok h
    exact congrArg (Except.map _) hv

end CheckOptions

/-! ## Readings -/

/-- A reading but for what was said of the display. -/
def Reading.withoutDisplay (reading : Reading CheckOptions) : Reading CheckOptions :=
  { reading with state := reading.state.withoutDisplay }

namespace CheckOptions

variable {reading next settled short : Reading CheckOptions} {pending : Pending} {text : String}
  {letters : List Char} {arguments : List String}

/-- What is put off is no flag that only concerns the display. -/
def PutsOff (pending : Pending) : Prop :=
  ∀ given, pending = .complete given → given.isDisplay = false

/-- **A reading without the flags that only concern the display** has come as
far as one with them, or has put off what the other has taken in with such a
flag. -/
def Follows (reading short : Reading CheckOptions) : Prop :=
  PutsOff reading.pending ∧ (short = reading.withoutDisplay ∨
    reading.pending = .nothing ∧ grammar.settle short = .ok reading.withoutDisplay)

theorem follows_withoutDisplay (h : PutsOff reading.pending) :
    Follows reading reading.withoutDisplay := ⟨h, .inl rfl⟩

theorem putsOff_nothing : PutsOff .nothing := fun _ h => nomatch h

theorem settle_withoutDisplay (hputs : PutsOff reading.pending)
    (h : grammar.settle reading = .ok settled) :
    grammar.settle reading.withoutDisplay = .ok settled.withoutDisplay := by
  obtain ⟨state, pending, operands, only⟩ := reading
  cases pending with
  | nothing =>
    obtain rfl := Except.ok.inj h
    rfl
  | awaiting option => cases h
  | complete given =>
    cases haccept : state.accept given with
    | error stop =>
      simp only [Grammar.settle, grammar, haccept] at h
      cases h
    | ok state' =>
      simp only [Grammar.settle, grammar, haccept] at h
      obtain rfl := Except.ok.inj h
      simp only [Grammar.settle, grammar, Reading.withoutDisplay,
        accept_withoutDisplay (hputs given rfl) haccept]

/-- **Both readings are as far once they have taken in all.** -/
theorem Follows.settle (hfollows : Follows reading short)
    (h : grammar.settle reading = .ok settled) :
    grammar.settle short = .ok settled.withoutDisplay := by
  obtain ⟨hputs, rfl | ⟨hnothing, hshort⟩⟩ := hfollows
  · exact settle_withoutDisplay hputs h
  · rw [Grammar.settle_of_nothing hnothing] at h
    obtain rfl := Except.ok.inj h
    exact hshort

theorem Follows.frame (hfollows : Follows reading short) :
    short.operands = reading.operands ∧ short.onlyOperands = reading.onlyOperands := by
  obtain ⟨-, rfl | ⟨-, hshort⟩⟩ := hfollows
  · exact ⟨rfl, rfl⟩
  · obtain ⟨-, hoperands, honly⟩ := Grammar.settle_frame hshort
    exact ⟨hoperands.symm, honly.symm⟩

/-! ## One argument -/

/-- **A flag that only concerns the display can be left out.** -/
theorem Follows.take_of_isDisplay (hfollows : Follows reading short) {flag : Flag}
    (hflag : flag ∈ Flag.display) (h : grammar.take reading (.flag flag) = .ok next) :
    Follows next short ∧ next.onlyOperands = reading.onlyOperands := by
  obtain ⟨settled, state, hsettle, haccept, rfl⟩ := Grammar.take_eq_ok_iff.mp h
  obtain ⟨hnothing, -, honly⟩ := Grammar.settle_frame hsettle
  have hstate : state.withoutDisplay = settled.state.withoutDisplay :=
    withoutDisplay_of_accept hflag haccept
  refine ⟨⟨hnothing ▸ putsOff_nothing, .inr ⟨hnothing, ?_⟩⟩, honly⟩
  rw [hfollows.settle hsettle, Reading.withoutDisplay, Reading.withoutDisplay, hstate]

/-- Everything else is read alike. -/
theorem Follows.take (hfollows : Follows reading short) {given : Given}
    (hgiven : given.isDisplay = false) (h : grammar.take reading given = .ok next) :
    (∃ more, grammar.take short given = .ok more ∧ Follows next more) ∧
      next.onlyOperands = reading.onlyOperands := by
  obtain ⟨settled, state, hsettle, haccept, rfl⟩ := Grammar.take_eq_ok_iff.mp h
  obtain ⟨hnothing, -, honly⟩ := Grammar.settle_frame hsettle
  refine ⟨⟨_, Grammar.take_eq_ok_iff.mpr ⟨_, state.withoutDisplay, hfollows.settle hsettle,
    accept_withoutDisplay hgiven haccept, rfl⟩, ?_⟩, honly⟩
  exact follows_withoutDisplay (hnothing ▸ putsOff_nothing)

theorem Follows.postpone (hfollows : Follows reading short) (hputs : PutsOff pending)
    (h : grammar.postpone reading pending = .ok next) :
    (∃ more, grammar.postpone short pending = .ok more ∧ Follows next more) ∧
      next.onlyOperands = reading.onlyOperands := by
  obtain ⟨settled, hsettle, rfl⟩ := Grammar.postpone_eq_ok_iff.mp h
  obtain ⟨-, -, honly⟩ := Grammar.settle_frame hsettle
  exact ⟨⟨_, Grammar.postpone_eq_ok_iff.mpr ⟨_, hfollows.settle hsettle, rfl⟩,
    follows_withoutDisplay hputs⟩, honly⟩

theorem Follows.readOperand (hfollows : Follows reading short)
    (h : grammar.readOperand reading text = .ok next) :
    (∃ more, grammar.readOperand short text = .ok more ∧ Follows next more) ∧
      next.onlyOperands = reading.onlyOperands := by
  obtain ⟨hroom, settled, hsettle, rfl⟩ := Grammar.readOperand_eq_ok_iff.mp h
  obtain ⟨-, -, honly⟩ := Grammar.settle_frame hsettle
  rw [← hfollows.frame.1] at hroom
  refine ⟨⟨_, Grammar.readOperand_eq_ok_iff.mpr ⟨hroom, _, hfollows.settle hsettle, rfl⟩, ?_⟩, honly⟩
  refine follows_withoutDisplay fun given hgiven => ?_
  obtain rfl := Pending.complete.inj hgiven
  rfl

theorem Follows.readPlain (hfollows : Follows reading short)
    (h : grammar.readPlain reading text = .ok next) :
    (∃ more, grammar.readPlain short text = .ok more ∧ Follows next more) ∧
      next.onlyOperands = reading.onlyOperands := by
  cases hpending : reading.pending with
  | awaiting option =>
    obtain ⟨-, rfl | ⟨hnothing, -⟩⟩ := hfollows
    · rw [Grammar.readPlain, hpending] at h
      obtain rfl := Except.ok.inj h
      refine ⟨⟨_, ?_, follows_withoutDisplay fun given hgiven => ?_⟩, rfl⟩
      · rw [Grammar.readPlain, show reading.withoutDisplay.pending = _ from hpending]
        rfl
      · obtain rfl := Pending.complete.inj hgiven
        rfl
    · rw [hnothing] at hpending
      cases hpending
  | nothing | complete given =>
    have hread : grammar.readOperand reading text = .ok next := by
      rwa [Grammar.readPlain, hpending] at h
    obtain ⟨⟨more, hmore, hfollow⟩, honly⟩ := hfollows.readOperand hread
    refine ⟨⟨more, ?_, hfollow⟩, honly⟩
    -- what is put off can be taken in, so that no value is awaited
    rw [Grammar.readPlain]
    split
    next option hawaits =>
      obtain ⟨-, settled, hsettle, -⟩ := Grammar.readOperand_eq_ok_iff.mp hmore
      rw [Grammar.settle, hawaits] at hsettle
      cases hsettle
    next => exact hmore

/-- **Letters that are understood only concern the display**, and can be left
out. The others ask for help or the version. -/
theorem Follows.readLetters (hfollows : Follows reading short)
    (h : grammar.readLetters reading letters = .ok next) :
    (Follows next short ∧ next.onlyOperands = reading.onlyOperands) ∧
      letters.all Flag.isDisplayLetter = true := by
  induction letters generalizing reading with
  | nil =>
    obtain rfl := Except.ok.inj h
    exact ⟨⟨hfollows, rfl⟩, rfl⟩
  | cons letter more ih =>
    rw [Grammar.readLetters] at h
    cases hflag : grammar.flagLettered? letter with
    | none =>
      rw [hflag] at h
      cases h
    | some flag =>
      cases htake : grammar.take reading (.flag flag) with
      | error stop =>
        simp only [hflag, htake] at h
        cases h
      | ok taken =>
        simp only [hflag, htake] at h
        have hletter := List.find?_some hflag
        rw [beq_iff_eq] at hletter
        have hdisplay : flag ∈ Flag.display := by
          obtain ⟨settled, state, -, haccept, -⟩ := Grammar.take_eq_ok_iff.mp htake
          cases flag with
          | json | quiet | verbose => decide
          | pullRequest | force => cases hletter
          | help | version => cases haccept
        obtain ⟨hfollow, honly⟩ := hfollows.take_of_isDisplay hdisplay htake
        obtain ⟨⟨hnext, honly'⟩, hall⟩ := ih hfollow h
        refine ⟨⟨hnext, honly'.trans honly⟩, ?_⟩
        rw [List.all_cons, hall, Bool.and_true]
        exact List.any_eq_true.mpr ⟨flag, hdisplay, beq_iff_eq.mpr hletter⟩

/-- What two dashes and a name say, unless it only concerns the display. -/
theorem Follows.readLong (hfollows : Follows reading short) {name : List Char}
    (hname : ∀ flag ∈ Flag.display, name ≠ flag.name.toList)
    (h : grammar.readLong reading name = .ok next) :
    (∃ more, grammar.readLong short name = .ok more ∧ Follows next more) ∧
      next.onlyOperands = reading.onlyOperands := by
  rcases Grammar.readLong_cases h with ⟨flag, rfl, hread⟩ | ⟨option, value, hread⟩ | ⟨option, hread⟩
  · rw [hread] at h ⊢
    refine hfollows.take ?_ h
    rw [Given.isDisplay, List.contains_eq_mem, decide_eq_false_iff_not]
    exact fun hflag => hname flag hflag rfl
  · rw [hread] at h ⊢
    exact hfollows.take rfl h
  · rw [hread] at h ⊢
    exact hfollows.postpone (fun _ hgiven => nomatch hgiven) h

/-- **An argument that says nothing but flags for the display can be left
out.** -/
theorem Follows.of_saysOnlyDisplay (hfollows : Follows reading short)
    (honly : reading.onlyOperands = false) (hsaid : saysOnlyDisplay text = true)
    (h : grammar.readArgument reading text = .ok next) :
    Follows next short ∧ next.onlyOperands = reading.onlyOperands := by
  rw [saysOnlyDisplay, Bool.or_eq_true] at hsaid
  rcases hsaid with hlong | hletters
  · obtain ⟨flag, hflag, hname⟩ := List.any_eq_true.mp hlong
    obtain rfl := eq_of_beq hname
    rw [Grammar.readArgument, honly, if_neg Bool.false_ne_true] at h
    have htake : grammar.take reading (.flag flag) = .ok next := by
      cases flag with
      | json | quiet | verbose => exact h
      | pullRequest | force | help | version => simp [Flag.display] at hflag
    exact hfollows.take_of_isDisplay hflag htake
  · split at hletters
    next letters htext =>
      rw [Bool.and_eq_true, Bool.not_eq_true', List.isEmpty_eq_false_iff] at hletters
      obtain ⟨hne, hall⟩ := hletters
      have hdash : letters.head? ≠ some '-' := by
        intro hhead
        cases List.all_eq_true.mp hall _ (List.mem_of_head? hhead)
      rcases grammar.readArgument_cases text with
        ⟨rfl, -⟩ | ⟨name, hname, -, -⟩ | ⟨letters', hletters', -, -, hread⟩ | ⟨hplain, -⟩
      · exact absurd (congrArg List.head? (List.cons.inj htext).2.symm) hdash
      · rw [hname] at htext
        exact absurd (congrArg List.head? (List.cons.inj htext).2.symm) hdash
      · rw [hletters'] at htext
        obtain rfl := (List.cons.inj htext).2
        rw [hread reading honly] at h
        exact (hfollows.readLetters h).1
      · exact absurd (hplain letters htext) hne
    next => cases hletters

/-- **Every other argument is read alike.** -/
theorem Follows.readArgument (hfollows : Follows reading short)
    (honly : reading.onlyOperands = false) (hsaid : saysOnlyDisplay text = false)
    (h : grammar.readArgument reading text = .ok next) :
    (∃ more, grammar.readArgument short text = .ok more ∧ Follows next more) ∧
      next.onlyOperands = (text == "--") := by
  have honlyShort : short.onlyOperands = false := hfollows.frame.2.trans honly
  rcases grammar.readArgument_cases text with
    ⟨rfl, hread⟩ | ⟨name, hname, hne, hread⟩ | ⟨letters, hletters, hne, -, hread⟩ | ⟨hplain, hread⟩
  · rw [hread reading honly] at h
    obtain rfl := Except.ok.inj h
    refine ⟨⟨_, hread short honlyShort, ?_⟩, rfl⟩
    obtain ⟨hputs, rfl | ⟨hnothing, hshort⟩⟩ := hfollows
    · exact ⟨hputs, .inl rfl⟩
    · exact ⟨hputs, .inr ⟨hnothing, Grammar.settle_onlyOperands hshort⟩⟩
  · have hdashes : (text == "--") = false := by
      refine beq_eq_false_iff_ne.mpr fun heq => hne ?_
      rw [heq] at hname
      exact (List.cons.inj (List.cons.inj hname).2).2.symm
    rw [hread reading honly] at h
    rw [hread short honlyShort, hdashes, ← honly]
    refine hfollows.readLong (fun flag hflag heq => ?_) h
    -- the name of a flag for the display is not said here
    obtain rfl : text = "--" ++ flag.name := by
      rw [← String.toList_inj, hname, heq, String.toList_append]
      rfl
    rw [saysOnlyDisplay, Bool.or_eq_false_iff] at hsaid
    exact List.any_eq_false.mp hsaid.1 flag hflag (beq_self_eq_true _)
  · rw [hread reading honly] at h
    have hall := (hfollows.readLetters h).2
    rw [saysOnlyDisplay, hletters, Bool.or_eq_false_iff] at hsaid
    simp only [hall, List.isEmpty_eq_false_iff.mpr hne] at hsaid
    cases hsaid.2
  · have hdashes : (text == "--") = false := by
      refine beq_eq_false_iff_ne.mpr fun heq => ?_
      exact absurd (hplain ['-'] (heq ▸ rfl)) (List.cons_ne_nil _ _)
    rw [hread reading honly] at h
    rw [hread short honlyShort, hdashes, ← honly]
    exact hfollows.readPlain h

/-! ## All arguments -/

/-- **Arguments are read alike without the flags for the display.** -/
theorem Follows.readAll (hfollows : Follows reading short)
    (h : grammar.readAll reading arguments = .ok o) :
    grammar.readAll short (if reading.onlyOperands then arguments else
      DocCoverage.withoutDisplay arguments) = .ok o.withoutDisplay := by
  induction arguments generalizing reading short with
  | nil =>
    have hnil : (if reading.onlyOperands then [] else DocCoverage.withoutDisplay []) = [] := by
      split <;> rfl
    obtain ⟨settled, hsettle, rfl⟩ := exists_of_map_eq_ok h
    rw [hnil, Grammar.readAll, hfollows.settle hsettle]
    rfl
  | cons text rest ih =>
    obtain ⟨next, hnext, hrest⟩ : ∃ next, grammar.readArgument reading text = .ok next ∧
        grammar.readAll next rest = .ok o := by
      rw [Grammar.readAll] at h
      split at h
      next next hnext => exact ⟨next, hnext, h⟩
      next => cases h
    cases honly : reading.onlyOperands with
    | true =>
      rw [Grammar.readArgument, if_pos honly] at hnext
      obtain ⟨⟨more, hmore, hfollow⟩, honly'⟩ := hfollows.readOperand hnext
      have hread := ih hfollow hrest
      rw [honly', honly, if_pos rfl] at hread
      rw [if_pos rfl, Grammar.readAll, Grammar.readArgument,
        if_pos (hfollows.frame.2.trans honly), hmore]
      exact hread
    | false =>
      rw [if_neg Bool.false_ne_true, DocCoverage.withoutDisplay]
      by_cases hdashes : text = "--"
      · obtain rfl := hdashes
        obtain ⟨⟨more, hmore, hfollow⟩, honly'⟩ := hfollows.readArgument honly (by decide) hnext
        have hread := ih hfollow hrest
        rw [honly', if_pos (beq_self_eq_true _)] at hread
        rw [if_pos rfl, Grammar.readAll, hmore]
        exact hread
      · rw [if_neg hdashes]
        cases hsaid : saysOnlyDisplay text with
        | true =>
          obtain ⟨hfollow, honly'⟩ := hfollows.of_saysOnlyDisplay honly hsaid hnext
          have hread := ih hfollow hrest
          rw [honly', honly, if_neg Bool.false_ne_true] at hread
          rw [if_pos rfl]
          exact hread
        | false =>
          obtain ⟨⟨more, hmore, hfollow⟩, honly'⟩ := hfollows.readArgument honly hsaid hnext
          have hread := ih hfollow hrest
          rw [honly', beq_eq_false_iff_ne.mpr hdashes, if_neg Bool.false_ne_true] at hread
          rw [if_neg Bool.false_ne_true, Grammar.readAll, hmore]
          exact hread

/-- **The flags for the display can be left out of the arguments**, and what
else is asked for stays the same. -/
theorem read_withoutDisplay (h : grammar.read plain arguments = .ok o) :
    grammar.read plain (DocCoverage.withoutDisplay arguments) = .ok o.withoutDisplay :=
  (follows_withoutDisplay putsOff_nothing).readAll h

/-- **Arguments that differ only in the flags for the display** ask for checks
that differ only in these. -/
theorem withoutDisplay_eq_of_ofArguments {arguments' : List String}
    (h : Command.ofArguments arguments = .ok (.check o))
    (h' : Command.ofArguments arguments' = .ok (.check o'))
    (hsame : DocCoverage.withoutDisplay arguments' = DocCoverage.withoutDisplay arguments) :
    o'.withoutDisplay = o.withoutDisplay := by
  have hread {arguments : List String} {o : CheckOptions}
      (h : Command.ofArguments arguments = .ok (.check o)) :
      grammar.read plain arguments = .ok o := by
    unfold Command.ofArguments at h
    split at h
    · obtain ⟨init, -, heq⟩ := exists_of_map_eq_ok h
      cases heq
    · cases h
    · split at h
      next => cases h
      next options hoptions =>
        split at h
        · obtain rfl := Command.check.inj (Except.ok.inj h)
          exact hoptions
        · cases h
  have hshort := read_withoutDisplay (hread h')
  rw [hsame, read_withoutDisplay (hread h)] at hshort
  exact (Except.ok.inj hshort).symm

end CheckOptions

end DocCoverage
