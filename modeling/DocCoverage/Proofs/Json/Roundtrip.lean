import DocCoverage.Proofs.Json.Depth
import DocCoverage.Proofs.Json.Numbers
import DocCoverage.Proofs.Json.Quoted
/-!
# JSON — what is written is read back

A value is read back from its text, on one line or on many, if it nests no
deeper than the reader goes, and its numbers are read back; what is read is
the value put in order. A value that nests deeper is not read at all
(`value?_render`). The induction is on the depth that is left to the reader, and what is read of the members of
an array or an object follows from what is read of each (`items?_render`,
`fields?_render`).
-/

namespace DocCoverage

namespace Json

variable {value item : Json} {items : List Json} {fields : Fields} {indent : Indent}
  {text rest : List Char} {depth : ℕ} {c : Char}

/-! ## Numbers -/

/-- Whether all numbers inside a value are read back. -/
def NumbersReadBack (value : Json) : Prop :=
  All (fun inner => ((∃ n, inner = int n) ∨ ∃ x, inner = float x) → IsReadBack inner) value

theorem NumbersReadBack.member (h : NumbersReadBack value) {member : Json}
    (hmember : member ∈ value.members) : NumbersReadBack member :=
  (all_iff.mp h).2 member hmember

theorem numbersReadBack_arr :
    NumbersReadBack (arr items) ↔ ∀ item ∈ items, NumbersReadBack item := by
  rw [NumbersReadBack, all_iff]
  simp only [reduceCtorEq, exists_false, or_self, false_imp_iff, true_and]
  rfl

theorem numbersReadBack_obj :
    NumbersReadBack (obj fields) ↔ ∀ field ∈ fields, NumbersReadBack field.2 := by
  rw [NumbersReadBack, all_iff]
  simp only [reduceCtorEq, exists_false, or_self, false_imp_iff, true_and, members,
    List.forall_mem_map]
  rfl

/-- Of a scalar, only the value itself is looked at. -/
theorem numbersReadBack_of_isScalar (h : value.isScalar = true)
    (hnumber : ((∃ n, value = int n) ∨ ∃ x, value = float x) → IsReadBack value) :
    NumbersReadBack value := by
  rw [NumbersReadBack, all_iff]
  refine ⟨hnumber, fun member hmember => ?_⟩
  cases value with
  | arr | obj => cases h
  | null | bool | int | float | str => cases hmember

theorem numbersReadBack_str (s : String) : NumbersReadBack (str s) :=
  numbersReadBack_of_isScalar rfl (by simp)

theorem numbersReadBack_nat {n : ℕ} (h : n < 2 ^ 64) : NumbersReadBack (nat n) :=
  numbersReadBack_of_isScalar rfl fun _ => isReadBack_int (by omega) (by omega)

theorem numbersReadBack_strings (items : List String) : NumbersReadBack (strings items) := by
  refine numbersReadBack_arr.mpr (List.forall_mem_map.mpr fun s _ => numbersReadBack_str s)

theorem numbersReadBack_object {pairs : List (String × Json)}
    (h : ∀ pair ∈ pairs, NumbersReadBack pair.2) : NumbersReadBack (object pairs) :=
  numbersReadBack_obj.mpr fun field hfield => h field ((Fields.ofPairs_spec pairs).2 field hfield)

theorem numbersReadBack_setAt? {new result : Json} {path : List String}
    (hvalue : NumbersReadBack value) (hnew : NumbersReadBack new)
    (hset : value.setAt? new path = some result) : NumbersReadBack result := by
  refine of_setAt? (numbersReadBack_obj.mpr fun _ h => absurd h List.not_mem_nil)
    (fun fields name v h hv => numbersReadBack_obj.mpr fun field hfield => ?_)
    (fun fields name v h hget => numbersReadBack_obj.mp h _ (Fields.mem_of_get? hget)) hvalue hnew
    hset
  rcases Fields.mem_insert hfield with rfl | hfield
  · exact hv
  · exact numbersReadBack_obj.mp h field hfield

theorem IsReadBack.number?_eq (h : IsReadBack value) (hrest : Delimits rest) :
    number? (value.render none [] ++ rest) = some (value, rest) := by
  rw [number?_append hrest, h]
  rfl

/-! ## White space -/

theorem skipSpace_cons (h : isSpace c = false) (rest : List Char) :
    skipSpace (c :: rest) = c :: rest := List.dropWhile_cons_of_neg (by simp [h])

theorem skipSpace_skipSpace (text : List Char) : skipSpace (skipSpace text) = skipSpace text := by
  induction text with
  | nil => rfl
  | cons c rest ih =>
    by_cases hc : isSpace c = true
    · rw [show skipSpace (c :: rest) = skipSpace rest from List.dropWhile_cons_of_pos hc, ih]
    · rw [skipSpace_cons (by simpa using hc), skipSpace_cons (by simpa using hc)]

theorem skipSpace_replicate (n : ℕ) (rest : List Char) :
    skipSpace (List.replicate n ' ' ++ rest) = skipSpace rest := by
  induction n with
  | zero => rfl
  | succ n ih => exact ih

@[simp] theorem skipSpace_lineBreak (indent : Indent) (rest : List Char) :
    skipSpace (indent.lineBreak rest) = skipSpace rest := by
  cases indent with
  | none => rfl
  | some level => exact skipSpace_replicate (2 * level) rest

/-- A value is read behind white space. -/
theorem value?_skipSpace (depth : ℕ) (text : List Char) :
    value? depth (skipSpace text) = value? depth text := by
  cases depth <;> simp only [value?, skipSpace_skipSpace]

theorem value?_lineBreak (depth : ℕ) (indent : Indent) (rest : List Char) :
    value? depth (indent.lineBreak rest) = value? depth rest := by
  rw [← value?_skipSpace, skipSpace_lineBreak, value?_skipSpace]

@[simp] theorem colon_inner (indent : Indent) (rest : List Char) :
    indent.inner.colon rest = indent.colon rest := by cases indent <;> rfl

/-- Behind the colon of a field. -/
theorem exists_colon (indent : Indent) (rest : List Char) : ∃ behind,
    indent.colon rest = ':' :: behind ∧ ∀ depth, value? depth behind = value? depth rest := by
  cases indent with
  | none => exact ⟨rest, rfl, fun _ => rfl⟩
  | some level =>
    refine ⟨' ' :: rest, rfl, fun depth => ?_⟩
    rw [← value?_skipSpace, ← value?_skipSpace depth rest]
    rfl

/-! ## What follows a text -/

@[simp] theorem lineBreak_append (indent : Indent) (text rest : List Char) :
    indent.lineBreak (text ++ rest) = indent.lineBreak text ++ rest := by
  cases indent with
  | none => rfl
  | some level => simp [Indent.lineBreak]

@[simp] theorem colon_append (indent : Indent) (text rest : List Char) :
    indent.colon (text ++ rest) = indent.colon text ++ rest := by
  cases indent <;> rfl

@[simp] theorem quoted_append (s : String) (text rest : List Char) :
    quoted s (text ++ rest) = quoted s text ++ rest := by simp [quoted]

theorem renderItems_append (h : ∀ item ∈ items, ∀ indent text rest,
      item.render indent (text ++ rest) = item.render indent text ++ rest)
    (indent : Indent) (text rest : List Char) :
    renderItems indent items (text ++ rest) = renderItems indent items text ++ rest := by
  induction items with
  | nil => rw [renderItems, renderItems]
  | cons item more ih =>
    obtain ⟨hitem, hmore⟩ := List.forall_mem_cons.mp h
    rw [renderItems, renderItems, ih hmore, hitem, lineBreak_append, List.cons_append]

theorem renderFields_append (h : ∀ field ∈ fields, ∀ indent text rest,
      field.2.render indent (text ++ rest) = field.2.render indent text ++ rest)
    (indent : Indent) (text rest : List Char) :
    renderFields indent fields (text ++ rest) = renderFields indent fields text ++ rest := by
  induction fields with
  | nil => rw [renderFields, renderFields]
  | cons field more ih =>
    obtain ⟨hfield, hmore⟩ := List.forall_mem_cons.mp h
    rw [renderFields, renderFields, ih hmore, hfield, colon_append, quoted_append,
      lineBreak_append, List.cons_append]

/-- **A text goes on with what is written behind it.** -/
theorem render_append (value : Json) (indent : Indent) (text rest : List Char) :
    value.render indent (text ++ rest) = value.render indent text ++ rest := by
  induction value using memberInduction generalizing indent text rest with | h value ih => ?_
  cases value with
  | null => rfl
  | bool b => cases b <;> rfl
  | int n => simp [render]
  | float x => simp [render]
  | str s => exact quoted_append s text rest
  | arr items =>
    cases items with
    | nil => rfl
    | cons item more =>
      obtain ⟨hitem, hmore⟩ := List.forall_mem_cons.mp ih
      rw [render, render, ← List.cons_append, lineBreak_append, renderItems_append hmore, hitem,
        lineBreak_append, List.cons_append]
  | obj fields =>
    cases fields with
    | nil => rfl
    | cons field more =>
      obtain ⟨hfield, hmore⟩ := List.forall_mem_cons.mp (List.forall_mem_map.mp ih)
      rw [render, render, ← List.cons_append, lineBreak_append, renderFields_append hmore, hfield,
        colon_append, quoted_append, lineBreak_append, List.cons_append]

theorem length_le_render (value : Json) (indent : Indent) (rest : List Char) :
    rest.length ≤ (value.render indent rest).length := by
  have happend := render_append value indent [] rest
  rw [List.nil_append] at happend
  rw [happend, List.length_append]
  exact Nat.le_add_left _ _

theorem length_le_lineBreak (indent : Indent) (rest : List Char) :
    rest.length ≤ (indent.lineBreak rest).length := by
  have happend := lineBreak_append indent [] rest
  rw [List.nil_append] at happend
  rw [happend, List.length_append]
  exact Nat.le_add_left _ _

theorem length_le_renderItem (indent : Indent) (item : Json) (rest : List Char) :
    rest.length ≤ (indent.lineBreak (item.render indent rest)).length :=
  (length_le_render item indent rest).trans (length_le_lineBreak indent _)

theorem length_le_renderField (indent : Indent) (field : String × Json) (rest : List Char) :
    rest.length ≤ (indent.lineBreak (quoted field.1 (indent.colon
      (field.2.render indent rest)))).length := by
  have hvalue := length_le_render field.2 indent rest
  have hcolon : (field.2.render indent rest).length ≤
      (indent.colon (field.2.render indent rest)).length := by
    cases indent <;> simp only [Indent.colon, List.length_cons] <;> omega
  have hquoted : (indent.colon (field.2.render indent rest)).length ≤
      (quoted field.1 (indent.colon (field.2.render indent rest))).length := by
    simp only [quoted, List.length_cons, List.length_append]
    omega
  exact ((hvalue.trans hcolon).trans hquoted).trans (length_le_lineBreak indent _)

theorem length_add_le_renderItems (indent : Indent) (items : List Json) (rest : List Char) :
    items.length + rest.length ≤ (renderItems indent items rest).length := by
  induction items with
  | nil => rw [renderItems]; simp
  | cons item more ih =>
    have hitem := length_le_renderItem indent item (renderItems indent more rest)
    rw [renderItems, List.length_cons, List.length_cons]
    omega

theorem length_add_le_renderFields (indent : Indent) (fields : Fields) (rest : List Char) :
    fields.length + rest.length ≤ (renderFields indent fields rest).length := by
  induction fields with
  | nil => rw [renderFields]; simp
  | cons field more ih =>
    have hfield := length_le_renderField indent field (renderFields indent more rest)
    rw [renderFields, List.length_cons, List.length_cons]
    omega

/-! ## Scalars -/

/-- Whether a number can begin like this. -/
def beginsNumber (c : Char) : Bool := c == '-' || Decimal.isDigit c

/-- What is read as a number begins like one. -/
theorem exists_of_number? {read : Json × List Char} (h : number? text = some read) :
    ∃ c rest, text = c :: rest ∧ beginsNumber c = true := by
  cases text with
  | nil => cases h
  | cons c rest =>
    refine ⟨c, rest, rfl, ?_⟩
    by_contra hbegins
    rw [beginsNumber, Bool.or_eq_true, not_or, beq_iff_eq] at hbegins
    obtain ⟨hsign, hdigit⟩ := hbegins
    unfold number? at h
    split at h
    next negative unsigned heq =>
      obtain ⟨-, rfl⟩ : false = negative ∧ c :: rest = unsigned := by
        split at heq
        next hminus => exact absurd (List.cons.inj hminus).1 hsign
        next => exact Prod.mk.inj heq
      simp [List.takeWhile_cons_of_neg hdigit] at h

/-- Nothing else begins like a number. -/
theorem ne_of_beginsNumber (h : beginsNumber c = true) {other : Char}
    (hother : beginsNumber other = false) : c ≠ other := by
  rintro rfl
  rw [h] at hother
  cases hother

theorem isSpace_of_beginsNumber (h : beginsNumber c = true) : isSpace c = false := by
  have h₁ : c ≠ ' ' := ne_of_beginsNumber h (by decide)
  have h₂ : c ≠ '\t' := ne_of_beginsNumber h (by decide)
  have h₃ : c ≠ '\n' := ne_of_beginsNumber h (by decide)
  have h₄ : c ≠ '\r' := ne_of_beginsNumber h (by decide)
  simp [isSpace, h₁, h₂, h₃, h₄]

theorem scalar?_of_beginsNumber (h : beginsNumber c = true) (rest : List Char) :
    scalar? (c :: rest) = number? (c :: rest) := by
  have hother {other : Char} (hno : beginsNumber other = false) : c ≠ other :=
    ne_of_beginsNumber h hno
  unfold scalar?
  split
  next heq => exact absurd (List.cons.inj heq).1 (hother (by decide))
  next heq => exact absurd (List.cons.inj heq).1 (hother (by decide))
  next heq => exact absurd (List.cons.inj heq).1 (hother (by decide))
  next heq => exact absurd (List.cons.inj heq).1 (hother (by decide))
  next => rfl

/-- Where neither an array nor an object begins, a scalar is read. -/
theorem value?_cons_of_ne (hspace : isSpace c = false) (harr : c ≠ '[') (hobj : c ≠ '\x7b')
    (depth : ℕ) (rest : List Char) : value? depth (c :: rest) = scalar? (c :: rest) := by
  cases depth with
  | zero =>
    rw [value?, skipSpace_cons hspace]
    split
    next heq => exact absurd (List.cons.inj heq).1 harr
    next heq => exact absurd (List.cons.inj heq).1 hobj
    next => rfl
  | succ depth =>
    rw [value?, skipSpace_cons hspace]
    split
    next heq => exact absurd (List.cons.inj heq).1 harr
    next heq => exact absurd (List.cons.inj heq).1 hobj
    next => rfl

/-- A number that is read back is read as a value. -/
theorem value?_of_number? {read : Json × List Char} (h : number? text = some read) (depth : ℕ) :
    value? depth text = some read := by
  obtain ⟨c, rest, rfl, hbegins⟩ := exists_of_number? h
  rw [value?_cons_of_ne (isSpace_of_beginsNumber hbegins)
    (ne_of_beginsNumber hbegins (by decide)) (ne_of_beginsNumber hbegins (by decide)),
    scalar?_of_beginsNumber hbegins, h]

/-- **Scalars are read back.** -/
theorem value?_render_of_isScalar (hscalar : value.isScalar = true)
    (hnumbers : NumbersReadBack value) (hrest : Delimits rest) (depth : ℕ) (indent : Indent) :
    value? depth (value.render indent rest) = some (value, rest) := by
  cases value with
  | arr | obj => cases hscalar
  | null => exact value?_cons_of_ne (by decide) (by decide) (by decide) depth _
  | bool b =>
    cases b with
    | true => exact value?_cons_of_ne (by decide) (by decide) (by decide) depth _
    | false => exact value?_cons_of_ne (by decide) (by decide) (by decide) depth _
  | str s =>
    have hread := value?_cons_of_ne (c := '"') (by decide) (by decide) (by decide) depth
      (s.toList.flatMap escape ++ '"' :: rest)
    refine hread.trans ?_
    change (string? (quoted s rest)).map (fun read => (str read.1, read.2)) = _
    rw [string?_quoted]
    rfl
  | int n =>
    have hread := (hnumbers.self (.inl ⟨n, rfl⟩)).number?_eq hrest
    rw [render, List.append_nil] at hread
    rw [render]
    exact value?_of_number? hread depth
  | float x =>
    have hread := (hnumbers.self (.inr ⟨x, rfl⟩)).number?_eq hrest
    rw [render, List.append_nil] at hread
    rw [render]
    exact value?_of_number? hread depth

/-! ## Members -/

theorem delimits_lineBreak (indent : Indent) (h : c ∈ [']', '\x7d']) (rest : List Char) :
    Delimits (indent.lineBreak (c :: rest)) := by
  intro first hfirst
  cases indent with
  | none =>
    obtain rfl := Option.some.inj hfirst
    rw [List.mem_pair] at h
    rcases h with rfl | rfl <;> simp
  | some level =>
    obtain rfl := Option.some.inj hfirst
    simp

theorem delimits_renderItems (hrest : Delimits rest) (indent : Indent) (items : List Json) :
    Delimits (renderItems indent items rest) := by
  cases items with
  | nil => rwa [renderItems]
  | cons item more =>
    rw [renderItems]
    intro first hfirst
    obtain rfl := Option.some.inj hfirst
    simp

theorem delimits_renderFields (hrest : Delimits rest) (indent : Indent) (fields : Fields) :
    Delimits (renderFields indent fields rest) := by
  cases fields with
  | nil => rwa [renderFields]
  | cons field more =>
    rw [renderFields]
    intro first hfirst
    obtain rfl := Option.some.inj hfirst
    simp

/-- Whether a value that nests this deep is read back, in order, and no other
one. -/
def IsReadWithin (depth : ℕ) (value : Json) : Prop :=
  ∀ (indent : Indent) (rest : List Char), Delimits rest →
    value? depth (value.render indent rest) =
      if value.nestsWithin depth then some (value.sorted, rest) else none

/-- **Items are read back** if each of them is. -/
theorem items?_render {more : List Json} (h : ∀ member ∈ item :: more, IsReadWithin depth member)
    {fuel : List Char} (hfuel : more.length < fuel.length) (indent outer : Indent)
    (rest : List Char) :
    items? (value? depth) fuel (indent.lineBreak (item.render indent
        (renderItems indent more (outer.lineBreak (']' :: rest))))) =
      if (item :: more).all (nestsWithin depth) then some ((item :: more).map sorted, rest)
      else none := by
  have hclose : Delimits (outer.lineBreak (']' :: rest)) := delimits_lineBreak outer (by simp) rest
  induction more generalizing item fuel with
  | nil =>
    obtain ⟨x, fuel, rfl⟩ := List.exists_cons_of_length_pos hfuel
    have hitem := h item (List.mem_cons_self ..) indent _ hclose
    rw [items?, renderItems, value?_lineBreak, hitem, List.all_cons, List.all_nil, Bool.and_true]
    by_cases hnests : item.nestsWithin depth = true
    · simp [hnests, skipSpace_cons (c := ']') rfl]
    · simp [hnests]
  | cons second more ih =>
    obtain ⟨x, fuel, rfl⟩ := List.exists_cons_of_length_pos (Nat.zero_lt_of_lt hfuel)
    obtain ⟨hfirst, hmore⟩ := List.forall_mem_cons.mp h
    have hitem := hfirst indent _ (delimits_renderItems hclose indent (second :: more))
    have hrest := ih hmore (Nat.lt_of_succ_lt_succ hfuel)
    rw [items?, value?_lineBreak, hitem, List.all_cons]
    by_cases hnests : item.nestsWithin depth = true
    · rw [if_pos hnests, renderItems, hnests, Bool.true_and]
      simp only [Option.bind_eq_bind, Option.bind_some,
        skipSpace_cons (c := ',') rfl]
      rw [hrest]
      split <;> rfl
    · simp [hnests]

/-- **Fields are read back** if the value of each of them is. -/
theorem fields?_render {field : String × Json} {more : Fields}
    (h : ∀ member ∈ field :: more, IsReadWithin depth member.2) {fuel : List Char}
    (hfuel : more.length < fuel.length) (indent outer : Indent) (rest : List Char) :
    fields? (value? depth) fuel (indent.lineBreak (quoted field.1 (indent.colon
        (field.2.render indent
          (renderFields indent more (outer.lineBreak ('\x7d' :: rest))))))) =
      if (field :: more).all (fun member => member.2.nestsWithin depth) then
        some ((field :: more).map fun member => (member.1, member.2.sorted), rest)
      else none := by
  have hclose : Delimits (outer.lineBreak ('\x7d' :: rest)) :=
    delimits_lineBreak outer (by simp) rest
  have hname (s : String) (text : List Char) : skipSpace (quoted s text) = quoted s text := rfl
  induction more generalizing field fuel with
  | nil =>
    obtain ⟨x, fuel, rfl⟩ := List.exists_cons_of_length_pos hfuel
    obtain ⟨behind, hcolon, hread⟩ := exists_colon indent
      (field.2.render indent (renderFields indent [] (outer.lineBreak ('\x7d' :: rest))))
    have hfirst := h field (List.mem_cons_self ..) indent _ hclose
    rw [renderFields] at hread
    rw [fields?, skipSpace_lineBreak, hcolon, List.all_cons, List.all_nil, Bool.and_true, hname,
      string?_quoted]
    simp only [Option.bind_eq_bind, Option.bind_some, skipSpace_cons (c := ':') rfl, hread, hfirst]
    by_cases hnests : field.2.nestsWithin depth = true
    · simp [hnests, skipSpace_cons (c := '\x7d') rfl]
    · simp [hnests]
  | cons second more ih =>
    obtain ⟨x, fuel, rfl⟩ := List.exists_cons_of_length_pos (Nat.zero_lt_of_lt hfuel)
    obtain ⟨behind, hcolon, hread⟩ := exists_colon indent
      (field.2.render indent (renderFields indent (second :: more)
        (outer.lineBreak ('\x7d' :: rest))))
    obtain ⟨hfield, hmore⟩ := List.forall_mem_cons.mp h
    have hfirst := hfield indent _ (delimits_renderFields hclose indent (second :: more))
    have hrest := ih hmore (Nat.lt_of_succ_lt_succ hfuel)
    rw [fields?, skipSpace_lineBreak, hcolon, List.all_cons, hname, string?_quoted]
    simp only [Option.bind_eq_bind, Option.bind_some, skipSpace_cons (c := ':') rfl, hread, hfirst]
    by_cases hnests : field.2.nestsWithin depth = true
    · rw [if_pos hnests, hnests, Bool.true_and, renderFields]
      simp only [Option.bind_some, skipSpace_cons (c := ',') rfl]
      rw [hrest]
      split <;> rfl
    · simp [hnests]

/-! ## Values -/

/-- No value begins like the end of an array. -/
theorem skipSpace_render_ne (hnumbers : NumbersReadBack value) (hrest : Delimits rest)
    (indent : Indent) (tail : List Char) :
    skipSpace (value.render indent rest) ≠ ']' :: tail := by
  intro heq
  by_cases hscalar : value.isScalar = true
  · -- a scalar is read, and nothing is read from a closing bracket
    have hread := value?_render_of_isScalar hscalar hnumbers hrest 0 indent
    rw [← value?_skipSpace, heq, value?_cons_of_ne rfl (by decide) (by decide)] at hread
    obtain ⟨c, more, hc, hbegins⟩ := exists_of_number?
      (show number? (']' :: tail) = _ from hread)
    obtain rfl := (List.cons.inj hc).1
    cases hbegins
  · cases value with
    | arr items =>
      cases items <;>
      · rw [render, skipSpace_cons rfl] at heq
        exact absurd (List.cons.inj heq).1 (by decide)
    | obj fields =>
      cases fields <;>
      · rw [render, skipSpace_cons rfl] at heq
        exact absurd (List.cons.inj heq).1 (by decide)
    | null | bool | int | float | str => exact hscalar rfl

theorem array?_render (hitems : ∀ item ∈ items, IsReadWithin depth item)
    (hnumbers : NumbersReadBack (arr items)) (indent : Indent) (rest : List Char) :
    value? (depth + 1) ((arr items).render indent rest) =
      if items.all (nestsWithin depth) then some ((arr items).sorted, rest) else none := by
  cases items with
  | nil => rfl
  | cons item more =>
    have hclose : Delimits (indent.lineBreak (']' :: rest)) :=
      delimits_lineBreak indent (by simp) rest
    have hdelimits := delimits_renderItems hclose indent.inner more
    have hitem : NumbersReadBack item := hnumbers.member (List.mem_cons_self ..)
    rw [render, value?, skipSpace_cons rfl]
    change array? _ _ = _
    rw [array?, skipSpace_lineBreak]
    split
    next heq => exact absurd heq (skipSpace_render_ne hitem hdelimits indent.inner _)
    next =>
      rw [items?_render hitems ?_ indent.inner indent rest, sorted, sortedItems_eq]
      · split <;> rfl
      · have h₁ := length_le_lineBreak indent (']' :: rest)
        have h₂ := length_add_le_renderItems indent.inner more (indent.lineBreak (']' :: rest))
        have h₃ := length_le_renderItem indent.inner item
          (renderItems indent.inner more (indent.lineBreak (']' :: rest)))
        rw [List.length_cons] at h₁
        omega

theorem objectBody?_render (hfields : ∀ field ∈ fields, IsReadWithin depth field.2)
    (indent : Indent) (rest : List Char) :
    value? (depth + 1) ((obj fields).render indent rest) =
      if fields.all (fun field => field.2.nestsWithin depth) then some ((obj fields).sorted, rest)
      else none := by
  cases fields with
  | nil => rfl
  | cons field more =>
    rw [render, value?, skipSpace_cons rfl]
    change objectBody? _ _ = _
    have hquote (text : List Char) : skipSpace (quoted field.1 text) = quoted field.1 text := rfl
    rw [objectBody?, skipSpace_lineBreak, hquote]
    split
    next heq => exact absurd (List.cons.inj heq).1 (by decide)
    next =>
      -- the first colon is written as those of the fields inside
      rw [← colon_inner, fields?_render hfields ?_ indent.inner indent rest, sorted,
        sortedFields_eq]
      · split <;> rfl
      · have h₁ := length_le_lineBreak indent ('\x7d' :: rest)
        have h₂ := length_add_le_renderFields indent.inner more (indent.lineBreak ('\x7d' :: rest))
        have h₃ := length_le_renderField indent.inner field
          (renderFields indent.inner more (indent.lineBreak ('\x7d' :: rest)))
        rw [List.length_cons] at h₁
        omega

/-- **A value is read back from its text**, put in order, if it nests no deeper
than the reader goes, and not read at all if it does. -/
theorem value?_render (hnumbers : NumbersReadBack value) (depth : ℕ) :
    IsReadWithin depth value := by
  induction depth generalizing value with
  | zero =>
    intro indent rest hrest
    cases value with
    | arr items => cases items <;> rfl
    | obj fields => cases fields <;> rfl
    | null | bool | int | float | str => exact value?_render_of_isScalar rfl hnumbers hrest 0 indent
  | succ depth ih =>
    intro indent rest hrest
    cases value with
    | arr items =>
      exact array?_render (fun item hitem => ih (hnumbers.member hitem)) hnumbers indent rest
    | obj fields =>
      rw [nestsWithin, members, List.all_map]
      exact objectBody?_render (fun field hfield =>
        ih (hnumbers.member (List.mem_map_of_mem hfield))) indent rest
    | null | bool | int | float | str =>
      exact value?_render_of_isScalar rfl hnumbers hrest _ indent

/-- **A text is read back**, on one line or on many, with no more than line
feeds behind it. -/
theorem parse?_render (hnumbers : NumbersReadBack value) (indent : Indent) (lines : ℕ) :
    parse? (String.ofList (value.render indent (List.replicate lines '\n'))) =
      if value.nestsWithin maximumDepth then some value.sorted else none := by
  have hdelimits : Delimits (List.replicate lines '\n') := by
    intro c hc
    rw [List.eq_of_mem_replicate (List.mem_of_head? hc)]
    simp
  have hspace : skipSpace (List.replicate lines '\n') = [] :=
    List.dropWhile_eq_nil_iff.mpr fun c hc => by rw [List.eq_of_mem_replicate hc]; rfl
  rw [parse?, String.toList_ofList, value?_render hnumbers maximumDepth indent _ hdelimits]
  by_cases hnests : value.nestsWithin maximumDepth = true
  · simp only [if_pos hnests, hspace, List.isEmpty_nil, if_true]
  · simp only [if_neg hnests]

/-- **A value in order is read back from a file** that holds its text and a
line feed, if it does not nest too deep. -/
theorem parse?_pretty (hordered : Ordered value) (hnumbers : NumbersReadBack value) :
    parse? (value.pretty ++ "\n") = if value.nestsWithin maximumDepth then some value else none := by
  have htext : value.pretty ++ "\n" = String.ofList (value.render (some 0) ['\n']) := by
    rw [show ['\n'] = [] ++ ['\n'] from rfl, render_append, String.ofList_append]
    rfl
  have hread := parse?_render hnumbers (some 0) 1
  rwa [hordered.sorted_eq, List.replicate_one, ← htext] at hread

end Json

end DocCoverage
