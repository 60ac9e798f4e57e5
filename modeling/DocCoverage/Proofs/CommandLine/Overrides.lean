import DocCoverage.CommandLine.Run
import DocCoverage.Proofs.Settings.Keys
/-!
# Command line — overrides, one after the other

Overrides are made in order, up to the first that is refused
(`exists_error_iff`). Keys that are apart from all of them hold what
they held before (`get?_of_overridden`), so that a key holds what the last
override of it says, unless a later one leads through it or to it
(`set_holds`).
-/

namespace DocCoverage

namespace CommandLine

open SettingsStore (Apart Holds keyOf)

variable {store store' : SettingsStore} {overrides more : List (String × Json)} {name key : String}
  {value : Json} {error : SettingsError}

/-! ## Runs of overrides -/

theorem overridden_cons_eq_ok_iff : overridden store ((name, value) :: more) = .ok store' ↔
    ∃ next, store.set name value = .ok next ∧ overridden next more = .ok store' := by
  rw [overridden]
  cases store.set name value with
  | ok next => simp
  | error error => simp

theorem overridden_cons_eq_error_iff : overridden store ((name, value) :: more) = .error error ↔
    store.set name value = .error error ∨
      ∃ next, store.set name value = .ok next ∧ overridden next more = .error error := by
  rw [overridden]
  cases store.set name value with
  | ok next => simp
  | error error => simp

/-- **An override that is refused** by what those in front of it have made of
the store, because its key is invalid. -/
def Refuses (store : SettingsStore) (overrides : List (String × Json)) : Prop :=
  ∃ front name value back made, overrides = front ++ (name, value) :: back ∧
    overridden store front = .ok made ∧ made.set name value = .error (.invalidKey name)

/-- **Overrides fail with the first that is refused.** -/
theorem exists_error_iff : (∃ error, overridden store overrides = .error error) ↔
    Refuses store overrides := by
  induction overrides generalizing store with
  | nil =>
    refine iff_of_false (fun ⟨_, h⟩ => nomatch h) ?_
    rintro ⟨front, name, value, back, made, heq, -⟩
    exact List.cons_ne_nil _ _ (List.append_eq_nil_iff.mp heq.symm).2
  | cons first more ih =>
    obtain ⟨name, value⟩ := first
    constructor
    · rintro ⟨error, h⟩
      rcases overridden_cons_eq_error_iff.mp h with hset | ⟨next, hset, hmore⟩
      · obtain rfl := SettingsStore.eq_invalidKey_of_set hset
        exact ⟨[], name, value, more, store, rfl, rfl, hset⟩
      · obtain ⟨front, name', value', back, made, rfl, hmade, hrefused⟩ := ih.mp ⟨error, hmore⟩
        exact ⟨(name, value) :: front, name', value', back, made, rfl,
          overridden_cons_eq_ok_iff.mpr ⟨next, hset, hmade⟩, hrefused⟩
    · rintro ⟨front, name', value', back, made, heq, hmade, hrefused⟩
      cases front with
      | nil =>
        obtain ⟨hfirst, -⟩ := List.cons.inj heq
        obtain ⟨rfl, rfl⟩ := Prod.mk.inj hfirst
        obtain rfl := Except.ok.inj hmade
        exact ⟨_, overridden_cons_eq_error_iff.mpr (.inl hrefused)⟩
      | cons second front =>
        obtain ⟨rfl, rfl⟩ := List.cons.inj heq
        obtain ⟨next, hset, hfront⟩ := overridden_cons_eq_ok_iff.mp hmade
        obtain ⟨error, herror⟩ :=
          ih.mpr ⟨front, name', value', back, made, rfl, hfront, hrefused⟩
        exact ⟨error, overridden_cons_eq_error_iff.mpr (.inr ⟨next, hset, herror⟩)⟩

/-! ## What keys hold -/

/-- **Overrides are not seen at a key that is apart from all of them.** -/
theorem get?_of_overridden (h : overridden store overrides = .ok store')
    (hapart : ∀ entry ∈ overrides, Apart (keyOf entry.1) key) :
    store'.get? key = store.get? key := by
  induction overrides generalizing store with
  | nil =>
    obtain rfl := Except.ok.inj h
    rfl
  | cons first more ih =>
    obtain ⟨hfirst, hmore⟩ := List.forall_mem_cons.mp hapart
    obtain ⟨next, hset, hnext⟩ := overridden_cons_eq_ok_iff.mp h
    rw [ih hnext hmore, SettingsStore.get?_of_set hfirst hset]

/-- **Setting and getting.** What is set is what its key holds, and keys that
are apart from it hold what they held before. The key goes on to hold it
through all overrides that are apart from it, so that of a run of overrides
the last one of a key decides, unless a later one leads through the key or to
it. -/
theorem set_holds {store store' : SettingsStore} {name : String} {value : Json}
    (h : store.set name value = .ok store') :
    Holds store' (keyOf name) value ∧
    (∀ key, Apart (keyOf name) key → store'.get? key = store.get? key) ∧
    ∀ later last, overridden store' later = .ok last →
      (∀ entry ∈ later, Apart (keyOf entry.1) (keyOf name)) → Holds last (keyOf name) value := by
  have hholds := SettingsStore.holds_of_set h
  refine ⟨hholds, fun key hapart => SettingsStore.get?_of_set hapart h, ?_⟩
  intro later last hlater hapart
  refine SettingsStore.holds_of_get? ?_
  rw [get?_of_overridden hlater hapart]
  exact hholds.stands

/-- A quality floor goes on to hold while its neighbour is set, and a key that
only begins with the same text. -/
theorem set_holds_floor : ∃ store last, SettingsStore.builtIn.set "min_quality" (.int 1) = .ok store ∧
    overridden store [("fail_under", .int 90),
      ("documentation_standards.minimum_quality_score2", .null)] = .ok last ∧
    last.get? "documentation_standards.minimum_quality_score" = some (.int 1) ∧
    store.get? "documentation_standards.minimum_word_count.low" = some (.int 50) := by
  have hok : (SettingsStore.builtIn.set "min_quality" (.int 1)).toOption.any (fun store =>
      (overridden store [("fail_under", .int 90),
        ("documentation_standards.minimum_quality_score2", .null)]).isOk) = true := by
    decide +kernel
  cases hset : SettingsStore.builtIn.set "min_quality" (.int 1) with
  | error error =>
    rw [hset] at hok
    cases hok
  | ok store =>
    rw [hset] at hok
    cases hlater : overridden store [("fail_under", .int 90),
      ("documentation_standards.minimum_quality_score2", .null)] with
    | error error =>
      rw [Except.toOption, Option.any_some, hlater] at hok
      cases hok
    | ok last =>
      obtain ⟨-, hothers, hruns⟩ := set_holds hset
      have hlast := hruns _ _ hlater (by decide +kernel)
      refine ⟨store, last, rfl, hlater, hlast.stands, ?_⟩
      rw [hothers _ (by decide +kernel)]
      rfl

end CommandLine

end DocCoverage
