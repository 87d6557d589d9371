import RecursiveDescent.Proofs.Account

/-!
# Disciplined runs

A *discipline* is an account that leaves the events of a run aside: it names the sound states of
an engine and the changes that an attempt may make to them, whatever it records, and asks the
three operations of the engine to respect both.

The main statement is `Discipline.realizes_runOn`: every finished run from a sound state comes to
what the grammar yields, ends in a sound state, and has changed the state only as the attempts
within it may.
-/

namespace RecursiveDescent

variable {σ ε ν : Type} [DecidableEq ε]

/-- All that the attempt finishes from a sound state is what the site yields, and leads to a sound
state by a change that the site may make. -/
def Attempt.Realizes (rules : Rules ε ν) (source : Array ε) (sound : σ → Prop)
    (change : Site ε ν → σ → σ → Prop) (site : Site ε ν) (attempt : Attempt σ (Outcome ν)) :
    Prop :=
  ∀ state outcome final, sound state → attempt state = some (outcome, final) →
    site.1.Yields rules source site.2 outcome ∧ sound final ∧ change site state final

/-- An attempt realizes a site when it records what the site may record, by a change that does not
depend on the events. -/
theorem Attempt.realizes_iff_records {rules : Rules ε ν} {source : Array ε} {sound : σ → Prop}
    {change : Site ε ν → σ → σ → Prop} {site : Site ε ν} {attempt : Attempt σ (Outcome ν)} :
    attempt.Realizes rules source sound change site ↔
      attempt.Records rules source sound (fun site _ => change site) [] site := by
  constructor
  · intro realizes state outcome final kept finished
    obtain ⟨yields, keptToo, changed⟩ := realizes state outcome final kept finished
    obtain ⟨events, records⟩ := yields.exists_records
    exact ⟨events, records, keptToo, changed⟩
  · intro records state outcome final kept finished
    obtain ⟨events, records, keptToo, changed⟩ := records state outcome final kept finished
    exact ⟨records.yields, keptToo, changed⟩

/-- The sound states of an engine and the changes that attempts may make to them. -/
structure Discipline (engine : Engine σ ε ν) (rules : Rules ε ν) (source : Array ε)
    (owner : Nat → Grammar ε ν) where
  /-- The states in which memo tables may answer. -/
  sound : σ → Prop
  /-- The changes that the attempt of a site may make. -/
  change : Site ε ν → σ → σ → Prop
  change_refl : ∀ site state, change site state state
  change_trans : ∀ site first second third,
    change site first second → change site second third → change site first third
  change_within : ∀ inner outer first second, Grammar.Within rules source inner outer →
    change inner first second → change outer first second
  sound_record : ∀ event state, sound state → sound (engine.record event state)
  change_record : ∀ site event state, change site state (engine.record event state)
  realizes_memoized : ∀ cell start (parser : Parser σ ε ν),
    (parser source start).Realizes rules source sound change (owner cell, start) →
      (engine.memoized cell parser source start).Realizes rules source sound change
        (.memoized cell (owner cell), start)
  realizes_withFreshTables : ∀ cells inner start (parser : Parser σ ε ν),
    (parser source start).Realizes rules source sound change (inner, start) →
      (engine.withFreshTables cells parser source start).Realizes rules source sound change
        (.rebuilt cells inner, start)

namespace Discipline

variable {engine : Engine σ ε ν} {rules : Rules ε ν} {source : Array ε}
  {owner : Nat → Grammar ε ν} (discipline : Discipline engine rules source owner)

abbrev Realizes (site : Site ε ν) (attempt : Attempt σ (Outcome ν)) : Prop :=
  attempt.Realizes rules source discipline.sound discipline.change site

/-- The account that a discipline gives, with the same changes whatever is recorded. -/
def account : Account engine rules source owner where
  sound := discipline.sound
  change site _ := discipline.change site
  change_nil := discipline.change_refl
  change_append site _ _ := discipline.change_trans site
  change_within inner outer _ := discipline.change_within inner outer
  sound_record := discipline.sound_record
  change_record := discipline.change_record
  records_memoized cell start parser records := by
    rw [← Attempt.realizes_iff_records] at records ⊢
    exact discipline.realizes_memoized cell start parser records
  records_withFreshTables cells inner start parser records := by
    rw [← Attempt.realizes_iff_records] at records ⊢
    exact discipline.realizes_withFreshTables cells inner start parser records

/-- Every finished run comes to what the grammar yields. -/
theorem realizes_runOn (rulesTabulated : rules.Tabulate owner) (steps : Nat)
    (grammar : Grammar ε ν) (tabulated : grammar.Tabulates owner) (start : Nat) :
    discipline.Realizes (grammar, start)
      (grammar.runOn engine rules steps source start) := by
  rw [Realizes, Attempt.realizes_iff_records]
  exact discipline.account.realizes_runOn rulesTabulated steps grammar tabulated start

end Discipline

end RecursiveDescent
