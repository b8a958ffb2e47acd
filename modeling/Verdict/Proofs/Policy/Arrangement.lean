/-
The arrangement of policies. A document lists its rules and its expressions in
some order, the check walks them in that order, and so does the search for
circles. What is decided is another matter: an arrangement has the same parts as
any other, so the one is accepted if the other is, and both answer alike.

# Vocabulary

- `v.SameItems w`: two lists with the same items, in any order and number.
- `v.SameEntries w`: two mappings with the same entries, in any order.
- `document.Rearranged document'`: two documents for one ruleset with the same
  names of rules and the same expressions.

# Main statements

- `checkDocument_rearranged`: the parts of both documents are the same, in
  another order.
- `build_rearranged`: both documents are accepted or neither is, and what is
  built from them answers alike.
-/
import Mathlib.Data.List.Perm.Basic
import Verdict.Proofs.Policy.Part

namespace Verdict

namespace Value

-- ========================================================= arrangements

/-- Two lists have the same items, in any order and however often. -/
def SameItems (v w : Value) : Prop :=
  ∃ items items', v.unrolled = .list items ∧ w.unrolled = .list items'
    ∧ ∀ item, item ∈ items' ↔ item ∈ items

/-- Two mappings have the same entries in any order, and no key twice. -/
def SameEntries (v w : Value) : Prop :=
  ∃ entries entries', v.unrolled = .map entries ∧ w.unrolled = .map entries'
    ∧ (entries.map (·.1)).Nodup ∧ entries'.Perm entries

/-- Two policy documents have the same parts, arranged in any way. -/
structure Rearranged (document document' : Value) : Prop where
  ruleset : document'.get? "ruleset" = document.get? "ruleset"
  rules : ∃ v w, document.get? "rules" = some v ∧ document'.get? "rules" = some w
    ∧ v.SameItems w
  expressions : ∃ v w, document.get? "expressions" = some v
    ∧ document'.get? "expressions" = some w ∧ v.SameEntries w

variable {v w document document' : Value} {names : List String}

theorem SameItems.symm (h : v.SameItems w) : w.SameItems v := by
  obtain ⟨items, items', hv, hw, hsame⟩ := h
  exact ⟨items', items, hw, hv, fun item => (hsame item).symm⟩

theorem SameEntries.symm (h : v.SameEntries w) : w.SameEntries v := by
  obtain ⟨entries, entries', hv, hw, hnd, hperm⟩ := h
  exact ⟨entries', entries, hw, hv, ((hperm.map (·.1)).nodup_iff).2 hnd, hperm.symm⟩

theorem Rearranged.symm (h : document.Rearranged document') :
    document'.Rearranged document := by
  obtain ⟨hruleset, ⟨v, w, hv, hw, hitems⟩, v', w', hv', hw', hentries⟩ := h
  exact ⟨hruleset.symm, ⟨w, v, hw, hv, hitems.symm⟩, w', v', hw', hv', hentries.symm⟩

/-- With the items of a list of texts, a list is one of the same texts. -/
theorem SameItems.textList (h : v.SameItems w) (hv : v.textList? = some names) :
    ∃ names', w.textList? = some names' ∧ ∀ name, name ∈ names' ↔ name ∈ names := by
  obtain ⟨items, items', hitems, hitems', hsame⟩ := h
  unfold textList? at hv ⊢
  rw [hitems] at hv
  rw [hitems']
  dsimp only at hv ⊢
  obtain rfl := mapM_text?_iff.1 hv
  have hstrings : ∀ item ∈ items', ∃ name, item = .str name := by
    intro item hitem
    obtain ⟨name, -, rfl⟩ := List.mem_map.1 ((hsame item).1 hitem)
    exact ⟨name, rfl⟩
  obtain ⟨names', hnames'⟩ := Pairs.exists_of_forall hstrings
  have heq : items' = names'.map .str := by
    have hmap : items'.map id = names'.map .str := Pairs.map_eq hnames' fun _ _ h => h
    rwa [List.map_id] at hmap
  have hstr : Function.Injective Value.str := fun _ _ h => Value.str.inj h
  refine ⟨names', mapM_text?_iff.2 heq, fun name => ?_⟩
  rw [← List.mem_map_of_injective hstr, ← heq, hsame, List.mem_map_of_injective hstr]

end Value

variable {b : Builder} {c : Checker} {r r' : Resolver} {document document' : Value}
  {rules : List String} {raws : Table Value} {name : String}

-- =============================================================== checks

/-- Entries in another order are those of the same table in another order. -/
theorem namedExpressions_of_perm {entries entries' : List (Value × Value)}
    (h : Checker.namedExpressions entries = .ok raws) (hperm : entries'.Perm entries) :
    ∃ raws', Checker.namedExpressions entries' = .ok raws' ∧ raws'.Perm raws := by
  obtain ⟨hraws, hnamed⟩ := namedExpressions_iff.1 h
  obtain ⟨raws', hraws', hperm'⟩ := List.perm_comp_forall₂ hperm hraws
  refine ⟨raws', namedExpressions_iff.2 ⟨hraws', fun name hname => ?_⟩, hperm'⟩
  exact hnamed name ((hperm'.map (·.1)).mem_iff.1 hname)

/-- A document that is rearranged has the same parts as before. -/
theorem checkDocument_rearranged (hsame : document.Rearranged document')
    (h : c.checkDocument document = .ok (rules, raws)) :
    ∃ rules' raws', c.checkDocument document' = .ok (rules', raws')
      ∧ (∀ rule, rule ∈ rules' ↔ rule ∈ rules) ∧ raws.names.Nodup ∧ raws'.Perm raws := by
  obtain ⟨hruleset, ⟨found, hfound, hrules⟩, hregistered, expressions, entries, hexpressions,
    hentries, hraws⟩ := checkDocument_eq_ok_iff.1 h
  obtain ⟨v, w, hv, hw, hitems⟩ := hsame.rules
  obtain rfl : found = v := Option.some.inj (hfound.symm.trans hv)
  obtain ⟨rules', hrules', hmem⟩ := hitems.textList hrules
  obtain ⟨v', w', hv', hw', entries₀, entries', hentries₀, hentries', hnd, hperm⟩ :=
    hsame.expressions
  obtain rfl : expressions = v' := Option.some.inj (hexpressions.symm.trans hv')
  obtain rfl : entries = entries₀ := Value.map.inj (hentries.symm.trans hentries₀)
  obtain ⟨raws', hraws', hperm'⟩ := namedExpressions_of_perm hraws hperm
  refine ⟨rules', raws', checkDocument_eq_ok_iff.2 ⟨hsame.ruleset.trans hruleset,
    ⟨w, hw, hrules'⟩, fun rule hrule => hregistered rule ((hmem rule).1 hrule), w', entries', hw',
    hentries', hraws'⟩, hmem, ?_, hperm'⟩
  obtain ⟨rfl, -⟩ := namedExpressions_eq_ok.1 hraws
  rw [List.map_map] at hnd
  exact List.Nodup.of_map Value.str (by unfold Table.names; rwa [List.map_map])

-- ========================================================== evaluations

/-- A name that is not declared is denied where everything is, and is unknown
otherwise. -/
theorem Resolver.run_of_not_mem (h : name ∉ r.names) (ctx : Context) :
    r.run name ctx = if r.isInert then (.ok false, ⟨ctx, []⟩)
      else (.error (.unknownExpression name r.ruleset r.names), ⟨ctx, []⟩) := by
  unfold Resolver.run Resolver.find
  rw [Table.at?_eq_none_iff.2 h]

theorem ruleset_of_build {source : Source} (h : (b.build source).value = .ok r) :
    r.ruleset = some b.ruleset.name := by
  obtain ⟨_, p, -, -, hr⟩ := build_eq_ok_iff.1 h
  obtain ⟨bound, -, rfl⟩ := resolverOf_iff.1 hr
  rfl

/-- A rearranged document is accepted as it was before. -/
theorem exists_build_rearranged (hsame : document.Rearranged document')
    (h : (b.build (.document document)).value = .ok r) :
    ∃ r', (b.build (.document document')).value = .ok r' ∧ r'.names.Perm r.names
      ∧ ∀ name ∈ r.names, r'.expressions.at? name = r.expressions.at? name := by
  obtain ⟨rules, raws, hparts, hraws⟩ := parts_of_build rfl h
  obtain ⟨rules', raws', hparts', hrules, hnd, hperm⟩ := checkDocument_rearranged hsame hparts
  have hnames : (Table.names raws').Perm r.names := by
    rw [hraws]
    exact hperm.map (·.1)
  obtain ⟨r', hr', hpart, hnames'⟩ := build_of_part h hparts hparts'
    (fun rule => (hrules rule).2) (.of_perm hperm hnd)
    fun e he _ name hname => hnames.mem_iff.2 (declared_of_build h he hname)
  rw [← hnames'] at hnames
  exact ⟨r', hr', hnames, fun name hname => hpart.at?_eq name (hnames.mem_iff.2 hname)⟩

/-- Of two arrangements of one policy either both are accepted or neither is. Both
declare the same names, and evaluating one of them ends alike in both, after the
same calls; a name that is not declared is denied in both, or unknown in both. -/
theorem build_rearranged (hsame : document.Rearranged document') :
    ((∃ r, (b.build (.document document)).value = .ok r)
        ↔ ∃ r', (b.build (.document document')).value = .ok r')
      ∧ ∀ r r', (b.build (.document document)).value = .ok r →
        (b.build (.document document')).value = .ok r' →
        r'.names.Perm r.names
          ∧ (∀ name ∈ r.names, ∀ ctx,
            (r'.evaluate name ctx).value = (r.evaluate name ctx).value)
          ∧ ∀ name ∉ r.names, ∀ ctx,
            ((r.evaluate name ctx).value = (.ok false, ⟨ctx, []⟩)
              ∧ (r'.evaluate name ctx).value = (.ok false, ⟨ctx, []⟩))
            ∨ ((r.evaluate name ctx).value
                = (.error (.unknownExpression name (some b.ruleset.name) r.names), ⟨ctx, []⟩)
              ∧ (r'.evaluate name ctx).value
                = (.error (.unknownExpression name (some b.ruleset.name) r'.names), ⟨ctx, []⟩)) := by
  refine ⟨⟨fun h => ?_, fun h => ?_⟩, fun r r' hr hr' => ?_⟩
  · obtain ⟨r, hr⟩ := h
    obtain ⟨r', hr', -⟩ := exists_build_rearranged hsame hr
    exact ⟨r', hr'⟩
  · obtain ⟨r', hr'⟩ := h
    obtain ⟨r, hr, -⟩ := exists_build_rearranged hsame.symm hr'
    exact ⟨r, hr⟩
  · obtain ⟨r₀, hr₀, hnames, hagree⟩ := exists_build_rearranged hsame hr
    obtain rfl : r' = r₀ := Except.ok.inj (hr'.symm.trans hr₀)
    have hsafe := build_safe hr
    have hsafe' := build_safe hr'
    refine ⟨hnames, fun name hname ctx => ?_, fun name hname ctx => ?_⟩
    · rw [value_evaluate, value_evaluate]
      exact hsafe.run_agree hsafe' hagree
        (fun e he _ _ hother => declared_of_build hr he hother) hname hname ctx
    · have hname' : name ∉ r'.names := hnames.mem_iff.not.2 hname
      rw [value_evaluate, value_evaluate, Resolver.run_of_not_mem hname,
        Resolver.run_of_not_mem hname', ruleset_of_build hr, ruleset_of_build hr']
      by_cases hnil : r.names = []
      · have hnil' : r'.names = [] := List.perm_nil.1 (hnil ▸ hnames)
        rw [if_pos (hsafe.isInert_iff.2 hnil), if_pos (hsafe'.isInert_iff.2 hnil')]
        exact Or.inl ⟨rfl, rfl⟩
      · have hnil' : r'.names ≠ [] := fun h => hnil (List.nil_perm.1 (h ▸ hnames))
        rw [if_neg (hsafe.isInert_iff.not.2 hnil), if_neg (hsafe'.isInert_iff.not.2 hnil')]
        exact Or.inr ⟨rfl, rfl⟩

-- ============================================================= a document

/-- The document with two expressions, the other way round. -/
def mirroredDocument : Value :=
  .object [("expressions", .object [("main", fieldRef.toValue),
      ("deny", .object [("Not", .object [("expr", .str "main")])])]),
    ("rules", .texts ["Positive", "Positive"]), ("ruleset", .str "Fields")]

/-- It is accepted as well, and each of its expressions says what it said. -/
theorem mirrored_rearranged :
    reversedDocument.Rearranged mirroredDocument
      ∧ ∃ r', (Builder.build ⟨fieldChecker "x"⟩ (.document mirroredDocument)).value = .ok r'
        ∧ r'.names.Perm ["deny", "main"]
        ∧ ∀ name ∈ ["deny", "main"], ∀ ctx,
          (r'.evaluate name ctx).value = (reversedResolver.evaluate name ctx).value := by
  have hsame : reversedDocument.Rearranged mirroredDocument := by
    refine ⟨rfl, ⟨_, _, rfl, rfl, _, _, rfl, rfl, fun item => ?_⟩, _, _, rfl, rfl, _, _, rfl, rfl,
      ?_, .swap ..⟩
    · simp
    · simp
  obtain ⟨haccepted, halike⟩ := build_rearranged (b := ⟨fieldChecker "x"⟩) hsame
  obtain ⟨r', hr'⟩ := haccepted.1 ⟨_, build_reversed⟩
  obtain ⟨hnames, hequal, -⟩ := halike _ _ build_reversed hr'
  exact ⟨hsame, r', hr', hnames, hequal⟩

end Verdict
