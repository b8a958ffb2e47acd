/-
What comes of a text. A text is read as JSON or as YAML; either way it gives a
mapping, or it is refused as a text that is no document. There is one gap: the
value of a YAML node can fail in ways that no reader of documents expects, and
such a failure leaves every mode of a builder, the permissive one included.

# Vocabulary

- `Yaml.Causes text f`: the text holds what ends in the failure of a tag, an
  escape beyond all code points or a node whose text does not suit its kind.
- `Source.Suited text`: the text is JSON, or it holds no such cause.

# Main statements

- `Yaml.causes_of_read`: a text that fails for a tag holds the cause.
- `readText_ends`: what can come of any text.
- `readText_suited`: a suited text gives a mapping, or it is refused as one that
  is no document, by every mode and with a resolver that denies.
- `unsuited_escapes`: a truth value that is no known word is not refused so.
-/
import Verdict.Proofs.Policy.Modes
import Verdict.Proofs.Yaml.Node
import Verdict.Proofs.Yaml.Token
import Verdict.Proofs.Yaml.Value

namespace Verdict

open Outcome

namespace Yaml

-- ============================================================= causes

/-- A text holds what ends in the failure of a tag. -/
inductive Causes (text : List Char) : TagFault → Prop where
  | escape (h : HasWideEscape text) : Causes text .beyondRange
  | node {root : Nat} {g : Graph} {f : TagFault}
      (hgraph : Graph.ofTokens (Token.ofText text) = .ok (some root, g)) (h : g.Unfit f) :
      Causes text f

/-- A text that fails for a tag holds the cause. -/
theorem causes_of_read {text : String} {f : TagFault} (h : read text = .error (.tag f)) :
    Causes text.toList f := by
  unfold read at h
  cases hgraph : Graph.ofTokens (Token.ofText text.toList) with
  | error e =>
      rw [hgraph] at h
      obtain rfl : e = .tag f := Except.error.inj h
      obtain ⟨rfl, hescape⟩ := escaping_of_broken (told_of_error hgraph f rfl) f rfl
      exact .escape hescape
  | ok r =>
      rw [hgraph] at h
      obtain ⟨root, g⟩ := r
      cases root with
      | none => cases h
      | some root => exact .node hgraph (unfit_of_valueOf h)

/-- A text without a backslash has no escape. -/
theorem not_hasWideEscape {text : List Char} (h : '\\' ∉ text) : ¬ HasWideEscape text := by
  intro hwide
  obtain ⟨digits, worths, hpart, -⟩ := hwide
  exact h (hpart.subset (List.mem_cons_self ..))

end Yaml

-- ============================================================== texts

/-- A text is JSON, or it holds nothing that ends in the failure of a tag. -/
def Source.Suited (text : String) : Prop :=
  Source.isJson text = false → ∀ f, ¬ Yaml.Causes text.toList f

/-- What can come of a text: a mapping, a defect of a text that is no document, or
the failure of a tag, of which the text is not JSON and holds the cause. -/
theorem readText_ends (text : String) :
    Ends (fun e => (∃ d, e = .defect d ∧ d.name = "DocumentParseError")
        ∨ ∃ f, e = .fault (.tag f) ∧ Source.isJson text = false ∧ Yaml.Causes text.toList f)
      (fun v => v.isMap = true) (Source.readText text) := by
  unfold Source.readText
  refine Ends.bind (Q := fun _ => True) ?_ fun v _ => ?_
  · unfold Source.readValue
    refine .ite (fun _ => ?_) fun hyaml => ?_
    · cases Json.read text with
      | error e => exact .inl ⟨_, rfl, rfl⟩
      | ok v => trivial
    · cases hread : Yaml.read text with
      | error e =>
          cases e with
          | malformed => exact .inl ⟨_, rfl, rfl⟩
          | badValue => exact .inl ⟨_, rfl, rfl⟩
          | tooDeep => exact .inl ⟨_, rfl, rfl⟩
          | tag f =>
              have hnot := Bool.eq_false_of_not_eq_true hyaml
              exact .inr ⟨f, rfl, hnot, Yaml.causes_of_read hread⟩
      | ok v => trivial
  · refine .ite (fun hmap => hmap) fun _ => ?_
    exact .inl ⟨_, rfl, rfl⟩

/-- A suited text gives a mapping, or it is refused as a text that is no document:
by every mode, and the resolver that is built all the same denies. -/
theorem readText_suited {text : String} (h : Source.Suited text) :
    (∃ v, Source.readText text = .ok v ∧ v.isMap = true)
      ∨ ∃ d, Source.readText text = .error (.defect d) ∧ d.name = "DocumentParseError"
        ∧ ∀ b : Builder, b.Refuses (.text text) d := by
  have hends := readText_ends text
  cases hread : Source.readText text with
  | ok v =>
      rw [hread] at hends
      exact .inl ⟨v, rfl, hends⟩
  | error e =>
      rw [hread] at hends
      obtain ⟨d, rfl, hname⟩ | ⟨f, rfl, hyaml, hcauses⟩ := hends
      · refine .inr ⟨d, rfl, hname, fun b => refuses_of_source ?_ hread⟩
        exact Defect.isExpected_of_name (by rw [hname]; decide)
      · exact absurd hcauses (h hyaml f)

-- ======================================================= tagged values

/-- The nodes of a mapping of one entry with a tagged value. -/
def taggedGraph (kind : Yaml.Kind) (word : List Char) : Yaml.Graph where
  nodes := #[⟨.mapping, .mapping [(1, 2)]⟩, ⟨.text, .scalar ['a']⟩, ⟨kind, .scalar word⟩]
  ended := #[1, 2, 0]

theorem taggedGraph_fits {kind : Yaml.Kind} {word : List Char} (h : ∀ f, ¬ kind.Unfit word f)
    (f : TagFault) : ¬ (taggedGraph kind word).Unfit f := by
  have hbeyond : ∀ n, (taggedGraph kind word).node (n + 3) = .empty := fun n => rfl
  intro hunfit
  cases hunfit with
  | @text n text _ hspells hkind =>
      match n with
      | 0 => nomatch hkind
      | 1 => nomatch hkind
      | 2 =>
          obtain rfl : text = word := hspells.eq_of_scalar rfl
          exact h f hkind
      | n + 3 =>
          rw [hbeyond] at hkind
          nomatch hkind
  | @noText n text entries hspells hkind hcontent =>
      match n with
      | 0 => cases hkind
      | 1 => cases hkind
      | 2 => cases hcontent
      | n + 3 =>
          rw [hbeyond] at hkind
          cases hkind

/-- A text that describes such nodes is suited if the value suits its kind. -/
theorem suited_of_tagged {text : String} (kind : Yaml.Kind) (word : List Char)
    (hescape : '\\' ∉ text.toList)
    (hgraph : Yaml.Graph.ofTokens (Yaml.Token.ofText text.toList)
      = .ok (some 0, taggedGraph kind word))
    (h : ∀ f, ¬ kind.Unfit word f) : Source.Suited text := by
  intro _ f hcauses
  cases hcauses with
  | escape hwide => exact Yaml.not_hasWideEscape hescape hwide
  | node hgraph' hunfit =>
      obtain ⟨-, rfl⟩ := Prod.mk.inj (Except.ok.inj (hgraph.symm.trans hgraph'))
      exact taggedGraph_fits h f hunfit

/-- A tagged truth value that is a known word, and a tagged number that is none
but has characters, suit their kinds: the one text gives a mapping, and the
other is refused. -/
theorem suited_texts :
    Source.Suited "a: !!bool yes\n" ∧ Source.Suited "a: !!int x\n"
      ∧ (∃ v, Source.readText "a: !!bool yes\n" = .ok v ∧ v.isMap = true)
      ∧ ∃ d, Source.readText "a: !!int x\n" = .error (.defect d)
        ∧ d.name = "DocumentParseError"
        ∧ ∀ b : Builder, b.Refuses (.text "a: !!int x\n") d := by
  have hyes : Source.Suited "a: !!bool yes\n" := by
    refine suited_of_tagged .bool "yes".toList (by decide) ?_ ?_
    · with_unfolding_all rfl
    · intro f hunfit
      cases hunfit with
      | noWord h => exact h ("yes", true) (by decide) rfl
  have hnumber : Source.Suited "a: !!int x\n" := by
    refine suited_of_tagged .int "x".toList (by decide) ?_ ?_
    · with_unfolding_all rfl
    · intro f hunfit
      cases hunfit with
      | noDigit h => exact absurd h (by decide)
  refine ⟨hyes, hnumber, ?_, ?_⟩
  · rcases readText_suited hyes with h | ⟨d, h, -, -⟩
    · exact h
    · have hok : (Source.readText "a: !!bool yes\n").isOk = true := by decide +kernel
      rw [h] at hok
      cases hok
  · rcases readText_suited hnumber with ⟨v, h, -⟩ | h
    · have hok : (Source.readText "a: !!int x\n").isOk = false := by decide +kernel
      rw [h] at hok
      cases hok
    · exact h

/-- A tagged truth value that is no known word: the text gives no mapping and is not
refused, and the failure leaves the permissive build. -/
theorem unsuited_escapes :
    ¬ ((∃ v, Source.readText "a: !!bool maybe\n" = .ok v ∧ v.isMap = true)
        ∨ ∃ d, Source.readText "a: !!bool maybe\n" = .error (.defect d)
          ∧ d.name = "DocumentParseError")
      ∧ Source.readText "a: !!bool maybe\n" = .error (.fault (.tag .noWord))
      ∧ (Builder.buildPermissive ⟨fieldChecker "x"⟩ (.text "a: !!bool maybe\n")).value
        = .error (.tag .noWord) := by
  have hjson : Source.isJson "a: !!bool maybe\n" = false := by decide +kernel
  have hgraph : Yaml.Graph.ofTokens (Yaml.Token.ofText "a: !!bool maybe\n".toList)
      = .ok (some 0, taggedGraph .bool "maybe".toList) := by with_unfolding_all rfl
  have hvalue : (taggedGraph .bool "maybe".toList).valueOf 0 = .error (.tag .noWord) := rfl
  have hread : Source.readText "a: !!bool maybe\n" = .error (.fault (.tag .noWord)) := by
    unfold Source.readText Source.readValue Yaml.read
    rw [hjson, hgraph]
    exact congrArg (fun r => Except.mapError Source.yamlCause r >>= _) hvalue
  refine ⟨?_, hread, (breaks_of_source hread).buildPermissive⟩
  rintro (⟨v, h, -⟩ | ⟨d, h, -⟩)
  · cases hread.symm.trans h
  · cases hread.symm.trans h

end Verdict
