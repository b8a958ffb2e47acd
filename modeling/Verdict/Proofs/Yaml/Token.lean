/-
What tokens can say of the text they were read from. A text that is broken
ends in a token that says how; if it is by the failure of a tag, the text
holds an escape beyond all code points, for no other part of the reader
fails in that way.

# Vocabulary

- `t.Unbroken`: the token is not the one that ends a broken text.
- `s.Sound text`: the scanner stands in the text, and all it has read is
  unbroken.

# Main statements

- `Scanner.Sound.token`: the step from one token to the next keeps a scanner
  sound, or ends in an `Escaping` failure.
- `escaping_of_broken`: the token that ends a broken text tells of an
  `Escaping` failure.
-/
import Verdict.Proofs.Yaml.Cursor
import Verdict.Yaml.Token.Reader

namespace Verdict.Yaml

open Outcome

variable {text : List Char} {c : Cursor}

/-- A token is not the one that ends a broken text. -/
def Token.Unbroken (t : Token) : Prop := ∀ f, t ≠ .broken f

namespace Token

-- ============================================================== names

theorem word_in (h : c.In text) : Ends (Escaping text) (fun r => r.2.In text) (word c) := by
  unfold word
  dsimp only
  split
  · exact escaping_malformed
  · exact h.skip isWord

theorem anchorName_in (h : c.In text) :
    Ends (Escaping text) (fun r => r.2.In text) (anchorName c) := by
  unfold anchorName
  refine (word_in h.next).bind fun r hr => ?_
  dsimp only
  split
  · exact hr
  · exact escaping_malformed

-- =============================================================== tags

theorem percentBytes_in (h : c.In text) (steps : List Char) (read : List UInt8) :
    Ends (Escaping text) (fun r => r.2.In text) (percentBytes steps c read) := by
  induction steps generalizing c read with
  | nil => exact h
  | cons _ steps ih =>
      unfold percentBytes
      split
      · split
        · exact ih (h.advance 3) _
        · exact escaping_malformed
      · exact h

theorem addressFrom_in (h : c.In text) (steps read : List Char) :
    Ends (Escaping text) (fun r => r.2.In text) (addressFrom steps c read) := by
  induction steps generalizing c read with
  | nil => exact h
  | cons _ steps ih =>
      unfold addressFrom
      split
      · refine (percentBytes_in h _ _).bind fun r hr => ?_
        dsimp only
        split
        · exact ih hr _
        · exact escaping_malformed
      · have hafter := h.skip fun ch => isAddress ch && ch ≠ '%'
        dsimp only
        split
        · exact hafter
        · exact ih hafter _

theorem address_in (h : c.In text) :
    Ends (Escaping text) (fun r => r.2.In text) (address c) := by
  unfold address
  refine (addressFrom_in h _ _).bind fun r hr => ?_
  dsimp only
  split
  · exact escaping_malformed
  · exact hr

theorem handle_in (h : c.In text) :
    Ends (Escaping text) (fun r => r.2.In text) (handle c) := by
  unfold handle
  split
  · exact escaping_malformed
  · dsimp only
    split
    · exact h.next
    · split
      · exact (h.next.skip isWord).next
      · exact escaping_malformed

theorem tagAt_in (h : c.In text) :
    Ends (Escaping text) (fun r => r.1.Unbroken ∧ r.2.In text) (tagAt c) := by
  have hfinish : ∀ (handle : Option String) (address : String) {c : Cursor}, c.In text →
      Ends (Escaping text) (fun r : Token × Cursor => r.1.Unbroken ∧ r.2.In text)
        (if isSpaceOrEnd c.peek then pure (.tag handle address, c)
          else throw .malformed) := by
    intro handle address c hc
    split
    · exact ⟨nofun, hc⟩
    · exact escaping_malformed
  unfold tagAt
  extract_lets finish
  split
  · refine (address_in (h.advance 2)).bind fun r hr => ?_
    dsimp only
    split
    · exact hfinish _ _ hr.next
    · exact escaping_malformed
  · split
    · exact hfinish _ _ h.next
    · split
      · refine (handle_in h).bind fun r hr => ?_
        exact (address_in hr).bind fun r hr => hfinish _ _ hr
      · exact (address_in h.next).bind fun r hr => hfinish _ _ hr

-- ========================================================= directives

theorem versionPart_in (h : c.In text) :
    Ends (Escaping text) (fun r => r.2.In text) (versionPart c) := by
  unfold versionPart
  dsimp only
  split
  · exact escaping_malformed
  · split
    · exact escaping_badValue
    · exact h.skip Text.isAsciiDigit

theorem version_in (h : c.In text) :
    Ends (Escaping text) (fun r => r.2.In text) (version c) := by
  unfold version
  refine (versionPart_in h.skipSpaces).bind fun r hr => ?_
  dsimp only
  split
  · exact escaping_malformed
  · refine (versionPart_in hr.next).bind fun r hr => ?_
    split
    · exact hr
    · exact escaping_malformed

theorem shortForm_in (h : c.In text) :
    Ends (Escaping text) (fun r => r.2.In text) (shortForm c) := by
  unfold shortForm
  refine (handle_in h.skipSpaces).bind fun r hr => ?_
  dsimp only
  split
  · exact escaping_malformed
  · refine (address_in hr.skipSpaces).bind fun r hr => ?_
    split
    · exact hr
    · exact escaping_malformed

theorem directiveAt_in (h : c.In text) :
    Ends (Escaping text) (fun r => r.1.Unbroken ∧ r.2.In text) (directiveAt c) := by
  have hfinish : ∀ (d : Directive) {c : Cursor}, c.In text →
      Ends (Escaping text) (fun r : Token × Cursor => r.1.Unbroken ∧ r.2.In text)
        (if isBreakOrEnd c.skipSpaces.skipComment.peek
          then pure (.directive d, c.skipSpaces.skipComment.lineBreak.2)
          else throw .malformed) := by
    intro d c hc
    split
    · exact ⟨nofun, hc.skipSpaces.skipComment.lineBreak⟩
    · exact escaping_malformed
  unfold directiveAt
  refine (word_in h.next).bind fun r hr => ?_
  dsimp only
  split
  · exact escaping_malformed
  · split
    · exact (version_in hr).bind fun r hr => hfinish _ hr
    · split
      · exact (shortForm_in hr).bind fun r hr => hfinish _ hr
      · exact hfinish _ (hr.skip _)

end Token

-- =========================================================== scanners

namespace Scanner

/-- A scanner stands in a text, and the tokens it has read are unbroken. -/
structure Sound (text : List Char) (s : Scanner) : Prop where
  cursor : s.cursor.In text
  unbroken : ∀ t ∈ s.read, t.Unbroken

namespace Sound

variable {s : Scanner} {t : Token}

theorem push (hcursor : s.cursor.In text) (hread : ∀ t ∈ s.read, t.Unbroken)
    (ht : t.Unbroken) : (s.push t).Sound text :=
  ⟨hcursor, List.forall_mem_cons.2 ⟨ht, hread⟩⟩

theorem insertAt (h : s.Sound text) (n : Nat) (ht : t.Unbroken) :
    (s.insertAt n t).Sound text := by
  refine ⟨h.cursor, fun u hu => ?_⟩
  rcases List.mem_append.1 hu with hu | hu
  · exact h.unbroken u (List.mem_of_mem_take hu)
  · rcases List.mem_cons.1 hu with rfl | hu
    · exact ht
    · exact h.unbroken u (List.mem_of_mem_drop hu)

theorem unwind (h : s.Sound text) (column : Int) : (s.unwind column).Sound text := by
  unfold Scanner.unwind
  split
  · exact h
  · refine ⟨h.cursor, fun u hu => ?_⟩
    rcases List.mem_append.1 hu with hu | hu
    · rw [List.eq_of_mem_replicate hu]
      exact nofun
    · exact h.unbroken u hu

theorem enterBlock (h : s.Sound text) (ht : t.Unbroken) : (s.enterBlock t).Sound text := by
  unfold Scanner.enterBlock
  split
  · exact push h.cursor h.unbroken ht
  · exact h

-- =============================================================== keys

theorem forgetPlace (h : s.Sound text) :
    Ends (Escaping text) (Sound text) s.forgetPlace := by
  unfold Scanner.forgetPlace
  split
  · split
    · exact escaping_malformed
    · exact ⟨h.cursor, h.unbroken⟩
  · exact h

theorem savePlace (h : s.Sound text) : Ends (Escaping text) (Sound text) s.savePlace := by
  unfold Scanner.savePlace
  split
  · exact h.forgetPlace.bind fun s hs => ⟨hs.cursor, hs.unbroken⟩
  · exact h

theorem forgetPast (h : s.Sound text) : Ends (Escaping text) (Sound text) s.forgetPast := by
  unfold Scanner.forgetPast
  dsimp only
  split
  · exact escaping_malformed
  · exact ⟨h.cursor, h.unbroken⟩

-- ============================================================= tokens

theorem skipToToken (h : s.Sound text) (steps : List Char) :
    (Scanner.skipToToken steps s).Sound text := by
  induction steps generalizing s with
  | nil => exact h
  | cons _ steps ih =>
      have hcursor := h.cursor.skipSpaces.skipComment
      unfold Scanner.skipToToken
      dsimp only
      split
      · exact ih ⟨hcursor.lineBreak, h.unbroken⟩
      · exact ⟨hcursor, h.unbroken⟩

theorem outermost (h : s.Sound text) (ht : t.Unbroken) (hc : c.In text) :
    Ends (Escaping text) (Sound text) (s.outermost t c) :=
  (h.unwind (-1)).forgetPlace.bind fun _ hs => push hc hs.unbroken ht

theorem beginFlow (h : s.Sound text) (ht : t.Unbroken) :
    Ends (Escaping text) (Sound text) (s.beginFlow t) :=
  h.savePlace.bind fun _ hs => push hs.cursor.next hs.unbroken ht

theorem endFlow (h : s.Sound text) (ht : t.Unbroken) :
    Ends (Escaping text) (Sound text) (s.endFlow t) := by
  unfold Scanner.endFlow
  split
  · exact escaping_malformed
  · exact push h.cursor.next h.unbroken ht

theorem flowEntry (h : s.Sound text) : Ends (Escaping text) (Sound text) s.flowEntry :=
  h.forgetPlace.bind fun _ hs => push hs.cursor.next hs.unbroken nofun

theorem blockEntry (h : s.Sound text) : Ends (Escaping text) (Sound text) s.blockEntry := by
  have hentered : (s.enterBlock .blockSequence).Sound text := h.enterBlock nofun
  unfold Scanner.blockEntry
  dsimp only
  split
  · exact escaping_malformed
  · exact hentered.forgetPlace.bind fun _ hs => push hs.cursor.next hs.unbroken nofun

theorem markedKey (h : s.Sound text) : Ends (Escaping text) (Sound text) s.markedKey := by
  have hentered : (s.enterBlock .blockMapping).Sound text := h.enterBlock nofun
  unfold Scanner.markedKey
  dsimp only
  split
  · exact escaping_malformed
  · exact hentered.forgetPlace.bind fun _ hs => push hs.cursor.next hs.unbroken nofun

theorem value (h : s.Sound text) : Ends (Escaping text) (Sound text) s.value := by
  unfold Scanner.value
  split
  next p _ =>
    have hforgot : ({ s with place := none } : Scanner).Sound text := ⟨h.cursor, h.unbroken⟩
    have hkeyed := hforgot.insertAt (t := .key) p.before nofun
    dsimp only
    split
    · have hopened : (({ s with place := none }.insertAt p.before .key).openBlock
          p.column).Sound text := ⟨hkeyed.cursor, hkeyed.unbroken⟩
      have hmarked := hopened.insertAt (t := .blockMapping) p.before nofun
      exact push h.cursor.next hmarked.unbroken nofun
    · exact push h.cursor.next hkeyed.unbroken nofun
  next =>
    split
    · exact escaping_malformed
    · have hopened : (s.enterBlock .blockMapping).Sound text := h.enterBlock nofun
      exact push h.cursor.next hopened.unbroken nofun

theorem nodeToken (h : s.Sound text) (ht : t.Unbroken) (hc : c.In text) (mayBeginKey : Bool) :
    Ends (Escaping text) (Sound text) (s.nodeToken t c mayBeginKey) :=
  h.savePlace.bind fun _ hs => push hc hs.unbroken ht

theorem blockText (h : s.Sound text) : Ends (Escaping text) (Sound text) s.blockText :=
  h.forgetPlace.bind fun s hs =>
    (blockScalar_in hs.cursor s.indent).bind fun _ hr => push hr hs.unbroken nofun

/-- The scanner after a token is as sound as before it. -/
theorem token (h : s.Sound text) : Ends (Escaping text) (Sound text) s.token := by
  have hscalar : ∀ (read : List Char) (plain : Bool) {c : Cursor} (fresh : Bool), c.In text →
      Ends (Escaping text) (Sound text)
        (s.nodeToken (.scalar (String.ofList read) plain) c fresh) :=
    fun read plain _ _ hc => h.nodeToken (t := .scalar (String.ofList read) plain) nofun hc _
  have hname : ∀ t : String → Token, (∀ name, (t name).Unbroken) →
      Ends (Escaping text) (Sound text) (do
        let r ← Token.anchorName s.cursor
        s.nodeToken (t r.1) r.2 false) :=
    fun t ht => (Token.anchorName_in h.cursor).bind fun r hr => h.nodeToken (ht _) hr _
  unfold Scanner.token
  extract_lets c ch separated
  refine .ite (fun _ => ?_) fun _ => ?_
  · exact (Token.directiveAt_in h.cursor).bind fun r hr => h.outermost hr.1 hr.2
  refine .ite (fun _ => ?_) fun _ => ?_
  · exact h.outermost nofun (h.cursor.advance 3)
  refine .ite (fun _ => ?_) fun _ => ?_
  · exact h.outermost nofun (h.cursor.advance 3)
  refine .ite (fun _ => ?_) fun _ => ?_
  · exact h.beginFlow nofun
  refine .ite (fun _ => ?_) fun _ => ?_
  · exact h.beginFlow nofun
  refine .ite (fun _ => ?_) fun _ => ?_
  · exact h.endFlow nofun
  refine .ite (fun _ => ?_) fun _ => ?_
  · exact h.endFlow nofun
  refine .ite (fun _ => ?_) fun _ => ?_
  · exact h.flowEntry
  refine .ite (fun _ => ?_) fun _ => ?_
  · exact h.blockEntry
  refine .ite (fun _ => ?_) fun _ => ?_
  · exact h.markedKey
  refine .ite (fun _ => ?_) fun _ => ?_
  · exact h.value
  refine .ite (fun _ => ?_) fun _ => ?_
  · exact hname .alias nofun
  refine .ite (fun _ => ?_) fun _ => ?_
  · exact hname .anchor nofun
  refine .ite (fun _ => ?_) fun _ => ?_
  · exact (Token.tagAt_in h.cursor).bind fun r hr => h.nodeToken hr.1 hr.2 _
  refine .ite (fun _ => ?_) fun _ => ?_
  · exact h.blockText
  refine .ite (fun _ => ?_) fun _ => ?_
  · exact (quotedScalar_in h.cursor).bind fun r hr => hscalar _ _ _ hr
  refine .ite (fun _ => ?_) fun _ => ?_
  · exact hscalar _ _ _ (plainScalar_in h.cursor ..)
  · exact escaping_malformed

theorem toToken (h : s.Sound text) : Ends (Escaping text) (Sound text) s.toToken :=
  (h.skipToToken _).forgetPast.map fun s hs => hs.unwind s.cursor.column

/-- The token that ends the tokens read before a failure tells of it. -/
theorem eq_of_broken (h : s.Sound text) {f g : Failure} (hg : .broken g ∈ s.brokenOff f) :
    g = f := by
  rcases List.mem_append.1 hg with hg | hg
  · have hread := List.mem_reverse.1 (List.mem_of_mem_take hg)
    exact absurd rfl (h.unbroken _ hread g)
  · exact Token.broken.inj (List.mem_singleton.1 hg)

/-- A broken token among those still to be read tells of an escaping failure. -/
theorem escaping (h : s.Sound text) {n : Nat} {f : Failure} (hf : .broken f ∈ s.tokens n) :
    Escaping text f := by
  induction n generalizing s with
  | zero =>
      rw [h.eq_of_broken hf]
      exact escaping_malformed
  | succ n ih =>
      have hnext := h.toToken
      unfold tokens at hf
      split at hf
      next failure heq =>
        rw [heq] at hnext
        rw [h.eq_of_broken hf]
        exact hnext
      next t heq =>
        rw [heq] at hnext
        split at hf
        · have hlast := Sound.outermost hnext (t := .finish) nofun hnext.cursor
          split at hf
          next t heq =>
            rw [heq] at hlast
            exact absurd rfl (hlast.unbroken _ (List.mem_reverse.1 hf) f)
          next failure heq =>
            rw [heq] at hlast
            rw [h.eq_of_broken hf]
            exact hlast
        · have htoken := Sound.token hnext
          split at hf
          next t heq =>
            rw [heq] at htoken
            exact ih htoken hf
          next failure heq =>
            rw [heq] at htoken
            rw [h.eq_of_broken hf]
            exact htoken

end Sound

theorem start_sound (text : List Char) : (start text).Sound text :=
  ⟨List.suffix_rfl, fun _ ht => absurd ht List.not_mem_nil⟩

end Scanner

/-- The token that ends a broken text tells of an escaping failure. -/
theorem escaping_of_broken {f : Failure} (h : .broken f ∈ Token.ofText text) :
    Escaping text f := by
  have hstart := Scanner.start_sound text
  unfold Token.ofText at h
  split at h
  · dsimp only at h
    split at h
    · have hnext : Scanner.Sound text
          { Scanner.start text with cursor := (Scanner.start text).cursor.next } :=
        ⟨hstart.cursor.next, hstart.unbroken⟩
      exact hnext.escaping h
    · exact hstart.escaping h
  · rw [Token.broken.inj (List.mem_singleton.1 h)]
    exact escaping_malformed

end Verdict.Yaml
