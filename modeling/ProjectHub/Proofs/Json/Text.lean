import ProjectHub.Json.Decode
import ProjectHub.Json.Printer
import Mathlib.Data.List.Basic

/-!
# Strings written are read back

The printer escapes a string character by character, and the reader undoes one
escape at a time: what it returns for a whole string, whatever stands behind it,
are the units that spell the string and nothing else.
-/

namespace ProjectHub

/-- What a reading found and what it left, without the proof. -/
def Reading.pair {τ : Type} {α : Type} {input : List τ} (r : Reading α input) : α × List τ :=
  (r.value, r.rest)

namespace Json

theorem hexValue_hexDigit : ∀ n < 16, Text.hexValue (Text.hexDigit n) = some n := by
  decide

/-- The unit that a character is written as. -/
def unitOf (c : Char) : TextUnit :=
  if c = '\x08' ∨ c = '\t' ∨ c = '\n' ∨ c = '\x0c' ∨ c = '\r' then .char c
  else if c.toNat < 32 then .code c.toNat
  else .char c

private theorem readUnits_plain {c : Char} (tail : List Char) (hq : c ≠ '"') (hb : c ≠ '\\')
    (hc : ¬ c.toNat < 32) :
    (readUnits (c :: tail)).map Reading.pair =
      ((readUnits tail).map Reading.pair).map fun p => (.char c :: p.1, p.2) := by
  rw [readUnits]
  · cases readUnits tail <;> simp [hb, hc, Reading.pair, Reading.map, Reading.behind]
  · exact hq
  · intro a b d e rest h
    exact absurd h hb
  · intro d rest h
    exact absurd h hb

/-- One written character is read as its unit, and reading goes on behind it. -/
theorem readUnits_escapeChar (c : Char) (tail : List Char) :
    (readUnits (escapeChar c ++ tail)).map Reading.pair =
      ((readUnits tail).map Reading.pair).map fun p => (unitOf c :: p.1, p.2) := by
  by_cases hq : c = '"'
  · subst hq
    cases h : readUnits tail <;> simp [escapeChar, readUnits, shortEscape?, h, Reading.pair, unitOf]
  by_cases hb : c = '\\'
  · subst hb
    cases h : readUnits tail <;> simp [escapeChar, readUnits, shortEscape?, h, Reading.pair, unitOf]
  by_cases h8 : c = '\x08'
  · subst h8
    cases h : readUnits tail <;> simp [escapeChar, readUnits, shortEscape?, h, Reading.pair, unitOf]
  by_cases ht : c = '\t'
  · subst ht
    cases h : readUnits tail <;> simp [escapeChar, readUnits, shortEscape?, h, Reading.pair, unitOf]
  by_cases hn : c = '\n'
  · subst hn
    cases h : readUnits tail <;> simp [escapeChar, readUnits, shortEscape?, h, Reading.pair, unitOf]
  by_cases hf : c = '\x0c'
  · subst hf
    cases h : readUnits tail <;> simp [escapeChar, readUnits, shortEscape?, h, Reading.pair, unitOf]
  by_cases hr : c = '\r'
  · subst hr
    cases h : readUnits tail <;> simp [escapeChar, readUnits, shortEscape?, h, Reading.pair, unitOf]
  by_cases hc : c.toNat < 32
  · have h0 : Text.hexValue '0' = some 0 := by decide
    have h1 := hexValue_hexDigit (c.toNat / 16) (by omega)
    have h2 := hexValue_hexDigit (c.toNat % 16) (by omega)
    have hunit : 16 * (c.toNat / 16) + c.toNat % 16 = c.toNat := Nat.div_add_mod _ _
    have hwritten : escapeChar c =
        ['\\', 'u', '0', '0', Text.hexDigit (c.toNat / 16), Text.hexDigit (c.toNat % 16)] := by
      simp [escapeChar, hq, hb, h8, ht, hn, hf, hr, hc]
    have hcode : unitOf c = .code c.toNat := by
      simp [unitOf, h8, ht, hn, hf, hr, hc]
    rw [hwritten, hcode]
    cases h : readUnits tail <;> simp [readUnits, h, h0, h1, h2, hunit, Reading.pair]
  · have hunit : unitOf c = .char c := by
      simp [unitOf, hc]
    have hwritten : escapeChar c = [c] := by
      simp [escapeChar, hq, hb, h8, ht, hn, hf, hr, hc]
    rw [hwritten, hunit]
    exact readUnits_plain tail hq hb hc

/-- A written string is read as the units of its characters, up to its closing quote. -/
theorem readUnits_escaped (cs rest : List Char) :
    (readUnits (cs.flatMap escapeChar ++ '"' :: rest)).map Reading.pair =
      some (cs.map unitOf, rest) := by
  induction cs with
  | nil =>
      rw [List.flatMap_nil, List.nil_append, readUnits_quote]
      rfl
  | cons c cs ih =>
      rw [List.flatMap_cons, List.append_assoc, readUnits_escapeChar, ih]
      rfl

private theorem textOfUnits?_unitOf_cons (c : Char) (units : List TextUnit) :
    textOfUnits? (unitOf c :: units) = (textOfUnits? units).map (c :: ·) := by
  unfold unitOf
  split
  · rfl
  split
  · rename_i _ hc
    have hplain : c.toNat < 0xD800 ∨ 0xDFFF < c.toNat := by omega
    rw [textOfUnits?.eq_def]
    simp only [if_pos hplain, Char.ofNat_toNat]
  · rfl

/-- The units of a string spell that string. -/
theorem textOfUnits?_map_unitOf (cs : List Char) : textOfUnits? (cs.map unitOf) = some cs := by
  induction cs with
  | nil => rfl
  | cons c cs ih => rw [List.map_cons, textOfUnits?_unitOf_cons, ih]; rfl

theorem toList_renderText (s : String) :
    (renderText s).toList = '"' :: (s.toList.flatMap escapeChar ++ ['"']) := by
  simp [renderText]

/-- A written string is read as a text, and nothing behind it is touched. -/
theorem readSource_renderText (s : String) (rest : List Char) :
    (readSource ((renderText s).toList ++ rest)).map Reading.pair =
      some (.text (s.toList.map unitOf), rest) := by
  have h := readUnits_escaped s.toList rest
  rw [toList_renderText, List.cons_append, List.append_assoc, List.singleton_append, readSource]
  cases hread : readUnits (s.toList.flatMap escapeChar ++ '"' :: rest) with
  | none => simp [hread] at h
  | some r =>
      simp only [hread, Option.map_some, Option.some.injEq] at h
      simp only [Reading.pair, Prod.mk.injEq] at h
      simp [Reading.pair, Reading.map, Reading.behind, h.1, h.2]

end Json

end ProjectHub
