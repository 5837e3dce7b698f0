import ProjectHub.Proofs.Json.Text
import ProjectHub.Proofs.NameMap
import ProjectHub.Proofs.Run

/-!
# Objects written are read back

An object is read member by member. A written object whose values are read back
is read back itself, whatever closes or follows it, so the text of a value
determines its syntax at every depth.
-/

namespace ProjectHub.Json

/-- What may follow a value: nothing, a comma, or a closing bracket or brace. -/
def EndsValue (rest : List Char) : Prop :=
  ∀ c ∈ rest.head?, c = ',' ∨ c = ']' ∨ c = '\x7d'

/-- A value is read as `source` wherever its text stands. -/
def ReadAs (value : Json) (source : Source) : Prop :=
  ∀ rest, EndsValue rest →
    (readSource (skipSpace (value.render.toList ++ rest))).map Reading.pair = some (source, rest)

/-- A member is read as the units of its name and the syntax of its value. -/
def MemberReadAs (m : String × Json) (s : List TextUnit × Source) : Prop :=
  s.1 = m.1.toList.map unitOf ∧ ReadAs m.2 s.2

theorem skipSpace_of_head {c : Char} (cs : List Char) (h : isSpace c = false) :
    skipSpace (c :: cs) = c :: cs := by
  simp [skipSpace, h]

/-- After its first member an object is closed, or goes on behind a comma. -/
theorem readMembers_member {cs nameText afterName valueText afterValue : List Char}
    {name : List TextUnit} {value : Source}
    (hquote : skipSpace cs = '"' :: nameText)
    (hname : (readUnits nameText).map Reading.pair = some (name, afterName))
    (hcolon : skipSpace afterName = ':' :: valueText)
    (hvalue : (readSource (skipSpace valueText)).map Reading.pair = some (value, afterValue)) :
    (readMembers cs).map Reading.pair =
      match skipSpace afterValue with
      | '\x7d' :: after => some ([(name, value)], after)
      | ',' :: more =>
        ((readMembers more).map Reading.pair).map fun p => ((name, value) :: p.1, p.2)
      | _ => none := by
  obtain ⟨name', hname', hn⟩ := Option.map_eq_some_iff.mp hname
  obtain ⟨value', hvalue', hv⟩ := Option.map_eq_some_iff.mp hvalue
  cases hn
  cases hv
  rw [readMembers]
  split
  · rename_i nameText' hq
    cases hquote.symm.trans hq
    simp only [hname', Option.bind_eq_bind, Option.bind_some]
    split
    · rename_i valueText' hc
      cases hcolon.symm.trans hc
      simp only [hvalue', Option.bind_some]
      split
      · rename_i after h
        simp [h, Reading.pair]
      · rename_i more h
        cases hmore : readMembers more <;> simp [h, hmore, Reading.pair]
      · rename_i hclose hcomma
        split
        · rename_i after h
          exact absurd h (hclose after)
        · rename_i more h
          exact absurd h (hcomma more)
        · rfl
    · rename_i hno
      exact absurd hcolon (hno valueText)
  · rename_i hno
    exact absurd hquote (hno nameText)

theorem readAs_text (s : String) : ReadAs (.text s) (.text (s.toList.map unitOf)) := by
  intro rest _
  have h := readSource_renderText s rest
  rw [render]
  rw [toList_renderText, List.cons_append] at h ⊢
  rw [skipSpace_of_head _ (by decide)]
  exact h

theorem readMembers_renderMember {m : String × Json} {s : List TextUnit × Source}
    (hm : MemberReadAs m s) {tail : List Char} (htail : EndsValue tail) :
    (readMembers ((renderText m.1 ++ ":" ++ m.2.render).toList ++ tail)).map Reading.pair =
      match skipSpace tail with
      | '\x7d' :: after => some ([s], after)
      | ',' :: more => ((readMembers more).map Reading.pair).map fun p => (s :: p.1, p.2)
      | _ => none := by
  have htext : (renderText m.1 ++ ":" ++ m.2.render).toList ++ tail =
      '"' :: (m.1.toList.flatMap escapeChar ++ '"' :: ':' :: (m.2.render.toList ++ tail)) := by
    simp [toList_renderText]
  rw [htext]
  have hs : s = (m.1.toList.map unitOf, s.2) := Prod.ext hm.1 rfl
  rw [hs]
  exact readMembers_member (skipSpace_of_head _ (by decide)) (readUnits_escaped _ _)
    (skipSpace_of_head _ (by decide)) (hm.2 tail htail)

/-- The members of an object are read up to its closing brace. -/
theorem readMembers_renderMembers {members : List (String × Json)}
    {sources : List (List TextUnit × Source)} (h : List.Forall₂ MemberReadAs members sources)
    (hne : members ≠ []) (rest : List Char) :
    (readMembers ((renderMembers members).toList ++ '\x7d' :: rest)).map Reading.pair =
      some (sources, rest) := by
  induction h with
  | nil => exact absurd rfl hne
  | @cons m s members sources hm hrest ih =>
      cases hrest with
      | nil =>
          have htail : EndsValue ('\x7d' :: rest) := by
            simp [EndsValue]
          rw [renderMembers, readMembers_renderMember hm htail, skipSpace_of_head _ (by decide)]
          rfl
      | @cons m' s' members sources hm' hrest =>
          have htext : (renderMembers (m :: m' :: members)).toList ++ '\x7d' :: rest =
              (renderText m.1 ++ ":" ++ m.2.render).toList ++
                ',' :: ((renderMembers (m' :: members)).toList ++ '\x7d' :: rest) := by
            simp [renderMembers]
          have htail : EndsValue
              (',' :: ((renderMembers (m' :: members)).toList ++ '\x7d' :: rest)) := by
            simp [EndsValue]
          rw [htext, readMembers_renderMember hm htail, skipSpace_of_head _ (by decide)]
          simp only
          rw [ih (List.cons_ne_nil _ _)]
          rfl

private theorem readSource_brace {cs : List Char} (h : ∀ after, skipSpace cs ≠ '\x7d' :: after) :
    (readSource ('\x7b' :: cs)).map Reading.pair =
      ((readMembers cs).map Reading.pair).map fun p => (.object p.1, p.2) := by
  rw [readSource]
  simp only [Char.reduceEq, if_false, if_true]
  cases readMembers cs <;> simp [Reading.pair, Reading.map, Reading.behind]

private theorem readSource_emptyObject (rest : List Char) :
    (readSource ('\x7b' :: '\x7d' :: rest)).map Reading.pair = some (.object [], rest) := by
  have hbrace : skipSpace ('\x7d' :: rest) = '\x7d' :: rest := skipSpace_of_head _ (by decide)
  rw [readSource]
  simp only [Char.reduceEq, if_false, if_true]
  split
  · rename_i after hclose
    cases hbrace.symm.trans hclose
    rfl
  · rename_i hno
    exact absurd hbrace (hno rest)

/-- An object of members that are read back is read back. -/
theorem readAs_object {members : List (String × Json)} {sources : List (List TextUnit × Source)}
    (h : List.Forall₂ MemberReadAs members sources) : ReadAs (.object members) (.object sources) := by
  intro rest _
  have htext : (Json.object members).render.toList ++ rest =
      '\x7b' :: ((renderMembers members).toList ++ '\x7d' :: rest) := by
    simp [render]
  rw [htext, skipSpace_of_head _ (by decide)]
  cases h with
  | nil => exact readSource_emptyObject rest
  | @cons m s members sources hm hrest =>
      have hquote : ∃ tail, (renderMembers (m :: members)).toList ++ '\x7d' :: rest = '"' :: tail := by
        cases members <;> simp [renderMembers, toList_renderText]
      rw [readSource_brace, readMembers_renderMembers (.cons hm hrest) (List.cons_ne_nil _ _)]
      · rfl
      · obtain ⟨tail, htail⟩ := hquote
        rw [htail, skipSpace_of_head _ (by decide)]
        intro after hafter
        cases hafter

/-- A map is read from the members that spell its entries. -/
theorem nameMap_map {α : Type} (decode : Decoder α) (depth : Nat) (source : α → Source)
    (m : NameMap α) (h : ∀ entry ∈ m.entries, decode depth (source entry.2) = some entry.2) :
    Decoder.nameMap decode (depth + 1)
        (.object (m.entries.map fun entry => (entry.1.toList.map unitOf, source entry.2))) =
      some m := by
  rw [Decoder.nameMap, mapM_map_eq_some, Option.bind_eq_bind, Option.bind_some,
    NameMap.ofList_entries]
  · rfl
  · intro entry hentry
    simp [textOfUnits?_map_unitOf, h entry hentry]

/-- The text of a value alone has the syntax that the value is read as. -/
theorem parse?_render {value : Json} {source : Source} (h : ReadAs value source) :
    Source.parse? value.render = some source := by
  have hread := h [] (by simp [EndsValue])
  rw [List.append_nil] at hread
  obtain ⟨r, hr, hpair⟩ := Option.map_eq_some_iff.mp hread
  have hvalue : r.value = source := congrArg Prod.fst hpair
  have hrest : r.rest = [] := congrArg Prod.snd hpair
  rw [Source.parse?, hr]
  show (if (skipSpace r.rest).isEmpty then some r.value else none) = some source
  rw [hrest, hvalue]
  rfl

end ProjectHub.Json
