import ProjectHub.Document.Syntax
import ProjectHub.Proofs.Json.Text
import ProjectHub.Proofs.Run

/-!
# The grammar of documents

A document is a sequence of items. An item is a name, an equals sign and a value,
or a name, any number of labels and the items of a body between braces. Values in
a call or a list are separated by commas, and one more comma may stand behind the
last. The readers of a document accept what the grammar derives and nothing else,
and give the tree of the derivation.
-/

namespace ProjectHub.Document

mutual

/-- The tokens that spell a value. -/
inductive SpellsValue : List Token → Value → Prop
  | text (value : String) : SpellsValue [.text value] (.text value)
  | number (digits : String) : SpellsValue [.number digits] (.number digits)
  | true : SpellsValue [.ident "true"] (.bool true)
  | false : SpellsValue [.ident "false"] (.bool false)
  | word {name : String} (hname : name ≠ "true" ∧ name ≠ "false") :
    SpellsValue [.ident name] (.ident name)
  | call {name : String} {ts : List Token} {args : List Value}
    (hname : name ≠ "true" ∧ name ≠ "false") (hargs : SpellsSequence .closeParen ts args) :
    SpellsValue (.ident name :: .openParen :: ts) (.call name args)
  | list {ts : List Token} {items : List Value} (hitems : SpellsSequence .closeBracket ts items) :
    SpellsValue (.openBracket :: ts) (.list items)

/-- The tokens that spell values with commas between them, and a closing token behind. -/
inductive SpellsSequence : Token → List Token → List Value → Prop
  | close (close : Token) : SpellsSequence close [close] []
  | last {close : Token} {ts : List Token} {v : Value} (hv : SpellsValue ts v) :
    SpellsSequence close (ts ++ [close]) [v]
  | comma {close : Token} {ts rest : List Token} {v : Value} {vs : List Value}
    (hv : SpellsValue ts v) (hvs : SpellsSequence close rest vs) :
    SpellsSequence close (ts ++ .comma :: rest) (v :: vs)

end

mutual

/-- The tokens that spell an item, which stands on the line of its name. -/
inductive SpellsItem : List Placed → Item → Prop
  | attr {name : String} {line place : Nat} {ts : List Placed} {v : Value}
    (hv : SpellsValue (ts.map Placed.token) v) :
    SpellsItem (⟨.ident name, line⟩ :: ⟨.equals, place⟩ :: ts) (.attr ⟨name, v, line⟩)
  | block {name : String} {line place close : Nat} {ls ts : List Placed} {labels : List String}
    {body : Body} (hlabels : ls.map label? = labels.map some) (hbody : SpellsBody ts body) :
    SpellsItem (⟨.ident name, line⟩ ::
        (ls ++ ⟨.openBrace, place⟩ :: (ts ++ [⟨.closeBrace, close⟩])))
      (.block ⟨name, labels, body.attributes, body.blocks, line⟩)

/-- The tokens that spell items one after the other. -/
inductive SpellsBody : List Placed → Body → Prop
  | nil : SpellsBody [] .empty
  | cons {ts rest : List Placed} {item : Item} {body : Body} (hitem : SpellsItem ts item)
    (hbody : SpellsBody rest body) : SpellsBody (ts ++ rest) (.cons item body)

end

/-! ## What is read is spelled -/

theorem exists_of_map_pair {α : Type} {input rest : List Placed} {value : α}
    {x : Except Error (Reading α input)} (h : x.map Reading.pair = .ok (value, rest)) :
    ∃ hshorter, x = .ok ⟨value, rest, hshorter⟩ := by
  cases x with
  | error error => cases h
  | ok r =>
      obtain ⟨found, left, hshorter⟩ := r
      cases h
      exact ⟨hshorter, rfl⟩

section Sound

variable {last : Nat} {close : Token} {ts rest : List Placed}

/-- Tokens of which the front is read as a value. -/
def ValueSound (last : Nat) (ts : List Placed) : Prop :=
  ∀ r, readValue last ts = .ok r → ∃ front, ts = front ++ r.rest ∧
    SpellsValue (front.map Placed.token) r.value

/-- Tokens of which the front is read as a sequence of values. -/
def SequenceSound (last : Nat) (ts : List Placed) : Prop :=
  ∀ close r, readSequence last close ts = .ok r → ∃ front, ts = front ++ r.rest ∧
    SpellsSequence close (front.map Placed.token) r.value

theorem valueSound_step (hsequence : ∀ inner, inner.length < ts.length → SequenceSound last inner) :
    ValueSound last ts := by
  intro r hread
  rw [readValue.eq_def] at hread
  cases ts with
  | nil => cases hread
  | cons t others =>
      obtain ⟨token, line⟩ := t
      dsimp only at hread
      split at hread
      case h_1 =>
        cases hread
        exact ⟨[⟨_, line⟩], rfl, .text _⟩
      case h_2 =>
        cases hread
        exact ⟨[⟨_, line⟩], rfl, .number _⟩
      case h_3 =>
        cases hread
        exact ⟨[⟨_, line⟩], rfl, .true⟩
      case h_4 =>
        cases hread
        exact ⟨[⟨_, line⟩], rfl, .false⟩
      case h_5 _ name hnotTrue hnotFalse =>
        split at hread
        · rename_i place inner
          obtain ⟨args, hargs, hread⟩ := exists_of_bind_ok hread
          cases hread
          obtain ⟨front, hinner, hfront⟩ :=
            hsequence inner (Nat.lt_succ_of_lt (Nat.lt_succ_self _)) _ args hargs
          exact ⟨⟨.ident name, line⟩ :: ⟨.openParen, place⟩ :: front,
            congrArg (⟨.ident name, line⟩ :: ⟨.openParen, place⟩ :: ·) hinner,
            .call ⟨hnotTrue, hnotFalse⟩ hfront⟩
        · cases hread
          exact ⟨[⟨.ident name, line⟩], rfl, .word ⟨hnotTrue, hnotFalse⟩⟩
      case h_6 =>
        obtain ⟨items, hitems, hread⟩ := exists_of_bind_ok hread
        cases hread
        obtain ⟨front, hothers, hfront⟩ := hsequence others (Nat.lt_succ_self _) _ items hitems
        exact ⟨⟨.openBracket, line⟩ :: front, congrArg (⟨.openBracket, line⟩ :: ·) hothers,
          .list hfront⟩
      case h_7 => cases hread

theorem sequenceSound_step (hvalue : ValueSound last ts)
    (hsequence : ∀ inner, inner.length < ts.length → SequenceSound last inner) :
    SequenceSound last ts := by
  intro close r hread
  rw [readSequence.eq_def] at hread
  cases ts with
  | nil => cases hread
  | cons t others =>
      dsimp only at hread
      split at hread
      · rename_i hclose
        cases hread
        obtain ⟨token, line⟩ := t
        obtain rfl : token = close := hclose
        exact ⟨[⟨token, line⟩], rfl, .close _⟩
      · obtain ⟨first, hfirst, hread⟩ := exists_of_bind_ok hread
        obtain ⟨front, hfront, hspells⟩ := hvalue first hfirst
        split at hread
        · rename_i place more hleft
          obtain ⟨later, hlater, hread⟩ := exists_of_bind_ok hread
          cases hread
          have hfewer : more.length < (t :: others).length := by
            have := first.shorter
            rw [hleft] at this
            exact Nat.lt_of_succ_lt this
          obtain ⟨back, hback, hrest⟩ := hsequence more hfewer _ later hlater
          refine ⟨front ++ ⟨.comma, place⟩ :: back, ?_, ?_⟩
          · rw [List.append_assoc]
            exact hfront.trans (congrArg (front ++ ·) (hleft.trans (congrArg (_ :: ·) hback)))
          · rw [List.map_append]
            exact .comma hspells hrest
        · rename_i next more _ hleft
          split at hread
          · rename_i hclose
            cases hread
            obtain ⟨token, place⟩ := next
            obtain rfl : close = token := hclose.symm
            refine ⟨front ++ [⟨close, place⟩], ?_, ?_⟩
            · rw [List.append_assoc]
              exact hfront.trans (congrArg (front ++ ·) hleft)
            · rw [List.map_append]
              exact .last hspells
          · cases hread
        · cases hread

theorem valueSound (last : Nat) (ts : List Placed) :
    ValueSound last ts ∧ SequenceSound last ts := by
  induction hlength : ts.length using Nat.strongRecOn generalizing ts with
  | ind n ih =>
      have hsequence : ∀ inner : List Placed, inner.length < ts.length → SequenceSound last inner :=
        fun inner hinner => (ih inner.length (hlength ▸ hinner) inner rfl).2
      have hvalue := valueSound_step hsequence
      exact ⟨hvalue, sequenceSound_step hvalue hsequence⟩

theorem readLabels_sound (ts : List Placed) : ∃ front, ts = front ++ (readLabels ts).2 ∧
    front.map label? = (readLabels ts).1.map some := by
  fun_induction readLabels ts with
  | case1 => exact ⟨[], rfl, rfl⟩
  | case2 t rest label hlabel ih =>
      obtain ⟨front, hrest, hfront⟩ := ih
      exact ⟨t :: front, congrArg (t :: ·) hrest, by simp [hlabel, hfront]⟩
  | case3 t rest hnone => exact ⟨[], rfl, rfl⟩

/-- Tokens behind a name of which the front is read as an item. -/
def ItemSound (last : Nat) (ts : List Placed) : Prop :=
  ∀ name line r, readItem last name line ts = .ok r → ∃ front, ts = front ++ r.rest ∧
    SpellsItem (⟨.ident name, line⟩ :: front) r.value

/-- Tokens of which the front, up to a closing brace, is read as items. -/
def BodySound (last : Nat) (ts : List Placed) : Prop :=
  ∀ r, readBody last ts = .ok r → ∃ front place, ts = front ++ ⟨.closeBrace, place⟩ :: r.rest ∧
    SpellsBody front r.value

theorem itemSound_step (hbody : ∀ inner, inner.length < ts.length → BodySound last inner) :
    ItemSound last ts := by
  intro name line r hread
  rw [readItem.eq_def] at hread
  split at hread
  · rename_i place others
    obtain ⟨value, hvalue, hread⟩ := exists_of_bind_ok hread
    cases hread
    obtain ⟨front, hothers, hfront⟩ := (valueSound last others).1 value hvalue
    exact ⟨⟨.equals, place⟩ :: front, congrArg (⟨.equals, place⟩ :: ·) hothers, .attr hfront⟩
  · obtain ⟨ls, hls, hlabels⟩ := readLabels_sound ts
    split at hread
    · rename_i place inner hinner
      obtain ⟨body, hread', hread⟩ := exists_of_bind_ok hread
      cases hread
      rw [hinner] at hls
      have hfewer : inner.length < ts.length := by
        rw [hls, List.length_append]
        simp only [List.length_cons]
        omega
      obtain ⟨front, close, hclose, hfront⟩ := hbody inner hfewer body hread'
      refine ⟨ls ++ ⟨.openBrace, place⟩ :: (front ++ [⟨.closeBrace, close⟩]), ?_,
        .block hlabels hfront⟩
      refine hls.trans ?_
      rw [List.append_assoc, List.cons_append, List.append_assoc, List.singleton_append]
      exact congrArg (ls ++ _ :: ·) hclose
    · cases hread

theorem bodySound_step (hitem : ∀ inner, inner.length < ts.length → ItemSound last inner)
    (hbody : ∀ inner, inner.length < ts.length → BodySound last inner) : BodySound last ts := by
  intro r hread
  rw [readBody.eq_def] at hread
  cases ts with
  | nil => cases hread
  | cons t others =>
      obtain ⟨token, line⟩ := t
      dsimp only at hread
      split at hread
      · cases hread
        exact ⟨[], line, rfl, .nil⟩
      · rename_i name
        obtain ⟨item, hfirst, hread⟩ := exists_of_bind_ok hread
        obtain ⟨body, hlater, hread⟩ := exists_of_bind_ok hread
        cases hread
        obtain ⟨front, hothers, hspells⟩ := hitem others (Nat.lt_succ_self _) name line item hfirst
        obtain ⟨back, close, hclose, hrest⟩ :=
          hbody item.rest (Nat.lt_succ_of_lt item.shorter) body hlater
        refine ⟨⟨.ident name, line⟩ :: front ++ back, close, ?_, .cons hspells hrest⟩
        rw [List.append_assoc, List.cons_append]
        exact congrArg (_ :: ·) (hothers.trans (congrArg (front ++ ·) hclose))
      · cases hread

theorem itemSound (last : Nat) (ts : List Placed) : ItemSound last ts ∧ BodySound last ts := by
  induction hlength : ts.length using Nat.strongRecOn generalizing ts with
  | ind n ih =>
      have hless (inner : List Placed) (hinner : inner.length < ts.length) :
          ItemSound last inner ∧ BodySound last inner :=
        ih inner.length (hlength ▸ hinner) inner rfl
      exact ⟨itemSound_step fun inner hinner => (hless inner hinner).2,
        bodySound_step (fun inner hinner => (hless inner hinner).1)
          fun inner hinner => (hless inner hinner).2⟩

theorem spellsBody_of_readItems {body : Body} (h : readItems last ts = .ok body) :
    SpellsBody ts body := by
  induction hlength : ts.length using Nat.strongRecOn generalizing ts body with
  | ind n ih =>
      rw [readItems.eq_def] at h
      cases ts with
      | nil =>
          cases h
          exact .nil
      | cons t others =>
          obtain ⟨token, line⟩ := t
          dsimp only at h
          split at h
          · rename_i name
            obtain ⟨item, hfirst, h⟩ := exists_of_bind_ok h
            obtain ⟨later, hlater, h⟩ := exists_of_bind_ok h
            cases h
            obtain ⟨front, hothers, hspells⟩ := (itemSound last others).1 name line item hfirst
            have hrest := ih item.rest.length (hlength ▸ Nat.lt_succ_of_lt item.shorter) hlater rfl
            have hwhole := SpellsBody.cons hspells hrest
            rwa [List.cons_append, ← hothers] at hwhole
          · cases h

end Sound

/-! ## What is spelled is read -/

/-- Whether tokens do not open a call after the word before them. -/
def NoCall (rest : List Placed) : Prop :=
  ∀ t ∈ rest.head?, t.token ≠ .openParen

theorem map_token_eq_cons {ts : List Placed} {token : Token} {tokens : List Token}
    (h : ts.map Placed.token = token :: tokens) :
    ∃ line rest, ts = ⟨token, line⟩ :: rest ∧ rest.map Placed.token = tokens := by
  obtain ⟨⟨_, line⟩, rest, rfl, rfl, hrest⟩ := List.map_eq_cons_iff.mp h
  exact ⟨line, rest, rfl, hrest⟩

section Sequence

variable {last line : Nat} {close : Token} {ts more rest : List Placed} {v : Value}
  {vs : List Value}

theorem readSequence_close :
    (readSequence last close (⟨close, line⟩ :: rest)).map Reading.pair = .ok ([], rest) := by
  rw [readSequence, if_pos rfl]
  rfl

variable {t : Placed} (hopen : t.token ≠ close)
include hopen

theorem readSequence_last (hclose : close ≠ .comma)
    (hfirst : (readValue last (t :: ts)).map Reading.pair = .ok (v, ⟨close, line⟩ :: rest)) :
    (readSequence last close (t :: ts)).map Reading.pair = .ok ([v], rest) := by
  obtain ⟨hshorter, hread⟩ := exists_of_map_pair hfirst
  rw [readSequence, if_neg hopen, hread]
  simp only [bind, Except.bind]
  split
  · rename_i heq
    cases heq
    exact absurd rfl hclose
  · rename_i heq
    cases heq
    rw [if_pos rfl]
    rfl
  · rename_i heq
    cases heq

theorem readSequence_comma
    (hfirst : (readValue last (t :: ts)).map Reading.pair = .ok (v, ⟨.comma, line⟩ :: more))
    (hmore : (readSequence last close more).map Reading.pair = .ok (vs, rest)) :
    (readSequence last close (t :: ts)).map Reading.pair = .ok (v :: vs, rest) := by
  obtain ⟨hshorter, hread⟩ := exists_of_map_pair hfirst
  obtain ⟨hfewer, hlater⟩ := exists_of_map_pair hmore
  rw [readSequence, if_neg hopen, hread]
  simp only [hlater, bind, Except.bind]
  rfl

end Sequence

section Word

variable {name : String} (hname : name ≠ "true" ∧ name ≠ "false") {last line : Nat}
include hname

/-- A word that is no truth value is read as a word, unless it is called. -/
theorem readValue_ident {rest : List Placed} (hrest : NoCall rest) :
    (readValue last (⟨.ident name, line⟩ :: rest)).map Reading.pair = .ok (.ident name, rest) := by
  rw [readValue]
  split
  case h_3 _ heq => exact absurd (Token.ident.inj heq) hname.1
  case h_4 _ heq => exact absurd (Token.ident.inj heq) hname.2
  case h_5 _ word _ _ heq =>
    cases heq
    split
    · exact absurd rfl (hrest _ rfl)
    · rfl
  all_goals simp_all

theorem readValue_call {args : List Value} {paren : Nat} {inner rest : List Placed}
    (hargs : (readSequence last .closeParen inner).map Reading.pair = .ok (args, rest)) :
    (readValue last (⟨.ident name, line⟩ :: ⟨.openParen, paren⟩ :: inner)).map Reading.pair =
      .ok (.call name args, rest) := by
  obtain ⟨hshorter, hread⟩ := exists_of_map_pair hargs
  rw [readValue]
  split
  case h_3 _ heq => exact absurd (Token.ident.inj heq) hname.1
  case h_4 _ heq => exact absurd (Token.ident.inj heq) hname.2
  case h_5 _ word _ _ heq =>
    cases heq
    simp only [hread, bind, Except.bind]
    rfl
  all_goals simp_all

end Word

theorem readValue_list {items : List Value} {last line : Nat} {inner rest : List Placed}
    (hitems : (readSequence last .closeBracket inner).map Reading.pair = .ok (items, rest)) :
    (readValue last (⟨.openBracket, line⟩ :: inner)).map Reading.pair =
      .ok (.list items, rest) := by
  obtain ⟨hshorter, hread⟩ := exists_of_map_pair hitems
  rw [readValue]
  simp only [hread, bind, Except.bind]
  rfl

/-- The first token of a value closes nothing. -/
theorem SpellsValue.head {ts : List Token} {v : Value} (h : SpellsValue ts v) :
    ∃ token rest, ts = token :: rest ∧ token ≠ .closeParen ∧ token ≠ .closeBracket := by
  cases h <;> exact ⟨_, _, rfl, by simp, by simp⟩

mutual

/-- A value is read from the tokens that spell it, whatever follows but the arguments of a call. -/
theorem SpellsValue.read {tokens : List Token} {v : Value} (h : SpellsValue tokens v) (last : Nat)
    {ts rest : List Placed} (hts : ts.map Placed.token = tokens) (hrest : NoCall rest) :
    (readValue last (ts ++ rest)).map Reading.pair = .ok (v, rest) := by
  match h with
  | .text _ | .number _ | .true | .false =>
      obtain ⟨line, inner, rfl, hinner⟩ := map_token_eq_cons hts
      rw [List.map_eq_nil_iff.mp hinner, List.singleton_append, readValue]
      rfl
  | .word hname =>
      obtain ⟨line, inner, rfl, hinner⟩ := map_token_eq_cons hts
      rw [List.map_eq_nil_iff.mp hinner, List.singleton_append]
      exact readValue_ident hname hrest
  | .call hname hargs =>
      obtain ⟨line, others, rfl, hothers⟩ := map_token_eq_cons hts
      obtain ⟨paren, inner, rfl, hinner⟩ := map_token_eq_cons hothers
      exact readValue_call hname (hargs.read (.inl rfl) last hinner rest)
  | .list hitems =>
      obtain ⟨line, inner, rfl, hinner⟩ := map_token_eq_cons hts
      exact readValue_list (hitems.read (.inr rfl) last hinner rest)

theorem SpellsSequence.read {close : Token} {tokens : List Token} {vs : List Value}
    (h : SpellsSequence close tokens vs) (hclose : close = .closeParen ∨ close = .closeBracket)
    (last : Nat) {ts : List Placed} (hts : ts.map Placed.token = tokens) (rest : List Placed) :
    (readSequence last close (ts ++ rest)).map Reading.pair = .ok (vs, rest) := by
  match h with
  | .close _ =>
      obtain ⟨line, inner, rfl, hinner⟩ := map_token_eq_cons hts
      rw [List.map_eq_nil_iff.mp hinner, List.singleton_append]
      exact readSequence_close
  | .last hv =>
      obtain ⟨front, back, rfl, hfront, hback⟩ := List.map_eq_append_iff.mp hts
      obtain ⟨line, after, rfl, hafter⟩ := map_token_eq_cons hback
      have hend : NoCall (⟨close, line⟩ :: rest) := by
        intro t ht
        cases ht
        rcases hclose with rfl | rfl <;> simp
      have hread := hv.read last hfront hend
      obtain ⟨token, others, htoken, hparen, hbracket⟩ := hv.head
      rw [htoken] at hfront
      obtain ⟨first, inner, rfl, -⟩ := map_token_eq_cons hfront
      rw [List.map_eq_nil_iff.mp hafter, List.append_assoc, List.singleton_append]
      refine readSequence_last ?_ ?_ hread
      · rcases hclose with rfl | rfl
        · exact hparen
        · exact hbracket
      · rcases hclose with rfl | rfl <;> simp
  | .comma hv hvs =>
      obtain ⟨front, back, rfl, hfront, hback⟩ := List.map_eq_append_iff.mp hts
      obtain ⟨line, more, rfl, hmore⟩ := map_token_eq_cons hback
      have hend : NoCall (⟨.comma, line⟩ :: (more ++ rest)) := by
        intro t ht
        cases ht
        simp
      have hread := hv.read last hfront hend
      obtain ⟨token, others, htoken, hparen, hbracket⟩ := hv.head
      rw [htoken] at hfront
      obtain ⟨first, inner, rfl, -⟩ := map_token_eq_cons hfront
      rw [List.append_assoc, List.cons_append]
      refine readSequence_comma ?_ hread (hvs.read hclose last hmore rest)
      rcases hclose with rfl | rfl
      · exact hparen
      · exact hbracket

end

section Items

variable {last line place : Nat} {name : String} {ts more inner rest : List Placed}

theorem readItem_attribute {value : Value}
    (hvalue : (readValue last ts).map Reading.pair = .ok (value, rest)) :
    (readItem last name line (⟨.equals, place⟩ :: ts)).map Reading.pair =
      .ok (.attr ⟨name, value, line⟩, rest) := by
  obtain ⟨hshorter, hread⟩ := exists_of_map_pair hvalue
  rw [readItem]
  simp only [hread, bind, Except.bind]
  rfl

theorem readLabels_labels {labels : List String} (hts : ts.map label? = labels.map some) :
    readLabels (ts ++ ⟨.openBrace, place⟩ :: rest) = (labels, ⟨.openBrace, place⟩ :: rest) := by
  induction labels generalizing ts with
  | nil =>
      rw [List.map_eq_nil_iff.mp hts]
      rfl
  | cons label labels ih =>
      obtain ⟨t, others, rfl, ht, hothers⟩ := List.map_eq_cons_iff.mp hts
      simp only [List.cons_append, readLabels, ht, ih hothers]

theorem readItem_block {labels : List String} (hts : ts.map label? = labels.map some)
    {body : Body} (hbody : (readBody last inner).map Reading.pair = .ok (body, rest)) :
    (readItem last name line (ts ++ ⟨.openBrace, place⟩ :: inner)).map Reading.pair =
      .ok (.block ⟨name, labels, body.attributes, body.blocks, line⟩, rest) := by
  obtain ⟨hshorter, hread⟩ := exists_of_map_pair hbody
  have hlabels : readLabels (ts ++ ⟨.openBrace, place⟩ :: inner) =
      (labels, ⟨.openBrace, place⟩ :: inner) := readLabels_labels hts
  -- an equals sign is no label, so the item is not read as an attribute
  have hhead : ∀ line more, ts ++ ⟨.openBrace, place⟩ :: inner ≠ ⟨.equals, line⟩ :: more := by
    intro line more heq
    cases ts with
    | nil => cases heq
    | cons t ts =>
        cases heq
        cases labels <;> cases hts
  generalize ts ++ ⟨.openBrace, place⟩ :: inner = input at hlabels hhead
  rw [readItem]
  · split
    · rename_i brace found hfound
      rw [hlabels] at hfound
      cases hfound
      simp only [hread, bind, Except.bind]
      simp only [pure, Except.pure, Except.map, Reading.pair, hlabels]
    · rename_i hnone
      exact absurd (congrArg Prod.snd hlabels) (hnone _ _)
  · exact fun line more heq => hhead line more heq

theorem readBody_close :
    (readBody last (⟨.closeBrace, place⟩ :: rest)).map Reading.pair = .ok (.empty, rest) := by
  rw [readBody]
  rfl

variable {item : Item} (hitem : (readItem last name line ts).map Reading.pair = .ok (item, more))
  {body : Body}
include hitem

theorem readBody_item (hbody : (readBody last more).map Reading.pair = .ok (body, rest)) :
    (readBody last (⟨.ident name, line⟩ :: ts)).map Reading.pair = .ok (.cons item body, rest) := by
  obtain ⟨hshorter, hread⟩ := exists_of_map_pair hitem
  obtain ⟨hfewer, hlater⟩ := exists_of_map_pair hbody
  rw [readBody]
  simp only [hread, hlater, bind, Except.bind]
  rfl

theorem readItems_item (hbody : readItems last more = .ok body) :
    readItems last (⟨.ident name, line⟩ :: ts) = .ok (.cons item body) := by
  obtain ⟨hshorter, hread⟩ := exists_of_map_pair hitem
  rw [readItems]
  simp only [hread, hbody, bind, Except.bind]
  rfl

end Items

theorem SpellsItem.head {ts : List Placed} {item : Item} (h : SpellsItem ts item) :
    ∃ name line inner, ts = ⟨.ident name, line⟩ :: inner := by
  cases h <;> exact ⟨_, _, _, rfl⟩

theorem SpellsBody.noCall {ts rest : List Placed} {body : Body} (h : SpellsBody ts body)
    (hrest : NoCall rest) : NoCall (ts ++ rest) := by
  cases h with
  | nil => exact hrest
  | cons hitem hbody =>
      obtain ⟨name, line, inner, rfl⟩ := hitem.head
      intro t ht
      cases ht
      simp

mutual

/-- An item is read from the tokens behind its name, whatever follows but the arguments of a
call. -/
theorem SpellsItem.read {ts : List Placed} {item : Item} (h : SpellsItem ts item) :
    ∃ name line inner, ts = ⟨.ident name, line⟩ :: inner ∧ ∀ last rest, NoCall rest →
      (readItem last name line (inner ++ rest)).map Reading.pair = .ok (item, rest) := by
  match h with
  | .attr hv =>
      exact ⟨_, _, _, rfl, fun last rest hrest => readItem_attribute (hv.read last rfl hrest)⟩
  | .block hlabels hbody =>
      refine ⟨_, _, _, rfl, fun last rest _ => ?_⟩
      have hinner := fun close => hbody.readBody last close rest
      rw [List.append_assoc, List.cons_append, List.append_assoc, List.singleton_append]
      exact readItem_block hlabels (hinner _)

theorem SpellsBody.readBody {ts : List Placed} {body : Body} (h : SpellsBody ts body)
    (last place : Nat) (rest : List Placed) :
    (Document.readBody last (ts ++ ⟨.closeBrace, place⟩ :: rest)).map Reading.pair =
      .ok (body, rest) := by
  match h with
  | .nil => exact readBody_close
  | .cons hitem hbody =>
      have hend : NoCall (⟨.closeBrace, place⟩ :: rest) := by
        intro t ht
        cases ht
        simp
      obtain ⟨name, line, inner, hts, hread⟩ := hitem.read
      rw [hts, List.append_assoc, List.cons_append]
      exact readBody_item (hread last _ (hbody.noCall hend)) (hbody.readBody last place rest)

end

theorem SpellsBody.readItems {ts : List Placed} {body : Body} (h : SpellsBody ts body)
    (last : Nat) : Document.readItems last ts = .ok body := by
  match h with
  | .nil =>
      rw [Document.readItems]
  | .cons hitem hbody =>
      have hend := hbody.noCall (fun t ht => nomatch ht : NoCall [])
      rw [List.append_nil] at hend
      obtain ⟨name, line, inner, hts, hread⟩ := hitem.read
      rw [hts, List.cons_append]
      exact readItems_item (hread last _ hend) (hbody.readItems last)

/-- A document is read as a body if and only if the body is spelled by its tokens. -/
theorem bodyOfTokens_eq_ok_iff {ts : List Placed} {body : Body} :
    bodyOfTokens ts = .ok body ↔ SpellsBody ts body :=
  ⟨spellsBody_of_readItems, fun h => h.readItems _⟩

end ProjectHub.Document
