import ProjectHub.Proofs.Document.Tree

/-!
# Braces

In the tokens of a body every brace that opens is closed, and none is closed that
was not opened. So the tokens of blocks can be cut between two blocks and nowhere
else, if the part in front of the cut is to close what it opens and to end with a
brace.
-/

namespace ProjectHub.Document

/-- One for a brace that opens, minus one for a brace that closes. -/
def Token.rise : Token → Int
  | .openBrace => 1
  | .closeBrace => -1
  | _ => 0

/-- How many more braces open than close. -/
def depth : List Token → Int
  | [] => 0
  | t :: ts => t.rise + depth ts

@[simp] theorem depth_nil : depth [] = 0 := rfl

@[simp] theorem depth_cons (t : Token) (ts : List Token) : depth (t :: ts) = t.rise + depth ts := rfl

@[simp] theorem depth_append (ts us : List Token) : depth (ts ++ us) = depth ts + depth us := by
  induction ts with
  | nil => exact (Int.zero_add _).symm
  | cons t ts ih => rw [List.cons_append, depth_cons, depth_cons, ih, Int.add_assoc]

/-- Tokens none of which is a brace. -/
def Flat (ts : List Token) : Prop :=
  ∀ t ∈ ts, t.rise = 0

/-- Tokens that close the braces they open and no others. -/
structure Balanced (ts : List Token) : Prop where
  /-- None is closed before it is opened. -/
  opened : ∀ front, front <+: ts → 0 ≤ depth front
  /-- In the end none is open. -/
  settled : depth ts = 0

/-- Tokens that end with the last of their braces. -/
structure Closed (ts : List Token) : Prop where
  /-- As many braces close as open. -/
  settled : depth ts = 0
  /-- Nothing stands behind the last brace. -/
  ended : ∀ t ∈ ts.getLast?, t = .closeBrace

section

variable {ts us front : List Token}

theorem prefix_cases (h : front <+: ts ++ us) :
    front <+: ts ∨ ∃ rest, rest <+: us ∧ front = ts ++ rest := by
  obtain ⟨back, hback⟩ := h
  rcases List.append_eq_append_iff.mp hback with ⟨between, hts, -⟩ | ⟨rest, hfront, hus⟩
  · exact .inl ⟨between, hts.symm⟩
  · exact .inr ⟨rest, ⟨back, hus.symm⟩, hfront⟩

theorem Flat.depth (h : Flat ts) : depth ts = 0 := by
  induction ts with
  | nil => rfl
  | cons t ts ih =>
      obtain ⟨ht, hts⟩ := List.forall_mem_cons.mp h
      rw [depth_cons, ht, ih hts, Int.add_zero]

theorem Flat.of_prefix (h : Flat ts) (hfront : front <+: ts) : Flat front :=
  fun t ht => h t (hfront.subset ht)

theorem Flat.append (h : Flat ts) (hus : Flat us) : Flat (ts ++ us) := by
  intro t ht
  rcases List.mem_append.mp ht with ht | ht
  · exact h t ht
  · exact hus t ht

theorem flat_nil : Flat [] :=
  fun _ ht => nomatch ht

theorem flat_cons {t : Token} (ht : t.rise = 0) (h : Flat ts) : Flat (t :: ts) :=
  List.forall_mem_cons.mpr ⟨ht, h⟩

theorem flat_singleton {t : Token} (ht : t.rise = 0) : Flat [t] :=
  flat_cons ht flat_nil

theorem Flat.balanced (h : Flat ts) : Balanced ts :=
  ⟨fun _ hfront => Int.le_of_eq (h.of_prefix hfront).depth.symm, h.depth⟩

theorem Balanced.append (h : Balanced ts) (hus : Balanced us) : Balanced (ts ++ us) := by
  refine ⟨fun front hfront => ?_, by rw [depth_append, h.settled, hus.settled, Int.add_zero]⟩
  rcases prefix_cases hfront with hfront | ⟨rest, hrest, rfl⟩
  · exact h.opened front hfront
  · rw [depth_append, h.settled, Int.zero_add]
    exact hus.opened rest hrest

/-- Between the braces around balanced tokens one brace is open. -/
theorem Balanced.prefix_braces (h : Balanced ts)
    (hfront : front <+: .openBrace :: (ts ++ [.closeBrace])) :
    front = [] ∨ front = .openBrace :: (ts ++ [.closeBrace]) ∨ 1 ≤ depth front := by
  rcases List.prefix_cons_iff.mp hfront with rfl | ⟨rest, rfl, hrest⟩
  · exact .inl rfl
  · rcases List.prefix_concat_iff.mp hrest with rfl | hrest
    · exact .inr (.inl rfl)
    · have hopened := h.opened rest hrest
      rw [depth_cons, Token.rise]
      exact .inr (.inr (by omega))

theorem Balanced.braces (h : Balanced ts) : Balanced (.openBrace :: (ts ++ [.closeBrace])) := by
  have hsettled : depth (.openBrace :: (ts ++ [.closeBrace])) = 0 := by
    simp [h.settled, Token.rise]
  refine ⟨fun front hfront => ?_, hsettled⟩
  rcases h.prefix_braces hfront with rfl | rfl | hdepth
  · exact Int.le_refl _
  · exact Int.le_of_eq hsettled.symm
  · omega

theorem closed_nil : Closed [] :=
  ⟨rfl, by simp⟩

theorem Closed.append (h : Closed ts) (hus : Closed us) : Closed (ts ++ us) := by
  refine ⟨by rw [depth_append, h.settled, hus.settled, Int.add_zero], ?_⟩
  intro t ht
  rw [List.getLast?_append] at ht
  cases hlast : us.getLast? with
  | none =>
      rw [hlast] at ht
      exact h.ended t ht
  | some last =>
      rw [hlast] at ht
      exact hus.ended t (hlast.trans ht)

theorem Closed.of_append (h : Closed ts) (hwhole : Closed (ts ++ us)) : Closed us := by
  have hdepth := hwhole.settled
  rw [depth_append, h.settled, Int.zero_add] at hdepth
  exact ⟨hdepth, fun t ht => hwhole.ended t (List.mem_getLast?_append_of_mem_getLast? ht)⟩

theorem Closed.eq_nil_of_flat (h : Closed ts) (hflat : Flat ts) : ts = [] := by
  rcases List.eq_nil_or_concat ts with rfl | ⟨front, t, rfl⟩
  · rfl
  · obtain rfl := h.ended t (by simp)
    exact absurd (hflat .closeBrace (by simp)) (by decide)

/-- Tokens without braces and behind them balanced tokens in braces are not closed before their
end. -/
theorem Closed.eq_of_prefix {inner : List Token} (hflat : Flat ts) (hinner : Balanced inner)
    (hfront : front <+: ts ++ .openBrace :: (inner ++ [.closeBrace])) (h : Closed front) :
    front = [] ∨ front = ts ++ .openBrace :: (inner ++ [.closeBrace]) := by
  rcases prefix_cases hfront with hfront | ⟨rest, hrest, rfl⟩
  · exact .inl (h.eq_nil_of_flat (hflat.of_prefix hfront))
  · rcases hinner.prefix_braces hrest with rfl | rfl | hdepth
    · rw [List.append_nil] at h ⊢
      exact .inl (h.eq_nil_of_flat hflat)
    · exact .inr rfl
    · have hsettled := h.settled
      rw [depth_append, hflat.depth] at hsettled
      omega

end

/-! ## Braces of what is spelled -/

mutual

theorem SpellsValue.flat {ts : List Token} {v : Value} (h : SpellsValue ts v) : Flat ts := by
  match h with
  | .text _ | .number _ | .true | .false | .word _ => exact flat_singleton rfl
  | .call _ hargs => exact flat_cons rfl (flat_cons rfl (hargs.flat rfl))
  | .list hitems => exact flat_cons rfl (hitems.flat rfl)

theorem SpellsSequence.flat {close : Token} {ts : List Token} {vs : List Value}
    (h : SpellsSequence close ts vs) (hclose : close.rise = 0) : Flat ts := by
  match h with
  | .close _ => exact flat_singleton hclose
  | .last hv => exact hv.flat.append (flat_singleton hclose)
  | .comma hv hvs => exact hv.flat.append (flat_cons rfl (hvs.flat hclose))

end

theorem flat_labels {ls : List Placed} {labels : List String}
    (h : ls.map label? = labels.map some) : Flat (ls.map Placed.token) := by
  induction labels generalizing ls with
  | nil =>
      rw [List.map_eq_nil_iff.mp h]
      exact flat_nil
  | cons label labels ih =>
      obtain ⟨⟨token, line⟩, rest, rfl, hlabel, hrest⟩ := List.map_eq_cons_iff.mp h
      rw [List.map_cons]
      refine flat_cons ?_ (ih hrest)
      -- a brace is no label
      cases token with
      | openBrace | closeBrace => cases hlabel
      | _ => rfl

mutual

theorem SpellsItem.balanced {ts : List Placed} {item : Item} (h : SpellsItem ts item) :
    Balanced (ts.map Placed.token) := by
  match h with
  | .attr hv =>
      refine Flat.balanced ?_
      exact flat_cons rfl (flat_cons rfl hv.flat)
  | @SpellsItem.block name _ _ _ _ _ _ _ hlabels hbody =>
      have hfront : Flat [.ident name] := flat_singleton rfl
      have hwords := (hfront.append (flat_labels hlabels)).balanced
      simpa using hwords.append hbody.balanced.braces

theorem SpellsBody.balanced {ts : List Placed} {body : Body} (h : SpellsBody ts body) :
    Balanced (ts.map Placed.token) := by
  match h with
  | .nil => exact flat_nil.balanced
  | .cons hitem hbody =>
      rw [List.map_append]
      exact hitem.balanced.append hbody.balanced

end

section Block

variable {ts : List Placed} {b : Block} (h : SpellsItem ts (.block b))
include h

/-- The tokens of a block are balanced tokens in braces behind tokens without braces. -/
theorem SpellsItem.block_tokens : ∃ front inner, Flat front ∧ Balanced inner ∧
    ts.map Placed.token = front ++ .openBrace :: (inner ++ [.closeBrace]) := by
  match h with
  | @SpellsItem.block name _ _ _ _ _ _ _ hlabels hbody =>
      have hfront : Flat (.ident name :: _) := flat_cons rfl (flat_labels hlabels)
      exact ⟨_, _, hfront, hbody.balanced, by simp⟩

theorem SpellsItem.closed : Closed (ts.map Placed.token) := by
  refine ⟨h.balanced.settled, ?_⟩
  obtain ⟨front, inner, -, -, htokens⟩ := h.block_tokens
  rw [htokens, ← List.cons_append, ← List.append_assoc, List.getLast?_concat]
  rintro t ⟨⟩
  rfl

/-- A block is not closed before its end. -/
theorem SpellsItem.eq_of_closed {front : List Token} (hfront : front <+: ts.map Placed.token)
    (hclosed : Closed front) : front = [] ∨ front = ts.map Placed.token := by
  obtain ⟨words, inner, hwords, hinner, htokens⟩ := h.block_tokens
  rw [htokens] at hfront ⊢
  exact hclosed.eq_of_prefix hwords hinner hfront

end Block

/-! ## Cutting between blocks -/

/-- The items of a body, and then those of another. -/
def Body.append (a b : Body) : Body :=
  ⟨a.attributes ++ b.attributes, a.blocks ++ b.blocks⟩

theorem Body.cons_append (item : Item) (a b : Body) :
    (Body.cons item a).append b = .cons item (a.append b) := by
  cases item <;> rfl

theorem SpellsBody.append {ts us : List Placed} {a b : Body} (ha : SpellsBody ts a)
    (hb : SpellsBody us b) : SpellsBody (ts ++ us) (a.append b) := by
  match ha with
  | .nil => exact hb
  | .cons hitem hbody =>
      rw [List.append_assoc, Body.cons_append]
      exact .cons hitem (hbody.append hb)

/-- The tokens of blocks are closed. -/
theorem SpellsBody.closed {ts : List Placed} {body : Body} (h : SpellsBody ts body)
    (hblocks : body.attributes = []) : Closed (ts.map Placed.token) := by
  match h with
  | .nil => exact closed_nil
  | @SpellsBody.cons _ _ (.attr _) _ _ _ => cases hblocks
  | @SpellsBody.cons _ _ (.block _) _ hitem hbody =>
      rw [List.map_append]
      exact hitem.closed.append (hbody.closed hblocks)

/-- Behind closed tokens the tokens of blocks go on with a block, so both parts are the tokens of
blocks. -/
theorem SpellsBody.cut {ts : List Placed} {body : Body} (h : SpellsBody ts body)
    (hblocks : body.attributes = []) {front back : List Placed} (hts : front ++ back = ts)
    (hfront : Closed (front.map Placed.token)) :
    ∃ a b, SpellsBody front a ∧ SpellsBody back b ∧ body = a.append b := by
  match h with
  | .nil =>
      obtain ⟨rfl, rfl⟩ := List.append_eq_nil_iff.mp hts
      exact ⟨_, _, .nil, .nil, rfl⟩
  | @SpellsBody.cons _ _ (.attr _) _ _ _ => cases hblocks
  | @SpellsBody.cons first rest (.block b) later hitem hbody =>
      rcases List.append_eq_append_iff.mp hts with ⟨others, hfirst, hback⟩ | ⟨others, hcut, hrest⟩
      · have hprefix : front.map Placed.token <+: first.map Placed.token :=
          hfirst ▸ (List.prefix_append front others).map Placed.token
        rcases hitem.eq_of_closed hprefix hfront with hnil | hwhole
        · obtain rfl := List.map_eq_nil_iff.mp hnil
          rw [List.nil_append] at hts
          exact ⟨_, _, .nil, hts ▸ SpellsBody.cons hitem hbody, rfl⟩
        · have hnil : others = [] := by
            rw [hfirst, List.map_append] at hwhole
            simpa using hwhole
          rw [hnil, List.append_nil] at hfirst
          rw [hnil, List.nil_append] at hback
          rw [hback, ← hfirst]
          exact ⟨.cons (.block b) .empty, later, by simpa using SpellsBody.cons hitem .nil, hbody,
            rfl⟩
      · have hothers : Closed (others.map Placed.token) := by
          rw [hcut, List.map_append] at hfront
          exact hitem.closed.of_append hfront
        obtain ⟨a, c, ha, hc, rfl⟩ := hbody.cut hblocks hrest.symm hothers
        exact ⟨.cons (.block b) a, c, hcut ▸ .cons hitem ha, hc, rfl⟩

end ProjectHub.Document
