import ProjectHub.Proofs.Document.Grammar

/-!
# Derivations of documents

A derivation in the grammar of documents is a tree whose leaves, from left to
right, are the tokens of the document. Here the trees are data, so it can be
said that a document has no more than one of them: the grammar is unambiguous.
A document is read just if it has a derivation, and what is read is the body
that the derivation stands for.
-/

namespace ProjectHub.Document

/-! ## Trees and their leaves -/

/-- A word that is no truth value. -/
abbrev PlainWord := { name : String // name ≠ "true" ∧ name ≠ "false" }

/-- The word of a truth value. -/
def truthWord : Bool → String
  | true => "true"
  | false => "false"

theorem truthWord_injective : Function.Injective truthWord := by
  intro a b h
  cases a <;> cases b <;> simp_all [truthWord]

theorem PlainWord.ne_truthWord (name : PlainWord) (value : Bool) : name.1 ≠ truthWord value := by
  cases value
  · exact name.2.2
  · exact name.2.1

mutual

/-- A derivation of a value, with the lines its tokens stand on. -/
inductive ValueTree where
  | text (value : String) (line : Nat)
  | number (digits : String) (line : Nat)
  | truth (value : Bool) (line : Nat)
  | word (name : PlainWord) (line : Nat)
  | call (name : PlainWord) (line opening closing : Nat) (args : SequenceTree)
  | list (opening closing : Nat) (items : SequenceTree)

/-- A derivation of values with a comma after each but the last, which may have one too. -/
inductive SequenceTree where
  | nil
  | last (value : ValueTree)
  | comma (value : ValueTree) (line : Nat) (rest : SequenceTree)

end

/-- A derivation of a label. -/
inductive LabelTree where
  | word (name : String) (line : Nat)
  | text (value : String) (line : Nat)

mutual

/-- A derivation of an item, an attribute or a block. -/
inductive ItemTree where
  | attribute (name : String) (line equals : Nat) (value : ValueTree)
  | block (kind : String) (line : Nat) (labels : List LabelTree) (opening closing : Nat)
      (body : BodyTree)

/-- A derivation of items one after the other. -/
inductive BodyTree where
  | nil
  | cons (first : ItemTree) (rest : BodyTree)

end

mutual

/-- The tokens at the leaves of a value, from left to right. -/
def ValueTree.leaves : ValueTree → List Placed
  | .text value line => [⟨.text value, line⟩]
  | .number digits line => [⟨.number digits, line⟩]
  | .truth value line => [⟨.ident (truthWord value), line⟩]
  | .word name line => [⟨.ident name.1, line⟩]
  | .call name line opening closing args =>
    ⟨.ident name.1, line⟩ :: ⟨.openParen, opening⟩ ::
      (args.leaves ++ [⟨.closeParen, closing⟩])
  | .list opening closing items =>
    ⟨.openBracket, opening⟩ :: (items.leaves ++ [⟨.closeBracket, closing⟩])

/-- The tokens at the leaves of values with commas between them. -/
def SequenceTree.leaves : SequenceTree → List Placed
  | .nil => []
  | .last value => value.leaves
  | .comma value line rest => value.leaves ++ ⟨.comma, line⟩ :: rest.leaves

end

/-- The token of a label. -/
def LabelTree.leaf : LabelTree → Placed
  | .word name line => ⟨.ident name, line⟩
  | .text value line => ⟨.text value, line⟩

mutual

/-- The tokens at the leaves of an item. -/
def ItemTree.leaves : ItemTree → List Placed
  | .attribute name line equals value =>
    ⟨.ident name, line⟩ :: ⟨.equals, equals⟩ :: value.leaves
  | .block kind line labels opening closing body =>
    ⟨.ident kind, line⟩ :: (labels.map LabelTree.leaf ++ ⟨.openBrace, opening⟩ ::
      (body.leaves ++ [⟨.closeBrace, closing⟩]))

/-- The tokens at the leaves of items one after the other. -/
def BodyTree.leaves : BodyTree → List Placed
  | .nil => []
  | .cons first rest => first.leaves ++ rest.leaves

end

/-! ## What a tree stands for -/

mutual

/-- The value that a derivation stands for. -/
def ValueTree.value : ValueTree → Value
  | .text value _ => .text value
  | .number digits _ => .number digits
  | .truth value _ => .bool value
  | .word name _ => .ident name.1
  | .call name _ _ _ args => .call name.1 args.values
  | .list _ _ items => .list items.values

/-- The values that a derivation stands for, in their order. -/
def SequenceTree.values : SequenceTree → List Value
  | .nil => []
  | .last value => [value.value]
  | .comma value _ rest => value.value :: rest.values

end

/-- The text of a label. -/
def LabelTree.label : LabelTree → String
  | .word name _ => name
  | .text value _ => value

/-- The attribute that an item is. -/
def Item.attribute? : Item → Option Attribute
  | .attr a => some a
  | .block _ => none

/-- The block that an item is. -/
def Item.block? : Item → Option Block
  | .attr _ => none
  | .block b => some b

/-- The attributes among items and the blocks among them, each in their order. -/
def Body.ofItems (items : List Item) : Body :=
  ⟨items.filterMap Item.attribute?, items.filterMap Item.block?⟩

mutual

/-- The item that a derivation stands for, on the line of its name. -/
def ItemTree.item : ItemTree → Item
  | .attribute name line _ value => .attr ⟨name, value.value, line⟩
  | .block kind line labels _ _ body =>
    .block ⟨kind, labels.map LabelTree.label, (Body.ofItems body.items).attributes,
      (Body.ofItems body.items).blocks, line⟩

/-- The items that a derivation stands for, in their order. -/
def BodyTree.items : BodyTree → List Item
  | .nil => []
  | .cons first rest => first.item :: rest.items

end

/-- The body that a derivation stands for. -/
def BodyTree.body (tree : BodyTree) : Body :=
  .ofItems tree.items

theorem Body.ofItems_cons (item : Item) (items : List Item) :
    Body.ofItems (item :: items) = .cons item (.ofItems items) := by
  cases item <;> rfl

/-! ## The leaves spell what the tree stands for -/

mutual

theorem ValueTree.spells (tree : ValueTree) :
    SpellsValue (tree.leaves.map Placed.token) tree.value := by
  match tree with
  | .text value _ => exact .text value
  | .number digits _ => exact .number digits
  | .truth true _ => exact .true
  | .truth false _ => exact .false
  | .word name _ => exact .word name.2
  | .call name _ _ _ args =>
      simp only [ValueTree.leaves, ValueTree.value, List.map_cons, List.map_append, List.map_nil]
      exact .call name.2 (args.spells _)
  | .list _ _ items =>
      simp only [ValueTree.leaves, ValueTree.value, List.map_cons, List.map_append, List.map_nil]
      exact .list (items.spells _)

theorem SequenceTree.spells (tree : SequenceTree) (close : Token) :
    SpellsSequence close (tree.leaves.map Placed.token ++ [close]) tree.values := by
  match tree with
  | .nil => exact .close close
  | .last value => exact .last value.spells
  | .comma value _ rest =>
      simp only [SequenceTree.leaves, SequenceTree.values, List.map_cons, List.map_append,
        List.append_assoc, List.cons_append]
      exact .comma value.spells (rest.spells close)

end

theorem LabelTree.label?_leaf (tree : LabelTree) : label? tree.leaf = some tree.label := by
  cases tree <;> rfl

mutual

theorem ItemTree.spells (tree : ItemTree) : SpellsItem tree.leaves tree.item := by
  match tree with
  | .attribute name line equals value => exact .attr value.spells
  | .block kind line labels opening closing body =>
      refine .block ?_ body.spells
      simp only [List.map_map, Function.comp_def, LabelTree.label?_leaf]

theorem BodyTree.spells (tree : BodyTree) : SpellsBody tree.leaves (.ofItems tree.items) := by
  match tree with
  | .nil => exact .nil
  | .cons first rest =>
      rw [BodyTree.items, Body.ofItems_cons]
      exact .cons first.spells rest.spells

end

/-! ## What is spelled has a tree -/

mutual

theorem SpellsValue.exists_tree {tokens : List Token} {v : Value} (h : SpellsValue tokens v)
    {ts : List Placed} (hts : ts.map Placed.token = tokens) :
    ∃ tree : ValueTree, tree.leaves = ts ∧ tree.value = v := by
  match h with
  | .text value =>
      obtain ⟨line, inner, rfl, hinner⟩ := map_token_eq_cons hts
      rw [List.map_eq_nil_iff.mp hinner]
      exact ⟨.text value line, rfl, rfl⟩
  | .number digits =>
      obtain ⟨line, inner, rfl, hinner⟩ := map_token_eq_cons hts
      rw [List.map_eq_nil_iff.mp hinner]
      exact ⟨.number digits line, rfl, rfl⟩
  | .true =>
      obtain ⟨line, inner, rfl, hinner⟩ := map_token_eq_cons hts
      rw [List.map_eq_nil_iff.mp hinner]
      exact ⟨.truth true line, rfl, rfl⟩
  | .false =>
      obtain ⟨line, inner, rfl, hinner⟩ := map_token_eq_cons hts
      rw [List.map_eq_nil_iff.mp hinner]
      exact ⟨.truth false line, rfl, rfl⟩
  | .word hname =>
      obtain ⟨line, inner, rfl, hinner⟩ := map_token_eq_cons hts
      rw [List.map_eq_nil_iff.mp hinner]
      exact ⟨.word ⟨_, hname⟩ line, rfl, rfl⟩
  | .call hname hargs =>
      obtain ⟨line, others, rfl, hothers⟩ := map_token_eq_cons hts
      obtain ⟨opening, inner, rfl, hinner⟩ := map_token_eq_cons hothers
      obtain ⟨args, closing, rfl, rfl⟩ := hargs.exists_tree hinner
      exact ⟨.call ⟨_, hname⟩ line opening closing args, rfl, rfl⟩
  | .list hitems =>
      obtain ⟨opening, inner, rfl, hinner⟩ := map_token_eq_cons hts
      obtain ⟨items, closing, rfl, rfl⟩ := hitems.exists_tree hinner
      exact ⟨.list opening closing items, rfl, rfl⟩

theorem SpellsSequence.exists_tree {close : Token} {tokens : List Token} {vs : List Value}
    (h : SpellsSequence close tokens vs) {ts : List Placed} (hts : ts.map Placed.token = tokens) :
    ∃ (tree : SequenceTree) (closing : Nat), tree.leaves ++ [⟨close, closing⟩] = ts ∧
      tree.values = vs := by
  match h with
  | .close _ =>
      obtain ⟨closing, inner, rfl, hinner⟩ := map_token_eq_cons hts
      rw [List.map_eq_nil_iff.mp hinner]
      exact ⟨.nil, closing, rfl, rfl⟩
  | .last hv =>
      obtain ⟨front, back, rfl, hfront, hback⟩ := List.map_eq_append_iff.mp hts
      obtain ⟨closing, after, rfl, hafter⟩ := map_token_eq_cons hback
      rw [List.map_eq_nil_iff.mp hafter]
      obtain ⟨value, rfl, rfl⟩ := hv.exists_tree hfront
      exact ⟨.last value, closing, rfl, rfl⟩
  | .comma hv hvs =>
      obtain ⟨front, back, rfl, hfront, hback⟩ := List.map_eq_append_iff.mp hts
      obtain ⟨line, more, rfl, hmore⟩ := map_token_eq_cons hback
      obtain ⟨value, rfl, rfl⟩ := hv.exists_tree hfront
      obtain ⟨rest, closing, rfl, rfl⟩ := hvs.exists_tree hmore
      exact ⟨.comma value line rest, closing, by simp [SequenceTree.leaves], rfl⟩

end

theorem exists_labels {ls : List Placed} {labels : List String}
    (h : ls.map label? = labels.map some) :
    ∃ trees : List LabelTree, trees.map LabelTree.leaf = ls ∧
      trees.map LabelTree.label = labels := by
  induction labels generalizing ls with
  | nil =>
      rw [List.map_eq_nil_iff.mp h]
      exact ⟨[], rfl, rfl⟩
  | cons label labels ih =>
      obtain ⟨⟨token, line⟩, others, rfl, hfirst, hothers⟩ := List.map_eq_cons_iff.mp h
      obtain ⟨trees, rfl, rfl⟩ := ih hothers
      cases token with
      | ident _ =>
          cases hfirst
          exact ⟨.word label line :: trees, rfl, rfl⟩
      | text _ =>
          cases hfirst
          exact ⟨.text label line :: trees, rfl, rfl⟩
      | _ => cases hfirst

mutual

theorem SpellsItem.exists_tree {ts : List Placed} {item : Item} (h : SpellsItem ts item) :
    ∃ tree : ItemTree, tree.leaves = ts ∧ tree.item = item := by
  match h with
  | .attr hv =>
      obtain ⟨value, rfl, rfl⟩ := hv.exists_tree rfl
      exact ⟨.attribute _ _ _ value, rfl, rfl⟩
  | .block hlabels hbody =>
      obtain ⟨labels, rfl, rfl⟩ := exists_labels hlabels
      obtain ⟨body, rfl, rfl⟩ := hbody.exists_tree
      exact ⟨.block _ _ labels _ _ body, rfl, rfl⟩

theorem SpellsBody.exists_tree {ts : List Placed} {body : Body} (h : SpellsBody ts body) :
    ∃ tree : BodyTree, tree.leaves = ts ∧ Body.ofItems tree.items = body := by
  match h with
  | .nil => exact ⟨.nil, rfl, rfl⟩
  | .cons hitem hbody =>
      obtain ⟨first, rfl, rfl⟩ := hitem.exists_tree
      obtain ⟨rest, rfl, rfl⟩ := hbody.exists_tree
      exact ⟨.cons first rest, rfl, Body.ofItems_cons _ _⟩

end

/-! ## No two trees have the same leaves -/

theorem noCall_cons {t : Placed} (ht : t.token ≠ .openParen) (rest : List Placed) :
    NoCall (t :: rest) := by
  rintro _ ⟨⟩
  exact ht

theorem ValueTree.leaves_append_ne {close : Token}
    (hclose : close = .closeParen ∨ close = .closeBracket) (v : ValueTree) (line : Nat)
    (r s : List Placed) : v.leaves ++ r ≠ ⟨close, line⟩ :: s := by
  intro h
  rcases hclose with rfl | rfl <;> cases v <;> cases h

mutual

/-- Of the tokens that begin with a value, the value and what is behind it are determined. -/
theorem ValueTree.eq_of_append (v w : ValueTree) {r s : List Placed} (hr : NoCall r) (hs : NoCall s)
    (h : v.leaves ++ r = w.leaves ++ s) : v = w ∧ r = s := by
  match v, w with
  | .text _ _, w =>
      cases w <;> cases h
      exact ⟨rfl, rfl⟩
  | .number _ _, w =>
      cases w <;> cases h
      exact ⟨rfl, rfl⟩
  | .truth value _, .truth other _ =>
      obtain ⟨⟨hword, rfl⟩, rfl⟩ := by simpa [ValueTree.leaves] using h
      exact ⟨congrArg (ValueTree.truth · _) (truthWord_injective hword), rfl⟩
  | .truth value _, .word name _ | .truth value _, .call name _ _ _ _ =>
      injection h with hword
      injection hword with hword
      exact absurd (Token.ident.inj hword).symm (name.ne_truthWord value)
  | .word name _, .truth value _ | .call name _ _ _ _, .truth value _ =>
      injection h with hword
      injection hword with hword
      exact absurd (Token.ident.inj hword) (name.ne_truthWord value)
  | .word name _, .word other _ =>
      obtain ⟨⟨hword, rfl⟩, rfl⟩ := by simpa [ValueTree.leaves] using h
      exact ⟨congrArg (ValueTree.word · _) (Subtype.ext hword), rfl⟩
  -- a word with a parenthesis behind it is called
  | .word _ _, .call _ _ _ _ _ =>
      injection h with _ htail
      subst htail
      exact absurd rfl (hr _ rfl)
  | .call _ _ _ _ _, .word _ _ =>
      injection h with _ htail
      subst htail
      exact absurd rfl (hs _ rfl)
  | .call name _ _ _ args, .call other _ _ _ others =>
      obtain ⟨⟨hword, rfl⟩, rfl, htail⟩ := by simpa [ValueTree.leaves] using h
      obtain ⟨rfl, rfl, rfl⟩ := args.eq_of_append others (.inl rfl) htail
      exact ⟨congrArg (ValueTree.call · _ _ _ _) (Subtype.ext hword), rfl⟩
  | .list _ _ items, .list _ _ others =>
      obtain ⟨rfl, htail⟩ := by simpa [ValueTree.leaves] using h
      obtain ⟨rfl, rfl, rfl⟩ := items.eq_of_append others (.inr rfl) htail
      exact ⟨rfl, rfl⟩
  | .truth _ _, .text _ _ | .truth _ _, .number _ _ | .truth _ _, .list _ _ _
  | .word _ _, .text _ _ | .word _ _, .number _ _ | .word _ _, .list _ _ _
  | .call _ _ _ _ _, .text _ _ | .call _ _ _ _ _, .number _ _ | .call _ _ _ _ _, .list _ _ _
  | .list _ _ _, .text _ _ | .list _ _ _, .number _ _ | .list _ _ _, .truth _ _
  | .list _ _ _, .word _ _ | .list _ _ _, .call _ _ _ _ _ => cases h

theorem SequenceTree.eq_of_append (a b : SequenceTree) {close : Token}
    (hclose : close = .closeParen ∨ close = .closeBracket) {i j : Nat} {r s : List Placed}
    (h : a.leaves ++ ⟨close, i⟩ :: r = b.leaves ++ ⟨close, j⟩ :: s) : a = b ∧ i = j ∧ r = s := by
  have hcomma : close ≠ .comma := by rcases hclose with rfl | rfl <;> simp
  have hend (line : Nat) (rest : List Placed) : NoCall (⟨close, line⟩ :: rest) :=
    noCall_cons (by rcases hclose with rfl | rfl <;> simp) rest
  have hgoOn (line : Nat) (rest : List Placed) : NoCall (⟨.comma, line⟩ :: rest) :=
    noCall_cons (by simp) rest
  match a, b with
  | .nil, .nil =>
      cases h
      exact ⟨rfl, rfl, rfl⟩
  | .nil, .last w => exact absurd h.symm (w.leaves_append_ne hclose _ _ _)
  | .last v, .nil => exact absurd h (v.leaves_append_ne hclose _ _ _)
  | .nil, .comma w _ _ =>
      rw [SequenceTree.leaves, SequenceTree.leaves, List.append_assoc] at h
      exact absurd h.symm (w.leaves_append_ne hclose _ _ _)
  | .comma v _ _, .nil =>
      rw [SequenceTree.leaves, SequenceTree.leaves, List.append_assoc] at h
      exact absurd h (v.leaves_append_ne hclose _ _ _)
  | .last v, .last w =>
      obtain ⟨rfl, htail⟩ := v.eq_of_append w (hend _ _) (hend _ _) h
      cases htail
      exact ⟨rfl, rfl, rfl⟩
  | .last v, .comma w _ _ =>
      rw [SequenceTree.leaves, SequenceTree.leaves, List.append_assoc] at h
      obtain ⟨-, htail⟩ := v.eq_of_append w (hend _ _) (hgoOn _ _) h
      cases htail
      exact absurd rfl hcomma
  | .comma v _ _, .last w =>
      rw [SequenceTree.leaves, SequenceTree.leaves, List.append_assoc] at h
      obtain ⟨-, htail⟩ := v.eq_of_append w (hgoOn _ _) (hend _ _) h
      cases htail
      exact absurd rfl hcomma
  | .comma v _ rest, .comma w _ others =>
      rw [SequenceTree.leaves, SequenceTree.leaves, List.append_assoc, List.append_assoc] at h
      obtain ⟨rfl, htail⟩ := v.eq_of_append w (hgoOn _ _) (hgoOn _ _) h
      obtain ⟨hcommas, hrest⟩ := List.cons.inj htail
      cases hcommas
      obtain ⟨rfl, rfl, rfl⟩ := rest.eq_of_append others hclose hrest
      exact ⟨rfl, rfl, rfl⟩

end

theorem LabelTree.leaf_injective : Function.Injective leaf := by
  intro a b h
  cases a <;> cases b <;> cases h <;> rfl

theorem LabelTree.leaf_ne_openBrace (a : LabelTree) (line : Nat) :
    a.leaf ≠ ⟨.openBrace, line⟩ := by
  intro h
  cases a <;> cases h

/-- The labels in front of a brace are determined, with the brace and what is behind it. -/
theorem labels_eq_of_append (as bs : List LabelTree) {i j : Nat} {r s : List Placed}
    (h : as.map LabelTree.leaf ++ ⟨.openBrace, i⟩ :: r =
      bs.map LabelTree.leaf ++ ⟨.openBrace, j⟩ :: s) : as = bs ∧ i = j ∧ r = s := by
  induction as generalizing bs with
  | nil =>
      cases bs with
      | nil =>
          cases h
          exact ⟨rfl, rfl, rfl⟩
      | cons b bs => exact absurd (List.cons.inj h).1.symm (b.leaf_ne_openBrace i)
  | cons a as ih =>
      cases bs with
      | nil => exact absurd (List.cons.inj h).1 (a.leaf_ne_openBrace j)
      | cons b bs =>
          obtain ⟨hleaf, htail⟩ := List.cons.inj h
          obtain ⟨rfl, hrest⟩ := ih bs htail
          exact ⟨congrArg (· :: as) (LabelTree.leaf_injective hleaf), hrest⟩

theorem labels_append_ne_equals (as : List LabelTree) (i j : Nat) (r s : List Placed) :
    as.map LabelTree.leaf ++ ⟨.openBrace, i⟩ :: r ≠ ⟨.equals, j⟩ :: s := by
  intro h
  cases as with
  | nil => cases h
  | cons a as => cases a <;> cases h

/-- Whether tokens are at their end or close a block. -/
def Ended (rest : List Placed) : Prop :=
  ∀ t ∈ rest.head?, t.token = .closeBrace

theorem Ended.noCall {rest : List Placed} (h : Ended rest) : NoCall rest := by
  intro t ht
  simp [h t ht]

theorem ended_closeBrace (line : Nat) (rest : List Placed) :
    Ended (⟨.closeBrace, line⟩ :: rest) := by
  rintro _ ⟨⟩
  rfl

theorem ItemTree.exists_leaves (a : ItemTree) : ∃ name line inner,
    a.leaves = ⟨.ident name, line⟩ :: inner := by
  cases a <;> exact ⟨_, _, _, rfl⟩

theorem ItemTree.not_ended (a : ItemTree) (r : List Placed) : ¬Ended (a.leaves ++ r) := by
  obtain ⟨name, line, inner, hleaves⟩ := a.exists_leaves
  intro h
  rw [hleaves] at h
  cases h _ rfl

theorem BodyTree.noCall_append (a : BodyTree) {r : List Placed} (hr : Ended r) :
    NoCall (a.leaves ++ r) := by
  cases a with
  | nil => exact hr.noCall
  | cons first rest =>
      obtain ⟨name, line, inner, hleaves⟩ := first.exists_leaves
      rw [BodyTree.leaves, hleaves]
      exact noCall_cons (by simp) _

mutual

/-- Of the tokens that begin with an item, the item and what is behind it are determined. -/
theorem ItemTree.eq_of_append (a b : ItemTree) {r s : List Placed} (hr : NoCall r) (hs : NoCall s)
    (h : a.leaves ++ r = b.leaves ++ s) : a = b ∧ r = s := by
  match a, b with
  | .attribute _ _ _ v, .attribute _ _ _ w =>
      obtain ⟨⟨rfl, rfl⟩, rfl, htail⟩ := by simpa [ItemTree.leaves] using h
      obtain ⟨rfl, rfl⟩ := v.eq_of_append w hr hs htail
      exact ⟨rfl, rfl⟩
  | .attribute _ _ _ _, .block _ _ labels _ _ _ =>
      simp only [ItemTree.leaves, List.cons_append, List.append_assoc, List.cons.injEq] at h
      exact absurd h.2.symm (labels_append_ne_equals labels _ _ _ _)
  | .block _ _ labels _ _ _, .attribute _ _ _ _ =>
      simp only [ItemTree.leaves, List.cons_append, List.append_assoc, List.cons.injEq] at h
      exact absurd h.2 (labels_append_ne_equals labels _ _ _ _)
  | .block _ _ labels _ _ body, .block _ _ others _ _ other =>
      simp only [ItemTree.leaves, List.cons_append, List.append_assoc, List.cons.injEq] at h
      obtain ⟨hname, htail⟩ := h
      cases hname
      obtain ⟨rfl, rfl, hinner⟩ := labels_eq_of_append labels others htail
      obtain ⟨rfl, hclose⟩ :=
        body.eq_of_append other (ended_closeBrace _ _) (ended_closeBrace _ _) hinner
      cases hclose
      exact ⟨rfl, rfl⟩

/-- Of the tokens up to an end, the items in front of it are determined. -/
theorem BodyTree.eq_of_append (a b : BodyTree) {r s : List Placed} (hr : Ended r) (hs : Ended s)
    (h : a.leaves ++ r = b.leaves ++ s) : a = b ∧ r = s := by
  match a, b with
  | .nil, .nil => exact ⟨rfl, h⟩
  | .nil, .cons first rest =>
      have hr : Ended ((first.leaves ++ rest.leaves) ++ s) := h ▸ hr
      rw [List.append_assoc] at hr
      exact absurd hr (first.not_ended _)
  | .cons first rest, .nil =>
      have hs : Ended ((first.leaves ++ rest.leaves) ++ r) := h ▸ hs
      rw [List.append_assoc] at hs
      exact absurd hs (first.not_ended _)
  | .cons first rest, .cons other others =>
      rw [BodyTree.leaves, BodyTree.leaves, List.append_assoc, List.append_assoc] at h
      obtain ⟨rfl, htail⟩ :=
        first.eq_of_append other (rest.noCall_append hr) (others.noCall_append hs) h
      obtain ⟨rfl, rfl⟩ := rest.eq_of_append others hr hs htail
      exact ⟨rfl, rfl⟩

end

/-- The grammar is unambiguous: no two derivations have the same tokens. -/
theorem BodyTree.leaves_injective : Function.Injective BodyTree.leaves := by
  intro a b h
  have hended : Ended [] := fun _ ht => nomatch ht
  exact (a.eq_of_append b hended hended (by rw [h])).1

/-- The tokens of a document are read just if they have a derivation, which is then the only one,
and what is read is the body that it stands for. -/
theorem bodyOfTokens_iff_derivation (ts : List Placed) :
    ((∃ body, bodyOfTokens ts = .ok body) ↔ ∃! tree : BodyTree, tree.leaves = ts) ∧
      ∀ tree : BodyTree, tree.leaves = ts → bodyOfTokens ts = .ok tree.body := by
  have hread (tree : BodyTree) (htree : tree.leaves = ts) : bodyOfTokens ts = .ok tree.body :=
    bodyOfTokens_eq_ok_iff.mpr (htree ▸ tree.spells)
  refine ⟨⟨?_, ?_⟩, hread⟩
  · rintro ⟨body, hbody⟩
    obtain ⟨tree, htree, -⟩ := (bodyOfTokens_eq_ok_iff.mp hbody).exists_tree
    exact ⟨tree, htree, fun other hother => BodyTree.leaves_injective (hother.trans htree.symm)⟩
  · rintro ⟨tree, htree, -⟩
    exact ⟨tree.body, hread tree htree⟩

end ProjectHub.Document
