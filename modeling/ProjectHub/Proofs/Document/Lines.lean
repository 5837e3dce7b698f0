import ProjectHub.Proofs.Document.Schema
import ProjectHub.Proofs.Document.Tree

/-!
# What lines are for

Lines only say where a fault is. Put on other lines, tokens are read as the same
body on the other lines, and a body describes the same realm; or both have the
same fault, and where it stands moves with the lines. So bodies that differ in
nothing but the lines of their attributes and blocks describe the same realm, or
have the same fault.
-/

namespace ProjectHub

namespace Document

/-! ## Other lines -/

/-- The token on another line. -/
def Placed.moved (f : Nat → Nat) (t : Placed) : Placed :=
  { t with line := f t.line }

/-- The error on another line. -/
def Error.moved (f : Nat → Nat) (e : Error) : Error :=
  { e with line := f e.line }

/-- The attribute on another line. -/
def Attribute.moved (f : Nat → Nat) (a : Attribute) : Attribute :=
  { a with line := f a.line }

mutual

/-- The block on other lines. -/
def Block.moved (f : Nat → Nat) : Block → Block
  | ⟨kind, labels, attributes, blocks, line⟩ =>
    ⟨kind, labels, attributes.map (Attribute.moved f), Block.allMoved f blocks, f line⟩

/-- The blocks on other lines. -/
def Block.allMoved (f : Nat → Nat) : List Block → List Block
  | [] => []
  | b :: rest => b.moved f :: Block.allMoved f rest

end

/-- The body on other lines. -/
def Body.moved (f : Nat → Nat) (body : Body) : Body :=
  ⟨body.attributes.map (Attribute.moved f), body.blocks.map (Block.moved f)⟩

/-- The item on other lines. -/
def Item.moved (f : Nat → Nat) : Item → Item
  | .attr a => .attr (a.moved f)
  | .block b => .block (b.moved f)

/-- What is read when lines are others: the same, or the same fault on another line. -/
def moveFault {α : Type} (f : Nat → Nat) (x : Except Error α) : Except Error α :=
  x.mapError (Error.moved f)

section Moving

variable {α β σ : Type} (f : Nat → Nat)

@[simp] theorem moveFault_ok (a : α) : moveFault f (.ok a) = .ok a := rfl

@[simp] theorem moveFault_error (line : Nat) (fault : Fault) :
    moveFault f (.error ⟨line, fault⟩ : Except Error α) = .error ⟨f line, fault⟩ := rfl

@[simp] theorem moveFault_bind (x : Except Error α) (k : α → Except Error β) :
    moveFault f (x >>= k) = moveFault f x >>= fun a => moveFault f (k a) := by
  cases x <;> rfl

@[simp] theorem moveFault_pure (a : α) : moveFault f (pure a) = pure a := rfl

@[simp] theorem moveFault_throw (line : Nat) (fault : Fault) :
    moveFault f (throw ⟨line, fault⟩ : Except Error α) = throw ⟨f line, fault⟩ := rfl

theorem foldlM_moved {step : σ → α → Except Error σ} {move : α → α}
    (hstep : ∀ s a, step s (move a) = moveFault f (step s a)) (as : List α) (s : σ) :
    (as.map move).foldlM step s = moveFault f (as.foldlM step s) := by
  induction as generalizing s with
  | nil => rfl
  | cons a as ih =>
      rw [List.map_cons, List.foldlM_cons, List.foldlM_cons, moveFault_bind, hstep]
      congr 1
      funext next
      exact ih next

theorem mapM_moved {g g' : α → Except Error β} (h : ∀ a, g' a = moveFault f (g a)) (as : List α) :
    as.mapM g' = moveFault f (as.mapM g) := by
  induction as with
  | nil => rfl
  | cons a as ih => simp only [List.mapM_cons, moveFault_bind, moveFault_pure, h, ih]

@[simp] theorem Block.allMoved_eq_map (bs : List Block) :
    Block.allMoved f bs = bs.map (Block.moved f) := by
  induction bs with
  | nil => rfl
  | cons b bs ih => rw [Block.allMoved, ih, List.map_cons]

theorem Block.moved_eq (b : Block) : b.moved f =
    ⟨b.kind, b.labels, b.attributes.map (Attribute.moved f), b.blocks.map (Block.moved f),
      f b.line⟩ := by
  cases b
  rw [Block.moved, Block.allMoved_eq_map]

theorem Body.cons_moved (item : Item) (body : Body) :
    Body.cons (item.moved f) (body.moved f) = (Body.cons item body).moved f := by
  cases item <;> rfl

end Moving

/-! ## What a reading is made of -/

section Pairs

variable {last line : Nat} {close : Token} {t : Placed} {ts : List Placed}

theorem readSequence_pair (hopen : t.token ≠ close) :
    (readSequence last close (t :: ts)).map Reading.pair =
      (readValue last (t :: ts)).map Reading.pair >>= fun (first, after) =>
        match after with
        | ⟨.comma, _⟩ :: more =>
          ((readSequence last close more).map Reading.pair).map fun (others, rest) =>
            (first :: others, rest)
        | next :: more =>
          if next.token = close then .ok ([first], more)
          else .error ⟨next.line, .expectedSeparator close⟩
        | [] => .error ⟨last, .expectedSeparator close⟩ := by
  rw [readSequence, if_neg hopen]
  cases readValue last (t :: ts) with
  | error error => rfl
  | ok first =>
      obtain ⟨value, after, hshorter⟩ := first
      simp only [bind, Except.bind, Except.map, Reading.pair]
      cases after with
      | nil => rfl
      | cons next more =>
          obtain ⟨token, line⟩ := next
          cases token
          case comma =>
            dsimp only
            cases readSequence last close more <;> rfl
          all_goals
            dsimp only
            split_ifs <;> rfl

variable {name : String} {place : Nat}

theorem readValue_word (hname : name ≠ "true" ∧ name ≠ "false") :
    (readValue last (⟨.ident name, line⟩ :: ts)).map Reading.pair =
      match ts with
      | ⟨.openParen, _⟩ :: inner =>
        ((readSequence last .closeParen inner).map Reading.pair).map fun (args, rest) =>
          (.call name args, rest)
      | after => .ok (.ident name, after) := by
  rw [readValue]
  split
  case h_3 _ heq => exact absurd (Token.ident.inj heq) hname.1
  case h_4 _ heq => exact absurd (Token.ident.inj heq) hname.2
  case h_5 _ word _ _ heq =>
    cases heq
    cases ts with
    | nil => rfl
    | cons next inner =>
        obtain ⟨token, line⟩ := next
        cases token
        case openParen =>
          dsimp only
          cases readSequence last .closeParen inner <;> rfl
        all_goals rfl
  all_goals simp_all

theorem readValue_bracket : (readValue last (⟨.openBracket, line⟩ :: ts)).map Reading.pair =
    ((readSequence last .closeBracket ts).map Reading.pair).map fun (items, rest) =>
      (.list items, rest) := by
  rw [readValue]
  cases readSequence last .closeBracket ts <;> rfl

theorem readItem_equals : (readItem last name line (⟨.equals, place⟩ :: ts)).map Reading.pair =
    ((readValue last ts).map Reading.pair).map fun (value, rest) =>
      (.attr ⟨name, value, line⟩, rest) := by
  rw [readItem]
  cases readValue last ts <;> rfl

theorem readItem_labels (hts : ∀ place rest, ts ≠ ⟨.equals, place⟩ :: rest) :
    (readItem last name line ts).map Reading.pair =
      match (readLabels ts).2 with
      | ⟨.openBrace, _⟩ :: inner =>
        ((readBody last inner).map Reading.pair).map fun (body, rest) =>
          (.block ⟨name, (readLabels ts).1, body.attributes, body.blocks, line⟩, rest)
      | _ => .error ⟨line, .incompleteItem name⟩ := by
  rw [readItem]
  · split
    · rename_i inner hinner
      simp only [hinner]
      cases readBody last inner <;> rfl
    · rename_i hnone
      split
      · exact absurd ‹_› (hnone _ _)
      · rfl
  · exact fun place rest heq => hts place rest heq

theorem readBody_ident : (readBody last (⟨.ident name, line⟩ :: ts)).map Reading.pair =
    (readItem last name line ts).map Reading.pair >>= fun (item, after) =>
      ((readBody last after).map Reading.pair).map fun (body, rest) => (.cons item body, rest) := by
  rw [readBody]
  dsimp only
  cases readItem last name line ts with
  | error error => rfl
  | ok item =>
      dsimp only [bind, Except.bind, Except.map, Reading.pair]
      cases readBody last item.rest <;> rfl

theorem readItems_ident : readItems last (⟨.ident name, line⟩ :: ts) =
    (readItem last name line ts).map Reading.pair >>= fun (item, after) =>
      (readItems last after).map (.cons item) := by
  rw [readItems]
  dsimp only
  cases readItem last name line ts with
  | error error => rfl
  | ok item =>
      dsimp only [bind, Except.bind, Except.map, Reading.pair]
      cases readItems last item.rest <;> rfl

end Pairs

/-! ## Reading tokens on other lines -/

section Readers

variable {α β γ δ : Type} {f : Nat → Nat}

/-- What is read, and the tokens behind it, when lines are others. -/
def moveReading (f : Nat → Nat) (move : α → β) (x : Except Error (α × List Placed)) :
    Except Error (β × List Placed) :=
  (moveFault f x).map fun (value, rest) => (move value, rest.map (Placed.moved f))

theorem moveReading_bind {move : α → β} {move' : γ → δ} {x : Except Error (α × List Placed)}
    {k : α × List Placed → Except Error (γ × List Placed)}
    {k' : β × List Placed → Except Error (δ × List Placed)}
    (h : ∀ value rest, x = .ok (value, rest) →
      k' (move value, rest.map (Placed.moved f)) = moveReading f move' (k (value, rest))) :
    (moveReading f move x >>= k') = moveReading f move' (x >>= k) := by
  cases x with
  | error error => rfl
  | ok found => exact h _ _ rfl

theorem moveReading_map (move : α → β) (move' : γ → δ) (g : α → γ) (g' : β → δ)
    (h : ∀ value, g' (move value) = move' (g value)) (x : Except Error (α × List Placed)) :
    (moveReading f move x).map (fun (value, rest) => (g' value, rest)) =
      moveReading f move' (x.map fun (value, rest) => (g value, rest)) := by
  cases x with
  | error error => rfl
  | ok found => exact congrArg (fun value => Except.ok (value, _)) (h _)

variable {last : Nat} {ts : List Placed}

/-- Tokens of which the same value is read on other lines. -/
def ValueMoves (f : Nat → Nat) (last : Nat) (ts : List Placed) : Prop :=
  (readValue (f last) (ts.map (Placed.moved f))).map Reading.pair =
    moveReading f id ((readValue last ts).map Reading.pair)

/-- Tokens of which the same values are read on other lines. -/
def SequenceMoves (f : Nat → Nat) (last : Nat) (ts : List Placed) : Prop :=
  ∀ close, (readSequence (f last) close (ts.map (Placed.moved f))).map Reading.pair =
    moveReading f id ((readSequence last close ts).map Reading.pair)

theorem valueMoves_step
    (hsequence : ∀ inner, inner.length < ts.length → SequenceMoves f last inner) :
    ValueMoves f last ts := by
  unfold ValueMoves
  cases ts with
  | nil =>
      rw [List.map_nil, readValue, readValue]
      rfl
  | cons t others =>
      obtain ⟨token, line⟩ := t
      rw [List.map_cons, Placed.moved]
      cases token with
      | ident name =>
          by_cases hname : name ≠ "true" ∧ name ≠ "false"
          · rw [readValue_word hname, readValue_word hname]
            cases others with
            | nil => rfl
            | cons next inner =>
                obtain ⟨token, place⟩ := next
                cases token with
                | openParen =>
                    have hinner := hsequence inner (Nat.lt_succ_of_lt (Nat.lt_succ_self _))
                    rw [List.map_cons, Placed.moved]
                    dsimp only
                    rw [hinner .closeParen]
                    exact moveReading_map id id (Value.call name) (Value.call name) (fun _ => rfl) _
                | _ => rfl
          · obtain rfl | rfl : name = "true" ∨ name = "false" := by
              by_contra hneither
              exact hname (not_or.mp hneither)
            all_goals
              rw [readValue, readValue]
              rfl
      | openBracket =>
          rw [readValue_bracket, readValue_bracket, hsequence others (Nat.lt_succ_self _)]
          exact moveReading_map id id Value.list Value.list (fun _ => rfl) _
      | _ =>
          rw [readValue, readValue]
          rfl

theorem sequenceMoves_step (hvalue : ValueMoves f last ts)
    (hsequence : ∀ inner, inner.length < ts.length → SequenceMoves f last inner) :
    SequenceMoves f last ts := by
  intro close
  cases ts with
  | nil =>
      rw [List.map_nil, readSequence, readSequence]
      rfl
  | cons t others =>
      by_cases hclose : t.token = close
      · obtain ⟨token, line⟩ := t
        obtain rfl : token = close := hclose
        rw [List.map_cons, Placed.moved, readSequence_close, readSequence_close]
        rfl
      · have hvalue : (readValue (f last) (t.moved f :: others.map (Placed.moved f))).map
            Reading.pair = _ := hvalue
        rw [List.map_cons, readSequence_pair (show (t.moved f).token ≠ close from hclose),
          readSequence_pair hclose, hvalue]
        refine moveReading_bind fun value rest hrest => ?_
        obtain ⟨hshorter, -⟩ := exists_of_map_pair hrest
        cases rest with
        | nil => rfl
        | cons next more =>
            obtain ⟨token, place⟩ := next
            have hmore := hsequence more (Nat.lt_of_succ_lt hshorter) close
            cases token with
            | comma =>
                rw [List.map_cons, Placed.moved]
                dsimp only
                rw [hmore]
                exact moveReading_map id id (value :: ·) (value :: ·) (fun _ => rfl) _
            | _ =>
                rw [List.map_cons, Placed.moved]
                dsimp only
                split_ifs <;> rfl

theorem valueMoves (f : Nat → Nat) (last : Nat) (ts : List Placed) :
    ValueMoves f last ts ∧ SequenceMoves f last ts := by
  induction hlength : ts.length using Nat.strongRecOn generalizing ts with
  | ind n ih =>
      have hsequence (inner : List Placed) (hinner : inner.length < ts.length) :
          SequenceMoves f last inner := (ih inner.length (hlength ▸ hinner) inner rfl).2
      have hvalue := valueMoves_step hsequence
      exact ⟨hvalue, sequenceMoves_step hvalue hsequence⟩

theorem label?_moved (f : Nat → Nat) (t : Placed) : label? (t.moved f) = label? t := by
  obtain ⟨token, line⟩ := t
  cases token <;> rfl

theorem readLabels_moved (f : Nat → Nat) (ts : List Placed) :
    readLabels (ts.map (Placed.moved f)) =
      ((readLabels ts).1, (readLabels ts).2.map (Placed.moved f)) := by
  fun_induction readLabels ts with
  | case1 => rfl
  | case2 t rest label hlabel ih => rw [List.map_cons, readLabels, label?_moved, hlabel, ih]
  | case3 t rest hnone => rw [List.map_cons, readLabels, label?_moved, hnone]

/-- Tokens behind a name of which the same item is read on other lines. -/
def ItemMoves (f : Nat → Nat) (last : Nat) (ts : List Placed) : Prop :=
  ∀ name line, (readItem (f last) name (f line) (ts.map (Placed.moved f))).map Reading.pair =
    moveReading f (Item.moved f) ((readItem last name line ts).map Reading.pair)

/-- Tokens of which the same body is read on other lines. -/
def BodyMoves (f : Nat → Nat) (last : Nat) (ts : List Placed) : Prop :=
  (readBody (f last) (ts.map (Placed.moved f))).map Reading.pair =
    moveReading f (Body.moved f) ((readBody last ts).map Reading.pair)

theorem itemMoves_step (hbody : ∀ inner, inner.length < ts.length → BodyMoves f last inner) :
    ItemMoves f last ts := by
  intro name line
  by_cases hequals : ∃ place rest, ts = ⟨.equals, place⟩ :: rest
  · obtain ⟨place, rest, rfl⟩ := hequals
    have hvalue := (valueMoves f last rest).1
    unfold ValueMoves at hvalue
    rw [List.map_cons, Placed.moved, readItem_equals, readItem_equals, hvalue]
    exact moveReading_map id (Item.moved f) (fun value => .attr ⟨name, value, line⟩)
      (fun value => .attr ⟨name, value, f line⟩) (fun _ => rfl) _
  · have hlabels (place : Nat) (rest : List Placed) : ts ≠ ⟨.equals, place⟩ :: rest :=
      fun heq => hequals ⟨place, rest, heq⟩
    have hmoved (place : Nat) (rest : List Placed) :
        ts.map (Placed.moved f) ≠ ⟨.equals, place⟩ :: rest := by
      intro heq
      obtain ⟨⟨token, other⟩, inner, rfl, heq, -⟩ := List.map_eq_cons_iff.mp heq
      cases heq
      exact hlabels other inner rfl
    rw [readItem_labels hmoved, readItem_labels hlabels, readLabels_moved]
    have hfewer := length_readLabels ts
    cases hbehind : (readLabels ts).2 with
    | nil => rfl
    | cons next inner =>
        rw [hbehind] at hfewer
        obtain ⟨token, place⟩ := next
        cases token with
        | openBrace =>
            have hinner := hbody inner hfewer
            unfold BodyMoves at hinner
            rw [List.map_cons, Placed.moved]
            dsimp only
            rw [hinner]
            refine moveReading_map (Body.moved f) (Item.moved f)
              (fun body => .block ⟨name, _, body.attributes, body.blocks, line⟩)
              (fun body => .block ⟨name, _, body.attributes, body.blocks, f line⟩)
              (fun body => ?_) _
            rw [Item.moved, Block.moved_eq]
            rfl
        | _ => rfl

theorem bodyMoves_step (hitem : ∀ inner, inner.length < ts.length → ItemMoves f last inner)
    (hbody : ∀ inner, inner.length < ts.length → BodyMoves f last inner) :
    BodyMoves f last ts := by
  unfold BodyMoves
  cases ts with
  | nil =>
      rw [List.map_nil, readBody, readBody]
      rfl
  | cons t others =>
      obtain ⟨token, line⟩ := t
      rw [List.map_cons, Placed.moved]
      cases token with
      | ident name =>
          rw [readBody_ident, readBody_ident, hitem others (Nat.lt_succ_self _) name line]
          refine moveReading_bind fun item rest hrest => ?_
          obtain ⟨hshorter, -⟩ := exists_of_map_pair hrest
          have hlater := hbody rest (Nat.lt_succ_of_lt hshorter)
          unfold BodyMoves at hlater
          dsimp only
          rw [hlater]
          exact moveReading_map (Body.moved f) (Body.moved f) _ _
            (Body.cons_moved f item) _
      | closeBrace =>
          rw [readBody_close, readBody_close]
          rfl
      | _ =>
          rw [readBody, readBody]
          rfl

theorem itemMoves (f : Nat → Nat) (last : Nat) (ts : List Placed) :
    ItemMoves f last ts ∧ BodyMoves f last ts := by
  induction hlength : ts.length using Nat.strongRecOn generalizing ts with
  | ind n ih =>
      have hless (inner : List Placed) (hinner : inner.length < ts.length) :
          ItemMoves f last inner ∧ BodyMoves f last inner :=
        ih inner.length (hlength ▸ hinner) inner rfl
      exact ⟨itemMoves_step fun inner hinner => (hless inner hinner).2,
        bodyMoves_step (fun inner hinner => (hless inner hinner).1)
          fun inner hinner => (hless inner hinner).2⟩

theorem readItems_moved (f : Nat → Nat) (last : Nat) (ts : List Placed) :
    readItems (f last) (ts.map (Placed.moved f)) =
      (moveFault f (readItems last ts)).map (Body.moved f) := by
  induction hlength : ts.length using Nat.strongRecOn generalizing ts with
  | ind n ih =>
      cases ts with
      | nil =>
          rw [List.map_nil, readItems, readItems]
          rfl
      | cons t others =>
          obtain ⟨token, line⟩ := t
          rw [List.map_cons, Placed.moved]
          cases token with
          | ident name =>
              rw [readItems_ident, readItems_ident, (itemMoves f last others).1 name line]
              cases hitem : (readItem last name line others).map Reading.pair with
              | error error => rfl
              | ok found =>
                  obtain ⟨item, rest⟩ := found
                  obtain ⟨hshorter, -⟩ := exists_of_map_pair hitem
                  have hlater := ih rest.length (hlength ▸ Nat.lt_succ_of_lt hshorter) rest rfl
                  dsimp only [moveReading, moveFault, Except.map, Except.mapError, bind,
                    Except.bind]
                  rw [hlater]
                  cases readItems last rest with
                  | error error => rfl
                  | ok body => exact congrArg Except.ok (Body.cons_moved f item body)
          | _ =>
              rw [readItems, readItems]
              rfl

theorem lastLine_moved {ts : List Placed} (hts : ts ≠ []) (f : Nat → Nat) :
    lastLine (ts.map (Placed.moved f)) = f (lastLine ts) := by
  rw [lastLine, lastLine, List.getLast?_map, List.getLast?_eq_getLast_of_ne_nil hts]
  rfl

/-- From tokens on other lines the same body is read on other lines. -/
theorem bodyOfTokens_moved (f : Nat → Nat) (ts : List Placed) :
    bodyOfTokens (ts.map (Placed.moved f)) =
      (moveFault f (bodyOfTokens ts)).map (Body.moved f) := by
  by_cases hts : ts = []
  · subst hts
    rw [List.map_nil, bodyOfTokens, readItems]
    rfl
  · rw [bodyOfTokens, lastLine_moved hts, readItems_moved, bodyOfTokens]

end Readers

/-! ## Realms of bodies on other lines -/

section

variable (f : Nat → Nat) (line : Nat)

theorem typeOfValue_moved (v : Value) :
    typeOfValue (f line) v = moveFault f (typeOfValue line v) := by
  cases v with
  | call name args =>
      have hargument (v : Value) : typeArgument (f line) v = moveFault f (typeArgument line v) := by
        cases v <;> rfl
      simp only [typeOfValue, moveFault_bind, moveFault_pure, mapM_moved f hargument]
  | _ => rfl

theorem defaultOfValue_moved (v : Value) :
    defaultOfValue (f line) v = moveFault f (defaultOfValue line v) := by
  cases v with
  | bool value => cases value <;> rfl
  | call name args =>
      dsimp only [defaultOfValue]
      split
      · split <;> rfl
      · rfl
  | _ => rfl

theorem columnReference_moved (v : Value) :
    columnReference (f line) v = moveFault f (columnReference line v) := by
  cases v <;> rfl

end

section

variable (f : Nat → Nat)

theorem ColumnFacts.add_moved (facts : ColumnFacts) (a : Attribute) :
    facts.add (a.moved f) = moveFault f (facts.add a) := by
  obtain ⟨name, value, line⟩ := a
  dsimp only [ColumnFacts.add, Attribute.moved]
  split
  · simp only [typeOfValue_moved, moveFault_bind, moveFault_pure]
  · cases value <;> rfl
  · simp only [defaultOfValue_moved, moveFault_bind, moveFault_pure]
  · rfl
  · rfl
  · rfl

theorem uniqueOfAttribute_moved (unique : Bool) (a : Attribute) :
    uniqueOfAttribute unique (a.moved f) = moveFault f (uniqueOfAttribute unique a) := by
  obtain ⟨name, value, line⟩ := a
  dsimp only [uniqueOfAttribute, Attribute.moved]
  split <;> rfl

/-- An attribute that is looked for by its name is the same on other lines. -/
theorem find?_moved (p : String → Bool) (as : List Attribute) :
    (as.map (Attribute.moved f)).find? (fun a => p a.name) =
      (as.find? fun a => p a.name).map (Attribute.moved f) := by
  rw [List.find?_map]
  rfl

theorem refuseUnknown_moved (known : List String) (fault : String → Fault) (as : List Attribute) :
    refuseUnknown known fault (as.map (Attribute.moved f)) =
      moveFault f (refuseUnknown known fault as) := by
  unfold refuseUnknown
  rw [find?_moved f fun name => !known.contains name]
  cases as.find? fun a => !known.contains a.name <;> rfl

theorem Block.label_moved (b : Block) : (b.moved f).label = moveFault f b.label := by
  rw [Block.moved_eq]
  dsimp only [Block.label]
  split <;> rfl

theorem columnsOfBlock_moved (b : Block) :
    columnsOfBlock (b.moved f) = moveFault f (columnsOfBlock b) := by
  rw [Block.moved_eq]
  unfold columnsOfBlock
  rw [find?_moved f fun name => name = "columns"]
  cases b.attributes.find? fun a => decide (a.name = "columns") with
  | none => rfl
  | some a =>
      obtain ⟨name, value, line⟩ := a
      cases value with
      | list items =>
          cases items with
          | nil => rfl
          | cons v vs => exact mapM_moved f (columnReference_moved f line) _
      | _ => rfl

end

end Document

open Document

section

variable (f : Nat → Nat)

theorem Column.ofBlock_moved (b : Block) :
    Column.ofBlock (b.moved f) = moveFault f (Column.ofBlock b) := by
  have hfacts := foldlM_moved f (ColumnFacts.add_moved f) b.attributes {}
  simp only [Column.ofBlock, Block.label_moved, moveFault_bind]
  congr 1
  funext name
  rw [Block.moved_eq]
  cases b.blocks with
  | cons inner rest => simp [Block.moved_eq]
  | nil =>
      simp only [List.map_nil, hfacts, moveFault_bind]
      congr 1
      funext facts
      cases facts.type <;> rfl

theorem Index.ofBlock_moved (b : Block) :
    Index.ofBlock (b.moved f) = moveFault f (Index.ofBlock b) := by
  have hunique := foldlM_moved f (uniqueOfAttribute_moved f) b.attributes false
  simp only [Index.ofBlock, Block.label_moved, columnsOfBlock_moved, moveFault_bind,
    moveFault_pure]
  rw [Block.moved_eq, hunique]

theorem Table.addBlock_moved (t : Table) (b : Block) :
    t.addBlock (b.moved f) = moveFault f (t.addBlock b) := by
  have hkind : (b.moved f).kind = b.kind := by rw [Block.moved_eq]
  have hline : (b.moved f).line = f b.line := by rw [Block.moved_eq]
  unfold Table.addBlock
  rw [hkind, hline]
  split
  · simp only [Column.ofBlock_moved, moveFault_bind]
    congr 1
    funext column
    split <;> rfl
  · simp only [columnsOfBlock_moved, moveFault_bind, moveFault_pure]
  · simp only [Index.ofBlock_moved, moveFault_bind]
    congr 1
    funext index
    split <;> rfl
  · rfl

theorem Table.ofBlock_moved (b : Block) :
    Table.ofBlock (b.moved f) = moveFault f (Table.ofBlock b) := by
  have hblocks (t : Table) := foldlM_moved f (Table.addBlock_moved f) b.blocks t
  simp only [Table.ofBlock, Block.label_moved, moveFault_bind]
  congr 1
  funext name
  rw [Block.moved_eq]
  dsimp only
  rw [refuseUnknown_moved, hblocks]
  congr 1
  funext checked
  congr 1
  funext table
  split
  · rfl
  · split <;> rfl

theorem Realm.addBlock_moved (r : Realm) (b : Block) :
    r.addBlock (b.moved f) = moveFault f (r.addBlock b) := by
  have hkind : (b.moved f).kind = b.kind := by rw [Block.moved_eq]
  have hline : (b.moved f).line = f b.line := by rw [Block.moved_eq]
  unfold Realm.addBlock
  rw [hkind, hline]
  split
  · rfl
  · simp only [Table.ofBlock_moved, moveFault_bind]
    congr 1
    funext table
    split <;> rfl
  · rfl

/-- On other lines a body describes the same realm, or has the same fault on the other line. -/
theorem Realm.ofBody_moved (body : Body) :
    Realm.ofBody (body.moved f) = moveFault f (Realm.ofBody body) := by
  obtain ⟨attributes, blocks⟩ := body
  cases attributes with
  | cons a rest => rfl
  | nil => exact foldlM_moved f (Realm.addBlock_moved f) blocks .empty

/-- On other lines tokens describe the same realm, or have the same fault on the other line. -/
theorem Realm.ofTokens_moved (ts : List Placed) :
    (bodyOfTokens (ts.map (Placed.moved f)) >>= Realm.ofBody) =
      moveFault f (bodyOfTokens ts >>= Realm.ofBody) := by
  rw [bodyOfTokens_moved]
  cases bodyOfTokens ts with
  | error error => rfl
  | ok body => exact Realm.ofBody_moved f body

end

/-! ## No lines -/

namespace Document

theorem Attribute.moved_zero (a : Attribute) : a.moved (fun _ => 0) = a.unplaced := rfl

mutual

theorem Block.moved_zero (b : Block) : b.moved (fun _ => 0) = b.unplaced := by
  obtain ⟨kind, labels, attributes, blocks, line⟩ := b
  rw [Block.moved, Block.unplaced, Block.allMoved_zero]
  rfl

theorem Block.allMoved_zero (bs : List Block) :
    Block.allMoved (fun _ => 0) bs = Block.allUnplaced bs := by
  match bs with
  | [] => rfl
  | b :: rest => rw [Block.allMoved, Block.allUnplaced, Block.moved_zero, Block.allMoved_zero]

end

section Outcome

variable {α : Type}

/-- What comes of reading: what was read, or what is wrong, but not where. -/
def outcome (x : Except Error α) : Except Fault α :=
  x.mapError Error.fault

theorem outcome_moveFault (f : Nat → Nat) (x : Except Error α) :
    outcome (moveFault f x) = outcome x := by
  cases x <;> rfl

theorem outcome_eq_ok_iff {x : Except Error α} {a : α} : outcome x = .ok a ↔ x = .ok a := by
  cases x <;> simp [outcome, Except.mapError]

theorem outcome_eq_error_iff {x : Except Error α} {fault : Fault} :
    outcome x = .error fault ↔ ∃ line, x = .error ⟨line, fault⟩ := by
  cases x with
  | ok a => simp [outcome, Except.mapError]
  | error error =>
      obtain ⟨line, found⟩ := error
      simp [outcome, Except.mapError]

end Outcome

end Document

/-- Bodies that differ in nothing but lines describe the same realm, or have the same fault. -/
theorem Document.Body.Like.outcome_ofBody {body : Body} (other : Body)
    (h : body.Like other.attributes other.blocks) :
    outcome (Realm.ofBody body) = outcome (Realm.ofBody other) := by
  have hzero (body : Body) : body.moved (fun _ => 0) =
      ⟨body.attributes.map Attribute.unplaced, body.blocks.map Block.unplaced⟩ := by
    simp only [Body.moved, funext Block.moved_zero, funext Attribute.moved_zero]
  rw [← outcome_moveFault (fun _ => 0), ← Realm.ofBody_moved, hzero, h.attributes, h.blocks,
    ← hzero, Realm.ofBody_moved, outcome_moveFault]

/-- Blocks that differ in nothing but lines are put into a realm the same way, or have the same
fault. -/
theorem Realm.outcome_foldlM_addBlock {bs cs : List Block}
    (h : bs.map Block.unplaced = cs.map Block.unplaced) (r : Realm) :
    outcome (bs.foldlM Realm.addBlock r) = outcome (cs.foldlM Realm.addBlock r) := by
  rw [← outcome_moveFault fun _ => 0, ← foldlM_moved _ (Realm.addBlock_moved _),
    funext Block.moved_zero, h, ← funext Block.moved_zero, foldlM_moved _ (Realm.addBlock_moved _),
    outcome_moveFault]

/-- A text of the tokens of readable items describes the realm of these items. -/
theorem Realm.parse_of_tokens {document : String} (attributes : List Attribute)
    (blocks : List Block)
    (htokens : (tokens document).map (List.map Placed.token) = .ok (itemTokens attributes blocks))
    (hattributes : attributes.all (fun a => a.value.isReadable) = true)
    (hblocks : Block.areReadable blocks = true) {r : Realm}
    (h : ofBody ⟨attributes, blocks⟩ = .ok r) : Realm.parse document = .ok r := by
  cases hts : tokens document with
  | error error =>
      rw [hts] at htokens
      cases htokens
  | ok ts =>
      rw [hts] at htokens
      obtain ⟨body, hbody, hlike⟩ := bodyOfTokens_itemTokens (List.all_eq_true.mp hattributes)
        (Block.areReadable_iff.mp hblocks) (Except.ok.inj htokens)
      refine parse_eq_ok_iff.mpr ⟨ts, body, hts, hbody, ?_⟩
      rw [← outcome_eq_ok_iff, Body.Like.outcome_ofBody ⟨attributes, blocks⟩ hlike, h]
      rfl

end ProjectHub
