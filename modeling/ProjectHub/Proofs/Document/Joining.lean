import ProjectHub.Proofs.Document.Braces
import ProjectHub.Proofs.Document.Lexing
import ProjectHub.Proofs.Realm.Agreement

/-!
# Joined texts

What two texts describe, one behind the other and a line break between them, is
what each describes. For the converse the first text must not leave open what the
second could close. The realm of the blocks of both is then the union of the two
realms, and there is none if both have a table of one name.
-/

namespace ProjectHub

namespace Document

/-! ## The same tokens on other lines -/

/-- The item without lines. -/
def Item.unplaced : Item → Item
  | .attr a => .attr a.unplaced
  | .block b => .block b.unplaced

theorem Body.Like.cons {found body : Body} (h : found.Like body.attributes body.blocks)
    {a b : Item} (hsame : a.unplaced = b.unplaced) :
    (Body.cons a found).Like (Body.cons b body).attributes (Body.cons b body).blocks := by
  cases a with
  | attr a =>
      cases b with
      | attr b => exact h.attr (Item.attr.inj hsame)
      | block b => cases hsame
  | block a =>
      cases b with
      | attr b => cases hsame
      | block b => exact h.block (Item.block.inj hsame)

theorem Body.Like.append {found found' body body' : Body}
    (h : found.Like body.attributes body.blocks) (h' : found'.Like body'.attributes body'.blocks) :
    (found.append found').Like (body.append body').attributes (body.append body').blocks := by
  refine ⟨?_, ?_⟩
  · simp only [Body.append, List.map_append, h.attributes, h'.attributes]
  · simp only [Body.append, List.map_append, h.blocks, h'.blocks]

theorem Body.Like.symm {found body : Body} (h : found.Like body.attributes body.blocks) :
    body.Like found.attributes found.blocks :=
  ⟨h.attributes.symm, h.blocks.symm⟩

theorem map_label?_congr {ls others : List Placed}
    (h : others.map Placed.token = ls.map Placed.token) : others.map label? = ls.map label? := by
  have hlabel : label? = (fun token => label? ⟨token, 0⟩) ∘ Placed.token := by
    funext ⟨token, line⟩
    cases token <;> rfl
  rw [hlabel, ← List.map_map, h, List.map_map]

mutual

theorem SpellsItem.moved {ts : List Placed} {item : Item} (h : SpellsItem ts item)
    {others : List Placed} (hothers : others.map Placed.token = ts.map Placed.token) :
    ∃ found, SpellsItem others found ∧ found.unplaced = item.unplaced := by
  match h with
  | .attr hv =>
      obtain ⟨line, rest, rfl, hrest⟩ := map_token_eq_cons hothers
      obtain ⟨place, value, rfl, hvalue⟩ := map_token_eq_cons hrest
      exact ⟨_, .attr (hvalue ▸ hv), rfl⟩
  | .block hlabels hbody =>
      obtain ⟨line, rest, rfl, hrest⟩ := map_token_eq_cons hothers
      rw [List.map_append] at hrest
      obtain ⟨labels, braces, rfl, hfront, hbraces⟩ := List.map_eq_append_iff.mp hrest
      obtain ⟨place, inner, rfl, hinner⟩ := map_token_eq_cons hbraces
      rw [List.map_append] at hinner
      obtain ⟨items, closing, rfl, hitems, hclosing⟩ := List.map_eq_append_iff.mp hinner
      obtain ⟨close, after, rfl, hafter⟩ := map_token_eq_cons hclosing
      obtain ⟨found, hfound, hlike⟩ := hbody.moved hitems
      rw [List.map_eq_nil_iff.mp hafter]
      refine ⟨_, .block ((map_label?_congr hfront).trans hlabels) hfound, ?_⟩
      simp only [Item.unplaced, Block.unplaced, Block.allUnplaced_eq_map, hlike.attributes,
        hlike.blocks]

/-- On other lines the tokens of a body spell the body but for its lines. -/
theorem SpellsBody.moved {ts : List Placed} {body : Body} (h : SpellsBody ts body)
    {others : List Placed} (hothers : others.map Placed.token = ts.map Placed.token) :
    ∃ found, SpellsBody others found ∧ found.Like body.attributes body.blocks := by
  match h with
  | .nil =>
      rw [List.map_eq_nil_iff.mp hothers]
      exact ⟨_, .nil, Body.like_empty⟩
  | .cons hitem hbody =>
      rw [List.map_append] at hothers
      obtain ⟨front, back, rfl, hfront, hback⟩ := List.map_eq_append_iff.mp hothers
      obtain ⟨found, hfound, hsame⟩ := hitem.moved hfront
      obtain ⟨later, hlater, hlike⟩ := hbody.moved hback
      exact ⟨_, .cons hfound hlater, hlike.cons hsame⟩

end

/-! ## Texts -/

/-- Whether a text, on whatever line it starts, spells a body but for lines. -/
def Describes (cs : List Char) (body : Body) : Prop :=
  ∀ line, ∃ ts found, tokensFrom line cs = .ok ts ∧ SpellsBody ts found ∧
    found.Like body.attributes body.blocks

theorem describes_of_tokensFrom {line : Nat} {cs : List Char} {ts : List Placed} {body : Body}
    (hts : tokensFrom line cs = .ok ts) (hbody : SpellsBody ts body) : Describes cs body := by
  intro other
  have hsame := outcome_tokensFrom other line cs
  rw [hts] at hsame
  obtain ⟨us, hus, htokens⟩ := map_eq_ok_iff.mp (outcome_eq_ok_iff.mp hsame)
  obtain ⟨found, hfound, hlike⟩ := hbody.moved htokens
  exact ⟨us, found, hus, hfound, hlike⟩

theorem describes_nil : Describes [] .empty := by
  have hnone : tokensFrom 1 [] = .ok [] := by rw [tokensFrom]
  exact describes_of_tokensFrom hnone .nil

/-- Two texts with a line break between them describe what each of them describes. -/
theorem Describes.append {front back : List Char} {a b : Body} (ha : Describes front a)
    (hb : Describes back b) : Describes (front ++ '\n' :: back) (a.append b) := by
  intro line
  obtain ⟨ts, found, hts, hfound, hlike⟩ := ha line
  obtain ⟨next, hnext⟩ := tokensFrom_append hts
  obtain ⟨us, later, hus, hlater, hlike'⟩ := hb next
  refine ⟨ts ++ us, found.append later, ?_, hfound.append hlater, hlike.append hlike'⟩
  rw [hnext back, hus]
  rfl

/-- Whether a document ends before what it opens: in a block comment, or in an item. -/
inductive LeavesOpen (document : String) : Prop
  | comment {line : Nat} (h : tokens document = .error ⟨line, .unterminatedComment⟩)
  | item {ts : List Placed} (h : tokens document = .ok ts)
    (hopen : ¬Closed (ts.map Placed.token))

/-- If a document leaves nothing open, blocks that it describes together with the text behind it
are described by one or by the other. -/
theorem Describes.cut {document : String} (hclosed : ¬LeavesOpen document) {back : List Char}
    {body : Body} (h : Describes (document.toList ++ '\n' :: back) body)
    (hblocks : body.attributes = []) : ∃ a b, Describes document.toList a ∧ Describes back b ∧
      body.Like (a.append b).attributes (a.append b).blocks := by
  obtain ⟨ts, found, hts, hfound, hlike⟩ := h 1
  cases htokens : tokensFrom 1 document.toList with
  | error error =>
      obtain ⟨line, fault⟩ := error
      have hfault : fault ≠ .unterminatedComment := by
        rintro rfl
        exact hclosed (.comment htokens)
      obtain ⟨other, hother⟩ := tokensFrom_append_error htokens hfault back
      rw [hother] at hts
      cases hts
  | ok us =>
      obtain ⟨next, hnext⟩ := tokensFrom_append htokens
      rw [hnext back] at hts
      obtain ⟨vs, hvs, htsplit⟩ := map_eq_ok_iff.mp hts
      have hfront : Closed (us.map Placed.token) := by
        by_contra hopen
        exact hclosed (.item htokens hopen)
      have hnone : found.attributes = [] := by
        have hattributes := hlike.attributes
        rw [hblocks] at hattributes
        exact List.map_eq_nil_iff.mp hattributes
      obtain ⟨a, b, ha, hb, rfl⟩ := hfound.cut hnone htsplit hfront
      exact ⟨a, b, describes_of_tokensFrom htokens ha, describes_of_tokensFrom hvs hb, hlike.symm⟩

end Document

open Document

namespace Realm

theorem outcome_parse {document : String} {body : Body} (h : Describes document.toList body) :
    outcome (Realm.parse document) = outcome (Realm.ofBody body) := by
  obtain ⟨ts, found, hts, hfound, hlike⟩ := h 1
  rw [← hlike.outcome_ofBody, Realm.parse, tokens, hts]
  exact congrArg outcome (congrArg (· >>= Realm.ofBody) (bodyOfTokens_eq_ok_iff.mpr hfound))

theorem parse_eq_ok_iff_describes {document : String} {r : Realm} :
    Realm.parse document = .ok r ↔ ∃ body, Describes document.toList body ∧
      body.attributes = [] ∧ body.blocks.foldlM Realm.addBlock .empty = .ok r := by
  constructor
  · intro h
    obtain ⟨ts, body, hts, hbody, h⟩ := parse_eq_ok_iff.mp h
    refine ⟨body, describes_of_tokensFrom hts (bodyOfTokens_eq_ok_iff.mp hbody), ?_⟩
    unfold ofBody at h
    split at h
    · cases h
    · rename_i hnone
      exact ⟨hnone, h⟩
  · rintro ⟨body, hbody, hnone, h⟩
    have hrealm : ofBody body = .ok r := by
      rw [ofBody, hnone]
      exact h
    rw [← outcome_eq_ok_iff, outcome_parse hbody, hrealm]
    rfl

theorem not_leavesOpen_of_parse {document : String} {r : Realm}
    (h : Realm.parse document = .ok r) : ¬LeavesOpen document := by
  obtain ⟨ts, body, hts, hbody, h⟩ := parse_eq_ok_iff.mp h
  have hnone : body.attributes = [] := by
    unfold ofBody at h
    split at h
    · cases h
    · assumption
  rintro (hcomment | ⟨hts', hopen⟩)
  · rw [hts] at hcomment
    cases hcomment
  · rw [hts] at hts'
    cases hts'
    exact hopen ((bodyOfTokens_eq_ok_iff.mp hbody).closed hnone)

/-! ## Blocks put into two realms together -/

/-- What comes of blocks in the union of a realm `s` with another, beside what comes of them in
the other alone: the union, if the names of tables stay different, and otherwise a fault. -/
inductive Beside (s : Realm) : Except Error Realm → Except Error Realm → Prop
  | apart {r : Realm} (h : s.Apart r) : Beside s (.ok r) (.ok (s.union r))
  | meets {r : Realm} (h : ¬s.Apart r) (line : Nat) (name : String) :
    Beside s (.ok r) (.error ⟨line, .duplicateTable name⟩)
  | fault (error other : Error) : Beside s (.error error) (.error other)

theorem beside_addBlock {s r : Realm} (h : s.Apart r) (block : Block) :
    Beside s (r.addBlock block) ((s.union r).addBlock block) := by
  unfold addBlock
  split
  · exact .apart h
  · cases Table.ofBlock block with
    | error error => exact .fault error error
    | ok t =>
        simp only [bind, Except.bind, pure, Except.pure, contains_union]
        cases hr : r.tables.contains t.name with
        | true =>
            rw [Bool.or_true]
            exact .fault _ _
        | false =>
            rw [Bool.or_false]
            cases hs : s.tables.contains t.name with
            | true =>
                refine .meets (fun hapart => ?_) _ _
                have hfree := hapart t.name hs
                simp [NameMap.contains] at hfree
            | false =>
                have hapart : s.Apart ⟨r.tables.insert t.name t⟩ := by
                  intro name hname
                  rw [NameMap.contains, NameMap.get?_insert_of_ne _ _ fun same => ?_]
                  · exact h name hname
                  · rw [same, hname] at hs
                    cases hs
                have hunion := Beside.apart hapart
                rw [union_insert] at hunion
                exact hunion
  · exact .fault _ _

theorem within_addBlock {r next : Realm} {block : Block} (h : r.addBlock block = .ok next) :
    r.Within next := by
  obtain ⟨-, rfl⟩ | ⟨-, t, -, hfree, rfl⟩ := addBlock_cases h
  · exact .refl _
  · exact within_insert hfree t

theorem within_foldlM {r next : Realm} {blocks : List Block}
    (h : blocks.foldlM Realm.addBlock r = .ok next) : r.Within next :=
  foldlM_ok_of_step (P := r.Within) (fun _ _ _ _ hs hstep => hs.trans (within_addBlock hstep))
    (.refl r) h

theorem beside_foldlM {s r : Realm} (h : s.Apart r) (blocks : List Block) :
    Beside s (blocks.foldlM Realm.addBlock r) (blocks.foldlM Realm.addBlock (s.union r)) := by
  induction blocks generalizing r with
  | nil => exact .apart h
  | cons block blocks ih =>
      have hblock := beside_addBlock h block
      rw [List.foldlM_cons, List.foldlM_cons]
      generalize r.addBlock block = alone at hblock ⊢
      generalize (s.union r).addBlock block = together at hblock ⊢
      cases hblock with
      | apart hnext => exact ih hnext
      | fault error other => exact .fault error other
      | @meets next hmeets line name =>
          -- tables stay, so the names that meet here meet to the end
          change Beside s (blocks.foldlM Realm.addBlock next) (.error ⟨line, .duplicateTable name⟩)
          cases hfold : blocks.foldlM Realm.addBlock next with
          | error error => exact .fault error _
          | ok last =>
              exact .meets (fun hapart => hmeets (hapart.of_within (within_foldlM hfold))) line name

/-! ## Any number of texts -/

/-- Texts one after the other, each ended by a line break. -/
def joined (texts : List String) : String :=
  String.join (texts.map (· ++ "\n"))

theorem toList_joined_cons (text : String) (texts : List String) :
    (joined (text :: texts)).toList = text.toList ++ '\n' :: (joined texts).toList := by
  simp [joined]

/-- Texts that each describe a realm describe blocks together, and any realm with these is its
union with theirs, or there is none because names of tables meet. -/
theorem exists_describes_joined {texts : List String} {realms : List Realm}
    (h : List.Forall₂ (fun text r => Realm.parse text = .ok r) texts realms) :
    ∃ body, Describes (joined texts).toList body ∧ body.attributes = [] ∧ ∀ s,
      ((s :: realms).Pairwise Apart →
        body.blocks.foldlM Realm.addBlock s = .ok (realms.foldl Realm.union s)) ∧
      (¬(s :: realms).Pairwise Apart → ∃ line name,
        body.blocks.foldlM Realm.addBlock s = .error ⟨line, .duplicateTable name⟩) := by
  induction h with
  | nil =>
      refine ⟨.empty, describes_nil, rfl, fun s => ⟨fun _ => rfl, fun hmeets => ?_⟩⟩
      exact absurd (List.pairwise_singleton Apart s) hmeets
  | @cons text r texts realms hread htexts ih =>
      obtain ⟨later, hlater, hnone, hrest⟩ := ih
      obtain ⟨first, hfirst, hnone', hrealm⟩ := parse_eq_ok_iff_describes.mp hread
      refine ⟨first.append later, ?_, ?_, fun s => ?_⟩
      · rw [toList_joined_cons]
        exact hfirst.append hlater
      · rw [Body.append, hnone, hnone', List.append_nil]
      · -- the first text puts its realm into `s`, the others theirs into what comes of that
        have hbeside := beside_foldlM (Apart.empty s) first.blocks
        rw [hrealm, union_empty] at hbeside
        rw [Body.append, List.foldlM_append]
        generalize first.blocks.foldlM Realm.addBlock s = together at hbeside ⊢
        cases hbeside with
        | apart hapart =>
            rw [← pairwise_union_iff hapart]
            exact hrest (s.union r)
        | meets hmeets line name =>
            refine ⟨fun hpairwise => ?_, fun _ => ⟨line, name, rfl⟩⟩
            exact absurd ((List.pairwise_cons.mp hpairwise).1 r List.mem_cons_self) hmeets

/-- If texts that leave nothing open describe blocks together, and these can be put into a realm,
then each of them describes a realm, which stands in the result. -/
theorem parse_of_describes_joined {texts : List String}
    (hclosed : ∀ text ∈ texts, ¬LeavesOpen text) {body : Body}
    (h : Describes (joined texts).toList body) (hblocks : body.attributes = []) {s desired : Realm}
    (hfold : body.blocks.foldlM Realm.addBlock s = .ok desired) :
    ∀ text ∈ texts, ∃ r, Realm.parse text = .ok r ∧ r.Within desired := by
  induction texts generalizing body s with
  | nil => simp
  | cons text texts ih =>
      obtain ⟨htext, htexts⟩ := List.forall_mem_cons.mp hclosed
      rw [toList_joined_cons] at h
      obtain ⟨first, later, hfirst, hlater, hlike⟩ := h.cut htext hblocks
      have hattributes := hlike.attributes
      rw [hblocks, eq_comm, List.map_nil, List.map_eq_nil_iff] at hattributes
      obtain ⟨hnone, hnone'⟩ := List.append_eq_nil_iff.mp hattributes
      -- the cut gives the blocks back on other lines, which no fold depends on
      have hsame := Realm.outcome_foldlM_addBlock hlike.blocks s
      rw [hfold, Body.append, List.foldlM_append] at hsame
      obtain ⟨middle, hmiddle, hrest⟩ := exists_of_bind_ok (outcome_eq_ok_iff.mp hsame.symm)
      have hbeside := beside_foldlM (Apart.empty s) first.blocks
      rw [union_empty, hmiddle] at hbeside
      generalize hrealm : first.blocks.foldlM Realm.addBlock .empty = alone at hbeside
      cases hbeside with
      | @apart r hapart =>
          have hread := parse_eq_ok_iff_describes.mpr ⟨first, hfirst, hnone, hrealm⟩
          refine List.forall_mem_cons.mpr ⟨⟨r, hread, ?_⟩, ih htexts hlater hnone' hrest⟩
          exact (within_union_right s r).trans (within_foldlM hrest)

end Realm

end ProjectHub
