import Mathlib.Data.List.Induction
import Mathlib.Data.List.Pairwise
import SyntaxHighlight.Proofs.Tree.Subtree

/-!
# Siblings of one type

The links from sibling to sibling lead through the children of a place in their order, to the left
and to the right of each (`Cursor.passes_of_children_eq`). So counting siblings of a node's own type
in both directions numbers the nodes of each type from the front and from the back, whatever stands
between them (`Cursor.siblingRank_getElem`), and a key that counts siblings names exactly one of
them (`Cursor.siblings_are_numbered`).
-/

namespace SyntaxHighlight

open Scope

namespace Cursor

/-! ### Going from sibling to sibling -/

/-- Following a link from place to place, until there is none, some places are passed. -/
inductive Passes (link : Cursor → Option Cursor) : Cursor → List Cursor → Prop
  | stop {c : Cursor} (h : link c = none) : Passes link c []
  | pass {c d : Cursor} {ds : List Cursor} (h : link c = some d) (hrest : Passes link d ds) :
      Passes link c (d :: ds)

variable {l : Node} {crumbs : List Crumb}

/-- Two places next to each other are linked. -/
theorem linked_of_siblingsFrom_eq {c d : Cursor} {back : List Cursor} {ts : List Tree} :
    ∀ {before : List Tree} {front : List Cursor},
      siblingsFrom l crumbs before ts = front ++ c :: d :: back →
        c.nextSibling? = some d ∧ d.prevSibling? = some c := by
  induction ts with
  | nil =>
    intro before front h
    cases front <;> cases h
  | cons t ts ih =>
    intro before front h
    cases front with
    | nil =>
      -- the two are at the front, where the second is the first of what follows
      cases ts with
      | nil => cases h
      | cons s ts =>
        cases h
        exact ⟨rfl, rfl⟩
    | cons e front => exact ih (List.cons.inj h).2

/-- Behind the last place there is none. -/
theorem nextSibling?_of_siblingsFrom_eq {c : Cursor} {ts : List Tree} :
    ∀ {before : List Tree} {front : List Cursor},
      siblingsFrom l crumbs before ts = front ++ [c] → c.nextSibling? = none := by
  induction ts with
  | nil =>
    intro before front h
    cases front <;> cases h
  | cons t ts ih =>
    intro before front h
    cases front with
    | nil =>
      obtain ⟨rfl, hnil⟩ := List.cons.inj h
      cases ts with
      | nil => rfl
      | cons s ts => cases hnil
    | cons e front => exact ih (List.cons.inj h).2

/-- The links lead through the siblings in their order, in both directions. -/
theorem passes_of_children_eq {p c : Cursor} {front back : List Cursor}
    (h : p.children = front ++ c :: back) :
    Passes prevSibling? c front.reverse ∧ Passes nextSibling? c back := by
  -- To the left on what is in front, from its end; to the right on what is behind.
  constructor
  · induction front using List.reverseRecOn generalizing c back with
    | nil =>
      cases hts : p.focus.children with
      | nil =>
        rw [children, hts] at h
        cases h
      | cons t ts =>
        rw [children, hts] at h
        cases h
        exact .stop rfl
    | append_singleton front d ih =>
      rw [List.append_assoc] at h
      rw [List.reverse_append]
      exact .pass (linked_of_siblingsFrom_eq h).2 (ih h)
  · induction back generalizing c front with
    | nil => exact .stop (nextSibling?_of_siblingsFrom_eq h)
    | cons d back ih =>
      have hd : p.children = (front ++ [c]) ++ d :: back := by
        rw [h, List.append_assoc]
        rfl
      exact .pass (linked_of_siblingsFrom_eq h).1 (ih hd)

/-! ### Counting siblings -/

/-- A place knows the trees before and behind it among its siblings. -/
theorem beside_of_siblingsFrom_eq {c : Cursor} {back : List Cursor} {ts : List Tree} :
    ∀ {before : List Tree} {front : List Cursor},
      siblingsFrom l crumbs before ts = front ++ c :: back →
        c.before = (front.map (·.focus)).reverse ++ before ∧ c.after = back.map (·.focus) := by
  -- the places of some siblings carry these siblings
  have hfocus : ∀ {ts before : List Tree},
      (siblingsFrom l crumbs before ts).map (·.focus) = ts := by
    intro ts
    induction ts with
    | nil => intro before; rfl
    | cons t ts ih => intro before; rw [siblingsFrom, List.map_cons, ih]
  induction ts with
  | nil =>
    intro before front h
    cases front <;> cases h
  | cons t ts ih =>
    intro before front h
    cases front with
    | nil =>
      obtain ⟨rfl, rfl⟩ := List.cons.inj h
      exact ⟨rfl, hfocus.symm⟩
    | cons e front =>
      obtain ⟨rfl, hrest⟩ := List.cons.inj h
      obtain ⟨hbefore, hafter⟩ := ih hrest
      exact ⟨by rw [hbefore]; simp, hafter⟩

/-- The rank of a child counts the children of its type on both sides. -/
theorem siblingRank_of_children_eq {p c : Cursor} {front back : List Cursor}
    (h : p.children = front ++ c :: back) :
    c.siblingRank = (front.countP (·.key == c.key), back.countP (·.key == c.key)) := by
  obtain ⟨hbefore, hafter⟩ := beside_of_siblingsFrom_eq h
  rw [siblingRank, hbefore, hafter, List.append_nil, List.countP_reverse, List.countP_map,
    List.countP_map]
  rfl

def ofKind (p : Cursor) (key : String) : List Cursor := p.children.filter (·.key == key)

variable {p : Cursor} {key : String}

theorem key_of_mem_ofKind {c : Cursor} (h : c ∈ p.ofKind key) : c.key = key :=
  eq_of_beq (List.mem_filter.1 h).2

/-- The rank of a child is its place among the children of its type, from the front and from the
back. -/
theorem siblingRank_getElem (i : Nat) (h : i < (p.ofKind key).length) :
    (p.ofKind key)[i].siblingRank = (i, (p.ofKind key).length - 1 - i) := by
  have hcut : p.ofKind key =
      (p.ofKind key).take i ++ (p.ofKind key)[i] :: (p.ofKind key).drop (i + 1) := by
    rw [← List.drop_eq_getElem_cons h, List.take_append_drop]
  have hkey := key_of_mem_ofKind (List.getElem_mem h)
  generalize (p.ofKind key)[i] = c at hcut hkey ⊢
  obtain ⟨front, rest, hchildren, hfront, hrest⟩ := List.filter_eq_append_iff.1 hcut
  obtain ⟨between, back, rfl, hbetween, -, hback⟩ := List.filter_eq_cons_iff.1 hrest
  -- between the siblings of one kind there are none of this kind
  have hnone : between.countP (·.key == key) = 0 := List.countP_eq_zero.2 hbetween
  rw [siblingRank_of_children_eq (hchildren.trans (List.append_assoc _ _ _).symm), hkey,
    List.countP_append, hnone, List.countP_eq_length_filter, List.countP_eq_length_filter, hfront,
    hback, List.length_take, List.length_drop, Nat.min_eq_left (Nat.le_of_lt h), Nat.sub_sub,
    Nat.add_comm 1 i]
  rfl

/-! ### Keys that count siblings -/

/-- Of the keys of a chain, a later one has more in front of an earlier one. -/
theorem pairwise_extendKey (key : String) (nodes : List Node) :
    (extendKey key nodes).Pairwise fun s s' => ∃ front, s' = front ++ separator ++ s := by
  -- every key of the list ends in the one that it starts from
  have hends : ∀ (nodes : List Node) (key : String), ∀ s ∈ extendKey key nodes,
      s = key ∨ ∃ front, s = front ++ separator ++ key := by
    intro nodes
    induction nodes with
    | nil => exact fun key s hs => .inl (List.mem_singleton.1 hs)
    | cons n nodes ih =>
      intro key s hs
      rcases List.mem_cons.1 hs with rfl | hs
      · exact .inl rfl
      · rcases ih _ s hs with rfl | ⟨front, rfl⟩
        · exact .inr ⟨n.key, rfl⟩
        · exact .inr ⟨front ++ separator ++ n.key, by simp [String.append_assoc]⟩
  induction nodes generalizing key with
  | nil => exact List.pairwise_singleton _ _
  | cons n nodes ih =>
    rw [extendKey, List.pairwise_cons]
    refine ⟨fun s hs => ?_, ih _⟩
    rcases hends nodes _ s hs with rfl | ⟨front, rfl⟩
    · exact ⟨n.key, rfl⟩
    · exact ⟨front ++ separator ++ n.key, by simp [String.append_assoc]⟩

/-- A text with a qualifier has no more separators than the text, and is longer. -/
theorem append_text_ne {s s' : String} (h : ∃ front, s' = front ++ separator ++ s)
    (order : Order) : s ++ order.text ≠ s' ∧ s' ++ order.text ≠ s := by
  obtain ⟨front, rfl⟩ := h
  have hbody : order.body.count '>' = 0 := List.count_eq_zero.2 fun hmem =>
    absurd (order.isOrderChar_body _ hmem) (by decide)
  have hone : separator.toList.count '>' = 1 := by decide
  constructor
  · intro heq
    have hcount := congrArg (fun text : String => text.toList.count '>') heq
    simp only [String.toList_append, order.toList_text, List.count_append, hone] at hcount
    simp [hbody] at hcount
  · intro heq
    have hlength := congrArg String.length heq
    have hpositive : separator.length = 3 := rfl
    simp only [String.length_append, hpositive] at hlength
    omega

/-- No key of a chain is another one with a qualifier. -/
theorem append_text_notMem_chainKeys {c : Cursor} {depth : Nat} {s : String}
    (hs : s ∈ c.chainKeys depth) (order : Order) : s ++ order.text ∉ c.chainKeys depth := by
  intro hmem
  -- the text of an order is not empty
  have hself (s : String) : s ++ order.text ≠ s := by
    intro heq
    have hnil : order.text.toList = [] :=
      List.append_right_eq_self.1 ((String.toList_append).symm.trans (congrArg String.toList heq))
    rw [order.toList_text] at hnil
    cases hnil
  have hpairs := (pairwise_extendKey c.key (c.ancestors.take depth)).imp
    fun h => append_text_ne h order
  have : Std.Symm fun s s' : String => s ++ order.text ≠ s' ∧ s' ++ order.text ≠ s :=
    ⟨fun _ _ => And.symm⟩
  exact (hpairs.forall_of_forall (fun s _ => ⟨hself s, hself s⟩) hs hmem).1 rfl

/-- With an order, a key of the chain of a child is a candidate if the order is the place of the
child among the children of its type. -/
theorem append_text_mem_candidateKeys_iff {g : Grammar} (hg : g.usesOrder = true) {i : Nat}
    {h : i < (p.ofKind key).length} {s : String}
    (hs : s ∈ (p.ofKind key)[i].chainKeys g.maxDepth) {order : Order} :
    s ++ order.text ∈ (p.ofKind key)[i].candidateKeys g ↔
      order = .forward i ∨ order = .backward ((p.ofKind key).length - i) := by
  have hback : (p.ofKind key).length - 1 - i + 1 = (p.ofKind key).length - i := by omega
  rw [candidateKeys, if_pos hg, siblingRank_getElem i h]
  simp only [List.mem_flatMap, withOrder, List.mem_cons, List.not_mem_nil, or_false, hback]
  constructor
  · rintro ⟨s', hs', heq | heq | heq⟩
    · exact absurd (heq ▸ hs') (append_text_notMem_chainKeys hs order)
    · exact .inl (Order.eq_of_append_text_eq heq)
    · exact .inr (Order.eq_of_append_text_eq heq)
  · rintro (rfl | rfl)
    · exact ⟨s, hs, .inr (.inl rfl)⟩
    · exact ⟨s, hs, .inr (.inr rfl)⟩

/-- The keys of some places with an order number them from the front and from the back. -/
structure NumberedBy (g : Grammar) (cs : List Cursor) : Prop where
  /-- Whatever is a candidate for a place is a key of its chain, plain or with an order. -/
  made : ∀ c ∈ cs, ∀ s ∈ c.candidateKeys g,
    ∃ s' ∈ c.chainKeys g.maxDepth, s = s' ∨ ∃ order : Order, s = s' ++ order.text
  /-- With an order, it is one if the order is the number of the place. -/
  named : ∀ i (h : i < cs.length), ∀ s ∈ cs[i].chainKeys g.maxDepth, ∀ order : Order,
    s ++ order.text ∈ cs[i].candidateKeys g ↔
      order = .forward i ∨ order = .backward (cs.length - i)
  /-- No two of these keys are the same. -/
  distinct : ∀ i j (hi : i < cs.length) (hj : j < cs.length), ∀ s ∈ cs[i].chainKeys g.maxDepth,
    ∀ s' ∈ cs[j].chainKeys g.maxDepth, ∀ order order' : Order,
      s ++ order.text ∈ cs[i].candidateKeys g → s' ++ order'.text ∈ cs[j].candidateKeys g →
        s ++ order.text = s' ++ order'.text → i = j ∧ order = order'
  first : ∀ i (h : i < cs.length), ∀ s ∈ cs[i].chainKeys g.maxDepth,
    s ++ "[0]" ∈ cs[i].candidateKeys g ↔ i = 0
  last : ∀ i (h : i < cs.length), ∀ s ∈ cs[i].chainKeys g.maxDepth,
    s ++ "[-1]" ∈ cs[i].candidateKeys g ↔ i + 1 = cs.length

/-- A grammar that counts siblings numbers those of one kind, from the front and from the back. -/
theorem numberedBy_ofKind {g : Grammar} (hg : g.usesOrder = true) (p : Cursor) (key : String) :
    NumberedBy g (p.ofKind key) := by
  -- the keys with an order are those with the two ranks of the sibling
  have hnamed : ∀ i (h : i < (p.ofKind key).length),
      ∀ s ∈ (p.ofKind key)[i].chainKeys g.maxDepth, ∀ order : Order,
        s ++ order.text ∈ (p.ofKind key)[i].candidateKeys g ↔
          order = .forward i ∨ order = .backward ((p.ofKind key).length - i) :=
    fun i h s hs order => append_text_mem_candidateKeys_iff hg hs
  constructor
  case made =>
    intro c _ s hs
    rw [candidateKeys, if_pos hg] at hs
    obtain ⟨s', hs', hmem⟩ := List.mem_flatMap.1 hs
    simp only [withOrder, List.mem_cons, List.not_mem_nil, or_false] at hmem
    rcases hmem with rfl | rfl | rfl
    · exact ⟨s, hs', .inl rfl⟩
    · exact ⟨s', hs', .inr ⟨_, rfl⟩⟩
    · exact ⟨s', hs', .inr ⟨_, rfl⟩⟩
  case named => exact hnamed
  case distinct =>
    intro i j hi hj s hs s' hs' order order' hmem hmem' heq
    -- the order is read off the key, and forward ranks differ, as do backward ranks
    obtain rfl := Order.eq_of_append_text_eq heq
    refine ⟨?_, rfl⟩
    rcases (hnamed i hi s hs order).1 hmem with rfl | rfl
    · simpa using (hnamed j hj s' hs' _).1 hmem'
    · have hback := (hnamed j hj s' hs' _).1 hmem'
      simp only [reduceCtorEq, Order.backward.injEq, false_or] at hback
      omega
  case first =>
    intro i h s hs
    refine (hnamed i h s hs (.forward 0)).trans ?_
    simp only [reduceCtorEq, Order.forward.injEq, or_false]
    omega
  case last =>
    intro i h s hs
    refine (hnamed i h s hs (.backward 1)).trans ?_
    simp only [reduceCtorEq, Order.backward.injEq, false_or]
    omega

/-- **Siblings of one type are numbered.** In any tree, let the children of a node be listed from
left to right.

* The links between siblings lead from a child through those before it and through those behind it,
  up to the ends of the list, and its rank counts those of its own type on both sides.
* So the ranks number the children of a type from the front and from the back, whatever stands
  between them. The root has no siblings.
* If a grammar counts siblings, the keys of these children with an order are different for different
  children, and say which of them a child is: `[0]` the first one and `[-1]` the last one. -/
theorem siblings_are_numbered (p : Cursor) (key : String) (g : Grammar) :
    (∀ front c back, p.children = front ++ c :: back →
      Passes prevSibling? c front.reverse ∧ Passes nextSibling? c back ∧
        c.siblingRank = (front.countP (·.key == c.key), back.countP (·.key == c.key))) ∧
    (∀ i (h : i < (p.ofKind key).length),
      (p.ofKind key)[i].siblingRank = (i, (p.ofKind key).length - 1 - i)) ∧
    (∀ t, (ofTree t).siblingRank = (0, 0) ∧ (ofTree t).prevSibling? = none ∧
      (ofTree t).nextSibling? = none) ∧
    (g.usesOrder = true → NumberedBy g (p.ofKind key)) := by
  refine ⟨fun front c back h => ?_, siblingRank_getElem, fun t => ⟨rfl, rfl, rfl⟩,
    fun hg => numberedBy_ofKind hg p key⟩
  obtain ⟨hbefore, hbehind⟩ := passes_of_children_eq h
  exact ⟨hbefore, hbehind, siblingRank_of_children_eq h⟩

end Cursor

namespace Sample

def arguments : Cursor where
  focus := .node (node "arguments" true)
    [.node (node "(" false) [], .node (node "identifier" true) [], .node (node "," false) [],
      .node (node "identifier" true) [], .node (node ")" false) []]
  crumbs := [⟨node "call" true, [.node (node "identifier" true) []], []⟩]

end Sample

/-- The second argument is the last identifier and not the first one, and there is one before it. -/
theorem Cursor.siblings_are_numbered_arguments :
    Sample.lastArgument.parent? = some Sample.arguments ∧
      Sample.lastArgument.siblingRank = (1, 0) ∧
      ∃ h : 1 < (Sample.arguments.ofKind "identifier").length,
        (Sample.arguments.ofKind "identifier")[1] = Sample.lastArgument ∧
        (Sample.arguments.ofKind "identifier")[1].siblingRank = (1, 0) ∧
        "arguments > identifier" ++ "[-1]" ∈
          Sample.lastArgument.candidateKeys Sample.callGrammar ∧
        "arguments > identifier" ++ "[0]" ∉
          Sample.lastArgument.candidateKeys Sample.callGrammar := by
  have hlength : (Sample.arguments.ofKind "identifier").length = 2 := by decide +kernel
  have hone : 1 < (Sample.arguments.ofKind "identifier").length := by omega
  have hlast : (Sample.arguments.ofKind "identifier")[1] = Sample.lastArgument := rfl
  have hchildren : Sample.arguments.children =
      Sample.arguments.children.take 3 ++ Sample.lastArgument :: Sample.arguments.children.drop 4 :=
    rfl
  have hchain : "arguments > identifier" ∈
      (Sample.arguments.ofKind "identifier")[1].chainKeys Sample.callGrammar.maxDepth := by
    rw [hlast]
    decide +kernel
  obtain ⟨hlinks, hranks, -, hkeys⟩ :=
    Cursor.siblings_are_numbered Sample.arguments "identifier" Sample.callGrammar
  have hnumbered := hkeys rfl
  have hrank := hranks 1 hone
  rw [hlength] at hrank
  refine ⟨rfl, (hlinks _ _ _ hchildren).2.2.trans (by decide +kernel), hone, hlast, hrank,
    (hnumbered.last 1 hone _ hchain).2 hlength.symm, fun hfirst => ?_⟩
  exact absurd ((hnumbered.first 1 hone _ hchain).1 hfirst) (by decide)

end SyntaxHighlight
