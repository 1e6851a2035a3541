import SyntaxHighlight.Proofs.Grammar.Scopes
import SyntaxHighlight.Scope.Match

/-!
# Matching by keys is matching by structure

The term of a node is found by comparing texts: the keys of the chains of types above the node with
the keys of the patterns. What is meant is a comparison of structures (`Pattern.Matches`): the
segments of the pattern against the node and its nearest ancestors, and its qualifier against the
siblings of the node. The two agree (`Cursor.term?_of_ofRules`): the patterns that match a node are
the chains at it, no chain has the key of another pattern, and the greatest depth of a grammar and
whether it counts siblings leave out only keys that none of its patterns has.
-/

namespace SyntaxHighlight

open Scope

/-! ### Matching -/

def Cursor.kindBefore (c : Cursor) : Nat := c.before.countP (·.label.key == c.key)

def Cursor.kindAfter (c : Cursor) : Nat := c.after.countP (·.label.key == c.key)

namespace Scope.Pattern

def order? (p : Pattern) : Option Order := p.segments.getLast?.bind (·.order)

/-- A pattern matches a node if its segments are of the types of the node and its nearest ancestors,
and only the last one may count siblings, those of the node. -/
structure Matches (p : Pattern) (c : Cursor) : Prop where
  ne_nil : p.segments ≠ []
  keys : (p.segments.map (·.key)).reverse <+: (c.node :: c.ancestors).map (·.key)
  ancestors : p.qualifiesAncestor = false
  node : p.order? = none ∨ p.order? = some (.forward c.kindBefore) ∨
    p.order? = some (.backward (c.kindAfter + 1))

/-- Counting from the back is more specific than from the front, and both than not counting. -/
def orderRank : Option Order → Nat
  | none => 0
  | some (.forward _) => 1
  | some (.backward _) => 2

/-- A pattern is less specific than a deeper one, and than one of its depth with an order of higher
rank. -/
def LessSpecific (p q : Pattern) : Prop :=
  p.depth < q.depth ∨ p.depth = q.depth ∧ orderRank p.order? < orderRank q.order?

end Scope.Pattern

/-- The pattern that decides on a node: the most specific one of the rules that matches it. -/
structure Rules.Decides (rules : Rules) (p : Pattern) (c : Cursor) : Prop where
  has : rules.HasPattern p
  isMatch : p.Matches c
  most : ∀ q, rules.HasPattern q → q.Matches c → q = p ∨ q.LessSpecific p

/-! ### The chains at a node -/

namespace Cursor

/-- What a pattern that matches a node can ask of its siblings. -/
def orders (c : Cursor) : List (Option Order) :=
  [none, some (.forward c.kindBefore), some (.backward (c.kindAfter + 1))]

/-- The segments of some of the nearest ancestors of a node, the most distant first. -/
def above (c : Cursor) (depth : Nat) : List Segment :=
  (c.ancestors.take depth).reverse.map (⟨·.key, none⟩)

/-- The pattern of a node and some of its nearest ancestors. -/
def chain (c : Cursor) (depth : Nat) (order : Option Order) : Pattern :=
  ⟨c.above depth ++ [⟨c.key, order⟩]⟩

variable {c : Cursor} {depth : Nat} {order : Option Order}

theorem order_of_mem_above {s : Segment} (h : s ∈ c.above depth) : s.order = none := by
  obtain ⟨n, -, rfl⟩ := List.mem_map.1 h
  rfl

/-- A chain is as deep as it was asked to be, as long as there are ancestors. -/
theorem depth_chain (h : depth ≤ c.ancestors.length) : (c.chain depth order).depth = depth := by
  simp [chain, above, Pattern.depth, h]

@[simp] theorem order?_chain : (c.chain depth order).order? = order := by
  simp [chain, Pattern.order?]

theorem usesOrder_chain (h : order ≠ none) : (c.chain depth order).usesOrder = true := by
  have hsome : order.isSome = true := Option.isSome_iff_ne_none.2 h
  simp [chain, Pattern.usesOrder, hsome]

/-- Segments without qualifiers whose keys are those of the nearest ancestors. -/
theorem eq_above_of_prefix {front : List Segment} (hplain : ∀ s ∈ front, s.order = none)
    (hkeys : (front.map (·.key)).reverse <+: c.ancestors.map (·.key)) :
    front = c.above front.length := by
  -- without qualifiers a segment is known by its key
  have hfront : front.map (fun s => (⟨s.key, none⟩ : Segment)) = front := by
    rw [List.map_congr_left (g := id), List.map_id]
    intro s hs
    rw [← hplain s hs]
    rfl
  have htake := List.prefix_iff_eq_take.1 hkeys
  rw [List.length_reverse, List.length_map, ← List.map_take] at htake
  calc front
      = (front.map (·.key)).map (⟨·, none⟩) := by rw [List.map_map]; exact hfront.symm
    _ = ((c.ancestors.take front.length).map (·.key)).reverse.map (⟨·, none⟩) := by
        rw [← htake, List.reverse_reverse]
    _ = c.above front.length := by rw [above, ← List.map_reverse, List.map_map]; rfl

/-- The patterns that match a node are the chains at it. -/
theorem matches_iff_chain {p : Pattern} :
    p.Matches c ↔ ∃ depth ≤ c.ancestors.length, ∃ order ∈ c.orders, p = c.chain depth order := by
  constructor
  · intro h
    obtain ⟨segments⟩ := p
    obtain ⟨front, last, rfl⟩ : ∃ front last, segments = front ++ [last] :=
      ⟨_, _, (List.dropLast_concat_getLast h.ne_nil).symm⟩
    -- a match has no order above the node, so its front segments are known by their keys
    have hplain : ∀ s ∈ front, s.order = none := by
      have hancestors := h.ancestors
      rw [Pattern.qualifiesAncestor, List.dropLast_concat, List.any_eq_false] at hancestors
      intro s hs
      simpa using hancestors s hs
    obtain ⟨hkey, hfront⟩ : last.key = c.node.key ∧
        (front.map (·.key)).reverse <+: c.ancestors.map (·.key) := by
      simpa [List.cons_prefix_cons] using h.keys
    have horder : Pattern.order? ⟨front ++ [last]⟩ = last.order := by simp [Pattern.order?]
    refine ⟨front.length, by simpa using hfront.length_le, last.order, ?_, ?_⟩
    · have hnode := h.node
      rw [horder] at hnode
      simpa [orders] using hnode
    · rw [chain, ← eq_above_of_prefix hplain hfront, key, ← hkey]
  · rintro ⟨depth, hdepth, order, horder, rfl⟩
    refine ⟨by simp [chain], ?_, ?_, ?_⟩
    · -- a chain is a match: its keys are those of the nearest ancestors, and it has one order only
      have hprefix : (c.ancestors.take depth).map (·.key) <+: c.ancestors.map (·.key) := by
        rw [List.map_take]
        exact List.take_prefix _ _
      simpa [chain, above, key, Function.comp_def] using hprefix
    · rw [Pattern.qualifiesAncestor, chain, List.dropLast_concat, List.any_eq_false]
      intro s hs
      simp [order_of_mem_above hs]
    · rw [order?_chain]
      simpa [orders] using horder

/-! ### The keys of the chains -/

/-- A qualifier is written at the end of a canonical key. -/
theorem canonical_order (ss : List Segment) (key : String) (o : Order) :
    Pattern.canonical ⟨ss ++ [⟨key, some o⟩]⟩ =
      Pattern.canonical ⟨ss ++ [⟨key, none⟩]⟩ ++ o.text := by
  induction ss with
  | nil => simp [Pattern.canonical, Segment.text]
  | cons s ss ih =>
    rw [List.cons_append, List.cons_append, Pattern.canonical_cons s (by simp),
      Pattern.canonical_cons s (by simp), ih]
    simp [String.append_assoc]

/-- The two last segments of a key can be taken as one. -/
theorem canonical_join (ss : List Segment) (key key' : String) :
    Pattern.canonical ⟨ss ++ [⟨key, none⟩] ++ [⟨key', none⟩]⟩ =
      Pattern.canonical ⟨ss ++ [⟨key ++ separator ++ key', none⟩]⟩ := by
  induction ss with
  | nil => simp [Pattern.canonical, Segment.text, String.intercalate_cons_cons]
  | cons s ss ih =>
    simp only [List.cons_append] at ih ⊢
    rw [Pattern.canonical_cons s (by simp), Pattern.canonical_cons s (by simp), ih]

/-- Extending a key by the types of the nodes above writes down the chains one after the other. -/
theorem extendKey_eq (key : String) (nodes : List Node) :
    extendKey key nodes = (List.range (nodes.length + 1)).map fun d =>
      Pattern.canonical ⟨(nodes.take d).reverse.map (⟨·.key, none⟩) ++ [⟨key, none⟩]⟩ := by
  induction nodes generalizing key with
  | nil => simp [extendKey, Pattern.canonical, Segment.text]
  | cons n nodes ih =>
    rw [extendKey, List.length_cons, List.range_succ_eq_map, List.map_cons, List.map_map, ih]
    refine List.cons_eq_cons.2 ⟨?_, ?_⟩
    · simp [Pattern.canonical, Segment.text]
    · apply List.map_congr_left
      intro d _
      simp only [Function.comp_apply, List.take_succ_cons, List.reverse_cons, List.map_append,
        List.map_cons, List.map_nil]
      -- the key so far stands for its last two segments
      exact (canonical_join _ _ _).symm

/-- The chains that a grammar makes a node look at, the most specific last. -/
def candidates (c : Cursor) (g : Grammar) : List Pattern :=
  (List.range (min g.maxDepth c.ancestors.length + 1)).flatMap fun depth =>
    (if g.usesOrder then c.orders else [none]).map (c.chain depth)

theorem chainKeys_eq (c : Cursor) (bound : Nat) :
    c.chainKeys bound = (List.range (min bound c.ancestors.length + 1)).map fun depth =>
      (c.chain depth none).canonical := by
  rw [chainKeys, extendKey_eq, List.length_take]
  apply List.map_congr_left
  intro depth hdepth
  have hle : depth ≤ bound := by
    have := List.mem_range.1 hdepth
    omega
  rw [List.take_take, Nat.min_eq_left hle]
  rfl

/-- The candidate keys of a node are the keys of these chains. -/
theorem candidateKeys_eq (c : Cursor) (g : Grammar) :
    c.candidateKeys g = (c.candidates g).map (·.canonical) := by
  simp only [candidateKeys, candidates, chainKeys_eq, List.map_flatMap, List.map_map]
  by_cases h : g.usesOrder = true
  · simp only [h, if_true, List.flatMap_map]
    refine congrArg (List.flatMap · _) (funext fun depth => ?_)
    simp [withOrder, orders, siblingRank, kindBefore, kindAfter, chain, canonical_order]
  · simp only [h, Bool.false_eq_true, if_false, List.map_eq_flatMap]
    rfl

/-! ### Which chains are looked at -/

/-- The candidates of a node are its chains up to the bounds of the grammar. -/
theorem mem_candidates_iff {g : Grammar} {p : Pattern} :
    p ∈ c.candidates g ↔ ∃ depth ≤ min g.maxDepth c.ancestors.length,
      ∃ order ∈ (if g.usesOrder then c.orders else [none]), p = c.chain depth order := by
  simp only [candidates, List.mem_flatMap, List.mem_range, List.mem_map, Nat.lt_succ_iff, eq_comm]

/-- Each candidate matches the node. -/
theorem matches_of_mem_candidates {g : Grammar} {p : Pattern} (h : p ∈ c.candidates g) :
    p.Matches c := by
  obtain ⟨depth, hdepth, order, horder, rfl⟩ := mem_candidates_iff.1 h
  refine matches_iff_chain.2 ⟨depth, by omega, order, ?_, rfl⟩
  split at horder
  · exact horder
  · simp [orders, List.mem_singleton.1 horder]

/-- The bounds of a grammar leave out no pattern of its rules. -/
theorem mem_candidates_of_hasPattern {language : String} {rules : Rules} {g : Grammar}
    (hg : Grammar.ofRules language rules = .ok g) {p : Pattern} (hp : rules.HasPattern p)
    (hmatch : p.Matches c) : p ∈ c.candidates g := by
  obtain ⟨depth, hdepth, order, horder, rfl⟩ := matches_iff_chain.1 hmatch
  obtain ⟨rule, hrule, hparse⟩ := hp
  obtain ⟨p', hp', hmax, huses⟩ := (Grammar.ofRules_eq_ok hg).2.2.bounds rule hrule
  obtain rfl := Except.ok.inj (hparse.symm.trans hp')
  rw [depth_chain hdepth] at hmax
  refine mem_candidates_iff.2 ⟨depth, Nat.le_min.2 ⟨hmax, hdepth⟩, order, ?_, rfl⟩
  -- The grammar has the rule's pattern, so neither cut-off leaves it out: it counts siblings if the
  -- pattern does, and its depth bound is at least the pattern's.
  by_cases hnone : order = none
  · subst hnone
    split
    · simp [orders]
    · simp
  · have hg' : g.usesOrder = true := huses (usesOrder_chain hnone)
    rwa [if_pos hg']

/-- The candidates are in order of how specific they are. -/
theorem pairwise_candidates (c : Cursor) (g : Grammar) :
    (c.candidates g).Pairwise Pattern.LessSpecific := by
  unfold candidates
  rw [List.pairwise_flatMap]
  constructor
  · intro depth _
    -- chains of one depth differ in their orders
    have hranks : c.orders.Pairwise fun o o' => Pattern.orderRank o < Pattern.orderRank o' := by
      simp [orders, Pattern.orderRank]
    have hchoice : (if g.usesOrder then c.orders else [none]).Pairwise
        fun o o' => Pattern.orderRank o < Pattern.orderRank o' := by
      split
      · exact hranks
      · simp
    rw [List.pairwise_map]
    refine hchoice.imp fun {o o'} hlt => .inr ⟨?_, by simpa using hlt⟩
    simp [chain, Pattern.depth]
  · -- chains of different depths are deeper from one to the next
    refine List.pairwise_lt_range.imp_of_mem fun {d d'} hd hd' hlt p hp q hq => .inl ?_
    obtain ⟨o, -, rfl⟩ := List.mem_map.1 hp
    obtain ⟨o', -, rfl⟩ := List.mem_map.1 hq
    have hle := List.mem_range.1 hd
    have hle' := List.mem_range.1 hd'
    rwa [depth_chain (by omega), depth_chain (by omega)]

/-- No pattern but a chain of well-formed nodes has its key. -/
theorem eq_chain_of_canonical_eq (hwf : ∀ n ∈ c.node :: c.ancestors, n.WellFormed) {p : Pattern}
    (hp : Readable p.segments) (h : p.canonical = (c.chain depth order).canonical) :
    p = c.chain depth order := by
  refine Pattern.eq_of_canonical_eq hp ?_ (fun s => order_of_mem_above) h
  intro s hs
  rcases List.mem_append.1 hs with hs | hs
  · obtain ⟨n, hn, rfl⟩ := List.mem_map.1 hs
    have hn : n ∈ c.ancestors := List.mem_of_mem_take (List.mem_reverse.1 hn)
    exact ⟨n, hwf n (by simp [hn]), rfl⟩
  · obtain rfl := List.mem_singleton.1 hs
    exact ⟨c.node, hwf c.node (by simp), rfl⟩

/-! ### The term of a node -/

/-- **Matching is structural.** A node of a type that needs no look at its surroundings has the term
of its type. Every other node has the term of the most specific pattern that matches it, at any
depth and with any qualifier, and the term of its type if none does. -/
theorem term?_of_ofRules {language : String} {rules : Rules} {g : Grammar}
    (hg : Grammar.ofRules language rules = .ok g) (c : Cursor)
    (hwf : ∀ n ∈ c.node :: c.ancestors, n.WellFormed) :
    if rules.complexTerms.contains c.key then
      (∃ p t, rules.Decides p c ∧ rules.patternTerm? p = some t ∧ c.term? g = some t) ∨
        (∀ p, rules.HasPattern p → ¬ p.Matches c) ∧
          c.term? g = rules.simpleTerms.find? c.key
    else c.term? g = rules.simpleTerms.find? c.key := by
  obtain ⟨hsimple, hcomplex, -⟩ := Grammar.ofRules_eq_ok hg
  -- The key of a chain leads to the term of that chain and of no other pattern, so the lookups are
  -- by structure.
  have hterm : ∀ p ∈ c.candidates g, g.scopeTerm? p.canonical = rules.patternTerm? p := by
    intro p hp
    obtain ⟨depth, -, order, -, rfl⟩ := mem_candidates_iff.1 hp
    exact Grammar.scopeTerm?_canonical hg fun p' => eq_chain_of_canonical_eq hwf
  unfold term?
  simp only [Grammar.isComplex, Grammar.simpleTerm?, hsimple, hcomplex]
  split
  · rw [candidateKeys_eq, List.foldl_map]
    rcases foldl_or_cases (pairwise_candidates c g) (fun p => g.scopeTerm? p.canonical)
      (rules.simpleTerms.find? c.key) with ⟨p, hp, t, hpt, hfold, hmost⟩ | ⟨hnone, hfold⟩
    · -- the last candidate with a term is the most specific match, since every match is a candidate
      refine .inl ⟨p, t, ⟨?_, matches_of_mem_candidates hp, ?_⟩, ?_, hfold⟩
      · rw [← Rules.isSome_patternTerm?_iff, ← hterm p hp, hpt]
        rfl
      · intro q hq hmatch
        have hmem := mem_candidates_of_hasPattern hg hq hmatch
        apply hmost q hmem
        rw [hterm q hmem]
        exact Rules.isSome_patternTerm?_iff.2 hq
      · rw [← hterm p hp, hpt]
    · -- no candidate has a term, so no match has one
      refine .inr ⟨?_, hfold⟩
      intro p hp hmatch
      have hmem := mem_candidates_of_hasPattern hg hp hmatch
      have hsome := Rules.isSome_patternTerm?_iff.2 hp
      rw [← hterm p hmem, hnone p hmem] at hsome
      simp at hsome
  · rfl

end Cursor

/-! ### A call for an example

The second argument of `f(a, b)`, with rules that tell the last argument from the others. -/

namespace Sample

def callRules : Rules where
  simpleTerms := .ofList [("identifier", "variable")]
  complexTerms := .ofList ["identifier"]
  complexScopes := .ofList
    [("arguments>identifier[-1]", "last"), ("arguments > identifier", "argument")]

def callGrammar : Grammar where
  language := "calls"
  simpleTerms := callRules.simpleTerms
  complexTerms := callRules.complexTerms
  scopes :=
    { terms := .ofList
        [("arguments > identifier", "argument"), ("arguments > identifier[-1]", "last")]
      maxDepth := 1
      usesOrder := true }

def node (kind : String) (named : Bool) : Node := ⟨0, kind, named, ⟨⟨0, 0⟩, ⟨0, 0⟩⟩⟩

def lastArgument : Cursor where
  focus := .node (node "identifier" true) []
  crumbs :=
    [⟨node "arguments" true,
        [.node (node "," false) [], .node (node "identifier" true) [], .node (node "(" false) []],
        [.node (node ")" false) []]⟩,
      ⟨node "call" true, [.node (node "identifier" true) []], []⟩]

theorem ofRules_callRules : Grammar.ofRules "calls" callRules = .ok callGrammar := by
  have h : (Grammar.ofRules "calls" callRules).toOption = some callGrammar := by decide +kernel
  cases hg : Grammar.ofRules "calls" callRules with
  | error e => simp [hg, Except.toOption] at h
  | ok g => simpa [hg, Except.toOption] using h

theorem wellFormed_lastArgument :
    ∀ n ∈ lastArgument.node :: lastArgument.ancestors, n.WellFormed := by
  have hname : ∀ kind ∈ ["identifier", "arguments", "call"], IsName kind := by
    intro kind hkind
    have hlast : ∀ kind ∈ ["identifier", "arguments", "call"],
        kind.toList ≠ [] ∧ kind.toList.getLast? ≠ some ']' := by decide
    have hchars : ∀ kind ∈ ["identifier", "arguments", "call"], (kind.toList.all fun c =>
        !Text.isBlank c && c != '"' && c != '>') = true := by decide
    refine ⟨(hlast kind hkind).1, fun c hc => ?_, (hlast kind hkind).2⟩
    have hc := List.all_eq_true.1 (hchars kind hkind) c hc
    simpa [and_assoc] using hc
  intro n hn
  simp only [lastArgument, Cursor.node, Cursor.ancestors, Tree.label, List.map_cons, List.map_nil,
    List.mem_cons, List.not_mem_nil, or_false] at hn
  rcases hn with rfl | rfl | rfl
  · exact hname "identifier" (by simp)
  · exact hname "arguments" (by simp)
  · exact hname "call" (by simp)

end Sample

/-- The rule for the last argument decides on the second argument. -/
theorem Cursor.term?_of_ofRules_last_argument :
    ∃ p, Sample.callRules.Decides p Sample.lastArgument ∧
      Sample.callRules.patternTerm? p = some "last" := by
  have hterm : Sample.lastArgument.term? Sample.callGrammar = some "last" := by decide +kernel
  have h := Cursor.term?_of_ofRules Sample.ofRules_callRules Sample.lastArgument
    Sample.wellFormed_lastArgument
  have hcomplex : Sample.callRules.complexTerms.contains Sample.lastArgument.key = true := by
    decide +kernel
  rw [if_pos hcomplex] at h
  rcases h with ⟨p, t, hdecides, hpt, ht⟩ | ⟨-, hsimple⟩
  · rw [hterm] at ht
    exact ⟨p, hdecides, hpt.trans ht.symm⟩
  · rw [hterm] at hsimple
    exact absurd hsimple (by decide +kernel)

end SyntaxHighlight
