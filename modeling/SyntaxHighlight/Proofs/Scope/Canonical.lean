import SyntaxHighlight.Proofs.Scope.Reading
import SyntaxHighlight.Tree.Basic

/-!
# Canonical keys

The canonical key of a pattern is one of its texts, so reading it gives the pattern back. Matching
also writes down keys that were never read, for the chains of nodes in a tree; such a chain has the
key of a pattern that was read only if it is that pattern (`Pattern.eq_of_canonical_eq`). This needs
the kinds of the nodes to be such that a reader can tell where they end.
-/

namespace SyntaxHighlight

namespace Scope

open Text

/-! ### Reading canonical keys -/

def continuation : List Segment → List Char
  | [] => []
  | s :: ss => [' '] ++ '>' :: ([' '] ++ (s.key.toList ++ (orderText s.order ++ continuation ss)))

theorem Pattern.canonical_cons (s : Segment) {ss : List Segment} (h : ss ≠ []) :
    Pattern.canonical ⟨s :: ss⟩ = s.text ++ separator ++ Pattern.canonical ⟨ss⟩ := by
  obtain ⟨t, ts, rfl⟩ := List.exists_cons_of_ne_nil h
  simp [Pattern.canonical, String.intercalate_cons_cons]

/-- A canonical key is laid out as the first segment and what continues it. -/
theorem Pattern.toList_canonical (s : Segment) (ss : List Segment) :
    (Pattern.canonical ⟨s :: ss⟩).toList =
      s.key.toList ++ (orderText s.order ++ continuation ss) := by
  induction ss generalizing s with
  | nil => simp [Pattern.canonical, Segment.toList_text, continuation]
  | cons t ss ih =>
    rw [Pattern.canonical_cons s (by simp), String.toList_append, String.toList_append, ih t,
      Segment.toList_text]
    simp [continuation, separator]

/-- A canonical key ends in the text of the last segment. -/
theorem Pattern.exists_canonical_append (ss : List Segment) (s : Segment) :
    ∃ a, (Pattern.canonical ⟨ss ++ [s]⟩).toList = a ++ (s.key.toList ++ orderText s.order) := by
  induction ss with
  | nil => exact ⟨[], by rw [List.nil_append, Pattern.toList_canonical]; simp [continuation]⟩
  | cons t ss ih =>
    obtain ⟨a, ha⟩ := ih
    refine ⟨t.text.toList ++ separator.toList ++ a, ?_⟩
    rw [List.cons_append, Pattern.canonical_cons t (by simp), String.toList_append,
      String.toList_append, ha]
    simp

/-- What continues a canonical key is a layout with one blank on each side of every `>`. -/
theorem continues_continuation {ss : List Segment} (h : ∀ s ∈ ss, s.Valid) :
    Continues ss (continuation ss) := by
  have hspace : Blanks [' '] := by intro c hc; obtain rfl := List.mem_singleton.1 hc; decide
  induction ss with
  | nil => exact .nil
  | cons s ss ih =>
    have hs : s.Valid := h s (by simp)
    exact .cons hspace hspace (spells_orderText hs.order) (ih fun t ht => h t (by simp [ht]))

/-- The canonical key of a pattern that can be read is read as that pattern. -/
theorem Pattern.parse_canonical {p : Pattern} (h : Readable p.segments) :
    Pattern.parse p.canonical = .ok p := by
  obtain ⟨ss⟩ := p
  cases ss with
  | nil => exact absurd rfl h.ne_nil
  | cons s ss =>
    have hs : s.Valid := h.valid s (by simp)
    have hvalid : ∀ t ∈ ss, t.Valid := fun t ht => h.valid t (by simp [ht])
    have hrest := continues_continuation hvalid
    have hq := spells_orderText hs.order
    rw [parse_eq_ok_iff]
    refine ⟨h, ?_⟩
    rw [Pattern.toList_canonical, trimEnd_eq_self (hrest.endsProper hvalid hs hq).endsSolid]
    exact .intro blanks_nil hq hrest

def canonicalKey (text : String) : Except PatternError String :=
  (Pattern.parse text).map Pattern.canonical

/-- **A canonical key stands for its pattern.** If a text is read as a pattern, the canonical key of
the pattern is read as the same pattern, so that taking the canonical key again changes nothing; and
whatever other text is read, the canonical keys are equal if and only if the segments are. -/
theorem Pattern.canonical_faithful {text : String} {p : Pattern}
    (h : Pattern.parse text = .ok p) :
    Pattern.parse p.canonical = .ok p ∧
    canonicalKey p.canonical = canonicalKey text ∧
    ∀ (text' : String) (p' : Pattern), Pattern.parse text' = .ok p' →
      (p.canonical = p'.canonical ↔ p.segments = p'.segments) := by
  have hself : Pattern.parse p.canonical = .ok p := Pattern.parse_canonical (parse_eq_ok_iff.1 h).1
  refine ⟨hself, by rw [canonicalKey, canonicalKey, hself, h], ?_⟩
  intro text' p' h'
  have hself' : Pattern.parse p'.canonical = .ok p' :=
    Pattern.parse_canonical (parse_eq_ok_iff.1 h').1
  constructor
  · intro hkeys
    rw [hkeys, hself'] at hself
    rw [Except.ok.inj hself]
  · intro hsegments
    rw [Pattern.canonical, Pattern.canonical, hsegments]

/-- The `[` in the token `a"[` reaches to the `]` of the qualifier, however that is written. -/
theorem Pattern.canonical_faithful_bracket :
    ∃ p, Pattern.parse "\"a\"[\"[+07]>b" = .ok p ∧ Pattern.parse " \"a\"[\"[7]  >\tb" = .ok p ∧
      p.canonical = "\"a\"[\"[7] > b" ∧ Pattern.parse p.canonical = .ok p ∧
      canonicalKey p.canonical = canonicalKey "\"a\"[\"[+07]>b" := by
  have hplain : Pattern.parse "\"a\"[\"[+07]>b" =
      .ok ⟨[⟨"\"a\"[\"", some (.forward 7)⟩, ⟨"b", none⟩]⟩ :=
    toOption_eq_some_iff.1 (by decide +kernel)
  have hspaced : Pattern.parse " \"a\"[\"[7]  >\tb" =
      .ok ⟨[⟨"\"a\"[\"", some (.forward 7)⟩, ⟨"b", none⟩]⟩ :=
    toOption_eq_some_iff.1 (by decide +kernel)
  obtain ⟨hself, hkey, hkeys⟩ := Pattern.canonical_faithful hplain
  exact ⟨_, hplain, hspaced, by decide, hself, hkey⟩

/-- A number in the key of a pattern that can be read is one that can be read. -/
theorem inRange_of_canonical_eq {p : Pattern} (hp : Readable p.segments) {ss : List Segment}
    {key : String} {o : Order}
    (h : p.canonical = Pattern.canonical ⟨ss ++ [⟨key, some o⟩]⟩) : o.InRange := by
  obtain ⟨segments⟩ := p
  obtain ⟨front, last, rfl⟩ : ∃ front last, segments = front ++ [last] :=
    ⟨_, _, (List.dropLast_concat_getLast hp.ne_nil).symm⟩
  have hlast : last.Valid := hp.valid last (by simp)
  obtain ⟨a, ha⟩ := Pattern.exists_canonical_append front last
  obtain ⟨b, hb⟩ := Pattern.exists_canonical_append ss ⟨key, some o⟩
  have htext : a ++ (last.key.toList ++ orderText last.order) =
      (b ++ (key.toList ++ '[' :: o.body)) ++ [']'] := by
    rw [← ha, h, hb, orderText, o.toList_text]
    simp
  cases horder : last.order with
  | none =>
    -- The key would end in a bracket that is no qualifier.
    have hend := congrArg List.getLast? htext
    rw [horder, orderText, List.append_nil, List.getLast?_concat, List.getLast?_append] at hend
    rcases Option.or_eq_some_iff.1 hend with hend | ⟨hnil, -⟩
    · exact absurd hend (hlast.plain horder)
    · exact absurd (List.getLast?_eq_none_iff.1 hnil) hlast.key_ne_nil
  | some o' =>
    -- both keys end in a qualifier: cut at the last `[`, they have the same number
    have hcut : a ++ (last.key.toList ++ orderText last.order) =
        (a ++ last.key.toList ++ '[' :: o'.body) ++ [']'] := by
      rw [horder, orderText, o'.toList_text]
      simp
    have hsplit := congrArg splitLastBracket (List.append_cancel_right (hcut.symm.trans htext))
    rw [← List.append_assoc, splitLastBracket_append (isOrderChar_ne_bracket o'.isOrderChar_body).1,
      splitLastBracket_append (isOrderChar_ne_bracket o.isOrderChar_body).1] at hsplit
    have hbody : o'.body = o.body := (Prod.mk.inj (Option.some.inj hsplit)).2
    have hread : readOrder o.body = some o' := by
      rw [← hbody]
      exact Order.readOrder_body_iff.2 ⟨hlast.order o' horder, rfl⟩
    exact (Order.readOrder_body_iff.1 hread).1

/-! ### Chains of nodes -/

/-- The kinds of named nodes that a reader can tell the end of. -/
structure IsName (kind : String) : Prop where
  ne_nil : kind.toList ≠ []
  chars : ∀ c ∈ kind.toList, isBlank c = false ∧ c ≠ '"' ∧ c ≠ '>'
  last : kind.toList.getLast? ≠ some ']'

/-- The tokens that a reader can tell the end of: behind a quote comes neither a `[` nor, after
blanks, a `>`. -/
structure IsToken (kind : String) : Prop where
  ne_nil : kind.toList ≠ []
  quotes : ∀ a b, kind.toList = a ++ '"' :: b →
    b.head? ≠ some '[' ∧ (trimStart b).head? ≠ some '>'

end Scope

def Node.WellFormed (n : Node) : Prop :=
  if n.named then Scope.IsName n.kind else Scope.IsToken n.kind

namespace Scope

open Text

/-- A token without such quotes is read up to its last quote. -/
theorem closes_token {cs : List Char} (order : Option Order) (ss : List Segment)
    (h : ∀ a b, cs = a ++ '"' :: b → b.head? ≠ some '[' ∧ (trimStart b).head? ≠ some '>') :
    closes order ss (cs ++ ['"']) = true := by
  induction cs with
  | nil => rfl
  | cons c cs ih =>
    have htail := ih fun a b hcs => h (c :: a) b (by rw [hcs]; rfl)
    rw [List.cons_append, closes, htail]
    by_cases hc : c = '"'
    · obtain ⟨hbracket, hgt⟩ := h [] cs (by rw [hc]; rfl)
      have hhead : (cs ++ ['"']).head? ≠ some '[' := by
        cases cs with
        | nil => decide
        | cons d t => exact hbracket
      -- no segment may end at a quote inside the token: no `[` is skipped and no `>` follows, and
      -- if only blanks do, then the closing quote stops it
      have hends : endsHere (cs ++ ['"']) = false := by
        cases ht : trimStart cs with
        | nil =>
          have hblank := trimStart_eq_nil_iff.1 ht
          rw [endsHere_of_cons ((trimStart_append hblank _).trans (trimStart_cons (by decide) _))]
          rfl
        | cons d t =>
          rw [endsHere_append (by simp [ht]), endsHere_of_cons ht]
          simpa [ht] using hgt
      rw [closing_of_head (by simp) hhead, hends]
      simp
    · simp [hc]

/-- A text without blanks, quotes and `>` is a bare key. -/
theorem isKey_of_chars {key : List Char} (hne : key ≠ [])
    (h : ∀ c ∈ key, isBlank c = false ∧ c ≠ '"' ∧ c ≠ '>') : IsKey key := by
  unfold IsKey
  split
  · exact absurd rfl hne
  · next inner => exact absurd rfl (h '"' (by simp)).2.1
  · exact ⟨fun c hc => (h c hc).1, fun hmem => (h '"' hmem).2.1 rfl⟩

def Segment.OfNode (s : Segment) : Prop := ∃ n : Node, n.WellFormed ∧ s.key = n.key

theorem Segment.OfNode.name_or_token {s : Segment} (h : s.OfNode) :
    IsName s.key ∨ ∃ kind, IsToken kind ∧ s.key.toList = '"' :: (kind.toList ++ ['"']) := by
  obtain ⟨n, hn, hkey⟩ := h
  unfold Node.WellFormed at hn
  split at hn
  · next hnamed => exact .inl (by rwa [hkey, Node.key, if_pos hnamed])
  · next hnamed => exact .inr ⟨n.kind, hn, by rw [hkey, Node.key, if_neg hnamed]; simp⟩

/-- A token without such quotes is the key of a segment. -/
theorem IsToken.valid {kind : String} (h : IsToken kind) {s : Segment}
    (hkey : s.key.toList = '"' :: (kind.toList ++ ['"']))
    (horder : ∀ o, s.order = some o → o.InRange) : s.Valid := by
  have hlast : s.key.toList.getLast? = some '"' := by
    rw [hkey, ← List.cons_append, List.getLast?_concat]
  -- a key in quotes is neither bare nor ends in a `]`
  refine ⟨?_, ?_, ?_, horder⟩
  · rw [hkey]
    refine ⟨?_, List.getLast?_concat⟩
    have hpos := List.length_pos_iff.2 h.ne_nil
    simp only [List.length_append, List.length_singleton]
    omega
  · intro hbare
    simp [Segment.isLiteral, hkey] at hbare
  · intro _
    rw [hlast]
    decide

/-- The key of a well-formed node can be read on its own. -/
theorem Segment.OfNode.valid {s : Segment} (h : s.OfNode)
    (horder : ∀ o, s.order = some o → o.InRange) : s.Valid := by
  rcases h.name_or_token with hname | ⟨kind, htoken, hkey⟩
  · exact ⟨isKey_of_chars hname.ne_nil hname.chars, fun _ hmem => (hname.chars '>' hmem).2.2 rfl,
      fun _ => hname.last, horder⟩
  · exact htoken.valid hkey horder

/-- Tokens without such quotes are read up to their ends. -/
theorem legible_of_tokens {ss : List Segment}
    (h : ∀ s ∈ ss, s.isLiteral = true →
      ∃ kind, IsToken kind ∧ s.key.toList = '"' :: (kind.toList ++ ['"'])) :
    legible ss = true := by
  induction ss with
  | nil => rfl
  | cons s ss ih =>
    have htail := ih fun t ht => h t (by simp [ht])
    rw [legible, htail, Bool.and_true]
    cases hliteral : s.isLiteral with
    | false => rfl
    | true =>
      obtain ⟨kind, htoken, hkey⟩ := h s (by simp) hliteral
      rw [hkey, List.tail_cons, closes_token s.order ss htoken.quotes, Bool.or_true]

theorem legible_of_nodes {ss : List Segment} (h : ∀ s ∈ ss, s.OfNode) : legible ss = true := by
  apply legible_of_tokens
  intro s hs hliteral
  rcases (h s hs).name_or_token with hname | htoken
  · -- a key that starts with a quote is no name
    have hquote : '"' ∈ s.key.toList := by
      rw [Segment.isLiteral, beq_iff_eq] at hliteral
      exact List.mem_of_mem_head? hliteral
    exact absurd rfl (hname.chars '"' hquote).2.1
  · exact htoken

/-- A chain of well-formed nodes is read back from its texts. -/
theorem readable_of_nodes {ss : List Segment} (hne : ss ≠ []) (h : ∀ s ∈ ss, s.OfNode)
    (horder : ∀ s ∈ ss, ∀ o, s.order = some o → o.InRange) : Readable ss :=
  ⟨hne, fun s hs => (h s hs).valid (horder s hs), legible_of_nodes h⟩

/-- A pattern that can be read and a chain of well-formed nodes with the same key are the same
pattern. -/
theorem Pattern.eq_of_canonical_eq {p : Pattern} (hp : Readable p.segments) {ss : List Segment}
    {s : Segment} (hnodes : ∀ t ∈ ss ++ [s], t.OfNode) (hplain : ∀ t ∈ ss, t.order = none)
    (h : p.canonical = Pattern.canonical ⟨ss ++ [s]⟩) : p = ⟨ss ++ [s]⟩ := by
  -- only the last segment has a qualifier, and its number is read from the key of `p`
  have horder : ∀ t ∈ ss ++ [s], ∀ o, t.order = some o → o.InRange := by
    intro t ht o ho
    rcases List.mem_append.1 ht with ht | ht
    · rw [hplain t ht] at ho
      simp at ho
    · obtain rfl := List.mem_singleton.1 ht
      obtain ⟨key, order⟩ := t
      obtain rfl : order = some o := ho
      exact inRange_of_canonical_eq hp h
  -- both keys are read back, and they are the same text
  have hchain := Pattern.parse_canonical (p := ⟨ss ++ [s]⟩)
    (readable_of_nodes (by simp) hnodes horder)
  rw [← h, Pattern.parse_canonical hp] at hchain
  exact Except.ok.inj hchain

end Scope

end SyntaxHighlight
