import SyntaxHighlight.Proofs.Text.Positions
import SyntaxHighlight.Proofs.Tree.Postorder

/-!
# Trees laid out over a text

The nodes of a tree lie over a text: a child lies inside its parent, and siblings stand in order and
side by side. So the nodes that contain one cell lie one inside the other, and a walk comes to the
inner one first (`Tree.LaidOut.pairwise_nested`).
-/

namespace SyntaxHighlight

namespace Cursor

def range (c : Cursor) : Range := c.node.range

def depth (c : Cursor) : Nat := c.crumbs.length

/-- If two places contain a cell, the first is inside and below the second. -/
def Nested (p : Position) (c d : Cursor) : Prop :=
  c.range.Contains p → d.range.Contains p → c.range.Within d.range ∧ d.depth < c.depth

end Cursor

namespace Tree

open Cursor

/-- A tree lies over a text: its ranges start and end at positions of the text, children lie inside
their parents, and of two siblings the first ends before the other starts. -/
inductive LaidOut (text : String) : Tree → Prop
  | node {l : Node} {children : List Tree}
      (start : l.range.start.InText text) (stop : l.range.stop.InText text)
      (inside : ∀ t ∈ children, t.label.range.Within l.range)
      (apart : children.Pairwise fun s t =>
        s.label.range.stop.notAfter t.label.range.start = true)
      (below : ∀ t ∈ children, LaidOut text t) :
      LaidOut text (.node l children)

/-- The places of a tree, children before their parents and from left to right. -/
def places (t : Tree) : List Cursor := (Cursor.ofTree t).postorder

variable {text : String} {t : Tree}

/-- A tree that is laid out ends at a position of the text. -/
theorem LaidOut.stop (h : t.LaidOut text) : t.label.range.stop.InText text := by
  cases h with
  | node _ stop _ _ _ => exact stop

/-- What is known of every place at and below the root of a tree. -/
theorem LaidOut.of_mem (h : t.LaidOut text) : ∀ {crumbs : List Crumb} {c : Cursor},
    c ∈ postorderFrom crumbs t →
      c.range.Within t.label.range ∧ crumbs.length ≤ c.depth ∧ c.focus.LaidOut text := by
  induction h with
  | @node l children start stop inside apart below ih =>
    intro crumbs c hc
    rw [postorderFrom, List.mem_append, List.mem_singleton] at hc
    rcases hc with hc | rfl
    · -- A place below the root lies inside a child, and so inside the root.
      obtain ⟨t, ht, crumb, hc⟩ := mem_childrenPostorder hc
      obtain ⟨hwithin, hdepth, hlaid⟩ := ih t ht hc
      refine ⟨hwithin.trans (inside t ht), ?_, hlaid⟩
      rw [List.length_cons] at hdepth
      omega
    · exact ⟨Range.within_refl _, Nat.le_refl _, .node start stop inside apart below⟩

/-- No cell is contained in two siblings. -/
theorem not_contains_both {c d : Cursor} {s : Tree} {p : Position}
    (apart : t.label.range.stop.notAfter s.label.range.start = true)
    (hc : c.range.Within t.label.range) (hd : d.range.Within s.label.range)
    (hcp : c.range.Contains p) : ¬ d.range.Contains p := by
  intro hdp
  -- The cell would be before the end of the first and not before the start of the second.
  have hstop : p.before t.label.range.stop = true :=
    Position.before_of_before_of_notAfter hcp.2 hc.2
  have hstart : p.before d.range.start = true :=
    Position.before_of_before_of_notAfter hstop (Position.notAfter_trans apart hd.1)
  have hnot : d.range.start.notAfter p = true := hdp.1
  rw [Position.notAfter, hstart] at hnot
  cases hnot

/-- Below one parent, places that contain one cell are nested, since they are below the same
child. -/
theorem pairwise_nested_children (p : Position) (l : Node) (crumbs : List Crumb) {ts : List Tree}
    (hlaid : ∀ t ∈ ts, t.LaidOut text)
    (hnested : ∀ t ∈ ts, ∀ crumbs, (postorderFrom crumbs t).Pairwise (Nested p))
    (apart : ts.Pairwise fun s t => s.label.range.stop.notAfter t.label.range.start = true) :
    ∀ before, (childrenPostorder l crumbs before ts).Pairwise (Nested p) := by
  induction ts with
  | nil =>
    intro before
    rw [childrenPostorder]
    exact .nil
  | cons t after ih =>
    intro before
    rw [List.pairwise_cons] at apart
    rw [childrenPostorder, List.pairwise_append]
    refine ⟨hnested t List.mem_cons_self _, ?_, ?_⟩
    · exact ih (fun s hs => hlaid s (List.mem_cons_of_mem t hs))
        (fun s hs => hnested s (List.mem_cons_of_mem t hs)) apart.2 _
    · -- The one is at or below a child, the other at or below one of its later siblings.
      intro c hc d hd hcp hdp
      obtain ⟨s, hs, crumb, hd⟩ := mem_childrenPostorder hd
      have hcwithin := ((hlaid t List.mem_cons_self).of_mem hc).1
      have hdwithin := ((hlaid s (List.mem_cons_of_mem t hs)).of_mem hd).1
      exact absurd hdp (not_contains_both (apart.1 s hs) hcwithin hdwithin hcp)

/-- In the order of a walk, of two places that contain one cell the earlier is inside the later, and
deeper. -/
theorem LaidOut.pairwise_nested (h : t.LaidOut text) (p : Position) :
    ∀ crumbs, (postorderFrom crumbs t).Pairwise (Nested p) := by
  induction h with
  | @node l children start stop inside apart below ih =>
    intro crumbs
    rw [postorderFrom, List.pairwise_append]
    refine ⟨pairwise_nested_children p l crumbs below ih apart [], List.pairwise_singleton _ _, ?_⟩
    -- the root comes last, and all others are inside it
    intro c hc d hd _ _
    obtain rfl := List.mem_singleton.1 hd
    obtain ⟨t, ht, crumb, hc⟩ := mem_childrenPostorder hc
    obtain ⟨hwithin, hdepth, -⟩ := (below t ht).of_mem hc
    exact ⟨hwithin.trans (inside t ht), hdepth⟩

end Tree

end SyntaxHighlight
